import Tbm.Core.Program
import Mathlib.Logic.Function.Basic

/-! Programs that run alone, under fixed answers of the code outside: their invariants and the
mutexes they hold. -/
namespace Tbm.Prog

variable {M C E I S α β : Type} {x : I} {P : S → Prop}

/-- The program keeps `P` if it returns. -/
def Upholds (x : I) (P : S → Prop) (p : Prog M C E I S α) : Prop :=
  ∀ s a s', P s → p.exec x s = some (a, s') → P s'

namespace Upholds

theorem pure (a : α) : Upholds x P (pure a : Prog M C E I S α) := by
  intro s b s' hs he
  obtain ⟨-, rfl⟩ : a = b ∧ s = s' := by simpa using he
  exact hs

theorem bind {p : Prog M C E I S β} {f : β → Prog M C E I S α} (hp : Upholds x P p)
    (hf : ∀ b, Upholds x P (f b)) : Upholds x P (p >>= f) := by
  intro s a s' hs he
  rw [exec_bind] at he
  obtain ⟨⟨b, t⟩, hb, ha⟩ := Option.bind_eq_some_iff.mp he
  exact hf b t a s' (hp s b t hs hb) ha

theorem access {f : S → Option (α × S)} (h : ∀ s a s', P s → f s = some (a, s') → P s') :
    Upholds x P (access f : Prog M C E I S α) := by
  intro s a s' hs he
  rw [exec_access] at he
  exact h s a s' hs he

theorem modify {f : S → S} (h : ∀ s, P s → P (f s)) :
    Upholds x P (modify f : Prog M C E I S Unit) := by
  intro s a s' hs he
  obtain ⟨-, rfl⟩ : () = a ∧ f s = s' := by simpa using he
  exact h s hs

theorem read (f : S → α) : Upholds x P (read f : Prog M C E I S α) := by
  intro s a s' hs he
  obtain ⟨-, rfl⟩ : f s = a ∧ s = s' := by simpa using he
  exact hs

/-- An access that looks something up. -/
theorem lookup (f : S → Option α) :
    Upholds x P (Prog.access fun s => (f s).map (·, s) : Prog M C E I S α) := by
  intro s a s' hs he
  rw [exec_access] at he
  obtain ⟨b, -, hb⟩ := Option.map_eq_some_iff.mp he
  obtain ⟨-, rfl⟩ := Prod.mk.inj hb
  exact hs

theorem answer {f : I → Prog M C E I S α} (h : Upholds x P (f x)) :
    Upholds x P (answer >>= f) := by
  intro s a s' hs he
  rw [exec_bind, exec_answer] at he
  exact h s a s' hs he

theorem mutexLock (m : M) : Upholds x P (mutexLock m : Prog M C E I S Unit) := by
  intro s a s' hs he
  obtain ⟨-, rfl⟩ : () = a ∧ s = s' := by simpa using he
  exact hs

theorem mutexUnlock (m : M) : Upholds x P (mutexUnlock m : Prog M C E I S Unit) := by
  intro s a s' hs he
  obtain ⟨-, rfl⟩ : () = a ∧ s = s' := by simpa using he
  exact hs

theorem ite {c : Prop} [Decidable c] {p q : Prog M C E I S α} (hp : c → Upholds x P p)
    (hq : ¬c → Upholds x P q) : Upholds x P (if c then p else q) := by
  by_cases hc : c
  · rw [if_pos hc]
    exact hp hc
  · rw [if_neg hc]
    exact hq hc

end Upholds

section Solo

variable [DecidableEq M]

/-- Execution by a single thread that holds the mutexes `H`. A thread that asks for a mutex it
holds, or gives back one it does not, has no step. -/
def solo (x : I) : Prog M C E I S α → (M → Bool) → S → Option (α × (M → Bool) × S)
  | ret a, H, s => some (a, H, s)
  | lock m k, H, s => if H m then none else k.solo x (Function.update H m true) s
  | unlock m k, H, s => if H m then k.solo x (Function.update H m false) s else none
  | wait _ m k, H, s => if H m then k.solo x H s else none
  | signal _ k, H, s => k.solo x H s
  | emit _ k, H, s => k.solo x H s
  | input k, H, s => (k x).solo x H s
  | act f k, H, s => (f s).bind fun r => (k r.1).solo x H r.2

theorem exec_of_solo {p : Prog M C E I S α} {H H' : M → Bool} {s s' : S} {a : α}
    (h : p.solo x H s = some (a, H', s')) : p.exec x s = some (a, s') := by
  induction p generalizing H s with
  | ret b =>
    obtain ⟨rfl, -, rfl⟩ : b = a ∧ H = H' ∧ s = s' := by simpa [solo] using h
    rfl
  | lock m k ih =>
    rw [solo] at h
    by_cases hm : H m = true
    · rw [if_pos hm] at h
      exact absurd h (by simp)
    · rw [if_neg hm] at h
      exact ih h
  | unlock m k ih =>
    rw [solo] at h
    by_cases hm : H m = true
    · rw [if_pos hm] at h
      exact ih h
    · rw [if_neg hm] at h
      exact absurd h (by simp)
  | wait d m k ih =>
    rw [solo] at h
    by_cases hm : H m = true
    · rw [if_pos hm] at h
      exact ih h
    · rw [if_neg hm] at h
      exact absurd h (by simp)
  | signal d k ih => exact ih h
  | emit e k ih => exact ih h
  | input k ih => exact ih x h
  | act f k ih =>
    obtain ⟨⟨b, t⟩, hf, hk⟩ := Option.bind_eq_some_iff.mp h
    simp [exec, hf, ih b hk]

@[simp] theorem solo_pure (a : α) (H : M → Bool) (s : S) :
    solo x (Pure.pure a : Prog M C E I S α) H s = some (a, H, s) := rfl

@[simp] theorem solo_answer (H : M → Bool) (s : S) :
    solo x (Prog.answer : Prog M C E I S I) H s = some (x, H, s) := rfl

@[simp] theorem solo_mutexLock (m : M) (H : M → Bool) (s : S) :
    solo x (mutexLock m : Prog M C E I S Unit) H s =
      if H m then none else some ((), Function.update H m true, s) := rfl

@[simp] theorem solo_mutexUnlock (m : M) (H : M → Bool) (s : S) :
    solo x (mutexUnlock m : Prog M C E I S Unit) H s =
      if H m then some ((), Function.update H m false, s) else none := rfl

@[simp] theorem solo_bind (p : Prog M C E I S β) (f : β → Prog M C E I S α) (H : M → Bool) (s : S) :
    solo x (p >>= f) H s = (solo x p H s).bind fun r => solo x (f r.1) r.2.1 r.2.2 := by
  change solo x (p.bind f) H s = _
  induction p generalizing H s with
  | ret b => rfl
  | lock m k ih => by_cases hm : H m = true <;> simp [Prog.bind, solo, hm, ih]
  | unlock m k ih => by_cases hm : H m = true <;> simp [Prog.bind, solo, hm, ih]
  | wait d m k ih => by_cases hm : H m = true <;> simp [Prog.bind, solo, hm, ih]
  | signal d k ih => exact ih H s
  | emit e k ih => exact ih H s
  | input k ih => exact ih x H s
  | act g k ih => simp only [Prog.bind, solo, ih, Option.bind_assoc]

end Solo

end Tbm.Prog
