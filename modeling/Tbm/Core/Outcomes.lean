import Tbm.Core.Program

/-! Programs that run alone while the code outside answers each question as it likes, within what
is known of it: where all of their executions end. -/
namespace Tbm

/-- The question is one of `q`, whose answer `k` goes on with. -/
def Prog.Asks {M C E I S α β : Type} (k : I → Prog M C E I S α) (q : I → Prog M C E I S β) : Prop :=
  ∃ f, k = fun x => q x >>= f

theorem Prog.Asks.bind {M C E I S α β γ : Type} {k : I → Prog M C E I S α}
    {q : I → Prog M C E I S β} (h : Asks k q) (f : α → Prog M C E I S γ) :
    Asks (fun x => k x >>= f) q := by
  obtain ⟨g, rfl⟩ := h
  exact ⟨fun b => g b >>= f, by simp only [bind_bind]⟩

/-- What the code outside may answer to a program that goes on with `k`, whatever comes after. -/
structure Outside (M C E I S : Type) : Type 1 where
  may : ∀ {α : Type}, (I → Prog M C E I S α) → S → I → Prop
  bind : ∀ {α β : Type} {k : I → Prog M C E I S α} {f : α → Prog M C E I S β} {s : S} {x : I},
    may (fun x => k x >>= f) s x → may k s x

namespace Prog

variable {M C E I S α β : Type} (L : Outside M C E I S) (U : S → Prop)

/-- Every execution by a single thread comes to its end, in `Q`, unless it gets to a step that is
not defined, and then `U` holds. -/
def Ends : Prog M C E I S α → S → (α → S → Prop) → Prop
  | ret a, s, Q => Q a s
  | lock _ k, s, Q => k.Ends s Q
  | unlock _ k, s, Q => k.Ends s Q
  | wait _ _ k, s, Q => k.Ends s Q
  | signal _ k, s, Q => k.Ends s Q
  | emit _ k, s, Q => k.Ends s Q
  | input k, s, Q => ∀ x, L.may k s x → (k x).Ends s Q
  | act f k, s, Q => (f s = none → U s) ∧ ∀ b t, f s = some (b, t) → (k b).Ends t Q

variable {L U} {s : S} {Q Q' : α → S → Prop}

namespace Ends

theorem mono {p : Prog M C E I S α} (h : p.Ends L U s Q) (hQ : ∀ a t, Q a t → Q' a t) :
    p.Ends L U s Q' := by
  induction p generalizing s with
  | ret a => exact hQ a s h
  | lock m k ih => exact ih h
  | unlock m k ih => exact ih h
  | wait c m k ih => exact ih h
  | signal c k ih => exact ih h
  | emit e k ih => exact ih h
  | input k ih => exact fun x hx => ih x (h x hx)
  | act f k ih => exact ⟨h.1, fun b t hf => ih b (h.2 b t hf)⟩

theorem pure {a : α} (h : Q a s) : (pure a : Prog M C E I S α).Ends L U s Q := h

theorem bind {p : Prog M C E I S β} {f : β → Prog M C E I S α}
    (h : p.Ends L U s fun b t => (f b).Ends L U t Q) : (p >>= f).Ends L U s Q := by
  change (p.bind f).Ends L U s Q
  induction p generalizing s with
  | ret b => exact h
  | lock m k ih => exact ih h
  | unlock m k ih => exact ih h
  | wait c m k ih => exact ih h
  | signal c k ih => exact ih h
  | emit e k ih => exact ih h
  | input k ih => exact fun x hx => ih x (h x (L.bind hx))
  | act g k ih => exact ⟨h.1, fun b t hg => ih b (h.2 b t hg)⟩

theorem access {f : S → Option (α × S)} (hU : f s = none → U s)
    (h : ∀ a t, f s = some (a, t) → Q a t) :
    (access f : Prog M C E I S α).Ends L U s Q := ⟨hU, h⟩

/-- An access that is defined. -/
theorem access_eq {f : S → Option (α × S)} {a : α} {t : S} (hf : f s = some (a, t)) (h : Q a t) :
    (Prog.access f : Prog M C E I S α).Ends L U s Q := by
  refine access (fun hn => ?_) fun b u hb => ?_
  · rw [hf] at hn
    cases hn
  · rw [hf] at hb
    obtain ⟨rfl, rfl⟩ := Prod.mk.inj (Option.some.inj hb)
    exact h

theorem read {f : S → α} (h : Q (f s) s) : (read f : Prog M C E I S α).Ends L U s Q :=
  access_eq rfl h

/-- A question, with what the answer is for. -/
theorem ask {k : I → Prog M C E I S α} (h : ∀ x, L.may k s x → (k x).Ends L U s Q) :
    (answer >>= k).Ends L U s Q := h

/-- A critical section. -/
theorem inside {m : M} {p : Prog M C E I S α} (h : p.Ends L U s Q) :
    (do
      mutexLock m
      let a ← p
      mutexUnlock m
      return a).Ends L U s Q :=
  bind (bind (h.mono fun _ _ hQ => bind hQ))

end Ends

end Prog

end Tbm
