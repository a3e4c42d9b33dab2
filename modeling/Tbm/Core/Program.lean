import Mathlib.Data.Option.Basic

/-! Programs of one thread over shared data guarded by mutexes and condition variables, and
their sequential execution. -/
namespace Tbm

/-- A program over mutexes `M`, condition variables `C`, observable events `E`, answers `I` of
code outside the program and shared data `S`. An access `f` that returns `none` is undefined
behaviour: the program has no step there. -/
inductive Prog (M C E I S α : Type) : Type 1
  | ret (a : α)
  | lock (m : M) (k : Prog M C E I S α)
  | unlock (m : M) (k : Prog M C E I S α)
  | wait (c : C) (m : M) (k : Prog M C E I S α)
  | signal (c : C) (k : Prog M C E I S α)
  | emit (e : E) (k : Prog M C E I S α)
  | input (k : I → Prog M C E I S α)
  | act {β : Type} (f : S → Option (β × S)) (k : β → Prog M C E I S α)

namespace Prog

variable {M C E I S α β : Type}

def bind : Prog M C E I S α → (α → Prog M C E I S β) → Prog M C E I S β
  | ret a, f => f a
  | lock m k, f => lock m (k.bind f)
  | unlock m k, f => unlock m (k.bind f)
  | wait c m k, f => wait c m (k.bind f)
  | signal c k, f => signal c (k.bind f)
  | emit e k, f => emit e (k.bind f)
  | input k, f => input fun x => (k x).bind f
  | act g k, f => act g fun b => (k b).bind f

instance : Monad (Prog M C E I S) where
  pure := ret
  bind := bind

@[simp] theorem pure_then (a : α) (f : α → Prog M C E I S β) : (pure a >>= f) = f a := rfl

@[simp] theorem bind_bind {γ : Type} (p : Prog M C E I S α) (f : α → Prog M C E I S β)
    (g : β → Prog M C E I S γ) : (p >>= f >>= g) = p >>= fun a => f a >>= g := by
  change (p.bind f).bind g = p.bind fun a => (f a).bind g
  induction p with
  | ret a => rfl
  | lock m k ih => exact congrArg (lock m) ih
  | unlock m k ih => exact congrArg (unlock m) ih
  | wait c m k ih => exact congrArg (wait c m) ih
  | signal c k ih => exact congrArg (signal c) ih
  | emit e k ih => exact congrArg (emit e) ih
  | input k ih => exact congrArg input (funext ih)
  | act h k ih => exact congrArg (act h) (funext ih)

theorem bind_pure (p : Prog M C E I S α) : (p >>= pure) = p := by
  change p.bind ret = p
  induction p with
  | ret a => rfl
  | lock m k ih => exact congrArg (lock m) ih
  | unlock m k ih => exact congrArg (unlock m) ih
  | wait c m k ih => exact congrArg (wait c m) ih
  | signal c k ih => exact congrArg (signal c) ih
  | emit e k ih => exact congrArg (emit e) ih
  | input k ih => exact congrArg input (funext ih)
  | act h k ih => exact congrArg (act h) (funext ih)

def mutexLock (m : M) : Prog M C E I S Unit := lock m (ret ())

def mutexUnlock (m : M) : Prog M C E I S Unit := unlock m (ret ())

def condWait (c : C) (m : M) : Prog M C E I S Unit := wait c m (ret ())

def condSignal (c : C) : Prog M C E I S Unit := signal c (ret ())

def notify (e : E) : Prog M C E I S Unit := emit e (ret ())

def answer : Prog M C E I S I := input ret

def access (f : S → Option (β × S)) : Prog M C E I S β := act f ret

def read (f : S → β) : Prog M C E I S β := access fun s => some (f s, s)

def modify (f : S → S) : Prog M C E I S Unit := access fun s => some ((), f s)

/-- Execution by a single thread. The mutexes are free when it asks for them, a wait is ended
by a wake-up without a signal, and code outside the program answers `x`. -/
def exec (x : I) : Prog M C E I S α → S → Option (α × S)
  | ret a, s => some (a, s)
  | lock _ k, s => k.exec x s
  | unlock _ k, s => k.exec x s
  | wait _ _ k, s => k.exec x s
  | signal _ k, s => k.exec x s
  | emit _ k, s => k.exec x s
  | input k, s => (k x).exec x s
  | act f k, s => (f s).bind fun r => (k r.1).exec x r.2

section Simp

variable (x : I) (s : S)

@[simp] theorem exec_pure (a : α) :
    exec x (pure a : Prog M C E I S α) s = some (a, s) := rfl

@[simp] theorem exec_mutexLock (m : M) :
    exec x (mutexLock m : Prog M C E I S Unit) s = some ((), s) := rfl

@[simp] theorem exec_mutexUnlock (m : M) :
    exec x (mutexUnlock m : Prog M C E I S Unit) s = some ((), s) := rfl

@[simp] theorem exec_condWait (c : C) (m : M) :
    exec x (condWait c m : Prog M C E I S Unit) s = some ((), s) := rfl

@[simp] theorem exec_condSignal (c : C) :
    exec x (condSignal c : Prog M C E I S Unit) s = some ((), s) := rfl

@[simp] theorem exec_notify (e : E) :
    exec x (notify e : Prog M C E I S Unit) s = some ((), s) := rfl

@[simp] theorem exec_answer : exec x (answer : Prog M C E I S I) s = some (x, s) := rfl

@[simp] theorem exec_access (f : S → Option (β × S)) :
    exec x (access f : Prog M C E I S β) s = f s := by
  cases hf : f s <;> simp [access, exec, hf]

@[simp] theorem exec_read (f : S → β) :
    exec x (read f : Prog M C E I S β) s = some (f s, s) := rfl

@[simp] theorem exec_modify (f : S → S) :
    exec x (modify f : Prog M C E I S Unit) s = some ((), f s) := rfl

@[simp] theorem exec_bind (p : Prog M C E I S α) (f : α → Prog M C E I S β) :
    exec x (p >>= f) s = (exec x p s).bind fun r => exec x (f r.1) r.2 := by
  change exec x (p.bind f) s = _
  induction p generalizing s with
  | ret a => rfl
  | lock m k ih => exact ih s
  | unlock m k ih => exact ih s
  | wait c m k ih => exact ih s
  | signal c k ih => exact ih s
  | emit e k ih => exact ih s
  | input k ih => exact ih x s
  | act g k ih => simp only [Prog.bind, exec, ih, Option.bind_assoc]

end Simp

/-- A program that ends by wrapping up its result. -/
theorem exec_return {x : I} {s s' : S} {p : Prog M C E I S α} {f : α → β} {b : β}
    (h : exec x (p >>= fun a => pure (f a)) s = some (b, s')) :
    ∃ a, exec x p s = some (a, s') ∧ f a = b := by
  rw [exec_bind] at h
  obtain ⟨⟨a, t⟩, ha, hb⟩ := Option.bind_eq_some_iff.mp h
  obtain ⟨rfl, rfl⟩ : f a = b ∧ t = s' := by simpa using hb
  exact ⟨a, ha, rfl⟩

/-- Every data step of the program stays inside the relation `P`. -/
def Acts (P : S → S → Prop) : Prog M C E I S α → Prop
  | ret _ => True
  | lock _ k => k.Acts P
  | unlock _ k => k.Acts P
  | wait _ _ k => k.Acts P
  | signal _ k => k.Acts P
  | emit _ k => k.Acts P
  | input k => ∀ x, (k x).Acts P
  | act f k => (∀ s b s', f s = some (b, s') → P s s') ∧ ∀ b, (k b).Acts P

section Acts

variable {P : S → S → Prop} {f : Unit → Prog M C E I S α}

/-- A preorder that contains every data step contains the execution. -/
theorem Acts.exec [Std.Refl P] [IsTrans S P] {p : Prog M C E I S α} (h : p.Acts P) {x : I}
    {a : α} {s s' : S} (he : p.exec x s = some (a, s')) : P s s' := by
  induction p generalizing s with
  | ret b =>
    obtain ⟨-, rfl⟩ : b = a ∧ s = s' := by simpa [Prog.exec] using he
    exact Std.Refl.refl s
  | lock m k ih => exact ih h he
  | unlock m k ih => exact ih h he
  | wait d m k ih => exact ih h he
  | signal d k ih => exact ih h he
  | emit e k ih => exact ih h he
  | input k ih => exact ih x (h x) he
  | act g k ih =>
    obtain ⟨⟨b, s₁⟩, hg, hk⟩ := Option.bind_eq_some_iff.mp he
    have hstep : P s s₁ := h.1 s b s₁ hg
    have hrest : P s₁ s' := ih b (h.2 b) hk
    exact IsTrans.trans s s₁ s' hstep hrest

@[simp] theorem acts_pure (a : α) : (pure a : Prog M C E I S α).Acts P := trivial

@[simp] theorem acts_mutexLock (m : M) : (mutexLock m >>= f).Acts P ↔ (f ()).Acts P := Iff.rfl

@[simp] theorem acts_mutexUnlock (m : M) : (mutexUnlock m >>= f).Acts P ↔ (f ()).Acts P := Iff.rfl

@[simp] theorem acts_condWait (c : C) (m : M) : (condWait c m >>= f).Acts P ↔ (f ()).Acts P :=
  Iff.rfl

@[simp] theorem acts_condSignal (c : C) : (condSignal c >>= f).Acts P ↔ (f ()).Acts P := Iff.rfl

@[simp] theorem acts_notify (e : E) : (notify e >>= f).Acts P ↔ (f ()).Acts P := Iff.rfl

theorem acts_access {g : S → Option (β × S)} {f : β → Prog M C E I S α} :
    (access g >>= f).Acts P ↔
      (∀ s b s', g s = some (b, s') → P s s') ∧ ∀ b, (f b).Acts P := Iff.rfl

@[simp] theorem acts_modify {g : S → S} :
    (modify g >>= f).Acts P ↔ (∀ s, P s (g s)) ∧ (f ()).Acts P := by
  refine (acts_access (g := fun s => some ((), g s))).trans ⟨fun h => ⟨fun s => ?_, h.2 ()⟩,
    fun h => ⟨fun s b s' he => ?_, fun _ => h.2⟩⟩
  · exact h.1 s () (g s) rfl
  · obtain ⟨-, rfl⟩ : () = b ∧ g s = s' := by simpa using he
    exact h.1 s

@[simp] theorem acts_read [Std.Refl P] {g : S → β} {f : β → Prog M C E I S α} :
    (read g >>= f).Acts P ↔ ∀ b, (f b).Acts P := by
  refine (acts_access (g := fun s => some (g s, s))).trans ⟨fun h => h.2, fun h => ⟨?_, h⟩⟩
  intro s b s' he
  obtain ⟨-, rfl⟩ : g s = b ∧ s = s' := by simpa using he
  exact Std.Refl.refl s

/-- An access that looks something up. -/
@[simp] theorem acts_lookup [Std.Refl P] {g : S → Option β} {f : β → Prog M C E I S α} :
    ((access fun s => (g s).bind fun b => some (b, s)) >>= f).Acts P ↔ ∀ b, (f b).Acts P := by
  rw [acts_access]
  refine ⟨fun h => h.2, fun h => ⟨fun s b s' he => ?_, h⟩⟩
  obtain ⟨c, -, hc⟩ := Option.bind_eq_some_iff.mp he
  obtain ⟨-, rfl⟩ : c = b ∧ s = s' := by simpa using hc
  exact Std.Refl.refl s

/-- An access that changes the data or is not defined. -/
@[simp] theorem acts_update {g : S → Option S} :
    ((access fun s => (g s).bind fun s' => some ((), s')) >>= f).Acts P ↔
      (∀ s s', g s = some s' → P s s') ∧ (f ()).Acts P := by
  rw [acts_access]
  refine ⟨fun h => ⟨fun s s' hg => ?_, h.2 ()⟩, fun h => ⟨fun s b s' he => ?_, fun _ => h.2⟩⟩
  · exact h.1 s () s' (by simp [hg])
  · obtain ⟨t, ht, hc⟩ := Option.bind_eq_some_iff.mp he
    obtain rfl : t = s' := by simpa using hc
    exact h.1 s t ht

@[simp] theorem acts_ite {c : Prop} [Decidable c] {p p' : Prog M C E I S α} :
    (if c then p else p').Acts P ↔ (c → p.Acts P) ∧ (¬c → p'.Acts P) := by
  by_cases hc : c <;> simp [hc]

@[simp] theorem acts_ite_bind {c : Prop} [Decidable c] {p p' : Prog M C E I S β}
    {f : β → Prog M C E I S α} : ((if c then p else p') >>= f).Acts P ↔
      (c → (p >>= f).Acts P) ∧ (¬c → (p' >>= f).Acts P) := by
  by_cases hc : c <;> simp [hc]

end Acts

end Prog

end Tbm
