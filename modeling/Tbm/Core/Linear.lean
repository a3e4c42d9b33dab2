import Tbm.Core.Threads

/-! Shared objects whose data one mutex guards. A call takes effect in a section in which its
thread holds the mutex, so that every schedule looks as if calls took effect one at a time, each
of them between its start and its return. -/
namespace Tbm

/-- What the clients of an object see of a schedule. -/
inductive Happening (T Op R : Type)
  | call (t : T) (op : Op)
  | ret (t : T) (op : Op) (a : R)
  deriving DecidableEq, Repr

/-- Whether the call of a thread has taken effect yet. -/
inductive Stage (Op R : Type)
  | idle
  | called (op : Op)
  | done (op : Op) (a : R)
  deriving DecidableEq, Repr

/-- What is promised about the calls (`calls`), about the data a section starts from (`enters`) and
about the answers of code outside (`answers`), and what a call may do: a section can leave it to a
later one to take effect (`skips`) or take effect itself (`commits`). Under `safe` every access to
the data is defined. -/
structure Contract (I S Op R : Type) where
  inv : S → Prop
  calls : Op → Prop
  enters : Op → S → Prop
  answers : Op → S → I → Prop
  skips : Op → S → S → Prop
  commits : Op → S → R → S → Prop
  safe : Prop

/-- An object all of whose calls take effect at once. -/
structure Object (T S Op R : Type) where
  data : S
  stage : T → Stage Op R

namespace Object

variable {T I S Op R : Type}

/-- No call has been made. -/
def initial (s : S) : Object T S Op R := ⟨s, fun _ => .idle⟩

variable [DecidableEq T]

def setStage (o : Object T S Op R) (t : T) (st : Stage Op R) : Object T S Op R :=
  { o with stage := Function.update o.stage t st }

section Fields

variable (o : Object T S Op R) {t u : T} (st : Stage Op R)

@[simp] theorem setStage_self : (o.setStage t st).stage t = st := Function.update_self ..

theorem setStage_of_ne (h : u ≠ t) : (o.setStage t st).stage u = o.stage u :=
  Function.update_of_ne h ..

end Fields

/-- One step of the object, and what the clients see of it. -/
inductive Step (L : Contract I S Op R) (o : Object T S Op R) :
    Option (Happening T Op R) → Object T S Op R → Prop
  | call {t op} (h : o.stage t = .idle) : Step L o (some (.call t op)) (o.setStage t (.called op))
  | skip {t op s} (h : o.stage t = .called op) (hs : L.skips op o.data s) :
    Step L o none { o with data := s }
  | commit {t op a s} (h : o.stage t = .called op) (hc : L.commits op o.data a s) :
    Step L o none ({ o with data := s }.setStage t (.done op a))
  | ret {t op a} (h : o.stage t = .done op a) : Step L o (some (.ret t op a)) (o.setStage t .idle)

/-- Any number of steps, and what the clients see of them. -/
inductive Steps (L : Contract I S Op R) (o : Object T S Op R) :
    List (Happening T Op R) → Object T S Op R → Prop
  | refl : Steps L o [] o
  | tail {l e o' o''} (h : Steps L o l o') (hs : Step L o' e o'') : Steps L o (l ++ e.toList) o''

theorem Steps.trans {L : Contract I S Op R} {o o' o'' : Object T S Op R}
    {l l' : List (Happening T Op R)} (h : o.Steps L l o') (h' : o'.Steps L l' o'') :
    o.Steps L (l ++ l') o'' := by
  induction h' with
  | refl => rwa [List.append_nil]
  | tail _ hs ih =>
    rw [← List.append_assoc]
    exact ih.tail hs

theorem Steps.invariant {L : Contract I S Op R} {P : S → Prop} {o o' : Object T S Op R}
    {l : List (Happening T Op R)} (h : o.Steps L l o')
    (hskip : ∀ op s s', P s → L.skips op s s' → P s')
    (hcommit : ∀ op s a s', P s → L.commits op s a s' → P s') (ho : P o.data) : P o'.data := by
  induction h with
  | refl => exact ho
  | tail _ hs ih =>
    cases hs with
    | call => exact ih
    | skip _ hk => exact hskip _ _ _ ih hk
    | commit _ hc => exact hcommit _ _ _ _ ih hc
    | ret => exact ih

/-- An object that simulates another one has all of its histories. -/
theorem Steps.simulate {A : Type} {L : Contract I S Op R} {K : Contract I A Op R}
    {ρ : S → A → Prop} {o o' : Object T S Op R} {l : List (Happening T Op R)} (h : o.Steps L l o')
    (hskip : ∀ op s s' m, ρ s m → L.skips op s s' → ∃ m', K.skips op m m' ∧ ρ s' m')
    (hcommit : ∀ op s a s' m, ρ s m → L.commits op s a s' → ∃ m', K.commits op m a m' ∧ ρ s' m')
    {m : A} (ho : ρ o.data m) :
    ∃ m', (⟨m, o.stage⟩ : Object T A Op R).Steps K l ⟨m', o'.stage⟩ ∧ ρ o'.data m' := by
  induction h with
  | refl => exact ⟨m, .refl, ho⟩
  | tail _ hs ih =>
    obtain ⟨m₁, hl, hm⟩ := ih
    cases hs with
    | call hi => exact ⟨m₁, hl.tail (.call hi), hm⟩
    | skip hi hk =>
      obtain ⟨m₂, hk', hm'⟩ := hskip _ _ _ _ hm hk
      exact ⟨m₂, hl.tail (.skip hi hk'), hm'⟩
    | commit hi hc =>
      obtain ⟨m₂, hc', hm'⟩ := hcommit _ _ _ _ _ hm hc
      exact ⟨m₂, hl.tail (.commit hi hc'), hm'⟩
    | ret hi => exact ⟨m₁, hl.tail (.ret hi), hm⟩

end Object

/-- Where a call is: before the section in which it takes effect, in a section that started from
`s₀` and has come to `s`, or past it. -/
inductive Mode (S R : Type)
  | before
  | inside (s₀ s : S)
  | after (a : R)

namespace Contract

variable {M C E I S Op R : Type} [DecidableEq M] (L : Contract I S Op R) (g : M) (op : Op)

/-- The program keeps to the contract: it uses the data in sections only, it takes effect in one of
them and has no section after that. -/
def Sections : Prog M C E I S R → Mode S R → Prop
  | .ret a, m => m = .after a
  | .lock n k, m =>
    if n = g then m = .before ∧ ∀ s, L.inv s → L.enters op s → Sections k (.inside s s)
    else Sections k m
  | .unlock n k, m =>
    if n = g then ∃ s₀ s, m = .inside s₀ s ∧ L.inv s ∧
      ((∃ a, L.commits op s₀ a s ∧ Sections k (.after a)) ∨ L.skips op s₀ s ∧ Sections k .before)
    else Sections k m
  | .wait _ n k, m => n ≠ g ∧ Sections k m
  | .signal _ k, m => Sections k m
  | .emit _ k, m => Sections k m
  | .input k, m => ∀ x, (∀ s₀ s, m = .inside s₀ s → L.answers op s x) → Sections (k x) m
  | .act f k, m => ∃ s₀ s, m = .inside s₀ s ∧ (L.safe → (f s).isSome) ∧
    ∀ b s', f s = some (b, s') → Sections (k b) (.inside s₀ s')

/-- Nothing is left but to return. -/
def Quiet : Prog M C E I S R → Prop
  | .ret _ => True
  | .lock n k | .unlock n k | .wait _ n k => n ≠ g ∧ Quiet k
  | .signal _ k | .emit _ k => Quiet k
  | .input _ | .act _ _ => False

/-- From data `s` the program comes to the end of its section, which started from `s₀`, without
waiting there. The call takes effect in this section, or the rest of it keeps to the contract. The
`Bool` is whether it may ask the code outside, which it does once at most and which answers in
`A`. -/
def Closes (s₀ : S) (A : I → Prop) : Bool → Prog M C E I S R → S → Prop
  | _, .ret _, _ => False
  | b, .lock n k, s => n ≠ g ∧ Closes s₀ A b k s
  | b, .unlock n k, s =>
    if n = g then Quiet g k ∨ (L.inv s ∧ L.skips op s₀ s ∧ L.Sections g op k .before)
    else Closes s₀ A b k s
  | _, .wait _ _ _, _ => False
  | b, .signal _ k, s | b, .emit _ k, s => Closes s₀ A b k s
  | b, .input k, s => b = true ∧ ∀ x, L.answers op s x → A x ∧ Closes s₀ A false (k x) s
  | b, .act f k, s => ∀ r s', f s = some (r, s') → Closes s₀ A b (k r) s'

variable {L g op} {A B : I → Prop} {b : Bool} {p : Prog M C E I S R} {s s₀ : S}

omit [DecidableEq M] in
theorem Quiet.exec [DecidableEq M] (h : Quiet g p) : ∃ a, (∀ x s, p.exec x s = some (a, s)) ∧
    L.Sections g op p (.after a) := by
  induction p with
  | ret a => exact ⟨a, fun _ _ => rfl, rfl⟩
  | lock n k ih | unlock n k ih =>
    obtain ⟨a, ha, hs⟩ := ih h.2
    refine ⟨a, ha, ?_⟩
    rw [Sections, if_neg h.1]
    exact hs
  | wait d n k ih =>
    obtain ⟨a, ha, hs⟩ := ih h.2
    exact ⟨a, ha, h.1, hs⟩
  | signal d k ih | emit e k ih => exact ih h
  | input k ih => exact h.elim
  | act f k ih => exact h.elim

/-- A section whose execution has an effect the contract allows. -/
theorem Closes.sections (h : L.Closes g op s₀ A b p s) (hB : b = true → B = A) (hne : ∃ x, B x)
    (hx : ∀ x a s', B x → p.exec x s = some (a, s') → L.inv s' ∧ L.commits op s₀ a s')
    (hsafe : L.safe → ∀ x, B x → (p.exec x s).isSome) : L.Sections g op p (.inside s₀ s) := by
  induction p generalizing b B s with
  | ret a => exact h.elim
  | lock n k ih =>
    rw [Sections, if_neg h.1]
    exact ih h.2 hB hne hx hsafe
  | unlock n k ih =>
    by_cases hn : n = g
    · rw [Closes, if_pos hn] at h
      rw [Sections, if_pos hn]
      rcases h with h | ⟨hi, hskip, hk⟩
      · obtain ⟨a, ha, hs⟩ :
            ∃ a, (∀ x s, k.exec x s = some (a, s)) ∧ L.Sections g op k (.after a) := h.exec
        obtain ⟨x, hBx⟩ := hne
        obtain ⟨hi, hc⟩ := hx x a s hBx (ha x s)
        exact ⟨s₀, s, rfl, hi, .inl ⟨a, hc, hs⟩⟩
      · exact ⟨s₀, s, rfl, hi, .inr ⟨hskip, hk⟩⟩
    · rw [Closes, if_neg hn] at h
      rw [Sections, if_neg hn]
      exact ih h hB hne hx hsafe
  | wait d n k ih => exact h.elim
  | signal d k ih | emit e k ih => exact ih h hB hne hx hsafe
  | input k ih =>
    obtain ⟨hb, hk⟩ := h
    obtain rfl := hB hb
    intro x hans
    obtain ⟨hA, hk⟩ := hk x (hans s₀ s rfl)
    refine ih x (B := (· = x)) hk nofun ⟨x, rfl⟩ ?_ ?_
    · rintro _ a s' rfl he
      exact hx _ a s' hA he
    · rintro hs _ rfl
      exact hsafe hs _ hA
  | act f k ih =>
    refine ⟨s₀, s, rfl, fun hs => ?_, fun r s' hf => ?_⟩
    · obtain ⟨x, hBx⟩ := hne
      have hdef := hsafe hs x hBx
      rw [Prog.exec] at hdef
      cases hf : f s with
      | none => simp [hf] at hdef
      | some r => rfl
    · refine ih r (h r s' hf) hB hne (fun x a t hBx he => ?_) fun hs x hBx => ?_
      · exact hx x a t hBx (by simp [Prog.exec, hf, he])
      · have hdef := hsafe hs x hBx
        simpa [Prog.exec, hf] using hdef

variable (L g op) in
/-- The program takes `g` first and gives it back for good in the same section. -/
def Locked (A : S → I → Prop) : Prog M C E I S R → Prop
  | .lock n k => n = g ∧ ∀ s, L.inv s → L.enters op s → L.Closes g op s (A s) true k s
  | _ => False

theorem Locked.sections {A : S → I → Prop} (h : L.Locked g op A p) (hA : ∀ s, ∃ x, A s x)
    (hx : ∀ s x a s', L.inv s → L.enters op s → A s x → p.exec x s = some (a, s') →
      L.inv s' ∧ L.commits op s a s')
    (hsafe : L.safe → ∀ s x, L.inv s → L.enters op s → A s x → (p.exec x s).isSome) :
    L.Sections g op p .before := by
  cases p with
  | lock n k =>
    rw [Sections, if_pos h.1]
    refine ⟨rfl, fun s hi he => ?_⟩
    refine (h.2 s hi he).sections (fun _ => rfl) (hA s) ?_ fun hs x hAx => hsafe hs s x hi he hAx
    exact fun x a s' hAx hex => hx s x a s' hi he hAx hex
  | ret _ | unlock _ _ | wait _ _ _ | signal _ _ | emit _ _ | input _ | act _ _ => exact h.elim

section Simp

open Prog

variable {β : Type} {n : M} {d : C} {e : E} {f : Unit → Prog M C E I S R} {m : Mode S R} {a : R}

omit [DecidableEq M]

@[simp] theorem quiet_pure : Quiet g (pure a : Prog M C E I S R) := trivial

@[simp] theorem quiet_notify : Quiet g (notify e >>= f) ↔ Quiet g (f ()) := Iff.rfl

variable [DecidableEq M]

@[simp] theorem closes_lock : L.Closes g op s₀ A b (mutexLock n >>= f) s ↔
    n ≠ g ∧ L.Closes g op s₀ A b (f ()) s := Iff.rfl

@[simp] theorem closes_unlock_self : L.Closes g op s₀ A b (mutexUnlock g >>= f) s ↔
    Quiet g (f ()) ∨ (L.inv s ∧ L.skips op s₀ s ∧ L.Sections g op (f ()) .before) := by
  change (if g = g then _ else _) ↔ _
  rw [if_pos rfl]
  exact Iff.rfl

theorem closes_unlock (h : n ≠ g) : L.Closes g op s₀ A b (mutexUnlock n >>= f) s ↔
    L.Closes g op s₀ A b (f ()) s := by
  change (if n = g then _ else _) ↔ _
  rw [if_neg h]
  exact Iff.rfl

@[simp] theorem closes_signal : L.Closes g op s₀ A b (condSignal d >>= f) s ↔
    L.Closes g op s₀ A b (f ()) s := Iff.rfl

@[simp] theorem closes_notify : L.Closes g op s₀ A b (notify e >>= f) s ↔
    L.Closes g op s₀ A b (f ()) s := Iff.rfl

@[simp] theorem closes_answer {f : I → Prog M C E I S R} :
    L.Closes g op s₀ A b (answer >>= f) s ↔
      b = true ∧ ∀ x, L.answers op s x → A x ∧ L.Closes g op s₀ A false (f x) s := Iff.rfl

theorem closes_access {h : S → Option (β × S)} {f : β → Prog M C E I S R} :
    L.Closes g op s₀ A b (access h >>= f) s ↔
      ∀ r s', h s = some (r, s') → L.Closes g op s₀ A b (f r) s' := Iff.rfl

@[simp] theorem closes_read {h : S → β} {f : β → Prog M C E I S R} :
    L.Closes g op s₀ A b (Prog.read h >>= f) s ↔ L.Closes g op s₀ A b (f (h s)) s := by
  refine (closes_access (h := fun s => some (h s, s))).trans ⟨fun hs => hs _ s rfl, ?_⟩
  intro hs r s' he
  obtain ⟨rfl, rfl⟩ : h s = r ∧ s = s' := by simpa using he
  exact hs

@[simp] theorem closes_modify {h : S → S} :
    L.Closes g op s₀ A b (modify h >>= f) s ↔ L.Closes g op s₀ A b (f ()) (h s) := by
  refine (closes_access (h := fun s => some ((), h s))).trans ⟨fun hs => hs () _ rfl, ?_⟩
  intro hs r s' he
  obtain rfl : h s = s' := by simpa using he
  exact hs

@[simp] theorem closes_lookup {h : S → Option β} {f : β → Prog M C E I S R} :
    L.Closes g op s₀ A b ((access fun s => (h s).bind fun x => some (x, s)) >>= f) s ↔
      ∀ x, h s = some x → L.Closes g op s₀ A b (f x) s := by
  rw [closes_access]
  refine ⟨fun hs x hx => hs x s (by simp [hx]), fun hs x s' he => ?_⟩
  obtain ⟨y, hy, e⟩ := Option.bind_eq_some_iff.mp he
  obtain ⟨rfl, rfl⟩ : y = x ∧ s = s' := by simpa using e
  exact hs y hy

@[simp] theorem closes_update {h : S → Option S} :
    L.Closes g op s₀ A b ((access fun s => (h s).bind fun x => some ((), x)) >>= f) s ↔
      ∀ s', h s = some s' → L.Closes g op s₀ A b (f ()) s' := by
  rw [closes_access]
  refine ⟨fun hs s' hx => hs () s' (by simp [hx]), fun hs x s' he => ?_⟩
  obtain ⟨y, hy, e⟩ := Option.bind_eq_some_iff.mp he
  obtain rfl : y = s' := by simpa using e
  exact hs y hy

@[simp] theorem closes_ite_bind {c : Prop} [Decidable c] {p p' : Prog M C E I S β}
    {f : β → Prog M C E I S R} : L.Closes g op s₀ A b ((if c then p else p') >>= f) s ↔
      (c → L.Closes g op s₀ A b (p >>= f) s) ∧ (¬c → L.Closes g op s₀ A b (p' >>= f) s) := by
  by_cases hc : c <;> simp [hc]

@[simp] theorem locked_lock {A : S → I → Prop} : L.Locked g op A (mutexLock g >>= f) ↔
    ∀ s, L.inv s → L.enters op s → L.Closes g op s (A s) true (f ()) s := by
  change (g = g ∧ _) ↔ _
  exact and_iff_right rfl

@[simp] theorem sections_pure : L.Sections g op (pure a : Prog M C E I S R) m ↔ m = .after a :=
  Iff.rfl

@[simp] theorem sections_lock : L.Sections g op (mutexLock g >>= f) m ↔
    m = .before ∧ ∀ s, L.inv s → L.enters op s → L.Sections g op (f ()) (.inside s s) := by
  change (if g = g then _ else _) ↔ _
  rw [if_pos rfl]
  exact Iff.rfl

@[simp] theorem sections_unlock : L.Sections g op (mutexUnlock g >>= f) (.inside s₀ s) ↔
    L.inv s ∧ ((∃ a, L.commits op s₀ a s ∧ L.Sections g op (f ()) (.after a)) ∨
      L.skips op s₀ s ∧ L.Sections g op (f ()) .before) := by
  change (if g = g then _ else _) ↔ _
  rw [if_pos rfl]
  constructor
  · rintro ⟨s₁, s', e, h⟩
    obtain ⟨rfl, rfl⟩ := Mode.inside.inj e
    exact h
  · intro h
    exact ⟨s₀, s, rfl, h⟩

theorem sections_unlock_of_ne (h : n ≠ g) : L.Sections g op (mutexUnlock n >>= f) m ↔
    L.Sections g op (f ()) m := by
  change (if n = g then _ else _) ↔ _
  rw [if_neg h]
  exact Iff.rfl

@[simp] theorem sections_condWait : L.Sections g op (condWait d n >>= f) m ↔
    n ≠ g ∧ L.Sections g op (f ()) m := Iff.rfl

@[simp] theorem sections_read {h : S → β} {f : β → Prog M C E I S R} :
    L.Sections g op (Prog.read h >>= f) (.inside s₀ s) ↔
      L.Sections g op (f (h s)) (.inside s₀ s) := by
  change (∃ s₁ s', _ ∧ (L.safe → _) ∧ ∀ r t, some (h s', s') = some (r, t) → _) ↔ _
  constructor
  · rintro ⟨s₁, s', e, -, hs⟩
    obtain ⟨rfl, rfl⟩ := Mode.inside.inj e
    exact hs _ _ rfl
  · intro hs
    refine ⟨s₀, s, rfl, fun _ => rfl, fun r t he => ?_⟩
    obtain ⟨rfl, rfl⟩ : h s = r ∧ s = t := by simpa using he
    exact hs

@[simp] theorem sections_ite_bind {c : Prop} [Decidable c] {p p' : Prog M C E I S β}
    {f : β → Prog M C E I S R} : L.Sections g op ((if c then p else p') >>= f) m ↔
      (c → L.Sections g op (p >>= f) m) ∧ (¬c → L.Sections g op (p' >>= f) m) := by
  by_cases hc : c <;> simp [hc]

end Simp

end Contract

namespace Config

variable {T M C E I S Op R : Type} [DecidableEq T] [DecidableEq M]
  (L : Contract I S Op R) (g : M)

/-- A program with the data of the object and of the threads, whether its thread is in a section,
and the stage of its call. -/
inductive Agrees (op : Op) (p : Prog M C E I S R) (s₀ s : S) : Bool → Stage Op R → Prop
  | before (h : L.Sections g op p .before) : Agrees op p s₀ s false (.called op)
  | inside (h : L.Sections g op p (.inside s₀ s)) : Agrees op p s₀ s true (.called op)
  | after {a} (h : L.Sections g op p (.after a)) : Agrees op p s₀ s false (.done op a)

/-- What the object knows of a thread by its status. A wait does not give up the mutex `g`. -/
def Fits (s₀ s : S) (b : Bool) (st : Stage Op R) : Status M C E I S Op R → Prop
  | .idle => b = false ∧ st = .idle
  | .run _ op p => Agrees L g op p s₀ s b st
  | .blocked op _ m p | .woken op _ m p => m ≠ g ∧ Agrees L g op p s₀ s b st

/-- The schedule has come to where the object is. -/
structure Linear (c : Config T M C E I S Op R) (o : Object T S Op R) : Prop where
  data : c.owner g = none → c.data = o.data
  inv : L.inv o.data
  fits : ∀ t, Fits L g o.data c.data (c.held t g) (o.stage t) (c.thread t)

/-- What is promised about a step of a schedule. -/
def Honours (c : Config T M C E I S Op R) : Action T I Op → Prop
  | .call _ op => L.calls op
  | .step t => ∀ r op k, c.thread t = .run r op (.lock g k) → L.enters op c.data
  | .input t x => ∀ r op k, c.thread t = .run r op (.input k) → c.owner g = some t →
    L.answers op c.data x
  | .signal _ _ | .spurious _ | .wake _ => True

/-- What the clients see of a step of a schedule. -/
def seen (c : Config T M C E I S Op R) : Action T I Op → Option (Happening T Op R)
  | .call t op => some (.call t op)
  | .step t =>
    match c.thread t with
    | .run _ op (.ret a) => some (.ret t op a)
    | _ => none
  | .input _ _ | .signal _ _ | .spurious _ | .wake _ => none

variable {L g} {c c' : Config T M C E I S Op R} {o o' : Object T S Op R} {t u : T} {m : M}
  {s₀ s s₁ s' : S} {b : Bool} {st : Stage Op R} {op : Op} {p : Prog M C E I S R}

omit [DecidableEq T] in
/-- A thread outside all sections does not depend on the data. -/
theorem Agrees.outside (h : Agrees L g op p s₀ s false st) : Agrees L g op p s₁ s' false st := by
  cases h with
  | before h => exact .before h
  | after h => exact .after h

omit [DecidableEq T] in
theorem Agrees.mono {p' : Prog M C E I S R} (h : Agrees L g op p s₀ s b st)
    (hp : ∀ m, (∀ s₁ s', m = .inside s₁ s' → b = true ∧ s' = s) → L.Sections g op p m →
      L.Sections g op p' m) : Agrees L g op p' s₀ s b st := by
  cases h with
  | before h => exact .before (hp _ nofun h)
  | inside h => exact .inside (hp _ (by rintro _ _ ⟨⟩; exact ⟨rfl, rfl⟩) h)
  | after h => exact .after (hp _ nofun h)

omit [DecidableEq T] in
/-- A thread returns outside all sections, once its call has taken effect. -/
theorem Agrees.ret {a : R} (h : Agrees L g op (.ret a : Prog M C E I S R) s₀ s b st) :
    b = false ∧ st = .done op a := by
  cases h with
  | before h => exact absurd h (by simp [Contract.Sections])
  | inside h => exact absurd h (by simp [Contract.Sections])
  | after h =>
    obtain rfl := Mode.after.inj h
    exact ⟨rfl, rfl⟩

omit [DecidableEq T] in
theorem Agrees.lock (h : Agrees L g op (.lock g p) s₀ s false st) :
    st = .called op ∧ ∀ s, L.inv s → L.enters op s → L.Sections g op p (.inside s s) := by
  cases h with
  | before h =>
    rw [Contract.Sections, if_pos rfl] at h
    exact ⟨rfl, h.2⟩
  | after h => exact absurd h (by simp [Contract.Sections])

omit [DecidableEq T] in
/-- The end of a section, in which the call took effect or not. -/
theorem Agrees.unlock (h : Agrees L g op (.unlock g p) s₀ s true st) :
    st = .called op ∧ L.inv s ∧
      ((∃ a, L.commits op s₀ a s ∧ L.Sections g op p (.after a)) ∨
        L.skips op s₀ s ∧ L.Sections g op p .before) := by
  cases h with
  | inside h =>
    rw [Contract.Sections, if_pos rfl] at h
    obtain ⟨s₁, s', hmode, h⟩ := h
    obtain ⟨rfl, rfl⟩ := Mode.inside.inj hmode
    exact ⟨rfl, h⟩

omit [DecidableEq T] in
theorem Agrees.wait {d : C} (h : Agrees L g op (.wait d m p) s₀ s b st) : m ≠ g := by
  cases h with
  | before h | inside h | after h => exact h.1

omit [DecidableEq T] in
theorem Agrees.act {β : Type} {f : S → Option (β × S)} {k : β → Prog M C E I S R}
    (h : Agrees L g op (.act f k) s₀ s b st) : b = true ∧ st = .called op ∧
      (L.safe → (f s).isSome) ∧
      ∀ x s', f s = some (x, s') → L.Sections g op (k x) (.inside s₀ s') := by
  cases h with
  | before h | after h =>
    obtain ⟨_, _, hmode, -⟩ := h
    cases hmode
  | inside h =>
    obtain ⟨s₁, s', hmode, h⟩ := h
    obtain ⟨rfl, rfl⟩ := Mode.inside.inj hmode
    exact ⟨rfl, rfl, h⟩

omit [DecidableEq T] in
theorem Fits.outside {w : Status M C E I S Op R} (h : Fits L g s₀ s false st w) :
    Fits L g s₁ s' false st w := by
  cases w with
  | idle => exact h
  | run r op p => exact Agrees.outside h
  | blocked op d m p => exact ⟨h.1, h.2.outside⟩
  | woken op d m p => exact ⟨h.1, h.2.outside⟩

theorem Linear.agrees {r : Bool} (h : c.Linear L g o) (hc : c.thread t = .run r op p) :
    Agrees L g op p o.data c.data (c.held t g) (o.stage t) := by
  have hf := h.fits t
  rwa [hc] at hf

theorem Linear.setThread (h : c.Linear L g o) {w : Status M C E I S Op R}
    (hf : Fits L g o.data c.data (c.held t g) (o.stage t) w) :
    (c.setThread t w).Linear L g o := by
  refine ⟨h.data, h.inv, fun u => ?_⟩
  by_cases e : u = t
  · subst e
    rw [setThread_self]
    exact hf
  · rw [setThread_of_ne c w e]
    exact h.fits u

theorem Linear.proceed {r : Bool} {k : Prog M C E I S R} (h : c.Linear L g o)
    (hc : c.thread t = .run r op p) (hk : ∀ m, (∀ s₁ s', m = .inside s₁ s' →
      c.held t g = true ∧ s' = c.data) → L.Sections g op p m → L.Sections g op k m) :
    (c.setThread t (.run false op k)).Linear L g o := h.setThread ((h.agrees hc).mono hk)

theorem Linear.setOwner (h : c.Linear L g o) (hm : m ≠ g) (v : Option T) :
    (c.setOwner m v).Linear L g o := by
  have howner : (c.setOwner m v).owner g = c.owner g := Function.update_of_ne hm.symm _ _
  have hheld (u : T) : (c.setOwner m v).held u g = c.held u g := by
    unfold held
    rw [howner]
  refine ⟨fun hn => h.data (howner ▸ hn), h.inv, fun u => ?_⟩
  rw [hheld]
  exact h.fits u

theorem Linear.setStage (h : c.Linear L g o) {w : Status M C E I S Op R}
    (hf : Fits L g o.data c.data (c.held t g) st w) :
    (c.setThread t w).Linear L g (o.setStage t st) := by
  refine ⟨h.data, h.inv, fun u => ?_⟩
  by_cases e : u = t
  · subst e
    rw [setThread_self, Object.setStage_self]
    exact hf
  · rw [setThread_of_ne c w e, o.setStage_of_ne st e]
    exact h.fits u

/-- Nobody is in a section while `g` is free. -/
theorem Linear.enter (h : c.Linear L g o) (ho : c.owner g = none) {w : Status M C E I S Op R}
    (hf : Fits L g o.data c.data true (o.stage t) w) :
    ((c.setOwner g (some t)).setThread t w).Linear L g o := by
  refine ⟨fun hn => ?_, h.inv, fun u => ?_⟩
  · simp [Config.setOwner, Config.setThread] at hn
  · by_cases e : u = t
    · subst e
      rw [setThread_self, setThread_held, held_take, Function.update_self]
      exact hf
    · rw [setThread_of_ne _ w e, setThread_held, held_take_of_ne ho e]
      exact h.fits u

/-- The data of the threads and of the object come together at the end of a section of `t`. -/
theorem Linear.leave (h : c.Linear L g o) (ho : c.owner g = some t) (hi : L.inv c.data)
    {w : Status M C E I S Op R} (hf : Fits L g c.data c.data false st w) :
    ((c.setOwner g none).setThread t w).Linear L g ({ o with data := c.data }.setStage t st) := by
  refine ⟨fun _ => rfl, hi, fun u => ?_⟩
  by_cases e : u = t
  · subst e
    rw [setThread_self, setThread_held, held_give, Function.update_self, Object.setStage_self]
    exact hf
  · have hout : c.held u g = false := by simp [held, ho, Ne.symm e]
    have hu := h.fits u
    rw [hout] at hu
    rw [setThread_of_ne _ w e, setThread_held, held_give_of_ne ho e, hout,
      Object.setStage_of_ne _ st e]
    exact hu.outside

theorem Linear.change (h : c.Linear L g o) (ho : c.owner g = some t)
    {w : Status M C E I S Op R} (hf : Fits L g o.data s true (o.stage t) w) :
    ((c.setData s).setThread t w).Linear L g o := by
  refine ⟨fun hn => ?_, h.inv, fun u => ?_⟩
  · exact absurd (ho.symm.trans hn) (by simp)
  · by_cases e : u = t
    · subst e
      have hin : c.held u g = true := by simp [held, ho]
      rw [setThread_self, setThread_held, setData_held, hin]
      exact hf
    · have hout : c.held u g = false := by simp [held, ho, Ne.symm e]
      have hu := h.fits u
      rw [hout] at hu
      rw [setThread_of_ne _ w e, setThread_held, setData_held, hout]
      exact hu.outside

variable {code : T → Op → Prog M C E I S R} {a : Action T I Op}

/-- Taking `g` starts a section, and taking another mutex changes nothing. -/
theorem Linear.lock {r : Bool} (h : c.Linear L g o) (hc : c.thread t = .run r op (.lock m p))
    (ho : c.owner m = none) (hk : m = g → L.enters op c.data) :
    ((c.setOwner m (some t)).setThread t (.run false op p)).Linear L g o := by
  by_cases hm : m = g
  · subst hm
    have hd : c.data = o.data := h.data ho
    have hout : c.held t m = false := by simp [held, ho]
    have ha := h.agrees hc
    rw [hout] at ha
    obtain ⟨hst, hs⟩ := ha.lock
    apply h.enter ho
    rw [hst, hd]
    exact .inside (hs o.data h.inv (hd ▸ hk rfl))
  · refine (h.setOwner hm (some t)).proceed hc fun _ _ hs => ?_
    rwa [Contract.Sections, if_neg hm] at hs

/-- A call takes effect when `g` is given back, if at all. -/
theorem Linear.unlock {r : Bool} (h : c.Linear L g o)
    (hc : c.thread t = .run r op (.unlock m p)) (ho : c.owner m = some t) :
    ∃ o', o.Steps L [] o' ∧
      ((c.setOwner m none).setThread t (.run false op p)).Linear L g o' := by
  by_cases hm : m = g
  · subst hm
    have hin : c.held t m = true := by simp [held, ho]
    have ha := h.agrees hc
    rw [hin] at ha
    obtain ⟨hst, hi, ⟨a, hcommit, hk⟩ | ⟨hskip, hk⟩⟩ := ha.unlock
    · exact ⟨_, Object.Steps.refl.tail (.commit hst hcommit), h.leave ho hi (.after hk)⟩
    · have hl := h.leave (w := .run false op p) ho hi (.before hk)
      refine ⟨{ o with data := c.data }, Object.Steps.refl.tail (.skip hst hskip), ?_⟩
      have hstage : ({ o with data := c.data }.setStage t (.called op) : Object T S Op R) =
          { o with data := c.data } := by
        rw [← hst, Object.setStage, Function.update_eq_self]
      rwa [hstage] at hl
  · refine ⟨o, .refl, (h.setOwner hm none).proceed hc fun _ _ hs => ?_⟩
    rwa [Contract.Sections, if_neg hm] at hs

/-- Each step of a schedule is at most one step of the object, and looks the same. -/
theorem Linear.moved (hL : ∀ t op, L.calls op → L.Sections g op (code t op) .before)
    (h : c.Linear L g o) (hm : c.Moved code a c') (hk : c.Honours L g a) :
    ∃ o', o.Steps L (c.seen a).toList o' ∧ c'.Linear L g o' := by
  cases hm with
  | @call t op hc =>
    have hf := h.fits t
    rw [hc] at hf
    refine ⟨o.setStage t (.called op), Object.Steps.refl.tail (.call hf.2), h.setStage ?_⟩
    rw [hf.1]
    exact .before (hL t op hk)
  | @ret t r op a hc =>
    have hseen : c.seen (.step t : Action T I Op) = some (.ret t op a) := by
      simp only [seen, hc]
    obtain ⟨hb, hst⟩ := (h.agrees hc).ret
    rw [hseen]
    exact ⟨o.setStage t .idle, Object.Steps.refl.tail (.ret hst), h.setStage ⟨hb, rfl⟩⟩
  | @lock t r op m k hc ho =>
    have hseen : c.seen (.step t : Action T I Op) = none := by simp only [seen, hc]
    rw [hseen]
    refine ⟨o, .refl, h.lock hc ho ?_⟩
    rintro rfl
    exact hk r op k hc
  | @unlock t r op m k hc ho =>
    have hseen : c.seen (.step t : Action T I Op) = none := by simp only [seen, hc]
    rw [hseen]
    exact h.unlock hc ho
  | @wait t r op d m k hc ho =>
    have hseen : c.seen (.step t : Action T I Op) = none := by simp only [seen, hc]
    rw [hseen]
    have hm : m ≠ g := (h.agrees hc).wait
    have h' := h.setOwner hm none
    exact ⟨o, .refl, h'.setThread ⟨hm, (h'.agrees hc).mono fun _ _ hs => hs.2⟩⟩
  | @emit t r op e k hc =>
    have hseen : c.seen (.step t : Action T I Op) = none := by simp only [seen, hc]
    rw [hseen]
    exact ⟨o, .refl, h.proceed hc fun _ _ hs => hs⟩
  | @act t r op β f k b s hc hf =>
    have hseen : c.seen (.step t : Action T I Op) = none := by simp only [seen, hc]
    rw [hseen]
    obtain ⟨hb, hst, -, hk⟩ := (h.agrees hc).act
    have ho : c.owner g = some t := by simpa [held] using hb
    refine ⟨o, .refl, h.change ho ?_⟩
    rw [hst]
    exact .inside (hk _ _ hf)
  | @input t r op x k hc =>
    refine ⟨o, .refl, h.proceed hc fun m hm hs => hs x ?_⟩
    intro s₀ s hmode
    obtain ⟨hb, rfl⟩ := hm s₀ s hmode
    exact hk r op k hc (by simpa [held] using hb)
  | @noWaiter t r op d k hc hn => exact ⟨o, .refl, h.proceed hc fun _ _ hs => hs⟩
  | @signal t u r op d k o' m p hc hu =>
    have hf := h.fits u
    rw [hu] at hf
    have h' : (c.setThread u (.woken o' d m p)).Linear L g o := h.setThread hf
    have hne : t ≠ u := by
      rintro rfl
      rw [hc] at hu
      cases hu
    have hc' : (c.setThread u (.woken o' d m p)).thread t = .run r op (.signal d k) := by
      rw [setThread_of_ne c _ hne, hc]
    exact ⟨o, .refl, h'.proceed hc' fun _ _ hs => hs⟩
  | @spurious t op d m p hc =>
    have hf := h.fits t
    rw [hc] at hf
    exact ⟨o, .refl, h.setThread hf⟩
  | @wake t op d m p hc ho =>
    have hf := h.fits t
    rw [hc] at hf
    have h' := h.setOwner hf.1 (some t)
    have hf' := h'.fits t
    rw [show (c.setOwner m (some t)).thread t = _ from hc] at hf'
    exact ⟨o, .refl, h'.setThread hf'.2⟩

/-- No access to the data is undefined where this is promised. -/
theorem Linear.defined (h : c.Linear L g o) (hsafe : L.safe) {r : Bool} {β : Type}
    {f : S → Option (β × S)} {k : β → Prog M C E I S R} (hc : c.thread t = .run r op (.act f k)) :
    (f c.data).isSome := by
  obtain ⟨-, -, hf, -⟩ := (h.agrees hc).act
  exact hf hsafe

theorem Linear.initial {s : S} (hs : L.inv s) :
    (Config.initial s : Config T M C E I S Op R).Linear L g (Object.initial s) :=
  ⟨fun _ => rfl, hs, fun _ => ⟨rfl, rfl⟩⟩

variable [DecidableEq C] [Fintype T]

/-- What the clients see of a schedule. -/
def history (log : List (Entry (Config T M C E I S Op R) (Action T I Op) Unit)) :
    List (Happening T Op R) := log.filterMap fun e => e.before.seen e.call

/-- Every schedule that keeps the promises looks like a run of the object. -/
theorem Linear.run (hL : ∀ t op, L.calls op → L.Sections g op (code t op) .before)
    (h : c.Linear L g o) {acts : List (Action T I Op)}
    {log : List (Entry (Config T M C E I S Op R) (Action T I Op) Unit)}
    (hp : Runs.Permitted (fun a c => c.step code a) (fun c a => c.Honours L g a) acts c)
    (hr : Runs.run (fun a c => c.step code a) acts c = some (log, c')) :
    ∃ o', o.Steps L (history log) o' ∧ c'.Linear L g o' := by
  refine Runs.run_safe (fun log c => ∃ o', o.Steps L (history log) o' ∧ c.Linear L g o')
    ⟨o, .refl, h⟩ ?_ hp hr
  rintro log c a r c' ⟨o', hl, hc⟩ hk hs
  obtain ⟨o'', hl', hc'⟩ := hc.moved hL (moved_of_step hs) hk
  refine ⟨o'', ?_, hc'⟩
  have hhist : history (log ++ [⟨c, a, r, c'⟩]) = history log ++ (c.seen a).toList := by
    unfold history
    rw [List.filterMap_append]
    cases hseen : c.seen a <;> simp [hseen]
  rw [hhist]
  exact hl.trans hl'

end Config

end Tbm
