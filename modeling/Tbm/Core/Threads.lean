import Tbm.Core.Program
import Tbm.Core.Runs
import Mathlib.Algebra.GroupWithZero.Nat
import Mathlib.Data.Fintype.Basic

/-! Threads that run programs over shared data: the owners of the mutexes, the threads parked on
a condition variable, and the steps of a schedule. -/
namespace Tbm

/-- Schedules of two threads name them `0` and `1`. -/
instance two_neZero : NeZero 2 := ⟨by decide⟩

instance three_neZero : NeZero 3 := ⟨by decide⟩

/-- What a thread is doing. A signalled thread is `woken` until it has its mutex back; `resumed`
marks one that has it back and has not moved on. -/
inductive Status (M C E I S Op R : Type) : Type 1
  | idle
  | run (resumed : Bool) (op : Op) (p : Prog M C E I S R)
  | blocked (op : Op) (c : C) (m : M) (p : Prog M C E I S R)
  | woken (op : Op) (c : C) (m : M) (p : Prog M C E I S R)

structure Config (T M C E I S Op R : Type) : Type 1 where
  data : S
  owner : M → Option T
  thread : T → Status M C E I S Op R

/-- A step of a schedule. A `signal` names the thread it wakes, and none only if none is parked. -/
inductive Action (T I Op : Type)
  | call (t : T) (op : Op)
  | step (t : T)
  | input (t : T) (x : I)
  | signal (t : T) (u : Option T)
  | spurious (t : T)
  | wake (t : T)
  deriving DecidableEq, Repr

namespace Status

variable {M C E I S Op R : Type}

/-- Parked on `c`. -/
def BlockedOn (c : C) : Status M C E I S Op R → Prop
  | blocked _ d _ _ => d = c
  | _ => False

instance [DecidableEq C] (c : C) : ∀ s : Status M C E I S Op R, Decidable (s.BlockedOn c)
  | blocked _ d _ _ => inferInstanceAs (Decidable (d = c))
  | idle | run _ _ _ | woken _ _ _ _ => inferInstanceAs (Decidable False)

/-- The call a thread is in. -/
def op : Status M C E I S Op R → Option Op
  | idle => none
  | run _ o _ | blocked o _ _ _ | woken o _ _ _ => some o

/-- The mutex given up for a wait. -/
def gaveUp : Status M C E I S Op R → Option M
  | blocked _ _ m _ | woken _ _ m _ => some m
  | _ => none

/-- The next thing the thread does is take `m`. -/
def WaitsFor (m : M) : Status M C E I S Op R → Prop
  | run _ _ (.lock m' _) => m' = m
  | woken _ _ m' _ => m' = m
  | _ => False

theorem waitsFor_iff {m : M} {s : Status M C E I S Op R} : s.WaitsFor m ↔
    (∃ r op k, s = run r op (.lock m k)) ∨ ∃ op c k, s = woken op c m k := by
  unfold WaitsFor
  split <;> simp_all

instance [DecidableEq M] (m : M) : ∀ s : Status M C E I S Op R, Decidable (s.WaitsFor m)
  | run _ _ (.lock m' _) | woken _ _ m' _ => inferInstanceAs (Decidable (m' = m))
  | idle | blocked _ _ _ _ | run _ _ (.ret _) | run _ _ (.unlock _ _) | run _ _ (.wait _ _ _)
  | run _ _ (.signal _ _) | run _ _ (.emit _ _) | run _ _ (.input _) | run _ _ (.act _ _) =>
    isFalse id

end Status

namespace Config

variable {T M C E I S Op R : Type}

def setData (c : Config T M C E I S Op R) (s : S) : Config T M C E I S Op R :=
  { c with data := s }

/-- Nobody runs and no mutex is held. -/
def initial (s : S) : Config T M C E I S Op R :=
  { data := s, owner := fun _ => none, thread := fun _ => .idle }

section Threads

variable [DecidableEq T]

def held (c : Config T M C E I S Op R) (t : T) (m : M) : Bool := decide (c.owner m = some t)

def setThread (c : Config T M C E I S Op R) (t : T) (s : Status M C E I S Op R) :
    Config T M C E I S Op R := { c with thread := Function.update c.thread t s }

variable (c : Config T M C E I S Op R) (t u : T) (st : Status M C E I S Op R)

@[simp] theorem setThread_data : (c.setThread t st).data = c.data := rfl

@[simp] theorem setThread_owner : (c.setThread t st).owner = c.owner := rfl

@[simp] theorem setThread_self : (c.setThread t st).thread t = st := Function.update_self ..

@[simp] theorem setThread_held : (c.setThread t st).held u = c.held u := rfl

@[simp] theorem setData_held (s : S) : (c.setData s).held t = c.held t := rfl

variable {t u}

theorem setThread_of_ne (h : u ≠ t) : (c.setThread t st).thread u = c.thread u :=
  Function.update_of_ne h ..

variable {c}

/-- A mutex has one owner. -/
theorem held_disjoint {m : M} (h : t ≠ u) (hm : c.held t m = true) : c.held u m = false := by
  have ht : c.owner m = some t := by simpa [held] using hm
  simp [held, ht, h]

variable [DecidableEq M]

def setOwner (c : Config T M C E I S Op R) (m : M) (o : Option T) : Config T M C E I S Op R :=
  { c with owner := Function.update c.owner m o }

variable {m : M}

theorem held_take : (c.setOwner m (some t)).held t = Function.update (c.held t) m true := by
  funext n
  by_cases h : n = m
  · subst h
    simp [held, setOwner]
  · simp [held, setOwner, h]

theorem held_give : (c.setOwner m none).held t = Function.update (c.held t) m false := by
  funext n
  by_cases h : n = m
  · subst h
    simp [held, setOwner]
  · simp [held, setOwner, h]

theorem held_take_of_ne (h : c.owner m = none) (hu : u ≠ t) :
    (c.setOwner m (some t)).held u = c.held u := by
  funext n
  by_cases hn : n = m
  · subst hn
    simp [held, setOwner, h, hu.symm]
  · simp [held, setOwner, hn]

theorem held_give_of_ne (h : c.owner m = some t) (hu : u ≠ t) :
    (c.setOwner m none).held u = c.held u := by
  funext n
  by_cases hn : n = m
  · subst hn
    simp [held, setOwner, h, hu.symm]
  · simp [held, setOwner, hn]

/-- The next instruction of a running thread, where it needs nothing from outside. -/
def advance (c : Config T M C E I S Op R) (t : T) (op : Op) :
    Prog M C E I S R → Option (Config T M C E I S Op R)
  | .ret _ => some (c.setThread t .idle)
  | .lock m k =>
    if c.owner m = none then some ((c.setOwner m (some t)).setThread t (.run false op k)) else none
  | .unlock m k =>
    if c.owner m = some t then some ((c.setOwner m none).setThread t (.run false op k)) else none
  | .wait d m k =>
    if c.owner m = some t then some ((c.setOwner m none).setThread t (.blocked op d m k)) else none
  | .emit _ k => some (c.setThread t (.run false op k))
  | .act f k => (f c.data).map fun r => (c.setData r.2).setThread t (.run false op (k r.1))
  | .signal _ _ | .input _ => none

/-- Only a data step changes the data. -/
theorem advance_data {op : Op} {p : Prog M C E I S R} {c' : Config T M C E I S Op R}
    (h : c.advance t op p = some c') :
    (∃ (β : Type) (f : S → Option (β × S)) (k : β → Prog M C E I S R), p = .act f k) ∨
      c'.data = c.data := by
  cases p with
  | act f k => exact .inl ⟨_, f, k, rfl⟩
  | ret a =>
    obtain rfl := Option.some.inj h
    exact .inr rfl
  | emit e k =>
    obtain rfl := Option.some.inj h
    exact .inr rfl
  | lock m k | unlock m k | wait d m k =>
    simp only [advance] at h
    split_ifs at h
    obtain rfl := Option.some.inj h
    exact .inr rfl
  | signal d k => nomatch h
  | input k => nomatch h

variable (code : T → Op → Prog M C E I S R)

/-- What each step of a schedule does. -/
inductive Moved (c : Config T M C E I S Op R) :
    Action T I Op → Config T M C E I S Op R → Prop
  | call {t op} (h : c.thread t = .idle) :
    Moved c (.call t op) (c.setThread t (.run false op (code t op)))
  | ret {t r op a} (h : c.thread t = .run r op (.ret a)) : Moved c (.step t) (c.setThread t .idle)
  | lock {t r op m k} (h : c.thread t = .run r op (.lock m k)) (ho : c.owner m = none) :
    Moved c (.step t) ((c.setOwner m (some t)).setThread t (.run false op k))
  | unlock {t r op m k} (h : c.thread t = .run r op (.unlock m k)) (ho : c.owner m = some t) :
    Moved c (.step t) ((c.setOwner m none).setThread t (.run false op k))
  | wait {t r op d m k} (h : c.thread t = .run r op (.wait d m k)) (ho : c.owner m = some t) :
    Moved c (.step t) ((c.setOwner m none).setThread t (.blocked op d m k))
  | emit {t r op e k} (h : c.thread t = .run r op (.emit e k)) :
    Moved c (.step t) (c.setThread t (.run false op k))
  | act {t r op} {β : Type} {f : S → Option (β × S)} {k : β → Prog M C E I S R} {b : β} {s : S}
    (h : c.thread t = .run r op (.act f k)) (hf : f c.data = some (b, s)) :
    Moved c (.step t) ((c.setData s).setThread t (.run false op (k b)))
  | input {t r op x k} (h : c.thread t = .run r op (.input k)) :
    Moved c (.input t x) (c.setThread t (.run false op (k x)))
  | noWaiter {t r op d k} (h : c.thread t = .run r op (.signal d k))
    (hn : ∀ u, ¬(c.thread u).BlockedOn d) :
    Moved c (.signal t none) (c.setThread t (.run false op k))
  | signal {t u r op d k o m p} (h : c.thread t = .run r op (.signal d k))
    (hu : c.thread u = .blocked o d m p) : Moved c (.signal t (some u))
      ((c.setThread u (.woken o d m p)).setThread t (.run false op k))
  | spurious {t op d m p} (h : c.thread t = .blocked op d m p) :
    Moved c (.spurious t) (c.setThread t (.woken op d m p))
  | wake {t op d m p} (h : c.thread t = .woken op d m p) (ho : c.owner m = none) :
    Moved c (.wake t) ((c.setOwner m (some t)).setThread t (.run true op p))

variable {code} {a : Action T I Op} {c' : Config T M C E I S Op R}

private theorem moved_of_advance {r : Bool} {op : Op} {p : Prog M C E I S R}
    (h : c.thread t = .run r op p) (ha : c.advance t op p = some c') :
    c.Moved code (.step t) c' := by
  cases p with
  | ret x =>
    obtain rfl := Option.some.inj ha
    exact .ret h
  | lock m k =>
    simp only [advance] at ha
    split_ifs at ha with ho
    obtain rfl := Option.some.inj ha
    exact .lock h ho
  | unlock m k =>
    simp only [advance] at ha
    split_ifs at ha with ho
    obtain rfl := Option.some.inj ha
    exact .unlock h ho
  | wait d m k =>
    simp only [advance] at ha
    split_ifs at ha with ho
    obtain rfl := Option.some.inj ha
    exact .wait h ho
  | signal d k => simp [advance] at ha
  | emit e k =>
    obtain rfl := Option.some.inj ha
    exact .emit h
  | input k => simp [advance] at ha
  | act f k =>
    obtain ⟨⟨b, s⟩, hf, rfl⟩ := Option.map_eq_some_iff.mp ha
    exact .act h hf

omit [DecidableEq M] in
private theorem op_setThread {d : Config T M C E I S Op R} {st : Status M C E I S Op R} {o : Op}
    (hd : ∀ v, (d.thread v).op = (c.thread v).op) (hst : st.op = (c.thread u).op ∨ st.op = none)
    (h : ((d.setThread u st).thread t).op = some o) : (c.thread t).op = some o := by
  by_cases e : t = u
  · subst e
    rw [setThread_self] at h
    rcases hst with hst | hst
    · rwa [← hst]
    · simp [hst] at h
  · rwa [setThread_of_ne d st e, hd] at h

/-- A thread is in the call it was in, or the step is its call. -/
theorem Moved.op (h : c.Moved code a c') {o : Op} (ho : (c'.thread t).op = some o) :
    (c.thread t).op = some o ∨ a = .call t o := by
  cases h with
  | @call u op hc =>
    by_cases e : t = u
    · subst e
      rw [setThread_self] at ho
      obtain rfl := Option.some.inj ho
      exact .inr rfl
    · rw [setThread_of_ne c _ e] at ho
      exact .inl ho
  | ret hc => exact .inl (op_setThread (fun _ => rfl) (.inr rfl) ho)
  | @signal v u r op d k o' m p hc hu =>
    refine .inl (op_setThread (fun w => ?_) (.inl (by rw [hc]; rfl)) ho)
    by_cases e : w = u
    · subst e
      rw [setThread_self, hu]
      rfl
    · rw [setThread_of_ne c _ e]
  | lock hc | unlock hc | wait hc | emit hc | act hc | input hc | noWaiter hc | spurious hc
  | wake hc =>
    exact .inl (op_setThread (fun _ => rfl) (.inl (by rw [hc]; rfl)) ho)

variable [DecidableEq C] [Fintype T]

variable (code) in
/-- One step of a schedule; `none` if it cannot be taken. -/
def step : Action T I Op → Config T M C E I S Op R → Option (Unit × Config T M C E I S Op R)
  | .call t op, c =>
    match c.thread t with
    | .idle => some ((), c.setThread t (.run false op (code t op)))
    | _ => none
  | .step t, c =>
    match c.thread t with
    | .run _ op p => (c.advance t op p).map ((), ·)
    | _ => none
  | .input t x, c =>
    match c.thread t with
    | .run _ op (.input k) => some ((), c.setThread t (.run false op (k x)))
    | _ => none
  | .signal t none, c =>
    match c.thread t with
    | .run _ op (.signal d k) =>
      if ∀ u, ¬(c.thread u).BlockedOn d then some ((), c.setThread t (.run false op k)) else none
    | _ => none
  | .signal t (some u), c =>
    match c.thread t, c.thread u with
    | .run _ op (.signal d k), .blocked o e m p =>
      if e = d then some ((), (c.setThread u (.woken o e m p)).setThread t (.run false op k))
      else none
    | _, _ => none
  | .spurious t, c =>
    match c.thread t with
    | .blocked op d m p => some ((), c.setThread t (.woken op d m p))
    | _ => none
  | .wake t, c =>
    match c.thread t with
    | .woken op _ m p =>
      if c.owner m = none then some ((), (c.setOwner m (some t)).setThread t (.run true op p))
      else none
    | _ => none

theorem moved_of_step {x : Unit} (h : c.step code a = some (x, c')) : c.Moved code a c' := by
  cases a with
  | call t op =>
    simp only [step] at h
    split at h
    next hc =>
      obtain ⟨-, rfl⟩ := Prod.mk.inj (Option.some.inj h)
      exact .call hc
    next => simp at h
  | step t =>
    simp only [step] at h
    split at h
    next hc =>
      obtain ⟨d, ha, hd⟩ := Option.map_eq_some_iff.mp h
      obtain ⟨-, rfl⟩ := Prod.mk.inj hd
      exact moved_of_advance hc ha
    next => simp at h
  | input t y =>
    simp only [step] at h
    split at h
    next hc =>
      obtain ⟨-, rfl⟩ := Prod.mk.inj (Option.some.inj h)
      exact .input hc
    next => simp at h
  | signal t u =>
    cases u with
    | none =>
      simp only [step] at h
      split at h
      next hc =>
        split_ifs at h with hn
        obtain ⟨-, rfl⟩ := Prod.mk.inj (Option.some.inj h)
        exact .noWaiter hc hn
      next => simp at h
    | some u =>
      simp only [step] at h
      split at h
      next hc hu =>
        split_ifs at h with hd
        obtain ⟨-, rfl⟩ := Prod.mk.inj (Option.some.inj h)
        subst hd
        exact .signal hc hu
      next => simp at h
  | spurious t =>
    simp only [step] at h
    split at h
    next hc =>
      obtain ⟨-, rfl⟩ := Prod.mk.inj (Option.some.inj h)
      exact .spurious hc
    next => simp at h
  | wake t =>
    simp only [step] at h
    split at h
    next hc =>
      split_ifs at h with ho
      obtain ⟨-, rfl⟩ := Prod.mk.inj (Option.some.inj h)
      exact .wake hc ho
    next => simp at h

end Threads

end Config

end Tbm
