import Tbm.Core.Linear
import Tbm.Queue.Capacity

/-! The calls on one queue take effect one at a time, as long as no `alloc_cb` is set: the global
mutex is held from the size check to the end of `need_attach`. -/
namespace Tbm.Queue

open Prog Contract

/-- The call can wait. -/
def Op.Waits : Op → Prop
  | .canDequeue w | .canAcquire w => w ≠ 0
  | _ => False

/-- What is promised about a queue and the calls on it, and whether the accesses of a call are
defined then. -/
structure Promise (kind : Kind) where
  holds : SurfaceQueue → Prop
  calls : Op → Prop
  enters : Op → SurfaceQueue → Prop
  answers : Op → SurfaceQueue → AllocResult → Prop
  safe : Prop
  request {op q l x} (h : answers op { q with allocating := l } x) : answers op q x
  answer (op q) : ∃ x, answers op q x
  keeps {op x q a q'} (ho : calls op) (h : holds q) (he : enters op q) (hx : answers op q x)
    (hc : call kind op x q = some (a, q')) : holds q'
  defined {op x q} (hs : safe) (ho : calls op) (h : holds q) (he : enters op q)
    (hx : answers op q x) : (call kind op x q).isSome

/-- A section changes nothing, or `can_dequeue` comes to a wait in it. -/
def Promise.Skips {kind : Kind} (P : Promise kind) (op : Op) (q q' : SurfaceQueue) : Prop :=
  P.calls op ∧ P.enters op q ∧ (q' = q ∧ (op.Waits ∨ ∃ w, op = .canDequeue w) ∨
    op.Waits ∧ q.valid = true ∧ (∃ w, op = .canDequeue w) ∧
      ∃ x, P.answers op q x ∧ q' = attachBase x q ∧ q'.queueIsEmpty .free = true)

/-- The call takes effect as if no other thread ran, or it has waited and the queue is still
there. -/
def Promise.Commits {kind : Kind} (P : Promise kind) (op : Op) (q : SurfaceQueue) (a : Reply)
    (q' : SurfaceQueue) : Prop :=
  P.calls op ∧ P.enters op q ∧ ((∃ x, P.answers op q x ∧ call kind op x q = some (a, q')) ∨
    op.Waits ∧ q.valid = true ∧ a = .answer 1 ∧ q' = q)

/-- The calls on a queue without an `alloc_cb`. -/
def Promise.contract {kind : Kind} (P : Promise kind) :
    Contract AllocResult SurfaceQueue Op Reply where
  inv q := q.allocCb = false ∧ P.holds q
  calls op := P.calls op ∧ ∀ freeCb, op ≠ .setAllocCb true freeCb
  enters := P.enters
  answers := P.answers
  skips := P.Skips
  commits := P.Commits
  safe := P.safe

/-- What is left of `can_dequeue` once its notification is out. -/
def canDequeueRest (impl : Interface) (w : ℤ) (me : ℕ) : QProg ℤ := do
  mutexLock .global
  returnValIfFail (← surfaceQueueIsValid) 0 <| do
    mutexLock .queue
    let valid ← if ← read (·.queueIsEmpty .free) then do
        callNeedAttach impl me
        surfaceQueueIsValid
      else pure true
    if !valid then
      mutexUnlock .global
      pure 0
    else if !(← read (·.queueIsEmpty .free)) then
      unlockBoth
      pure 1
    else
      let outstanding ←
        if w = 0 then pure 0
        else access fun q => do some (← q.surfaceQueueGetNodeCount .acquire, q)
      if outstanding ≠ 0 then
        mutexUnlock .global
        condWait .freeCond .queue
        mutexLock .global
        if !(← surfaceQueueIsValid) then
          unlockBoth
          pure 0
        else
          unlockBoth
          pure 1
      else
        unlockBoth
        pure 0

theorem tbmSurfaceQueueCanDequeue_eq (impl : Interface) (w : ℤ) (me : ℕ) :
    tbmSurfaceQueueCanDequeue impl w me = (do
      mutexLock .global
      returnValIfFail (← surfaceQueueIsValid) 0 <| do
        mutexUnlock .global
        notify .canDequeueNoti
        canDequeueRest impl w me) := rfl

section Calls

variable {kind : Kind} {q q' : SurfaceQueue} {x : AllocResult} {r : Reply} {op : Op} {t : ℕ}

/-- What a call does does not depend on the thread that makes it. -/
theorem exec_program : (program kind.impl t op).exec x q = call kind op x q := by
  unfold call
  cases op with
  | dequeue =>
    by_cases hf : q.queueIsEmpty .free = true <;> cases kind <;>
      simp [program, tbmSurfaceQueueDequeue, Kind.impl, tbmQueueDefaultImpl, tbmQueueSequenceImpl,
        tbmQueueSequenceDequeue, surfaceQueueDequeue, callNeedAttach, tbmQueueDefaultNeedAttach,
        tbmQueueSequenceNeedAttach, hf]
  | canDequeue w =>
    simp only [program, tbmSurfaceQueueCanDequeue, kind.callNeedAttach_impl]
    by_cases hf : q.queueIsEmpty .free = true <;> simp [hf]
  | enqueue | acquire | release | canAcquire | reset | flush | setSize | setAllocCb | destroy => rfl

theorem attachAnswer_valid : (attachAnswer x q).valid = q.valid := by
  unfold attachAnswer SurfaceQueue.surfaceQueueAttach
  split
  · rfl
  · split
    · rfl
    · split_ifs <;> rfl

theorem Change.allocCb {me : ℕ} (h : Change kind me q op q')
    (ho : ∀ freeCb, op ≠ .setAllocCb true freeCb) (hcb : q.allocCb = false) :
    q'.allocCb = false := by
  cases h with
  | narrow h => exact (congrArg SurfaceQueue.Settings.allocCb h.settings).trans hcb
  | @callbacks a f =>
    cases a with
    | true => exact absurd rfl (ho f)
    | false => rfl
  | request => exact hcb
  | attach =>
    unfold endAttach SurfaceQueue.surfaceQueueAttach
    split
    · exact hcb
    · split_ifs <;> exact hcb
  | resize _ h => exact (congrArg SurfaceQueue.Settings.allocCb h.settings).trans hcb
  | clear _ h =>
    exact (congrArg SurfaceQueue.Settings.allocCb (clearNodes_settings h).1).trans hcb
  | invalidate => exact hcb

theorem call_allocCb (he : call kind op x q = some (r, q'))
    (ho : ∀ freeCb, op ≠ .setAllocCb true freeCb) (hcb : q.allocCb = false) :
    q'.allocCb = false := by
  have hs : (rules kind 1 fun _ _ => True).Safe 0 op false (hold false false)
      (program kind.impl 0 op) q := program_safe (by simp)
  refine Rules.Onward.exec rules_lawful (fun _ => trivial) (fun _ _ => trivial)
    (fun _ _ => trivial) (fun _ => trivial)
    (P := fun q q' => q.allocCb = false → q'.allocCb = false)
    (fun q => id) (fun hab hbc h => hbc (hab h)) (fun {H s s' p} heff h => ?_)
    (hs.now rules_lawful trivial).2 he hcb
  rcases heff with rfl | ⟨-, -, hc⟩
  · exact h
  · exact hc.allocCb ho h

end Calls

section Closes

variable {L : Contract AllocResult SurfaceQueue Op Reply} {kind : Kind} {op : Op} {b : Bool}
  {A : AllocResult → Prop} {q₀ q : SurfaceQueue} {f : Unit → QProg Reply} {t : ℕ}
  {B : SurfaceQueue → AllocResult → Prop}

@[simp] theorem closes_unlockQueue : L.Closes .global op q₀ A b (mutexUnlock .queue >>= f) q ↔
    L.Closes .global op q₀ A b (f ()) q := closes_unlock (by decide)

@[simp] theorem closes_unlockBoth : L.Closes .global op q₀ A b (unlockBoth >>= f) q ↔
    Quiet .global (f ()) ∨
      (L.inv q ∧ L.skips op q₀ q ∧ L.Sections .global op (f ()) .before) := by
  have e : (unlockBoth >>= f) = mutexUnlock .queue >>= fun _ => mutexUnlock .global >>= f := rfl
  rw [e, closes_unlockQueue, closes_unlock_self]

@[simp] theorem closes_isValid {f : Bool → QProg Reply} :
    L.Closes .global op q₀ A b (surfaceQueueIsValid >>= f) q ↔
      L.Closes .global op q₀ A b (f q.valid) q := closes_read

@[simp] theorem closes_returnValIfFail {β : Type} {c : Bool} {a : β} {p : QProg β}
    {f : β → QProg Reply} : L.Closes .global op q₀ A b (returnValIfFail c a p >>= f) q ↔
      (c = true → L.Closes .global op q₀ A b (p >>= f) q) ∧
        (c = false → L.Closes .global op q₀ A b (mutexUnlock .global >>= fun _ => f a) q) := by
  cases c <;> simp [returnValIfFail]

/-- All operations start with the global mutex and the validity check. -/
theorem locked_valid {β : Type} {a : β} {p : QProg β} {f : β → Reply}
    (h : ∀ q, L.inv q → L.enters op q → q.valid = true →
      L.Closes .global op q (B q) true (p >>= fun x => pure (f x)) q) :
    L.Locked .global op B (do
      mutexLock .global
      let v ← surfaceQueueIsValid
      let x ← returnValIfFail v a p
      pure (f x)) := by
  simp only [locked_lock, closes_isValid, closes_returnValIfFail, closes_unlock_self, quiet_pure,
    sections_pure, reduceCtorEq, and_false, or_false, implies_true, and_true]
  exact h

/-- Without an `alloc_cb` the mutexes are kept while a surface is allocated. -/
theorem closes_needAttach (hcb : q.allocCb = false) (hA : ∃ x, A x)
    (hans : ∀ l x, L.answers op { q with allocating := l } x → A x)
    (h : ∀ b x, A x → L.Closes .global op q₀ A b (f ()) (attachAnswer x q)) :
    L.Closes .global op q₀ A true (needAttach t >>= f) q := by
  have hq (x : AllocResult) := exec_needAttach x q t
  unfold needAttach beginAttach at hq ⊢
  simp only [bind_bind, closes_access]
  intro r q' hr
  by_cases hfull : q.queueSize = q.numAttached
  · obtain ⟨rfl, rfl⟩ : none = r ∧ q = q' := by simpa [hfull] using hr
    obtain ⟨x, hx⟩ := hA
    simpa [attachAnswer, hfull] using h true x hx
  · obtain ⟨rfl, rfl⟩ : some (q.allocCb, q.epoch) = r ∧
        { q with allocating := (t, q.epoch) :: q.allocating } = q' := by simpa [hfull] using hr
    simp only [exec_bind, exec_access, hfull, ↓reduceIte, hcb, Option.bind_some, exec_answer,
      exec_modify, Option.some.injEq, Prod.mk.injEq, true_and] at hq
    simp only [hcb, bind_bind, closes_answer, closes_modify, true_and]
    intro x hx
    have hAx := hans _ x (by rwa [hcb])
    rw [hq]
    exact ⟨hAx, h false x hAx⟩

variable (hcb : ∀ q, L.inv q → q.allocCb = false) (hB : ∀ q, ∃ x, B q x)
  (hans : ∀ q l x, L.answers .dequeue { q with allocating := l } x → B q x)

theorem enqueue_locked {s : Option Surface} :
    L.Locked .global (.enqueue s) B (program kind.impl t (.enqueue s)) := by
  unfold program tbmSurfaceQueueEnqueue
  simp only [bind_bind]
  apply locked_valid
  intro q _ _ _
  cases s with
  | none => simp
  | some s =>
    simp only [Option.bind_eq_bind, bind_bind, closes_lock, ne_eq, reduceCtorEq, not_false_eq_true,
      closes_lookup, true_and]
    intro x _
    rcases x with _ | ⟨k, _ | _ | _⟩
    · simp
    · simp
    · simp
    · cases kind <;> simp [Kind.impl, tbmQueueDefaultImpl, tbmQueueSequenceImpl]

theorem release_locked {s : Option Surface} :
    L.Locked .global (.release s) B (program kind.impl t (.release s)) := by
  unfold program tbmSurfaceQueueRelease
  rw [kind.impl_release]
  simp only [bind_bind]
  apply locked_valid
  intro q _ _ _
  cases s with
  | none => simp
  | some s =>
    simp only [Option.bind_eq_bind, bind_bind, closes_lock, ne_eq, reduceCtorEq, not_false_eq_true,
      closes_lookup, true_and]
    intro x _
    rcases x with _ | ⟨k, _ | _ | _⟩ <;> simp

theorem acquire_locked : L.Locked .global .acquire B (program kind.impl t .acquire) := by
  unfold program tbmSurfaceQueueAcquire
  rw [kind.impl_acquire]
  simp only [bind_bind]
  apply locked_valid
  intro q _ _ _
  simp only [bind_bind, closes_lock, ne_eq, reduceCtorEq, not_false_eq_true, closes_access,
    true_and]
  intro x q' _
  cases x <;> simp

theorem setAllocCb_locked {x y : Bool} :
    L.Locked .global (.setAllocCb x y) B (program kind.impl t (.setAllocCb x y)) := by
  unfold program tbmSurfaceQueueSetAllocCb
  simp only [bind_bind]
  apply locked_valid
  intro q _ _ _
  simp

theorem flush_locked : L.Locked .global .flush B (program kind.impl t .flush) := by
  unfold program tbmSurfaceQueueFlush leaveCleared
  simp only [bind_bind]
  apply locked_valid
  intro q _ _ _
  simp

theorem reset_locked {w h f : ℤ} :
    L.Locked .global (.reset w h f) B (program kind.impl t (.reset w h f)) := by
  unfold program tbmSurfaceQueueReset leaveCleared
  simp only [bind_bind]
  apply locked_valid
  intro q _ _ _
  simp

theorem setSize_locked {n : ℤ} {f : Bool} :
    L.Locked .global (.setSize n f) B (program kind.impl t (.setSize n f)) := by
  unfold program tbmSurfaceQueueSetSize leaveCleared
  simp only [bind_bind]
  apply locked_valid
  intro q _ _ _
  cases f <;> simp [closes_access]

theorem destroy_locked : L.Locked .global .destroy B (program kind.impl t .destroy) := by
  unfold program tbmSurfaceQueueDestroy
  simp only [bind_bind]
  apply locked_valid
  intro q _ _ _
  simp

/-- The hook is only run on an empty `free_queue`. -/
theorem closes_surfaceQueueDequeue {a : QProg Unit} {f : Option ℕ → QProg Reply}
    (ha : ∀ k : Unit → QProg Reply, (∀ b q', L.Closes .global op q₀ A b (k ()) q') →
      L.Closes .global op q₀ A true (a >>= k) q)
    (h : ∀ b n q', L.Closes .global op q₀ A b (f n) q') :
    L.Closes .global op q₀ A true (surfaceQueueDequeue a >>= f) q := by
  unfold surfaceQueueDequeue
  simp only [Option.bind_eq_bind, bind_bind, closes_read, closes_ite_bind, Bool.not_eq_true]
  constructor
  · intro _
    apply ha
    intro b q'
    simp only [closes_read, closes_ite_bind, pure_then, Bool.not_eq_true, closes_access]
    exact ⟨fun _ => h b none q', fun _ n s _ => h b n s⟩
  · intro _
    rw [closes_access]
    exact fun n s _ => h true n s

include hcb hB hans in
theorem dequeue_locked : L.Locked .global .dequeue B (program kind.impl t .dequeue) := by
  unfold program tbmSurfaceQueueDequeue
  simp only [bind_bind]
  apply locked_valid
  intro q hi _ _
  have hattach : ∀ k : Unit → QProg Reply,
      (∀ b q', L.Closes .global .dequeue q (B q) b (k ()) q') →
        L.Closes .global .dequeue q (B q) true (needAttach t >>= k) q := by
    intro k hk
    exact closes_needAttach (hcb q hi) (hB q) (hans q) fun b x _ => hk b _
  cases kind with
  | default =>
    simp only [Kind.impl, tbmQueueDefaultImpl, callNeedAttach, tbmQueueDefaultNeedAttach,
      bind_bind, closes_lock, ne_eq, reduceCtorEq, not_false_eq_true, true_and]
    apply closes_surfaceQueueDequeue hattach
    intro b n q'
    cases n <;> simp
  | sequence =>
    simp only [Kind.impl, tbmQueueSequenceImpl, tbmQueueSequenceDequeue,
      tbmQueueSequenceNeedAttach, bind_bind, closes_lock, ne_eq, reduceCtorEq, not_false_eq_true,
      true_and]
    apply closes_surfaceQueueDequeue hattach
    intro b n q'
    cases n <;> simp

end Closes

namespace Promise

variable {kind : Kind} (P : Promise kind) {op : Op} {q q' : SurfaceQueue} {t : ℕ} {w : ℤ}
  {x : AllocResult} {r : Reply}

/-- A call on a destroyed queue is refused, whatever the allocator would answer. -/
theorem commits_refused (hop : P.calls op) (he : P.enters op q) (hv : q.valid = false) :
    P.Commits op q (View.refuse op) q := by
  obtain ⟨x, hx⟩ := P.answer op q
  exact ⟨hop, he, .inl ⟨x, hx, Tracks.refused hv op x⟩⟩

/-- After a wait a call only looks whether the queue is still there. -/
theorem waited_sections {d : Cond} (hop : P.calls op) (ho : op.Waits)
    (hr : View.refuse op = .answer 0) :
    P.contract.Sections .global op (do
      condWait d .queue
      mutexLock .global
      let v ← surfaceQueueIsValid
      (if v = false then do
          unlockBoth
          pure 0
        else do
          unlockBoth
          pure 1) >>= fun n => pure (.answer n)) .before := by
  simp only [surfaceQueueIsValid, unlockBoth, bind_bind, sections_condWait, ne_eq, reduceCtorEq,
    not_false_eq_true, sections_lock, sections_read, sections_ite_bind, pure_then,
    sections_unlock_of_ne, sections_unlock, sections_pure, Mode.after.injEq, exists_eq_right,
    and_false, or_false, Bool.not_eq_false, true_and]
  intro q hi he
  constructor
  · intro hv
    refine ⟨hi, ?_⟩
    rw [← hr]
    exact P.commits_refused hop he hv
  · intro hv
    exact ⟨hi, hop, he, .inr ⟨ho, hv, rfl, rfl⟩⟩

theorem canAcquire_locked (hop : P.calls (.canAcquire w)) :
    P.contract.Locked .global (.canAcquire w) (P.answers (.canAcquire w))
      (program kind.impl t (.canAcquire w)) := by
  unfold program tbmSurfaceQueueCanAcquire
  simp only [bind_bind]
  apply locked_valid
  intro q hi he _
  simp only [Bool.not_eq_eq_eq_not, Bool.not_true, ne_eq, ite_not, pure_then, ↓reduceIte,
    Option.bind_eq_bind, bind_bind, closes_lock, reduceCtorEq, not_false_eq_true, closes_read,
    closes_ite_bind, closes_unlockBoth, quiet_pure, sections_pure, and_false, or_false,
    implies_true, Bool.not_eq_false, closes_lookup, closes_unlock_self, sections_condWait,
    sections_lock, true_and]
  intro _ hw x _ _
  have h := P.waited_sections (d := .dirtyCond) hop hw rfl
  refine .inr ⟨hi, ⟨hop, he, .inl ⟨rfl, .inl hw⟩⟩, ?_⟩
  simpa using h

theorem canDequeueRest_locked (hop : P.calls (.canDequeue w)) :
    P.contract.Locked .global (.canDequeue w) (P.answers (.canDequeue w))
      (canDequeueRest kind.impl w t >>= fun n => pure (.answer n)) := by
  unfold canDequeueRest
  simp only [bind_bind]
  apply locked_valid
  intro q hi he hv
  rw [kind.callNeedAttach_impl]
  simp only [Bool.not_eq_eq_eq_not, Bool.not_true, ne_eq, ite_not, pure_then, ↓reduceIte,
    Option.bind_eq_bind, Bool.true_eq_false, bind_bind, closes_lock, reduceCtorEq,
    not_false_eq_true, closes_read, closes_ite_bind, Bool.not_eq_true, closes_unlockBoth,
    quiet_pure, sections_pure, and_false, or_false, implies_true, Bool.not_eq_false, closes_lookup,
    closes_unlock_self, sections_condWait, sections_lock, true_and]
  constructor
  · intro hf
    refine closes_needAttach (A := P.answers (.canDequeue w) q) (t := t) hi.1 (P.answer _ _)
      (fun l x => P.request) fun b x hx => ?_
    simp only [closes_isValid, closes_ite_bind, bind_bind, pure_then, closes_unlock_self,
      quiet_pure, sections_pure, reduceCtorEq, and_false, or_false, implies_true,
      Bool.not_eq_false, closes_read, closes_unlockBoth, closes_lookup, sections_condWait, ne_eq,
      not_false_eq_true, sections_lock, true_and]
    intro hav haf hw k hk hne
    have hc : call kind (.canDequeue w) x q = some (.answer 1, attachAnswer x q) := by
      simp [call, program, tbmSurfaceQueueCanDequeue, kind.callNeedAttach_impl, hv, hf, hav, haf,
        hw, hk, hne]
    have hi' : P.contract.inv (attachAnswer x q) :=
      ⟨call_allocCb hc (by simp) hi.1, P.keeps hop hi.2 he hx hc⟩
    have hbase : attachBase x q = attachAnswer x q := if_pos hf
    have h := P.waited_sections (d := .freeCond) hop hw rfl
    refine .inr ⟨hi', ⟨hop, he, .inr ⟨hw, hv, ⟨w, rfl⟩, x, hx, hbase.symm, haf⟩⟩, ?_⟩
    simpa using h
  · intro hf hf'
    simp [hf] at hf'

/-- A program that does what the call does by a single thread. -/
theorem sections_of_locked {p : QProg Reply} (hop : P.contract.calls op)
    (h : P.contract.Locked .global op (P.answers op) p)
    (hexec : ∀ x q, p.exec x q = call kind op x q) :
    P.contract.Sections .global op p .before := by
  refine h.sections (P.answer op) (fun q x a q' hi he hx hc => ?_) fun hs q x hi he hx => ?_
  · rw [hexec] at hc
    exact ⟨⟨call_allocCb hc hop.2 hi.1, P.keeps hop.1 hi.2 he hx hc⟩, hop.1, he, .inl ⟨x, hx, hc⟩⟩
  · rw [hexec]
    exact P.defined hs hop.1 hi.2 he hx

/-- The first section of `can_dequeue` only looks whether the queue is there. -/
theorem canDequeue_sections (hop : P.contract.calls (.canDequeue w)) :
    P.contract.Sections .global (.canDequeue w) (program kind.impl t (.canDequeue w)) .before := by
  have hrest := P.sections_of_locked hop (P.canDequeueRest_locked (t := t) hop.1) fun x q => by
    rw [← exec_program (t := t)]
    simp only [program, tbmSurfaceQueueCanDequeue_eq]
    by_cases hv : q.valid = true
    · simp [hv]
    · simp [canDequeueRest, hv]
  simp only [program, tbmSurfaceQueueCanDequeue_eq]
  simp only [surfaceQueueIsValid, returnValIfFail, bind_bind, sections_lock, sections_read,
    sections_ite_bind, sections_unlock, Bool.not_eq_true, pure_then, sections_pure,
    Mode.after.injEq, exists_eq_right, reduceCtorEq, and_false, or_false, true_and]
  intro q hi he
  constructor
  · intro hv
    exact ⟨hi, .inr ⟨⟨hop.1, he, .inl ⟨rfl, .inr ⟨w, rfl⟩⟩⟩, hrest⟩⟩
  · intro hv
    exact ⟨hi, P.commits_refused hop.1 he hv⟩

theorem program_sections (hop : P.contract.calls op) :
    P.contract.Sections .global op (program kind.impl t op) .before := by
  have hcb : ∀ q, P.contract.inv q → q.allocCb = false := fun q hi => hi.1
  cases op with
  | canDequeue w => exact P.canDequeue_sections hop
  | dequeue =>
    refine P.sections_of_locked hop ?_ fun x q => exec_program
    exact dequeue_locked hcb (P.answer .dequeue) fun q l x => P.request
  | enqueue s => exact P.sections_of_locked hop enqueue_locked fun x q => exec_program
  | acquire => exact P.sections_of_locked hop acquire_locked fun x q => exec_program
  | release s => exact P.sections_of_locked hop release_locked fun x q => exec_program
  | canAcquire w =>
    exact P.sections_of_locked hop (P.canAcquire_locked hop.1) fun x q => exec_program
  | reset w h f => exact P.sections_of_locked hop reset_locked fun x q => exec_program
  | flush => exact P.sections_of_locked hop flush_locked fun x q => exec_program
  | setSize n f => exact P.sections_of_locked hop setSize_locked fun x q => exec_program
  | setAllocCb x y => exact P.sections_of_locked hop setAllocCb_locked fun x q => exec_program
  | destroy => exact P.sections_of_locked hop destroy_locked fun x q => exec_program

/-- A wait for a free surface that no allocation brings leaves what `can_dequeue` without a wait
leaves. -/
theorem Skips.step (h : P.Skips op q q') : q' = q ∨
    ∃ x, step kind (.canDequeue 0, x) q = some (.answer 0, q') := by
  rcases h with ⟨-, -, ⟨rfl, -⟩ | ⟨-, hv, -, x, -, rfl, hf⟩⟩
  · exact .inl rfl
  · refine .inr ⟨x, ?_⟩
    unfold attachBase at hf ⊢
    by_cases he : q.queueIsEmpty .free = true
    · rw [if_pos he] at hf ⊢
      have hv' : (attachAnswer x q).valid = true := attachAnswer_valid.trans hv
      simp [Queue.step, call, program, tbmSurfaceQueueCanDequeue, kind.callNeedAttach_impl, hv, he,
        hf, hv']
    · rw [if_neg he] at hf
      exact absurd hf he

end Promise

section Runs

open Runs

variable {kind : Kind} {n : ℕ} {q : SurfaceQueue} {c : QConfig n} {acts : List (QAction n)}
  {log : List (Entry (QConfig n) (QAction n) Unit)}

/-- Every schedule that keeps the promises looks as if its calls took effect one at a time. -/
theorem Promise.run (P : Promise kind) (hcb : q.allocCb = false) (hq : P.holds q)
    (hp : Permitted (move kind) (fun c a => c.Honours P.contract .global a) acts (.initial q))
    (hr : run (move kind) acts (.initial q) = some (log, c)) :
    ∃ o, (Object.initial q).Steps P.contract (Config.history log) o ∧
      c.Linear P.contract .global o :=
  Config.Linear.run (fun _ _ hop => P.program_sections hop) (Config.Linear.initial ⟨hcb, hq⟩) hp hr

theorem answer_of_true (_ : Op) (_ : SurfaceQueue) : ∃ _ : AllocResult, True :=
  ⟨⟨none, false⟩, trivial⟩

/-- No promise at all. -/
def Promise.empty (kind : Kind) : Promise kind where
  holds _ := True
  calls _ := True
  enters _ _ := True
  answers _ _ _ := True
  safe := False
  request _ := trivial
  answer := answer_of_true
  keeps _ _ _ _ _ := trivial
  defined hs := hs.elim

/-- Nobody sets an `alloc_cb`. -/
def NoAllocCb : QAction n → Prop
  | .call _ (.setAllocCb true _) => False
  | _ => True

instance : DecidablePred (NoAllocCb (n := n))
  | .call _ (.setAllocCb true _) => isFalse id
  | .call _ (.setAllocCb false _) | .call _ .dequeue | .call _ (.enqueue _) | .call _ .acquire
  | .call _ (.release _) | .call _ (.canDequeue _) | .call _ (.canAcquire _)
  | .call _ (.reset _ _ _) | .call _ .flush | .call _ (.setSize _ _) | .call _ .destroy
  | .step _ | .input _ _ | .signal _ _ | .spurious _ | .wake _ => isTrue trivial

theorem NoAllocCb.honours {a : QAction n} (h : NoAllocCb a) :
    c.Honours (Promise.empty kind).contract .global a := by
  cases a with
  | call t op =>
    refine ⟨trivial, fun f e => ?_⟩
    subst e
    exact h
  | step t => exact fun _ _ _ _ => trivial
  | input t x => exact fun _ _ _ _ _ => trivial
  | signal | spurious | wake => trivial

/-- Thread 1 starts later than thread 0 and gets its surface first. -/
def overtakenDequeue : List (QAction 2) := [.call 0 .dequeue, .call 1 .dequeue] ++ steps 1 5 ++
  [.input 1 ⟨some 7, true⟩] ++ steps 1 11 ++ steps 0 5 ++ [.input 0 ⟨some 8, true⟩] ++ steps 0 11

end Runs

end Tbm.Queue
