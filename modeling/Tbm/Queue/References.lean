import Tbm.Queue.Capacity
import Tbm.Queue.Surfaces

/-! The references the queue holds on surfaces: one for every attached node, given back when the
node is deleted. The item lists play no part in it, so that a queue whose item lists are damaged
keeps its references in order as well. -/
namespace Tbm.Queue

open Prog Runs

/-- What the deletion of a node with surface `s` calls: `free_cb`, if it is set, and then the drop
of the reference. -/
def dropCalls (freeCb : Bool) (s : Surface) : List Call :=
  if freeCb then [.freeCb s, .destroy s] else [.destroy s]

/-- Nothing happens to the surfaces. -/
structure Retains (q q' : SurfaceQueue) : Prop where
  freeCb : q'.freeCb = q.freeCb
  calls : q'.calls = q.calls
  surface : ∀ n, (q'.node n).surface = (q.node n).surface
  registry : ∀ A, Registry q A → Registry q' A

namespace Retains

variable {q q' q'' : SurfaceQueue}

theorem trans (h : Retains q q') (h' : Retains q' q'') : Retains q q'' where
  freeCb := h'.freeCb.trans h.freeCb
  calls := h'.calls.trans h.calls
  surface := fun n => (h'.surface n).trans (h.surface n)
  registry := fun A hA => h'.registry A (h.registry A hA)

theorem setting (hf : q'.freeCb = q.freeCb) (hc : q'.calls = q.calls) (hl : q'.links = q.links)
    (hn : q'.node = q.node) (hk : q'.nodes = q.nodes) : Retains q q' := by
  refine ⟨hf, hc, fun _ => by rw [hn], fun A hA => ?_⟩
  refine hA.congr (hl ▸ hA.kinded) (fun _ _ => ?_) (fun _ => by rw [hn]) hk
  rw [hl]
  exact ⟨rfl, rfl⟩

private theorem setNode (q : SurfaceQueue) (n : ℕ) {v : Node} (hf : v.freed = (q.node n).freed)
    (hs : v.surface = (q.node n).surface) : Retains q (q.setNode n v) := by
  refine ⟨rfl, rfl, fun k => ?_, fun _ hA => hA.setNode hf⟩
  by_cases e : k = n
  · subst e
    simp [SurfaceQueue.setNode, hs]
  · simp [SurfaceQueue.setNode, e]

theorem setType (q : SurfaceQueue) (n : ℕ) (t : NodeType) : Retains q (q.setType n t) :=
  setNode q n rfl rfl

theorem pushBack (q : SurfaceQueue) (w : Fifo) (n : ℕ) : Retains q (q.queueNodePushBack w n) :=
  ⟨rfl, rfl, fun _ => rfl, fun _ hA => hA.pushBack w n⟩

theorem shuffles (h : Shuffles q q') : Retains q q' := by
  induction h with
  | refl => exact .setting rfl rfl rfl rfl rfl
  | pushBack _ w n ih => exact ih.trans (pushBack _ w n)
  | pop _ w n ih => exact ih.trans ⟨rfl, rfl, fun _ => rfl, fun _ hA => hA.pop w n⟩
  | setType _ n t ih => exact ih.trans (setType _ n t)
  | setPrivFlags _ n k ih => exact ih.trans (setNode _ n rfl rfl)

end Retains

/-- The nodes `D` are deleted one after the other, and nothing else happens to the surfaces. -/
structure Deletes (q q' : SurfaceQueue) : Prop where
  freeCb : q'.freeCb = q.freeCb
  books : ∀ A, Registry q A → ∃ D A', Registry q' A' ∧ A.Perm (D ++ A') ∧
    (∀ n ∈ A', (q'.node n).surface = (q.node n).surface) ∧
    q'.calls = q.calls ++ D.flatMap fun n => dropCalls q.freeCb (q.node n).surface

namespace Deletes

variable {kind : Kind} {q q' q'' p : SurfaceQueue} {n : ℕ}

theorem retains (h : Retains q q') : Deletes q q' :=
  ⟨h.freeCb, fun A hA =>
    ⟨[], A, h.registry A hA, .refl A, fun n _ => h.surface n, by simp [h.calls]⟩⟩

theorem refl (q : SurfaceQueue) : Deletes q q := retains (.setting rfl rfl rfl rfl rfl)

theorem trans (h : Deletes q q') (h' : Deletes q' q'') : Deletes q q'' where
  freeCb := h'.freeCb.trans h.freeCb
  books := by
    intro A hA
    obtain ⟨D, B, hB, hp, hs, hc⟩ := h.books A hA
    obtain ⟨D', B', hB', hp', hs', hc'⟩ := h'.books B hB
    refine ⟨D ++ D', B', hB', ?_, fun n hn => ?_, ?_⟩
    · rw [List.append_assoc]
      exact hp.trans (hp'.append_left D)
    · have hm : n ∈ B := hp'.mem_iff.mpr (by simp [hn])
      exact (hs' n hn).trans (hs n hm)
    · have hD' : D'.flatMap (fun n => dropCalls q'.freeCb (q'.node n).surface) =
          D'.flatMap fun n => dropCalls q.freeCb (q.node n).surface := by
        apply List.flatMap_congr
        intro n hn
        have hm : n ∈ B := hp'.mem_iff.mpr (by simp [hn])
        rw [h.freeCb, hs n hm]
      rw [hc', hc, hD', List.flatMap_append, List.append_assoc]

instance : Std.Refl Deletes := ⟨refl⟩

instance : IsTrans SurfaceQueue Deletes := ⟨fun _ _ _ => trans⟩

theorem deleteNode (hn : (q.node n).freed = false) : Deletes q (q.queueDeleteNode n) := by
  refine ⟨rfl, fun A hA => ?_⟩
  have hm : n ∈ A := (hA.live n).mp hn
  refine ⟨[n], A.erase n, hA.deleteNode hm, List.perm_cons_erase hm, fun k hk => ?_, ?_⟩
  · have hne : k ≠ n := fun e => (hA.nodup.mem_erase_iff.mp hk).1 e
    simp [hne]
  · rw [List.flatMap_singleton]
    rfl

theorem deleteNodes (h : q.deleteNodes = some q') : Deletes q q' :=
  SurfaceQueue.deleteNodes_preserves (Deletes q) (fun hf hs => hs.trans (deleteNode hf)) (refl q) h

theorem detachNode (h : detachNode kind.impl n q = some q') : Deletes q q' := by
  rcases SurfaceQueue.detachNode_cases h with rfl | ⟨m, hf, rfl⟩
  · exact refl q'
  · exact (deleteNode hf).trans (retains (.setting rfl rfl rfl rfl rfl))

theorem detachFree {k : ℤ} (h : q.detachFree (Tbm.Queue.detachNode kind.impl) k = some q') :
    Deletes q q' :=
  SurfaceQueue.detachFree_preserves (Deletes q) (fun hd hs => hs.trans (detachNode hd)) (refl q) h

/-- The heads are only initialised again when no node is left. -/
theorem clearNodes (h : clearNodes kind.impl q = some q') : Deletes q q' := by
  obtain ⟨d, hd, he⟩ := Option.bind_eq_some_iff.mp h
  obtain rfl := Option.some.inj he
  have hdel := deleteNodes hd
  have hcalls : (initHeads kind.impl d).calls = d.calls := by cases kind <;> rfl
  have hcb : (initHeads kind.impl d).freeCb = d.freeCb := by cases kind <;> rfl
  refine ⟨hcb.trans hdel.freeCb, fun A hA => ?_⟩
  obtain ⟨D, B, hB, hp, -, hc⟩ := hdel.books A hA
  obtain ⟨d', hd', hnil, -⟩ := hA.deleteNodes
  obtain rfl : d' = d := Option.some.inj (hd'.symm.trans hd)
  have hB' : B = [] := Option.some.inj (hB.listNodes_eq.symm.trans hnil.listNodes_eq)
  obtain ⟨p, hp', hr, -⟩ := hA.clearNodes kind
  obtain rfl : p = initHeads kind.impl d' := Option.some.inj (hp'.symm.trans h)
  refine ⟨D, [], hr.toRegistry, ?_, by simp, hcalls.trans hc⟩
  rw [hB'] at hp
  exact hp

end Deletes

section Programs

variable {kind : Kind} {q q' : SurfaceQueue} {x : AllocResult} {r : Reply} {op : Op} {me : ℕ}
  {P : SurfaceQueue → SurfaceQueue → Prop}

private theorem acts_valid [Std.Refl P] {β : Type} {a : β} {p : QProg β} {f : β → Reply}
    (h : (p >>= fun x => pure (f x)).Acts P) : Acts P (do
      mutexLock .global
      let v ← surfaceQueueIsValid
      let x ← returnValIfFail v a p
      pure (f x) : QProg Reply) := by
  unfold surfaceQueueIsValid
  simp only [acts_mutexLock, acts_read, Bool.forall_bool]
  unfold returnValIfFail
  simp [h]

private theorem enqueue_deletes {s : Option Surface} :
    (program kind.impl me (.enqueue s)).Acts Deletes := by
  unfold program tbmSurfaceQueueEnqueue unlockBoth
  simp only [bind_bind]
  apply acts_valid
  cases s with
  | none => simp [returnValIfFail]
  | some s =>
    simp only [Option.bind_eq_bind, bind_bind, acts_mutexLock, acts_lookup]
    rintro (_ | ⟨n, _ | _ | _⟩)
    · simp
    · simp
    · simp
    · cases kind with
      | default =>
        simp only [Kind.impl, tbmQueueDefaultImpl, SurfaceQueue.surfaceQueueEnqueue, ↓reduceIte,
          bind_bind, acts_modify, acts_read, acts_ite_bind, pure_then, acts_mutexUnlock, acts_pure,
          implies_true, Bool.not_eq_true, acts_condSignal, acts_notify, and_true, true_and,
          forall_eq]
        exact ⟨fun q => .retains (.pushBack q .dirty n), fun q => .retains (.setType q n .enqueue)⟩
      | sequence =>
        simp only [Kind.impl, tbmQueueSequenceImpl, bind_bind, acts_update, Option.map_eq_some_iff,
          Prod.exists, exists_eq_right, forall_exists_index, acts_read, acts_ite_bind, pure_then,
          acts_mutexUnlock, acts_pure, implies_true, Bool.not_eq_true, acts_modify,
          acts_condSignal, acts_notify, and_true, true_and, forall_eq]
        exact ⟨fun q q' vs hd => .retains (.shuffles (.drain hd)),
          fun q => .retains (.setType q n .enqueue)⟩

private theorem acquire_deletes : (program kind.impl me .acquire).Acts Deletes := by
  unfold program tbmSurfaceQueueAcquire unlockBoth
  rw [kind.impl_acquire]
  simp only [bind_bind]
  apply acts_valid
  simp only [bind_bind, acts_mutexLock, acts_access]
  constructor
  · intro q n q' he
    unfold SurfaceQueue.surfaceQueueAcquire at he
    split_ifs at he
    · obtain ⟨-, rfl⟩ : none = n ∧ q = q' := by simpa using he
      exact .refl q
    · obtain ⟨⟨k, p⟩, hp, he⟩ := Option.bind_eq_some_iff.mp he
      obtain ⟨-, rfl⟩ : some k = n ∧ p = q' := by simpa using he
      exact .retains (.shuffles (Shuffles.refl.popFront hp))
  · intro n
    cases n with
    | none => simp
    | some n =>
      simp only [bind_bind, pure_then, acts_modify, acts_read, acts_mutexUnlock, acts_notify,
        acts_pure, implies_true, and_true]
      exact fun q => .retains (.setType q n .acquire)

private theorem release_deletes {s : Option Surface} :
    (program kind.impl me (.release s)).Acts Deletes := by
  unfold program tbmSurfaceQueueRelease unlockBoth
  rw [kind.impl_release]
  simp only [bind_bind]
  apply acts_valid
  cases s with
  | none => simp [returnValIfFail]
  | some s =>
    simp only [Option.bind_eq_bind, bind_bind, acts_mutexLock, acts_lookup]
    rintro (_ | ⟨n, _ | _ | _⟩)
    · simp
    · simp
    · simp
    · simp only [SurfaceQueue.surfaceQueueRelease, ↓reduceIte, bind_bind, acts_read, acts_ite_bind,
        pure_then, acts_update, acts_mutexUnlock, acts_pure, and_true, Bool.not_eq_true,
        acts_modify, implies_true, acts_condSignal, acts_notify, true_and, forall_eq,
        Bool.forall_bool, Bool.false_eq_true, IsEmpty.forall_iff, forall_const, Bool.true_eq_false]
      exact ⟨⟨fun q => .retains (.pushBack q .free n), fun q => .retains (.setType q n .release)⟩,
        fun q q' hd => .detachNode hd⟩

private theorem canAcquire_deletes {w : ℤ} :
    (program kind.impl me (.canAcquire w)).Acts Deletes := by
  unfold program tbmSurfaceQueueCanAcquire unlockBoth surfaceQueueIsValid
  simp only [bind_bind]
  apply acts_valid
  simp

private theorem clearing_deletes {w h f : ℤ} :
    (program kind.impl me .flush).Acts Deletes ∧
      (program kind.impl me (.reset w h f)).Acts Deletes := by
  unfold program tbmSurfaceQueueFlush tbmSurfaceQueueReset leaveCleared
  simp only [bind_bind]
  constructor
  · apply acts_valid
    simp only [Option.bind_eq_bind, bind_bind, acts_read, acts_ite_bind, pure_then,
      acts_mutexUnlock, acts_pure, implies_true, Bool.not_eq_true, acts_mutexLock, acts_update,
      acts_condSignal, acts_notify, and_true, true_and, forall_eq]
    exact fun q q' he => .clearNodes he
  · apply acts_valid
    simp only [Bool.decide_and, Option.bind_eq_bind, bind_bind, acts_read, acts_ite_bind,
      pure_then, acts_mutexUnlock, acts_pure, implies_true, Bool.not_eq_true, acts_mutexLock,
      acts_update, acts_condSignal, acts_notify, and_true, true_and, forall_eq]
    intro q q' he
    have hset : Deletes q { q with width := w, height := h, format := f } :=
      .retains (.setting rfl rfl rfl rfl rfl)
    exact hset.trans (.clearNodes he)

private theorem setSize_deletes {s : ℤ} {f : Bool} :
    (program kind.impl me (.setSize s f)).Acts Deletes := by
  unfold program tbmSurfaceQueueSetSize leaveCleared unlockBoth
  simp only [bind_bind]
  apply acts_valid
  unfold returnValIfFail
  have hsize : ∀ q : SurfaceQueue, Deletes q { q with queueSize := s } :=
    fun q => .retains (.setting rfl rfl rfl rfl rfl)
  cases f with
  | true =>
    simp only [decide_eq_true_eq, Bool.not_true, Bool.and_false, ↓reduceIte, Option.bind_eq_bind,
      acts_ite_bind, bind_bind, acts_read, pure_then, acts_mutexUnlock, acts_pure, implies_true,
      Bool.not_eq_true, acts_mutexLock, acts_access, acts_condSignal, acts_notify, and_true,
      true_and, forall_eq, not_lt]
    intro _ q _ q' he
    obtain ⟨p, hp, e⟩ := Option.bind_eq_some_iff.mp he
    obtain rfl : { p with queueSize := s } = q' := by simpa using e
    exact (Deletes.clearNodes hp).trans (hsize p)
  | false =>
    simp only [decide_eq_true_eq, Bool.not_false, Bool.and_true, Bool.false_eq_true, ↓reduceIte,
      Option.bind_eq_bind, Option.bind_some, acts_ite_bind, bind_bind, acts_read, pure_then,
      acts_mutexUnlock, acts_pure, implies_true, Bool.not_eq_true, acts_mutexLock, acts_access,
      and_true, true_and, forall_eq, not_lt]
    intro _ q _ q' he
    split_ifs at he
    · obtain ⟨p, hp, e⟩ := Option.bind_eq_some_iff.mp he
      obtain rfl : { p with queueSize := s } = q' := by simpa using e
      exact (Deletes.detachFree hp).trans (hsize p)
    · obtain rfl : { q with queueSize := s } = q' := by simpa using he
      exact hsize q

private theorem destroy_deletes : (program kind.impl me .destroy).Acts Deletes := by
  unfold program tbmSurfaceQueueDestroy
  simp only [bind_bind]
  apply acts_valid
  simp only [Option.bind_eq_bind, bind_bind, acts_modify, acts_update, acts_notify,
    acts_mutexUnlock, acts_pure, and_true]
  exact ⟨fun q => .retains (.setting rfl rfl rfl rfl rfl), fun q q' he => .deleteNodes he⟩

/-- Apart from the two attaching operations and the change of the callbacks, every call only
deletes nodes. -/
theorem call_deletes (ho : ¬op.Attaching) (hcb : ∀ a f, op ≠ .setAllocCb a f)
    (he : call kind op x q = some (r, q')) : Deletes q q' := by
  have hp : (program kind.impl 0 op).Acts Deletes := by
    cases op with
    | dequeue => exact absurd trivial ho
    | canDequeue w => exact absurd trivial ho
    | setAllocCb a f => exact absurd rfl (hcb a f)
    | enqueue s => exact enqueue_deletes
    | acquire => exact acquire_deletes
    | release s => exact release_deletes
    | canAcquire w => exact canAcquire_deletes
    | reset w h f => exact (clearing_deletes (w := w)).2
    | flush => exact (clearing_deletes (w := 0) (h := 0) (f := 0)).1
    | setSize s f => exact setSize_deletes
    | destroy => exact destroy_deletes
  exact hp.exec he

theorem setAllocCb_eq {a f : Bool} (he : call kind (.setAllocCb a f) x q = some (r, q')) :
    q' = q ∨ q' = { q with allocCb := a, freeCb := f } := by
  cases hv : q.valid with
  | false =>
    have hr := he.symm.trans (Tracks.refused hv (.setAllocCb a f) x)
    exact .inl (congrArg Prod.snd (Option.some.inj hr))
  | true =>
    simp only [call, program, tbmSurfaceQueueSetAllocCb, bind_bind, exec_bind, exec_mutexLock,
      exec_surfaceQueueIsValid, exec_returnValIfFail, exec_modify, exec_unlockBoth, exec_pure,
      Option.bind_some, hv, ↓reduceIte, Option.some.injEq, Prod.mk.injEq] at he
    exact .inr he.2.symm

/-- The call that brings in a surface. -/
def openCall (q : SurfaceQueue) (s : Surface) : Call :=
  if q.allocCb then .ref s else .create q.width q.height q.format q.flags s

/-- What an attaching call does: nothing, or it takes a surface and gives it back because there is
no memory for the node, or it attaches the surface. -/
inductive Attached (q : SurfaceQueue) (x : AllocResult) (A : List ℕ) (p : SurfaceQueue) : Prop
  | idle (hr : Registry p A) (hs : ∀ n, (p.node n).surface = (q.node n).surface)
    (hc : p.calls = q.calls)
  | undone (s : Surface) (hx : x.surface = some s) (hr : Registry p A)
    (hs : ∀ n, (p.node n).surface = (q.node n).surface)
    (hc : p.calls = q.calls ++ [openCall q s, .unref s])
  | done (s : Surface) (hx : x.surface = some s) (hr : Registry p (A ++ [q.nodes]))
    (hs : ∀ n, (p.node n).surface = if n = q.nodes then s else (q.node n).surface)
    (hc : p.calls = q.calls ++ [openCall q s, .ref s, .unref s])

private theorem attachAnswer_attached {A : List ℕ} (hA : Registry q A) :
    Attached q x A (attachAnswer x q) ∧ (attachAnswer x q).freeCb = q.freeCb ∧
      (attachAnswer x q).valid = q.valid := by
  unfold attachAnswer
  by_cases hfull : q.queueSize = q.numAttached
  · rw [if_pos hfull]
    exact ⟨.idle hA (fun _ => rfl) rfl, rfl, rfl⟩
  · rw [if_neg hfull]
    cases hx : x.surface with
    | none => exact ⟨.idle hA (fun _ => rfl) rfl, rfl, rfl⟩
    | some s =>
      cases hn : x.node with
      | false =>
        refine ⟨.undone s hx ?_ (fun _ => rfl) ?_, rfl, rfl⟩
        · exact hA.congr hA.kinded (fun _ _ => ⟨rfl, rfl⟩) (fun _ => rfl) rfl
        · simp [SurfaceQueue.record, SurfaceQueue.surfaceQueueAttach, openCall]
      | true =>
        refine ⟨.done s hx ?_ (fun n => ?_) ?_, rfl, rfl⟩
        · have hr := (hA.linkNewNode s q.epoch).pushBack .free q.nodes
          exact hr.congr hr.kinded (fun _ _ => ⟨rfl, rfl⟩) (fun _ => rfl) rfl
        · by_cases e : n = q.nodes
          · simp [SurfaceQueue.record, SurfaceQueue.surfaceQueueAttach,
              SurfaceQueue.queueNodePushBack, SurfaceQueue.linkNewNode, e]
          · simp [SurfaceQueue.record, SurfaceQueue.surfaceQueueAttach,
              SurfaceQueue.queueNodePushBack, SurfaceQueue.linkNewNode, e]
        · simp [SurfaceQueue.record, SurfaceQueue.surfaceQueueAttach,
            SurfaceQueue.queueNodePushBack, SurfaceQueue.linkNewNode, openCall]

theorem Attached.retains {A : List ℕ} {p : SurfaceQueue} (h : Attached q x A p)
    (hr : Retains p q') : Attached q x A q' := by
  cases h with
  | idle hA hs hc =>
    exact .idle (hr.registry _ hA) (fun n => (hr.surface n).trans (hs n)) (hr.calls.trans hc)
  | undone s hx hA hs hc =>
    exact .undone s hx (hr.registry _ hA) (fun n => (hr.surface n).trans (hs n)) (hr.calls.trans hc)
  | done s hx hA hs hc =>
    exact .done s hx (hr.registry _ hA) (fun n => (hr.surface n).trans (hs n)) (hr.calls.trans hc)

theorem call_attached {A : List ℕ} (hA : Registry q A) (hv : q.valid = true) (ho : op.Attaching)
    (he : call kind op x q = some (r, q')) : Attached q x A q' ∧ q'.valid = true := by
  have hsh := attaching_shuffles hv ho he
  have hvalid : q'.valid = (attachBase x q).valid :=
    congrArg SurfaceQueue.Settings.valid hsh.narrows.settings
  obtain ⟨ha, -, hval⟩ := attachAnswer_attached (x := x) hA
  unfold attachBase at hsh hvalid
  by_cases hf : q.queueIsEmpty .free = true
  · rw [if_pos hf] at hsh hvalid
    exact ⟨ha.retains (.shuffles hsh), hvalid.trans (hval.trans hv)⟩
  · rw [if_neg hf] at hsh hvalid
    have hidle : Attached q x A q := .idle hA (fun _ => rfl) rfl
    exact ⟨hidle.retains (.shuffles hsh), hvalid.trans hv⟩

end Programs

/-- A queue among the other users of its surfaces: the `refcnt` of every surface, and the
references that are held outside the queue. -/
structure World where
  queue : SurfaceQueue
  refcnt : Surface → ℤ
  held : Surface → ℕ

/-- A call of the queue, or a reference taken or dropped by somebody else. -/
inductive Turn
  | call (c : Op × AllocResult)
  | ref (s : Surface)
  | unref (s : Surface)

/-- What a call out of the queue does to the `refcnt` of the surfaces. -/
def Call.apply (f : Surface → ℤ) : Call → Surface → ℤ
  | .create _ _ _ _ s => Function.update f s 1
  | .ref s => Function.update f s (f s + 1)
  | .unref s | .destroy s => Function.update f s (f s - 1)
  | .freeCb _ => f

/-- The call belongs to the deletion of a node. -/
def Call.drops : Call → Bool
  | .freeCb _ | .destroy _ => true
  | .create _ _ _ _ _ | .ref _ | .unref _ => false

/-- The calls `q'` has made since `q`. -/
def callsSince (q q' : SurfaceQueue) : List Call := q'.calls.drop q.calls.length

namespace World

def start (q : SurfaceQueue) (held : Surface → ℕ) : World := ⟨q, fun s => held s, held⟩

def step (kind : Kind) : Turn → World → Option (Option Reply × World)
  | .call c, w => do
    let (r, q) ← Queue.step kind c w.queue
    some (some r, { w with queue := q, refcnt := (callsSince w.queue q).foldl Call.apply w.refcnt })
  | .ref s, w => some (none, { w with
      refcnt := Function.update w.refcnt s (w.refcnt s + 1)
      held := Function.update w.held s (w.held s + 1) })
  | .unref s, w => some (none, { w with
      refcnt := Function.update w.refcnt s (w.refcnt s - 1)
      held := Function.update w.held s (w.held s - 1) })

variable (w : World)

/-- `alloc_cb` hands out no attached surface, a surface that is created is a new object, and nobody
drops a reference that is not theirs. -/
def Fair : Turn → Prop
  | .call c => ∀ s ∈ c.2.surface,
    if w.queue.allocCb then ∀ n ∈ w.queue.attached, (w.queue.node n).surface ≠ s
    else w.refcnt s = 0
  | .ref _ => True
  | .unref s => 0 < w.held s

instance : DecidablePred w.Fair
  | .call _ => inferInstanceAs (Decidable (∀ s ∈ _, _))
  | .ref _ => isTrue trivial
  | .unref _ => inferInstanceAs (Decidable (0 < _))

/-- The attached nodes `A` have different surfaces, and each holds one reference. -/
structure Audited (A : List ℕ) : Prop where
  registry : Registry w.queue A
  distinct : (A.map fun n => (w.queue.node n).surface).Nodup
  refcnt : ∀ s, w.refcnt s = w.held s + (A.map fun n => (w.queue.node n).surface).count s
  gone : w.queue.valid = false → A = []

end World

/-- The nodes that `q'` has no more are deleted, each with its own calls and with no other. -/
def DropsOnce (q q' : SurfaceQueue) : Prop :=
  ∃ D : List ℕ, D.Nodup ∧ (∀ n, n ∈ D ↔ n ∈ q.attached ∧ n ∉ q'.attached) ∧
    (callsSince q q').filter Call.drops =
      D.flatMap fun n => dropCalls q.freeCb (q.node n).surface

section Accounts

variable {q q' : SurfaceQueue} {x : AllocResult} {A : List ℕ} {w : World} {s : Surface}

theorem Registry.attached_eq (h : Registry q A) : q.attached = A := by
  unfold SurfaceQueue.attached
  rw [h.listNodes_eq]
  rfl

theorem callsSince_eq {cs : List Call} (h : q'.calls = q.calls ++ cs) : callsSince q q' = cs := by
  unfold callsSince
  rw [h, List.drop_left]

theorem filter_dropCalls (D : List ℕ) (b : Bool) (f : ℕ → Surface) :
    (D.flatMap fun n => dropCalls b (f n)).filter Call.drops =
      D.flatMap fun n => dropCalls b (f n) := by
  rw [List.filter_eq_self]
  intro c hc
  obtain ⟨n, -, hc⟩ := List.mem_flatMap.mp hc
  unfold dropCalls at hc
  split_ifs at hc
  · rcases List.mem_cons.mp hc with rfl | hc
    · rfl
    · rw [List.mem_singleton.mp hc]
      rfl
  · rw [List.mem_singleton.mp hc]
    rfl

/-- Every deleted node takes one reference off its surface. -/
theorem foldl_dropCalls (D : List ℕ) (b : Bool) (f : ℕ → Surface) (g : Surface → ℤ) (s : Surface) :
    (D.flatMap fun n => dropCalls b (f n)).foldl Call.apply g s = g s - (D.map f).count s := by
  induction D generalizing g with
  | nil => simp
  | cons n D ih =>
    have hone : (dropCalls b (f n)).foldl Call.apply g = Function.update g (f n) (g (f n) - 1) := by
      cases b <;> rfl
    rw [List.flatMap_cons, List.foldl_append, hone, ih, List.map_cons]
    by_cases e : s = f n
    · subst e
      rw [Function.update_self, List.count_cons_self]
      push_cast
      omega
    · rw [Function.update_of_ne e, List.count_cons_of_ne (Ne.symm e)]

theorem World.Audited.deletes (h : w.Audited A) (hd : Deletes w.queue q')
    (hgone : q'.valid = false → q'.attached = []) :
    (∃ A', World.Audited { w with
      queue := q', refcnt := (callsSince w.queue q').foldl Call.apply w.refcnt } A') ∧
      DropsOnce w.queue q' := by
  obtain ⟨D, A', hA', hp, hs, hc⟩ := hd.books A h.registry
  have hnew := callsSince_eq hc
  have hsame : A'.map (fun n => (q'.node n).surface) =
      A'.map fun n => (w.queue.node n).surface := List.map_congr_left hs
  have hperm := hp.map fun n => (w.queue.node n).surface
  rw [List.map_append] at hperm
  have hnodup : (D ++ A').Nodup := hp.nodup_iff.mp h.registry.nodup
  refine ⟨⟨A', hA', ?_, fun s => ?_, fun hv => ?_⟩, D, ?_, fun n => ?_, ?_⟩
  · show (A'.map fun n => (q'.node n).surface).Nodup
    rw [hsame]
    exact (List.nodup_append.mp (hperm.nodup_iff.mp h.distinct)).2.1
  · show (callsSince w.queue q').foldl Call.apply w.refcnt s =
      w.held s + (A'.map fun n => (q'.node n).surface).count s
    rw [hnew, foldl_dropCalls, h.refcnt s, hsame, hperm.count_eq, List.count_append]
    push_cast
    omega
  · rw [← hA'.attached_eq]
    exact hgone hv
  · exact (List.nodup_append.mp hnodup).1
  · rw [h.registry.attached_eq, hA'.attached_eq]
    constructor
    · intro hn
      refine ⟨hp.mem_iff.mpr (by simp [hn]), fun hn' => ?_⟩
      exact (List.nodup_append.mp hnodup).2.2 n hn n hn' rfl
    · rintro ⟨hn, hn'⟩
      have hm := hp.mem_iff.mp hn
      rw [List.mem_append] at hm
      exact hm.resolve_right hn'
  · rw [hnew]
    exact filter_dropCalls D w.queue.freeCb _

/-- A surface that comes in has no node yet, and its `refcnt` goes up by one. -/
private theorem World.Audited.opens (h : w.Audited A)
    (hs : if w.queue.allocCb then ∀ n ∈ w.queue.attached, (w.queue.node n).surface ≠ s
      else w.refcnt s = 0) :
    s ∉ A.map (fun n => (w.queue.node n).surface) ∧
      (openCall w.queue s).apply w.refcnt = Function.update w.refcnt s (w.refcnt s + 1) := by
  unfold openCall
  rw [h.registry.attached_eq] at hs
  split_ifs at hs ⊢ with hcb
  · refine ⟨fun hm => ?_, rfl⟩
    obtain ⟨n, hn, he⟩ := List.mem_map.mp hm
    exact hs n hn he
  · constructor
    · intro hm
      have hcount := List.count_pos_iff.mpr hm
      have href := h.refcnt s
      omega
    · rw [hs]
      rfl

private theorem openCall_drops (q : SurfaceQueue) (s : Surface) : (openCall q s).drops = false := by
  unfold openCall
  split_ifs
  · rfl
  · rfl

/-- A step that keeps every node and deletes none. -/
private theorem dropsOnce_nil {B : List ℕ} (hq : Registry q A) (hq' : Registry q' (A ++ B))
    {cs : List Call} (hc : q'.calls = q.calls ++ cs) (hcs : cs.filter Call.drops = []) :
    DropsOnce q q' := by
  refine ⟨[], List.nodup_nil, fun n => ?_, ?_⟩
  · rw [hq.attached_eq, hq'.attached_eq]
    simp only [List.not_mem_nil, List.mem_append, not_or, false_iff, not_and, Decidable.not_not]
    intro hn hout
    exact absurd hn hout
  · rw [callsSince_eq hc, hcs]
    rfl

/-- The reference of a new surface is taken, and one that is not kept is given back. -/
theorem World.Audited.attached (h : w.Audited A) (ha : Attached w.queue x A q')
    (hv : q'.valid = true) (hx : ∀ s ∈ x.surface,
      if w.queue.allocCb then ∀ n ∈ w.queue.attached, (w.queue.node n).surface ≠ s
      else w.refcnt s = 0) :
    (∃ A', World.Audited { w with
      queue := q', refcnt := (callsSince w.queue q').foldl Call.apply w.refcnt } A') ∧
      DropsOnce w.queue q' := by
  have hgone : ∀ {B : List ℕ}, q'.valid = false → B = [] := by
    intro B hf
    rw [hv] at hf
    exact absurd hf (by simp)
  -- nothing is attached, and no `refcnt` changes in the end
  have hkeep : ∀ {cs : List Call}, Registry q' A →
      (∀ n, (q'.node n).surface = (w.queue.node n).surface) → q'.calls = w.queue.calls ++ cs →
      cs.foldl Call.apply w.refcnt = w.refcnt → World.Audited { w with
        queue := q', refcnt := (callsSince w.queue q').foldl Call.apply w.refcnt } A := by
    intro cs hr hs hc hcs
    have hsame : A.map (fun n => (q'.node n).surface) =
        A.map fun n => (w.queue.node n).surface := List.map_congr_left fun n _ => hs n
    rw [callsSince_eq hc, hcs]
    refine ⟨hr, ?_, fun s => ?_, hgone⟩
    · show (A.map fun n => (q'.node n).surface).Nodup
      rw [hsame]
      exact h.distinct
    · show w.refcnt s = w.held s + (A.map fun n => (q'.node n).surface).count s
      rw [hsame]
      exact h.refcnt s
  cases ha with
  | idle hr hs hc =>
    rw [← List.append_nil w.queue.calls] at hc
    refine ⟨⟨A, hkeep hr hs hc rfl⟩, dropsOnce_nil h.registry (B := []) ?_ hc rfl⟩
    rw [List.append_nil]
    exact hr
  | undone s hs' hr hs hc =>
    obtain ⟨-, hopen⟩ := h.opens (hx s hs')
    have hback : [openCall w.queue s, Call.unref s].foldl Call.apply w.refcnt = w.refcnt := by
      rw [List.foldl_cons, hopen]
      simp [Call.apply]
    refine ⟨⟨A, hkeep hr hs hc hback⟩, dropsOnce_nil h.registry (B := []) ?_ hc ?_⟩
    · rw [List.append_nil]
      exact hr
    · rw [List.filter_cons_of_neg (by simp [openCall_drops])]
      rfl
  | done s hs' hr hs hc =>
    obtain ⟨hfresh, hopen⟩ := h.opens (hx s hs')
    have htake : [openCall w.queue s, Call.ref s, Call.unref s].foldl Call.apply w.refcnt =
        Function.update w.refcnt s (w.refcnt s + 1) := by
      rw [List.foldl_cons, hopen]
      simp [Call.apply]
    have hmap : (A ++ [w.queue.nodes]).map (fun n => (q'.node n).surface) =
        A.map (fun n => (w.queue.node n).surface) ++ [s] := by
      rw [List.map_append]
      congr 1
      · apply List.map_congr_left
        intro n hn
        have hlt := h.registry.bound n hn
        rw [hs n, if_neg (by omega)]
      · simp [hs]
    refine ⟨⟨A ++ [w.queue.nodes], hr, ?_, fun k => ?_, hgone⟩, dropsOnce_nil h.registry hr hc ?_⟩
    · show ((A ++ [w.queue.nodes]).map fun n => (q'.node n).surface).Nodup
      rw [hmap]
      rw [← List.concat_eq_append]
      exact h.distinct.concat hfresh
    · show (callsSince w.queue q').foldl Call.apply w.refcnt k =
        w.held k + ((A ++ [w.queue.nodes]).map fun n => (q'.node n).surface).count k
      rw [callsSince_eq hc, htake, hmap, List.count_append]
      have href := h.refcnt k
      by_cases e : k = s
      · subst e
        rw [Function.update_self, List.count_singleton_self]
        omega
      · rw [Function.update_of_ne e, List.count_cons_of_ne (Ne.symm e), List.count_nil]
        omega
    · rw [List.filter_cons_of_neg (by simp [openCall_drops])]
      rfl

end Accounts

section Runs

variable {kind : Kind} {op : Op} {q q' : SurfaceQueue} {x : AllocResult} {r : Reply} {w w' : World}
  {A : List ℕ} {queueSize width height format flags : ℤ}

theorem Change.keepsValid {me : ℕ} (h : Change kind me q op q') (ho : op ≠ .destroy) :
    q'.valid = q.valid := by
  cases h with
  | narrow h => exact congrArg SurfaceQueue.Settings.valid h.settings
  | callbacks => rfl
  | request => rfl
  | attach => exact endAttach_valid
  | resize _ h => exact congrArg SurfaceQueue.Settings.valid h.settings
  | clear _ h => exact congrArg SurfaceQueue.Settings.valid (clearNodes_settings h).1
  | invalidate => exact absurd rfl ho

theorem call_valid (he : call kind op x q = some (r, q')) (ho : op ≠ .destroy) :
    q'.valid = q.valid := by
  have hs : (rules kind 1 fun _ _ => True).Safe 0 op false (hold false false)
      (program kind.impl 0 op) q := program_safe (by simp)
  refine Rules.Onward.exec rules_lawful (fun _ => trivial) (fun _ _ => trivial)
    (fun _ _ => trivial) (fun _ => trivial) (P := fun q q' => q'.valid = q.valid)
    (fun _ => rfl) (fun hab hbc => hbc.trans hab) (fun {H s s' p} heff => ?_)
    (hs.now rules_lawful trivial).2 he
  rcases heff with rfl | ⟨-, -, hc⟩
  · rfl
  · exact hc.keepsValid ho

private theorem destroy_attached (hA : Registry q A) (hv : q.valid = true)
    (he : call kind .destroy x q = some (r, q')) : q'.attached = [] := by
  have hset : Registry { q with valid := false } A :=
    hA.congr hA.kinded (fun _ _ => ⟨rfl, rfl⟩) (fun _ => rfl) rfl
  obtain ⟨d, hd, hnil, -⟩ := hset.deleteNodes
  simp only [call, program, tbmSurfaceQueueDestroy, Option.bind_eq_bind, bind_bind, exec_bind,
    exec_mutexLock, exec_surfaceQueueIsValid, exec_returnValIfFail, exec_modify, exec_access,
    exec_notify, exec_mutexUnlock, Option.bind_some, exec_pure, hv, ↓reduceIte, hd,
    Option.some.injEq, Prod.mk.injEq] at he
  rw [← he.2]
  exact hnil.attached_eq

theorem World.Audited.call (h : w.Audited A) {c : Op × AllocResult} (hf : w.Fair (.call c))
    (he : Queue.step kind c w.queue = some (r, q')) :
    (∃ A', World.Audited { w with
      queue := q', refcnt := (callsSince w.queue q').foldl Call.apply w.refcnt } A') ∧
      DropsOnce w.queue q' := by
  obtain ⟨op, x⟩ := c
  have hcall : Tbm.Queue.call kind op x w.queue = some (r, q') := he
  cases hv : w.queue.valid with
  | false =>
    obtain rfl : w.queue = q' := by
      have hr := (Tracks.refused hv op x).symm.trans hcall
      exact congrArg Prod.snd (Option.some.inj hr)
    exact h.deletes (.refl _) fun _ => by rw [h.registry.attached_eq, h.gone hv]
  | true =>
    have hgone : op ≠ .destroy → q'.valid = false → q'.attached = [] := by
      intro ho hf
      rw [call_valid hcall ho, hv] at hf
      exact absurd hf (by simp)
    by_cases ho : op.Attaching
    · obtain ⟨ha, hv'⟩ := call_attached h.registry hv ho hcall
      exact h.attached ha hv' hf
    · by_cases hcb : ∃ a f, op = .setAllocCb a f
      · obtain ⟨a, f, rfl⟩ := hcb
        have hv' : q'.valid = true := (call_valid hcall nofun).trans hv
        refine h.attached (x := x) ?_ hv' hf
        rcases setAllocCb_eq hcall with rfl | rfl
        · exact .idle h.registry (fun _ => rfl) rfl
        · refine .idle ?_ (fun _ => rfl) rfl
          exact h.registry.congr h.registry.kinded (fun _ _ => ⟨rfl, rfl⟩) (fun _ => rfl) rfl
      · have hd : Deletes w.queue q' := call_deletes ho (fun a f e => hcb ⟨a, f, e⟩) hcall
        refine h.deletes hd fun hf => ?_
        by_cases hdes : op = .destroy
        · subst hdes
          exact destroy_attached h.registry hv hcall
        · exact hgone hdes hf

/-- A reference of somebody else is taken or dropped. -/
private theorem World.Audited.outside (h : w.Audited A) {s : Surface} {d : ℤ} {k : ℕ}
    (hk : (k : ℤ) = w.held s + d) : World.Audited { w with
      refcnt := Function.update w.refcnt s (w.refcnt s + d)
      held := Function.update w.held s k } A := by
  refine ⟨h.registry, h.distinct, fun u => ?_, h.gone⟩
  have href := h.refcnt u
  by_cases e : u = s
  · subst e
    simp only [Function.update_self]
    omega
  · simp only [Function.update_of_ne e]
    exact href

theorem World.Audited.step {t : Turn} {r : Option Reply} (h : w.Audited A) (hf : w.Fair t)
    (he : World.step kind t w = some (r, w')) :
    (∃ A', w'.Audited A') ∧ DropsOnce w.queue w'.queue := by
  have hsame : DropsOnce w.queue w.queue := (h.deletes (.refl _) fun hv => by
    rw [h.registry.attached_eq, h.gone hv]).2
  cases t with
  | call c =>
    obtain ⟨⟨r', q'⟩, hs, hw⟩ := Option.bind_eq_some_iff.mp he
    obtain rfl := congrArg Prod.snd (Option.some.inj hw)
    exact h.call hf hs
  | ref s =>
    obtain rfl := congrArg Prod.snd (Option.some.inj he)
    exact ⟨⟨A, h.outside (by push_cast; rfl)⟩, hsame⟩
  | unref s =>
    have hpos : 0 < w.held s := hf
    obtain rfl := congrArg Prod.snd (Option.some.inj he)
    exact ⟨⟨A, h.outside (d := -1) (by omega)⟩, hsame⟩

/-- The queue owns one reference on every attached surface and on no other, and gives it back
once, after `free_cb`, when it deletes the node. -/
theorem queue_owns_attached {turns : List Turn} {held : Surface → ℕ}
    {log : List (Entry World Turn (Option Reply))}
    (hc : kind.create queueSize width height format flags = some q)
    (hp : Permitted (World.step kind) World.Fair turns (.start q held))
    (hr : run (World.step kind) turns (.start q held) = some (log, w)) :
    (∀ s, w.refcnt s = w.held s +
      if ∃ n ∈ w.queue.attached, (w.queue.node n).surface = s then 1 else 0) ∧
    (w.queue.valid = false → w.queue.attached = []) ∧
    ∀ e ∈ log, DropsOnce e.before.queue e.after.queue := by
  have hm := create_matches hc
  have hstart : (World.start q held).Audited [] := by
    refine ⟨hm.toRegistry, List.nodup_nil, fun s => ?_, fun _ => rfl⟩
    simp [World.start]
  obtain ⟨⟨A, hA⟩, hlog⟩ := run_safe (fun log w => (∃ A, World.Audited w A) ∧
    ∀ e ∈ log, DropsOnce e.before.queue e.after.queue) ⟨⟨[], hstart⟩, by simp⟩ (by
    rintro log w t r w' ⟨⟨A, hA⟩, hlog⟩ hok he
    obtain ⟨hA', hd⟩ := hA.step hok he
    refine ⟨hA', fun e hm => ?_⟩
    rw [List.mem_append, List.mem_singleton] at hm
    rcases hm with hm | rfl
    · exact hlog e hm
    · exact hd) hp hr
  refine ⟨fun s => ?_, fun hv => ?_, hlog⟩
  · rw [hA.refcnt s, hA.registry.attached_eq]
    by_cases hs : ∃ n ∈ A, (w.queue.node n).surface = s
    · rw [if_pos hs, List.count_eq_one_of_mem hA.distinct (List.mem_map.mpr hs)]
      rfl
    · rw [if_neg hs, List.count_eq_zero_of_not_mem fun hm => hs (List.mem_map.mp hm)]
      rfl
  · rw [hA.registry.attached_eq, hA.gone hv]

/-- A surface of the allocator and one of `alloc_cb`, flushed with a `free_cb`. -/
private def flushed : List Turn :=
  [.call (allocating .dequeue 7), .ref 9, .call (quiet (.setAllocCb true true)),
    .call (allocating .dequeue 9), .call (quiet .flush), .unref 9, .call (quiet .destroy)]

theorem queue_owns_attached_flushed : ∃ q log w, Kind.default.create 2 4 4 1 0 = some q ∧
    run (World.step .default) flushed (.start q fun _ => 0) = some (log, w) ∧
    (∀ s, w.refcnt s = w.held s +
      if ∃ n ∈ w.queue.attached, (w.queue.node n).surface = s then 1 else 0) ∧
    (w.queue.valid = false → w.queue.attached = []) ∧
    ∀ e ∈ log, DropsOnce e.before.queue e.after.queue := by
  have hc : Kind.default.create 2 4 4 1 0 = some _ := rfl
  have hsome : (run (World.step .default) flushed (.start
      (surfaceQueueInit tbmQueueDefaultImpl 2 4 4 1 0) fun _ => 0)).isSome = true := by
    decide +kernel
  obtain ⟨⟨log, w⟩, hr⟩ := Option.isSome_iff_exists.mp hsome
  exact ⟨_, log, w, hc, hr, queue_owns_attached hc (by decide +kernel) hr⟩

end Runs

end Tbm.Queue
