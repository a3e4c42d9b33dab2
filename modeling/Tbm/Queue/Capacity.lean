import Tbm.Queue.Schedules
import Tbm.Queue.Reachable

/-! How many surfaces get attached: by calls one after the other, and by threads that allocate at
the same time. -/
namespace Tbm.Queue

open Prog Runs

section Calls

variable {kind : Kind} {q q' : SurfaceQueue} {x : AllocResult} {r : Reply} {op : Op}

theorem Change.num {me : ℕ} (h : Change kind me q op q') (ho : ¬op.Attaching) :
    q'.numAttached ≤ max q.numAttached 0 := by
  cases h with
  | narrow h => exact h.num.trans (le_max_left _ _)
  | callbacks => exact le_max_left _ _
  | request ha => exact absurd ha ho
  | attach ha => exact absurd ha ho
  | resize _ h => exact h.num.trans (le_max_left _ _)
  | clear _ h => exact (clearNodes_settings h).2.le.trans (le_max_right _ _)
  | invalidate => exact le_max_left _ _

/-- Only the two attaching calls make the queue grow. -/
theorem call_num (he : call kind op x q = some (r, q')) (ho : ¬op.Attaching) :
    q'.numAttached ≤ max q.numAttached 0 := by
  have hs : (rules kind 1 fun _ _ => True).Safe 0 op false (hold false false)
      (program kind.impl 0 op) q := program_safe (by simp)
  refine Rules.Onward.exec rules_lawful (fun _ => trivial) (fun _ _ => trivial)
    (fun _ _ => trivial) (fun _ => trivial) (P := fun q q' => q'.numAttached ≤ max q.numAttached 0)
    (fun q => le_max_left _ _) (fun hab hbc => ?_) (fun {H s s' p} heff => ?_)
    (hs.now rules_lawful trivial).2 he
  · exact hbc.trans (max_le hab (le_max_right _ _))
  · rcases heff with rfl | ⟨-, -, hc⟩
    · exact le_max_left _ _
    · exact hc.num ho

/-- The attaching calls run `need_attach` on an empty `free_queue`. -/
def attachBase (x : AllocResult) (q : SurfaceQueue) : SurfaceQueue :=
  if q.queueIsEmpty .free then attachAnswer x q else q

theorem exec_surfaceQueueDequeue {a : QProg Unit}
    (ha : a.exec x q = some ((), attachAnswer x q)) : (surfaceQueueDequeue a).exec x q =
      if (attachBase x q).queueIsEmpty .free then some (none, attachBase x q)
      else ((attachBase x q).queueNodePopFront .free).map fun y => (some y.1, y.2) := by
  unfold attachBase
  by_cases hf : q.queueIsEmpty .free = true
  · rw [if_pos hf]
    by_cases hf' : (attachAnswer x q).queueIsEmpty .free = true
    · simp [surfaceQueueDequeue, hf, ha, hf']
    · simp [surfaceQueueDequeue, hf, ha, hf', Option.map_eq_bind]
  · simp [surfaceQueueDequeue, hf, Option.map_eq_bind]

theorem surfaceQueueDequeue_shuffles {a : QProg Unit} {m : Option ℕ}
    (ha : a.exec x q = some ((), attachAnswer x q))
    (he : (surfaceQueueDequeue a).exec x q = some (m, q')) : Shuffles (attachBase x q) q' := by
  rw [exec_surfaceQueueDequeue ha] at he
  split_ifs at he with hf
  · obtain ⟨-, rfl⟩ : none = m ∧ attachBase x q = q' := by simpa using he
    exact .refl
  · obtain ⟨⟨k, p⟩, hp, hx⟩ := Option.map_eq_some_iff.mp he
    obtain ⟨-, rfl⟩ : some k = m ∧ p = q' := by simpa using hx
    exact Shuffles.refl.popFront hp

theorem dequeue_shuffles (hv : q.valid = true) (he : call kind .dequeue x q = some (r, q')) :
    Shuffles (attachBase x q) q' := by
  unfold call program tbmSurfaceQueueDequeue at he
  cases kind with
  | default =>
    simp only [Kind.impl, tbmQueueDefaultImpl, callNeedAttach, tbmQueueDefaultNeedAttach,
      bind_bind, exec_bind, exec_mutexLock, exec_surfaceQueueIsValid, exec_returnValIfFail,
      Option.bind_some, exec_pure, hv, ↓reduceIte] at he
    obtain ⟨⟨e, p⟩, hx, hp⟩ := Option.bind_eq_some_iff.mp he
    obtain ⟨-, rfl⟩ : _ ∧ p = q' := by simpa using hp
    obtain ⟨⟨m, p'⟩, hd, hx⟩ := Option.bind_eq_some_iff.mp hx
    have hn := surfaceQueueDequeue_shuffles (exec_needAttach x q 0) hd
    cases m with
    | none =>
      obtain ⟨-, rfl⟩ : _ ∧ p' = p := by simpa using hx
      exact hn
    | some k =>
      obtain ⟨-, rfl⟩ : _ ∧ p'.setType k .dequeue = p := by simpa using hx
      exact hn.setType k .dequeue
  | sequence =>
    simp only [Kind.impl, tbmQueueSequenceImpl, tbmQueueSequenceDequeue,
      tbmQueueSequenceNeedAttach, bind_bind, exec_bind, exec_mutexLock, exec_surfaceQueueIsValid,
      exec_returnValIfFail, Option.bind_some, exec_pure, hv, ↓reduceIte] at he
    obtain ⟨⟨e, p⟩, hx, hp⟩ := Option.bind_eq_some_iff.mp he
    obtain ⟨-, rfl⟩ : _ ∧ p = q' := by simpa using hp
    obtain ⟨⟨m, p'⟩, hd, hx⟩ := Option.bind_eq_some_iff.mp hx
    have hn := surfaceQueueDequeue_shuffles (exec_needAttach x q 0) hd
    cases m with
    | none =>
      obtain ⟨-, rfl⟩ : _ ∧ p' = p := by simpa using hx
      exact hn
    | some k =>
      obtain ⟨-, rfl⟩ : _ ∧
          ((p'.queueNodePushBack .dequeue k).setPrivFlags k 1).setType k .dequeue = p := by
        simpa using hx
      exact ((hn.pushBack .dequeue k).setPrivFlags k 1).setType k .dequeue

theorem canDequeue_base {w : ℤ} (hv : q.valid = true)
    (he : call kind (.canDequeue w) x q = some (r, q')) : attachBase x q = q' := by
  unfold call program tbmSurfaceQueueCanDequeue at he
  rw [kind.callNeedAttach_impl] at he
  unfold attachBase
  by_cases hf : q.queueIsEmpty .free = true
  · -- nothing after `need_attach` writes
    rw [if_pos hf]
    simp only [Bool.not_eq_eq_eq_not, Bool.not_true, ne_eq, ite_not, pure_then, ↓reduceIte,
      Option.bind_eq_bind, Bool.true_eq_false, bind_bind, exec_bind, exec_mutexLock,
      exec_surfaceQueueIsValid, exec_returnValIfFail, exec_mutexUnlock, exec_notify, exec_read,
      Option.bind_some, exec_pure, hv, hf, exec_needAttach] at he
    obtain ⟨⟨e, p⟩, hx, hp⟩ := Option.bind_eq_some_iff.mp he
    obtain ⟨-, rfl⟩ : _ ∧ p = q' := by simpa using hp
    by_cases hv' : (attachAnswer x q).valid = false
    · simp only [hv', ↓reduceIte, exec_bind, exec_mutexUnlock, exec_pure, Option.bind_some,
        Option.some.injEq, Prod.mk.injEq] at hx
      exact hx.2
    by_cases hf' : (attachAnswer x q).queueIsEmpty .free = false
    · simp only [hv', Bool.true_eq_false, ↓reduceIte, exec_bind, exec_read, hf', Option.bind_some,
        exec_unlockBoth, exec_pure, Option.some.injEq, Prod.mk.injEq] at hx
      exact hx.2
    by_cases hw : w = 0
    · simp only [hv', Bool.true_eq_false, ↓reduceIte, hw, exec_bind, exec_read, hf',
        Option.bind_some, exec_unlockBoth, exec_pure, Option.some.injEq, Prod.mk.injEq] at hx
      exact hx.2
    simp only [hv', Bool.true_eq_false, ↓reduceIte, hw, exec_bind, exec_read, hf',
      Option.bind_some, exec_access] at hx
    obtain ⟨⟨k, p'⟩, hk, hx⟩ := Option.bind_eq_some_iff.mp hx
    obtain ⟨i, -, hk⟩ := Option.bind_eq_some_iff.mp hk
    obtain ⟨-, rfl⟩ : i = k ∧ attachAnswer x q = p' := by simpa using hk
    by_cases hz : k = 0
    · simp only [hz, ↓reduceIte, exec_bind, exec_unlockBoth, exec_pure, Option.bind_some,
        Option.some.injEq, Prod.mk.injEq] at hx
      exact hx.2
    · simp only [hz, ↓reduceIte, exec_bind, exec_mutexUnlock, exec_condWait, exec_mutexLock,
        exec_surfaceQueueIsValid, Option.bind_some, hv', Bool.true_eq_false, exec_unlockBoth,
        exec_pure, Option.some.injEq, Prod.mk.injEq] at hx
      exact hx.2
  · rw [if_neg hf]
    simp only [Bool.not_eq_eq_eq_not, Bool.not_true, ne_eq, ite_not, pure_then, ↓reduceIte,
      Option.bind_eq_bind, Bool.true_eq_false, bind_bind, exec_bind, exec_mutexLock,
      exec_surfaceQueueIsValid, exec_returnValIfFail, exec_mutexUnlock, exec_notify, exec_read,
      Option.bind_some, exec_pure, hv, hf, Bool.false_eq_true, exec_unlockBoth, Option.some.injEq,
      Prod.mk.injEq] at he
    exact he.2

/-- The call would attach a surface to a queue that has more than its size already. -/
def SurfaceQueue.Overgrows (q : SurfaceQueue) (x : AllocResult) : Prop :=
  q.valid = true ∧ q.queueIsEmpty .free = true ∧ q.queueSize < q.numAttached ∧
    x.surface.isSome = true ∧ x.node = true

instance : Decidable (q.Overgrows x) := inferInstanceAs (Decidable (_ ∧ _))

private theorem attachBase_num : (attachBase x q).numAttached = q.numAttached ∨
    ((attachBase x q).numAttached = q.numAttached + 1 ∧ q.queueIsEmpty .free = true ∧
      q.queueSize ≠ q.numAttached ∧ x.surface.isSome = true ∧ x.node = true) := by
  unfold attachBase attachAnswer
  by_cases hf : q.queueIsEmpty .free = true
  · by_cases hs : q.queueSize = q.numAttached
    · simp [hf, hs]
    · cases hx : x.surface with
      | none => simp [hf, hs]
      | some s =>
        cases hn : x.node with
        | false => simp [hf, hs, SurfaceQueue.surfaceQueueAttach, SurfaceQueue.record]
        | true =>
          refine .inr ⟨?_, hf, hs, rfl, rfl⟩
          simp [hf, hs, SurfaceQueue.surfaceQueueAttach, SurfaceQueue.record,
            SurfaceQueue.linkNewNode, SurfaceQueue.queueNodePushBack]
  · simp [hf]

theorem attaching_shuffles (hv : q.valid = true) (ho : op.Attaching)
    (he : call kind op x q = some (r, q')) : Shuffles (attachBase x q) q' := by
  cases op with
  | dequeue => exact dequeue_shuffles hv he
  | canDequeue w => exact canDequeue_base hv he ▸ .refl
  | _ => exact ho.elim

/-- An attaching call adds at most one surface, and only below the size, unless it overgrows. -/
theorem attaching_num (ho : op.Attaching) (he : call kind op x q = some (r, q'))
    (hn : ¬q.Overgrows x) : q'.numAttached ≤ q.numAttached ∨
      (q.numAttached < q.queueSize ∧ q'.numAttached ≤ q.numAttached + 1) := by
  cases hv : q.valid with
  | false =>
    have hq' : q = q' := by
      unfold call program at he
      cases op with
      | dequeue =>
        simp only [tbmSurfaceQueueDequeue, bind_bind, exec_bind, exec_mutexLock,
          exec_surfaceQueueIsValid, exec_returnValIfFail, Option.bind_some, exec_pure, hv,
          Bool.false_eq_true, ↓reduceIte, Option.some.injEq, Prod.mk.injEq] at he
        exact he.2
      | canDequeue w =>
        simp only [tbmSurfaceQueueCanDequeue, Bool.not_eq_eq_eq_not, Bool.not_true, ne_eq, ite_not,
          pure_then, ↓reduceIte, Option.bind_eq_bind, Bool.true_eq_false, bind_bind, exec_bind,
          exec_mutexLock, exec_surfaceQueueIsValid, exec_returnValIfFail, exec_mutexUnlock,
          exec_notify, exec_read, Option.bind_some, exec_pure, hv, Bool.false_eq_true,
          Option.some.injEq, Prod.mk.injEq] at he
        exact he.2
      | _ => exact ho.elim
    exact .inl (hq' ▸ le_rfl)
  | true =>
    have hle := (attaching_shuffles hv ho he).narrows.num
    rcases @attachBase_num q x with hb | ⟨hb, hf, hs, hx⟩
    · exact .inl (hle.trans hb.le)
    · have hsize : ¬q.queueSize < q.numAttached := fun hlt => hn ⟨hv, hf, hlt, hx⟩
      refine .inr ⟨?_, hle.trans hb.le⟩
      omega

/-- A call of `dequeue` or `can_dequeue` does not find an empty `free_queue` while more surfaces
are attached than the size allows. -/
def KeepsCapacity (q : SurfaceQueue) (c : Op × AllocResult) : Prop :=
  c.1.Attaching → ¬q.Overgrows c.2

instance (c : Op × AllocResult) : Decidable (KeepsCapacity q c) :=
  inferInstanceAs (Decidable (c.1.Attaching → _))

/-- What holds of the capacity along a run. -/
structure Capped (log : Log) (q : SurfaceQueue) : Prop where
  calls : ∀ e ∈ log, e.call.1.Attaching → e.before.queueSize ≤ e.before.numAttached →
    e.after.numAttached ≤ e.before.numAttached
  bound : ∃ p ∈ q :: log.map Entry.before, q.numAttached ≤ p.queueSize
  positive : ∃ p ∈ q :: log.map Entry.before, 0 < p.queueSize

private theorem create_capped {queueSize width height format flags : ℤ}
    (hc : kind.create queueSize width height format flags = some q) : Capped [] q := by
  obtain ⟨hsize, hnum, -, -⟩ := create_room hc
  refine ⟨by simp, ⟨q, List.mem_cons_self, ?_⟩, ⟨q, List.mem_cons_self, ?_⟩⟩
  · omega
  · omega

private theorem Capped.step {log : Log} {c : Op × AllocResult} (h : Capped log q)
    (hok : KeepsCapacity q c) (he : step kind c q = some (r, q')) :
    Capped (log ++ [⟨q, c, r, q'⟩]) q' := by
  -- the state before the call joins the list of those that had a size
  have hmem : ∀ {p : SurfaceQueue}, p ∈ q :: log.map Entry.before →
      p ∈ q' :: (log ++ [(⟨q, c, r, q'⟩ : LogEntry)]).map Entry.before := by
    intro p hp
    rw [List.map_append]
    rcases List.mem_cons.mp hp with rfl | hp
    · exact List.mem_cons_of_mem _ (List.mem_append_right _ List.mem_cons_self)
    · exact List.mem_cons_of_mem _ (List.mem_append_left _ hp)
  have hgrow : q'.numAttached ≤ q.numAttached ∨ q'.numAttached ≤ 0 ∨
      (c.1.Attaching ∧ q.numAttached < q.queueSize ∧ q'.numAttached ≤ q.numAttached + 1) := by
    by_cases ho : c.1.Attaching
    · rcases attaching_num ho he (hok ho) with hle | hlt
      · exact .inl hle
      · exact .inr (.inr ⟨ho, hlt⟩)
    · have hle := call_num he ho
      omega
  obtain ⟨p, hp, hle⟩ := h.bound
  obtain ⟨p₀, hp₀, hpos⟩ := h.positive
  refine ⟨fun e hm ho hfull => ?_, ?_, ⟨p₀, hmem hp₀, hpos⟩⟩
  · rw [List.mem_append, List.mem_singleton] at hm
    rcases hm with hm | rfl
    · exact h.calls e hm ho hfull
    · rcases attaching_num ho he (hok ho) with hle | ⟨hlt, -⟩
      · exact hle
      · simp only at hfull
        omega
  · rcases hgrow with hg | hg | ⟨-, hlt, hg⟩
    · exact ⟨p, hmem hp, hg.trans hle⟩
    · exact ⟨p₀, hmem hp₀, by omega⟩
    · exact ⟨q, hmem List.mem_cons_self, by omega⟩

/-- Allocation respects the size if it is not asked for above it: an attaching call never grows a
full queue, and no more surfaces are attached than the largest size there was allows. -/
theorem capacity_respected {queueSize width height format flags : ℤ} {cs : List (Op × AllocResult)}
    {log : Log} (hc : kind.create queueSize width height format flags = some q)
    (hp : Permitted (step kind) KeepsCapacity cs q) (hr : run (step kind) cs q = some (log, q')) :
    (∀ e ∈ log, e.call.1.Attaching → e.before.queueSize ≤ e.before.numAttached →
      e.after.numAttached ≤ e.before.numAttached) ∧
    ∃ p ∈ q' :: log.map Entry.before, q'.numAttached ≤ p.queueSize := by
  have h : Capped log q' := run_safe Capped (create_capped hc)
    (fun _ _ _ _ _ h hok he => h.step hok he) hp hr
  exact ⟨h.calls, h.bound⟩

theorem capacity_respected_shrunk : ∃ q log q', Kind.default.create 2 4 4 1 0 = some q ∧
    run (step .default) [allocating .dequeue 7, allocating .dequeue 8, quiet (.setSize 1 false),
      quiet .dequeue, quiet (.release (some 7)), allocating (.canDequeue 0) 9] q = some (log, q') ∧
    (∀ e ∈ log, e.call.1.Attaching → e.before.queueSize ≤ e.before.numAttached →
      e.after.numAttached ≤ e.before.numAttached) ∧
    ∃ p ∈ q' :: log.map Entry.before, q'.numAttached ≤ p.queueSize := by
  have hrun : ((Kind.default.create 2 4 4 1 0).bind fun q => (run (step .default)
      [allocating .dequeue 7, allocating .dequeue 8, quiet (.setSize 1 false), quiet .dequeue,
      quiet (.release (some 7)), allocating (.canDequeue 0) 9] q).map fun _ =>
        decide (Permitted (step .default) KeepsCapacity [allocating .dequeue 7,
          allocating .dequeue 8, quiet (.setSize 1 false), quiet .dequeue,
          quiet (.release (some 7)), allocating (.canDequeue 0) 9] q)) = some true := by
    decide +kernel
  obtain ⟨q, hq, hq'⟩ := Option.bind_eq_some_iff.mp hrun
  obtain ⟨⟨log, q'⟩, hr, he⟩ := Option.map_eq_some_iff.mp hq'
  exact ⟨q, log, q', hq, hr, capacity_respected hq (of_decide_eq_true he) hr⟩

/-- `need_attach` compares the size with `==`, so a shrunk queue whose surfaces are all out grows
without end. -/
theorem dequeue_grows_shrunk_queue : ∃ q log q', Kind.default.create 3 4 4 1 0 = some q ∧
    run (step .default) [allocating .dequeue 7, allocating .dequeue 8, allocating .dequeue 9,
      quiet (.setSize 1 false), allocating .dequeue 10] q = some (log, q') ∧
    (∃ e ∈ log, e.call.1 = .dequeue ∧ e.before.queueSize ≤ e.before.numAttached ∧
      e.before.numAttached < e.after.numAttached) ∧
    ∀ p ∈ q' :: log.map Entry.before, p.queueSize < q'.numAttached := by
  have hrun : ((Kind.default.create 3 4 4 1 0).bind fun q => (run (step .default)
      [allocating .dequeue 7, allocating .dequeue 8, allocating .dequeue 9,
      quiet (.setSize 1 false), allocating .dequeue 10] q).map fun p =>
        decide ((∃ e ∈ p.1, e.call.1 = .dequeue ∧ e.before.queueSize ≤ e.before.numAttached ∧
          e.before.numAttached < e.after.numAttached) ∧
          ∀ p' ∈ p.2 :: p.1.map Entry.before, p'.queueSize < p.2.numAttached)) = some true := by
    decide +kernel
  obtain ⟨q, hq, hq'⟩ := Option.bind_eq_some_iff.mp hrun
  obtain ⟨⟨log, q'⟩, hr, he⟩ := Option.map_eq_some_iff.mp hq'
  exact ⟨q, log, q', hq, hr, of_decide_eq_true he⟩

end Calls

section Threads

variable {kind : Kind} {n : ℕ} {q₀ q : SurfaceQueue} {acts : List (QAction n)} {c : QConfig n}
  {log : List (Entry (QConfig n) (QAction n) Unit)}

/-- The calls of producers and consumers. -/
def Op.Streaming : Op → Prop
  | .dequeue | .canDequeue _ | .enqueue _ | .acquire | .release _ => True
  | _ => False

instance : DecidablePred Op.Streaming
  | .dequeue | .canDequeue _ | .enqueue _ | .acquire | .release _ => isTrue trivial
  | .canAcquire _ | .reset _ _ _ | .flush | .setSize _ _ | .setAllocCb _ _ | .destroy => isFalse id

/-- The threads only stream, and one only passes the size check of `need_attach` if the requests
under way leave room for its own. -/
def ChecksRoom (kind : Kind) (c : QConfig n) : QAction n → Prop
  | .call _ op => op.Streaming
  | .step t => ∀ r ∈ move kind (.step t) c,
    c.data.allocating.length < r.2.data.allocating.length →
      c.data.numAttached + c.data.allocating.length < c.data.queueSize
  | _ => True

instance (c : QConfig n) : ∀ a, Decidable (ChecksRoom kind c a)
  | .call _ op => inferInstanceAs (Decidable op.Streaming)
  | .step t => inferInstanceAs (Decidable (∀ r ∈ move kind (.step t) c, _))
  | .input _ _ | .signal _ _ | .spurious _ | .wake _ => isTrue trivial

/-- The room that is left counts the requests under way. -/
structure Roomy (c : QConfig n) : Prop where
  ops : ∀ t op, (c.thread t).op = some op → op.Streaming
  room : c.data.numAttached + c.data.allocating.length ≤ c.data.queueSize

theorem endAttach_num {me born : ℕ} {cb : Bool} {x : AllocResult} :
    (endAttach me cb born x q).numAttached ≤ q.numAttached + 1 ∧
      (endAttach me cb born x q).queueSize = q.queueSize := by
  have hle : q.numAttached ≤ q.numAttached + 1 := by omega
  unfold endAttach SurfaceQueue.surfaceQueueAttach
  cases x.surface with
  | none => exact ⟨hle, rfl⟩
  | some s =>
    cases x.node with
    | false => exact ⟨hle, rfl⟩
    | true => exact ⟨le_rfl, rfl⟩

private theorem Change.room {me : ℕ} {op : Op} {q' : SurfaceQueue} (h : Change kind me q op q')
    (ho : op.Streaming)
    (hroom : q.allocating.length < q'.allocating.length →
      q.numAttached + q.allocating.length < q.queueSize)
    (hle : q.numAttached + q.allocating.length ≤ q.queueSize) :
    q'.numAttached + q'.allocating.length ≤ q'.queueSize := by
  cases h with
  | narrow h =>
    have hn := h.num
    have ha : q'.allocating = q.allocating := congrArg SurfaceQueue.Settings.allocating h.settings
    have hs : q'.queueSize = q.queueSize := congrArg SurfaceQueue.Settings.queueSize h.settings
    rw [ha, hs]
    omega
  | callbacks => exact ho.elim
  | request _ h =>
    have hlt := hroom (by simp)
    simp only [List.length_cons]
    omega
  | @attach _ cb born x _ hmem =>
    obtain ⟨hn, hs⟩ := @endAttach_num q me born cb x
    have hlen := List.length_erase_of_mem hmem
    have hpos := List.length_pos_of_mem hmem
    rw [endAttach_allocating, hs]
    omega
  | resize => exact ho.elim
  | clear hcl => cases op <;> first | exact ho.elim | exact hcl.elim
  | invalidate => exact ho.elim

theorem Roomy.moved {a : QAction n} {c' : QConfig n} (h : Roomy c) (hok : ChecksRoom kind c a)
    (hg : (rules kind n fun _ _ => True).Global c) (hs : move kind a c = some ((), c')) :
    Roomy c' := by
  have hm := Config.moved_of_step hs
  constructor
  · intro t op ht
    rcases hm.op ht with ho | rfl
    · exact h.ops t op ho
    · exact hok
  · rcases hg.effect rules_lawful hm (obeys_true c a) with hd | ⟨t, op, p, ho, rfl, he⟩
    · rw [hd]
      exact h.room
    · rcases he with hd | ⟨-, -, hc⟩
      · rw [hd]
        exact h.room
      · exact hc.room (h.ops t op ho) (hok _ hs) h.room

/-- Threads that allocate at the same time keep to the size if each counts the others in. -/
theorem attached_le_size {size width height format flags : ℤ} {freeCb : Bool} {x : AllocResult}
    {r : Reply} (hc : kind.create size width height format flags = some q₀)
    (hcb : call kind (.setAllocCb true freeCb) x q₀ = some (r, q))
    (hp : Permitted (move kind) (ChecksRoom kind) acts (.initial q))
    (hr : run (move kind) acts (.initial q) = some (log, c)) :
    c.data.numAttached ≤ c.data.queueSize := by
  obtain ⟨hsize, hnum, hall, hv⟩ := create_room hc
  obtain ⟨-, rfl⟩ : _ ∧ { q₀ with allocCb := true, freeCb := freeCb } = q := by
    simpa [call, program, tbmSurfaceQueueSetAllocCb, hv] using hcb
  have hstart : Roomy (.initial { q₀ with allocCb := true, freeCb := freeCb } : QConfig n) := by
    constructor
    · intro t op h
      cases h
    · simp only [Config.initial, hnum, hall, List.length_nil]
      omega
  obtain ⟨-, h⟩ := run_global Roomy hstart (fun c a _ => obeys_true c a)
    (fun c a c' hg h hok hs => h.moved hok hg hs) hp hr
  have hroom := h.room
  omega

/-- Two threads have passed the size check before either attaches its surface. -/
def overlapping : List (QAction 2) :=
  [.call 0 .dequeue] ++ steps 0 7 ++ [.call 1 .dequeue] ++ steps 1 7 ++
    [.input 0 ⟨some 7, true⟩] ++ steps 0 12 ++ [.input 1 ⟨some 8, true⟩] ++ steps 1 12

theorem attached_le_size_overlapping : ∃ q₀ r q log c, Kind.default.create 2 4 4 1 0 = some q₀ ∧
    call .default (.setAllocCb true false) ⟨none, false⟩ q₀ = some (r, q) ∧
    run (move .default) overlapping (.initial q) = some (log, c) ∧
    c.data.numAttached ≤ c.data.queueSize := by
  have hrun : ((Kind.default.create 2 4 4 1 0).bind fun q₀ =>
      (call .default (.setAllocCb true false) ⟨none, false⟩ q₀).bind fun r =>
        (run (move .default) overlapping (.initial r.2)).map fun _ =>
          decide (Permitted (move .default) (ChecksRoom .default) overlapping (.initial r.2))) =
      some true := by decide +kernel
  obtain ⟨q₀, hq, hq'⟩ := Option.bind_eq_some_iff.mp hrun
  obtain ⟨⟨r, q⟩, hcb, hq'⟩ := Option.bind_eq_some_iff.mp hq'
  obtain ⟨⟨log, c⟩, hr, he⟩ := Option.map_eq_some_iff.mp hq'
  exact ⟨q₀, r, q, log, c, hq, hcb, hr, attached_le_size hq hcb (of_decide_eq_true he) hr⟩

/-- With room for one surface both threads still attach theirs. -/
theorem overlapping_allocations_exceed : ∃ q₀ r q log c,
    Kind.default.create 1 4 4 1 0 = some q₀ ∧
    call .default (.setAllocCb true false) ⟨none, false⟩ q₀ = some (r, q) ∧
    run (move .default) overlapping (.initial q) = some (log, c) ∧
    c.data.queueSize < c.data.numAttached := by
  have hrun : ((Kind.default.create 1 4 4 1 0).bind fun q₀ =>
      (call .default (.setAllocCb true false) ⟨none, false⟩ q₀).bind fun r =>
        (run (move .default) overlapping (.initial r.2)).map fun p =>
          decide (p.2.data.queueSize < p.2.data.numAttached)) = some true := by decide +kernel
  obtain ⟨q₀, hq, hq'⟩ := Option.bind_eq_some_iff.mp hrun
  obtain ⟨⟨r, q⟩, hcb, hq'⟩ := Option.bind_eq_some_iff.mp hq'
  obtain ⟨⟨log, c⟩, hr, he⟩ := Option.map_eq_some_iff.mp hq'
  exact ⟨q₀, r, q, log, c, hq, hcb, hr, of_decide_eq_true he⟩

end Threads

end Tbm.Queue
