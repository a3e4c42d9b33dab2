import Tbm.Queue.Passes

/-! Every operation keeps to the rules that protect the data. -/
namespace Tbm.Queue

open Prog

section Steps

variable {k : ℕ} {O : Type} {L : RulesFor k O} {kind : Kind} {t : Fin k} {op : Op} {b : Bool}
  {q q' : SurfaceQueue} {p : QProg Reply}

/-- Only `destroy` works without the queue mutex, on a queue that is not valid any more. -/
theorem DataStep.locked (h : DataStep L kind t op b q q' p) : b = true ∨ q'.valid = false := by
  cases h with
  | invalidate => exact .inr rfl
  | deleteNodes hv h =>
    have hs := congrArg SurfaceQueue.Settings.valid (Narrows.deleteNodes h).settings
    exact .inr (hs.trans hv)
  | _ => exact .inl rfl

theorem narrows_of_enqueueNode {n : ℕ} (h : enqueueNode kind.impl n q = some q') :
    Narrows q q' := by
  cases kind with
  | default =>
    obtain rfl : q.queueNodePushBack .dirty n = q' := Option.some.inj h
    exact .pushBack q .dirty n
  | sequence =>
    obtain ⟨⟨vs, s⟩, hd, rfl⟩ := Option.map_eq_some_iff.mp h
    exact (Shuffles.drain hd).narrows

/-- What a data step can change, if the request of the thread is still there when the allocator
answers. -/
theorem DataStep.change (hkeep : ∀ q q', Since L t q q' → q'.requests t = q.requests t)
    (h : DataStep L kind t op b q q' p) : Change kind t q op q' := by
  cases h with
  | setType n c => exact .narrow (.setType q n c)
  | setAllocCb => exact .callbacks
  | enqueue hn h hs => exact .narrow (narrows_of_enqueueNode h)
  | detach hn hover h => exact .narrow (.detachNode h)
  | giveBack hn hroom hs => exact .narrow (.pushBack q .free _)
  | acquire he h => exact .narrow (Shuffles.refl.popFront h).narrows
  | dequeue he h => exact .narrow (Shuffles.refl.popFront h).narrows
  | handOut hkind hi he h =>
    exact .narrow ((Narrows.pushBack q .dequeue _).trans (.setPrivFlags _ _ 1))
  | request ho h => exact .request ho h
  | @attach op p q₀ q cb x ho hx h =>
    refine .attach ho ?_
    have hm : (t.val, q₀.epoch) ∈ q.requests t := by
      rw [hkeep _ _ h]
      simp [SurfaceQueue.requests]
    exact List.mem_of_mem_filter hm
  | reset hne hc hs => exact .clear (n := q'.queueSize) trivial hc
  | flush hne hc hs => exact .clear (n := q'.queueSize) trivial hc
  | flushSize hm hc hs => exact .clear trivial hc
  | shrink hm hlt h => exact .resize hm (.detachFree h)
  | grow hm hle => exact .resize hm (.refl q)
  | invalidate => exact .invalidate
  | deleteNodes hv h => exact .narrow (.deleteNodes h)

end Steps

section Rules

variable {kind : Kind} {n : ℕ} {W : Cond → SurfaceQueue → Prop} {t : Fin n} {op : Op}
  {r b g : Bool} {q q' : SurfaceQueue}

/-- A request stays with its thread while the mutexes are given up for `alloc_cb`. -/
theorem requests_since (h : Since (rules kind n W) t q q') : q'.requests t = q.requests t := by
  induction h with
  | refl => rfl
  | tail _ hr ih => exact hr.requests.trans ih

theorem truthful_of_asks {d : Cond} {w : Fifo} (ha : op.asks = some (d, w))
    (h : q.queueIsEmpty w = false ∨ W d q) : Truthful W q op := by
  cases op with
  | canDequeue m =>
    obtain ⟨rfl, rfl⟩ : Cond.freeCond = d ∧ Fifo.free = w := by simpa [Op.asks] using ha
    exact h
  | canAcquire m =>
    obtain ⟨rfl, rfl⟩ : Cond.dirtyCond = d ∧ Fifo.dirty = w := by simpa [Op.asks] using ha
    exact h
  | _ => trivial

instance : Points (rules kind n W) op where
  pure := point_pure
  lockGlobal := point_lockGlobal.mpr
  lockQueue := point_lockQueue
  unlockGlobal := point_unlockGlobal
  unlockQueue := fun hp => point_unlockQueue.mpr fun e => absurd e hp
  signal := point_signal
  act := point_act
  emit := fun _ => point_emit
  allocCb := point_input
  create := point_input
  rest := id
  valid := fun hr _ _ => hr.valid

theorem rules_keeps : Keeps (rules kind n W) kind id where
  points := fun _ => inferInstance
  step := fun h _ _ _ =>
    ⟨trivial, .inr ⟨rfl, h.locked, h.change fun _ _ => requests_since⟩⟩
  queryPoint := by
    intro t op g p q h _ _
    cases h with
    | yes ha he => exact point_unlockQueue.mpr fun _ => truthful_of_asks ha (.inl he)
    | woken ha hback hr hv =>
      refine point_unlockQueue.mpr fun _ => truthful_of_asks ha (.inr ?_)
      -- The queue is valid, so the thread finds it as it was when the wait ended.
      rcases hr.queue rfl with rfl | hv'
      · exact hback
      · rw [hv] at hv'
        contradiction
    | wait => exact point_wait

end Rules

end Tbm.Queue
