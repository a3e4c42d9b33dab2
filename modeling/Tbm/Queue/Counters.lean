import Tbm.Queue.Detaching
import Tbm.Queue.Capacity
import Tbm.Queue.Shrinking
import Tbm.Queue.Sequence

/-! The counters of the item lists. The helpers that push and pop a node keep them; a node that is
deleted is taken off its list without them. -/
namespace Tbm.Queue

open Prog Runs

namespace SurfaceQueue

variable (q : SurfaceQueue)

/-- Each item list links as many nodes as its counter says. -/
def CountersEqual (kind : Kind) : Prop := ∀ w, kind.uses w = true →
  ∃ ns : List ℕ, q.links.Ring (.head w) (ns.map .item) ∧ q.count w = ns.length

/-- The call deletes no node that is on an item list, and the stale item link of a node that it does
delete changes no item list. -/
def KeepsCounters (kind : Kind) : Op → Prop
  | .setSize n false => 0 < n → n < q.queueSize → q.queueIsEmpty .free = true
  | .release (some s) => ∀ f ∈ (q.queueGetNode s).join, f.2 = .nodeList →
    f.1 ∉ q.nodesOn kind .dequeue ∧ (q.queueSize < q.numAttached → q.StaleAgrees kind f.1)
  | _ => True

instance (kind : Kind) : DecidablePred (q.KeepsCounters kind)
  | .setSize _ false => inferInstanceAs (Decidable (_ → _ → _))
  | .release (some _) => inferInstanceAs (Decidable (∀ f ∈ _, _))
  | .setSize _ true | .release none | .dequeue | .enqueue _ | .acquire | .canDequeue _
  | .canAcquire _ | .reset _ _ _ | .flush | .setAllocCb _ _ | .destroy => isTrue trivial

end SurfaceQueue

/-- The lists of a state together with its counters. -/
structure Tallied (kind : Kind) (q : SurfaceQueue) (L : Lists) : Prop
    extends Represents kind q L where
  count : ∀ w, kind.uses w = true → q.count w = (L.on w).length

namespace Tallied

variable {kind : Kind} {q q' : SurfaceQueue} {L : Lists} {w : Fifo} {n : ℕ} {x : AllocResult}
  {s : Surface}

theorem congr (h : Tallied kind q L) (hl : q'.links = q.links) (hc : q'.count = q.count)
    (hf : ∀ n, (q'.node n).freed = (q.node n).freed) (hn : q'.nodes = q.nodes)
    (ha : q'.numAttached = q.numAttached) : Tallied kind q' L :=
  ⟨h.toRepresents.congr hl hf hn ha, hc ▸ h.count⟩

theorem countersEqual (h : Tallied kind q L) : q.CountersEqual kind :=
  fun w hu => ⟨L.on w, h.rings w hu, h.count w hu⟩

/-- The counters of a state that has them right, for any lists it holds. -/
theorem of_countersEqual (h : Represents kind q L) (hc : q.CountersEqual kind) :
    Tallied kind q L := by
  refine ⟨h, fun w hu => ?_⟩
  obtain ⟨ns, hr, hcount⟩ := hc w hu
  have hns : ns = L.on w :=
    List.map_injective_iff.mpr (fun _ _ e => Cell.item.inj e) (hr.unique (h.rings w hu))
  rw [hcount, hns]

theorem isEmpty (h : Tallied kind q L) (hu : kind.uses w = true) :
    q.queueIsEmpty w = decide (L.on w = []) := by
  rw [Bool.eq_iff_iff, decide_eq_true_iff]
  exact h.queueIsEmpty_iff hu

theorem pushBack (h : Tallied kind q L) (hu : kind.uses w = true) (hn : L.HandedOut n) :
    Tallied kind (q.queueNodePushBack w n) (L.push w n) := by
  refine ⟨⟨h.toLayout.pushBack hu hn, h.num⟩, fun w' hu' => ?_⟩
  have hcount := h.count w' hu'
  by_cases e : w' = w
  · subst e
    simp [SurfaceQueue.queueNodePushBack, Lists.push, hcount]
  · simp [SurfaceQueue.queueNodePushBack, Lists.push, e, hcount]

theorem pop (h : Tallied kind q L) (hn : n ∈ L.on w) :
    Tallied kind (q.queueNodePop w n) (L.pop w n) := by
  refine ⟨⟨h.toLayout.pop hn, h.num⟩, fun w' hu' => ?_⟩
  have hcount := h.count w' hu'
  by_cases e : w' = w
  · subst e
    have hlen := List.length_erase_of_mem hn
    have hpos := List.length_pos_of_mem hn
    simp only [SurfaceQueue.queueNodePop, Lists.pop, Function.update_self, hcount, hlen]
    omega
  · simp [SurfaceQueue.queueNodePop, SurfaceQueue.listDel, Lists.pop, e, hcount]

theorem setNode (h : Tallied kind q L) {v : Node} (hv : v.freed = (q.node n).freed) :
    Tallied kind (q.setNode n v) L := ⟨⟨h.toLayout.setNode hv, h.num⟩, h.count⟩

theorem setType (h : Tallied kind q L) (n : ℕ) (t : NodeType) : Tallied kind (q.setType n t) L :=
  h.setNode rfl

theorem setPrivFlags (h : Tallied kind q L) (n k : ℕ) : Tallied kind (q.setPrivFlags n k) L :=
  h.setNode rfl

theorem linkNewNode (h : Tallied kind q L) (s : Surface) (born : ℕ) :
    Tallied kind (q.linkNewNode s born) (L.attach q.nodes) := by
  refine ⟨⟨h.toLayout.linkNewNode s born, ?_⟩, h.count⟩
  have hnum := h.num
  simp [SurfaceQueue.linkNewNode, Lists.attach, hnum]

theorem attachAnswer (h : Tallied kind q L) (x : AllocResult) :
    ∃ L', Tallied kind (attachAnswer x q) L' := by
  unfold Tbm.Queue.attachAnswer
  by_cases hfull : q.queueSize = q.numAttached
  · rw [if_pos hfull]
    exact ⟨L, h⟩
  · rw [if_neg hfull]
    obtain ⟨_ | s, _ | _⟩ := x
    · exact ⟨L, h⟩
    · exact ⟨L, h⟩
    · exact ⟨L, h.congr rfl rfl (fun _ => rfl) rfl rfl⟩
    · have hp := (h.linkNewNode s q.epoch).pushBack kind.uses_free
        h.toLayout.handedOut_attach
      exact ⟨_, hp.congr rfl rfl (fun _ => rfl) rfl rfl⟩

theorem attachBase (h : Tallied kind q L) (x : AllocResult) :
    ∃ L', Tallied kind (attachBase x q) L' := by
  unfold Tbm.Queue.attachBase
  split_ifs
  · exact h.attachAnswer x
  · exact ⟨L, h⟩

theorem dequeue (h : Tallied kind q L) (hv : q.valid = true) (x : AllocResult) :
    ∃ r q', Queue.call kind .dequeue x q = some (r, q') ∧ ∃ L', Tallied kind q' L' := by
  obtain ⟨M, hM⟩ := h.attachBase x
  have hd := exec_surfaceQueueDequeue (exec_needAttach x q 0)
  have hempty := hM.isEmpty kind.uses_free
  cases hf : M.on .free with
  | nil =>
    rw [hempty, hf, if_pos (by rfl)] at hd
    refine ⟨.surface .invalidQueue none, Tbm.Queue.attachBase x q, ?_, M, hM⟩
    cases kind <;> simp [Queue.call, program, tbmSurfaceQueueDequeue, hv, Kind.impl,
      tbmQueueDefaultImpl, tbmQueueSequenceImpl, callNeedAttach, tbmQueueDefaultNeedAttach,
      tbmQueueSequenceDequeue, tbmQueueSequenceNeedAttach, hd]
  | cons n ns =>
    have hm : n ∈ M.on .free := by simp [hf]
    have hpop := hM.pop hm
    have hout := hM.toLayout.handedOut_pop hm
    rw [hempty, hf, if_neg (by simp), hM.toLayout.queueNodePopFront_eq hf] at hd
    cases kind with
    | default =>
      refine ⟨.surface .none (some ((Tbm.Queue.attachBase x q).node n).surface), _, ?_, _,
        hpop.setType n .dequeue⟩
      simp [Queue.call, program, tbmSurfaceQueueDequeue, hv, Kind.impl, tbmQueueDefaultImpl,
        callNeedAttach, tbmQueueDefaultNeedAttach, hd, SurfaceQueue.setType, SurfaceQueue.setNode,
        SurfaceQueue.queueNodePop, SurfaceQueue.listDel]
    | sequence =>
      have hpush := (hpop.pushBack (w := .dequeue) rfl hout).setPrivFlags n 1
      refine ⟨.surface .none (some ((Tbm.Queue.attachBase x q).node n).surface), _, ?_, _,
        hpush.setType n .dequeue⟩
      simp [Queue.call, program, tbmSurfaceQueueDequeue, hv, Kind.impl, tbmQueueSequenceImpl,
        tbmQueueSequenceDequeue, tbmQueueSequenceNeedAttach, hd, SurfaceQueue.setType,
        SurfaceQueue.setPrivFlags, SurfaceQueue.setNode, SurfaceQueue.queueNodePushBack,
        SurfaceQueue.queueNodePop, SurfaceQueue.listDel]

/-- The drain loop pops and pushes every node it moves. -/
theorem drain (h : Tallied .sequence q L) (n : ℕ) : ∃ vs q',
    tbmQueueSequenceEnqueue n q = some (vs, q') ∧ ∃ L', Tallied .sequence q' L' := by
  obtain ⟨vs, q', he, -, hlay, -, -, hnum, -⟩ := h.toLayout.tbmQueueSequenceEnqueue n
  refine ⟨vs, q', he, _, ⟨⟨hlay, hnum.trans h.num⟩, fun w hu => ?_⟩⟩
  have hcount := h.count w hu
  have hmove := h.toLayout.drain_count he w
  omega

theorem enqueue (h : Tallied kind q L) (hv : q.valid = true) (s : Surface) (x : AllocResult) :
    ∃ r q', Queue.call kind (.enqueue (some s)) x q = some (r, q') ∧
      ∃ L', Tallied kind q' L' := by
  have hg := h.queueGetNode_eq s
  by_cases hl : ∃ n, L.lookup (fun n => (q.node n).surface = s) = some (n, .nodeList)
  · obtain ⟨n, hl⟩ := hl
    rw [hl] at hg
    cases kind with
    | default =>
      have hout := h.toLayout.handedOut_default hl
      have hp := h.pushBack (w := .dirty) rfl hout
      have hne := h.toLayout.not_isEmpty_pushBack (w := .dirty) rfl hout
      refine ⟨.error .none, _, ?_, _, hp.setType n .enqueue⟩
      simp [Queue.call, program, tbmSurfaceQueueEnqueue, hv, hg, Kind.impl, tbmQueueDefaultImpl,
        SurfaceQueue.surfaceQueueEnqueue, hne]
    | sequence =>
      obtain ⟨vs, p, hd, L', hp⟩ := h.drain n
      by_cases he : p.queueIsEmpty .dirty = true
      · exact ⟨.error .unknownSurface, p, by simp [Queue.call, program, tbmSurfaceQueueEnqueue,
          hv, hg, Kind.impl, tbmQueueSequenceImpl, hd, he], L', hp⟩
      · exact ⟨.error .none, _, by simp [Queue.call, program, tbmSurfaceQueueEnqueue, hv, hg,
          Kind.impl, tbmQueueSequenceImpl, hd, he], L', hp.setType n .enqueue⟩
  · exact ⟨.error .alreadyExist, q, enqueue_refused hv hg (not_exists.mp hl) x, L, h⟩

theorem acquire (h : Tallied kind q L) (hv : q.valid = true) (x : AllocResult) :
    ∃ r q', Queue.call kind .acquire x q = some (r, q') ∧ ∃ L', Tallied kind q' L' := by
  have hempty := h.isEmpty kind.uses_dirty
  cases hd : L.on .dirty with
  | nil =>
    refine ⟨.surface .invalidQueue none, q, ?_, L, h⟩
    simp [Queue.call, program, tbmSurfaceQueueAcquire, hv, kind.impl_acquire,
      SurfaceQueue.surfaceQueueAcquire, hempty, hd]
  | cons n ns =>
    have hpop := h.toLayout.queueNodePopFront_eq hd
    refine ⟨.surface .none (some (q.node n).surface), _, ?_, _,
      (h.pop (w := .dirty) (n := n) (by simp [hd])).setType n .acquire⟩
    simp [Queue.call, program, tbmSurfaceQueueAcquire, hv, kind.impl_acquire,
      SurfaceQueue.surfaceQueueAcquire, hempty, hd, hpop, SurfaceQueue.setType,
      SurfaceQueue.setNode, SurfaceQueue.queueNodePop, SurfaceQueue.listDel]

/-- The stale link of a node that is on no item list agrees with the lists. -/
theorem release (h : Tallied kind q L) (hv : q.valid = true) (s : Surface)
    (hk : q.KeepsCounters kind (.release (some s))) (x : AllocResult) :
    ∃ r q', Queue.call kind (.release (some s)) x q = some (r, q') ∧
      ∃ L', Tallied kind q' L' := by
  have hg := h.queueGetNode_eq s
  by_cases hl : ∃ n, L.lookup (fun n => (q.node n).surface = s) = some (n, .nodeList)
  · obtain ⟨n, hl⟩ := hl
    rw [hl] at hg
    obtain ⟨hd, hs⟩ := hk (n, .nodeList) (by simp [hg]) rfl
    rw [h.matches.nodesOn_eq] at hd
    have hout : L.HandedOut n := Lists.handedOut_of_lookup hl hd
    by_cases hover : q.queueSize < q.numAttached
    · refine ⟨.error .none, _, h.release_detaches ⟨hv, hg, hover⟩, L.remove n,
        h.deleteStale hout (hs hover), fun w hu => ?_⟩
      have hon : (L.remove n).on w = L.on w := List.erase_of_not_mem (hout.2 w)
      rw [hon]
      exact h.count w hu
    · have hne := h.toLayout.not_isEmpty_pushBack kind.uses_free hout
      refine ⟨.error .none, _, ?_, _, (h.pushBack kind.uses_free hout).setType n .release⟩
      rw [release_kept hv hg hover, if_neg (by simp [hne])]
  · exact ⟨.error .invalidSurface, q, release_refused hv hg (not_exists.mp hl) x, L, h⟩

theorem clearNodes (h : Represents kind q L) :
    ∃ q', clearNodes kind.impl q = some q' ∧ Tallied kind q' .empty := by
  obtain ⟨q', hq', hr, -⟩ := h.toRegistry.clearNodes kind
  refine ⟨q', hq', hr, fun w hu => ?_⟩
  obtain ⟨d, -, he⟩ := Option.bind_eq_some_iff.mp hq'
  obtain rfl := Option.some.inj he
  cases kind <;> cases w <;> simp [initHeads, Kind.impl, tbmQueueDefaultImpl, tbmQueueSequenceImpl,
    tbmQueueSequenceReset, SurfaceQueue.queueInit, Lists.empty, Kind.uses] at hu ⊢

theorem resize (h : Tallied kind q L) (n : ℤ) : Tallied kind { q with queueSize := n } L :=
  h.congr rfl rfl (fun _ => rfl) rfl rfl

theorem reset (h : Tallied kind q L) (hv : q.valid = true) (width height format : ℤ)
    (x : AllocResult) : ∃ r q', Queue.call kind (.reset width height format) x q = some (r, q') ∧
      ∃ L', Tallied kind q' L' := by
  by_cases hsame : width = q.width ∧ height = q.height ∧ format = q.format
  · exact ⟨.error .none, q, by simp [Queue.call, program, tbmSurfaceQueueReset, hv, hsame], L, h⟩
  · have hset : Tallied kind { q with width := width, height := height, format := format } L :=
      h.congr rfl rfl (fun _ => rfl) rfl rfl
    obtain ⟨q', hq', ht⟩ := clearNodes hset.toRepresents
    rw [hv] at hq'
    exact ⟨.error .none, q', by simp [Queue.call, program, tbmSurfaceQueueReset, hv, hsame, hq'],
      .empty, ht⟩

theorem flush (h : Tallied kind q L) (hv : q.valid = true) (x : AllocResult) :
    ∃ r q', Queue.call kind .flush x q = some (r, q') ∧ ∃ L', Tallied kind q' L' := by
  by_cases hz : q.numAttached = 0
  · exact ⟨.error .none, q, by simp [Queue.call, program, tbmSurfaceQueueFlush, hv, hz], L, h⟩
  · obtain ⟨q', hq', ht⟩ := clearNodes h.toRepresents
    exact ⟨.error .none, q', by simp [Queue.call, program, tbmSurfaceQueueFlush, hv, hz, hq'],
      .empty, ht⟩

theorem setSize (h : Tallied kind q L) (hv : q.valid = true) (n : ℤ) (flush : Bool)
    (hk : q.KeepsCounters kind (.setSize n flush)) (x : AllocResult) :
    ∃ r q', Queue.call kind (.setSize n flush) x q = some (r, q') ∧
      ∃ L', Tallied kind q' L' := by
  by_cases hn : ¬0 < n
  · exact ⟨.error .invalidParameter, q,
      by simp [Queue.call, program, tbmSurfaceQueueSetSize, hv, hn], L, h⟩
  rw [not_not] at hn
  by_cases hsame : q.queueSize = n ∧ flush = false
  · exact ⟨.error .none, q,
      by simp [Queue.call, program, tbmSurfaceQueueSetSize, hv, hn, hsame], L, h⟩
  cases flush with
  | true =>
    obtain ⟨q', hq', ht⟩ := clearNodes h.toRepresents
    refine ⟨.error .none, _, ?_, .empty, ht.resize n⟩
    simp [Queue.call, program, tbmSurfaceQueueSetSize, hv, hn, hq']
  | false =>
    have hne : q.queueSize ≠ n := fun he => hsame ⟨he, rfl⟩
    refine ⟨.error .none, _, ?_, L, h.resize n⟩
    by_cases hlow : n < q.queueSize
    · have hd := SurfaceQueue.detachFree_empty (detachNode kind.impl) (q.queueSize - n)
        (hk hn hlow)
      simp [Queue.call, program, tbmSurfaceQueueSetSize, hv, hn, hne, hlow, hd]
    · simp [Queue.call, program, tbmSurfaceQueueSetSize, hv, hn, hne, hlow]

/-- What a call that is counted right does. A destroyed queue has no lists any more. -/
theorem call (h : Tallied kind q L) (hv : q.valid = true) {op : Op}
    (hk : q.KeepsCounters kind op) (x : AllocResult) :
    ∃ r q', Queue.call kind op x q = some (r, q') ∧
      (q'.valid = true → ∃ L', Tallied kind q' L') := by
  have live : (∃ r q', Queue.call kind op x q = some (r, q') ∧ ∃ L', Tallied kind q' L') →
      ∃ r q', Queue.call kind op x q = some (r, q') ∧
        (q'.valid = true → ∃ L', Tallied kind q' L') := by
    rintro ⟨r, q', he, hq'⟩
    exact ⟨r, q', he, fun _ => hq'⟩
  cases op with
  | dequeue => exact live (h.dequeue hv x)
  | enqueue s =>
    cases s with
    | none =>
      exact live ⟨.error .invalidSurface, q,
        by simp [Queue.call, program, tbmSurfaceQueueEnqueue, hv], L, h⟩
    | some s => exact live (h.enqueue hv s x)
  | acquire => exact live (h.acquire hv x)
  | release s =>
    cases s with
    | none =>
      exact live ⟨.error .invalidSurface, q,
        by simp [Queue.call, program, tbmSurfaceQueueRelease, hv], L, h⟩
    | some s => exact live (h.release hv s hk x)
  | canDequeue wait =>
    have hs : q.Survives kind (.canDequeue wait) := trivial
    obtain ⟨r, q', he, -⟩ := h.toRepresents.call hv hs x
    have hbase := canDequeue_base hv he
    exact live ⟨r, q', he, hbase ▸ h.attachBase x⟩
  | canAcquire wait =>
    have he := h.matches.canAcquire (x := x) hv wait
    refine live ⟨.answer (View.canAcquire ⟨L, q.node, q.settings⟩ wait), q, ?_, L, h⟩
    simp [Queue.call, program, he]
  | reset width height format => exact live (h.reset hv width height format x)
  | flush => exact live (h.flush hv x)
  | setSize n flush => exact live (h.setSize hv n flush hk x)
  | setAllocCb allocCb freeCb =>
    have hset : Tallied kind { q with allocCb := allocCb, freeCb := freeCb } L :=
      h.congr rfl rfl (fun _ => rfl) rfl rfl
    refine live ⟨.error .none, _, ?_, L, hset⟩
    simp [Queue.call, program, tbmSurfaceQueueSetAllocCb, hv]
  | destroy =>
    obtain ⟨q', he, hset, -⟩ := h.matches.destroy (x := x) hv
    have hdead : q'.valid = false := congrArg SurfaceQueue.Settings.valid hset
    refine ⟨.done, q', by simp [Queue.call, program, he], fun hlive => ?_⟩
    simp [hdead] at hlive

end Tallied

section Miscounts

variable {kind : Kind} {q q' : SurfaceQueue} {L : Lists} {n : ℕ} {k : ℤ} {x : AllocResult}
  {r : Reply} {op : Op}

theorem detachFree_count (h : q.detachFree (detachNode kind.impl) k = some q') :
    q'.count = q.count := by
  refine SurfaceQueue.detachFree_preserves (fun s => s.count = q.count) (fun hd hs => ?_) rfl h
  rcases SurfaceQueue.detachNode_cases hd with rfl | ⟨m, -, rfl⟩
  · exact hs
  · exact hs

/-- A list that has become shorter under its counter. -/
private theorem Tallied.short (h : Tallied kind q L) {M : Lists} {w : Fifo}
    (hr : Represents kind q' M) (hc : q'.count = q.count) (hu : kind.uses w = true)
    (hlen : (M.on w).length < (L.on w).length) : ¬q'.CountersEqual kind := by
  intro heq
  have hafter := (Tallied.of_countersEqual hr heq).count w hu
  have hbefore := h.count w hu
  rw [hc] at hafter
  omega

private theorem Tallied.setSize_miscounts (h : Tallied kind q L) (hv : q.valid = true)
    (hk : ¬q.KeepsCounters kind (.setSize k false))
    (he : Queue.call kind (.setSize k false) x q = some (r, q')) :
    q'.valid = true ∧ ¬q'.CountersEqual kind := by
  unfold SurfaceQueue.KeepsCounters at hk
  push Not at hk
  obtain ⟨hpos, hlow, hfree⟩ := hk
  rw [h.isEmpty kind.uses_free, ne_eq, decide_eq_true_iff] at hfree
  have hne : q.queueSize ≠ k := by omega
  obtain ⟨p, hd, hp, -, hset, -⟩ := h.toRepresents.detachFree (k := q.queueSize - k) (by omega)
  obtain ⟨-, rfl⟩ : Reply.error .none = r ∧ { p with queueSize := k } = q' := by
    simpa [Queue.call, program, tbmSurfaceQueueSetSize, hv, hpos, hne, hlow, hd] using he
  have hv' : p.valid = true := (congrArg SurfaceQueue.Settings.valid hset).trans hv
  have hcount : p.count = q.count := detachFree_count hd
  refine ⟨hv', h.short (hp.congr rfl (fun _ => rfl) rfl rfl) hcount kind.uses_free ?_⟩
  have hlen := List.length_pos_of_ne_nil hfree
  rw [Lists.dropFree_free, List.length_drop]
  omega

/-- A node of `dequeue_list` that is pushed to `free_queue` as well: from it on, `dequeue_list` goes
on into `free_queue`. -/
private theorem Tallied.pushed_twice (h : Tallied kind q L) (hd : n ∈ L.on .dequeue)
    (hlinks : q'.links = (q.queueNodePushBack .free n).links)
    (hcount : q'.count .dequeue = q.count .dequeue) : ¬q'.CountersEqual kind := by
  intro heq
  have hu : kind.uses .dequeue = true := h.uses_of_mem hd
  obtain ⟨ns, hr, hlen⟩ := heq .dequeue hu
  have hbefore := h.count .dequeue hu
  have hsame : ns.length = (L.on .dequeue).length := by omega
  have hlast : q.links.prev (.head .free) ∉ Cell.head .dequeue :: (L.on .dequeue).map .item :=
    h.toLayout.disjoint_rings (by simp) (h.rings .free kind.uses_free).chain.prev_mem
  rw [hlinks] at hr
  have hmem := (h.rings .dequeue hu).addtail_leaves (List.mem_map_of_mem hd) hlast hr
    (by simp [hsame])
  simp at hmem

private theorem Tallied.release_miscounts (h : Tallied kind q L) (hv : q.valid = true)
    {s : Surface} (hk : ¬q.KeepsCounters kind (.release (some s)))
    (he : Queue.call kind (.release (some s)) x q = some (r, q')) :
    q'.valid = true ∧ ¬q'.CountersEqual kind := by
  unfold SurfaceQueue.KeepsCounters at hk
  push Not at hk
  obtain ⟨⟨n, f⟩, hf, rfl, hbad⟩ := hk
  have hg : q.queueGetNode s = some (some (n, .nodeList)) := Option.join_eq_some_iff.mp hf
  rw [h.matches.nodesOn_eq] at hbad
  have hlook := h.found hg
  by_cases hover : q.queueSize < q.numAttached
  · rw [h.release_detaches ⟨hv, hg, hover⟩] at he
    obtain ⟨-, rfl⟩ : Reply.error .none = r ∧
      { q.queueDeleteNode n with numAttached := q.numAttached - 1 } = q' := by simpa using he
    refine ⟨hv, ?_⟩
    by_cases hd : n ∈ L.on .dequeue
    · apply h.short (h.deleteNode hd) rfl (h.uses_of_mem hd)
      have hlen := List.length_erase_of_mem hd
      have hpos := List.length_pos_of_mem hd
      simp only [Lists.remove]
      omega
    · intro heq
      refine (hbad hd).2 (h.staleAgrees fun w hu => ?_)
      obtain ⟨ns, hr, hcount⟩ := heq w hu
      have hbefore := h.count w hu
      have hsame : q.count w = ns.length := hcount
      exact ⟨ns, hr, by omega⟩
  · have hd : n ∈ L.on .dequeue := by
      by_contra hd
      exact hover (hbad hd).1
    obtain ⟨hlinks, hcount, hvalid⟩ : q'.links = (q.queueNodePushBack .free n).links ∧
        q'.count .dequeue = q.count .dequeue ∧ q'.valid = q.valid := by
      rw [release_kept hv hg hover] at he
      split_ifs at he
      · obtain ⟨-, rfl⟩ : Reply.error .invalidSurface = r ∧ q.queueNodePushBack .free n = q' := by
          simpa using he
        exact ⟨rfl, rfl, rfl⟩
      · obtain ⟨-, rfl⟩ : Reply.error .none = r ∧
            (q.queueNodePushBack .free n).setType n .release = q' := by simpa using he
        exact ⟨rfl, rfl, rfl⟩
    exact ⟨hvalid.trans hv, h.pushed_twice hd hlinks hcount⟩

/-- Every call that is not counted right leaves a counter that is wrong. -/
theorem Tallied.miscounts (h : Tallied kind q L) (hv : q.valid = true)
    (hk : ¬q.KeepsCounters kind op) (he : Queue.call kind op x q = some (r, q')) :
    q'.valid = true ∧ ¬q'.CountersEqual kind := by
  cases op with
  | setSize k flush =>
    cases flush with
    | true => exact absurd trivial hk
    | false => exact h.setSize_miscounts hv hk he
  | release s =>
    cases s with
    | none => exact absurd trivial hk
    | some s => exact h.release_miscounts hv hk he
  | _ => exact absurd trivial hk

end Miscounts

/-- On a live queue the call keeps the counters in step with the lists. -/
def KeepsCounts (kind : Kind) (q : SurfaceQueue) (c : Op × AllocResult) : Prop :=
  q.valid = true → q.KeepsCounters kind c.1

instance (kind : Kind) (q : SurfaceQueue) (c : Op × AllocResult) :
    Decidable (KeepsCounts kind q c) := inferInstanceAs (Decidable (_ → _))

section Runs

variable {kind : Kind} {q : SurfaceQueue} {queueSize width height format flags : ℤ}
  {cs : List (Op × AllocResult)}

theorem create_tallied (hc : kind.create queueSize width height format flags = some q) :
    ∃ L, Tallied kind q L := by
  refine ⟨_, (create_matches hc).toRepresents, fun w _ => ?_⟩
  have hcount : q.count w = 0 := by
    rw [create_eq hc]
    cases kind <;> cases w <;> rfl
  rw [hcount]
  rfl

/-- A run passes through states with the right counters only just if every call of it keeps them. -/
theorem counters_equal_lengths
    (hc : kind.create queueSize width height format flags = some q) :
    (∃ log q', run (step kind) cs q = some (log, q') ∧
      ∀ p ∈ q :: log.map Entry.after, p.valid = true → p.CountersEqual kind) ↔
    Permitted (step kind) (KeepsCounts kind) cs q := by
  have hstart : q.valid = true → ∃ L, Tallied kind q L := fun _ => create_tallied hc
  have good : ∀ p : SurfaceQueue, (p.valid = true → ∃ L, Tallied kind p L) →
      p.valid = true → p.CountersEqual kind := by
    intro p hp hv
    obtain ⟨L, hL⟩ := hp hv
    exact hL.countersEqual
  have hruns : (∃ log t, run (step kind) cs q = some (log, t) ∧
      ∀ e ∈ log, e.after.valid = true → e.after.CountersEqual kind) ↔
      Permitted (step kind) (KeepsCounts kind) cs q := by
    refine run_good_iff hstart good ?_ ?_
    · rintro p ⟨op, x⟩ hp hok
      by_cases hv : p.valid = true
      · obtain ⟨L, hL⟩ := hp hv
        exact hL.call hv (hok hv) x
      · have hf : p.valid = false := by simpa using hv
        exact ⟨_, p, Tracks.refused hf op x, hp⟩
    · rintro p ⟨op, x⟩ r p' hp hno he hgood
      have hv : p.valid = true := by
        by_contra hv
        exact hno fun hv' => absurd hv' hv
      obtain ⟨L, hL⟩ := hp hv
      obtain ⟨hv', hbad⟩ := hL.miscounts hv (fun hok => hno fun _ => hok) he
      exact hbad (hgood hv')
  rw [← hruns]
  constructor
  · rintro ⟨log, q', hr, hall⟩
    exact ⟨log, q', hr, fun e he => hall e.after (by simp; exact .inr ⟨e, he, rfl⟩)⟩
  · rintro ⟨log, q', hr, hall⟩
    refine ⟨log, q', hr, fun p hp => ?_⟩
    rcases List.mem_cons.mp hp with rfl | hp
    · exact good p hstart
    · obtain ⟨e, he, rfl⟩ := List.mem_map.mp hp
      exact hall e he

/-- The surfaces are enqueued in the other order, and the size is lowered while none is free. -/
private def lowered : List (Op × AllocResult) :=
  [allocating .dequeue 7, allocating .dequeue 8, quiet (.enqueue (some 8)),
    quiet (.enqueue (some 7)), quiet (.setSize 1 false), quiet .acquire, quiet (.release (some 7)),
    quiet (.setSize 3 true), allocating .dequeue 9]

theorem counters_equal_lengths_lowered : ∃ q log q', Kind.sequence.create 2 4 4 1 0 = some q ∧
    run (step .sequence) lowered q = some (log, q') ∧
      ∀ p ∈ q :: log.map Entry.after, p.valid = true → p.CountersEqual .sequence := by
  have hc : Kind.sequence.create 2 4 4 1 0 = some _ := rfl
  obtain ⟨log, q', h⟩ := (counters_equal_lengths hc).mpr
    (by decide +kernel : Permitted _ _ lowered _)
  exact ⟨_, log, q', hc, h⟩

/-- The only surface is back on `free_queue` when the size is lowered. -/
private def givenUp : List (Op × AllocResult) :=
  [allocating .dequeue 7, quiet (.enqueue (some 7)), quiet .acquire, quiet (.release (some 7)),
    quiet (.setSize 1 false)]

/-- The list is empty afterwards and its counter is not. -/
theorem set_size_leaves_counter :
    ¬∀ (q q' : SurfaceQueue) (queueSize width height format flags : ℤ)
      (cs : List (Op × AllocResult)) (log : List LogEntry),
      Kind.sequence.create queueSize width height format flags = some q →
      Permitted (step .sequence) (fun q c => q.valid = true → q.Behaved c.1 ∧ q.Fresh c) cs q →
      run (step .sequence) cs q = some (log, q') → q'.CountersEqual .sequence := by
  intro hall
  have hc : Kind.sequence.create 2 4 4 1 0 = some _ := rfl
  have hrun : ((run (step .sequence) givenUp
      (surfaceQueueInit tbmQueueSequenceImpl 2 4 4 1 0)).map fun p =>
        decide (p.2.queueIsEmpty .free = true ∧ p.2.count .free = 1)) = some true := by
    decide +kernel
  obtain ⟨⟨log, q'⟩, hr, hw⟩ := Option.map_eq_some_iff.mp hrun
  obtain ⟨hempty, hone⟩ := of_decide_eq_true hw
  obtain ⟨ns, hring, hcount⟩ := hall _ q' 2 4 4 1 0 givenUp log hc (by decide +kernel) hr .free rfl
  have hnil : ns = [] := by simpa using hring.isEmpty_iff.mp hempty
  rw [hnil, hone] at hcount
  simp at hcount

end Runs

end Tbm.Queue
