import Tbm.Queue.View

/-! Every call of the link-level queue follows the list-level step, as long as a released
surface is one whose item link may be touched. -/
namespace Tbm.Queue

open Prog

section Exec

variable (x : AllocResult) (q : SurfaceQueue)

@[simp] theorem exec_returnValIfFail {α : Type} (c : Bool) (a : α) (k : QProg α) :
    (returnValIfFail c a k).exec x q = if c then k.exec x q else some (a, q) := by
  cases c <;> simp [returnValIfFail]

@[simp] theorem exec_unlockBoth : unlockBoth.exec x q = some ((), q) := rfl

@[simp] theorem exec_surfaceQueueIsValid : surfaceQueueIsValid.exec x q = some (q.valid, q) := rfl

@[simp] theorem exec_leaveCleared : leaveCleared.exec x q = some (.none, q) := rfl

/-- `need_attach` by a single thread. -/
def attachAnswer (x : AllocResult) (q : SurfaceQueue) : SurfaceQueue :=
  if q.queueSize = q.numAttached then q
  else
    match x.surface with
    | none => q
    | some surface =>
      ((q.record [if q.allocCb then .ref surface
        else .create q.width q.height q.format q.flags surface]).surfaceQueueAttach
          x.node surface q.epoch).record [.unref surface]

private theorem endAttach_begin (me : ℕ) :
    endAttach me q.allocCb q.epoch x { q with allocating := (me, q.epoch) :: q.allocating } =
      match x.surface with
      | none => q
      | some surface =>
        ((q.record [if q.allocCb then .ref surface
          else .create q.width q.height q.format q.flags surface]).surfaceQueueAttach
            x.node surface q.epoch).record [.unref surface] := by
  have he : ((me, q.epoch) :: q.allocating).erase (me, q.epoch) = q.allocating :=
    List.erase_cons_head _ _
  unfold endAttach
  cases x.surface with
  | none => simp only [he]
  | some surface => simp only [he]

@[simp] theorem exec_needAttach (me : ℕ) :
    (needAttach me).exec x q = some ((), attachAnswer x q) := by
  have he := endAttach_begin x q me
  unfold needAttach attachAnswer beginAttach
  by_cases hfull : q.queueSize = q.numAttached
  · simp [hfull]
  · rw [if_neg hfull, ← he]
    cases hcb : q.allocCb <;> simp [hfull, hcb]

end Exec

/-- `op` deletes every node. -/
def View.Clears (v : View) : Op → Prop
  | .reset width height format =>
    ¬(width = v.settings.width ∧ height = v.settings.height ∧ format = v.settings.format)
  | .flush => v.list ≠ []
  | .setSize n flush => 0 < n ∧ flush = true
  | .destroy => True
  | _ => False

/-- Every attached node is on an item list. -/
def View.NoneOut (v : View) : Prop := ∀ n ∈ v.list, ∃ w, n ∈ v.on w

/-- A released node that is kept must not be on `dequeue_list` any more; one that is detached
must still be on it, since its item link is unlinked. -/
def View.Sound (v : View) : Op → Prop
  | .release (some s) => ∀ n, v.lookup s = some (n, .nodeList) →
    (n ∈ v.on .dequeue ↔ v.settings.queueSize < v.list.length)
  | _ => True

/-- What a call leaves behind; `c` is what the unlinks of the call need. -/
structure Outcome (kind : Kind) (c : Prop) (q q' : SurfaceQueue) (v : View) : Prop where
  follows : Matches kind q' v
  linked : c → AllLinked q → AllLinked q'

namespace Matches

variable {kind : Kind} {q : SurfaceQueue} {v : View} {w : Fifo} {n : ℕ} {c : Prop}
  {x : AllocResult}

private theorem stay (h : Matches kind q v) : Outcome kind c q q v := ⟨h, fun _ hl => hl⟩

theorem isEmpty_free (h : Matches kind q v) :
    q.queueIsEmpty .free = decide (v.on .free = []) := by
  rw [Bool.eq_iff_iff, decide_eq_true_iff]
  exact h.isEmpty_iff kind.uses_free

theorem isEmpty_dirty (h : Matches kind q v) :
    q.queueIsEmpty .dirty = decide (v.on .dirty = []) := by
  rw [Bool.eq_iff_iff, decide_eq_true_iff]
  exact h.isEmpty_iff kind.uses_dirty

theorem attachAnswer (h : Matches kind q v) (x : AllocResult) :
    Outcome kind c q (attachAnswer x q) (v.attach x) := by
  have hsize := h.queueSize
  have hnum := h.numAttached
  unfold Tbm.Queue.attachAnswer View.attach
  rw [hsize, hnum]
  by_cases hfull : v.settings.queueSize = v.list.length
  · rw [if_pos hfull, if_pos hfull]
    exact h.stay
  · rw [if_neg hfull, if_neg hfull]
    obtain ⟨_ | surface, _ | _⟩ := x
    · exact h.stay
    · exact h.stay
    · exact ⟨h.congr rfl rfl rfl rfl, fun _ hl => hl⟩
    · exact ⟨(h.addNode surface).congr rfl rfl rfl rfl, fun _ hl => hl⟩

/-- The drain loop runs on a node whose `priv_flags` have been cleared. -/
private theorem drain (h : Matches .sequence q v) (hn : n ∈ v.list) :
    ∃ vs q', tbmQueueSequenceEnqueue n q = some (vs, q') ∧ (∀ k ∈ vs, k ∈ v.on .dequeue) ∧
      Outcome .sequence c q q' (v.drain n) := by
  obtain ⟨vs, q', he, hvs, hlay, hnode, hset, hnum, hlink⟩ :=
    h.toLayout.tbmQueueSequenceEnqueue n
  have hp := h.setPrivFlags hn 0
  refine ⟨vs, q', he, hvs, ⟨⟨?_, hnum.trans h.num⟩, fun k hk => ?_, hset.trans h.settings⟩,
    fun _ => hlink⟩
  · have hd : v.lists.drain (fun k => ((q.setPrivFlags n 0).node k).privFlags = 0) =
        (v.drain n).lists :=
      Lists.drain_congr fun k hk => by rw [hp.node k (h.sub hk)]
    rw [← hd]
    exact hlay
  · rw [hnode]
    exact hp.node k hk

theorem enqueue (h : Matches kind q v) (hv : q.valid = true) (surface : Surface) :
    ∃ q', (tbmSurfaceQueueEnqueue kind.impl (some surface)).exec x q =
        some ((v.enqueue kind surface).1, q') ∧
      Outcome kind c q q' (v.enqueue kind surface).2 := by
  unfold tbmSurfaceQueueEnqueue View.enqueue
  simp only [exec_bind, exec_mutexLock, Option.bind_some, exec_surfaceQueueIsValid,
    exec_returnValIfFail, hv, if_true, exec_access, h.queueGetNode_eq]
  rcases hl : v.lookup surface with _ | ⟨n, _ | _ | _⟩
  · exact ⟨q, by simp, h.stay⟩
  · exact ⟨q, by simp, h.stay⟩
  · exact ⟨q, by simp, h.stay⟩
  · obtain ⟨hm, -, -, -⟩ := Lists.lookup_nodeList hl
    cases kind with
    | default =>
      have hout := h.toLayout.handedOut_default hl
      have hp := h.pushBack (w := .dirty) rfl hout
      have hne := h.toLayout.not_isEmpty_pushBack (w := .dirty) rfl hout
      refine ⟨_, ?_, hp.setType (n := n) hm .enqueue, fun _ hl => hl⟩
      simp [Kind.impl, tbmQueueDefaultImpl, SurfaceQueue.surfaceQueueEnqueue, hne]
    | sequence =>
      obtain ⟨vs, q', he, -, hq', hlink⟩ := h.drain (c := c) hm
      by_cases hd : (v.drain n).on .dirty = []
      · refine ⟨q', ?_, ?_⟩
        · simp [Kind.impl, tbmQueueSequenceImpl, he, hq'.isEmpty_dirty, hd]
        · simpa [hd] using ⟨hq', hlink⟩
      · refine ⟨q'.setType n .enqueue, ?_, ?_⟩
        · simp [Kind.impl, tbmQueueSequenceImpl, he, hq'.isEmpty_dirty, hd]
        · simpa [hd] using ⟨hq'.setType (n := n) hm .enqueue, hlink⟩

theorem grow (h : Matches kind q v) (x : AllocResult) :
    Outcome kind c q (if v.on .free = [] then Tbm.Queue.attachAnswer x q else q) (v.grow x) := by
  unfold View.grow
  by_cases hf : v.on .free = []
  · rw [if_pos hf, if_pos hf]
    exact h.attachAnswer x
  · rw [if_neg hf, if_neg hf]
    exact h.stay

private theorem surfaceQueueDequeue_nil (h : Matches kind q v) (me : ℕ)
    (hfree : (v.grow x).on .free = []) :
    ∃ q', (surfaceQueueDequeue (needAttach me)).exec x q = some (none, q') ∧
      Outcome kind c q q' (v.grow x) := by
  have hg := h.grow (c := c) x
  have hf : v.on .free = [] := by
    by_contra hf
    simp [View.grow, hf] at hfree
  rw [if_pos hf] at hg
  refine ⟨_, ?_, hg⟩
  unfold surfaceQueueDequeue
  simp [h.isEmpty_free, hf, hg.follows.isEmpty_free, hfree]

private theorem surfaceQueueDequeue_cons (h : Matches kind q v) (me : ℕ) {ns : List ℕ}
    (hfree : (v.grow x).on .free = n :: ns) :
    ∃ q', (surfaceQueueDequeue (needAttach me)).exec x q = some (some n, q') ∧
      Outcome kind c q q' ((v.grow x).pop .free n) ∧
      ((v.grow x).pop .free n).lists.HandedOut n := by
  have hg := h.grow (c := c) x
  have hpop := hg.follows.queueNodePopFront_eq hfree
  have hm : n ∈ (v.grow x).on .free := by simp [hfree]
  have hl : c → AllLinked q → AllLinked _ := fun hc hl =>
    (hg.linked hc hl).pop hg.follows.toLayout hm
  refine ⟨_, ?_, ⟨hg.follows.pop hm, hl⟩, hg.follows.handedOut_pop hm⟩
  unfold surfaceQueueDequeue
  by_cases hf : v.on .free = []
  · rw [if_pos hf] at hg hpop ⊢
    simp [h.isEmpty_free, hf, hg.follows.isEmpty_free, hfree, hpop]
  · rw [if_neg hf] at hpop ⊢
    simp [h.isEmpty_free, hf, hpop]

theorem dequeue (h : Matches kind q v) (hv : q.valid = true) (me : ℕ) :
    ∃ q', (tbmSurfaceQueueDequeue kind.impl me).exec x q = some ((v.dequeue kind x).1, q') ∧
      Outcome kind c q q' (v.dequeue kind x).2 := by
  unfold tbmSurfaceQueueDequeue View.dequeue
  cases hfree : (v.grow x).on .free with
  | nil =>
    obtain ⟨q₁, he, ho⟩ := h.surfaceQueueDequeue_nil (c := c) me hfree
    simp only [hfree]
    refine ⟨q₁, ?_, ho⟩
    cases kind <;> simp [hv, Kind.impl, tbmQueueDefaultImpl, tbmQueueSequenceImpl, callNeedAttach,
      tbmQueueDefaultNeedAttach, tbmQueueSequenceDequeue, tbmQueueSequenceNeedAttach, he]
  | cons n ns =>
    obtain ⟨q₁, he, ho, hout⟩ := h.surfaceQueueDequeue_cons (c := c) me hfree
    have hm : n ∈ (v.grow x).list := hout.1
    have hs : (q₁.node n).surface = ((v.grow x).node n).surface := by
      rw [ho.follows.node n hm]
      rfl
    simp only [hfree]
    cases kind with
    | default =>
      refine ⟨q₁.setType n .dequeue, ?_, ho.follows.setType hm .dequeue, ho.linked⟩
      simp [hv, Kind.impl, tbmQueueDefaultImpl, callNeedAttach, tbmQueueDefaultNeedAttach, he,
        SurfaceQueue.setType, SurfaceQueue.setNode, hs, View.pop]
    | sequence =>
      have hpush := (ho.follows.pushBack (w := .dequeue) rfl hout).setPrivFlags (n := n) hm 1
      refine ⟨_, ?_, hpush.setType hm .dequeue, ho.linked⟩
      simp [hv, Kind.impl, tbmQueueSequenceImpl, tbmQueueSequenceDequeue,
        tbmQueueSequenceNeedAttach, he, SurfaceQueue.setType, SurfaceQueue.setPrivFlags,
        SurfaceQueue.setNode, SurfaceQueue.queueNodePushBack, hs, View.pop, View.push,
        View.setPrivFlags, View.setNode]

theorem acquire (h : Matches kind q v) (hv : q.valid = true) :
    ∃ q', (tbmSurfaceQueueAcquire kind.impl).exec x q = some (v.acquire.1, q') ∧
      Outcome kind c q q' v.acquire.2 := by
  unfold tbmSurfaceQueueAcquire View.acquire
  rw [kind.impl_acquire]
  cases hd : v.on .dirty with
  | nil =>
    refine ⟨q, ?_, h.stay⟩
    simp [hv, SurfaceQueue.surfaceQueueAcquire, h.isEmpty_dirty, hd]
  | cons n ns =>
    have hm : n ∈ v.on .dirty := by simp [hd]
    have hpop := h.queueNodePopFront_eq hd
    have hs : (q.node n).surface = (v.node n).surface := by rw [h.node n (h.on_sub hm)]
    refine ⟨_, ?_, (h.pop hm).setType (h.on_sub hm) .acquire, fun _ hl => hl.pop h.toLayout hm⟩
    simp [hv, SurfaceQueue.surfaceQueueAcquire, h.isEmpty_dirty, hd, hpop,
      SurfaceQueue.setType, SurfaceQueue.setNode, SurfaceQueue.queueNodePop, SurfaceQueue.listDel,
      hs]

theorem detachNode_eq {L : Lists} {f : Found} (h : Represents kind q L)
    (hf : L.lookup (fun k => (q.node k).surface = (q.node n).surface) = some (n, f)) :
    detachNode kind.impl n q =
      some { q.queueDeleteNode n with numAttached := q.numAttached - 1 } := by
  unfold detachNode
  rw [kind.impl_needDetach]
  exact h.surfaceQueueDetach hf

/-- A detached node has to be linked on an item list. -/
private theorem remove (h : Matches kind q v) (hn : n ∈ v.on w) :
    Matches kind { q.queueDeleteNode n with numAttached := q.numAttached - 1 }
      { v with lists := v.lists.remove n } := by
  have hset : { q.queueDeleteNode n with numAttached := q.numAttached - 1 }.settings =
      v.settings := by
    rw [SurfaceQueue.setNumAttached_settings, SurfaceQueue.queueDeleteNode_settings, h.settings]
  refine ⟨h.toRepresents.deleteNode hn, fun k hk => ?_, hset⟩
  have hne : k ≠ n := by
    rintro rfl
    exact (h.toRegistry.nodup.mem_erase_iff.mp hk).1 rfl
  have hnode : { q.queueDeleteNode n with numAttached := q.numAttached - 1 }.node k = q.node k := by
    simp [hne]
  rw [hnode]
  exact h.node k (List.mem_of_mem_erase hk)

theorem release (h : Matches kind q v) (hv : q.valid = true) {surface : Surface}
    (hs : v.Sound (.release (some surface))) :
    ∃ q', (tbmSurfaceQueueRelease kind.impl (some surface)).exec x q =
        some ((v.release surface).1, q') ∧
      Outcome kind c q q' (v.release surface).2 := by
  unfold tbmSurfaceQueueRelease View.release
  simp only [exec_bind, exec_mutexLock, Option.bind_some, exec_surfaceQueueIsValid,
    exec_returnValIfFail, hv, if_true, exec_access, h.queueGetNode_eq]
  rcases hl : v.lookup surface with _ | ⟨n, _ | _ | _⟩
  · exact ⟨q, by simp, h.stay⟩
  · exact ⟨q, by simp, h.stay⟩
  · exact ⟨q, by simp, h.stay⟩
  · obtain ⟨hm, hsurf, -, -⟩ := Lists.lookup_nodeList hl
    have hon := hs n hl
    have hdec : decide (q.queueSize < q.numAttached) =
        decide (v.settings.queueSize < v.list.length) := by rw [h.queueSize, h.numAttached]
    by_cases hover : v.settings.queueSize < v.list.length
    · have hin := hon.mpr hover
      have hd : detachNode kind.impl n q =
          some { q.queueDeleteNode n with numAttached := q.numAttached - 1 } := by
        have hg := h.toLayout.queueGetNode_eq (q.node n).surface
        have hsn : (q.node n).surface = surface := by
          rw [h.node n hm]
          simpa using hsurf
        refine detachNode_eq h.toRepresents (f := .nodeList) ?_
        rw [hsn] at hg ⊢
        exact Option.some.inj (hg.symm.trans ((h.queueGetNode_eq surface).trans (by rw [hl])))
      refine ⟨{ q.queueDeleteNode n with numAttached := q.numAttached - 1 }, ?_, ?_⟩
      · simp [hdec, hover, hd]
      · simp only [hover, if_true]
        exact ⟨h.remove hin, fun _ hal => (hal.deleteNode h.toLayout hin).setNumAttached _⟩
    · have hout : v.lists.HandedOut n :=
        Lists.handedOut_of_lookup hl fun hd => hover (hon.mp hd)
      have hp := h.pushBack kind.uses_free hout
      have hne := h.toLayout.not_isEmpty_pushBack kind.uses_free hout
      refine ⟨(q.queueNodePushBack .free n).setType n .release, ?_, ?_⟩
      · simp [hdec, hover, kind.impl_release, SurfaceQueue.surfaceQueueRelease, hne]
      · simp only [hover, if_false]
        exact ⟨hp.setType (n := n) hm .release, fun _ hl => hl⟩

theorem canAcquire (h : Matches kind q v) (hv : q.valid = true) (wait : ℤ) :
    (tbmSurfaceQueueCanAcquire wait).exec x q = some (v.canAcquire wait, q) := by
  have hc := h.getNodeCount_eq .dequeue
  unfold tbmSurfaceQueueCanAcquire View.canAcquire
  by_cases hd : v.on .dirty = []
  · by_cases hw : wait = 0
    · simp [hv, h.isEmpty_dirty, hd, hw]
    · by_cases hz : v.list.countP (fun n => (v.node n).type = .dequeue) = 0
      · rw [hz] at hc
        simp [hv, h.isEmpty_dirty, hd, hw, hc, hz]
      · simp [hv, h.isEmpty_dirty, hd, hw, hc, hz]
  · simp [hv, h.isEmpty_dirty, hd]

private theorem valid_eq (h : Matches kind q v) : q.valid = v.settings.valid :=
  congrArg SurfaceQueue.Settings.valid h.settings

theorem grow_valid (v : View) (x : AllocResult) : (v.grow x).settings.valid = v.settings.valid := by
  unfold View.grow View.attach
  split_ifs
  · rfl
  · obtain ⟨_ | _, _ | _⟩ := x <;> rfl
  · rfl

theorem canDequeue (h : Matches kind q v) (hv : q.valid = true) (wait : ℤ) (me : ℕ) :
    ∃ q', (tbmSurfaceQueueCanDequeue kind.impl wait me).exec x q =
        some ((v.canDequeue wait x).1, q') ∧
      Outcome kind c q q' (v.canDequeue wait x).2 := by
  have hg := h.grow (c := c) x
  have hview : (v.canDequeue wait x).2 = v.grow x := by
    simp only [View.canDequeue]
    split_ifs <;> rfl
  have hv₁ := hg.follows.valid_eq.trans ((grow_valid v x).trans (h.valid_eq.symm.trans hv))
  have hc := hg.follows.getNodeCount_eq .acquire
  rw [hview]
  refine ⟨_, ?_, hg⟩
  have he := hg.follows.isEmpty_free
  unfold tbmSurfaceQueueCanDequeue
  rw [kind.callNeedAttach_impl]
  by_cases hf : v.on .free = []
  · rw [if_pos hf] at hv₁ hc he ⊢
    by_cases hd : (v.grow x).on .free = []
    · by_cases hw : wait = 0
      · simp [View.canDequeue, hv, hv₁, h.isEmpty_free, hf, he, hd, hw]
      · by_cases hz : (v.grow x).list.countP (fun n => ((v.grow x).node n).type = .acquire) = 0
        · rw [hz] at hc
          simp [View.canDequeue, hv, hv₁, h.isEmpty_free, hf, he, hd, hw, hc, hz]
        · simp [View.canDequeue, hv, hv₁, h.isEmpty_free, hf, he, hd, hw, hc, hz]
    · simp [View.canDequeue, hv, hv₁, h.isEmpty_free, hf, he, hd]
  · rw [if_neg hf]
    simp [View.canDequeue, View.grow, hv, h.isEmpty_free, hf]

private theorem clearNodes (h : Matches kind q v) :
    ∃ q', clearNodes kind.impl q = some q' ∧ Outcome kind v.NoneOut q q' v.clear := by
  obtain ⟨q', hq', hr, hset⟩ := h.toRegistry.clearNodes kind
  have he : q.epoch = v.settings.epoch := congrArg SurfaceQueue.Settings.epoch h.settings
  refine ⟨q', hq', ⟨hr, nofun, ?_⟩, fun hall hl => hl.clearNodes h.toLayout hall hq'⟩
  rw [hset, h.settings, he]
  rfl

theorem flush (h : Matches kind q v) (hv : q.valid = true) :
    ∃ q', (tbmSurfaceQueueFlush kind.impl).exec x q = some (.none, q') ∧
      Outcome kind (v.Clears .flush → v.NoneOut) q q' v.flush := by
  unfold tbmSurfaceQueueFlush View.flush
  by_cases hz : v.list = []
  · have hn : q.numAttached = 0 := by simp [h.numAttached, hz]
    rw [if_pos hz]
    exact ⟨q, by simp [hv, hn], h.stay⟩
  · have hn : q.numAttached ≠ 0 := by simp [h.numAttached, hz]
    obtain ⟨q', hq', ho⟩ := h.clearNodes
    rw [if_neg hz]
    exact ⟨q', by simp [hv, hn, hq'], ho.follows, fun hc => ho.linked (hc hz)⟩

theorem reset (h : Matches kind q v) (hv : q.valid = true) (width height format : ℤ) :
    ∃ q', (tbmSurfaceQueueReset kind.impl width height format).exec x q = some (.none, q') ∧
      Outcome kind (v.Clears (.reset width height format) → v.NoneOut) q q'
        (v.reset width height format) := by
  have hw : q.width = v.settings.width := congrArg SurfaceQueue.Settings.width h.settings
  have hh : q.height = v.settings.height := congrArg SurfaceQueue.Settings.height h.settings
  have hf : q.format = v.settings.format := congrArg SurfaceQueue.Settings.format h.settings
  unfold tbmSurfaceQueueReset View.reset
  by_cases hsame : width = v.settings.width ∧ height = v.settings.height ∧
      format = v.settings.format
  · rw [if_pos hsame]
    exact ⟨q, by simp [hv, hw, hh, hf, hsame], h.stay⟩
  · have hset : Matches kind { q with width := width, height := height, format := format }
        { v with settings := { v.settings with
          width := width, height := height, format := format } } := by
      refine ⟨h.toRepresents.congr rfl (fun _ => rfl) rfl rfl, h.node, ?_⟩
      rw [← h.settings]
      rfl
    obtain ⟨q', hq', ho⟩ := hset.clearNodes
    rw [hv] at hq'
    rw [if_neg hsame]
    exact ⟨q', by simp [hv, hw, hh, hf, hsame, hq'], ho.follows, fun hc => ho.linked (hc hsame)⟩

private theorem setQueueSize (h : Matches kind q v) (n : ℤ) :
    Matches kind { q with queueSize := n }
      { v with settings := { v.settings with queueSize := n } } := by
  refine ⟨h.toRepresents.congr rfl (fun _ => rfl) rfl rfl, h.node, ?_⟩
  rw [← h.settings]
  rfl

/-- The shrinking loop detaches from the front of `free_queue`. -/
private theorem shrink (h : Matches kind q v) {k : ℤ} (hk : 0 < k) :
    ∃ q', q.detachFree (detachNode kind.impl) k = some q' ∧
      Outcome kind c q q' { v with lists := v.lists.dropFree k.toNat } := by
  obtain ⟨q', hq', hr, hnode, hset, hlink⟩ := h.toRepresents.detachFree hk
  have hsub : ∀ n ∈ (v.lists.dropFree k.toNat).list, n ∈ v.list := fun n hn =>
    Lists.mem_of_mem_dropFree hn
  refine ⟨q', hq', ⟨hr, fun n hn => ?_, hset.trans h.settings⟩, fun _ => hlink⟩
  rw [hnode n hn]
  exact h.node n (hsub n hn)

theorem setSize (h : Matches kind q v) (hv : q.valid = true) (n : ℤ) (flush : Bool) :
    ∃ q', (tbmSurfaceQueueSetSize kind.impl n flush).exec x q = some ((v.setSize n flush).1, q') ∧
      Outcome kind (v.Clears (.setSize n flush) → v.NoneOut) q q' (v.setSize n flush).2 := by
  have hsize := h.queueSize
  unfold tbmSurfaceQueueSetSize View.setSize
  by_cases hn : n ≤ 0
  · rw [if_pos hn]
    exact ⟨q, by simp [hv, hn], h.stay⟩
  rw [if_neg hn]
  by_cases hsame : v.settings.queueSize = n ∧ flush = false
  · rw [if_pos hsame]
    exact ⟨q, by simp [hv, hn, hsize, hsame], h.stay⟩
  rw [if_neg hsame]
  cases flush with
  | true =>
    obtain ⟨q', hq', ho⟩ := h.clearNodes
    refine ⟨{ q' with queueSize := n }, by simp [hv, hn, hq'], ?_, fun hc => ho.linked (hc ?_)⟩
    · exact ho.follows.setQueueSize n
    · exact ⟨by omega, rfl⟩
  | false =>
    have hne : v.settings.queueSize ≠ n := fun he => hsame ⟨he, rfl⟩
    by_cases hlow : n < v.settings.queueSize
    · obtain ⟨q', hq', ho⟩ := h.shrink (c := _) (k := v.settings.queueSize - n) (by omega)
      refine ⟨{ q' with queueSize := n }, ?_, ho.follows.setQueueSize n, ho.linked⟩
      simp [hv, hn, hne, hsize, hlow, hq']
    · have hk : (v.settings.queueSize - n).toNat = 0 := by omega
      refine ⟨{ q with queueSize := n }, ?_, ?_, fun _ hl => hl⟩
      · simp [hv, hn, hne, hsize, hlow]
      · simpa [hk, Lists.dropFree] using h.setQueueSize n

theorem setAllocCb (h : Matches kind q v) (hv : q.valid = true) (allocCb freeCb : Bool) :
    ∃ q', (tbmSurfaceQueueSetAllocCb allocCb freeCb).exec x q = some (.none, q') ∧
      Outcome kind c q q'
        { v with settings := { v.settings with allocCb := allocCb, freeCb := freeCb } } := by
  refine ⟨{ q with allocCb := allocCb, freeCb := freeCb },
    by simp [tbmSurfaceQueueSetAllocCb, hv], ⟨?_, h.node, ?_⟩, fun _ hl => hl⟩
  · exact h.toRepresents.congr rfl (fun _ => rfl) rfl rfl
  · rw [← h.settings]
    rfl

/-- `destroy` deletes the nodes and leaves the heads of the item lists as they are. -/
theorem destroy (h : Matches kind q v) (hv : q.valid = true) :
    ∃ q', tbmSurfaceQueueDestroy.exec x q = some ((), q') ∧
      q'.settings = { v.settings with valid := false } ∧
      (v.NoneOut → AllLinked q → AllLinked q') := by
  have hout : Matches kind { q with valid := false }
      { v with settings := { v.settings with valid := false } } := by
    refine ⟨h.toRepresents.congr rfl (fun _ => rfl) rfl rfl, h.node, ?_⟩
    rw [← h.settings]
    rfl
  obtain ⟨q', hq', -, hset⟩ := hout.toRegistry.deleteNodes
  refine ⟨q', by simp [tbmSurfaceQueueDestroy, hv, hq'], hset.trans hout.settings, ?_⟩
  intro hall hl
  have hl' : AllLinked { q with valid := false } := hl
  exact hl'.deleteNodes hout.toLayout hall hq'

end Matches

/-- On a destroyed queue only the settings are known. -/
structure Tracks (kind : Kind) (q : SurfaceQueue) (v : View) : Prop where
  settings : q.settings = v.settings
  live : v.settings.valid = true → Matches kind q v

namespace Tracks

variable {kind : Kind} {q : SurfaceQueue} {v : View} {op : Op} {x : AllocResult}

/-- The conditions of the two kinds under which a call keeps the lists and the unlinks sound. -/
def Allows (v : View) (op : Op) : Prop := v.settings.valid = true → v.Sound op

def Unlinks (v : View) (op : Op) : Prop :=
  v.settings.valid = true → v.Clears op → v.NoneOut

theorem refused (hv : q.valid = false) (op : Op) (x : AllocResult) :
    call kind op x q = some (View.refuse op, q) := by
  cases op <;> simp [call, program, View.refuse, tbmSurfaceQueueDequeue, tbmSurfaceQueueEnqueue,
    tbmSurfaceQueueAcquire, tbmSurfaceQueueRelease, tbmSurfaceQueueCanDequeue,
    tbmSurfaceQueueCanAcquire, tbmSurfaceQueueReset, tbmSurfaceQueueFlush, tbmSurfaceQueueSetSize,
    tbmSurfaceQueueSetAllocCb, tbmSurfaceQueueDestroy, hv]

private theorem call_live (h : Matches kind q v) (hv : v.settings.valid = true) (hs : v.Sound op)
    (x : AllocResult) :
    ∃ q', call kind op x q = some ((v.liveStep kind op x).1, q') ∧
      Tracks kind q' (v.liveStep kind op x).2 ∧
      ((v.Clears op → v.NoneOut) → AllLinked q → AllLinked q') := by
  have hq : q.valid = true := (congrArg SurfaceQueue.Settings.valid h.settings).trans hv
  have done : ∀ {c : Prop} {q' : SurfaceQueue} {v' : View},
      ((v.Clears op → v.NoneOut) → c) → Outcome kind c q q' v' →
      Tracks kind q' v' ∧ ((v.Clears op → v.NoneOut) → AllLinked q → AllLinked q') :=
    fun hc ho => ⟨⟨ho.follows.settings, fun _ => ho.follows⟩, fun hu => ho.linked (hc hu)⟩
  cases op with
  | dequeue =>
    obtain ⟨q', he, ho⟩ := h.dequeue (c := True) (x := x) hq 0
    exact ⟨q', by simp [Queue.call, program, View.liveStep, he], done (fun _ => trivial) ho⟩
  | enqueue surface =>
    cases surface with
    | none =>
      exact ⟨q, by simp [Queue.call, program, View.liveStep, tbmSurfaceQueueEnqueue, hq],
        done (c := True) (fun _ => trivial) ⟨h, fun _ hl => hl⟩⟩
    | some s =>
      obtain ⟨q', he, ho⟩ := h.enqueue (c := True) (x := x) hq s
      exact ⟨q', by simp [Queue.call, program, View.liveStep, he], done (fun _ => trivial) ho⟩
  | acquire =>
    obtain ⟨q', he, ho⟩ := h.acquire (c := True) (x := x) hq
    exact ⟨q', by simp [Queue.call, program, View.liveStep, he], done (fun _ => trivial) ho⟩
  | release surface =>
    cases surface with
    | none =>
      exact ⟨q, by simp [Queue.call, program, View.liveStep, tbmSurfaceQueueRelease, hq],
        done (c := True) (fun _ => trivial) ⟨h, fun _ hl => hl⟩⟩
    | some s =>
      obtain ⟨q', he, ho⟩ := h.release (c := True) (x := x) hq hs
      exact ⟨q', by simp [Queue.call, program, View.liveStep, he], done (fun _ => trivial) ho⟩
  | canDequeue wait =>
    obtain ⟨q', he, ho⟩ := h.canDequeue (c := True) (x := x) hq wait 0
    exact ⟨q', by simp [Queue.call, program, View.liveStep, he], done (fun _ => trivial) ho⟩
  | canAcquire wait =>
    have he := h.canAcquire (x := x) hq wait
    exact ⟨q, by simp [Queue.call, program, View.liveStep, he],
      done (c := True) (fun _ => trivial) ⟨h, fun _ hl => hl⟩⟩
  | reset width height format =>
    obtain ⟨q', he, ho⟩ := h.reset (x := x) hq width height format
    exact ⟨q', by simp [Queue.call, program, View.liveStep, he], done id ho⟩
  | flush =>
    obtain ⟨q', he, ho⟩ := h.flush (x := x) hq
    exact ⟨q', by simp [Queue.call, program, View.liveStep, he], done id ho⟩
  | setSize n flush =>
    obtain ⟨q', he, ho⟩ := h.setSize (x := x) hq n flush
    exact ⟨q', by simp [Queue.call, program, View.liveStep, he], done id ho⟩
  | setAllocCb allocCb freeCb =>
    obtain ⟨q', he, ho⟩ := h.setAllocCb (c := True) (x := x) hq allocCb freeCb
    exact ⟨q', by simp [Queue.call, program, View.liveStep, he], done (fun _ => trivial) ho⟩
  | destroy =>
    obtain ⟨q', he, hset, hl⟩ := h.destroy (x := x) hq
    exact ⟨q', by simp [Queue.call, program, View.liveStep, he], ⟨hset, nofun⟩,
      fun hu => hl (hu trivial)⟩

theorem call (h : Tracks kind q v) (hs : Allows v op) (x : AllocResult) :
    ∃ q', call kind op x q = some ((v.step kind op x).1, q') ∧
      Tracks kind q' (v.step kind op x).2 ∧ (Unlinks v op → AllLinked q → AllLinked q') := by
  unfold View.step
  by_cases hv : v.settings.valid = true
  · rw [if_pos hv]
    obtain ⟨q', he, ht, hl⟩ := call_live (h.live hv) hv (hs hv) x
    exact ⟨q', he, ht, fun hu => hl (hu hv)⟩
  · rw [if_neg hv]
    have hq : q.valid = false := by
      rw [Bool.not_eq_true] at hv
      exact (congrArg SurfaceQueue.Settings.valid h.settings).trans hv
    exact ⟨q, refused hq op x, h, fun _ hl => hl⟩

end Tracks

end Tbm.Queue
