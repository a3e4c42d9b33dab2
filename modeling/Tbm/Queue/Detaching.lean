import Tbm.Queue.Failures

/-! Releases that detach their surface because the queue has become smaller. The node was popped
long before, and `LIST_DEL` writes through the neighbours it had then. -/
namespace Tbm.Queue

open Prog Runs

variable {kind : Kind} {q q' : SurfaceQueue} {L : Lists} {w : Fifo} {n : ℕ} {x : AllocResult}

/-- The node `n` leaves `list` and nothing else happens: the item lists hold the same nodes in the
same order, and whatever is on `dirty_queue` can be acquired. -/
structure DetachesOnly (kind : Kind) (n : ℕ) (q q' : SurfaceQueue) : Prop where
  items : ∀ (w : Fifo) (ns : List ℕ), kind.uses w = true → q.links.Ring (.head w) (ns.map .item) →
    q'.links.Ring (.head w) (ns.map .item)
  attached : ∀ ns : List ℕ, q.links.Ring .list (ns.map .link) →
    q'.links.Ring .list ((ns.erase n).map .link)
  num : q'.numAttached = q.numAttached - 1
  acquirable : ∀ ns : List ℕ, q.links.Ring (.head .dirty) (ns.map .item) → ∃ log q'',
    run (step kind) (ns.map fun _ => quiet .acquire) q' = some (log, q'') ∧
      log.map Entry.reply = ns.map fun k => .surface .none (some (q.node k).surface)

theorem Represents.mem_of_listed (h : Represents kind q L) {c : Cell} (hc : q.Listed kind c) :
    ∃ w, kind.uses w = true ∧ c ∈ Cell.head w :: (L.on w).map .item := by
  have hon : ∀ w, q.nodesOn kind w = L.on w := h.matches.nodesOn_eq
  cases c with
  | head w => exact ⟨w, hc, List.mem_cons_self⟩
  | list => exact hc.elim
  | link k => exact hc.elim
  | item k =>
    simp only [SurfaceQueue.Listed, hon] at hc
    rcases hc with hk | hk | hk
    · exact ⟨.free, h.uses_of_mem hk, by simpa using hk⟩
    · exact ⟨.dirty, h.uses_of_mem hk, by simpa using hk⟩
    · exact ⟨.dequeue, h.uses_of_mem hk, by simpa using hk⟩

/-- On the item lists the deletion of a node does what `LIST_DEL` of its item link does. -/
theorem Represents.queueDeleteNode_item (h : Represents kind q L) {c : Cell}
    (hc : c.isItem = true) :
    (q.queueDeleteNode n).links.next c = (q.links.del (.item n)).next c ∧
      (q.queueDeleteNode n).links.prev c = (q.links.del (.item n)).prev c := by
  obtain ⟨hkn, hkp⟩ := h.kinded.del (c := .item n) (.link n)
  have hn : c ≠ (q.links.del (.item n)).next (.link n) := by
    rintro rfl
    rw [hkn] at hc
    exact Bool.false_ne_true hc
  have hp : c ≠ (q.links.del (.item n)).prev (.link n) := by
    rintro rfl
    rw [hkp] at hc
    exact Bool.false_ne_true hc
  rw [q.queueDeleteNode_links]
  constructor
  · rw [Links.del_next (q.links.del (.item n)), if_neg hp]
  · rw [Links.del_prev (q.links.del (.item n)), if_neg hn]

theorem Represents.staleAgrees (h : Represents kind q L)
    (hr : ∀ w, kind.uses w = true → ∃ ns : List ℕ,
      (q.queueDeleteNode n).links.Ring (.head w) (ns.map .item) ∧ ns.length = (L.on w).length) :
    q.StaleAgrees kind n := by
  have agrees {w : Fifo} (hu : kind.uses w = true) :
      (q.links.prev (.item n) ∈ Cell.head w :: (L.on w).map .item →
        q.links.next (q.links.prev (.item n)) = q.links.next (.item n)) ∧
      (q.links.next (.item n) ∈ Cell.head w :: (L.on w).map .item →
        q.links.prev (q.links.next (.item n)) = q.links.prev (.item n)) := by
    obtain ⟨ns, hs, hlen⟩ := hr w hu
    have hdel : (q.links.del (.item n)).Ring (.head w) (ns.map .item) := by
      apply hs.congr
      intro c hc
      have hitem : c.isItem = true := by
        simp only [List.mem_cons, List.mem_map] at hc
        rcases hc with rfl | ⟨k, -, rfl⟩ <;> rfl
      obtain ⟨hn, hp⟩ := h.queueDeleteNode_item (n := n) hitem
      exact ⟨hn.symm, hp.symm⟩
    exact (h.rings w hu).del_agrees hdel (by simp [hlen])
  constructor
  · intro hc
    obtain ⟨w, hu, hm⟩ := h.mem_of_listed hc
    exact (agrees hu).1 hm
  · intro hc
    obtain ⟨w, hu, hm⟩ := h.mem_of_listed hc
    exact (agrees hu).2 hm

theorem Represents.acquire_all {ns : List ℕ} (h : Represents kind q L) (hv : q.valid = true)
    (hd : L.on .dirty = ns) : ∃ log q'',
      run (step kind) (ns.map fun _ => quiet .acquire) q = some (log, q'') ∧
        log.map Entry.reply = ns.map fun k => .surface .none (some (q.node k).surface) := by
  induction ns generalizing q L with
  | nil => exact ⟨[], q, rfl, rfl⟩
  | cons n ns ih =>
    obtain ⟨q₁, he, ho⟩ := h.matches.acquire (c := True) (x := ⟨none, false⟩) hv
    have hon : View.on ⟨L, q.node, q.settings⟩ .dirty = n :: ns := hd
    simp only [View.acquire, hon] at he ho
    have hm := ho.follows
    have hv₁ : q₁.valid = true := (congrArg SurfaceQueue.Settings.valid hm.settings).trans hv
    have hd₁ : (L.pop .dirty n).on .dirty = ns := by simp [Lists.pop, hd]
    obtain ⟨log, q'', hr, hlog⟩ := ih (q := q₁) hm.toRepresents hv₁ hd₁
    have hstep : step kind (quiet .acquire) q =
        some (.surface .none (some (q.node n).surface), q₁) := by
      show Queue.call kind .acquire ⟨none, false⟩ q = _
      simp [Queue.call, program, he]
    refine ⟨⟨q, quiet .acquire, .surface .none (some (q.node n).surface), q₁⟩ :: log, q'', ?_, ?_⟩
    · rw [List.map_cons, run, hstep]
      simp only [Option.bind_eq_bind, Option.bind_some]
      rw [hr]
      rfl
    · rw [List.map_cons, List.map_cons, hlog]
      congr 1
      apply List.map_congr_left
      intro k hk
      have hk' : k ∈ L.list := h.sub (w := .dirty) (by simp [hd, hk])
      have hsame : (q₁.node k).surface = (q.node k).surface := by
        rw [hm.node k hk']
        by_cases e : k = n
        · subst e
          simp [View.setType, View.setNode, View.pop]
        · simp [View.setType, View.setNode, View.pop, e]
      rw [hsame]

/-- A node that is handed out is detached alone just if its stale link agrees with the lists. -/
theorem Represents.detachesOnly_iff (h : Represents kind q L) (hv : q.valid = true)
    (hk : L.HandedOut n) :
    DetachesOnly kind n q { q.queueDeleteNode n with numAttached := q.numAttached - 1 } ↔
      q.StaleAgrees kind n := by
  constructor
  · intro hd
    apply h.staleAgrees
    intro w hu
    exact ⟨L.on w, hd.items w (L.on w) hu (h.rings w hu), rfl⟩
  · intro hs
    have hr := h.deleteStale hk hs
    have hon (w : Fifo) : (L.remove n).on w = L.on w := List.erase_of_not_mem (hk.2 w)
    constructor
    · intro w ns hu hq
      rw [hq.unique (h.rings w hu), ← hon w]
      exact hr.rings w hu
    · intro ns hq
      have hns : ns = L.list :=
        List.map_injective_iff.mpr (fun _ _ e => Cell.link.inj e) (hq.unique h.ring)
      rw [hns]
      exact hr.ring
    · rfl
    · intro ns hq
      have hns : ns = L.on .dirty :=
        List.map_injective_iff.mpr (fun _ _ e => Cell.item.inj e)
          (hq.unique (h.rings .dirty kind.uses_dirty))
      obtain ⟨log, q'', hrun, hlog⟩ := hr.acquire_all hv ((hon .dirty).trans hns.symm)
      refine ⟨log, q'', hrun, hlog.trans ?_⟩
      apply List.map_congr_left
      intro k hk'
      have hne : k ≠ n := by
        rintro rfl
        rw [hns] at hk'
        exact hk.2 .dirty hk'
      simp [hne]

/-- The release takes the branch that detaches the node `n`. -/
def SurfaceQueue.Detaches (q : SurfaceQueue) (s : Surface) (n : ℕ) : Prop :=
  q.valid = true ∧ q.queueGetNode s = some (some (n, .nodeList)) ∧ q.queueSize < q.numAttached

theorem Represents.release_detaches {s : Surface} (h : Represents kind q L)
    (hd : q.Detaches s n) : Queue.call kind (.release (some s)) x q =
      some (.error .none, { q.queueDeleteNode n with numAttached := q.numAttached - 1 }) := by
  obtain ⟨hv, hg, hover⟩ := hd
  have hl := h.found hg
  obtain ⟨-, hsurf, -, -⟩ := Lists.lookup_nodeList hl
  have hsn : (q.node n).surface = s := by simpa using hsurf
  rw [← hsn] at hl
  simp [Queue.call, program, tbmSurfaceQueueRelease, hv, hg, hover, Matches.detachNode_eq h hl]

section Runs

variable {queueSize width height format flags : ℤ} {cs : List (Op × AllocResult)}

/-- In a run on a default queue whose detaching releases found a stale link that agrees with the
lists, the next one touches only its own node just if it does too. -/
theorem release_detaches_only {s : Surface}
    (hc : tbmSurfaceQueueCreate queueSize width height format flags = some q)
    (hp : Permitted (step .default) (KeepsItems .default) cs q) :
    ∃ log q', run (step .default) cs q = some (log, q') ∧ (q'.Detaches s n →
      ∃ q'', call .default (.release (some s)) x q' = some (.error .none, q'') ∧
        (DetachesOnly .default n q' q'' ↔ q'.StaleAgrees .default n)) := by
  have hc' : Kind.default.create queueSize width height format flags = some q := hc
  have hstart : q.valid = true → ∃ L, Represents .default q L :=
    fun _ => ⟨_, (create_matches hc').toRepresents⟩
  obtain ⟨log, q', hr, hq'⟩ := run_total (fun _ q => q.valid = true → ∃ L, Represents .default q L)
    hstart (by
      rintro _ q ⟨op, x⟩ hq hok
      by_cases hv : q.valid = true
      · obtain ⟨L, hL⟩ := hq hv
        obtain ⟨r, q', he, hq'⟩ := hL.call hv (hok hv) x
        exact ⟨r, q', he, hq'⟩
      · have hf : q.valid = false := by simpa using hv
        exact ⟨_, q, Tracks.refused hf op x, hq⟩) hp
  refine ⟨log, q', hr, fun hd => ?_⟩
  obtain ⟨L, hL⟩ := hq' hd.1
  have hout : L.HandedOut n := hL.toLayout.handedOut_default (hL.found hd.2.1)
  exact ⟨_, hL.release_detaches hd, hL.detachesOnly_iff hd.1 hout⟩

/-- A queue of three surfaces shrinks to two while a client holds them all. -/
private def shrunk : List (Op × AllocResult) :=
  [allocating .dequeue 7, allocating .dequeue 8, allocating .dequeue 9,
    quiet (.enqueue (some 8)), quiet (.enqueue (some 9)), quiet (.setSize 2 false)]

theorem release_detaches_only_first : ∃ q log q',
    tbmSurfaceQueueCreate 3 4 4 1 0 = some q ∧ run (step .default) shrunk q = some (log, q') ∧
    q'.Detaches 7 0 ∧ (q'.Detaches 7 0 →
      ∃ q'', call .default (.release (some 7)) ⟨none, false⟩ q' = some (.error .none, q'') ∧
        (DetachesOnly .default 0 q' q'' ↔ q'.StaleAgrees .default 0)) := by
  have hc : tbmSurfaceQueueCreate 3 4 4 1 0 = some _ := rfl
  obtain ⟨log, q', hr, h⟩ := release_detaches_only (s := 7) (n := 0) (x := ⟨none, false⟩) hc
    (by decide +kernel : Permitted _ _ shrunk _)
  have hrun : ((run (step .default) shrunk (surfaceQueueInit tbmQueueDefaultImpl 3 4 4 1 0)).map
      fun p => (p.2.valid, p.2.queueGetNode 7, decide (p.2.queueSize < p.2.numAttached))) =
      some (true, some (some (0, .nodeList)), true) := by decide +kernel
  rw [hr] at hrun
  obtain ⟨hv, hg, hover⟩ : q'.valid = true ∧ q'.queueGetNode 7 = some (some (0, .nodeList)) ∧
      q'.queueSize < q'.numAttached := by simpa using hrun
  exact ⟨_, log, q', hc, hr, ⟨hv, hg, hover⟩, h⟩

/-- The first surface is acquired before the second is enqueued: both were next to the head of
`dirty_queue`. -/
private def overtaken : List (Op × AllocResult) :=
  [allocating .dequeue 7, allocating .dequeue 8, allocating .dequeue 9,
    quiet (.enqueue (some 7)), quiet .acquire, quiet (.enqueue (some 8)), quiet (.setSize 2 false)]

theorem release_drops_enqueued :
    ¬∀ (q q' : SurfaceQueue) (queueSize width height format flags : ℤ) (s : Surface) (n : ℕ)
      (x : AllocResult) (cs : List (Op × AllocResult)) (log : List LogEntry),
      tbmSurfaceQueueCreate queueSize width height format flags = some q →
      run (step .default) cs q = some (log, q') → q'.Detaches s n →
      ∃ q'', call .default (.release (some s)) x q' = some (.error .none, q'') ∧
        DetachesOnly .default n q' q'' := by
  intro hall
  have hc : tbmSurfaceQueueCreate 3 4 4 1 0 = some _ := rfl
  have hrun : ((run (step .default) overtaken (surfaceQueueInit tbmQueueDefaultImpl 3 4 4 1 0)).map
      fun p => decide ((p.2.valid = true ∧ p.2.queueGetNode 7 = some (some (0, .nodeList)) ∧
        p.2.queueSize < p.2.numAttached) ∧
        (p.2.links.next (.head .dirty) = .item 1 ∧ p.2.links.prev (.item 1) = .head .dirty ∧
          p.2.links.next (.item 1) = .head .dirty ∧ p.2.links.prev (.head .dirty) = .item 1) ∧
        ∀ r ∈ call .default (.release (some 7)) ⟨none, false⟩ p.2,
          r.2.links.next (.head .dirty) = .head .dirty)) = some true := by decide +kernel
  obtain ⟨⟨log, q'⟩, hr, hw⟩ := Option.map_eq_some_iff.mp hrun
  obtain ⟨hd, hchain, hafter⟩ := of_decide_eq_true hw
  obtain ⟨q'', he, hq''⟩ := hall _ q' 3 4 4 1 0 7 0 ⟨none, false⟩ overtaken log hc hr hd
  have hring : q'.links.Ring (.head .dirty) (([1] : List ℕ).map .item) := ⟨by simp, hchain⟩
  have hnext := (hq''.items .dirty [1] rfl hring).next_head
  rw [hafter _ he] at hnext
  exact absurd hnext (by simp)

end Runs

end Tbm.Queue
