import Tbm.Queue.Layout

/-! What the loops of the queue code do to the lists: the deletion of every node, the drain of
`dequeue_list` and the shrinking of `free_queue`. -/
namespace Tbm.Queue

/-- The lists of a state together with its counter of attached surfaces. -/
structure Represents (kind : Kind) (q : SurfaceQueue) (L : Lists) : Prop
    extends Layout kind q L where
  num : q.numAttached = L.list.length

namespace AllLinked

variable {kind : Kind} {q : SurfaceQueue} {L : Lists} {A : List ℕ} {w : Fifo} {n : ℕ}

private theorem listDel (hl : AllLinked q) {c : Cell}
    (hc : Unlink.Linked ⟨c, q.links, fun n => (q.node n).freed⟩) : AllLinked (q.listDel c) := by
  intro u hu
  rcases List.mem_append.mp hu with hu | hu
  · exact hl u hu
  · rw [List.mem_singleton.mp hu]
    exact hc

private theorem linked_item (h : Layout kind q L) (hn : n ∈ L.on w) :
    Unlink.Linked ⟨.item n, q.links, fun n => (q.node n).freed⟩ := by
  have hr := h.rings w (h.uses_of_mem hn)
  have halive : ∀ c ∈ Cell.head w :: (L.on w).map .item,
      Unlink.Alive ⟨.item n, q.links, fun n => (q.node n).freed⟩ c := by
    intro c hc
    simp only [List.mem_cons, List.mem_map] at hc
    rcases hc with rfl | ⟨k, hk, rfl⟩
    · trivial
    · exact (h.live k).mpr (h.sub hk)
  obtain ⟨hp, hx, hpm, hxm⟩ := hr.linked (List.mem_map_of_mem hn)
  exact ⟨hp, hx, halive _ hpm, halive _ hxm⟩

private theorem linked_link (h : Registry q A) (hn : n ∈ A) :
    Unlink.Linked ⟨.link n, q.links, fun n => (q.node n).freed⟩ := by
  have halive : ∀ c ∈ Cell.list :: A.map .link,
      Unlink.Alive ⟨.link n, q.links, fun n => (q.node n).freed⟩ c := by
    intro c hc
    simp only [List.mem_cons, List.mem_map] at hc
    rcases hc with rfl | ⟨k, hk, rfl⟩
    · trivial
    · exact (h.live k).mpr hk
  obtain ⟨hp, hx, hpm, hxm⟩ := h.ring.linked (List.mem_map_of_mem hn)
  exact ⟨hp, hx, halive _ hpm, halive _ hxm⟩

theorem pop (hl : AllLinked q) (h : Layout kind q L) (hn : n ∈ L.on w) :
    AllLinked (q.queueNodePop w n) := hl.listDel (linked_item h hn)

theorem deleteNode (hl : AllLinked q) (h : Layout kind q L) (hn : n ∈ L.on w) :
    AllLinked (q.queueDeleteNode n) := by
  have hi : AllLinked (q.listDel (.item n)) := hl.listDel (linked_item h hn)
  have hk := hi.listDel (linked_link (h.toRegistry.delItem n) (h.sub hn))
  unfold AllLinked
  rw [q.queueDeleteNode_unlinks]
  exact hk

theorem setNumAttached (hl : AllLinked q) (k : ℤ) :
    AllLinked { q with numAttached := k } := hl

end AllLinked

section Delete

variable {kind : Kind} {q q' : SurfaceQueue} {L : Lists} {A : List ℕ}

private theorem deleteNodes_head {a : ℕ} {as : List ℕ} (h : Registry q (a :: as)) :
    Cell.link a ≠ .list ∧ q.linkEntry (.link a) = some a ∧
      q.links.next (.link a) = (as.map Cell.link).headD .list := by
  have hr := h.ring
  exact ⟨by simp, h.linkEntry_eq (by simp), hr.next_first⟩

/-- The loop deletes every node whatever its item link looks like. -/
theorem Registry.deleteNodes (h : Registry q A) :
    ∃ q', q.deleteNodes = some q' ∧ Registry q' [] ∧ q'.settings = q.settings := by
  obtain ⟨hpos, hstor⟩ := h.ring.forEachSafe_start
  obtain ⟨vs, t, he, hr, hs⟩ := Links.forEachSafe_spec
    (fun q : SurfaceQueue => q.links.next) SurfaceQueue.linkEntry
    (fun n q => some (false, q.queueDeleteNode n)) Cell.link .list
    (fun as s => Registry s as ∧ s.settings = q.settings)
    (fun _ t => Registry t [] ∧ t.settings = q.settings)
    (fun a as s hI => deleteNodes_head hI.1)
    (fun a as s hI => by
      have hd := hI.1.deleteNode (n := a) (by simp)
      rw [List.erase_cons_head] at hd
      refine ⟨false, _, rfl, ?_⟩
      simp only [Bool.false_eq_true, ↓reduceIte]
      exact ⟨⟨hd, by rw [SurfaceQueue.queueDeleteNode_settings, hI.2]⟩, fun _ _ hQ => hQ⟩)
    (fun s hI => hI)
    h.length_lt_fuel ⟨h, rfl⟩ hstor
  rw [← hpos] at he
  exact ⟨t, by simp [SurfaceQueue.deleteNodes, he], hr, hs⟩

/-- If no node is handed out, every node it deletes is linked on both its lists. -/
theorem AllLinked.deleteNodes (hl : AllLinked q) (h : Layout kind q L)
    (hall : ∀ n ∈ L.list, ∃ w, n ∈ L.on w) (hq : q.deleteNodes = some q') : AllLinked q' := by
  obtain ⟨hpos, hstor⟩ := h.ring.forEachSafe_start
  obtain ⟨vs, t, he, ht⟩ := Links.forEachSafe_spec
    (fun q : SurfaceQueue => q.links.next) SurfaceQueue.linkEntry
    (fun n q => some (false, q.queueDeleteNode n)) Cell.link .list
    (fun as s => AllLinked s ∧ ∃ L, Layout kind s L ∧ L.list = as ∧ ∀ n ∈ as, ∃ w, n ∈ L.on w)
    (fun _ t => AllLinked t)
    (fun a as s hI => by
      obtain ⟨-, M, hM, ha, -⟩ := hI
      exact deleteNodes_head (ha ▸ hM.toRegistry))
    (fun a as s hI => by
      obtain ⟨hs, M, hM, ha, hon⟩ := hI
      obtain ⟨w, hw⟩ := hon a (by simp)
      refine ⟨false, _, rfl, ?_⟩
      simp only [Bool.false_eq_true, ↓reduceIte]
      refine ⟨⟨hs.deleteNode hM hw, M.remove a, hM.deleteNode hw, ?_, ?_⟩, fun _ _ hQ => hQ⟩
      · simp [Lists.remove, ha]
      · intro n hn
        have hne : n ≠ a := by
          rintro rfl
          have hnd := hM.toRegistry.nodup
          rw [ha] at hnd
          exact (List.nodup_cons.mp hnd).1 hn
        obtain ⟨v, hv⟩ := hon n (by simp [hn])
        exact ⟨v, (List.mem_erase_of_ne hne).mpr hv⟩)
    (fun s hI => hI.1)
    h.toRegistry.length_lt_fuel ⟨hl, L, h, rfl, hall⟩ hstor
  rw [← hpos] at he
  have : t = q' := by simpa [SurfaceQueue.deleteNodes, he] using hq
  exact this ▸ ht

private theorem initHeads_empty (h : Registry q []) :
    Represents kind (initHeads kind.impl q) .empty := by
  have hi := ((h.queueInit .free).queueInit .dirty).kinded.inithead (c := .list)
  have hfreed : ∀ n, (q.node n).freed = true := fun n => by simpa using h.live n
  cases kind with
  | default =>
    refine ⟨⟨⟨hi, ?_, fun n => ?_, nofun⟩, fun w hw => ?_, fun _ _ => rfl, nofun, nofun⟩, rfl⟩
    · exact Links.ring_nil.mpr (by simp [initHeads, Kind.impl, tbmQueueDefaultImpl])
    · simp [initHeads, Kind.impl, tbmQueueDefaultImpl, SurfaceQueue.queueInit, hfreed, Lists.empty]
    · refine Links.ring_nil.mpr ?_
      cases w <;>
        simp [initHeads, Kind.impl, tbmQueueDefaultImpl, SurfaceQueue.queueInit, Kind.uses] at hw ⊢
  | sequence =>
    refine ⟨⟨⟨hi.inithead, ?_, fun n => ?_, nofun⟩, fun w hw => ?_, fun _ _ => rfl, nofun,
      nofun⟩, rfl⟩
    · exact Links.ring_nil.mpr (by
        simp [initHeads, Kind.impl, tbmQueueSequenceImpl, tbmQueueSequenceReset,
          SurfaceQueue.queueInit])
    · simp [initHeads, Kind.impl, tbmQueueSequenceImpl, tbmQueueSequenceReset,
        SurfaceQueue.queueInit, hfreed, Lists.empty]
    · refine Links.ring_nil.mpr ?_
      cases w <;> simp [initHeads, Kind.impl, tbmQueueSequenceImpl, tbmQueueSequenceReset,
        SurfaceQueue.queueInit]

theorem initHeads_settings :
    (initHeads kind.impl q).settings = { q.settings with epoch := q.epoch + 1 } := by
  cases kind <;> rfl

private theorem initHeads_unlinks : (initHeads kind.impl q).unlinks = q.unlinks := by
  cases kind <;> rfl

/-- The lists after a clearing operation do not depend on the lists before it. -/
theorem Registry.clearNodes (kind : Kind) (h : Registry q A) :
    ∃ q', clearNodes kind.impl q = some q' ∧ Represents kind q' .empty ∧
      q'.settings = { q.settings with epoch := q.epoch + 1 } := by
  obtain ⟨d, hd, hr, hs⟩ := h.deleteNodes
  have he : d.epoch = q.epoch := congrArg SurfaceQueue.Settings.epoch hs
  refine ⟨initHeads kind.impl d, by simp [Tbm.Queue.clearNodes, hd], initHeads_empty hr, ?_⟩
  rw [initHeads_settings, hs, he]

theorem AllLinked.clearNodes (hl : AllLinked q) (h : Layout kind q L)
    (hall : ∀ n ∈ L.list, ∃ w, n ∈ L.on w) (hq : clearNodes kind.impl q = some q') :
    AllLinked q' := by
  obtain ⟨d, hd, -, -⟩ := h.toRegistry.deleteNodes
  have hdl : AllLinked d := hl.deleteNodes h hall hd
  have e : initHeads kind.impl d = q' := by simpa [Tbm.Queue.clearNodes, hd] using hq
  unfold AllLinked
  rw [← e, initHeads_unlinks]
  exact hdl

end Delete

/-- The front of `dequeue_list` up to the first node not satisfying `p` moves to the back of
`dirty_queue`. -/
def Lists.drain (L : Lists) (p : ℕ → Bool) : Lists :=
  { L with on := fun
      | .free => L.on .free
      | .dirty => L.on .dirty ++ (L.on .dequeue).takeWhile p
      | .dequeue => (L.on .dequeue).dropWhile p }

theorem Lists.drain_congr {L : Lists} {p p' : ℕ → Bool} (hp : ∀ k ∈ L.on .dequeue, p k = p' k) :
    L.drain p = L.drain p' := by
  have hspan : ∀ ks : List ℕ, (∀ k ∈ ks, p k = p' k) →
      ks.takeWhile p = ks.takeWhile p' ∧ ks.dropWhile p = ks.dropWhile p' := by
    intro ks
    induction ks with
    | nil => simp
    | cons k ks ih =>
      intro h
      have hk := h k (by simp)
      obtain ⟨ht, hd⟩ := ih fun j hj => h j (by simp [hj])
      cases hv : p' k <;> simp [hk, hv, ht, hd]
  obtain ⟨ht, hd⟩ := hspan _ hp
  unfold drain
  rw [ht, hd]

private theorem drain_step {L : Lists} {p : ℕ → Bool} {a : ℕ} {as : List ℕ}
    (ha : L.on .dequeue = a :: as) (hp : p a = true) :
    ((L.pop .dequeue a).push .dirty a).drain p = L.drain p := by
  refine Lists.ext (funext fun w => ?_) rfl
  cases w <;> simp [Lists.drain, Lists.pop, Lists.push, ha, hp]

private theorem drain_stop {L : Lists} {p : ℕ → Bool} (hp : ∀ a as, L.on .dequeue = a :: as →
    p a = false) : L.drain p = L := by
  refine Lists.ext (funext fun w => ?_) rfl
  cases hd : L.on .dequeue with
  | nil => cases w <;> simp [Lists.drain, hd]
  | cons a as => cases w <;> simp [Lists.drain, hd, hp a as hd]

/-- The drain loop between two iterations: `M` is reached from `L` by moving released nodes. -/
private structure Draining (r : SurfaceQueue) (L : Lists) (p : ℕ → Bool) (M : Lists)
    (s : SurfaceQueue) : Prop where
  layout : Layout .sequence s M
  drain : M.drain p = L.drain p
  node : s.node = r.node
  settings : s.settings = r.settings
  num : s.numAttached = r.numAttached
  linked : AllLinked r → AllLinked s
  count : ∀ w, s.count w + (L.on w).length = r.count w + (M.on w).length

private theorem Draining.step {r s : SurfaceQueue} {L M : Lists} {a : ℕ} {as : List ℕ}
    (h : Draining r L (fun k => (r.node k).privFlags = 0) M s) (ha : M.on .dequeue = a :: as) :
    ∃ stop s', drainNode a s = some (stop, s') ∧
      if stop then Draining r L (fun k => (r.node k).privFlags = 0)
        (M.drain fun k => (r.node k).privFlags = 0) s'
      else ∃ N, Draining r L (fun k => (r.node k).privFlags = 0) N s' ∧ N.on .dequeue = as := by
  have hmem : a ∈ M.on .dequeue := by simp [ha]
  by_cases hp : (r.node a).privFlags = 0
  · have hpop := h.layout.pop hmem
    have hpush := hpop.pushBack (w := .dirty) rfl (h.layout.handedOut_pop hmem)
    have hd := drain_step (p := fun k => (r.node k).privFlags = 0) ha (by simpa using hp)
    refine ⟨false, (s.queueNodePop .dequeue a).surfaceQueueEnqueue a true,
      by simp [drainNode, h.node, hp], ?_⟩
    simp only [Bool.false_eq_true, ↓reduceIte]
    refine ⟨_, ⟨hpush, hd.trans h.drain, h.node, h.settings, h.num, fun hl => ?_, fun w => ?_⟩,
      by simp [Lists.push, Lists.pop, ha]⟩
    · exact (h.linked hl).pop h.layout hmem
    · have hcount := h.count w
      cases w <;> simp [SurfaceQueue.surfaceQueueEnqueue, SurfaceQueue.queueNodePushBack,
        SurfaceQueue.queueNodePop, SurfaceQueue.listDel, Lists.push, Lists.pop, ha] at hcount ⊢ <;>
        omega
  · have hs : M.drain (fun k => (r.node k).privFlags = 0) = M := drain_stop fun b bs hb => by
      obtain ⟨rfl, -⟩ := List.cons.inj (ha.symm.trans hb)
      simpa using hp
    refine ⟨true, s, by simp [drainNode, h.node, hp], ?_⟩
    simp only [↓reduceIte, hs]
    exact h

private theorem drain_loop {q : SurfaceQueue} {L : Lists} (h : Layout .sequence q L) (n : ℕ) :
    ∃ vs q', tbmQueueSequenceEnqueue n q = some (vs, q') ∧ (∀ v ∈ vs, v ∈ L.on .dequeue) ∧
      Draining (q.setPrivFlags n 0) L (fun k => ((q.setPrivFlags n 0).node k).privFlags = 0)
        (L.drain fun k => ((q.setPrivFlags n 0).node k).privFlags = 0) q' := by
  let r := q.setPrivFlags n 0
  let p : ℕ → Bool := fun k => (r.node k).privFlags = 0
  have hr : Layout .sequence r L := h.setNode rfl
  obtain ⟨hpos, hstor⟩ := (hr.rings .dequeue rfl).forEachSafe_start
  obtain ⟨vs, t, he, hvs, ht⟩ := Links.forEachSafe_spec
    (fun q : SurfaceQueue => q.links.next) SurfaceQueue.itemEntry drainNode Cell.item
    (.head .dequeue)
    (fun as s => (∀ v ∈ as, v ∈ L.on .dequeue) ∧ ∃ M, Draining r L p M s ∧ M.on .dequeue = as)
    (fun vs t => (∀ v ∈ vs, v ∈ L.on .dequeue) ∧ Draining r L p (L.drain p) t)
    (fun a as s hI => by
      obtain ⟨-, M, hM, ha⟩ := hI
      have hx := hM.layout.rings .dequeue rfl
      rw [ha] at hx
      exact ⟨by simp, hM.layout.itemEntry_eq (w := .dequeue) (by simp [ha]), hx.next_first⟩)
    (fun a as s hI => by
      obtain ⟨hsub, M, hM, ha⟩ := hI
      have hmem : a ∈ L.on .dequeue := hsub a (by simp)
      obtain ⟨stop, s', hb, hcase⟩ := hM.step ha
      refine ⟨stop, s', hb, ?_⟩
      cases stop with
      | true => exact ⟨by simpa using hmem, hM.drain ▸ hcase⟩
      | false =>
        refine ⟨⟨fun v hv => hsub v (by simp [hv]), hcase⟩, fun vs t hQ => ⟨?_, hQ.2⟩⟩
        simpa [hmem] using hQ.1)
    (fun s hI => by
      obtain ⟨-, M, hM, ha⟩ := hI
      have hs : M.drain p = M := drain_stop fun b bs hb => by simp [ha] at hb
      rw [← hM.drain, hs]
      exact ⟨by simp, hM⟩)
    (hr.length_lt_fuel .dequeue)
    ⟨fun _ hv => hv, L, ⟨hr, rfl, rfl, rfl, rfl, id, fun _ => rfl⟩, rfl⟩ hstor
  rw [← hpos] at he
  exact ⟨vs, t, he, hvs, ht⟩

/-- The drain loop of the sequence queue moves exactly the released front of `dequeue_list`. -/
theorem Layout.tbmQueueSequenceEnqueue {q : SurfaceQueue} {L : Lists}
    (h : Layout .sequence q L) (n : ℕ) :
    ∃ vs q', tbmQueueSequenceEnqueue n q = some (vs, q') ∧ (∀ v ∈ vs, v ∈ L.on .dequeue) ∧
      Layout .sequence q'
        (L.drain fun k => ((q.setPrivFlags n 0).node k).privFlags = 0) ∧
      q'.node = (q.setPrivFlags n 0).node ∧ q'.settings = q.settings ∧
      q'.numAttached = q.numAttached ∧ (AllLinked q → AllLinked q') := by
  obtain ⟨vs, q', he, hvs, ht⟩ := drain_loop h n
  exact ⟨vs, q', he, hvs, ht.layout, ht.node, ht.settings, ht.num, ht.linked⟩

theorem Layout.drain_count {q q' : SurfaceQueue} {L : Lists} {n : ℕ} {vs : List ℕ}
    (h : Layout .sequence q L) (he : Tbm.Queue.tbmQueueSequenceEnqueue n q = some (vs, q'))
    (w : Fifo) : q'.count w + (L.on w).length = q.count w +
      ((L.drain fun k => ((q.setPrivFlags n 0).node k).privFlags = 0).on w).length := by
  obtain ⟨vs', t, he', -, ht⟩ := drain_loop h n
  obtain ⟨-, rfl⟩ : vs' = vs ∧ t = q' := by simpa [he'] using he
  exact ht.count w

/-- The first `k` nodes of `free_queue` are detached. -/
def Lists.dropFree : ℕ → Lists → Lists
  | 0, L => L
  | k + 1, L =>
    match L.on .free with
    | [] => L
    | n :: _ => dropFree k (L.remove n)

theorem Lists.dropFree_nil {L : Lists} (h : L.on .free = []) (k : ℕ) : L.dropFree k = L := by
  cases k <;> simp [Lists.dropFree, h]

theorem Lists.mem_of_mem_dropFree {L : Lists} {k n : ℕ} (h : n ∈ (L.dropFree k).list) :
    n ∈ L.list := by
  induction k generalizing L with
  | zero => exact h
  | succ k ih =>
    unfold dropFree at h
    split at h
    · exact h
    · exact List.mem_of_mem_erase (ih h)

namespace Represents

variable {kind : Kind} {q : SurfaceQueue} {L : Lists} {w : Fifo} {n : ℕ}

theorem congr {q' : SurfaceQueue} (h : Represents kind q L) (hl : q'.links = q.links)
    (hf : ∀ n, (q'.node n).freed = (q.node n).freed) (hn : q'.nodes = q.nodes)
    (ha : q'.numAttached = q.numAttached) : Represents kind q' L :=
  ⟨h.toLayout.congr hl hf hn, ha.trans h.num⟩

/-- A node that has left both its lists is no longer counted. -/
theorem detached (h : Represents kind q L) (hn : n ∈ L.list)
    (hd : Layout kind (q.queueDeleteNode n) (L.remove n)) :
    Represents kind { q.queueDeleteNode n with numAttached := q.numAttached - 1 }
      (L.remove n) := by
  have hlen : (L.list.erase n).length = L.list.length - 1 := List.length_erase_of_mem hn
  have hpos : 0 < L.list.length := List.length_pos_of_mem hn
  refine ⟨hd.congr rfl (fun _ => rfl) rfl, ?_⟩
  have hnum := h.num
  simp only [Lists.remove, hlen]
  omega

theorem deleteNode (h : Represents kind q L) (hn : n ∈ L.on w) :
    Represents kind { q.queueDeleteNode n with numAttached := q.numAttached - 1 }
      (L.remove n) :=
  h.detached (h.sub hn) (h.toLayout.deleteNode hn)

theorem surfaceQueueDetach {f : Found} (h : Represents kind q L) {surface : Surface}
    (hf : L.lookup (fun n => (q.node n).surface = surface) = some (n, f)) :
    q.surfaceQueueDetach surface =
      some { q.queueDeleteNode n with numAttached := q.numAttached - 1 } := by
  unfold SurfaceQueue.surfaceQueueDetach
  rw [h.queueGetNode_eq, hf]
  rfl

/-- The shrinking loop between two iterations, with `k` nodes still to detach. -/
private structure Shrinking (kind : Kind) (q : SurfaceQueue) (L : Lists) (k : ℤ) (M : Lists)
    (s : SurfaceQueue) : Prop where
  represents : Represents kind s M
  dropFree : M.dropFree k.toNat = L
  node : ∀ k ∈ M.list, s.node k = q.node k
  settings : s.settings = q.settings
  linked : AllLinked q → AllLinked s

private theorem Shrinking.step {s : SurfaceQueue} {M : Lists} {k : ℤ} {a : ℕ} {as : List ℕ}
    (h : Shrinking kind q L k M s) (hk : 0 < k) (ha : M.on .free = a :: as) :
    ∃ s', SurfaceQueue.detachOne (detachNode kind.impl) a (k, s) =
        some (decide (k - 1 = 0), k - 1, s') ∧
      Shrinking kind q L (k - 1) (M.remove a) s' := by
  have hmem : a ∈ M.on .free := by simp [ha]
  have hfound : M.lookup (fun n => (s.node n).surface = (s.node a).surface) =
      some (a, .freeQueue) := by simp [Lists.lookup, ha]
  have hd := h.represents.surfaceQueueDetach hfound
  have hk' : k.toNat = (k - 1).toNat + 1 := by omega
  have hdrop := h.dropFree
  rw [hk', Lists.dropFree, ha] at hdrop
  have hset : { s.queueDeleteNode a with numAttached := s.numAttached - 1 }.settings =
      q.settings := by
    rw [SurfaceQueue.setNumAttached_settings, SurfaceQueue.queueDeleteNode_settings, h.settings]
  refine ⟨_, ?_, h.represents.deleteNode hmem, hdrop, fun j hj => ?_, hset, fun hl => ?_⟩
  · cases kind <;> simp [SurfaceQueue.detachOne, detachNode, Kind.impl, tbmQueueDefaultImpl,
      tbmQueueSequenceImpl, hd]
  · have hne : j ≠ a := fun e => (h.represents.toRegistry.nodup.mem_erase_iff.mp hj).1 e
    rw [← h.node j (List.mem_of_mem_erase hj)]
    simp [hne]
  · exact ((h.linked hl).deleteNode h.represents.toLayout hmem).setNumAttached _

theorem detachFree (h : Represents kind q L) {k : ℤ} (hk : 0 < k) :
    ∃ q', q.detachFree (detachNode kind.impl) k = some q' ∧
      Represents kind q' (L.dropFree k.toNat) ∧
      (∀ n ∈ (L.dropFree k.toNat).list, q'.node n = q.node n) ∧ q'.settings = q.settings ∧
      (AllLinked q → AllLinked q') := by
  obtain ⟨hpos, hstor⟩ := (h.rings .free kind.uses_free).forEachSafe_start
  obtain ⟨vs, t, he, j, M, hM, hj⟩ := Links.forEachSafe_spec
    (fun r : ℤ × SurfaceQueue => r.2.links.next) (fun r => r.2.itemEntry)
    (SurfaceQueue.detachOne (detachNode kind.impl)) Cell.item (.head .free)
    (fun as r => 0 < r.1 ∧ ∃ M, Shrinking kind q (L.dropFree k.toNat) r.1 M r.2 ∧
      M.on .free = as)
    (fun _ r => ∃ j M, Shrinking kind q (L.dropFree k.toNat) j M r.2 ∧ M.dropFree j.toNat = M)
    (fun a as r hI => by
      obtain ⟨-, M, hM, ha⟩ := hI
      have hx := hM.represents.rings .free kind.uses_free
      rw [ha] at hx
      exact ⟨by simp, hM.represents.itemEntry_eq (w := .free) (by simp [ha]), hx.next_first⟩)
    (fun a as r hI => by
      obtain ⟨hr, M, hM, ha⟩ := hI
      obtain ⟨s', hb, hs'⟩ := hM.step hr ha
      refine ⟨_, _, hb, ?_⟩
      by_cases hz : r.1 - 1 = 0
      · simp only [hz, decide_true, ↓reduceIte]
        exact ⟨0, M.remove a, hz ▸ hs', rfl⟩
      · simp only [hz, decide_false, Bool.false_eq_true, ↓reduceIte]
        refine ⟨⟨by omega, M.remove a, hs', by simp [Lists.remove, ha]⟩, fun _ _ hQ => hQ⟩)
    (fun r hI => by
      obtain ⟨-, M, hM, ha⟩ := hI
      exact ⟨r.1, M, hM, Lists.dropFree_nil ha _⟩)
    (h.length_lt_fuel .free) (s := (k, q))
    ⟨hk, L, ⟨h, rfl, fun _ _ => rfl, rfl, id⟩, rfl⟩ hstor
  have hMe : M = L.dropFree k.toNat := hj.symm.trans hM.dropFree
  rw [← hpos] at he
  exact ⟨t.2, by simp [SurfaceQueue.detachFree, he], hMe ▸ hM.represents, hMe ▸ hM.node,
    hM.settings, hM.linked⟩

end Represents

end Tbm.Queue
