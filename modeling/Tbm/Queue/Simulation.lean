import Tbm.Queue.Machine
import Tbm.Queue.Surfaces

/-! The default queue simulates the abstract machine over every run in which a surface is
attached once and the size is only lowered by a flush. -/
namespace Tbm.Queue

open Runs

/-- The calls of a simulated run: the queue is not destroyed and no call waits. -/
def Simulated : Op → Prop
  | .destroy => False
  | .canDequeue wait | .canAcquire wait => wait = 0
  | _ => True

instance : DecidablePred Simulated
  | .destroy => isFalse id
  | .canDequeue _ | .canAcquire _ => inferInstanceAs (Decidable (_ = _))
  | .dequeue | .enqueue _ | .acquire | .release _ | .reset _ _ _ | .flush | .setSize _ _
  | .setAllocCb _ _ => isTrue trivial

def Admissible (q : SurfaceQueue) (c : Op × AllocResult) : Prop :=
  Simulated c.1 ∧ q.KeepsSize c.1 ∧ q.Fresh c

instance (q : SurfaceQueue) (c : Op × AllocResult) : Decidable (Admissible q c) :=
  inferInstanceAs (Decidable (_ ∧ _ ∧ _))

namespace View

variable (v : View)

/-- The node is attached and on neither queue. -/
def Held (n : ℕ) : Prop := n ∈ v.list ∧ n ∉ v.on .free ∧ n ∉ v.on .dirty

end View

/-- The machine's state, read off the lists. -/
structure Abstracts (v : View) (m : Machine) : Prop where
  free : m.free = (v.on .free).map v.surf
  dirty : m.dirty = (v.on .dirty).map v.surf
  producer : ∀ s, s ∈ m.producer ↔ ∃ n, v.Held n ∧ (v.node n).type = .dequeue ∧ v.surf n = s
  consumer : ∀ s, s ∈ m.consumer ↔ ∃ n, v.Held n ∧ (v.node n).type = .acquire ∧ v.surf n = s
  freeType : ∀ n ∈ v.on .free, (v.node n).type = .none ∨ (v.node n).type = .release
  dirtyType : ∀ n ∈ v.on .dirty, (v.node n).type = .enqueue
  heldType : ∀ n, v.Held n → (v.node n).type = .dequeue ∨ (v.node n).type = .acquire
  inj : v.Distinct
  fits : v.list.length ≤ v.settings.queueSize
  size : m.size = v.settings.queueSize
  width : m.width = v.settings.width
  height : m.height = v.settings.height
  format : m.format = v.settings.format
  valid : v.settings.valid = true

namespace Abstracts

variable {q : SurfaceQueue} {v : View} {m : Machine} {n : ℕ} {s : Surface}

theorem mem_attached (h : Abstracts v m) (hq : Matches .default q v) :
    s ∈ m.attached ↔ ∃ n ∈ v.list, v.surf n = s := by
  unfold Machine.attached
  simp only [Finset.mem_union, List.mem_toFinset, h.free, h.dirty, h.producer, h.consumer,
    List.mem_map]
  constructor
  · rintro (((⟨n, hn, rfl⟩ | ⟨n, hn, rfl⟩) | ⟨n, hn, -, rfl⟩) | ⟨n, hn, -, rfl⟩)
    · exact ⟨n, hq.on_sub hn, rfl⟩
    · exact ⟨n, hq.on_sub hn, rfl⟩
    · exact ⟨n, hn.1, rfl⟩
    · exact ⟨n, hn.1, rfl⟩
  · rintro ⟨n, hn, rfl⟩
    by_cases hf : n ∈ v.on .free
    · exact .inl (.inl (.inl ⟨n, hf, rfl⟩))
    by_cases hd : n ∈ v.on .dirty
    · exact .inl (.inl (.inr ⟨n, hd, rfl⟩))
    rcases h.heldType n ⟨hn, hf, hd⟩ with ht | ht
    · exact .inl (.inr ⟨n, ⟨hn, hf, hd⟩, ht, rfl⟩)
    · exact .inr ⟨n, ⟨hn, hf, hd⟩, ht, rfl⟩

theorem card_attached (h : Abstracts v m) (hq : Matches .default q v) :
    m.attached.card = v.list.length := by
  have hset : m.attached = (v.list.map v.surf).toFinset := by
    ext s
    rw [h.mem_attached hq, List.mem_toFinset, List.mem_map]
  have hnd : (v.list.map v.surf).Nodup :=
    hq.toRegistry.nodup.map_on fun n hn k hk => h.inj n hn k hk
  rw [hset, List.toFinset_card_of_nodup hnd, List.length_map]

/-- The clients hold exactly the surfaces the search only finds on `list`. -/
theorem mem_held (h : Abstracts v m) (hq : Matches .default q v) :
    s ∈ m.held ↔ ∃ n, v.lookup s = some (n, .nodeList) := by
  unfold Machine.held
  rw [Finset.mem_union, h.producer, h.consumer]
  constructor
  · intro hs
    obtain ⟨n, hn, rfl⟩ : ∃ n, v.Held n ∧ v.surf n = s := by
      rcases hs with ⟨n, hn, -, hsurf⟩ | ⟨n, hn, -, hsurf⟩ <;> exact ⟨n, hn, hsurf⟩
    exact ⟨n, hq.lookup_of_distinct h.inj hn.1 hn.2.1 hn.2.2⟩
  · rintro ⟨n, hl⟩
    obtain ⟨hm, hs, hf, hd⟩ := Lists.lookup_nodeList hl
    have hs' : v.surf n = s := of_decide_eq_true hs
    rcases h.heldType n ⟨hm, hf, hd⟩ with ht | ht
    · exact .inl ⟨n, ⟨hm, hf, hd⟩, ht, hs'⟩
    · exact .inr ⟨n, ⟨hm, hf, hd⟩, ht, hs'⟩

end Abstracts

namespace Moves

variable {v v' : View} {m : Machine} {n : ℕ}

private theorem held (h : Moves v v' n) {k : ℕ} (hk : k ≠ n) : v'.Held k ↔ v.Held k := by
  unfold View.Held
  rw [h.list, h.on k hk, h.on k hk]

private theorem held_iff (h : Moves v v' n) (ha : Abstracts v m) (hn : n ∈ v.list) {t : NodeType}
    {s : Surface} :
    (∃ k, v'.Held k ∧ (v'.node k).type = t ∧ v'.surf k = s) ↔
      (s ≠ v.surf n ∧ ∃ k, v.Held k ∧ (v.node k).type = t ∧ v.surf k = s) ∨
        (v'.Held n ∧ (v'.node n).type = t ∧ s = v.surf n) := by
  constructor
  · rintro ⟨k, hk, ht, hs⟩
    rw [h.surf_eq] at hs
    by_cases e : k = n
    · rw [e] at hk ht hs
      exact .inr ⟨hk, ht, hs.symm⟩
    · have hold := (h.held e).mp hk
      rw [h.node k e] at ht
      refine .inl ⟨fun hsn => e ?_, k, hold, ht, hs⟩
      exact ha.inj k hold.1 n hn (hs.trans hsn)
  · rintro (⟨hne, k, hk, ht, hs⟩ | ⟨hn, ht, hs⟩)
    · have e : k ≠ n := by
        intro e
        rw [e] at hs
        exact hne hs.symm
      refine ⟨k, (h.held e).mpr hk, ?_, ?_⟩
      · rw [h.node k e]
        exact ht
      · rw [h.surf_eq]
        exact hs
    · refine ⟨n, hn, ht, ?_⟩
      rw [h.same]
      exact hs.symm

end Moves

namespace Abstracts

variable {q : SurfaceQueue} {v v' : View} {m m' : Machine} {n : ℕ} {x : AllocResult}

/-- The machine's state after a move, given where the node went. -/
private theorem moves (ha : Abstracts v m) (h : Moves v v' n) (hn : n ∈ v.list)
    (hfree : m'.free = (v'.on .free).map v.surf) (hdirty : m'.dirty = (v'.on .dirty).map v.surf)
    (hprod : ∀ s, s ∈ m'.producer ↔ (s ≠ v.surf n ∧ s ∈ m.producer) ∨
      (v'.Held n ∧ (v'.node n).type = .dequeue ∧ s = v.surf n))
    (hcons : ∀ s, s ∈ m'.consumer ↔ (s ≠ v.surf n ∧ s ∈ m.consumer) ∨
      (v'.Held n ∧ (v'.node n).type = .acquire ∧ s = v.surf n))
    (hft : ∀ k ∈ v'.on .free, (k ≠ n ∧ k ∈ v.on .free) ∨
      (k = n ∧ ((v'.node n).type = .none ∨ (v'.node n).type = .release)))
    (hdt : ∀ k ∈ v'.on .dirty, (k ≠ n ∧ k ∈ v.on .dirty) ∨ (k = n ∧ (v'.node n).type = .enqueue))
    (hht : v'.Held n → (v'.node n).type = .dequeue ∨ (v'.node n).type = .acquire)
    (hs : m'.size = m.size ∧ m'.width = m.width ∧ m'.height = m.height ∧ m'.format = m.format) :
    Abstracts v' m' where
  free := by
    rw [hfree]
    exact List.map_congr_left fun k _ => (h.surf_eq k).symm
  dirty := by
    rw [hdirty]
    exact List.map_congr_left fun k _ => (h.surf_eq k).symm
  producer := by
    intro s
    rw [hprod, h.held_iff ha hn, ha.producer]
  consumer := by
    intro s
    rw [hcons, h.held_iff ha hn, ha.consumer]
  freeType := by
    intro k hk
    rcases hft k hk with ⟨hne, hm⟩ | ⟨rfl, ht⟩
    · rw [h.node k hne]
      exact ha.freeType k hm
    · exact ht
  dirtyType := by
    intro k hk
    rcases hdt k hk with ⟨hne, hm⟩ | ⟨rfl, ht⟩
    · rw [h.node k hne]
      exact ha.dirtyType k hm
    · exact ht
  heldType := by
    intro k hk
    by_cases e : k = n
    · rw [e] at hk ⊢
      exact hht hk
    · rw [h.node k e]
      exact ha.heldType k ((h.held e).mp hk)
  inj := h.distinct ha.inj
  fits := by
    rw [h.list, h.settings]
    exact ha.fits
  size := by rw [hs.1, h.settings, ha.size]
  width := by rw [hs.2.1, h.settings, ha.width]
  height := by rw [hs.2.2.1, h.settings, ha.height]
  format := by rw [hs.2.2.2, h.settings, ha.format]
  valid := by
    rw [h.settings]
    exact ha.valid

/-- A surface the clients hold goes to the back of `dirty_queue`. -/
theorem toDirty (ha : Abstracts v m) (hn : v.Held n) :
    Abstracts ((v.push .dirty n).setType n .enqueue)
      { m.giveBack (v.surf n) with dirty := m.dirty ++ [v.surf n] } := by
  have hin : n ∈ ((v.push .dirty n).setType n .enqueue).on .dirty :=
    Lists.mem_push.mpr (.inr ⟨rfl, rfl⟩)
  have hout : ¬((v.push .dirty n).setType n .enqueue).Held n := fun h => h.2.2 hin
  have htype : (((v.push .dirty n).setType n .enqueue).node n).type = .enqueue := by
    simp [View.setType, View.setNode, View.push]
  refine ha.moves ((Moves.push v _ n).trans (.setType _ n _)) hn.1 ?_ ?_ ?_ ?_ ?_ ?_
    (fun h => absurd h hout) ⟨rfl, rfl, rfl, rfl⟩
  · exact ha.free
  · simp [ha.dirty, View.setType, View.setNode, View.push, View.on, Lists.push]
  · intro s
    simp [Machine.giveBack, hout]
  · intro s
    simp [Machine.giveBack, hout]
  · intro k hk
    exact .inl ⟨fun e => hn.2.1 (e ▸ hk), hk⟩
  · intro k hk
    rcases Lists.mem_push.mp hk with hk | ⟨rfl, -⟩
    · exact .inl ⟨fun e => hn.2.2 (e ▸ hk), hk⟩
    · exact .inr ⟨rfl, htype⟩

/-- A surface the clients hold goes to the back of `free_queue`. -/
theorem toFree (ha : Abstracts v m) (hn : v.Held n) :
    Abstracts ((v.push .free n).setType n .release)
      { m.giveBack (v.surf n) with free := m.free ++ [v.surf n] } := by
  have hin : n ∈ ((v.push .free n).setType n .release).on .free :=
    Lists.mem_push.mpr (.inr ⟨rfl, rfl⟩)
  have hout : ¬((v.push .free n).setType n .release).Held n := fun h => h.2.1 hin
  have htype : (((v.push .free n).setType n .release).node n).type = .release := by
    simp [View.setType, View.setNode, View.push]
  refine ha.moves ((Moves.push v _ n).trans (.setType _ n _)) hn.1 ?_ ?_ ?_ ?_ ?_ ?_
    (fun h => absurd h hout) ⟨rfl, rfl, rfl, rfl⟩
  · simp [ha.free, View.setType, View.setNode, View.push, View.on, Lists.push]
  · exact ha.dirty
  · intro s
    simp [Machine.giveBack, hout]
  · intro s
    simp [Machine.giveBack, hout]
  · intro k hk
    rcases Lists.mem_push.mp hk with hk | ⟨rfl, -⟩
    · exact .inl ⟨fun e => hn.2.1 (e ▸ hk), hk⟩
    · exact .inr ⟨rfl, .inr htype⟩
  · intro k hk
    exact .inl ⟨fun e => hn.2.2 (e ▸ hk), hk⟩

private theorem notMem_client (ha : Abstracts v m) (hq : Matches .default q v) {w : Fifo}
    (hw : w = .free ∨ w = .dirty) (hn : n ∈ v.on w) :
    v.surf n ∉ m.producer ∧ v.surf n ∉ m.consumer := by
  have hnot : ∀ k, v.Held k → v.surf k ≠ v.surf n := by
    intro k hk he
    rw [ha.inj k hk.1 n (hq.on_sub hn) he] at hk
    rcases hw with rfl | rfl
    · exact hk.2.1 hn
    · exact hk.2.2 hn
  rw [ha.producer, ha.consumer]
  exact ⟨fun ⟨k, hk, _, he⟩ => hnot k hk he, fun ⟨k, hk, _, he⟩ => hnot k hk he⟩

private theorem mem_insert_iff {A : Finset Surface} {a s : Surface} {P : Prop} (hP : P) :
    s ∈ insert a A ↔ (s ≠ a ∧ s ∈ A) ∨ (P ∧ s = a) := by
  by_cases e : s = a
  · simp [e, hP]
  · simp [e]

private theorem popped (hq : Matches .default q v) {w : Fifo} {ns : List ℕ} {t : NodeType}
    (hw : v.on w = n :: ns) :
    ((v.pop w n).setType n t).on w = ns ∧ n ∉ ns ∧ ∀ u, u ≠ w → n ∉ v.on u := by
  have hm : n ∈ v.on w := by simp [hw]
  have he : ((v.pop w n).setType n t).on w = (v.on w).erase n := by
    simp [View.setType, View.setNode, View.pop, View.on, Lists.pop]
  have hnd : (v.on w).Nodup := hq.toLayout.nodup w
  rw [hw] at hnd
  refine ⟨?_, (List.nodup_cons.mp hnd).1, fun u hu hn => hu (hq.apart hn hm)⟩
  rw [he, hw, List.erase_cons_head]

theorem toProducer (ha : Abstracts v m) (hq : Matches .default q v) {ns : List ℕ}
    (hf : v.on .free = n :: ns) :
    Abstracts ((v.pop .free n).setType n .dequeue)
      { m with free := ns.map v.surf, producer := insert (v.surf n) m.producer } := by
  obtain ⟨hnew, hns, hapart⟩ := popped hq hf (t := .dequeue)
  have hm : n ∈ v.on .free := by simp [hf]
  have hnd : n ∉ v.on .dirty := hapart .dirty (by simp)
  have hheld : ((v.pop .free n).setType n .dequeue).Held n :=
    ⟨hq.on_sub hm, by rwa [hnew], hnd⟩
  have htype : (((v.pop .free n).setType n .dequeue).node n).type = .dequeue := by
    simp [View.setType, View.setNode, View.pop]
  obtain ⟨-, hnc⟩ := ha.notMem_client hq (.inl rfl) hm
  refine ha.moves ((Moves.pop v _ n).trans (.setType _ n _)) (hq.on_sub hm) ?_ ?_ ?_ ?_ ?_ ?_
    (fun _ => .inl htype) ⟨rfl, rfl, rfl, rfl⟩
  · rw [hnew]
  · exact ha.dirty
  · intro s
    rw [mem_insert_iff (P := _ ∧ _) ⟨hheld, htype⟩, and_assoc]
  · intro s
    have hne : s ∈ m.consumer → s ≠ v.surf n := fun hs e => hnc (e ▸ hs)
    simp only [htype, reduceCtorEq, false_and, and_false, or_false]
    exact ⟨fun hs => ⟨hne hs, hs⟩, And.right⟩
  · intro k hk
    rw [hnew] at hk
    exact .inl ⟨fun e => hns (e ▸ hk), by simp [hf, hk]⟩
  · intro k hk
    exact .inl ⟨fun e => hnd (e ▸ hk), hk⟩

theorem toConsumer (ha : Abstracts v m) (hq : Matches .default q v) {ns : List ℕ}
    (hd : v.on .dirty = n :: ns) :
    Abstracts ((v.pop .dirty n).setType n .acquire)
      { m with dirty := ns.map v.surf, consumer := insert (v.surf n) m.consumer } := by
  obtain ⟨hnew, hns, hapart⟩ := popped hq hd (t := .acquire)
  have hm : n ∈ v.on .dirty := by simp [hd]
  have hnf : n ∉ v.on .free := hapart .free (by simp)
  have hheld : ((v.pop .dirty n).setType n .acquire).Held n :=
    ⟨hq.on_sub hm, hnf, by rwa [hnew]⟩
  have htype : (((v.pop .dirty n).setType n .acquire).node n).type = .acquire := by
    simp [View.setType, View.setNode, View.pop]
  obtain ⟨hnp, -⟩ := ha.notMem_client hq (.inr rfl) hm
  refine ha.moves ((Moves.pop v _ n).trans (.setType _ n _)) (hq.on_sub hm) ?_ ?_ ?_ ?_ ?_ ?_
    (fun _ => .inr htype) ⟨rfl, rfl, rfl, rfl⟩
  · exact ha.free
  · rw [hnew]
  · intro s
    have hne : s ∈ m.producer → s ≠ v.surf n := fun hs e => hnp (e ▸ hs)
    simp only [htype, reduceCtorEq, false_and, and_false, or_false]
    exact ⟨fun hs => ⟨hne hs, hs⟩, And.right⟩
  · intro s
    rw [mem_insert_iff (P := _ ∧ _) ⟨hheld, htype⟩, and_assoc]
  · intro k hk
    exact .inl ⟨fun e => hnf (e ▸ hk), hk⟩
  · intro k hk
    rw [hnew] at hk
    exact .inl ⟨fun e => hns (e ▸ hk), by simp [hd, hk]⟩

theorem of_empty (hl : v.lists = .empty) (hp : m.free = [] ∧ m.dirty = [])
    (hc : m.producer = ∅ ∧ m.consumer = ∅)
    (hs : m.size = v.settings.queueSize ∧ m.width = v.settings.width ∧
      m.height = v.settings.height ∧ m.format = v.settings.format)
    (hsize : 0 ≤ v.settings.queueSize) (hv : v.settings.valid = true) : Abstracts v m := by
  have hlist : v.list = [] := by rw [View.list, hl, Lists.empty]
  have hon : ∀ w, v.on w = [] := fun w => by rw [View.on, hl, Lists.empty]
  have hheld : ∀ n, ¬v.Held n := fun n hn => by simpa [hlist] using hn.1
  constructor
  · rw [hp.1, hon, List.map_nil]
  · rw [hp.2, hon, List.map_nil]
  · simp [hc.1, hheld]
  · simp [hc.2, hheld]
  · simp [hon]
  · simp [hon]
  · exact fun n hn => absurd hn (hheld n)
  · simp [View.Distinct, hlist]
  · rw [hlist]
    exact hsize
  · exact hs.1
  · exact hs.2.1
  · exact hs.2.2.1
  · exact hs.2.2.2
  · exact hv

/-- A surface that is not attached yet is allocated. -/
theorem addNode (ha : Abstracts v m) (hq : Matches .default q v) {s : Surface}
    (hnew : ∀ n ∈ v.list, v.surf n ≠ s) (hroom : v.list.length < v.settings.queueSize)
    (hf : v.on .free = []) : Abstracts (v.addNode s) { m with free := [s] } := by
  have hfree := v.addNode_free s hf
  have hdirty : (v.addNode s).on .dirty = v.on .dirty := v.addNode_on s (by simp)
  have hheld : ∀ k, (v.addNode s).Held k ↔ v.Held k := by
    intro k
    unfold View.Held
    rw [v.addNode_list, hfree, hdirty, hf]
    simp only [List.mem_append, List.mem_singleton, List.not_mem_nil, not_false_eq_true, true_and]
    constructor
    · rintro ⟨hk | hk, hne, hd⟩
      · exact ⟨hk, hd⟩
      · exact absurd hk hne
    · rintro ⟨hk, hd⟩
      exact ⟨.inl hk, hq.ne_nodes hk, hd⟩
  have hclient : ∀ t s', (∃ k, (v.addNode s).Held k ∧ ((v.addNode s).node k).type = t ∧
      (v.addNode s).surf k = s') ↔ ∃ k, v.Held k ∧ (v.node k).type = t ∧ v.surf k = s' := by
    intro t s'
    refine exists_congr fun k => ?_
    rw [hheld]
    refine and_congr_right fun hk => ?_
    rw [hq.addNode_surf s hk.1, hq.addNode_node s hk.1]
  constructor
  · rw [hfree, List.map_singleton, v.addNode_surf_new]
  · rw [hdirty, ha.dirty]
    exact List.map_congr_left fun k hk => (hq.addNode_surf s (hq.on_sub hk)).symm
  · intro s'
    rw [hclient, ha.producer]
  · intro s'
    rw [hclient, ha.consumer]
  · intro k hk
    rw [hfree, List.mem_singleton] at hk
    rw [hk]
    exact .inl (v.addNode_type_new s)
  · intro k hk
    rw [hdirty] at hk
    rw [hq.addNode_node s (hq.on_sub hk)]
    exact ha.dirtyType k hk
  · intro k hk
    have hk' := (hheld k).mp hk
    rw [hq.addNode_node s hk'.1]
    exact ha.heldType k hk'
  · exact hq.addNode_distinct ha.inj hnew
  · exact v.addNode_fits s hroom
  · exact ha.size
  · exact ha.width
  · exact ha.height
  · exact ha.format
  · exact ha.valid

theorem grow (ha : Abstracts v m) (hq : Matches .default q v) {c : Op × AllocResult}
    (hc : c.1 = .dequeue ∨ ∃ w, c.1 = .canDequeue w) (hfresh : q.Fresh c) :
    Abstracts (v.grow c.2) (m.grow c.2) := by
  have hcard := ha.card_attached hq
  have hsize := ha.size
  have hfree : m.free = [] ↔ v.on .free = [] := by rw [ha.free, List.map_eq_nil_iff]
  unfold View.grow View.attach Machine.grow
  by_cases hf : v.on .free = []
  · by_cases hfull : v.settings.queueSize = v.list.length
    · have hm : ¬(m.free = [] ∧ m.size ≠ m.attached.card) := by
        rw [hsize, hcard]
        exact fun h => h.2 hfull
      rw [if_pos hf, if_pos hfull, if_neg hm]
      exact ha
    · have hm : m.free = [] ∧ m.size ≠ m.attached.card := by
        rw [hsize, hcard]
        exact ⟨hfree.mpr hf, hfull⟩
      have hroom : v.list.length < v.settings.queueSize := by
        have hfit := ha.fits
        omega
      have hnew := fun s => hq.fresh_surface hc hfresh (s := s) hf hfull
      rw [if_pos hf, if_neg hfull, if_pos hm]
      rcases hx : c.2 with ⟨_ | s, _ | _⟩
      · exact ha
      · exact ha
      · exact ha
      · exact ha.addNode hq (hnew s hx) hroom hf
  · have hm : ¬(m.free = [] ∧ m.size ≠ m.attached.card) := fun h => hf (hfree.mp h.1)
    rw [if_neg hf, if_neg hm]
    exact ha

theorem dequeue (ha : Abstracts v m) (hq : Matches .default q v) {x : AllocResult}
    (hfresh : q.Fresh (.dequeue, x)) :
    (m.dequeue x).1 = .surface (v.dequeue .default x).1.1 (v.dequeue .default x).1.2 ∧
      Abstracts (v.dequeue .default x).2 (m.dequeue x).2 := by
  have hg := ha.grow hq (.inl rfl) hfresh
  have hqg := (hq.grow (c := True) x).follows
  unfold View.dequeue Machine.dequeue
  have hfree := hg.free
  cases hf : (v.grow x).on .free with
  | nil =>
    rw [hf] at hfree
    simp only [hfree, hf, List.map_nil]
    exact ⟨trivial, hg⟩
  | cons n ns =>
    rw [hf] at hfree
    simp only [hfree, hf, List.map_cons]
    exact ⟨rfl, hg.toProducer hqg hf⟩

theorem acquire (ha : Abstracts v m) (hq : Matches .default q v) :
    m.acquire.1 = .surface v.acquire.1.1 v.acquire.1.2 ∧ Abstracts v.acquire.2 m.acquire.2 := by
  unfold View.acquire Machine.acquire
  have hdirty := ha.dirty
  cases hd : v.on .dirty with
  | nil =>
    rw [hd] at hdirty
    simp only [hdirty, List.map_nil]
    exact ⟨trivial, ha⟩
  | cons n ns =>
    rw [hd] at hdirty
    simp only [hdirty, List.map_cons]
    exact ⟨rfl, ha.toConsumer hq hd⟩

private theorem lookup_other (ha : Abstracts v m) (hq : Matches .default q v) {s : Surface}
    (hs : s ∉ m.held) : ∀ n, v.lookup s ≠ some (n, .nodeList) := by
  intro n hl
  exact hs ((ha.mem_held hq).mpr ⟨n, hl⟩)

private theorem lookup_held {s : Surface} (hl : v.lookup s = some (n, .nodeList)) :
    v.Held n ∧ v.surf n = s := by
  obtain ⟨hm, hs, hf, hd⟩ := Lists.lookup_nodeList hl
  exact ⟨⟨hm, hf, hd⟩, of_decide_eq_true hs⟩

theorem enqueue (ha : Abstracts v m) (hq : Matches .default q v) (s : Surface) :
    (m.enqueue s).1 = .error (v.enqueue .default s).1 ∧
      Abstracts (v.enqueue .default s).2 (m.enqueue s).2 := by
  unfold View.enqueue Machine.enqueue
  by_cases hs : s ∈ m.held
  · obtain ⟨n, hl⟩ := (ha.mem_held hq).mp hs
    obtain ⟨hn, rfl⟩ := lookup_held hl
    rw [if_pos hs, hl]
    exact ⟨rfl, ha.toDirty hn⟩
  · have hne := lookup_other ha hq hs
    rw [if_neg hs]
    rcases hl : v.lookup s with _ | ⟨n, _ | _ | _⟩
    · exact ⟨rfl, ha⟩
    · exact ⟨rfl, ha⟩
    · exact ⟨rfl, ha⟩
    · exact absurd hl (hne n)

theorem release (ha : Abstracts v m) (hq : Matches .default q v) (s : Surface) :
    (m.release s).1 = .error (v.release s).1 ∧ Abstracts (v.release s).2 (m.release s).2 := by
  have hfit : ¬v.settings.queueSize < v.list.length := by
    have := ha.fits
    omega
  unfold View.release Machine.release
  by_cases hs : s ∈ m.held
  · obtain ⟨n, hl⟩ := (ha.mem_held hq).mp hs
    obtain ⟨hn, rfl⟩ := lookup_held hl
    rw [if_pos hs, hl]
    simp only [hfit, if_false]
    exact ⟨trivial, ha.toFree hn⟩
  · have hne := lookup_other ha hq hs
    rw [if_neg hs]
    rcases hl : v.lookup s with _ | ⟨n, _ | _ | _⟩
    · exact ⟨rfl, ha⟩
    · exact ⟨rfl, ha⟩
    · exact ⟨rfl, ha⟩
    · exact absurd hl (hne n)

theorem canDequeue (ha : Abstracts v m) (hq : Matches .default q v) {x : AllocResult}
    (hfresh : q.Fresh (.canDequeue 0, x)) :
    (if (m.grow x).free = [] then 0 else 1) = (v.canDequeue 0 x).1 ∧
      Abstracts (v.canDequeue 0 x).2 (m.grow x) := by
  have hg := ha.grow hq (.inr ⟨0, rfl⟩) hfresh
  have hfree : (m.grow x).free = [] ↔ (v.grow x).on .free = [] := by
    rw [hg.free, List.map_eq_nil_iff]
  unfold View.canDequeue
  by_cases hf : (v.grow x).on .free = []
  · simpa [hfree, hf] using hg
  · simpa [hfree, hf] using hg

theorem canAcquire (ha : Abstracts v m) : (if m.dirty = [] then 0 else 1) = v.canAcquire 0 := by
  have hdirty : m.dirty = [] ↔ v.on .dirty = [] := by rw [ha.dirty, List.map_eq_nil_iff]
  unfold View.canAcquire
  by_cases hd : v.on .dirty = []
  · simp [hdirty, hd]
  · simp [hdirty, hd]

private theorem clear_of_nil (ha : Abstracts v m) (hq : Matches .default q v) (hl : v.list = []) :
    m.clear = m := by
  have hall : ∀ s, s ∉ m.attached := by
    intro s
    rw [ha.mem_attached hq, hl]
    simp
  have he : m.attached = ∅ := Finset.eq_empty_of_forall_notMem hall
  unfold Machine.attached at he
  simp only [Finset.union_eq_empty, List.toFinset_eq_empty_iff] at he
  obtain ⟨⟨⟨hf, hd⟩, hp⟩, hc⟩ := he
  obtain ⟨free, dirty, producer, consumer, size, width, height, format⟩ := m
  simp only at hf hd hp hc
  rw [hf, hd, hp, hc]
  rfl

private theorem size_nonneg (ha : Abstracts v m) : 0 ≤ v.settings.queueSize :=
  (Int.natCast_nonneg _).trans ha.fits

theorem flush (ha : Abstracts v m) (hq : Matches .default q v) : Abstracts v.flush m.clear := by
  unfold View.flush
  by_cases hl : v.list = []
  · rw [if_pos hl, ha.clear_of_nil hq hl]
    exact ha
  · rw [if_neg hl]
    exact of_empty rfl ⟨rfl, rfl⟩ ⟨rfl, rfl⟩ ⟨ha.size, ha.width, ha.height, ha.format⟩
      ha.size_nonneg ha.valid

theorem reset (ha : Abstracts v m) (width height format : ℤ) :
    (m.step (.reset width height format, x)).1 = .error .none ∧
      Abstracts (v.reset width height format) (m.step (.reset width height format, x)).2 := by
  unfold View.reset Machine.step
  simp only [ha.width, ha.height, ha.format]
  by_cases hsame : width = v.settings.width ∧ height = v.settings.height ∧
      format = v.settings.format
  · rw [if_pos hsame, if_pos hsame]
    exact ⟨rfl, ha⟩
  · rw [if_neg hsame, if_neg hsame]
    exact ⟨rfl, of_empty rfl ⟨rfl, rfl⟩ ⟨rfl, rfl⟩ ⟨ha.size, rfl, rfl, rfl⟩ ha.size_nonneg ha.valid⟩

private theorem resized (ha : Abstracts v m) {n : ℤ} (hn : v.settings.queueSize ≤ n) :
    Abstracts { v with settings := { v.settings with queueSize := n } } { m with size := n } :=
  { ha with
    fits := ha.fits.trans hn
    size := rfl }

theorem setSize (ha : Abstracts v m) (hq : Matches .default q v) {n : ℤ} {flush : Bool}
    (hs : q.KeepsSize (.setSize n flush)) :
    (m.setSize n flush).1 = .error (v.setSize n flush).1 ∧
      Abstracts (v.setSize n flush).2 (m.setSize n flush).2 := by
  unfold View.setSize Machine.setSize
  by_cases hn : n ≤ 0
  · rw [if_pos hn, if_pos hn]
    exact ⟨rfl, ha⟩
  rw [if_neg hn, if_neg hn]
  cases flush with
  | true =>
    simp only [Bool.true_eq_false, and_false, if_false, if_true]
    exact ⟨trivial, of_empty rfl ⟨rfl, rfl⟩ ⟨rfl, rfl⟩ ⟨rfl, ha.width, ha.height, ha.format⟩
      (not_le.mp hn).le ha.valid⟩
  | false =>
    have hle : v.settings.queueSize ≤ n := by
      rw [← hq.queueSize]
      exact hs rfl (not_le.mp hn)
    by_cases hsame : v.settings.queueSize = n
    · have hm : { m with size := n } = m := by rw [← hsame, ← ha.size]
      simp only [hsame, and_self, if_true, hm, Bool.false_eq_true, if_false]
      exact ⟨trivial, ha⟩
    · have hk : (v.settings.queueSize - n).toNat = 0 := by omega
      simp only [hsame, false_and, if_false, Bool.false_eq_true, hk, Lists.dropFree]
      exact ⟨trivial, ha.resized hle⟩

theorem liveStep (ha : Abstracts v m) (hq : Matches .default q v) {c : Op × AllocResult}
    (hc : Admissible q c) :
    (m.step c).1 = (v.liveStep .default c.1 c.2).1 ∧
      Abstracts (v.liveStep .default c.1 c.2).2 (m.step c).2 := by
  obtain ⟨op, x⟩ := c
  obtain ⟨hop, hsize, hfresh⟩ := hc
  cases op with
  | dequeue => exact ha.dequeue hq hfresh
  | enqueue surface =>
    cases surface with
    | none => exact ⟨rfl, ha⟩
    | some s => exact ha.enqueue hq s
  | acquire => exact ha.acquire hq
  | release surface =>
    cases surface with
    | none => exact ⟨rfl, ha⟩
    | some s => exact ha.release hq s
  | canDequeue wait =>
    obtain rfl : wait = 0 := hop
    obtain ⟨hr, hab⟩ := ha.canDequeue hq hfresh
    exact ⟨congrArg Reply.answer hr, hab⟩
  | canAcquire wait =>
    obtain rfl : wait = 0 := hop
    exact ⟨congrArg Reply.answer ha.canAcquire, ha⟩
  | reset width height format => exact ha.reset width height format
  | flush => exact ⟨rfl, ha.flush hq⟩
  | setSize n flush => exact ha.setSize hq hsize
  | setAllocCb allocCb freeCb => exact ⟨rfl, { ha with }⟩
  | destroy => exact hop.elim

end Abstracts

/-- The link-level state realises the machine: the two queues hold its lists in order, every
attached surface is in exactly one place, and its node type agrees with that place. -/
structure Realises (q : SurfaceQueue) (m : Machine) : Prop where
  free : (q.nodesOn .default .free).map (fun n => (q.node n).surface) = m.free
  dirty : (q.nodesOn .default .dirty).map (fun n => (q.node n).surface) = m.dirty
  attached : ∀ s, s ∈ m.attached ↔ ∃ n ∈ q.attached, (q.node n).surface = s
  place : ∀ n ∈ q.attached, ∃! p, (q.node n).surface ∈ m.place p
  agrees : ∀ n ∈ q.attached, ∀ p, (q.node n).surface ∈ m.place p → p.agrees (q.node n).type
  num : q.numAttached = m.attached.card

namespace Abstracts

variable {q : SurfaceQueue} {v : View} {m : Machine} {n : ℕ}

private theorem mem_place_iff (ha : Abstracts v m) (hq : Matches .default q v) (hn : n ∈ v.list)
    (p : Place) : v.surf n ∈ m.place p ↔
      match p with
      | .free => n ∈ v.on .free
      | .dirty => n ∈ v.on .dirty
      | .producer => v.Held n ∧ (v.node n).type = .dequeue
      | .consumer => v.Held n ∧ (v.node n).type = .acquire := by
  have honly : ∀ {w k}, k ∈ v.on w → v.surf k = v.surf n → k = n := fun hk he =>
    ha.inj _ (hq.on_sub hk) n hn he
  cases p with
  | free =>
    simp only [Machine.place, ha.free, List.mem_toFinset, List.mem_map]
    exact ⟨fun ⟨k, hk, he⟩ => honly hk he ▸ hk, fun h => ⟨n, h, rfl⟩⟩
  | dirty =>
    simp only [Machine.place, ha.dirty, List.mem_toFinset, List.mem_map]
    exact ⟨fun ⟨k, hk, he⟩ => honly hk he ▸ hk, fun h => ⟨n, h, rfl⟩⟩
  | producer =>
    simp only [Machine.place, ha.producer]
    exact ⟨fun ⟨k, hk, ht, he⟩ => ha.inj k hk.1 n hn he ▸ ⟨hk, ht⟩, fun h => ⟨n, h.1, h.2, rfl⟩⟩
  | consumer =>
    simp only [Machine.place, ha.consumer]
    exact ⟨fun ⟨k, hk, ht, he⟩ => ha.inj k hk.1 n hn he ▸ ⟨hk, ht⟩, fun h => ⟨n, h.1, h.2, rfl⟩⟩

private theorem existsUnique_place (ha : Abstracts v m) (hq : Matches .default q v)
    (hn : n ∈ v.list) : ∃! p, v.surf n ∈ m.place p := by
  simp only [ha.mem_place_iff hq hn]
  by_cases hf : n ∈ v.on .free
  · have hd : n ∉ v.on .dirty := fun hd => by simpa using hq.apart hf hd
    refine ⟨.free, hf, fun p hp => ?_⟩
    cases p with
    | free => rfl
    | dirty => exact absurd hp hd
    | producer => exact absurd hf hp.1.2.1
    | consumer => exact absurd hf hp.1.2.1
  by_cases hd : n ∈ v.on .dirty
  · refine ⟨.dirty, hd, fun p hp => ?_⟩
    cases p with
    | free => exact absurd hp hf
    | dirty => rfl
    | producer => exact absurd hd hp.1.2.2
    | consumer => exact absurd hd hp.1.2.2
  rcases ha.heldType n ⟨hn, hf, hd⟩ with ht | ht
  · refine ⟨.producer, ⟨⟨hn, hf, hd⟩, ht⟩, fun p hp => ?_⟩
    cases p with
    | free => exact absurd hp hf
    | dirty => exact absurd hp hd
    | producer => rfl
    | consumer => simp [ht] at hp
  · refine ⟨.consumer, ⟨⟨hn, hf, hd⟩, ht⟩, fun p hp => ?_⟩
    cases p with
    | free => exact absurd hp hf
    | dirty => exact absurd hp hd
    | producer => simp [ht] at hp
    | consumer => rfl

/-- The size is never exceeded, so every release keeps its node. -/
theorem allows {op : Op} (ha : Abstracts v m) (hq : Matches .default q v) :
    Tracks.Allows v op := by
  intro _
  unfold View.Sound
  split
  · intro n _
    have hd : v.on .dequeue = [] := hq.unused .dequeue rfl
    have hfit := ha.fits
    rw [hd]
    simp only [List.not_mem_nil, false_iff, not_lt]
    exact hfit
  · trivial

theorem realises (ha : Abstracts v m) (hq : Matches .default q v) : Realises q m := by
  have hnode : ∀ n ∈ v.list, (q.node n).surface = v.surf n := fun n hn => by
    rw [hq.node n hn]
    rfl
  have hmap : ∀ w, (q.nodesOn .default w).map (fun n => (q.node n).surface) =
      (v.on w).map v.surf := by
    intro w
    rw [hq.nodesOn_eq]
    exact List.map_congr_left fun n hn => hnode n (hq.on_sub hn)
  constructor
  · rw [hmap, ha.free]
  · rw [hmap, ha.dirty]
  · intro s
    rw [ha.mem_attached hq, hq.attached_eq]
    exact exists_congr fun n => and_congr_right fun hn => by rw [hnode n hn]
  · intro n hn
    rw [hq.attached_eq] at hn
    rw [hnode n hn]
    exact ha.existsUnique_place hq hn
  · intro n hn p hp
    rw [hq.attached_eq] at hn
    rw [hnode n hn, ha.mem_place_iff hq hn] at hp
    rw [hq.node n hn]
    cases p with
    | free => exact ha.freeType n hp
    | dirty => exact ha.dirtyType n hp
    | producer => exact hp.2
    | consumer => exact hp.2
  · rw [ha.card_attached hq, hq.numAttached]

end Abstracts

namespace Abstracts

variable {q q' : SurfaceQueue} {v : View} {m : Machine} {c : Op × AllocResult}

private theorem dirty_of_clears (ha : Abstracts v m) (hq : Matches .default q v)
    (hop : Simulated c.1) (hclear : q.Clears c.1) : (m.step c).2.dirty = [] := by
  obtain ⟨op, x⟩ := c
  have hclear' := hq.clears_iff.mp hclear
  cases op with
  | reset width height format =>
    unfold Machine.step
    simp only [ha.width, ha.height, ha.format]
    rw [if_neg hclear']
    rfl
  | flush => rfl
  | setSize n flush =>
    obtain ⟨hn, rfl⟩ := hclear
    have hn' : ¬n ≤ 0 := not_le.mpr hn
    simp [Machine.step, Machine.setSize, hn', Machine.clear]
  | destroy => exact hop.elim
  | dequeue | enqueue | acquire | release | canDequeue | canAcquire | setAllocCb =>
    exact hclear.elim

private theorem grow_dirty (m : Machine) (x : AllocResult) : (m.grow x).dirty = m.dirty := by
  unfold Machine.grow
  split_ifs
  · split <;> rfl
  · rfl

/-- What a call that clears nothing adds to the enqueued and to the acquired surfaces. -/
private theorem fifo_of_not_clears (ha : Abstracts v m) (hq : Matches .default q v)
    (hclear : ¬q.Clears c.1) :
    m.dirty ++ (LogEntry.enqueued ⟨q, c, (m.step c).1, q'⟩).toList =
      (LogEntry.acquired ⟨q, c, (m.step c).1, q'⟩).toList ++ (m.step c).2.dirty := by
  obtain ⟨op, x⟩ := c
  cases op with
  | dequeue =>
    simp only [Machine.step, Machine.dequeue]
    cases (m.grow x).free <;> simp [LogEntry.enqueued, LogEntry.acquired, grow_dirty]
  | enqueue surface =>
    cases surface with
    | none => simp [Machine.step, LogEntry.enqueued, LogEntry.acquired]
    | some s =>
      by_cases hs : s ∈ m.held <;>
        simp [Machine.step, Machine.enqueue, hs, LogEntry.enqueued, LogEntry.acquired]
  | acquire =>
    simp only [Machine.step, Machine.acquire]
    cases hd : m.dirty <;> simp [LogEntry.enqueued, LogEntry.acquired, hd]
  | release surface =>
    cases surface with
    | none => simp [Machine.step, LogEntry.enqueued, LogEntry.acquired]
    | some s =>
      by_cases hs : s ∈ m.held <;> simp [Machine.step, Machine.release, hs, LogEntry.enqueued,
        LogEntry.acquired, Machine.giveBack]
  | canDequeue wait => simp [Machine.step, LogEntry.enqueued, LogEntry.acquired, grow_dirty]
  | canAcquire wait => simp [Machine.step, LogEntry.enqueued, LogEntry.acquired]
  | reset width height format =>
    have hsame : width = m.width ∧ height = m.height ∧ format = m.format := by
      rw [ha.width, ha.height, ha.format]
      by_contra h
      exact hclear (hq.clears_iff.mpr h)
    simp [Machine.step, hsame, LogEntry.enqueued, LogEntry.acquired]
  | flush =>
    have hl : v.list = [] := by
      by_contra h
      exact hclear (hq.clears_iff.mpr h)
    simp [Machine.step, ha.clear_of_nil hq hl, LogEntry.enqueued, LogEntry.acquired]
  | setSize n flush =>
    by_cases hn : n ≤ 0
    · simp [Machine.step, Machine.setSize, hn, LogEntry.enqueued, LogEntry.acquired]
    · cases flush with
      | true => exact absurd ⟨not_le.mp hn, rfl⟩ hclear
      | false => simp [Machine.step, Machine.setSize, hn, LogEntry.enqueued, LogEntry.acquired]
  | setAllocCb allocCb freeCb => simp [Machine.step, LogEntry.enqueued, LogEntry.acquired]
  | destroy => exact absurd trivial hclear

/-- The machine acquires in the order of the enqueues. -/
theorem fifo {log : Log} (ha : Abstracts v m) (hq : Matches .default q v) (hc : Admissible q c)
    (hl : log.enqueued = log.acquired ++ m.dirty) :
    Log.enqueued (log ++ [⟨q, c, (m.step c).1, q'⟩]) =
      Log.acquired (log ++ [⟨q, c, (m.step c).1, q'⟩]) ++ (m.step c).2.dirty := by
  have hv : q.valid = true :=
    (congrArg SurfaceQueue.Settings.valid hq.settings).trans ha.valid
  unfold Log.enqueued Log.acquired at hl ⊢
  rw [Log.filterMap_concat, Log.filterMap_concat]
  by_cases hclear : q.Clears c.1
  · have hcl : LogEntry.Cleared ⟨q, c, (m.step c).1, q'⟩ := ⟨hv, hclear⟩
    rw [if_pos hcl, if_pos hcl, ha.dirty_of_clears hq hc.1 hclear]
    rfl
  · have hcl : ¬LogEntry.Cleared ⟨q, c, (m.step c).1, q'⟩ := fun h => hclear h.2
    rw [if_neg hcl, if_neg hcl, hl, List.append_assoc, List.append_assoc,
      ha.fifo_of_not_clears hq hclear]

end Abstracts

variable {queueSize width height format flags : ℤ} {q : SurfaceQueue}

/-- Over every admissible run the default queue gives the machine's replies and realises its
states, and surfaces are acquired in the order they were enqueued. -/
theorem default_queue_refines {cs : List (Op × AllocResult)}
    (hc : tbmSurfaceQueueCreate queueSize width height format flags = some q)
    (hp : Permitted (step .default) Admissible cs q) :
    ∃ log q' m, run (step .default) cs q = some (log, q') ∧
      replay (fun c m => Machine.step m c) cs (.init queueSize width height format) =
        (log.map Entry.reply, m) ∧
      Realises q' m ∧ Log.enqueued log = Log.acquired log ++ m.dirty := by
  have hm : Matches .default q _ := create_matches hc
  have hpos : 0 < queueSize := by
    unfold tbmSurfaceQueueCreate surfaceQueueNew at hc
    by_contra hn
    simp [hn] at hc
  have hstart : Abstracts (.init queueSize width height format flags)
      (.init queueSize width height format) :=
    .of_empty rfl ⟨rfl, rfl⟩ ⟨rfl, rfl⟩ ⟨rfl, rfl, rfl, rfl⟩ hpos.le rfl
  obtain ⟨log, q', hr, m, v, hrep, hv, ha, hl⟩ := run_total
    (fun log q => ∃ m v, replay (fun c m => Machine.step m c) (log.map Entry.call)
      (.init queueSize width height format) = (log.map Entry.reply, m) ∧
      Matches .default q v ∧ Abstracts v m ∧ Log.enqueued log = Log.acquired log ++ m.dirty)
    ⟨_, _, rfl, hm, hstart, rfl⟩ (by
      rintro log q c ⟨m, v, hrep, hv, ha, hl⟩ hok
      obtain ⟨hreply, hab⟩ := ha.liveStep hv hok
      obtain ⟨q', he, ht, -⟩ := (Tracks.mk hv.settings fun _ => hv).call (ha.allows hv) c.2
      rw [View.step, if_pos ha.valid, ← hreply] at he
      rw [View.step, if_pos ha.valid] at ht
      refine ⟨_, q', he, _, _, ?_, ht.live hab.valid, hab, ha.fifo hv hok hl⟩
      rw [List.map_append, List.map_append, List.map_singleton, List.map_singleton,
        replay_concat, hrep]) hp
  refine ⟨log, q', m, hr, ?_, ha.realises hv, hl⟩
  rw [← run_calls hr]
  exact hrep

theorem default_queue_refines_cycle : ∃ log q q' m,
    tbmSurfaceQueueCreate 2 4 4 1 0 = some q ∧
    run (step .default) [allocating .dequeue 7, allocating .dequeue 8, quiet (.enqueue (some 8)),
      quiet (.enqueue (some 9)), quiet (.enqueue (some 7)), quiet .acquire,
      quiet (.release (some 8)), quiet (.setSize 3 false), quiet (.canAcquire 0),
      quiet (.reset 8 8 1)] q = some (log, q') ∧
    replay (fun c m => Machine.step m c) [allocating .dequeue 7, allocating .dequeue 8,
      quiet (.enqueue (some 8)), quiet (.enqueue (some 9)), quiet (.enqueue (some 7)),
      quiet .acquire, quiet (.release (some 8)), quiet (.setSize 3 false), quiet (.canAcquire 0),
      quiet (.reset 8 8 1)] (.init 2 4 4 1) = (log.map Entry.reply, m) ∧
    Realises q' m ∧ Log.enqueued log = Log.acquired log ++ m.dirty := by
  have hc : tbmSurfaceQueueCreate 2 4 4 1 0 = some _ := rfl
  obtain ⟨log, q', m, h⟩ := default_queue_refines hc (by decide +kernel : Permitted _ _
    [allocating .dequeue 7, allocating .dequeue 8, quiet (.enqueue (some 8)),
      quiet (.enqueue (some 9)), quiet (.enqueue (some 7)), quiet .acquire,
      quiet (.release (some 8)), quiet (.setSize 3 false), quiet (.canAcquire 0),
      quiet (.reset 8 8 1)] _)
  exact ⟨log, _, q', m, hc, h⟩

end Tbm.Queue
