import Tbm.Queue.Operations
import Mathlib.Data.Finset.Card
import Mathlib.Data.Finset.Range

/-! Which nodes sit on which list. `Registry` describes `list` alone and survives every
operation; `Layout` adds the three item lists and needs every unlinked node to be linked. -/
namespace Tbm.Queue

/-- The cells of the item lists, as opposed to those of `list`. -/
def Cell.isItem : Cell → Bool
  | .head _ | .item _ => true
  | .list | .link _ => false

/-- No link leads from the item lists to `list` or back, stale links included. -/
def Kinded (m : Links Cell) : Prop :=
  ∀ c, (m.next c).isItem = c.isItem ∧ (m.prev c).isItem = c.isItem

/-- The nodes on `list` are `A`, and these are the nodes that have not been freed. -/
structure Registry (q : SurfaceQueue) (A : List ℕ) : Prop where
  kinded : Kinded q.links
  ring : q.links.Ring .list (A.map .link)
  live : ∀ n, (q.node n).freed = false ↔ n ∈ A
  bound : ∀ n ∈ A, n < q.nodes

/-- The nodes on each item list and on `list`. -/
@[ext] structure Lists where
  on : Fifo → List ℕ
  list : List ℕ

namespace Lists

def push (L : Lists) (w : Fifo) (n : ℕ) : Lists :=
  { L with on := Function.update L.on w (L.on w ++ [n]) }

def pop (L : Lists) (w : Fifo) (n : ℕ) : Lists :=
  { L with on := Function.update L.on w ((L.on w).erase n) }

def attach (L : Lists) (n : ℕ) : Lists := { L with list := L.list ++ [n] }

def remove (L : Lists) (n : ℕ) : Lists :=
  { on := fun w => (L.on w).erase n, list := L.list.erase n }

def empty : Lists := { on := fun _ => [], list := [] }

theorem mem_push {L : Lists} {w v : Fifo} {n k : ℕ} :
    k ∈ (L.push w n).on v ↔ k ∈ L.on v ∨ k = n ∧ v = w := by
  by_cases e : v = w
  · subst e
    simp [push]
  · simp [push, e]

theorem mem_of_mem_pop (L : Lists) {w v : Fifo} {n k : ℕ} (hk : k ∈ (L.pop w n).on v) :
    k ∈ L.on v := by
  by_cases e : v = w
  · subst e
    exact List.mem_of_mem_erase (by simpa [pop] using hk)
  · simpa [pop, e] using hk

/-- The three searches of `_queue_get_node`, in their order. -/
def lookup (L : Lists) (p : ℕ → Bool) : Option (ℕ × Found) :=
  match (L.on .free).find? p with
  | some n => some (n, .freeQueue)
  | none =>
    match (L.on .dirty).find? p with
    | some n => some (n, .dirtyQueue)
    | none => (L.list.find? p).map (·, .nodeList)

theorem lookup_nodeList {L : Lists} {p : ℕ → Bool} {n : ℕ} :
    L.lookup p = some (n, .nodeList) →
      n ∈ L.list ∧ p n = true ∧ n ∉ L.on .free ∧ n ∉ L.on .dirty := by
  unfold lookup
  intro h
  split at h
  · simp at h
  · rename_i hf
    split at h
    · simp at h
    · rename_i hd
      obtain ⟨m, hm, hmn⟩ := Option.map_eq_some_iff.mp h
      obtain rfl : m = n := (Prod.mk.inj hmn).1
      have hp : p m = true := List.find?_some hm
      refine ⟨List.mem_of_find?_eq_some hm, hp, fun hx => ?_, fun hx => ?_⟩
      · exact List.find?_eq_none.mp hf m hx hp
      · exact List.find?_eq_none.mp hd m hx hp

/-- The node is attached but on none of the item lists. -/
def HandedOut (L : Lists) (n : ℕ) : Prop := n ∈ L.list ∧ ∀ w, n ∉ L.on w

/-- A node that is only found on `list` is handed out unless it is on `dequeue_list`. -/
theorem handedOut_of_lookup {L : Lists} {p : ℕ → Bool} {n : ℕ}
    (hl : L.lookup p = some (n, .nodeList)) (hd : n ∉ L.on .dequeue) : L.HandedOut n := by
  obtain ⟨hm, -, hf, hdirty⟩ := lookup_nodeList hl
  refine ⟨hm, fun w => ?_⟩
  cases w with
  | free => exact hf
  | dirty => exact hdirty
  | dequeue => exact hd

end Lists

/-- The default implementation has no `dequeue_list`. -/
def Kind.uses : Kind → Fifo → Bool
  | .default, .dequeue => false
  | _, _ => true

theorem Kind.uses_free (kind : Kind) : kind.uses .free = true := by cases kind <;> rfl

theorem Kind.uses_dirty (kind : Kind) : kind.uses .dirty = true := by cases kind <;> rfl

structure Layout (kind : Kind) (q : SurfaceQueue) (L : Lists) : Prop
    extends Registry q L.list where
  rings : ∀ w, kind.uses w → q.links.Ring (.head w) ((L.on w).map .item)
  unused : ∀ w, kind.uses w = false → L.on w = []
  apart : ∀ {w w' n}, n ∈ L.on w → n ∈ L.on w' → w = w'
  sub : ∀ {w n}, n ∈ L.on w → n ∈ L.list

private theorem item_injective : Function.Injective Cell.item := fun _ _ h => Cell.item.inj h

private theorem link_injective : Function.Injective Cell.link := fun _ _ h => Cell.link.inj h

private theorem length_lt_fuel {ns : List ℕ} {k : ℕ} (hn : ns.Nodup) (hb : ∀ n ∈ ns, n < k) :
    ns.length < k + 1 := by
  have hc := Finset.card_le_card (fun n hm => by
    simpa using hb n (by simpa using hm) : ns.toFinset ⊆ Finset.range k)
  rw [List.toFinset_card_of_nodup hn, Finset.card_range] at hc
  omega

private theorem ne_of_isItem {a b : Cell} (ha : a.isItem = false) (hb : b.isItem = true) :
    a ≠ b := by
  rintro rfl
  simp [ha] at hb

namespace Kinded

variable {m : Links Cell}

theorem inithead (h : Kinded m) {c : Cell} : Kinded (m.inithead c) := by
  intro d
  have hd := h d
  by_cases e : d = c <;> simp [e, hd]

theorem addtail (h : Kinded m) {c l : Cell} (hcl : c.isItem = l.isItem) :
    Kinded (m.addtail c l) := by
  intro d
  have hl := h l
  have hd := h d
  constructor
  · rw [Links.addtail_next]
    split_ifs with e e'
    · rw [e, hl.2, hcl]
    · rw [e', hcl]
    · exact hd.1
  · rw [Links.addtail_prev]
    split_ifs with e e'
    · rw [e, hcl]
    · rw [e', hl.2, hcl]
    · exact hd.2

theorem del (h : Kinded m) {c : Cell} : Kinded (m.del c) := by
  intro d
  have hc := h c
  have hd := h d
  constructor
  · rw [Links.del_next]
    split_ifs with e
    · rw [e, hc.1, hc.2]
    · exact hd.1
  · rw [Links.del_prev]
    split_ifs with e
    · rw [e, hc.1, hc.2]
    · exact hd.2

end Kinded

namespace Registry

variable {q q' : SurfaceQueue} {A : List ℕ}

theorem nodup (h : Registry q A) : A.Nodup := List.Nodup.of_map _ h.ring.list_nodup

theorem linkEntry_eq (h : Registry q A) {n : ℕ} (hn : n ∈ A) :
    q.linkEntry (.link n) = some n := by
  have hf := (h.live n).mpr hn
  simp [SurfaceQueue.linkEntry, hf]

theorem length_lt_fuel (h : Registry q A) : A.length < q.fuel :=
  Tbm.Queue.length_lt_fuel h.nodup h.bound

theorem listNodes_eq (h : Registry q A) : q.listNodes = some A :=
  h.ring.entries_eq (fun _ hn => h.linkEntry_eq hn) h.length_lt_fuel

/-- The registry only depends on the cells of `list`, the freed nodes and their number. -/
theorem congr (h : Registry q A) (hk : Kinded q'.links)
    (hl : ∀ c, c.isItem = false → q'.links.next c = q.links.next c ∧
      q'.links.prev c = q.links.prev c)
    (hf : ∀ n, (q'.node n).freed = (q.node n).freed) (hn : q'.nodes = q.nodes) :
    Registry q' A := by
  refine ⟨hk, h.ring.congr fun c hc => hl c ?_, fun n => by rw [hf, h.live], ?_⟩
  · simp only [List.mem_cons, List.mem_map] at hc
    rcases hc with rfl | ⟨n, -, rfl⟩ <;> rfl
  · rw [hn]
    exact h.bound

theorem setNode (h : Registry q A) {n : ℕ} {v : Node} (hv : v.freed = (q.node n).freed) :
    Registry (q.setNode n v) A := by
  refine h.congr h.kinded (fun _ _ => ⟨rfl, rfl⟩) (fun k => ?_) rfl
  by_cases hk : k = n
  · subst hk
    simp [SurfaceQueue.setNode, hv]
  · simp [SurfaceQueue.setNode, hk]

theorem pushBack (h : Registry q A) (w : Fifo) (n : ℕ) :
    Registry (q.queueNodePushBack w n) A := by
  have hk : Kinded (q.links.addtail (.item n) (.head w)) := h.kinded.addtail rfl
  refine h.congr hk (fun c hc => ?_) (fun _ => rfl) rfl
  have hp : c ≠ q.links.prev (.head w) := ne_of_isItem hc (h.kinded _).2
  have hi : c ≠ .item n := ne_of_isItem hc rfl
  have hh : c ≠ .head w := ne_of_isItem hc rfl
  simp [SurfaceQueue.queueNodePushBack, hp, hi, hh]

/-- `LIST_DEL` of an item link may damage the item lists, never `list`. -/
theorem delItem (h : Registry q A) (n : ℕ) : Registry (q.listDel (.item n)) A := by
  refine h.congr h.kinded.del (fun c hc => ?_) (fun _ => rfl) rfl
  have hp : c ≠ q.links.prev (.item n) := ne_of_isItem hc (h.kinded _).2
  have hn : c ≠ q.links.next (.item n) := ne_of_isItem hc (h.kinded _).1
  simp [SurfaceQueue.listDel, hp, hn]

theorem pop (h : Registry q A) (w : Fifo) (n : ℕ) : Registry (q.queueNodePop w n) A :=
  (h.delItem n).congr (h.delItem n).kinded (fun _ _ => ⟨rfl, rfl⟩) (fun _ => rfl) rfl

theorem queueInit (h : Registry q A) (w : Fifo) : Registry (q.queueInit w) A := by
  refine h.congr h.kinded.inithead (fun c hc => ?_) (fun _ => rfl) rfl
  have hh : c ≠ .head w := ne_of_isItem hc rfl
  simp [SurfaceQueue.queueInit, hh]

/-- Freeing a node after both its links have been unlinked. -/
theorem deleteNode (h : Registry q A) {n : ℕ} (hn : n ∈ A) :
    Registry (q.queueDeleteNode n) (A.erase n) := by
  have hi : Registry (q.listDel (.item n)) A := h.delItem n
  have hr := hi.ring.del_erase (List.mem_map_of_mem hn)
  rw [← List.map_erase link_injective] at hr
  have hb : (q.queueDeleteNode n).nodes = q.nodes :=
    congrArg SurfaceQueue.Settings.nodes (q.queueDeleteNode_settings n)
  refine ⟨?_, ?_, fun k => ?_, fun k hk => ?_⟩
  · rw [q.queueDeleteNode_links]
    exact hi.kinded.del
  · rw [q.queueDeleteNode_links]
    exact hr
  · rw [q.queueDeleteNode_node, h.nodup.mem_erase_iff]
    by_cases e : k = n
    · subst e
      simp
    · simp [e, h.live]
  · rw [hb]
    exact h.bound k (List.mem_of_mem_erase hk)

/-- The new node is linked at the tail of `list`. -/
theorem linkNewNode (h : Registry q A) (surface : Surface) (born : ℕ) :
    Registry (q.linkNewNode surface born) (A ++ [q.nodes]) := by
  have hnew : q.nodes ∉ A := fun hm => absurd (h.bound _ hm) (lt_irrefl _)
  have hr := h.ring.addtail (x := .link q.nodes) (by simp [hnew])
  refine ⟨h.kinded.addtail rfl, by rwa [List.map_append], fun k => ?_, fun k hk => ?_⟩
  · by_cases e : k = q.nodes
    · subst e
      simp [SurfaceQueue.linkNewNode]
    · simp [SurfaceQueue.linkNewNode, e, h.live]
  · have hs : (q.linkNewNode surface born).nodes = q.nodes + 1 := rfl
    rw [hs]
    rcases List.mem_append.mp hk with hk | hk
    · exact (h.bound k hk).trans (Nat.lt_succ_self _)
    · rw [List.mem_singleton.mp hk]
      exact Nat.lt_succ_self _

end Registry

/-- Every `LIST_DEL` so far found a linked cell with live neighbours. -/
def AllLinked (q : SurfaceQueue) : Prop := ∀ u ∈ q.unlinks, u.Linked

namespace Layout

variable {kind : Kind} {q q' : SurfaceQueue} {L : Lists} {w : Fifo} {n : ℕ}

theorem congr (h : Layout kind q L) (hl : q'.links = q.links)
    (hf : ∀ n, (q'.node n).freed = (q.node n).freed) (hn : q'.nodes = q.nodes) :
    Layout kind q' L where
  toRegistry := h.toRegistry.congr (hl ▸ h.kinded) (fun _ _ => by simp [hl]) hf hn
  rings := hl ▸ h.rings
  unused := h.unused
  apart := h.apart
  sub := h.sub

theorem setNode (h : Layout kind q L) {v : Node} (hv : v.freed = (q.node n).freed) :
    Layout kind (q.setNode n v) L :=
  { h with toRegistry := h.toRegistry.setNode hv }

theorem uses_of_mem (h : Layout kind q L) (hn : n ∈ L.on w) : kind.uses w = true := by
  by_contra hu
  rw [h.unused w (by simpa using hu)] at hn
  simp at hn

theorem nodup (h : Layout kind q L) (w : Fifo) : (L.on w).Nodup := by
  by_cases hu : kind.uses w
  · exact List.Nodup.of_map _ (h.rings w hu).list_nodup
  · simp [h.unused w (by simpa using hu)]

theorem itemEntry_eq (h : Layout kind q L) (hn : n ∈ L.on w) :
    q.itemEntry (.item n) = some n := by
  have hf := (h.live n).mpr (h.sub hn)
  simp [SurfaceQueue.itemEntry, hf]

theorem length_lt_fuel (h : Layout kind q L) (w : Fifo) : (L.on w).length < q.fuel :=
  Tbm.Queue.length_lt_fuel (h.nodup w) fun _ hn => h.bound _ (h.sub hn)

theorem itemNodes_eq (h : Layout kind q L) (hu : kind.uses w) : q.itemNodes w = some (L.on w) :=
  (h.rings w hu).entries_eq (fun _ hn => h.itemEntry_eq hn) (h.length_lt_fuel w)

theorem queueIsEmpty_iff (h : Layout kind q L) (hu : kind.uses w) :
    q.queueIsEmpty w = true ↔ L.on w = [] := by
  rw [SurfaceQueue.queueIsEmpty, (h.rings w hu).isEmpty_iff, List.map_eq_nil_iff]

theorem searchItem_eq (h : Layout kind q L) (hu : kind.uses w) (surface : Surface) :
    q.searchItem w surface = some ((L.on w).find? fun n => (q.node n).surface = surface) :=
  (h.rings w hu).search_eq (fun _ hn => h.itemEntry_eq hn) (h.length_lt_fuel w)

theorem queueGetNode_eq (h : Layout kind q L) (surface : Surface) :
    q.queueGetNode surface = some (L.lookup fun n => (q.node n).surface = surface) := by
  have hf := h.searchItem_eq kind.uses_free surface
  have hd := h.searchItem_eq kind.uses_dirty surface
  have hl := h.ring.search_eq (p := fun n => (q.node n).surface = surface)
    (fun _ hn => h.linkEntry_eq hn) h.toRegistry.length_lt_fuel
  unfold SurfaceQueue.queueGetNode Lists.lookup
  rw [hf, hd, hl]
  generalize (L.on .free).find? (fun n => decide ((q.node n).surface = surface)) = a
  generalize (L.on .dirty).find? (fun n => decide ((q.node n).surface = surface)) = b
  generalize L.list.find? (fun n => decide ((q.node n).surface = surface)) = c
  cases a <;> cases b <;> cases c <;> rfl

theorem disjoint_rings (h : Layout kind q L) {w w' : Fifo} (hw : w ≠ w') :
    List.Disjoint (Cell.head w :: (L.on w).map .item) (.head w' :: (L.on w').map .item) := by
  intro c hc hc'
  simp only [List.mem_cons, List.mem_map] at hc hc'
  rcases hc with rfl | ⟨n, hn, rfl⟩
  · simp [hw] at hc'
  · rcases hc' with hc' | ⟨m, hm, hmn⟩
    · simp at hc'
    · obtain rfl := Cell.item.inj hmn
      exact hw (h.apart hn hm)

private theorem disjoint_list (A B : List ℕ) (w : Fifo) :
    List.Disjoint (Cell.head w :: A.map .item) (.list :: B.map .link) := by
  intro c hc hc'
  simp only [List.mem_cons, List.mem_map] at hc hc'
  rcases hc with rfl | ⟨n, -, rfl⟩ <;> simp at hc'

theorem pushBack (h : Layout kind q L) (hu : kind.uses w) (hn : L.HandedOut n) :
    Layout kind (q.queueNodePushBack w n) (L.push w n) where
  toRegistry := h.toRegistry.pushBack w n
  rings := by
    intro w' hu'
    by_cases e : w' = w
    · subst e
      have hr := (h.rings w' hu).addtail (x := .item n) (by simpa using hn.2 w')
      simpa [Lists.push, SurfaceQueue.queueNodePushBack] using hr
    · have hx : Cell.item n ∉ Cell.head w' :: (L.on w').map .item := by simpa using hn.2 w'
      have hr := (h.rings w hu).addtail_other (h.rings w' hu') (h.disjoint_rings (Ne.symm e)) hx
      simpa [Lists.push, SurfaceQueue.queueNodePushBack, e] using hr
  unused := by
    intro w' hu'
    have e : w' ≠ w := by
      rintro rfl
      simp [hu] at hu'
    simpa [Lists.push, e] using h.unused w' hu'
  apart := by
    intro v v' k hk hk'
    rcases Lists.mem_push.mp hk with hv | ⟨rfl, rfl⟩
    · rcases Lists.mem_push.mp hk' with hv' | ⟨rfl, rfl⟩
      · exact h.apart hv hv'
      · exact absurd hv (hn.2 v)
    · rcases Lists.mem_push.mp hk' with hv' | ⟨-, rfl⟩
      · exact absurd hv' (hn.2 v')
      · rfl
  sub := by
    intro v k hk
    rcases Lists.mem_push.mp hk with hk | ⟨rfl, -⟩
    · exact h.sub hk
    · exact hn.1

theorem pop (h : Layout kind q L) (hn : n ∈ L.on w) :
    Layout kind (q.queueNodePop w n) (L.pop w n) where
  toRegistry := h.toRegistry.pop w n
  rings := by
    have hw := h.rings w (h.uses_of_mem hn)
    have hi : Cell.item n ∈ (L.on w).map .item := List.mem_map_of_mem hn
    intro w' hu'
    by_cases e : w' = w
    · subst e
      have hr := hw.del_erase hi
      rw [← List.map_erase item_injective] at hr
      simpa [Lists.pop, SurfaceQueue.queueNodePop, SurfaceQueue.listDel] using hr
    · have hr := hw.del_other (h.rings w' hu') (h.disjoint_rings (Ne.symm e)) hi
      simpa [Lists.pop, SurfaceQueue.queueNodePop, SurfaceQueue.listDel, e] using hr
  unused := by
    intro w' hu'
    by_cases e : w' = w
    · subst e
      simp [Lists.pop, h.unused w' hu']
    · simpa [Lists.pop, e] using h.unused w' hu'
  apart := fun hk hk' => h.apart (L.mem_of_mem_pop hk) (L.mem_of_mem_pop hk')
  sub := fun hk => h.sub (L.mem_of_mem_pop hk)

theorem handedOut_pop (h : Layout kind q L) (hn : n ∈ L.on w) : (L.pop w n).HandedOut n := by
  refine ⟨h.sub hn, fun v hv => ?_⟩
  obtain rfl : v = w := h.apart (L.mem_of_mem_pop hv) hn
  have hm : n ∈ (L.on v).erase n := by simpa [Lists.pop] using hv
  exact ((h.nodup v).mem_erase_iff.mp hm).1 rfl

theorem queueNodePopFront_eq (h : Layout kind q L) {ns : List ℕ} (hn : L.on w = n :: ns) :
    q.queueNodePopFront w = some (n, q.queueNodePop w n) := by
  have hm : n ∈ L.on w := by simp [hn]
  have hr := h.rings w (h.uses_of_mem hm)
  have hx : q.links.next (.head w) = .item n := by
    rw [hn] at hr
    exact hr.chain.1
  simp [SurfaceQueue.queueNodePopFront, hx, h.itemEntry_eq hm]

/-- Deleting a node takes it off both its lists, if unlinking its item link does. -/
private theorem deleteNode_of (h : Layout kind q L) (hn : n ∈ L.list)
    (hd : ∀ w, kind.uses w →
      (q.listDel (.item n)).links.Ring (.head w) (((L.on w).erase n).map .item)) :
    Layout kind (q.queueDeleteNode n) (L.remove n) where
  toRegistry := h.toRegistry.deleteNode hn
  rings := by
    intro w hu
    have hr := (h.toRegistry.delItem n).ring.del_other (hd w hu) (disjoint_list _ _ w).symm
      (List.mem_map_of_mem hn)
    rw [q.queueDeleteNode_links]
    exact hr
  unused := fun w' hu' => by simp [Lists.remove, h.unused w' hu']
  apart := fun hk hk' => h.apart (List.mem_of_mem_erase hk) (List.mem_of_mem_erase hk')
  sub := by
    intro w' k hk
    have hne : k ≠ n := by
      rintro rfl
      exact ((h.nodup w').mem_erase_iff.mp hk).1 rfl
    exact (List.mem_erase_of_ne hne).mpr (h.sub (List.mem_of_mem_erase hk))

theorem deleteNode (h : Layout kind q L) (hn : n ∈ L.on w) :
    Layout kind (q.queueDeleteNode n) (L.remove n) := by
  refine h.deleteNode_of (h.sub hn) fun w' hu' => ?_
  have he : (L.pop w n).on w' = (L.on w').erase n := by
    by_cases e : w' = w
    · subst e
      simp [Lists.pop]
    · have hn' : n ∉ L.on w' := fun hx => e (h.apart hx hn)
      simp [Lists.pop, e, List.erase_of_not_mem hn']
  rw [← he]
  exact (h.pop hn).rings w' hu'

/-- The stale item link of a node on no item list does no harm if the lists already read as if it
had been unlinked. -/
theorem deleteStale (h : Layout kind q L) (hn : L.HandedOut n)
    (hs : ∀ w, kind.uses w → ∀ c ∈ Cell.head w :: (L.on w).map .item,
      (q.links.del (.item n)).next c = q.links.next c ∧
        (q.links.del (.item n)).prev c = q.links.prev c) :
    Layout kind (q.queueDeleteNode n) (L.remove n) := by
  refine h.deleteNode_of hn.1 fun w hu => ?_
  rw [List.erase_of_not_mem (hn.2 w)]
  exact (h.rings w hu).congr (hs w hu)

theorem linkNewNode (h : Layout kind q L) (surface : Surface) (born : ℕ) :
    Layout kind (q.linkNewNode surface born) (L.attach q.nodes) where
  toRegistry := h.toRegistry.linkNewNode surface born
  rings := by
    intro w hu
    refine h.ring.addtail_other (h.rings w hu) ((disjoint_list _ _ w).symm) ?_
    simp
  unused := h.unused
  apart := h.apart
  sub := fun hk => List.mem_append_left _ (h.sub hk)

theorem not_isEmpty_pushBack (h : Layout kind q L) (hu : kind.uses w) (hn : L.HandedOut n) :
    (q.queueNodePushBack w n).queueIsEmpty w = false := by
  have hp := h.pushBack hu hn
  rw [Bool.eq_false_iff, ne_eq, hp.queueIsEmpty_iff hu]
  simp [Lists.push]

/-- A node that is about to be linked is on no item list yet. -/
theorem handedOut_attach (h : Layout kind q L) : (L.attach q.nodes).HandedOut q.nodes := by
  have hnew : ∀ w, q.nodes ∉ L.on w := fun w hm => absurd (h.bound _ (h.sub hm)) (lt_irrefl _)
  exact ⟨by simp [Lists.attach], hnew⟩

theorem attach (h : Layout kind q L) (surface : Surface) (born : ℕ) :
    Layout kind (q.surfaceQueueAttach true surface born)
      ((L.attach q.nodes).push .free q.nodes) :=
  (h.linkNewNode surface born).pushBack kind.uses_free h.handedOut_attach

theorem handedOut_default (h : Layout .default q L) {p : ℕ → Bool}
    (hl : L.lookup p = some (n, .nodeList)) : L.HandedOut n :=
  Lists.handedOut_of_lookup hl (by simp [h.unused .dequeue rfl])

end Layout

end Tbm.Queue
