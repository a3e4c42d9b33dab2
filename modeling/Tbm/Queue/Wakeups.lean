import Tbm.Queue.Schedules
import Tbm.Queue.Reachable
import Tbm.Core.Wakeups

/-! One producer and one consumer with any number of threads that resize, reset and flush: a
thread that is parked waits for a surface that is not there. -/
namespace Tbm.Queue

open Prog Runs

namespace SurfaceQueue

variable (q : SurfaceQueue)

/-- The cell is part of an item list. -/
def Listed (kind : Kind) : Cell → Prop
  | .head w => kind.uses w = true
  | .item n => n ∈ q.nodesOn kind .free ∨ n ∈ q.nodesOn kind .dirty ∨ n ∈ q.nodesOn kind .dequeue
  | .list | .link _ => False

instance (kind : Kind) : DecidablePred (q.Listed kind)
  | .head _ => inferInstanceAs (Decidable (_ = _))
  | .item _ => inferInstanceAs (Decidable (_ ∨ _ ∨ _))
  | .list | .link _ => isFalse id

/-- `LIST_DEL` of the item link of `n` would change no item list. -/
def StaleAgrees (kind : Kind) (n : ℕ) : Prop :=
  (q.Listed kind (q.links.prev (.item n)) →
    q.links.next (q.links.prev (.item n)) = q.links.next (.item n)) ∧
  (q.Listed kind (q.links.next (.item n)) →
    q.links.prev (q.links.next (.item n)) = q.links.prev (.item n))

instance (kind : Kind) (n : ℕ) : Decidable (q.StaleAgrees kind n) :=
  inferInstanceAs (Decidable (_ ∧ _))

/-- The item lists survive the release of `s`: a node that is kept is not on `dequeue_list` any
more, and a node that is detached still is, or its stale item link does no harm. -/
def ReleaseKeeps (kind : Kind) (s : Surface) : Prop :=
  ∀ f ∈ (q.queueGetNode s).join, f.2 = .nodeList →
    if q.queueSize < q.numAttached then f.1 ∈ q.nodesOn kind .dequeue ∨ q.StaleAgrees kind f.1
    else f.1 ∉ q.nodesOn kind .dequeue

instance (kind : Kind) (s : Surface) : Decidable (q.ReleaseKeeps kind s) :=
  inferInstanceAs (Decidable (∀ f ∈ _, _))

/-- What a thread parked on the condition variable waits for is not there. -/
def Parks : Cond → Prop
  | .freeCond => q.queueIsEmpty .free = true ∧ q.queueSize ≤ q.numAttached
  | .dirtyCond => q.queueIsEmpty .dirty = true

end SurfaceQueue

/-- A live queue whose lists are in order. -/
structure Healthy (kind : Kind) (q : SurfaceQueue) : Prop where
  valid : q.valid = true
  lists : ∃ L, Represents kind q L

section Data

variable {kind : Kind} {q q' : SurfaceQueue} {L L' : Lists} {w : Fifo} {k : ℕ} {d : Cond}

theorem Represents.parks_free (h : Represents kind q L) :
    q.Parks .freeCond ↔ L.on .free = [] ∧ q.queueSize ≤ L.list.length := by
  unfold SurfaceQueue.Parks
  rw [h.queueIsEmpty_iff kind.uses_free, h.num]

theorem Represents.parks_dirty (h : Represents kind q L) :
    q.Parks .dirtyCond ↔ L.on .dirty = [] := h.queueIsEmpty_iff kind.uses_dirty

theorem Represents.matches (h : Represents kind q L) :
    Matches kind q ⟨L, q.node, q.settings⟩ := ⟨h, fun _ _ => rfl, rfl⟩

theorem Represents.listed (h : Represents kind q L) (hu : kind.uses w)
    {c : Cell} (hc : c ∈ Cell.head w :: (L.on w).map .item) : q.Listed kind c := by
  have hon : ∀ w, q.nodesOn kind w = L.on w := h.matches.nodesOn_eq
  simp only [List.mem_cons, List.mem_map] at hc
  rcases hc with rfl | ⟨n, hn, rfl⟩
  · exact hu
  · simp only [SurfaceQueue.Listed, hon]
    cases w with
    | free => exact .inl hn
    | dirty => exact .inr (.inl hn)
    | dequeue => exact .inr (.inr hn)

theorem Represents.deleteStale (h : Represents kind q L) (hk : L.HandedOut k)
    (hs : q.StaleAgrees kind k) :
    Represents kind { q.queueDeleteNode k with numAttached := q.numAttached - 1 } (L.remove k) := by
  refine h.detached hk.1 (h.toLayout.deleteStale hk fun w hu c hc => ?_)
  have hl := h.listed hu hc
  rw [Links.del_next, Links.del_prev]
  constructor
  · split_ifs with e
    · rw [e] at hl ⊢
      exact (hs.1 hl).symm
    · rfl
  · split_ifs with e
    · rw [e] at hl ⊢
      exact (hs.2 hl).symm
    · rfl

/-- The node a release or an enqueue of the default queue works on. -/
theorem Represents.found (h : Represents kind q L) {s : Surface} {f : Option (ℕ × Found)}
    (hg : q.queueGetNode s = some f) : L.lookup (fun n => (q.node n).surface = s) = f :=
  Option.some.inj (h.queueGetNode_eq s ▸ hg)

/-- Nothing a waiter or a list operation looks at has changed. -/
structure Alike (q q' : SurfaceQueue) : Prop where
  links : q'.links = q.links
  freed : ∀ k, (q'.node k).freed = (q.node k).freed
  nodes : q'.nodes = q.nodes
  num : q'.numAttached = q.numAttached
  size : q'.queueSize = q.queueSize
  valid : q'.valid = q.valid

namespace Alike

theorem parks (h : Alike q q') (hp : q.Parks d) : q'.Parks d := by
  cases d with
  | freeCond =>
    simpa [SurfaceQueue.Parks, SurfaceQueue.queueIsEmpty, h.links, h.num, h.size] using hp
  | dirtyCond => simpa [SurfaceQueue.Parks, SurfaceQueue.queueIsEmpty, h.links] using hp

theorem healthy (h : Alike q q') (hq : Healthy kind q) : Healthy kind q' := by
  obtain ⟨L, hL⟩ := hq.lists
  exact ⟨h.valid.trans hq.valid, L, hL.congr h.links h.freed h.nodes h.num⟩

private theorem setNode (q : SurfaceQueue) {v : Node} (hv : v.freed = (q.node k).freed) :
    Alike q (q.setNode k v) := by
  refine ⟨rfl, fun j => ?_, rfl, rfl, rfl, rfl⟩
  by_cases e : j = k
  · subst e
    simp [SurfaceQueue.setNode, hv]
  · simp [SurfaceQueue.setNode, e]

theorem setType (q : SurfaceQueue) (k : ℕ) (c : NodeType) : Alike q (q.setType k c) :=
  setNode q rfl

theorem setPrivFlags (q : SurfaceQueue) (k c : ℕ) : Alike q (q.setPrivFlags k c) := setNode q rfl

end Alike

theorem Lists.dropFree_on_nil {L : Lists} (h : L.on w = []) (k : ℕ) : (L.dropFree k).on w = [] := by
  induction k generalizing L with
  | zero => exact h
  | succ k ih =>
    unfold Lists.dropFree
    split
    · exact h
    · exact ih (by simp [Lists.remove, h])

/-- A cleared queue is in order, and there is nothing to acquire. -/
theorem Healthy.clearNodes (h : Healthy kind q) (hc : clearNodes kind.impl q = some q') :
    Healthy kind q' ∧ q'.Parks .dirtyCond := by
  obtain ⟨L, hL⟩ := h.lists
  obtain ⟨p, hp, hr, hset⟩ := hL.toRegistry.clearNodes kind
  obtain rfl : p = q' := Option.some.inj (hp.symm.trans hc)
  have hv : p.valid = q.valid := congrArg SurfaceQueue.Settings.valid hset
  exact ⟨⟨hv.trans h.valid, _, hr⟩, hr.parks_dirty.mpr rfl⟩

/-- An allocation that succeeds adds a surface to `free_queue`. -/
theorem Healthy.endAttach {x : AllocResult} (h : Healthy kind q) (me : ℕ) (cb : Bool) (born : ℕ)
    (hs : x.surface.isSome = true) (hn : x.node = true) :
    Healthy kind (endAttach me cb born x q) ∧
      (endAttach me cb born x q).queueIsEmpty .free = false ∧
      (q.Parks .dirtyCond → (endAttach me cb born x q).Parks .dirtyCond) := by
  obtain ⟨L, hL⟩ := h.lists
  obtain ⟨s, hs⟩ := Option.isSome_iff_exists.mp hs
  have hlay := hL.toLayout.attach s born
  have hr : Represents kind (Tbm.Queue.endAttach me cb born x q)
      ((L.attach q.nodes).push .free q.nodes) := by
    unfold Tbm.Queue.endAttach
    rw [hs, hn]
    refine ⟨hlay.congr rfl (fun _ => rfl) rfl, ?_⟩
    have hnum := hL.num
    simp [SurfaceQueue.record, SurfaceQueue.surfaceQueueAttach, SurfaceQueue.queueNodePushBack,
      SurfaceQueue.linkNewNode, Lists.push, Lists.attach, hnum]
  refine ⟨⟨endAttach_valid.trans h.valid, _, hr⟩, ?_, fun hp => ?_⟩
  · rw [hr.matches.isEmpty_free]
    simp [View.on, Lists.push]
  · refine hr.parks_dirty.mpr ?_
    simpa [Lists.push, Lists.attach] using hL.parks_dirty.mp hp

theorem Healthy.setQueueSize (h : Healthy kind q) (m : ℤ) :
    Healthy kind { q with queueSize := m } := by
  obtain ⟨L, hL⟩ := h.lists
  exact ⟨h.valid, L, hL.congr rfl (fun _ => rfl) rfl rfl⟩

end Data

section Rules

variable {kind : Kind} {n : ℕ} {waiter : Cond → Fin n} {t : Fin n} {op : Op} {r b g : Bool}
  {H : Mutex → Bool} {q q' : SurfaceQueue}

/-- `dequeue`, `enqueue` and `can_dequeue` are for the thread that waits on `free_cond`, and
`acquire`, `release` and `can_acquire` for the one that waits on `dirty_cond`. -/
def Op.PlayedBy (waiter : Cond → Fin n) (t : Fin n) : Op → Prop
  | .dequeue | .enqueue _ | .canDequeue _ => t = waiter .freeCond
  | .acquire | .release _ | .canAcquire _ => t = waiter .dirtyCond
  | .reset _ _ _ | .flush | .setSize _ _ | .setAllocCb _ _ => True
  | .destroy => False

/-- A size change that signals nobody makes room. -/
def SurfaceQueue.Grows (q : SurfaceQueue) : Op → Cond → Prop
  | .setSize m false, .freeCond => q.numAttached < m
  | _, _ => False

/-- The rules behind the wake-ups: data that a waiter looks at changes under both mutexes, and in
favour of a waiter only with a signal to follow. -/
def wakeRules (kind : Kind) (n : ℕ) (waiter : Cond → Fin n) : QRules n where
  inv := Healthy kind
  rely := fun _ H q q' => H .global = true ∨ H .queue = true → q' = q
  effect := fun t op H q q' p => q' = q ∨ (H .global = true ∧ H .queue = true ∧
    ∀ d, t ≠ waiter d → q.Parks d → p.signals .global d q' = true ∨ q'.Parks d ∨ q.Grows op d)
  point := fun t _ _ _ p q => ∀ d m k, p = wait d m k → t = waiter d ∧ q.Parks d
  rest := fun _ H q => H .queue = true → q.valid = false
  calls := fun t op => op.PlayedBy waiter t
  allow := fun _ op q q' => q' = q ∨ ∀ s, op = .release (some s) → q.ReleaseKeeps kind s
  back := fun _ _ => True
  answer := fun x => x.surface.isSome = true ∧ x.node = true

instance : Guarded (wakeRules kind n waiter) where
  refl := fun _ => rfl
  held := fun h => h (.inl rfl)
  allow := .inl rfl
  effect := .inl rfl

instance : Points (wakeRules kind n waiter) op where
  pure := nofun
  lockGlobal := fun _ => nofun
  lockQueue := nofun
  unlockGlobal := nofun
  unlockQueue := fun _ => nofun
  signal := nofun
  act := nofun
  emit := fun _ => nofun
  allocCb := nofun
  create := nofun
  rest := id
  valid := by
    intro t H q q' _ hi _ hv
    rw [hi.valid] at hv
    contradiction

/-- What a data step of thread `t` leaves to be done for the waiters. -/
def Attends (waiter : Cond → Fin n) (t : Fin n) (op : Op) (q q' : SurfaceQueue) (p : QProg Reply) :
    Prop :=
  ∀ d, t ≠ waiter d → q.Parks d → p.signals .global d q' = true ∨ q'.Parks d ∨ q.Grows op d

section Attends

variable {p : QProg Reply} {L : Lists} {k : ℕ} {s : Surface}

theorem Alike.attends (h : Alike q q') : Attends waiter t op q q' p :=
  fun _ _ hp => .inr (.inl (h.parks hp))

/-- What the thread that waits on `free_cond` does only matters to the other one. -/
theorem attends_of_dirty (ht : t = waiter .freeCond)
    (h : q.Parks .dirtyCond → p.signals .global .dirtyCond q' = true ∨ q'.Parks .dirtyCond) :
    Attends waiter t op q q' p := by
  intro d hd hp
  cases d with
  | freeCond => exact absurd ht hd
  | dirtyCond => exact (h hp).imp_right .inl

theorem attends_of_free (ht : t = waiter .dirtyCond)
    (h : q.Parks .freeCond → p.signals .global .freeCond q' = true ∨ q'.Parks .freeCond) :
    Attends waiter t op q q' p := by
  intro d hd hp
  cases d with
  | freeCond => exact (h hp).imp_right .inl
  | dirtyCond => exact absurd ht hd

/-- A clearing operation signals `free_cond` and leaves nothing to acquire. -/
theorem attends_of_cleared (hs : p.signals .global .freeCond q' = true) (hd : q'.Parks .dirtyCond) :
    Attends waiter t op q q' p := by
  intro d _ _
  cases d with
  | freeCond => exact .inl hs
  | dirtyCond => exact .inr (.inl hd)

theorem Healthy.enqueueNode (h : Healthy kind q)
    (hn : q.queueGetNode s = some (some (k, .nodeList)))
    (he : enqueueNode kind.impl k q = some q') : Healthy kind q' := by
  obtain ⟨L, hL⟩ := h.lists
  cases kind with
  | default =>
    obtain rfl : q.queueNodePushBack .dirty k = q' := Option.some.inj he
    have hout : L.HandedOut k := hL.toLayout.handedOut_default (hL.found hn)
    exact ⟨h.valid, _, hL.toLayout.pushBack rfl hout, hL.num⟩
  | sequence =>
    obtain ⟨vs, p, hp, -, hlay, -, hset, hnum, -⟩ := hL.toLayout.tbmQueueSequenceEnqueue k
    obtain ⟨⟨vs', p'⟩, hp', rfl⟩ := Option.map_eq_some_iff.mp he
    obtain ⟨rfl, rfl⟩ : vs = vs' ∧ p = p' := by simpa [hp] using hp'
    exact ⟨(congrArg SurfaceQueue.Settings.valid hset).trans h.valid, _, hlay, hnum.trans hL.num⟩

theorem Represents.popFront {w : Fifo} (hL : Represents kind q L) (hu : kind.uses w)
    (he : q.queueIsEmpty w = false) (hp : q.queueNodePopFront w = some (k, q')) :
    k ∈ L.on w ∧ q' = q.queueNodePop w k ∧ Represents kind q' (L.pop w k) := by
  have hne : L.on w ≠ [] := by
    intro e
    rw [(hL.queueIsEmpty_iff hu).mpr e] at he
    contradiction
  obtain ⟨j, js, hon⟩ := List.exists_cons_of_ne_nil hne
  have hj : j ∈ L.on w := by simp [hon]
  obtain ⟨rfl, rfl⟩ : j = k ∧ q.queueNodePop w j = q' := by
    simpa [hL.queueNodePopFront_eq hon] using hp
  exact ⟨hj, rfl, hL.toLayout.pop hj, hL.num⟩

/-- The node a release works on, and what its item link allows. -/
theorem ReleaseKeeps.node {L : Lists} {s : Surface} {k : ℕ} (hL : Represents kind q L)
    (hx : q.queueGetNode s = some (some (k, .nodeList))) (hs : q.ReleaseKeeps kind s) :
    (q.queueSize < q.numAttached → k ∈ L.on .dequeue ∨ L.HandedOut k ∧ q.StaleAgrees kind k) ∧
      (q.numAttached ≤ q.queueSize → L.HandedOut k) := by
  have hon : q.nodesOn kind .dequeue = L.on .dequeue := hL.matches.nodesOn_eq .dequeue
  have hout : k ∉ L.on .dequeue → L.HandedOut k := Lists.handedOut_of_lookup (hL.found hx)
  have hf := hs (k, .nodeList) (by simp [hx]) rfl
  rw [hon] at hf
  constructor
  · intro hover
    rw [if_pos hover] at hf
    by_cases hk : k ∈ L.on .dequeue
    · exact .inl hk
    · exact .inr ⟨hout hk, hf.resolve_left hk⟩
  · intro hroom
    rw [if_neg (by omega)] at hf
    exact hout hf

/-- A release that detaches its surface takes it off the lists. -/
theorem Represents.release {L : Lists} {s : Surface} {k : ℕ} (hL : Represents kind q L)
    (hx : q.queueGetNode s = some (some (k, .nodeList))) (hs : q.ReleaseKeeps kind s)
    (hover : q.queueSize < q.numAttached) (hd : detachNode kind.impl k q = some q') :
    q'.settings = q.settings ∧ q'.numAttached = q.numAttached - 1 ∧
      Represents kind q' (L.remove k) := by
  have hl := hL.found hx
  obtain ⟨-, hsurf, -, -⟩ := Lists.lookup_nodeList hl
  have hsn : (q.node k).surface = s := by simpa using hsurf
  rw [← hsn] at hl
  obtain rfl := Option.some.inj ((Matches.detachNode_eq hL hl).symm.trans hd)
  refine ⟨?_, rfl, ?_⟩
  · rw [SurfaceQueue.setNumAttached_settings, SurfaceQueue.queueDeleteNode_settings]
  · rcases (ReleaseKeeps.node hL hx hs).1 hover with hk | ⟨hout, hstale⟩
    · exact hL.deleteNode hk
    · exact hL.deleteStale hout hstale

/-- A release that gives its surface back puts a handed out node on `free_queue`. -/
theorem Represents.giveBack (hL : Represents kind q L)
    (hx : q.queueGetNode s = some (some (k, .nodeList))) (hs : q.ReleaseKeeps kind s)
    (hroom : q.numAttached ≤ q.queueSize) :
    Represents kind (q.queueNodePushBack .free k) (L.push .free k) ∧
      (q.queueNodePushBack .free k).queueIsEmpty .free = false := by
  have hout := (ReleaseKeeps.node hL hx hs).2 hroom
  exact ⟨⟨hL.toLayout.pushBack kind.uses_free hout, hL.num⟩,
    hL.toLayout.not_isEmpty_pushBack kind.uses_free hout⟩

/-- A node that is handed over again changes the state of the queue. -/
theorem pushBack_ne (w : Fifo) (k : ℕ) : q.queueNodePushBack w k ≠ q := by
  intro e
  have hc := congrArg (fun p : SurfaceQueue => p.count w) e
  simp only [SurfaceQueue.queueNodePushBack, Function.update_self] at hc
  omega

/-- A size change that does not flush never adds a surface, and makes room only by growing. -/
theorem Represents.resized {m : ℤ} (hL : Represents kind q L) (hv : q'.valid = true)
    (hL' : Represents kind q' (L.dropFree k)) : Healthy kind { q' with queueSize := m } ∧
      Attends waiter t (.setSize m false) q { q' with queueSize := m } p := by
  have hs : Represents kind { q' with queueSize := m } (L.dropFree k) :=
    hL'.congr rfl (fun _ => rfl) rfl rfl
  refine ⟨⟨hv, _, hs⟩, fun d _ hp => .inr ?_⟩
  cases d with
  | dirtyCond =>
    exact .inl (hs.parks_dirty.mpr (Lists.dropFree_on_nil (hL.parks_dirty.mp hp) k))
  | freeCond =>
    obtain ⟨hf, hsize⟩ := hL.parks_free.mp hp
    by_cases hgrow : q.numAttached < m
    · exact .inr hgrow
    · refine .inl (hs.parks_free.mpr ?_)
      rw [Lists.dropFree_nil hf, ← hL.num]
      constructor
      · exact hf
      · simp only
        omega

theorem Op.Attaching.played (ho : op.Attaching) (hp : op.PlayedBy waiter t) :
    t = waiter .freeCond := by
  cases op with
  | dequeue => exact hp
  | canDequeue m => exact hp
  | _ => exact ho.elim

/-- Every data step keeps the lists in order, and what it does for a waiter is signalled. -/
theorem DataStep.attends (h : DataStep (wakeRules kind n waiter) kind t op b q q' p)
    (hplay : op.PlayedBy waiter t) (hq : Healthy kind q)
    (ha : q' = q ∨ ∀ s, op = .release (some s) → q.ReleaseKeeps kind s) :
    Healthy kind q' ∧ (q' = q ∨ b = true ∧ Attends waiter t op q q' p) := by
  have hsome : Healthy kind q' ∧ (b = true ∧ Attends waiter t op q q' p) →
      Healthy kind q' ∧ (q' = q ∨ b = true ∧ Attends waiter t op q q' p) := And.imp_right .inr
  obtain ⟨L, hL⟩ := hq.lists
  cases h with
  | setType k c =>
    have hs := Alike.setType q k c
    exact hsome ⟨hs.healthy hq, rfl, hs.attends⟩
  | @setAllocCb x y =>
    have hs : Alike q { q with allocCb := x, freeCb := y } :=
      ⟨rfl, fun _ => rfl, rfl, rfl, rfl, rfl⟩
    exact hsome ⟨hs.healthy hq, rfl, hs.attends⟩
  | enqueue hn h hs =>
    refine hsome ⟨hq.enqueueNode hn h, rfl, attends_of_dirty hplay fun _ => ?_⟩
    cases he : q'.queueIsEmpty .dirty with
    | true => exact .inr he
    | false => exact .inl (hs he)
  | @detach s k q q' p hn hover h =>
    rcases ha with rfl | ha
    · exact ⟨hq, .inl rfl⟩
    · obtain ⟨hset, hnum, hr⟩ := hL.release hn (ha s rfl) hover h
      have hv : q'.valid = true := (congrArg SurfaceQueue.Settings.valid hset).trans hq.valid
      have hsize : q'.queueSize = q.queueSize := congrArg SurfaceQueue.Settings.queueSize hset
      refine hsome ⟨⟨hv, _, hr⟩, rfl, attends_of_free hplay fun hp => .inr ?_⟩
      rw [hr.parks_free, ← hr.num, hnum, hsize]
      constructor
      · simp [Lists.remove, (hL.parks_free.mp hp).1]
      · omega
  | @giveBack s k q p hn hroom hs =>
    have hkeep := ha.resolve_left (pushBack_ne .free k) s rfl
    obtain ⟨hr, hne⟩ := hL.giveBack hn hkeep hroom
    exact hsome ⟨⟨hq.valid, _, hr⟩, rfl, attends_of_free hplay fun _ => .inl (hs hne)⟩
  | acquire he h =>
    obtain ⟨-, rfl, hr⟩ := hL.popFront kind.uses_dirty he h
    refine hsome ⟨⟨hq.valid, _, hr⟩, rfl, attends_of_free hplay fun hp => .inr ?_⟩
    exact hr.parks_free.mpr (hL.parks_free.mp hp)
  | dequeue he h =>
    obtain ⟨-, rfl, hr⟩ := hL.popFront kind.uses_free he h
    refine hsome ⟨⟨hq.valid, _, hr⟩, rfl, attends_of_dirty hplay fun hp => .inr ?_⟩
    exact hr.parks_dirty.mpr (hL.parks_dirty.mp hp)
  | @handOut k q₀ q p hkind hi he h =>
    subst hkind
    obtain ⟨L₀, hL₀⟩ := hi.lists
    obtain ⟨hk, -, hr⟩ := hL₀.popFront rfl he h
    have hp : Represents .sequence (q.queueNodePushBack .dequeue k)
        ((L₀.pop .free k).push .dequeue k) :=
      ⟨hr.toLayout.pushBack rfl (hL₀.toLayout.handedOut_pop hk), hr.num⟩
    have hs := Alike.setPrivFlags (q.queueNodePushBack .dequeue k) k 1
    have hq' : Healthy .sequence (q.queueNodePushBack .dequeue k) := ⟨hq.valid, _, hp⟩
    refine hsome ⟨hs.healthy hq', rfl, attends_of_dirty hplay fun hpark => .inr (hs.parks ?_)⟩
    exact hp.parks_dirty.mpr (hr.parks_dirty.mp hpark)
  | request ho h =>
    have hs : Alike q { q with allocating := (t.val, q.epoch) :: q.allocating } :=
      ⟨rfl, fun _ => rfl, rfl, rfl, rfl, rfl⟩
    exact hsome ⟨hs.healthy hq, rfl, hs.attends⟩
  | attach cb x ho hx h =>
    obtain ⟨hq', -, hd⟩ := hq.endAttach t cb _ hx.1 hx.2
    exact hsome ⟨hq', rfl, attends_of_dirty (ho.played hplay) fun hp => .inr (hd hp)⟩
  | @reset w h f q q' p hne hc hs =>
    have hset : Alike q { q with width := w, height := h, format := f } :=
      ⟨rfl, fun _ => rfl, rfl, rfl, rfl, rfl⟩
    obtain ⟨hq', hd⟩ := (hset.healthy hq).clearNodes hc
    exact hsome ⟨hq', rfl, attends_of_cleared hs hd⟩
  | flush hne hc hs =>
    obtain ⟨hq', hd⟩ := hq.clearNodes hc
    exact hsome ⟨hq', rfl, attends_of_cleared hs hd⟩
  | @flushSize m q q' p hm hc hs =>
    obtain ⟨hq', hd⟩ := hq.clearNodes hc
    exact hsome ⟨hq'.setQueueSize m, rfl, attends_of_cleared hs hd⟩
  | @shrink m q q' p hm hlt h =>
    obtain ⟨p', hp', hr, -, hset, -⟩ := hL.detachFree (k := q.queueSize - m) (by omega)
    obtain rfl : p' = q' := Option.some.inj (hp'.symm.trans h)
    have hv : p'.valid = q.valid := congrArg SurfaceQueue.Settings.valid hset
    obtain ⟨hq', hd⟩ := hL.resized (m := m) (hv.trans hq.valid) hr
    exact hsome ⟨hq', rfl, hd⟩
  | @grow m q p hm hle =>
    obtain ⟨hq', hd⟩ := hL.resized (m := m) (k := 0) hq.valid hL
    exact hsome ⟨hq', rfl, hd⟩
  | invalidate => exact hplay.elim
  | deleteNodes => exact hplay.elim

end Attends

/-- With an allocator that answers, `need_attach` leaves an empty `free_queue` only on a full
queue. -/
theorem Attempted.parks (h : Attempted (wakeRules kind n waiter) t q)
    (he : q.queueIsEmpty .free = true) : q.Parks .freeCond := by
  rcases h with hfull | ⟨q₀, cb, born, x, hq₀, hx, rfl⟩
  · exact ⟨he, hfull.le⟩
  · obtain ⟨-, hne, -⟩ := hq₀.endAttach t cb born hx.1 hx.2
    rw [hne] at he
    contradiction

theorem wakeRules_keeps : Keeps (wakeRules kind n waiter) kind id where
  points := fun _ => inferInstance
  step := by
    intro t op b q q' p h hplay hq ha
    obtain ⟨hq', hd⟩ := h.attends hplay hq ha
    exact ⟨hq', hd.imp_right fun ⟨hb, hd⟩ => ⟨rfl, hb, hd⟩⟩
  queryPoint := by
    intro t op g p q h hplay hq
    cases h with
    | yes => nofun
    | woken => nofun
    | @wait d w q₀ _ p ha hi he hfull hr =>
      intro d' m k hk
      obtain rfl : d = d' := by injection hk
      rw [hr (.inr rfl)]
      cases op with
      | canDequeue m =>
        obtain ⟨rfl, rfl⟩ : Cond.freeCond = d ∧ Fifo.free = w := by simpa [Op.asks] using ha
        exact ⟨hplay, (hfull rfl).parks he⟩
      | canAcquire m =>
        obtain ⟨rfl, rfl⟩ : Cond.dirtyCond = d ∧ Fifo.dirty = w := by simpa [Op.asks] using ha
        exact ⟨hplay, he⟩
      | _ => contradiction

theorem wakeRules_lawful : (wakeRules kind n waiter).Lawful (code kind n) where
  refl := fun _ => rfl
  trans := fun h h' hH => (h' hH).trans (h hH)
  frame := by
    intro t u op H K q q' p _ hd he hH
    rcases he with rfl | ⟨hg, hb, -⟩
    · rfl
    · rcases hH with hH | hH
      · simp [hd _ hH] at hg
      · simp [hd _ hH] at hb
  rest := by
    intro t H q q' hr _ h hb
    rw [hr (.inr hb)]
    exact h hb
  start := by
    intro t op H q hop hb hi
    unfold code
    rw [eq_hold H]
    exact wakeRules_keeps.program_safe hop hb hi

end Rules

section Schedules

variable {kind : Kind} {n : ℕ} {waiter : Cond → Fin n} {q : SurfaceQueue} {acts : List (QAction n)}
  {c c' : QConfig n} {log : List (Entry (QConfig n) (QAction n) Unit)}

/-- The threads keep to their roles and every allocation succeeds. -/
def Cast (waiter : Cond → Fin n) : QAction n → Prop
  | .call t op => op.PlayedBy waiter t
  | .input _ x => x.surface.isSome = true ∧ x.node = true
  | .step _ | .signal _ _ | .spurious _ | .wake _ => True

/-- The size a thread in a `set_size` without flush is about to set. -/
def resizing : Status Mutex Cond Event AllocResult SurfaceQueue Op Reply → Option ℤ
  | .run _ (.setSize m false) (.act _ _) => some m
  | _ => none

/-- The surface a thread is about to release. -/
def releasing : Status Mutex Cond Event AllocResult SurfaceQueue Op Reply → Option Surface
  | .run _ (.release s) (.act _ _) => s
  | _ => none

/-- A size change that makes room without a flush finds nobody parked on `free_cond`. -/
def GrowsUnwatched (c : QConfig n) : QAction n → Prop
  | .step t => ∀ m ∈ resizing (c.thread t), c.held t .queue = true → c.data.numAttached < m →
    ∀ u, ¬(c.thread u).BlockedOn .freeCond
  | _ => True

/-- A release leaves the item lists in order. -/
def ReleasesKeep (kind : Kind) (c : QConfig n) : QAction n → Prop
  | .step t => ∀ s ∈ releasing (c.thread t), c.data.ReleaseKeeps kind s
  | _ => True

instance (t : Fin n) : DecidablePred (Op.PlayedBy waiter t)
  | .dequeue | .enqueue _ | .canDequeue _ | .acquire | .release _ | .canAcquire _ =>
    inferInstanceAs (Decidable (_ = _))
  | .reset _ _ _ | .flush | .setSize _ _ | .setAllocCb _ _ => isTrue trivial
  | .destroy => isFalse id

instance : DecidablePred (Cast waiter)
  | .call t op => inferInstanceAs (Decidable (op.PlayedBy waiter t))
  | .input _ _ => inferInstanceAs (Decidable (_ ∧ _))
  | .step _ | .signal _ _ | .spurious _ | .wake _ => isTrue trivial

instance (c : QConfig n) : DecidablePred (GrowsUnwatched c)
  | .step t => inferInstanceAs (Decidable (∀ m ∈ resizing (c.thread t), _))
  | .call _ _ | .input _ _ | .signal _ _ | .spurious _ | .wake _ => isTrue trivial

instance (c : QConfig n) : DecidablePred (ReleasesKeep kind c)
  | .step t => inferInstanceAs (Decidable (∀ s ∈ releasing (c.thread t), _))
  | .call _ _ | .input _ _ | .signal _ _ | .spurious _ | .wake _ => isTrue trivial

private theorem wakeRules_obeys {a : QAction n} (hc : Cast waiter a) (hk : ReleasesKeep kind c a) :
    (wakeRules kind n waiter).Obeys c a := by
  cases a with
  | call t op => exact hc
  | input t x => exact hc
  | signal t u => trivial
  | spurious t => trivial
  | wake t => exact fun _ _ _ _ _ => trivial
  | step t =>
    intro r op p c' ht ha
    rcases Config.advance_data ha with ⟨β, f, k, rfl⟩ | he
    · refine .inr fun s hs => ?_
      subst hs
      exact hk s (by simp [releasing, ht])
    · exact .inl he

/-- One step keeps every parked thread waiting for what is not there, or a signal pending. -/
private theorem attended_moved {a : QAction n}
    (h : c.Attended .global waiter fun d q => q.Parks d) (hg : (wakeRules kind n waiter).Global c)
    (hc : Cast waiter a) (hgrow : GrowsUnwatched c a) (hk : ReleasesKeep kind c a)
    (hm : c.Moved (code kind n) a c') : c'.Attended .global waiter fun d q => q.Parks d := by
  have ho := wakeRules_obeys hc hk
  refine h.moved hm (fun t r op d m k ht => ?_) fun t r op β f k b s hst ht hf => ?_
  · exact (hg.onward wakeRules_lawful ht).1 d m k rfl
  · subst hst
    have ha : c.advance t op (.act f k) =
        some ((c.setData s).setThread t (.run false op (k b))) := by
      simp [Config.advance, hf]
    obtain ⟨-, he, -⟩ := (hg.onward wakeRules_lawful ht).2 b s hf (ho _ _ _ _ ht ha)
    rcases he with he | ⟨hglobal, hqueue, hkeep⟩
    · exact .inl he
    · refine .inr ⟨by simpa [Config.held] using hglobal, fun u d hut hu hp => ?_⟩
      have hw : t ≠ waiter d := by
        rw [← (h u d hu).1]
        exact hut.symm
      rcases hkeep d hw hp with hs | hs | hs
      · exact .inl hs
      · exact .inr hs
      · -- A thread parked on `free_cond` forbids the size change.
        unfold SurfaceQueue.Grows at hs
        split at hs
        next m => exact absurd hu (hgrow m (by simp [resizing, ht]) hqueue hs u)
        next => exact hs.elim

theorem Healthy.of_create {queueSize width height format flags : ℤ}
    (h : kind.create queueSize width height format flags = some q) : Healthy kind q := by
  have hm : Matches kind q _ := create_matches h
  obtain ⟨-, -, -, hv⟩ := create_room h
  exact ⟨hv, _, hm.toRepresents⟩

/-- No wake-up is lost: with one producer, one consumer and any number of threads that resize,
reset and flush, a parked producer finds no surface and no room for one, and a parked consumer
finds no surface, unless a signal is pending; provided that a size change that makes room finds no
producer parked and that releases keep the item lists in order. -/
theorem no_lost_wakeup {queueSize width height format flags : ℤ}
    (hc : kind.create queueSize width height format flags = some q)
    (hp : Permitted (move kind)
      (fun c a => Cast waiter a ∧ GrowsUnwatched c a ∧ ReleasesKeep kind c a) acts (.initial q))
    (hr : run (move kind) acts (.initial q) = some (log, c)) (t : Fin n) :
    ((c.thread t).BlockedOn .freeCond → c.pending .global .freeCond = false →
      c.data.queueIsEmpty .free = true ∧ c.data.queueSize ≤ c.data.numAttached) ∧
    ((c.thread t).BlockedOn .dirtyCond → c.pending .global .dirtyCond = false →
      c.data.queueIsEmpty .dirty = true) := by
  have hstart : (wakeRules kind n waiter).Global (.initial q) :=
    ⟨Healthy.of_create hc, fun t hb => by simp [Config.held, Config.initial] at hb⟩
  obtain ⟨-, h⟩ := Rules.run_global wakeRules_lawful
    (fun c => c.Attended .global waiter fun d q => q.Parks d) hstart (by rintro t d ⟨⟩)
    (fun c a h => wakeRules_obeys h.1 h.2.2)
    (fun c a c' hg h ho hs =>
      attended_moved h hg ho.1 ho.2.1 ho.2.2 (Config.moved_of_step hs)) hp hr
  constructor
  · intro ht hn
    exact (h t .freeCond ht).2.resolve_left (by simp [hn])
  · intro ht hn
    exact (h t .dirtyCond ht).2.resolve_left (by simp [hn])

/-- Thread 0 produces and thread 1 consumes. -/
def castOf : Cond → Fin 3
  | .freeCond => 0
  | .dirtyCond => 1

theorem no_lost_wakeup_parked : ∃ q log c, Kind.default.create 1 4 4 1 0 = some q ∧
    run (move .default) (park 0 1 : List (QAction 3)) (.initial q) = some (log, c) ∧
    (c.thread 0).BlockedOn .freeCond ∧ c.pending .global .freeCond = false ∧
    c.data.queueIsEmpty .free = true ∧ c.data.queueSize ≤ c.data.numAttached := by
  have hrun : ((Kind.default.create 1 4 4 1 0).bind fun q =>
      (run (move .default) (park 0 1 : List (QAction 3)) (.initial q)).map fun p =>
        (decide (Permitted (move .default)
          (fun c a => Cast castOf a ∧ GrowsUnwatched c a ∧ ReleasesKeep .default c a)
          (park 0 1) (.initial q : QConfig 3)),
          decide ((p.2.thread 0).BlockedOn .freeCond ∧ p.2.pending .global .freeCond = false))) =
      some (true, true) := by decide +kernel
  obtain ⟨q, hq, hq'⟩ := Option.bind_eq_some_iff.mp hrun
  obtain ⟨⟨log, c⟩, hr, he⟩ := Option.map_eq_some_iff.mp hq'
  obtain ⟨hp, hb⟩ := Prod.mk.inj he
  obtain ⟨hb, hn⟩ := of_decide_eq_true hb
  exact ⟨q, log, c, hq, hr, hb, hn, (no_lost_wakeup hq (of_decide_eq_true hp) hr 0).1 hb hn⟩

/-- Thread 2 raises the size of a full queue while the producer is parked. -/
def growAlone : List (QAction 3) := [.call 2 (.setSize 2 false)] ++ steps 2 8

/-- The producer stays parked with room for a surface, and nobody is going to signal it. -/
theorem growth_wakes_nobody : ∃ q log c, Kind.default.create 1 4 4 1 0 = some q ∧
    Permitted (move .default) (fun _ a => Cast castOf a) (park 0 1 ++ growAlone)
      (.initial q : QConfig 3) ∧
    run (move .default) (park 0 1 ++ growAlone) (.initial q) = some (log, c) ∧
    (c.thread 0).BlockedOn .freeCond ∧ c.pending .global .freeCond = false ∧
    c.data.numAttached < c.data.queueSize := by
  have hrun : ((Kind.default.create 1 4 4 1 0).bind fun q =>
      (run (move .default) (park 0 1 ++ growAlone) (.initial q : QConfig 3)).map fun p =>
        decide (Permitted (move .default) (fun _ a => Cast castOf a) (park 0 1 ++ growAlone)
          (.initial q : QConfig 3) ∧ (p.2.thread 0).BlockedOn .freeCond ∧
          p.2.pending .global .freeCond = false ∧ p.2.data.numAttached < p.2.data.queueSize)) =
      some true := by decide +kernel
  obtain ⟨q, hq, hq'⟩ := Option.bind_eq_some_iff.mp hrun
  obtain ⟨⟨log, c⟩, hr, he⟩ := Option.map_eq_some_iff.mp hq'
  obtain ⟨hp, h⟩ := of_decide_eq_true he
  exact ⟨q, log, c, hq, hp, hr, h⟩

end Schedules

end Tbm.Queue
