import Tbm.Queue.Linear
import Tbm.Queue.Simulation

/-! What calls by any number of threads keep, as long as no `alloc_cb` is set: the lists of either
kind of queue, and the machine that a default queue is for. -/
namespace Tbm.Queue

open Prog Runs

/-- The call that is about to take the global mutex. -/
def entering : Status Mutex Cond Event AllocResult SurfaceQueue Op Reply → Option Op
  | .run _ op (.lock .global _) => some op
  | _ => none

section Kept

variable {kind : Kind} (P : Promise kind) {n : ℕ} {c : QConfig n}

/-- A step that keeps the promise. -/
def Promise.Kept (c : QConfig n) : QAction n → Prop
  | .call _ op => P.calls op ∧ ∀ freeCb, op ≠ .setAllocCb true freeCb
  | .step t => ∀ op ∈ entering (c.thread t), P.enters op c.data
  | .input t x => ∀ op ∈ (c.thread t).op, P.answers op c.data x
  | .signal _ _ | .spurious _ | .wake _ => True

theorem Promise.Kept.honours {a : QAction n} (h : P.Kept c a) :
    c.Honours P.contract .global a := by
  cases a with
  | call t op => exact h
  | step t =>
    intro r op k hc
    exact h op (by simp [hc, entering])
  | input t x =>
    intro r op k hc _
    exact h op (by simp [hc, Status.op])
  | signal | spurious | wake => trivial

instance [DecidablePred P.calls] [∀ op q, Decidable (P.enters op q)]
    [∀ op q x, Decidable (P.answers op q x)] (c : QConfig n) : ∀ a, Decidable (P.Kept c a)
  | .call _ op => inferInstanceAs (Decidable (P.calls op ∧ ∀ freeCb, op ≠ .setAllocCb true freeCb))
  | .step t => inferInstanceAs (Decidable (∀ op ∈ entering (c.thread t), P.enters op c.data))
  | .input t x => inferInstanceAs (Decidable (∀ op ∈ (c.thread t).op, P.answers op c.data x))
  | .signal _ _ | .spurious _ | .wake _ => isTrue trivial

end Kept

/-- A release only touches an item link it may touch. -/
def Promise.lists (kind : Kind) : Promise kind where
  holds q := ∃ v, Tracks kind q v
  calls _ := True
  enters op q := q.valid = true → q.ReleaseSound kind op
  answers _ _ _ := True
  safe := True
  request _ := trivial
  answer := answer_of_true
  keeps := by
    rintro op x q a q' - ⟨v, hv⟩ he - hc
    obtain ⟨p, hp, ht, -⟩ := hv.call (hv.allows he) x
    obtain ⟨-, rfl⟩ : _ ∧ p = q' := by simpa using hp.symm.trans hc
    exact ⟨_, ht⟩
  defined := by
    rintro op x q - - ⟨v, hv⟩ he -
    obtain ⟨p, hp, -⟩ := hv.call (hv.allows he) x
    rw [hp]
    rfl

instance (kind : Kind) : DecidablePred (Promise.lists kind).calls := fun _ => isTrue trivial

instance (kind : Kind) (op : Op) (q : SurfaceQueue) :
    Decidable ((Promise.lists kind).enters op q) :=
  inferInstanceAs (Decidable (q.valid = true → q.ReleaseSound kind op))

instance (kind : Kind) (op : Op) (q : SurfaceQueue) (x : AllocResult) :
    Decidable ((Promise.lists kind).answers op q x) := isTrue trivial

section Lists

variable {kind : Kind} {n : ℕ} {q : SurfaceQueue} {c : QConfig n} {acts : List (QAction n)}
  {log : List (Entry (QConfig n) (QAction n) Unit)} {queueSize width height format flags : ℤ}

/-- A producer and a consumer take turns in the middle of their calls. -/
def alternating : List (QAction 2) := [.call 0 .dequeue, .call 1 .acquire] ++ steps 0 5 ++
  [.input 0 ⟨some 7, true⟩] ++ steps 0 8 ++ steps 1 3 ++ steps 0 3 ++ steps 1 4 ++
  [.call 0 (.enqueue (some 7)), .call 1 .destroy] ++ steps 0 8 ++ [.signal 0 none] ++ steps 0 1 ++
  steps 1 3

end Lists

/-- The clients on the side a call waits for. -/
def Machine.awaited (m : Machine) : Op → Finset Surface
  | .canDequeue _ => m.consumer
  | .canAcquire _ => m.producer
  | _ => ∅

/-- A call does its step at once. One that may wait only answers 0 while nobody is there to wait
for, and 1 whenever it has waited. -/
def Machine.contract : Contract AllocResult Machine Op Reply where
  inv _ := True
  calls _ := True
  enters _ _ := True
  answers _ _ _ := True
  skips _ m m' := m' = m
  commits op m a m' := ∃ x, m' = (m.step (op, x)).2 ∧
    (a = (m.step (op, x)).1 ∧ (op.Waits → a = .answer 0 → m'.awaited op = ∅) ∨
      op.Waits ∧ a = .answer 1)
  safe := True

/-- The queue is where the machine is. -/
def Stands (q : SurfaceQueue) (m : Machine) : Prop := ∃ v, Matches .default q v ∧ Abstracts v m

namespace Abstracts

variable {q : SurfaceQueue} {v : View} {m : Machine} {x : AllocResult} {w : ℤ}

theorem free_nil (ha : Abstracts v m) : m.free = [] ↔ v.on .free = [] := by
  rw [ha.free, List.map_eq_nil_iff]

theorem dirty_nil (ha : Abstracts v m) : m.dirty = [] ↔ v.on .dirty = [] := by
  rw [ha.dirty, List.map_eq_nil_iff]

/-- Nobody has a surface of which no node has the type. -/
theorem nobody (t : NodeType) {A : Finset Surface}
    (hA : ∀ s, s ∈ A ↔ ∃ n, v.Held n ∧ (v.node n).type = t ∧ v.surf n = s)
    (hz : v.list.countP (fun n => (v.node n).type = t) = 0) : A = ∅ := by
  refine Finset.eq_empty_of_forall_notMem fun s hs => ?_
  obtain ⟨n, hn, ht, -⟩ := (hA s).mp hs
  exact List.countP_eq_zero.mp hz n hn.1 (decide_eq_true ht)

theorem canAcquire_waits (ha : Abstracts v m) (hw : w ≠ 0) :
    Machine.contract.commits (.canAcquire w) m (.answer (v.canAcquire w)) m := by
  refine ⟨⟨none, false⟩, rfl, ?_⟩
  have hd := ha.dirty_nil
  unfold View.canAcquire
  by_cases he : v.on .dirty = []
  · by_cases hz : v.list.countP (fun n => (v.node n).type = .dequeue) = 0
    · have hp := nobody .dequeue ha.producer hz
      simp [he, hz, Machine.step, hd.mpr he, Machine.awaited, hp]
    · simp [he, hz, hw, Op.Waits]
  · simp [he, Op.Waits, hw]

theorem canDequeue_waits (ha : Abstracts v m) (hq : Matches .default q v)
    (hfresh : q.Fresh (.canDequeue w, x)) (hw : w ≠ 0) :
    Machine.contract.commits (.canDequeue w) m (.answer (v.canDequeue w x).1) (m.grow x) ∧
      Abstracts (v.canDequeue w x).2 (m.grow x) := by
  have hg := ha.grow hq (.inr ⟨w, rfl⟩) hfresh
  have hview : (v.canDequeue w x).2 = v.grow x := by
    simp only [View.canDequeue]
    split_ifs <;> rfl
  have hf := hg.free_nil
  rw [hview]
  refine ⟨⟨x, rfl, ?_⟩, hg⟩
  unfold View.canDequeue
  by_cases he : (v.grow x).on .free = []
  · by_cases hz : (v.grow x).list.countP (fun n => ((v.grow x).node n).type = .acquire) = 0
    · have hc := nobody .acquire hg.consumer hz
      simp [he, hz, Machine.step, hf.mpr he, Machine.awaited, hc]
    · simp [he, hz, hw, Op.Waits]
  · simp [he, hw, Op.Waits]

end Abstracts

namespace Stands

variable {q q' : SurfaceQueue} {m : Machine} {op : Op} {x : AllocResult} {a : Reply}

/-- Each call on the queue is one the machine can make. -/
theorem call (h : Stands q m) (hop : op ≠ .destroy) (hsize : q.KeepsSize op)
    (hfresh : q.Fresh (op, x)) : ∃ a q' m', call .default op x q = some (a, q') ∧
      Machine.contract.commits op m a m' ∧ Stands q' m' := by
  obtain ⟨v, hv, ha⟩ := h
  obtain ⟨q', he, ht, -⟩ := (Tracks.mk hv.settings fun _ => hv).call
    (ha.allows hv : Tracks.Allows v op) x
  rw [View.step, if_pos ha.valid] at he ht
  suffices hs : ∃ m', Machine.contract.commits op m (v.liveStep .default op x).1 m' ∧
      Abstracts (v.liveStep .default op x).2 m' by
    obtain ⟨m', hc, hab⟩ := hs
    exact ⟨_, q', m', he, hc, _, ht.live hab.valid, hab⟩
  by_cases hsim : Simulated op
  · obtain ⟨hr, hab⟩ := ha.liveStep hv ⟨hsim, hsize, hfresh⟩
    refine ⟨_, ⟨x, rfl, .inl ⟨hr.symm, fun hw => ?_⟩⟩, hab⟩
    cases op with
    | canDequeue w | canAcquire w => exact absurd hsim hw
    | _ => exact hw.elim
  · cases op with
    | canDequeue w => exact ⟨_, ha.canDequeue_waits hv hfresh hsim⟩
    | canAcquire w => exact ⟨m, ha.canAcquire_waits hsim, ha⟩
    | destroy => exact absurd rfl hop
    | _ => exact absurd trivial hsim

/-- The same for a call that is known to return. -/
theorem commits (h : Stands q m) (hop : op ≠ .destroy) (hsize : q.KeepsSize op)
    (hfresh : q.Fresh (op, x)) (hc : Queue.call .default op x q = some (a, q')) :
    ∃ m', Machine.contract.commits op m a m' ∧ Stands q' m' := by
  obtain ⟨b, p, m', he, hm, hs⟩ := h.call hop hsize hfresh
  obtain ⟨rfl, rfl⟩ : b = a ∧ p = q' := by simpa using he.symm.trans hc
  exact ⟨m', hm, hs⟩

end Stands

/-- The queue is not destroyed, its size is only lowered by a flush, and the allocator gives out no
surface that is attached. -/
def Promise.machine : Promise .default where
  holds q := ∃ m, Stands q m
  calls op := op ≠ .destroy
  enters op q := q.KeepsSize op
  answers op q x := q.Fresh (op, x)
  safe := True
  request h := h
  answer op q := by
    refine ⟨⟨none, false⟩, fun s hs => ?_⟩
    unfold SurfaceQueue.attaches at hs
    split at hs <;> simp at hs
  keeps := by
    rintro op x q a q' ho ⟨m, hm⟩ he hx hc
    obtain ⟨m', -, hm'⟩ := hm.commits ho he hx hc
    exact ⟨m', hm'⟩
  defined := by
    rintro op x q - ho ⟨m, hm⟩ he hx
    obtain ⟨a, q', -, hc, -⟩ := hm.call ho he hx
    rw [hc]
    rfl

/-- Steps of the queue are steps of the machine. -/
theorem Stands.skips {q q' : SurfaceQueue} {m : Machine} {op : Op} (h : Stands q m)
    (hs : Promise.machine.Skips op q q') : Stands q' m := by
  obtain ⟨-, -, ⟨rfl, -⟩ | ⟨-, -, ⟨w, rfl⟩, x, hx, rfl, he⟩⟩ := hs
  · exact h
  · obtain ⟨v, hv, ha⟩ := h
    have hg := ha.grow hv (.inr ⟨w, rfl⟩) hx
    have hqg := (hv.grow (c := True) x).follows
    have hbase : attachBase x q = if v.on .free = [] then attachAnswer x q else q := by
      unfold attachBase
      rw [hv.isEmpty_free]
      by_cases hf : v.on .free = [] <;> simp [hf]
    rw [← hbase] at hqg
    have hf : (m.grow x).free = [] := by
      rw [hg.free_nil]
      simpa [hqg.isEmpty_free] using he
    have hm : m.grow x = m := by
      unfold Machine.grow at hf ⊢
      split_ifs at hf ⊢ with hroom
      · split at hf
        · simp at hf
        · rfl
      · rfl
    rw [hm] at hg
    exact ⟨_, hqg, hg⟩

section Machine

variable {n : ℕ} {q : SurfaceQueue} {c : QConfig n} {acts : List (QAction n)}
  {log : List (Entry (QConfig n) (QAction n) Unit)} {queueSize width height format flags : ℤ}

instance : DecidablePred Promise.machine.calls := fun op =>
  inferInstanceAs (Decidable (op ≠ .destroy))

instance (op : Op) (q : SurfaceQueue) : Decidable (Promise.machine.enters op q) :=
  inferInstanceAs (Decidable (q.KeepsSize op))

instance (op : Op) (q : SurfaceQueue) (x : AllocResult) :
    Decidable (Promise.machine.answers op q x) := inferInstanceAs (Decidable (q.Fresh (op, x)))

/-- A producer waits for the surface that the consumer releases. -/
def servedWait : List (QAction 2) :=
  parked ++ releaseAlone 1 7 (some 0) ++ [.wake 0] ++ steps 0 5

end Machine

end Tbm.Queue
