import Tbm.Queue.Protocol
import Tbm.Core.Wakeups
import Mathlib.Logic.Relation

/-! One pass over the programs of all operations, for any rules. What is left to show of given
rules is that they allow each data step and hold where a query waits or says yes. -/
namespace Tbm.Queue

open Prog

abbrev RulesFor (k : ℕ) (O : Type) :=
  Rules (Fin k) Mutex Cond Event AllocResult SurfaceQueue O Reply

/-- Rules that let a thread in `o` come to most programs. The queue mutex is not held where the
global one is asked for unless a wait has just ended, and no mutex at a notification. -/
class Points {k : ℕ} {O : Type} (L : RulesFor k O) (o : O) : Prop extends Guarded L where
  pure : ∀ {t r H a q}, L.point t o r H (.ret a) q
  lockGlobal : ∀ {t r H p q}, (r = false → H .queue = true → q.valid = false) →
    L.point t o r H (lock .global p) q
  lockQueue : ∀ {t r H p q}, L.point t o r H (lock .queue p) q
  unlockGlobal : ∀ {t r H p q}, L.point t o r H (unlock .global p) q
  unlockQueue : ∀ {t r H p q}, p ≠ unlock .global (.ret (.answer 1)) →
    L.point t o r H (unlock .queue p) q
  signal : ∀ {t r H c p q}, L.point t o r H (signal c p) q
  act : ∀ {t r H q} {β : Type} {h : SurfaceQueue → Option (β × SurfaceQueue)} {f : β → QProg Reply},
    L.point t o r H (act h f) q
  emit : ∀ {t r H e p q}, (e ≠ .destroyNoti → H = hold false false) → L.point t o r H (emit e p) q
  /-- Both mutexes are given up for `alloc_cb`. -/
  allocCb : ∀ {t r f q}, L.point t o r (hold false false) (input f) q
  create : ∀ {t r H me born f q},
    L.point t o r H (input fun x => modify (endAttach me false born x) >>= f) q
  rest : ∀ {t b q}, (b = true → q.valid = false) → L.rest t (hold false b) q
  valid : ∀ {t H q q'}, L.rely t H q q' → L.inv q → L.inv q' → q.valid = false → q'.valid = false

/-- What is to be shown of a data step. -/
def Does {k : ℕ} {O : Type} (L : RulesFor k O) (t : Fin k) (o : O) (b : Bool)
    (q q' : SurfaceQueue) (p : QProg Reply) : Prop :=
  L.allow t o q q' → L.inv q' ∧ L.effect t o (hold true b) q q' p

/-- The rest of `enqueue` and `release` once a node has been put on a list. -/
def handingOver (w : Fifo) (n : ℕ) (c : NodeType) (d : Cond) (e : Error) (s : Surface) (v : Event) :
    QProg Reply :=
  Prog.read (·.queueIsEmpty w) >>= fun empty =>
    (if empty = true then do
      unlockBoth
      pure e
    else do
      modify (·.setType n c)
      mutexUnlock .queue
      condSignal d
      mutexUnlock .global
      notify (.trace s c)
      notify v
      pure .none) >>= fun x => pure (.error x)

theorem signals_handingOver {w : Fifo} {n : ℕ} {c : NodeType} {d : Cond} {e : Error} {s : Surface}
    {v : Event} {q : SurfaceQueue} (h : q.queueIsEmpty w = false) :
    (handingOver w n c d e s v).signals .global d q = true := by
  simp [handingOver, h]

@[simp] theorem signals_leaveCleared {q : SurfaceQueue} :
    (leaveCleared >>= fun x => pure (.error x) : QProg Reply).signals .global .freeCond q = true :=
  rfl

section Steps

variable {k : ℕ} {O : Type} {L : RulesFor k O} {t : Fin k} {o : O} [Points L o] {r b g : Bool}
  {q : SurfaceQueue} {f : Unit → QProg Reply}

theorem pass_pure {a : Reply} (hb : b = true → q.valid = false) (hi : L.inv q) :
    L.Safe t o r (hold false b) (pure a) q := by
  rw [safe_pure]
  intro q' hr hi'
  constructor
  · exact Points.pure
  · exact Points.rest o fun e => Points.valid o hr hi hi' (hb e)

theorem pass_done {a : Reply} (hi : L.inv q) : L.Safe t o r (hold false false) (pure a) q :=
  pass_pure (by simp) hi

theorem pass_lockGlobal (hb : r = false → b = true → q.valid = false) (hi : L.inv q)
    (h : ∀ q', L.rely t (hold g b) q q' → L.inv q' → L.Safe t o false (hold true b) (f ()) q') :
    L.Safe t o r (hold g b) (mutexLock .global >>= f) q := by
  rw [safe_lockGlobal]
  intro q' hr hi'
  constructor
  · exact Points.lockGlobal fun hrun hH => Points.valid o hr hi hi' (hb hrun hH)
  · exact h q' hr hi'

theorem pass_lockQueue (h : L.Safe t o false (hold true true) (f ()) q) :
    L.Safe t o r (hold true b) (mutexLock .queue >>= f) q :=
  safe_lockQueue.mpr fun _ => ⟨Points.lockQueue, h⟩

theorem pass_unlockGlobal (h : L.Safe t o false (hold false b) (f ()) q) :
    L.Safe t o r (hold true b) (mutexUnlock .global >>= f) q :=
  safe_unlockGlobal.mpr fun _ => ⟨Points.unlockGlobal, h⟩

theorem pass_unlockQueue (hf : f () ≠ unlock .global (.ret (.answer 1)))
    (h : L.Safe t o false (hold true false) (f ()) q) :
    L.Safe t o r (hold true b) (mutexUnlock .queue >>= f) q :=
  safe_unlockQueue.mpr fun _ => ⟨Points.unlockQueue hf, h⟩

theorem pass_signal {c : Cond} (h : L.Safe t o false (hold true b) (f ()) q) :
    L.Safe t o r (hold true b) (condSignal c >>= f) q :=
  safe_signal.mpr fun _ => ⟨Points.signal, h⟩

theorem pass_notify {e : Event}
    (h : ∀ q', L.inv q' → L.Safe t o false (hold false false) (f ()) q') :
    L.Safe t o r (hold false false) (notify e >>= f) q :=
  safe_notify.mpr fun q' _ hi => ⟨Points.emit fun _ => rfl, h q' hi⟩

theorem pass_notifyDestroy (h : L.Safe t o false (hold true b) (f ()) q) :
    L.Safe t o r (hold true b) (notify .destroyNoti >>= f) q := by
  rw [safe_notify]
  intro q' hr _
  rw [Guarded.held hr]
  exact ⟨Points.emit fun hne => absurd rfl hne, h⟩

theorem pass_unlockBoth (hf : f () ≠ .ret (.answer 1))
    (h : L.Safe t o false (hold false false) (f ()) q) :
    L.Safe t o r (hold true b) (unlockBoth >>= f) q := by
  rw [safe_unlockBoth]
  intro _
  refine ⟨Points.unlockQueue fun e => hf ?_, Points.unlockGlobal, h⟩
  injection e

/-- The rest of an operation that leaves both mutexes and answers. -/
theorem pass_leaving {a : Reply} (hi : L.inv q)
    (ha : a = .answer 1 → L.point t o r (hold true b) (leaving a) q) :
    L.Safe t o r (hold true b) (unlockBoth >>= fun _ => pure a) q := by
  rw [safe_unlockBoth]
  intro _
  refine ⟨?_, Points.unlockGlobal, pass_done hi⟩
  by_cases he : a = .answer 1
  · exact ha he
  · refine Points.unlockQueue fun e => he ?_
    injection e with _ e
    injection e

theorem pass_access {β : Type} {h : SurfaceQueue → Option (β × SurfaceQueue)} {f : β → QProg Reply}
    (hs : ∀ x q', h q = some (x, q') → Does L t o b q q' (f x) ∧
      (L.inv q' → L.Safe t o false (hold true b) (f x) q')) :
    L.Safe t o r (hold true b) (access h >>= f) q := by
  rw [safe_access]
  refine fun _ => ⟨Points.act, fun x q' hx ha => ?_⟩
  obtain ⟨hdoes, hsafe⟩ := hs x q' hx
  obtain ⟨hi, he⟩ := hdoes ha
  exact ⟨hi, he, hsafe hi⟩

theorem pass_lookup {β : Type} {h : SurfaceQueue → Option β} {f : β → QProg Reply}
    (hs : ∀ x, h q = some x → L.Safe t o false (hold true b) (f x) q) :
    L.Safe t o r (hold true b) ((access fun q => (h q).bind fun x => some (x, q)) >>= f) q :=
  safe_lookup.mpr fun _ => ⟨Points.act, hs⟩

theorem pass_update {h : SurfaceQueue → Option SurfaceQueue}
    (hs : ∀ q', h q = some q' → Does L t o b q q' (f ()) ∧
      (L.inv q' → L.Safe t o false (hold true b) (f ()) q')) :
    L.Safe t o r (hold true b) ((access fun q => (h q).bind fun x => some ((), x)) >>= f) q := by
  rw [safe_update]
  refine fun _ => ⟨Points.act, fun q' hq ha => ?_⟩
  obtain ⟨hdoes, hsafe⟩ := hs q' hq
  obtain ⟨hi, he⟩ := hdoes ha
  exact ⟨hi, he, hsafe hi⟩

theorem pass_modify {h : SurfaceQueue → SurfaceQueue} (hd : Does L t o b q (h q) (f ()))
    (hs : L.inv (h q) → L.Safe t o false (hold true b) (f ()) (h q)) :
    L.Safe t o r (hold true b) (modify h >>= f) q := by
  rw [safe_modify]
  refine fun _ => ⟨Points.act, fun ha => ?_⟩
  obtain ⟨hi, he⟩ := hd ha
  exact ⟨hi, he, hs hi⟩

theorem pass_read {β : Type} {h : SurfaceQueue → β} {f : β → QProg Reply}
    (hs : L.Safe t o false (hold true b) (f (h q)) q) :
    L.Safe t o r (hold true b) (Prog.read h >>= f) q :=
  safe_read.mpr fun _ => ⟨Points.act, hs⟩

theorem pass_fail {β : Type} {c : Bool} {a : β} {p : QProg β} {f : β → QProg Reply}
    (hp : c = true → L.Safe t o r (hold true b) (p >>= f) q)
    (ha : c = false → L.Safe t o false (hold false b) (f a) q) :
    L.Safe t o r (hold true b) (returnValIfFail c a p >>= f) q := by
  rw [safe_returnValIfFail]
  exact ⟨hp, fun hc => pass_unlockGlobal (ha hc)⟩

/-- All operations start with the global mutex and the validity check. -/
theorem pass_valid {β : Type} {a : β} {p : QProg β} {f : β → Reply}
    (hb : b = true → q.valid = false) (hi : L.inv q)
    (hp : ∀ q, L.inv q → L.Safe t o false (hold true false) (p >>= fun x => pure (f x)) q) :
    L.Safe t o r (hold g b) (do
      mutexLock .global
      let v ← surfaceQueueIsValid
      let x ← returnValIfFail v a p
      pure (f x)) q := by
  apply pass_lockGlobal (fun _ => hb) hi
  intro q' hr hi'
  have hb' : b = true → q'.valid = false := fun e => Points.valid o hr hi hi' (hb e)
  apply pass_read
  apply pass_fail
  · intro hv
    cases b with
    | false => exact hp q' hi'
    | true =>
      rw [hb' rfl] at hv
      contradiction
  · intro _
    exact pass_pure hb' hi'

theorem pass_handingOver {w : Fifo} {n : ℕ} {c : NodeType} {d : Cond} {e : Error}
    {s : Surface} {v : Event} (hi : L.inv q)
    (hmark : ∀ p, Does L t o true q (q.setType n c) p) :
    L.Safe t o r (hold true true) (handingOver w n c d e s v) q := by
  apply pass_read
  simp only [safe_ite_bind, bind_bind]
  constructor
  · intro _
    exact pass_leaving hi (by simp)
  · intro _
    apply pass_modify (hmark _)
    intro hi
    apply pass_unlockQueue
    · rintro ⟨⟩
    · apply pass_signal
      apply pass_unlockGlobal
      apply pass_notify
      intro q hi
      apply pass_notify
      intro q hi
      exact pass_done hi

theorem pass_leaveCleared :
    L.Safe t o r (hold true true) (leaveCleared >>= fun x => pure (.error x)) q := by
  unfold leaveCleared
  simp only [bind_bind]
  apply pass_unlockQueue
  · rintro ⟨⟩
  apply pass_signal
  apply pass_unlockGlobal
  apply pass_notify
  intro q hi
  exact pass_done hi

end Steps

/-- The `enqueue` hook, or `_tbm_surface_queue_enqueue` where the table has no such hook. -/
def enqueueNode (impl : Interface) (n : ℕ) (q : SurfaceQueue) : Option SurfaceQueue :=
  match impl.enqueue with
  | some f => f n q
  | none => some (q.surfaceQueueEnqueue n true)

/-- What `can_dequeue` and `can_acquire` wait for, and the list they look at. -/
def Op.asks : Op → Option (Cond × Fifo)
  | .canDequeue _ => some (.freeCond, .free)
  | .canAcquire _ => some (.dirtyCond, .dirty)
  | _ => none

section Passes

variable {k : ℕ} {O : Type} (L : RulesFor k O) (kind : Kind) (t : Fin k)

/-- Other threads have run while `t` held no mutex. -/
def Since : SurfaceQueue → SurfaceQueue → Prop :=
  Relation.ReflTransGen (L.rely t (hold false false))

/-- A `need_attach` has come to its end: the queue was full, or the allocator has answered. -/
def Attempted (q : SurfaceQueue) : Prop :=
  q.queueSize = q.numAttached ∨ ∃ q₀ cb born x, L.inv q₀ ∧ L.answer x ∧ q = endAttach t cb born x q₀

/-- The data steps of thread `t` by operation, with the program that is left. The `Bool` tells
whether the queue mutex is held. -/
inductive DataStep : Op → Bool → SurfaceQueue → SurfaceQueue → QProg Reply → Prop
  | setType {op q p} (n : ℕ) (c : NodeType) : DataStep op true q (q.setType n c) p
  | setAllocCb {x y q p} :
    DataStep (.setAllocCb x y) true q { q with allocCb := x, freeCb := y } p
  | enqueue {s n q q' p} (hn : q.queueGetNode s = some (some (n, .nodeList)))
    (h : enqueueNode kind.impl n q = some q')
    (hs : q'.queueIsEmpty .dirty = false → p.signals .global .dirtyCond q' = true) :
    DataStep (.enqueue (some s)) true q q' p
  | detach {s n q q' p} (hn : q.queueGetNode s = some (some (n, .nodeList)))
    (hover : q.queueSize < q.numAttached) (h : detachNode kind.impl n q = some q') :
    DataStep (.release (some s)) true q q' p
  | giveBack {s n q p} (hn : q.queueGetNode s = some (some (n, .nodeList)))
    (hroom : q.numAttached ≤ q.queueSize)
    (hs : (q.queueNodePushBack .free n).queueIsEmpty .free = false →
      p.signals .global .freeCond (q.queueNodePushBack .free n) = true) :
    DataStep (.release (some s)) true q (q.queueNodePushBack .free n) p
  | acquire {n q q' p} (he : q.queueIsEmpty .dirty = false)
    (h : q.queueNodePopFront .dirty = some (n, q')) : DataStep .acquire true q q' p
  | dequeue {n q q' p} (he : q.queueIsEmpty .free = false)
    (h : q.queueNodePopFront .free = some (n, q')) : DataStep .dequeue true q q' p
  /-- The `dequeue` hook of a sequence queue keeps the order of the nodes it has handed out. -/
  | handOut {n q₀ q p} (hkind : kind = .sequence) (hi : L.inv q₀)
    (he : q₀.queueIsEmpty .free = false) (h : q₀.queueNodePopFront .free = some (n, q)) :
    DataStep .dequeue true q ((q.queueNodePushBack .dequeue n).setPrivFlags n 1) p
  | request {op q p} (ho : op.Attaching) (h : q.queueSize ≠ q.numAttached) :
    DataStep op true q { q with allocating := (t.val, q.epoch) :: q.allocating } p
  | attach {op p} {q₀ q : SurfaceQueue} (cb : Bool) (x : AllocResult) (ho : op.Attaching)
    (hx : L.answer x)
    (h : Since L t { q₀ with allocating := (t.val, q₀.epoch) :: q₀.allocating } q) :
    DataStep op true q (endAttach t cb q₀.epoch x q) p
  | reset {w h f q q' p} (hne : ¬(w = q.width ∧ h = q.height ∧ f = q.format))
    (hc : clearNodes kind.impl { q with width := w, height := h, format := f } = some q')
    (hs : p.signals .global .freeCond q' = true) : DataStep (.reset w h f) true q q' p
  | flush {q q' p} (hne : q.numAttached ≠ 0) (hc : clearNodes kind.impl q = some q')
    (hs : p.signals .global .freeCond q' = true) : DataStep .flush true q q' p
  | flushSize {m q q' p} (hm : 0 < m) (hc : clearNodes kind.impl q = some q')
    (hs : p.signals .global .freeCond { q' with queueSize := m } = true) :
    DataStep (.setSize m true) true q { q' with queueSize := m } p
  | shrink {m q q' p} (hm : 0 < m) (hlt : m < q.queueSize)
    (h : q.detachFree (detachNode kind.impl) (q.queueSize - m) = some q') :
    DataStep (.setSize m false) true q { q' with queueSize := m } p
  | grow {m q p} (hm : 0 < m) (hle : q.queueSize ≤ m) :
    DataStep (.setSize m false) true q { q with queueSize := m } p
  | invalidate {q p} : DataStep .destroy false q { q with valid := false } p
  | deleteNodes {q q' p} (hv : q.valid = false) (h : q.deleteNodes = some q') :
    DataStep .destroy false q q' p

/-- Where a query says yes, and where it waits. -/
inductive QueryPoint : Op → Bool → QProg Reply → SurfaceQueue → Prop
  | yes {op d w q} (ha : op.asks = some (d, w)) (he : q.queueIsEmpty w = false) :
    QueryPoint op true (leaving (.answer 1)) q
  | woken {op d w q q'} (ha : op.asks = some (d, w)) (hback : L.back d q)
    (hr : L.rely t (hold false true) q q') (hv : q'.valid = true) :
    QueryPoint op true (leaving (.answer 1)) q'
  | wait {op d w q q' p} (ha : op.asks = some (d, w)) (hi : L.inv q) (he : q.queueIsEmpty w = true)
    (hfull : d = .freeCond → Attempted L t q) (hr : L.rely t (hold false true) q q') :
    QueryPoint op false (wait d .queue p) q'

/-- What is to be shown of the rules for threads whose requests are `req` of an operation. -/
structure Keeps (req : Op → O) : Prop where
  points : ∀ op, Points L (req op)
  step : ∀ {t op b q q' p}, DataStep L kind t op b q q' p → L.calls t (req op) → L.inv q →
    Does L t (req op) b q q' p
  queryPoint : ∀ {t op g p q}, QueryPoint L t op g p q → L.calls t (req op) → L.inv q →
    L.point t (req op) false (hold g true) p q

end Passes

section Programs

variable {k : ℕ} {O : Type} {L : RulesFor k O} {kind : Kind} {req : Op → O} {t : Fin k} {op : Op}
  {r b g : Bool} {q : SurfaceQueue}

namespace Keeps

theorem enqueue (hk : Keeps L kind req) {s : Option Surface} (hc : L.calls t (req (.enqueue s)))
    (hb : b = true → q.valid = false) (hi : L.inv q) :
    L.Safe t (req (.enqueue s)) r (hold g b) (program kind.impl t (.enqueue s)) q := by
  have hp := hk.points (.enqueue s)
  unfold program tbmSurfaceQueueEnqueue
  simp only [bind_bind]
  apply pass_valid hb hi
  intro q hi
  cases s with
  | none => exact pass_fail (by simp) fun _ => pass_done hi
  | some s =>
    simp only [bind_bind]
    apply pass_lockQueue
    apply pass_lookup
    intro x hn
    rcases x with _ | ⟨n, _ | _ | _⟩
    · exact pass_leaving hi (by simp)
    · exact pass_leaving hi (by simp)
    · exact pass_leaving hi (by simp)
    · have hout : ∀ q, L.inv q → L.Safe t (req (.enqueue (some s))) false (hold true true)
          (handingOver .dirty n .enqueue .dirtyCond .unknownSurface s .acquirableNoti) q :=
        fun _ hi => pass_handingOver hi fun _ => hk.step (.setType _ _) hc hi
      cases kind with
      | default =>
        apply pass_modify (hk.step (.enqueue hn rfl signals_handingOver) hc hi)
        exact hout _
      | sequence =>
        apply pass_update
        intro q' hq'
        constructor
        · exact hk.step (.enqueue hn hq' signals_handingOver) hc hi
        · exact hout q'

theorem release (hk : Keeps L kind req) {s : Option Surface} (hc : L.calls t (req (.release s)))
    (hb : b = true → q.valid = false) (hi : L.inv q) :
    L.Safe t (req (.release s)) r (hold g b) (program kind.impl t (.release s)) q := by
  have hp := hk.points (.release s)
  unfold program tbmSurfaceQueueRelease
  rw [kind.impl_release]
  simp only [bind_bind]
  apply pass_valid hb hi
  intro q hi
  cases s with
  | none => exact pass_fail (by simp) fun _ => pass_done hi
  | some s =>
    simp only [bind_bind]
    apply pass_lockQueue
    apply pass_lookup
    intro x hn
    rcases x with _ | ⟨n, _ | _ | _⟩
    · exact pass_leaving hi (by simp)
    · exact pass_leaving hi (by simp)
    · exact pass_leaving hi (by simp)
    · simp only [bind_bind]
      apply pass_read
      simp only [safe_ite_bind, bind_bind, decide_eq_true_eq]
      constructor
      · intro hover
        apply pass_update
        intro q' hd
        constructor
        · exact hk.step (.detach hn hover hd) hc hi
        · intro hi
          exact pass_leaving hi (by simp)
      · intro hroom
        apply pass_modify (hk.step (.giveBack hn (not_lt.mp hroom) signals_handingOver) hc hi)
        intro hi
        exact pass_handingOver hi fun _ => hk.step (.setType _ _) hc hi

theorem acquire (hk : Keeps L kind req) (hc : L.calls t (req .acquire))
    (hb : b = true → q.valid = false) (hi : L.inv q) :
    L.Safe t (req .acquire) r (hold g b) (program kind.impl t .acquire) q := by
  have hp := hk.points .acquire
  unfold program tbmSurfaceQueueAcquire
  rw [kind.impl_acquire]
  simp only [bind_bind]
  apply pass_valid hb hi
  intro q hi
  simp only [bind_bind]
  apply pass_lockQueue
  apply pass_access
  intro x q' hx
  unfold SurfaceQueue.surfaceQueueAcquire at hx
  split_ifs at hx with he
  · obtain ⟨rfl, rfl⟩ : none = x ∧ q = q' := by simpa using hx
    constructor
    · intro _
      exact ⟨hi, Guarded.effect⟩
    · intro hi
      exact pass_leaving hi (by simp)
  · obtain ⟨⟨n, q₁⟩, hpop, hx⟩ := Option.bind_eq_some_iff.mp hx
    obtain ⟨rfl, rfl⟩ : some n = x ∧ q₁ = q' := by simpa using hx
    constructor
    · exact hk.step (.acquire (by simpa using he) hpop) hc hi
    · intro hi
      simp only [bind_bind]
      apply pass_modify (hk.step (.setType _ _) hc hi)
      intro hi
      apply pass_read
      apply pass_unlockBoth
      · rintro ⟨⟩
      apply pass_notify
      intro q hi
      exact pass_done hi

theorem needAttach (hk : Keeps L kind req) {f : Unit → QProg Reply} (hc : L.calls t (req op))
    (ho : op.Attaching) (hi : L.inv q)
    (h : ∀ q, L.inv q → Attempted L t q →
      L.Safe t (req op) false (hold true true) (f ()) q) :
    L.Safe t (req op) r (hold true true) (needAttach t >>= f) q := by
  have hp := hk.points op
  unfold Queue.needAttach
  simp only [bind_bind]
  apply pass_access
  intro x q' hx
  unfold beginAttach at hx
  split_ifs at hx with hfull
  · obtain ⟨rfl, rfl⟩ : none = x ∧ q = q' := by simpa using hx
    constructor
    · intro _
      exact ⟨hi, Guarded.effect⟩
    · intro hi
      exact h q hi (.inl hfull)
  · obtain ⟨rfl, hreq⟩ : some (q.allocCb, q.epoch) = x ∧
        { q with allocating := (t.val, q.epoch) :: q.allocating } = q' := by simpa using hx
    constructor
    · rw [← hreq]
      exact hk.step (.request ho hfull) hc hi
    · intro hi'
      have hattach : ∀ {q₁ p} (cb : Bool) (x : AllocResult), L.answer x → Since L t q' q₁ →
          L.inv q₁ → Does L t (req op) true q₁ (endAttach t cb q.epoch x q₁) p := by
        intro q₁ p cb x hx hr
        rw [← hreq] at hr
        exact hk.step (.attach cb x ho hx hr) hc
      clear hreq hx
      cases q.allocCb with
      | true =>
        simp only [bind_bind]
        apply pass_unlockQueue
        · rintro ⟨⟩
        apply pass_unlockGlobal
        rw [safe_answer]
        intro q₁ hr₁ hi₁
        refine ⟨Points.allocCb, fun x hx => ?_⟩
        apply pass_lockGlobal
        · simp
        · exact hi₁
        intro q₂ hr₂ hi₂
        apply pass_lockQueue
        apply pass_modify (hattach true x hx (.tail (.single hr₁) hr₂) hi₂)
        intro hi
        exact h _ hi (.inr ⟨q₂, true, q.epoch, x, hi₂, hx, rfl⟩)
      | false =>
        simp only [bind_bind]
        rw [safe_answer]
        intro q₁ hr₁ hi₁
        rw [Guarded.held hr₁]
        refine ⟨Points.create, fun x hx => ?_⟩
        apply pass_modify (hattach false x hx .refl hi')
        intro hi
        exact h _ hi (.inr ⟨q', false, q.epoch, x, hi', hx, rfl⟩)

/-- The hook is only run on an empty `free_queue`. -/
theorem surfaceQueueDequeue (hk : Keeps L kind req) {f : Option ℕ → QProg Reply}
    (hc : L.calls t (req .dequeue)) (hi : L.inv q)
    (hnone : ∀ q, L.inv q → L.Safe t (req .dequeue) false (hold true true) (f none) q)
    (hsome : ∀ n q₀ q, L.inv q₀ → q₀.queueIsEmpty .free = false →
      q₀.queueNodePopFront .free = some (n, q) → L.inv q →
        L.Safe t (req .dequeue) false (hold true true) (f (some n)) q) :
    L.Safe t (req .dequeue) r (hold true true)
      (surfaceQueueDequeue (Queue.needAttach t) >>= f) q := by
  have hp := hk.points .dequeue
  have hpop : ∀ {q x q'}, L.inv q → q.queueIsEmpty .free = false →
      ((q.queueNodePopFront .free).bind fun p => some (some p.1, p.2)) = some (x, q') →
        Does L t (req .dequeue) true q q' (f x) ∧
          (L.inv q' → L.Safe t (req .dequeue) false (hold true true) (f x) q') := by
    intro q x q' hi he hx
    obtain ⟨⟨n, q₁⟩, hn, hx⟩ := Option.bind_eq_some_iff.mp hx
    obtain ⟨rfl, rfl⟩ : some n = x ∧ q₁ = q' := by simpa using hx
    constructor
    · exact hk.step (.dequeue he hn) hc hi
    · exact hsome n q q₁ hi he hn
  unfold Queue.surfaceQueueDequeue
  simp only [bind_bind]
  apply pass_read
  simp only [safe_ite_bind, bind_bind, Bool.not_eq_true]
  constructor
  · intro _
    apply hk.needAttach hc trivial hi
    intro q hi _
    apply pass_read
    simp only [safe_ite_bind, Bool.not_eq_true]
    constructor
    · intro _
      exact hnone q hi
    · intro he
      apply pass_access
      intro x q' hx
      exact hpop hi he hx
  · intro he
    apply pass_access
    intro x q' hx
    exact hpop hi he hx

theorem dequeue (hk : Keeps L kind req) (hc : L.calls t (req .dequeue))
    (hb : b = true → q.valid = false) (hi : L.inv q) :
    L.Safe t (req .dequeue) r (hold g b) (program kind.impl t .dequeue) q := by
  have hp := hk.points .dequeue
  have hout : ∀ n q, L.inv q → L.Safe t (req .dequeue) false (hold true true) (do
      modify (·.setType n .dequeue)
      let s ← Prog.read fun q => (q.node n).surface
      unlockBoth
      notify (.trace s .dequeue)
      notify .dequeueNoti
      pure (.surface .none (some s))) q := by
    intro n q hi
    apply pass_modify (hk.step (.setType _ _) hc hi)
    intro hi
    apply pass_read
    apply pass_unlockBoth
    · rintro ⟨⟩
    apply pass_notify
    intro q hi
    apply pass_notify
    intro q hi
    exact pass_done hi
  unfold program tbmSurfaceQueueDequeue
  simp only [bind_bind]
  apply pass_valid hb hi
  intro q hi
  simp only [bind_bind]
  apply pass_lockQueue
  cases kind with
  | default =>
    simp only [Kind.impl, tbmQueueDefaultImpl, callNeedAttach, tbmQueueDefaultNeedAttach, bind_bind]
    apply hk.surfaceQueueDequeue hc hi
    · intro q hi
      exact pass_leaving hi (by simp)
    · intro n _ q _ _ _ hi
      exact hout n q hi
  | sequence =>
    simp only [Kind.impl, tbmQueueSequenceImpl, tbmQueueSequenceDequeue, bind_bind]
    apply hk.surfaceQueueDequeue hc hi
    · intro q hi
      exact pass_leaving hi (by simp)
    · intro n q₀ q hi₀ he hn hi
      simp only [bind_bind]
      apply pass_modify (hk.step (.handOut rfl hi₀ he hn) hc hi)
      exact hout n _

theorem setAllocCb (hk : Keeps L kind req) {x y : Bool} (hc : L.calls t (req (.setAllocCb x y)))
    (hb : b = true → q.valid = false) (hi : L.inv q) :
    L.Safe t (req (.setAllocCb x y)) r (hold g b) (program kind.impl t (.setAllocCb x y)) q := by
  have hp := hk.points (.setAllocCb x y)
  unfold program tbmSurfaceQueueSetAllocCb
  simp only [bind_bind]
  apply pass_valid hb hi
  intro q hi
  simp only [bind_bind]
  apply pass_lockQueue
  apply pass_modify (hk.step .setAllocCb hc hi)
  intro hi
  exact pass_leaving hi (by simp)

theorem flush (hk : Keeps L kind req) (hc : L.calls t (req .flush))
    (hb : b = true → q.valid = false) (hi : L.inv q) :
    L.Safe t (req .flush) r (hold g b) (program kind.impl t .flush) q := by
  have hp := hk.points .flush
  unfold program tbmSurfaceQueueFlush
  simp only [bind_bind]
  apply pass_valid hb hi
  intro q hi
  simp only [bind_bind]
  apply pass_read
  simp only [safe_ite_bind, bind_bind, decide_eq_true_eq]
  constructor
  · intro _
    exact pass_unlockGlobal (pass_done hi)
  · intro hne
    apply pass_lockQueue
    apply pass_update
    intro q' hq'
    constructor
    · exact hk.step (.flush hne hq' signals_leaveCleared) hc hi
    · exact fun _ => pass_leaveCleared

theorem reset (hk : Keeps L kind req) {w h f : ℤ} (hc : L.calls t (req (.reset w h f)))
    (hb : b = true → q.valid = false) (hi : L.inv q) :
    L.Safe t (req (.reset w h f)) r (hold g b) (program kind.impl t (.reset w h f)) q := by
  have hp := hk.points (.reset w h f)
  unfold program tbmSurfaceQueueReset
  simp only [bind_bind]
  apply pass_valid hb hi
  intro q hi
  simp only [bind_bind]
  apply pass_read
  simp only [safe_ite_bind, bind_bind, decide_eq_true_eq]
  constructor
  · intro _
    exact pass_unlockGlobal (pass_done hi)
  · intro hne
    apply pass_lockQueue
    apply pass_update
    intro q' hq'
    constructor
    · exact hk.step (.reset hne hq' signals_leaveCleared) hc hi
    · exact fun _ => pass_leaveCleared

theorem setSize (hk : Keeps L kind req) {m : ℤ} {f : Bool} (hc : L.calls t (req (.setSize m f)))
    (hb : b = true → q.valid = false) (hi : L.inv q) :
    L.Safe t (req (.setSize m f)) r (hold g b) (program kind.impl t (.setSize m f)) q := by
  have hp := hk.points (.setSize m f)
  unfold program tbmSurfaceQueueSetSize
  simp only [bind_bind]
  apply pass_valid hb hi
  intro q hi
  apply pass_fail
  · intro hm
    have hm : 0 < m := of_decide_eq_true hm
    simp only [bind_bind]
    apply pass_read
    simp only [safe_ite_bind, bind_bind]
    constructor
    · intro _
      exact pass_unlockGlobal (pass_done hi)
    · intro _
      apply pass_lockQueue
      cases f with
      | true =>
        simp only [if_true, bind_bind]
        apply pass_access
        intro x q' hx
        obtain ⟨p, hp, hx⟩ := Option.bind_eq_some_iff.mp hx
        obtain rfl : { p with queueSize := m } = q' := by simpa using hx
        constructor
        · exact hk.step (.flushSize hm hp signals_leaveCleared) hc hi
        · exact fun _ => pass_leaveCleared
      | false =>
        simp only [Bool.false_eq_true, if_false, bind_bind]
        apply pass_access
        intro x q' hx
        refine ⟨?_, fun hi => pass_leaving hi (by simp)⟩
        split_ifs at hx with hlt
        · obtain ⟨p, hp, hx⟩ := Option.bind_eq_some_iff.mp hx
          obtain rfl : { p with queueSize := m } = q' := by simpa using hx
          exact hk.step (.shrink hm hlt hp) hc hi
        · obtain rfl : { q with queueSize := m } = q' := by simpa using hx
          exact hk.step (.grow hm (not_lt.mp hlt)) hc hi
  · intro _
    exact pass_done hi

theorem destroy (hk : Keeps L kind req) (hc : L.calls t (req .destroy))
    (hb : b = true → q.valid = false) (hi : L.inv q) :
    L.Safe t (req .destroy) r (hold g b) (program kind.impl t .destroy) q := by
  have hp := hk.points .destroy
  unfold program tbmSurfaceQueueDestroy
  simp only [bind_bind]
  apply pass_valid hb hi
  intro q hi
  simp only [bind_bind]
  apply pass_modify (hk.step .invalidate hc hi)
  intro hi
  apply pass_update
  intro q' hq'
  constructor
  · exact hk.step (.deleteNodes rfl hq') hc hi
  · intro hi
    apply pass_notifyDestroy
    apply pass_unlockGlobal
    exact pass_done hi

/-- A waiter says yes if the queue is still valid when it has the mutexes. -/
theorem wait (hk : Keeps L kind req) {d : Cond} {w : Fifo} (hc : L.calls t (req op))
    (ha : op.asks = some (d, w)) (hi : L.inv q) (he : q.queueIsEmpty w = true)
    (hfull : d = .freeCond → Attempted L t q) :
    L.Safe t (req op) r (hold true true) (mutexUnlock .global >>= fun _ =>
      condWait d .queue >>= fun _ => mutexLock .global >>= fun _ => surfaceQueueIsValid >>= fun v =>
        (if (!v) = true then do
          unlockBoth
          pure 0
        else do
          unlockBoth
          pure 1) >>= fun x => pure (.answer x)) q := by
  have hp := hk.points op
  apply pass_unlockGlobal
  rw [safe_condWait]
  intro q₁ hr₁ hi₁
  refine ⟨hk.queryPoint (.wait ha hi he hfull hr₁) hc hi₁, fun q₂ _ hi₂ hback => ?_⟩
  apply pass_lockGlobal
  · simp
  · exact hi₂
  intro q₃ hr₃ hi₃
  apply pass_read
  simp only [safe_ite_bind, bind_bind]
  constructor
  · intro _
    exact pass_leaving hi₃ (by simp)
  · intro hv
    have hv : q₃.valid = true := by simpa using hv
    exact pass_leaving hi₃ fun _ => hk.queryPoint (.woken ha hback hr₃ hv) hc hi₃

/-- The part of a query that looks at the list. -/
theorem query (hk : Keeps L kind req) {d : Cond} {w : Fifo} {m : ℤ} {c : NodeType}
    (hc : L.calls t (req op)) (ha : op.asks = some (d, w)) (hi : L.inv q)
    (hfull : d = .freeCond → q.queueIsEmpty w = true → Attempted L t q) :
    L.Safe t (req op) r (hold true true) (Prog.read (·.queueIsEmpty w) >>= fun e =>
      (if (!e) = true then do
        unlockBoth
        pure 1
      else do
        let outstanding ←
          if m = 0 then pure 0
          else access fun q => do some (← q.surfaceQueueGetNodeCount c, q)
        if outstanding ≠ 0 then
          mutexUnlock .global
          condWait d .queue
          mutexLock .global
          if !(← surfaceQueueIsValid) then
            unlockBoth
            pure 0
          else
            unlockBoth
            pure 1
        else
          unlockBoth
          pure 0) >>= fun x => pure (.answer x)) q := by
  have hp := hk.points op
  apply pass_read
  simp only [safe_ite_bind, bind_bind]
  constructor
  · intro he
    have he : q.queueIsEmpty w = false := by simpa using he
    exact pass_leaving hi fun _ => hk.queryPoint (.yes ha he) hc hi
  · intro he
    have he : q.queueIsEmpty w = true := by simpa using he
    constructor
    · intro _
      exact pass_leaving hi (by simp)
    · intro _
      apply pass_lookup
      intro x _
      simp only [safe_ite_bind, bind_bind]
      constructor
      · intro _
        exact hk.wait hc ha hi he fun hd => hfull hd he
      · intro _
        exact pass_leaving hi (by simp)

theorem canAcquire (hk : Keeps L kind req) {m : ℤ} (hc : L.calls t (req (.canAcquire m)))
    (hb : b = true → q.valid = false) (hi : L.inv q) :
    L.Safe t (req (.canAcquire m)) r (hold g b) (program kind.impl t (.canAcquire m)) q := by
  have hp := hk.points (.canAcquire m)
  unfold program tbmSurfaceQueueCanAcquire
  simp only [bind_bind]
  apply pass_valid hb hi
  intro q hi
  rw [bind_bind]
  apply pass_lockQueue
  rw [bind_bind]
  exact hk.query hc rfl hi (by simp)

theorem canDequeue (hk : Keeps L kind req) {m : ℤ} (hc : L.calls t (req (.canDequeue m)))
    (hb : b = true → q.valid = false) (hi : L.inv q) :
    L.Safe t (req (.canDequeue m)) r (hold g b) (program kind.impl t (.canDequeue m)) q := by
  have hp := hk.points (.canDequeue m)
  unfold program tbmSurfaceQueueCanDequeue
  simp only [bind_bind]
  apply pass_valid hb hi
  intro q hi
  simp only [bind_bind]
  apply pass_unlockGlobal
  apply pass_notify
  intro q hi
  apply pass_valid
  · simp
  · exact hi
  · intro q hi
    rw [bind_bind]
    apply pass_lockQueue
    rw [bind_bind]
    apply pass_read
    rw [kind.callNeedAttach_impl]
    simp only [safe_ite_bind]
    constructor
    · intro _
      rw [bind_bind]
      apply hk.needAttach hc trivial hi
      intro q hi hfull
      rw [bind_bind]
      apply pass_read
      simp only [safe_ite_bind]
      constructor
      · intro hv
        rw [bind_bind]
        apply pass_unlockGlobal
        exact pass_pure (fun _ => by simpa using hv) hi
      · intro _
        rw [bind_bind]
        exact hk.query hc rfl hi fun _ _ => hfull
    · intro he
      rw [pure_then]
      exact hk.query hc rfl hi fun _ he' => absurd he' he

theorem program_safe (hk : Keeps L kind req) (hc : L.calls t (req op))
    (hb : b = true → q.valid = false) (hi : L.inv q) :
    L.Safe t (req op) r (hold g b) (program kind.impl t op) q := by
  cases op with
  | dequeue => exact hk.dequeue hc hb hi
  | enqueue s => exact hk.enqueue hc hb hi
  | acquire => exact hk.acquire hc hb hi
  | release s => exact hk.release hc hb hi
  | canDequeue m => exact hk.canDequeue hc hb hi
  | canAcquire m => exact hk.canAcquire hc hb hi
  | reset w h f => exact hk.reset hc hb hi
  | flush => exact hk.flush hc hb hi
  | setSize m f => exact hk.setSize hc hb hi
  | setAllocCb x y => exact hk.setAllocCb hc hb hi
  | destroy => exact hk.destroy hc hb hi

end Keeps

end Programs

end Tbm.Queue
