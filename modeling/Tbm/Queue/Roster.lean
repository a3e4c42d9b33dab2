import Mathlib.Algebra.GroupWithZero.Nat
import Tbm.Queue.Notify
import Tbm.Queue.State
import Tbm.Bufmgr.Modules

/-! The queues of a process: the list that tells which handles are valid, the notify items that are
registered with each queue, and the reference to the manager that is held for all of them. -/
namespace Tbm.Queue

open Runs
open Bufmgr (Mgr LoadAnswers LoadOp)

/-- The lists of notify and trace items of a queue. -/
inductive NotiKind
  | destoryNoti | dequeuableNoti | dequeueNoti | canDequeueNoti | acquirableNoti | resetNoti
  | traceNoti
  deriving DecidableEq, Repr

namespace NotiKind

def all : List NotiKind :=
  [destoryNoti, dequeuableNoti, dequeueNoti, canDequeueNoti, acquirableNoti, resetNoti, traceNoti]

end NotiKind

/-- The head of `surf_queue_list`, and the `item_link` of the queue at an address. -/
inductive QueueCell
  | head
  | item (q : ℕ)
  deriving DecidableEq, Repr

/-- The lists of a queue. -/
abbrev Notifiers := NotiKind → NotiList

/-- The manager and the queues, up to their lists of items. A queue that is not allocated is
`none`; its address may be given out again. The last two fields are observers: the queues made so
far, and the items that were still allocated when their queue was freed. -/
structure Queues where
  mgr : Bufmgr.Process
  gSurfQueueBufmgr : Option Mgr
  links : Links QueueCell
  queue : ℕ → Option Notifiers
  created : ℕ
  lost : ℕ

/-- The items of a list that are allocated. -/
def NotiList.allocated (l : NotiList) : ℕ := (List.range l.items).countP fun n => (l.item n).isSome

/-- The two functions that remove all items have the same body. -/
def NotiList.removeAll (s : NotiList) : Option NotiList :=
  (Links.forEachSafe (fun s : NotiList => s.links.next) NotiList.entry
    (fun r s => some (false, s.free r.1))
    .head s.fuel (s.links.next .head) (s.links.next (s.links.next .head)) s).map Prod.snd

def NotiList.notifyRemoveAll (s : NotiList) : Option NotiList := s.removeAll

def NotiList.traceRemoveAll (s : NotiList) : Option NotiList := s.removeAll

/-- What a creation is answered: the queue, its `impl_data`, and the search for a backend. -/
structure CreateAnswers where
  queue : Option ℕ
  data : Bool
  load : LoadAnswers

namespace Queues

def initial : Queues where
  mgr := .initial
  gSurfQueueBufmgr := none
  links := Links.inithead ⟨fun _ => .head, fun _ => .head⟩ .head
  queue := fun _ => none
  created := 0
  lost := 0

variable (dir : List Char) (s : Queues)

/-- The manager whose list is looked at is still there. -/
def surfQueueBufmgr : Option Unit :=
  if s.gSurfQueueBufmgr.isSome ∧ s.gSurfQueueBufmgr = s.mgr.gBufMgr then some () else none

/-- `container_of`. -/
def entry : QueueCell → Option ℕ
  | .head => none
  | .item q => if (s.queue q).isSome then some q else none

def surfaceQueueIsValid : Option ℕ → Option Bool
  | none => some false
  | some q =>
    if s.gSurfQueueBufmgr.isNone then some false
    else do
      s.surfQueueBufmgr
      if s.links.isEmpty .head then some false
      else
        let found ← s.links.search s.entry (· = q) .head (s.created + 1) (s.links.next .head)
        some found.isSome

/-- `tbm_bufmgr_init`, with the list of queues in a manager that is made. -/
def bufmgrInit (fd : ℤ) (x : LoadAnswers) : Option Mgr × Queues :=
  let made := s.mgr.gBufMgr.isNone
  let (m, mgr) := s.mgr.tbmBufmgrInit dir fd x
  (m, { s with
    mgr := mgr
    links := if made && m.isSome then s.links.inithead .head else s.links })

def initTbmSurfQueueBufmgr (x : LoadAnswers) : Queues :=
  let (m, s) := s.bufmgrInit dir (-1) x
  { s with gSurfQueueBufmgr := m }

def deinitTbmSurfQueueBufmgr : Option Queues :=
  if s.gSurfQueueBufmgr.isNone then some s
  else do
    let mgr ← s.mgr.tbmBufmgrDeinit s.gSurfQueueBufmgr
    some { s with mgr := mgr, gSurfQueueBufmgr := none }

/-- The end of `_tbm_surface_queue_init`, for a queue at `q`. -/
def surfaceQueueInit (q : ℕ) (x : LoadAnswers) : Option Queues := do
  let s := if s.gSurfQueueBufmgr.isNone then s.initTbmSurfQueueBufmgr dir x else s
  s.surfQueueBufmgr
  some { s with
    queue := Function.update s.queue q (some fun _ => .empty)
    links := s.links.add (.item q) .head
    created := s.created + 1 }

/-- The two functions that create a queue check and allocate alike. -/
def tbmSurfaceQueueCreate (queueSize width height format : ℤ) (x : CreateAnswers) :
    Option (Option ℕ × Queues) :=
  if 0 < queueSize ∧ 0 < width ∧ 0 < height ∧ 0 < format then
    match x.queue with
    | none => some (none, s)
    | some q => if x.data then (s.surfaceQueueInit dir q x.load).map (some q, ·) else some (none, s)
  else some (none, s)

/-- The emission and the seven loops of `tbm_surface_queue_destroy`. -/
def emptyLists (lists : Notifiers) : Option (List Registration × Notifiers) := do
  -- The callbacks run under the mutex that all calls on queues take.
  let (called, noti) ← (lists .destoryNoti).notifyEmit fun _ => []
  let lists := Function.update lists .destoryNoti noti
  let destory ← (lists .destoryNoti).notifyRemoveAll
  let dequeuable ← (lists .dequeuableNoti).notifyRemoveAll
  let dequeue ← (lists .dequeueNoti).notifyRemoveAll
  let canDequeue ← (lists .canDequeueNoti).notifyRemoveAll
  let acquirable ← (lists .acquirableNoti).notifyRemoveAll
  let reset ← (lists .resetNoti).notifyRemoveAll
  let trace ← (lists .traceNoti).traceRemoveAll
  some (called, fun
    | .destoryNoti => destory
    | .dequeuableNoti => dequeuable
    | .dequeueNoti => dequeue
    | .canDequeueNoti => canDequeue
    | .acquirableNoti => acquirable
    | .resetNoti => reset
    | .traceNoti => trace)

/-- `free` of a queue. -/
def freeQueue (q : ℕ) (lists : Notifiers) : Queues :=
  { s with
    queue := Function.update s.queue q none
    lost := s.lost + (NotiKind.all.map fun k => (lists k).allocated).sum }

/-- With the destroy callbacks that are called. -/
def tbmSurfaceQueueDestroy (q : Option ℕ) : Option (List Registration × Queues) := do
  if ← s.surfaceQueueIsValid q then
    let q ← q
    let s := { s with links := s.links.del (.item q) }
    let lists ← s.queue q
    let (called, lists) ← emptyLists lists
    let s := s.freeQueue q lists
    s.surfQueueBufmgr
    if s.links.isEmpty .head then
      let s ← s.deinitTbmSurfQueueBufmgr
      some (called, s)
    else some (called, s)
  else some ([], s)

/-- What the functions that take a queue and work on one of its lists have in common. -/
def onList (q : Option ℕ) (k : NotiKind) (f : NotiList → Option NotiList) :
    Option (Error × Queues) := do
  if ← s.surfaceQueueIsValid q then
    let q ← q
    let lists ← s.queue q
    let l ← f (lists k)
    some (.none, { s with queue := Function.update s.queue q (some (Function.update lists k l)) })
  else some (.invalidQueue, s)

/-- What the functions that add a callback have in common. -/
def addCb (k : NotiKind) (q : Option ℕ) (cb : Option NotiCb) (data : Option ℕ) (ok : Bool) :
    Option (Error × Queues) :=
  s.onList q k fun l =>
    some (if k = .traceNoti then l.traceAdd cb data ok else l.notifyAdd cb data ok)

/-- What the functions that remove a callback have in common. -/
def removeCb (k : NotiKind) (q : Option ℕ) (cb : Option NotiCb) (data : Option ℕ) :
    Option (Error × Queues) :=
  s.onList q k fun l => if k = .traceNoti then l.traceRemove cb data else l.notifyRemove cb data

def tbmSurfaceQueueAddDestroyCb := s.addCb .destoryNoti

def tbmSurfaceQueueRemoveDestroyCb := s.removeCb .destoryNoti

def tbmSurfaceQueueAddDequeuableCb := s.addCb .dequeuableNoti

def tbmSurfaceQueueRemoveDequeuableCb := s.removeCb .dequeuableNoti

def tbmSurfaceQueueAddDequeueCb := s.addCb .dequeueNoti

def tbmSurfaceQueueRemoveDequeueCb := s.removeCb .dequeueNoti

def tbmSurfaceQueueAddCanDequeueCb := s.addCb .canDequeueNoti

def tbmSurfaceQueueRemoveCanDequeueCb := s.removeCb .canDequeueNoti

def tbmSurfaceQueueAddAcquirableCb := s.addCb .acquirableNoti

def tbmSurfaceQueueRemoveAcquirableCb := s.removeCb .acquirableNoti

def tbmSurfaceQueueAddResetCb := s.addCb .resetNoti

def tbmSurfaceQueueRemoveResetCb := s.removeCb .resetNoti

def tbmSurfaceQueueAddTraceCb := s.addCb .traceNoti

def tbmSurfaceQueueRemoveTraceCb := s.removeCb .traceNoti

/-- With the reset callbacks that are called, under no mutex. -/
def tbmSurfaceQueueNotifyReset (q : Option ℕ) (client : Client) :
    Option ((Error × List Registration) × Queues) := do
  if ← s.surfaceQueueIsValid q then
    let q ← q
    let lists ← s.queue q
    let (called, l) ← (lists .resetNoti).notifyEmit client
    some ((.none, called),
      { s with queue := Function.update s.queue q (some (Function.update lists .resetNoti l)) })
  else some ((.invalidQueue, []), s)

end Queues

/-- The calls on queues of any thread; `other` is what else is done with the manager. -/
inductive QueueCall
  | create (queueSize width height format : ℤ) (x : CreateAnswers)
  | destroy (q : Option ℕ)
  | addCb (k : NotiKind) (q : Option ℕ) (cb : Option NotiCb) (data : Option ℕ) (ok : Bool)
  | removeCb (k : NotiKind) (q : Option ℕ) (cb : Option NotiCb) (data : Option ℕ)
  | notifyReset (q : Option ℕ) (client : Client)
  | isValid (q : Option ℕ)
  | other (op : LoadOp)

inductive QueueReply
  | queue (q : Option ℕ)
  | destroyed (called : List Registration)
  | error (e : Error)
  | notified (r : Error × List Registration)
  | valid (b : Bool)
  | other
  deriving DecidableEq, Repr

namespace Queues

variable (dir : List Char)

/-- What the rest of the process does with the manager. -/
def stepOther (op : LoadOp) (s : Queues) : Option Queues :=
  match op with
  | .init fd x => some (s.bufmgrInit dir fd x).2
  | .deinit m => (s.mgr.tbmBufmgrDeinit m).map fun mgr => { s with mgr := mgr }
  | .call => s.mgr.callBackend.map fun _ => s
  | .getCapability _ => some s

def step : QueueCall → Queues → Option (QueueReply × Queues)
  | .create queueSize width height format x, s =>
    (s.tbmSurfaceQueueCreate dir queueSize width height format x).map fun r => (.queue r.1, r.2)
  | .destroy q, s => (s.tbmSurfaceQueueDestroy q).map fun r => (.destroyed r.1, r.2)
  | .addCb k q cb data ok, s => (s.addCb k q cb data ok).map fun r => (.error r.1, r.2)
  | .removeCb k q cb data, s => (s.removeCb k q cb data).map fun r => (.error r.1, r.2)
  | .notifyReset q client, s =>
    (s.tbmSurfaceQueueNotifyReset q client).map fun r => (.notified r.1, r.2)
  | .isValid q, s => (s.surfaceQueueIsValid q).map fun b => (.valid b, s)
  | .other op, s => (s.stepOther dir op).map (.other, ·)

end Queues

/-- A list of items, with the number of the next one. -/
structure Items where
  next : ℕ
  regs : List Registration

def Items.add (l : Items) (cb : Option NotiCb) (data : Option ℕ) (ok : Bool) : Items :=
  match cb with
  | none => l
  | some cb => if ok then ⟨l.next + 1, l.regs ++ [(l.next, ⟨cb, data⟩)]⟩ else l

def Items.remove (l : Items) (r : Option NotiCb × Option ℕ) : Items :=
  { l with regs := removeFirst l.regs r }

/-- What the lists are for: the queues that are there, and for each of them what is registered. -/
structure Roster where
  live : List ℕ
  items : ℕ → NotiKind → Items

namespace Roster

def empty : Roster := ⟨[], fun _ _ => ⟨0, []⟩⟩

variable (r : Roster)

/-- A handle is valid while its queue is there. -/
def Valid (q : Option ℕ) : Prop := ∃ n ∈ r.live, q = some n

instance (q : Option ℕ) : Decidable (r.Valid q) :=
  inferInstanceAs (Decidable (∃ n ∈ r.live, q = some n))

def set (q : ℕ) (k : NotiKind) (l : Items) : Roster :=
  { r with items := Function.update r.items q (Function.update (r.items q) k l) }

/-- A change of one list of a queue. -/
def onList (q : Option ℕ) (k : NotiKind) (f : Items → Items) : Error × Roster :=
  match q with
  | none => (.invalidQueue, r)
  | some q => if q ∈ r.live then (.none, r.set q k (f (r.items q k))) else (.invalidQueue, r)

def next : QueueCall → Roster → QueueReply × Roster
  | .create queueSize width height format x, r =>
    if 0 < queueSize ∧ 0 < width ∧ 0 < height ∧ 0 < format ∧ x.data then
      match x.queue with
      | none => (.queue none, r)
      | some q =>
        (.queue (some q), ⟨q :: r.live, Function.update r.items q fun _ => ⟨0, []⟩⟩)
    else (.queue none, r)
  | .destroy none, r => (.destroyed [], r)
  | .destroy (some q), r =>
    if q ∈ r.live then
      (.destroyed (r.items q .destoryNoti).regs, { r with live := r.live.erase q })
    else (.destroyed [], r)
  | .addCb k q cb data ok, r =>
    let (e, r) := r.onList q k (·.add cb data ok)
    (.error e, r)
  | .removeCb k q cb data, r =>
    let (e, r) := r.onList q k (·.remove (cb, data))
    (.error e, r)
  | .notifyReset none _, r => (.notified (.invalidQueue, []), r)
  | .notifyReset (some q) client, r =>
    if q ∈ r.live then
      let l := r.items q .resetNoti
      let (called, regs) := emission client 0 l.regs l.regs
      (.notified (.none, called), r.set q .resetNoti { l with regs := regs })
    else (.notified (.invalidQueue, []), r)
  | .isValid q, r => (.valid (r.Valid q), r)
  | .other _, r => (.other, r)

end Roster

/-- The items that are registered, by a walk. -/
def NotiList.registered (l : NotiList) : Option (List Registration) :=
  l.links.entries l.entry .head l.fuel (l.links.next .head)

/-- The search for a backend that a call may make. -/
def QueueCall.load : QueueCall → Option (ℤ × LoadAnswers)
  | .create _ _ _ _ x => some (-1, x.load)
  | .other (.init fd x) => some (fd, x)
  | _ => none

namespace Queues

/-- `calloc` gives out no memory that is in use, and there is a manager for the first queue; the
callbacks spare the item after their own; and the rest of the process gives back no reference to the
manager but its own. -/
def Sane (dir : List Char) (s : Queues) : QueueCall → Prop
  | .create queueSize width height format x => ∀ q ∈ x.queue, s.queue q = none ∧
    (0 < queueSize ∧ 0 < width ∧ 0 < height ∧ 0 < format ∧ x.data ∧
      s.gSurfQueueBufmgr = none → (s.mgr.tbmBufmgrInit dir (-1) x.load).1.isSome)
  | .notifyReset q client => ∀ lists ∈ q.bind s.queue, ∀ L ∈ (lists .resetNoti).registered,
    SparesNext client 0 L L
  | .other (.deinit m) => m = none ∨ s.mgr.gBufMgr = none ∨
    m = s.mgr.gBufMgr ∧ (if s.gSurfQueueBufmgr.isSome then 1 else 0) < s.mgr.refCount
  | .other .call => s.mgr.gBufMgr.isSome
  | _ => True

instance (dir : List Char) (s : Queues) : DecidablePred (s.Sane dir)
  | .create _ _ _ _ _ => inferInstanceAs (Decidable (∀ q ∈ _, _ ∧ (_ → _)))
  | .notifyReset _ _ => inferInstanceAs (Decidable (∀ lists ∈ _, ∀ L ∈ _, _))
  | .other (.deinit _) => inferInstanceAs (Decidable (_ ∨ _ ∨ _ ∧ _))
  | .other .call => inferInstanceAs (Decidable (_ = true))
  | .other (.init _ _) | .other (.getCapability _) | .destroy _ | .addCb _ _ _ _ _
  | .removeCb _ _ _ _ | .isValid _ => isTrue trivial

/-- The queues are as the roster has them, and one reference to the manager is held just while
there are some. -/
structure Holds (s : Queues) (r : Roster) : Prop where
  loaded : s.mgr.Loaded
  held : s.gSurfQueueBufmgr.isSome ↔ r.live ≠ []
  mgr : s.gSurfQueueBufmgr.isSome → s.gSurfQueueBufmgr = s.mgr.gBufMgr
  ring : s.mgr.gBufMgr.isSome → s.links.Ring .head (r.live.map .item)
  queue : ∀ q, (s.queue q).isSome ↔ q ∈ r.live
  length_le : r.live.length ≤ s.created
  registered : ∀ q lists, s.queue q = some lists → ∀ k,
    Registered (lists k) (r.items q k).regs ∧ (lists k).items = (r.items q k).next
  lost : s.lost = 0

end Queues

section Lists

variable {s : NotiList} {L : List Registration} {l : Items} {cb : Option NotiCb} {data : Option ℕ}
  {ok : Bool}

theorem Registered.registered_eq (h : Registered s L) : s.registered = some L := by
  apply h.ring.entries_eq
  · exact fun e he => h.entry_eq he
  · exact h.length_lt

theorem Registered.allocated_eq (h : Registered s []) : s.allocated = 0 := by
  apply List.countP_eq_zero.mpr
  intro n _ hn
  obtain ⟨e, he, -⟩ := h.only n hn
  cases he

theorem Registered.removeAll (h : Registered s L) :
    ∃ s', s.removeAll = some s' ∧ Registered s' [] := by
  obtain ⟨hpos, hstor⟩ := h.ring.forEachSafe_start
  obtain ⟨vs, t, he, ht⟩ := Links.forEachSafe_spec
    (fun s : NotiList => s.links.next) NotiList.entry (fun r s => some (false, s.free r.1))
    (fun e : Registration => NotiCell.item e.1) .head (fun as t => Registered t as)
    (fun _ t => Registered t [])
    (fun a as t hI => ⟨by simp, hI.entry_eq List.mem_cons_self, hI.ring.next_first⟩)
    (fun a as t hI => by
      have hfree : Registered (t.free a.1) ([] ++ as) := hI.free
      refine ⟨false, t.free a.1, rfl, ?_⟩
      rw [if_neg Bool.false_ne_true]
      exact ⟨hfree, fun _ _ hQ => hQ⟩)
    (fun t hI => hI) h.length_lt h hstor
  rw [← hpos] at he
  exact ⟨t, by rw [NotiList.removeAll, he]; rfl, ht⟩

theorem emission_idle (k : ℕ) (L : List Registration) (ahead : List Registration)
    (h : ∀ e ∈ ahead, e ∈ L) : emission (fun _ => []) k ahead L = (ahead, L) ∧
      SparesNext (fun _ => []) k ahead L := by
  induction ahead generalizing k with
  | nil => exact ⟨rfl, trivial⟩
  | cons e ahead ih =>
    obtain ⟨he, hrest⟩ := List.forall_mem_cons.mp h
    obtain ⟨hcalled, hspares⟩ := ih (k + 1) hrest
    rw [emission, SparesNext, if_pos he, if_pos he]
    refine ⟨by rw [List.foldl_nil, hcalled], fun b hb => ?_, hspares⟩
    simpa using List.find?_some hb

theorem emptyLists_spec {lists : Notifiers} {r : NotiKind → Items}
    (h : ∀ k, Registered (lists k) (r k).regs) : ∃ lists',
      Queues.emptyLists lists = some ((r .destoryNoti).regs, lists') ∧
        ∀ k, Registered (lists' k) [] := by
  have hidle := emission_idle 0 (r .destoryNoti).regs (r .destoryNoti).regs fun _ h => h
  obtain ⟨noti, hemit, hnoti⟩ := emit_spares (h .destoryNoti) hidle.2
  rw [hidle.1] at hemit hnoti
  have hremove (k : NotiKind) : ∃ l, (Function.update lists .destoryNoti noti k).removeAll =
      some l ∧ Registered l [] := by
    by_cases hk : k = .destoryNoti
    · subst hk
      rw [Function.update_self]
      exact hnoti.removeAll
    · rw [Function.update_of_ne hk]
      exact (h k).removeAll
  choose l hl hreg using hremove
  refine ⟨l, ?_, hreg⟩
  unfold Queues.emptyLists NotiList.notifyEmit NotiList.notifyRemoveAll NotiList.traceRemoveAll
  simp only [hemit, hl, Option.bind_eq_bind, Option.bind_some, Option.some.injEq, Prod.mk.injEq,
    true_and]
  funext k
  cases k <;> rfl

/-- Adding an item does to a list what it does to the roster. -/
theorem Registered.added (h : Registered s l.regs ∧ s.items = l.next) :
    Registered (s.add cb data ok) (l.add cb data ok).regs ∧
      (s.add cb data ok).items = (l.add cb data ok).next := by
  cases cb with
  | none => exact h
  | some cb =>
    cases ok with
    | false => exact h
    | true =>
      have hadd := h.1.add cb data
      rw [h.2] at hadd
      exact ⟨hadd, congrArg (· + 1) h.2⟩

theorem NotiList.remove_items {s s' : NotiList} (h : s.remove cb data = some s') :
    s'.items = s.items := by
  obtain ⟨⟨vs, t⟩, he, rfl⟩ := Option.map_eq_some_iff.mp h
  refine Links.forEachSafe_preserves (fun t : NotiList => t.items = s.items) ?_ rfl he
  intro c a t stop t' _ hP hb
  split_ifs at hb <;> cases hb <;> exact hP

theorem NotiList.removals_items {s s' : NotiList} {rs : List (Option NotiCb × Option ℕ)}
    (h : s.removals rs = some s') : s'.items = s.items := by
  induction rs generalizing s with
  | nil =>
    cases h
    rfl
  | cons r rs ih =>
    obtain ⟨t, hr, hrs⟩ := Option.bind_eq_some_iff.mp h
    exact (ih hrs).trans (NotiList.remove_items hr)

theorem NotiList.emit_items {s s' : NotiList} {client : Client} {called : List Registration}
    (h : s.emit client = some (called, s')) : s'.items = s.items := by
  obtain ⟨⟨vs, m, t⟩, he, hr⟩ := Option.map_eq_some_iff.mp h
  cases hr
  refine Links.forEachSafe_preserves (fun r : ℕ × NotiList => r.2.items = s.items) ?_ rfl he
  intro c a t stop t' _ hP hb
  obtain ⟨u, hu, heq⟩ := Option.map_eq_some_iff.mp hb
  cases heq
  exact (NotiList.removals_items hu).trans hP

theorem Registered.removed (h : Registered s l.regs ∧ s.items = l.next) : ∃ s',
    s.remove cb data = some s' ∧ Registered s' (l.remove (cb, data)).regs ∧
      s'.items = (l.remove (cb, data)).next := by
  obtain ⟨s', hs, hs'⟩ := h.1.remove (cb, data)
  exact ⟨s', hs, hs', (NotiList.remove_items hs).trans h.2⟩

end Lists

namespace Queues.Holds

variable {dir : List Char} {s : Queues} {r : Roster} {q : ℕ}

theorem initial : Queues.initial.Holds .empty where
  loaded := Bufmgr.Process.loaded_initial
  held := by simp [Queues.initial, Roster.empty]
  mgr := by simp [Queues.initial]
  ring := by simp [Queues.initial, Bufmgr.Process.initial]
  queue := by simp [Queues.initial, Roster.empty]
  length_le := Nat.le_refl _
  registered := by simp [Queues.initial]
  lost := rfl

theorem bufmgr_isSome (h : s.Holds r) (hg : s.gSurfQueueBufmgr.isSome) : s.mgr.gBufMgr.isSome := by
  rw [← h.mgr hg]
  exact hg

theorem surfQueueBufmgr (h : s.Holds r) (hg : s.gSurfQueueBufmgr.isSome) :
    s.surfQueueBufmgr = some () := if_pos ⟨hg, h.mgr hg⟩

/-- A handle is valid just if its queue has been created and not been destroyed since. -/
theorem isValid (h : s.Holds r) (q : Option ℕ) :
    s.surfaceQueueIsValid q = some (decide (r.Valid q)) := by
  cases q with
  | none => simp [surfaceQueueIsValid, Roster.Valid]
  | some q =>
    have hvalid : r.Valid (some q) ↔ q ∈ r.live := by simp [Roster.Valid]
    simp only [hvalid]
    unfold surfaceQueueIsValid
    by_cases hg : s.gSurfQueueBufmgr.isSome
    · have hring := h.ring (h.bufmgr_isSome hg)
      have hempty : s.links.isEmpty .head = false := by
        rw [Bool.eq_false_iff, ne_eq, hring.isEmpty_iff, List.map_eq_nil_iff]
        exact h.held.mp hg
      have hentry : ∀ q ∈ r.live, s.entry (.item q) = some q := fun q hq =>
        if_pos ((h.queue q).mpr hq)
      have hsearch := hring.search_eq (p := (· = q)) hentry (Nat.lt_succ_of_le h.length_le)
      have hfound : (r.live.find? (· = q)).isSome = decide (q ∈ r.live) := by
        rw [Bool.eq_iff_iff]
        simp
      simp only [Option.isNone_iff_eq_none, Option.isSome_iff_ne_none.mp hg, if_false,
        h.surfQueueBufmgr hg, hempty, Bool.false_eq_true, hsearch, hfound, Option.bind_eq_bind,
        Option.bind_some]
    · have hlive : r.live = [] := by
        by_contra hne
        exact hg (h.held.mpr hne)
      have hnone : s.gSurfQueueBufmgr.isNone := by simpa using hg
      simp [hnone, hlive]

theorem bufmgrInit (h : s.Holds r) {fd : ℤ} {x : LoadAnswers} (hf : x.files.HandsOver fd) :
    (s.bufmgrInit dir fd x).2.Holds r := by
  have hloaded : (s.mgr.tbmBufmgrInit dir fd x).2.Loaded := h.loaded.init hf
  unfold Queues.bufmgrInit
  refine ⟨hloaded, h.held, fun hg => ?_, fun hsome => ?_, h.queue, h.length_le, h.registered,
    h.lost⟩
  · rw [h.mgr hg]
    exact (Bufmgr.Process.tbmBufmgrInit_gBufMgr (h.bufmgr_isSome hg)).symm
  · by_cases hold : s.mgr.gBufMgr.isSome
    · have hnot : s.mgr.gBufMgr.isNone = false := by simpa using hold
      simp only [hnot, Bool.false_and]
      exact h.ring hold
    · -- the list of a manager that is made is empty, and so is the roster
      have hlive : r.live = [] := by
        by_contra hne
        exact hold (h.bufmgr_isSome (h.held.mpr hne))
      have hnone : s.mgr.gBufMgr.isNone = true := by simpa using hold
      have hmade : (s.mgr.tbmBufmgrInit dir fd x).1.isSome = true := by
        rw [Bufmgr.Process.tbmBufmgrInit_fst]
        exact hsome
      simp only [hnone, hmade, hlive, Bool.and_true, if_true, List.map_nil]
      rw [Links.ring_nil]
      simp

/-- A queue is linked, and the manager is kept for it. -/
theorem linked (h : s.Holds r) (hm : s.mgr.gBufMgr.isSome) (hq : s.queue q = none) :
    Queues.Holds
      { s with
        gSurfQueueBufmgr := s.mgr.gBufMgr
        queue := Function.update s.queue q (some fun _ => .empty)
        links := s.links.add (.item q) .head
        created := s.created + 1 }
      ⟨q :: r.live, Function.update r.items q fun _ => ⟨0, []⟩⟩ := by
  have hnew : q ∉ r.live := by
    intro hmem
    have hsome := (h.queue q).mpr hmem
    simp [hq] at hsome
  refine ⟨h.loaded, by simp [hm], fun _ => rfl, fun _ => ?_, fun q' => ?_, ?_, ?_, h.lost⟩
  · apply (h.ring hm).add
    simp [hnew]
  · simp only [Function.update_apply, List.mem_cons]
    split_ifs with heq
    · simp [heq]
    · rw [h.queue q']
      simp [heq]
  · simpa using h.length_le
  · intro q' lists hlists k
    simp only [Function.update_apply] at hlists ⊢
    split_ifs at hlists ⊢ with heq
    · cases hlists
      exact ⟨empty_registered, rfl⟩
    · exact h.registered q' lists hlists k

theorem init (h : s.Holds r) {x : LoadAnswers} (hf : x.files.HandsOver (-1)) (hq : s.queue q = none)
    (hm : s.gSurfQueueBufmgr = none → (s.mgr.tbmBufmgrInit dir (-1) x).1.isSome) :
    ∃ s', s.surfaceQueueInit dir q x = some s' ∧
      s'.Holds ⟨q :: r.live, Function.update r.items q fun _ => ⟨0, []⟩⟩ := by
  unfold surfaceQueueInit
  cases hg : s.gSurfQueueBufmgr with
  | some m =>
    have hsome : s.gSurfQueueBufmgr.isSome := by simp [hg]
    have hnew := h.linked (h.bufmgr_isSome hsome) hq
    rw [← h.mgr hsome, hg] at hnew
    simp only [Option.isNone_some, Bool.false_eq_true, if_false, h.surfQueueBufmgr hsome,
      Option.bind_eq_bind, Option.bind_some]
    refine ⟨_, rfl, ?_⟩
    rw [hg]
    exact hnew
  | none =>
    have hinit : (s.bufmgrInit dir (-1) x).2.Holds r := h.bufmgrInit hf
    have hfst : (s.mgr.tbmBufmgrInit dir (-1) x).1 = (s.bufmgrInit dir (-1) x).2.mgr.gBufMgr :=
      Bufmgr.Process.tbmBufmgrInit_fst
    have hmade : (s.bufmgrInit dir (-1) x).2.mgr.gBufMgr.isSome := by
      rw [← hfst]
      exact hm hg
    have hnew := hinit.linked hmade hq
    rw [← hfst] at hnew hmade
    have hlook : (s.initTbmSurfQueueBufmgr dir x).surfQueueBufmgr = some () := if_pos ⟨hmade, hfst⟩
    simp only [Option.isNone_none, if_true, hlook, Option.bind_eq_bind, Option.bind_some]
    exact ⟨_, rfl, hnew⟩

/-- A call is answered as by the roster, and the queues are as the roster has them again. -/
def Answered (dir : List Char) (s : Queues) (r : Roster) (c : QueueCall) : Prop :=
  ∃ s', step dir c s = some ((r.next c).1, s') ∧ s'.Holds (r.next c).2

theorem create (h : s.Holds r) {queueSize width height format : ℤ} {x : CreateAnswers}
    (hf : x.load.files.HandsOver (-1)) (hs : s.Sane dir (.create queueSize width height format x)) :
    Answered dir s r (.create queueSize width height format x) := by
  obtain ⟨q, data, load⟩ := x
  rw [Answered, Queues.step, Roster.next, tbmSurfaceQueueCreate]
  by_cases hpos : 0 < queueSize ∧ 0 < width ∧ 0 < height ∧ 0 < format
  · cases q with
    | none => exact ⟨s, by simp [hpos], by simpa using h⟩
    | some q =>
      cases data with
      | false => exact ⟨s, by simp [hpos], by simpa using h⟩
      | true =>
        obtain ⟨hfree, hm⟩ := hs q rfl
        obtain ⟨s', hinit, hs'⟩ := h.init hf hfree fun hg =>
          hm ⟨hpos.1, hpos.2.1, hpos.2.2.1, hpos.2.2.2, rfl, hg⟩
        exact ⟨s', by simp [hpos, hinit], by simpa [hpos] using hs'⟩
  · have hno : ¬(0 < queueSize ∧ 0 < width ∧ 0 < height ∧ 0 < format ∧ data = true) := by
      tauto
    rw [if_neg hpos, if_neg hno]
    exact ⟨s, rfl, h⟩

/-- A list of a queue is changed, and what is registered in it. -/
theorem set (h : s.Holds r) {lists : Notifiers} {k : NotiKind} {l : NotiList} {l' : Items}
    (hlists : s.queue q = some lists) (hl : Registered l l'.regs ∧ l.items = l'.next) :
    Queues.Holds { s with queue := Function.update s.queue q (some (Function.update lists k l)) }
      (r.set q k l') := by
  have hlive : q ∈ r.live := (h.queue q).mp (by simp [hlists])
  refine ⟨h.loaded, h.held, h.mgr, h.ring, fun q' => ?_, h.length_le, ?_, h.lost⟩
  · simp only [Function.update_apply]
    split_ifs with heq
    · simp [heq, Roster.set, hlive]
    · exact h.queue q'
  · intro q' lists' hlists' k'
    simp only [Roster.set, Function.update_apply] at hlists' ⊢
    split_ifs at hlists' ⊢ with heq
    · obtain rfl := Option.some.inj hlists'
      rw [Function.update_apply, Function.update_apply]
      split_ifs with hk
      · exact hl
      · exact h.registered q lists hlists k'
    · exact h.registered q' lists' hlists' k'

theorem lists (h : s.Holds r) (hq : q ∈ r.live) : ∃ lists, s.queue q = some lists :=
  Option.isSome_iff_exists.mp ((h.queue q).mpr hq)

theorem onList (h : s.Holds r) (q : Option ℕ) (k : NotiKind) {f : NotiList → Option NotiList}
    {g : Items → Items} (hf : ∀ l l', Registered l l'.regs ∧ l.items = l'.next →
      ∃ m, f l = some m ∧ Registered m (g l').regs ∧ m.items = (g l').next) :
    ∃ s', s.onList q k f = some ((r.onList q k g).1, s') ∧ s'.Holds (r.onList q k g).2 := by
  unfold Queues.onList Roster.onList
  rw [h.isValid q]
  cases q with
  | none => exact ⟨s, by simp [Roster.Valid], h⟩
  | some q =>
    have hvalid : r.Valid (some q) ↔ q ∈ r.live := by simp [Roster.Valid]
    simp only [hvalid, decide_eq_true_eq, Option.bind_eq_bind, Option.bind_some]
    split_ifs with hq
    · obtain ⟨lists, hlists⟩ := h.lists hq
      obtain ⟨m, hm, hreg⟩ := hf _ _ (h.registered q lists hlists k)
      exact ⟨_, by rw [hlists, Option.bind_some, hm]; rfl, h.set hlists hreg⟩
    · exact ⟨s, rfl, h⟩

theorem addCb (h : s.Holds r) (k : NotiKind) (q : Option ℕ) (cb : Option NotiCb)
    (data : Option ℕ) (ok : Bool) : Answered dir s r (.addCb k q cb data ok) := by
  obtain ⟨s', hs, hs'⟩ := h.onList q k (g := (·.add cb data ok))
    (f := fun l => some (if k = .traceNoti then l.traceAdd cb data ok else l.notifyAdd cb data ok))
    (fun l l' hl => by
      unfold NotiList.traceAdd NotiList.notifyAdd
      rw [ite_self]
      exact ⟨_, rfl, Registered.added hl⟩)
  refine ⟨s', ?_, hs'⟩
  rw [Queues.step, Queues.addCb, hs]
  rfl

theorem removeCb (h : s.Holds r) (k : NotiKind) (q : Option ℕ) (cb : Option NotiCb)
    (data : Option ℕ) : Answered dir s r (.removeCb k q cb data) := by
  obtain ⟨s', hs, hs'⟩ := h.onList q k (g := (·.remove (cb, data)))
    (f := fun l => if k = .traceNoti then l.traceRemove cb data else l.notifyRemove cb data)
    (fun l l' hl => by
      unfold NotiList.traceRemove NotiList.notifyRemove
      rw [ite_self]
      exact Registered.removed hl)
  refine ⟨s', ?_, hs'⟩
  rw [Queues.step, Queues.removeCb, hs]
  rfl

theorem notifyReset (h : s.Holds r) {q : Option ℕ} {client : Client}
    (hs : s.Sane dir (.notifyReset q client)) : Answered dir s r (.notifyReset q client) := by
  rw [Answered, Queues.step, tbmSurfaceQueueNotifyReset, h.isValid q]
  cases q with
  | none => exact ⟨s, by simp [Roster.Valid, Roster.next], h⟩
  | some q =>
    have hvalid : r.Valid (some q) ↔ q ∈ r.live := by simp [Roster.Valid]
    simp only [Roster.next, hvalid, decide_eq_true_eq, Option.bind_eq_bind, Option.bind_some]
    split_ifs with hq
    · obtain ⟨lists, hlists⟩ := h.lists hq
      have hl := h.registered q lists hlists .resetNoti
      have hspares := hs lists (by simpa using hlists) _ hl.1.registered_eq
      obtain ⟨l, hemit, hreg⟩ := emit_spares hl.1 hspares
      have hitems := (NotiList.emit_items hemit).trans hl.2
      refine ⟨_, ?_, h.set hlists (l := l) ⟨hreg, hitems⟩⟩
      rw [hlists, Option.bind_some, NotiList.notifyEmit, hemit]
      rfl
    · exact ⟨s, rfl, h⟩

/-- A queue is unlinked and freed, and the reference to the manager is given back or not. -/
theorem freed (h : s.Holds r) (hq : q ∈ r.live) {lists : Notifiers}
    (hlists : ∀ k, Registered (lists k) []) {g : Option Mgr} {mgr : Bufmgr.Process}
    (hloaded : mgr.Loaded) (hheld : g.isSome ↔ r.live.erase q ≠ [])
    (hg : g.isSome → g = mgr.gBufMgr) :
    Queues.Holds
      { (Queues.freeQueue { s with links := s.links.del (.item q) } q lists) with
        mgr := mgr
        gSurfQueueBufmgr := g }
      { r with live := r.live.erase q } := by
  have hring := h.ring (h.bufmgr_isSome (h.held.mpr (List.ne_nil_of_mem hq)))
  have hnodup : r.live.Nodup := List.Nodup.of_map _ hring.list_nodup
  refine ⟨hloaded, hheld, hg, fun _ => ?_, fun q' => ?_, ?_, ?_, ?_⟩
  · have hinj : Function.Injective QueueCell.item := fun _ _ h => QueueCell.item.inj h
    have hdel := hring.del_erase (List.mem_map_of_mem hq)
    rw [← List.map_erase hinj] at hdel
    exact hdel
  · simp only [freeQueue, Function.update_apply, hnodup.mem_erase_iff]
    split_ifs with heq
    · simp [heq]
    · rw [h.queue q']
      simp [heq]
  · have hle := List.length_erase_le (a := q) (l := r.live)
    exact Nat.le_trans hle h.length_le
  · intro q' lists' hlists' k
    simp only [freeQueue, Function.update_apply] at hlists'
    split_ifs at hlists'
    exact h.registered q' lists' hlists' k
  · simp [freeQueue, h.lost, (hlists _).allocated_eq]

theorem destroy (h : s.Holds r) (q : Option ℕ) : Answered dir s r (.destroy q) := by
  rw [Answered, Queues.step, tbmSurfaceQueueDestroy, h.isValid q]
  cases q with
  | none => exact ⟨s, by simp [Roster.Valid, Roster.next], h⟩
  | some q =>
    have hvalid : r.Valid (some q) ↔ q ∈ r.live := by simp [Roster.Valid]
    simp only [Roster.next, hvalid, decide_eq_true_eq, Option.bind_eq_bind, Option.bind_some]
    split_ifs with hq
    · obtain ⟨lists, hlists⟩ := h.lists hq
      obtain ⟨lists', hempty, hlists'⟩ :=
        emptyLists_spec fun k => (h.registered q lists hlists k).1
      have hg := h.held.mpr (List.ne_nil_of_mem hq)
      have hlook : (Queues.freeQueue { s with links := s.links.del (.item q) } q
          lists').surfQueueBufmgr = some () := h.surfQueueBufmgr hg
      have hring := h.ring (h.bufmgr_isSome hg)
      have hinj : Function.Injective QueueCell.item := fun _ _ h => QueueCell.item.inj h
      have hdel := hring.del_erase (List.mem_map_of_mem hq)
      rw [← List.map_erase hinj] at hdel
      have hlast : (s.links.del (.item q)).isEmpty .head = true ↔ r.live.erase q = [] := by
        rw [hdel.isEmpty_iff, List.map_eq_nil_iff]
      simp only [hlists, hempty, hlook, Option.bind_some]
      by_cases hnil : r.live.erase q = []
      · -- the last queue gives the reference back
        have hsane : s.mgr.Sane (.deinit s.gSurfQueueBufmgr) := .inr (.inr (h.mgr hg))
        obtain ⟨mgr, hmgr, hloaded⟩ := h.loaded.deinit hsane
        have hdeinit : (Queues.freeQueue { s with links := s.links.del (.item q) } q
            lists').deinitTbmSurfQueueBufmgr = some
              { (Queues.freeQueue { s with links := s.links.del (.item q) } q lists') with
                mgr := mgr
                gSurfQueueBufmgr := none } := by
          have hsome : s.gSurfQueueBufmgr.isNone = false := by simpa using hg
          simp [deinitTbmSurfQueueBufmgr, freeQueue, hsome, hmgr]
        have hempty' : (Queues.freeQueue { s with links := s.links.del (.item q) } q
            lists').links.isEmpty .head = true := hlast.mpr hnil
        rw [if_pos hempty', hdeinit]
        exact ⟨_, rfl, h.freed hq hlists' hloaded (g := none) (by simp [hnil]) (by simp)⟩
      · have hne : (Queues.freeQueue { s with links := s.links.del (.item q) } q
            lists').links.isEmpty .head ≠ true := fun he => hnil (hlast.mp he)
        rw [if_neg hne]
        exact ⟨_, rfl, h.freed hq hlists' h.loaded (by simp [hnil, hg]) h.mgr⟩
    · exact ⟨s, rfl, h⟩

theorem other (h : s.Holds r) {op : LoadOp} (hs : s.Sane dir (.other op))
    (hf : ∀ fd x, op = .init fd x → x.files.HandsOver fd) : Answered dir s r (.other op) := by
  rw [Answered, Queues.step, Roster.next]
  unfold stepOther
  cases op with
  | init fd x => exact ⟨_, rfl, h.bufmgrInit (hf fd x rfl)⟩
  | call =>
    simp only [h.loaded.callBackend hs]
    exact ⟨s, rfl, h⟩
  | getCapability m => exact ⟨s, rfl, h⟩
  | deinit m =>
    have hsane : s.mgr.Sane (.deinit m) := hs.imp_right (Or.imp_right And.left)
    obtain ⟨mgr, hmgr, hloaded⟩ := h.loaded.deinit hsane
    obtain ⟨hold, hkept⟩ := Bufmgr.Process.tbmBufmgrDeinit_gBufMgr hmgr
    refine ⟨{ s with mgr := mgr }, by simp [hmgr], hloaded, h.held, fun hg => ?_, fun hsome => ?_,
      h.queue, h.length_le, h.registered, h.lost⟩
    · have hone : m = none ∨ 1 < s.mgr.refCount := by
        rcases hs with hnone | hnone | ⟨-, hlt⟩
        · exact .inl hnone
        · have hsome := h.bufmgr_isSome hg
          simp [hnone] at hsome
        · rw [if_pos hg] at hlt
          exact .inr hlt
      exact (h.mgr hg).trans (hkept hone).symm
    · apply h.ring
      rcases hold with heq | heq
      · rwa [← heq]
      · simp [heq] at hsome

end Queues.Holds

section Run

variable {dir : List Char}

/-- There is one module, and it sets the backend up. -/
private def oneModule : LoadAnswers where
  calloc := true
  files :=
    { dlopen := fun _ _ => some ⟨some ⟨some (Bufmgr.setAbiVersion 1 1),
        some fun _ => ⟨true, [some ⟨some 7, true, true, true, true⟩]⟩⟩⟩
      scandir := none }
  env := none

private theorem oneModule_handsOver (fd : ℤ) : oneModule.files.HandsOver fd := by
  intro i path lib vers init hl hd _
  obtain rfl := Option.some.inj hl
  simp only [Option.some.injEq, Bufmgr.ModuleData.mk.injEq] at hd
  rw [← hd.2]
  rfl

/-- Two queues, one of which is destroyed and its address given out again after the other. -/
private def twoQueues : List QueueCall :=
  [.create 2 4 4 1 ⟨some 7, true, oneModule⟩, .create 3 4 4 1 ⟨some 8, true, oneModule⟩,
    .addCb .destoryNoti (some 7) (some 1) (some 5) true,
    .addCb .resetNoti (some 8) (some 2) none true, .addCb .resetNoti (some 8) (some 3) none true,
    .notifyReset (some 8) fun k => if k = 0 then [(some 2, none)] else [],
    .removeCb .resetNoti (some 8) (some 2) none, .destroy (some 7), .isValid (some 7),
    .addCb .traceNoti (some 7) (some 1) none true, .other (.init 3 oneModule), .destroy (some 8),
    .other (.deinit (some 0)), .create 1 4 4 1 ⟨some 7, true, oneModule⟩, .isValid (some 7)]

end Run

end Tbm.Queue
