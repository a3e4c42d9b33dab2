import Tbm.Queue.State

/-! The public operations of the surface queue as programs of lock, unlock, wait, signal and
data steps, and the two implementation tables. The thread number `me` only feeds the
observer `allocating`. -/
namespace Tbm.Queue

open Prog

/-- `tbm_surf_queue_lock`, shared by all queues, and the `lock` of the queue. -/
inductive Mutex
  | global | queue
  deriving DecidableEq, Repr

inductive Cond
  | freeCond | dirtyCond
  deriving DecidableEq, Repr

/-- Emissions of the notification lists and of the trace list. -/
inductive Event
  | destroyNoti | dequeuableNoti | dequeueNoti | canDequeueNoti | acquirableNoti | resetNoti
  | trace (surface : Surface) (kind : NodeType)
  deriving DecidableEq, Repr

abbrev QProg := Prog Mutex Cond Event AllocResult SurfaceQueue

/-- `tbm_surface_queue_interface`; a NULL entry is `none`. -/
structure Interface where
  init : Option (SurfaceQueue → SurfaceQueue)
  reset : Option (SurfaceQueue → SurfaceQueue)
  needAttach : Option (ℕ → QProg Unit)
  enqueue : Option (ℕ → SurfaceQueue → Option SurfaceQueue)
  release : Option (ℕ → SurfaceQueue → SurfaceQueue)
  dequeue : Option (ℕ → QProg (Option ℕ))
  acquire : Option (SurfaceQueue → Option (Option ℕ × SurfaceQueue))
  needDetach : Option (ℕ → SurfaceQueue → Option SurfaceQueue)

/-- `TBM_SURF_QUEUE_RETURN_VAL_IF_FAIL`: on failure the global mutex is given back. -/
def returnValIfFail {α : Type} (cond : Bool) (val : α) (k : QProg α) : QProg α :=
  if cond then k
  else do
    mutexUnlock .global
    pure val

/-- Leaves both critical sections. -/
def unlockBoth : QProg Unit := do
  mutexUnlock .queue
  mutexUnlock .global

def surfaceQueueIsValid : QProg Bool := read (·.valid)

/-- The size check at the top of `need_attach`: `none` if the queue is full, else whether an
`alloc_cb` is set and the epoch in which the request starts. -/
def beginAttach (me : ℕ) (q : SurfaceQueue) : Option (Bool × ℕ) × SurfaceQueue :=
  if q.queueSize = q.numAttached then (none, q)
  else (some (q.allocCb, q.epoch), { q with allocating := (me, q.epoch) :: q.allocating })

/-- The rest of `need_attach` once the allocator has answered. -/
def endAttach (me : ℕ) (cb : Bool) (born : ℕ) (r : AllocResult) (q : SurfaceQueue) :
    SurfaceQueue :=
  let q := { q with allocating := q.allocating.erase (me, born) }
  match r.surface with
  | none => q
  | some surface =>
    let q := q.record [if cb then .ref surface
      else .create q.width q.height q.format q.flags surface]
    (q.surfaceQueueAttach r.node surface born).record [.unref surface]

/-- The two `need_attach` hooks have the same body. Both mutexes are dropped around `alloc_cb`. -/
def needAttach (me : ℕ) : QProg Unit := do
  match ← access fun q => some (beginAttach me q) with
  | none => pure ()
  | some (true, born) => do
    mutexUnlock .queue
    mutexUnlock .global
    let r ← answer
    mutexLock .global
    mutexLock .queue
    modify (endAttach me true born r)
  | some (false, born) => do
    let r ← answer
    modify (endAttach me false born r)

def tbmQueueDefaultNeedAttach (me : ℕ) : QProg Unit := needAttach me

def tbmQueueSequenceNeedAttach (me : ℕ) : QProg Unit := needAttach me

/-- Runs the `need_attach` hook, if there is one. -/
def callNeedAttach (impl : Interface) (me : ℕ) : QProg Unit :=
  match impl.needAttach with
  | some f => f me
  | none => pure ()

/-- `_tbm_surface_queue_dequeue`; the hook comes as a program. -/
def surfaceQueueDequeue (attach : QProg Unit) : QProg (Option ℕ) := do
  if ← read (·.queueIsEmpty .free) then
    attach
    if ← read (·.queueIsEmpty .free) then pure none
    else access fun q => do
      let (n, q) ← q.queueNodePopFront .free
      some (some n, q)
  else access fun q => do
    let (n, q) ← q.queueNodePopFront .free
    some (some n, q)

def tbmQueueSequenceInit (q : SurfaceQueue) : SurfaceQueue := q.queueInit .dequeue

def tbmQueueSequenceReset (q : SurfaceQueue) : SurfaceQueue := q.queueInit .dequeue

/-- The body of the drain loop: it breaks at the first node that is not enqueued yet. -/
def drainNode (next : ℕ) (q : SurfaceQueue) : Option (Bool × SurfaceQueue) :=
  if (q.node next).privFlags ≠ 0 then some (true, q)
  else some (false, (q.queueNodePop .dequeue next).surfaceQueueEnqueue next true)

/-- The nodes the drain loop visits are returned with the queue. -/
def tbmQueueSequenceEnqueue (n : ℕ) (q : SurfaceQueue) : Option (List ℕ × SurfaceQueue) :=
  let q := q.setPrivFlags n 0
  let pos := q.links.next (.head .dequeue)
  Links.forEachSafe (fun q => q.links.next) SurfaceQueue.itemEntry drainNode (.head .dequeue)
    q.fuel pos (q.links.next pos) q

def tbmQueueSequenceDequeue (me : ℕ) : QProg (Option ℕ) := do
  match ← surfaceQueueDequeue (tbmQueueSequenceNeedAttach me) with
  | some n => do
    modify fun q => (q.queueNodePushBack .dequeue n).setPrivFlags n 1
    pure (some n)
  | none => pure none

def tbmQueueDefaultImpl : Interface where
  init := none
  reset := none
  needAttach := some tbmQueueDefaultNeedAttach
  enqueue := none
  release := none
  dequeue := none
  acquire := none
  needDetach := none

def tbmQueueSequenceImpl : Interface where
  init := some tbmQueueSequenceInit
  reset := some tbmQueueSequenceReset
  needAttach := some tbmQueueSequenceNeedAttach
  enqueue := some fun n q => (tbmQueueSequenceEnqueue n q).map Prod.snd
  release := none
  dequeue := some tbmQueueSequenceDequeue
  acquire := none
  needDetach := none

/-- `_tbm_surface_queue_init` on zeroed memory. No node exists yet. -/
def surfaceQueueInit (impl : Interface) (queueSize width height format flags : ℤ) :
    SurfaceQueue :=
  let q : SurfaceQueue :=
    { width, height, format, flags, queueSize
      numAttached := 0
      links := ⟨id, id⟩
      count := fun _ => 0
      node := fun _ => { surface := 0, type := .none, privFlags := 0, freed := true, born := 0 }
      valid := false
      allocCb := false
      freeCb := false
      nodes := 0
      calls := []
      unlinks := []
      epoch := 0
      allocating := [] }
  let q := (q.queueInit .free).queueInit .dirty
  let q := { q with links := q.links.inithead .list }
  let q := match impl.init with
    | some f => f q
    | none => q
  { q with valid := true }

def surfaceQueueNew (impl : Interface) (queueSize width height format flags : ℤ) :
    Option SurfaceQueue :=
  if 0 < queueSize ∧ 0 < width ∧ 0 < height ∧ 0 < format then
    some (surfaceQueueInit impl queueSize width height format flags)
  else none

/-- The memory for the queue is taken to be available; without it there is no queue. -/
def tbmSurfaceQueueCreate (queueSize width height format flags : ℤ) : Option SurfaceQueue :=
  surfaceQueueNew tbmQueueDefaultImpl queueSize width height format flags

def tbmSurfaceQueueSequenceCreate (queueSize width height format flags : ℤ) :
    Option SurfaceQueue :=
  surfaceQueueNew tbmQueueSequenceImpl queueSize width height format flags

def tbmSurfaceQueueSetAllocCb (allocCb freeCb : Bool) : QProg Error := do
  mutexLock .global
  returnValIfFail (← surfaceQueueIsValid) .invalidQueue <| do
    mutexLock .queue
    modify fun q => { q with allocCb := allocCb, freeCb := freeCb }
    unlockBoth
    pure .none

def tbmSurfaceQueueEnqueue (impl : Interface) (surface : Option Surface) : QProg Error := do
  mutexLock .global
  returnValIfFail (← surfaceQueueIsValid) .invalidQueue <|
    match surface with
    | none => returnValIfFail false .invalidSurface (pure .none)
    | some surface => do
      mutexLock .queue
      match ← access fun q => do some (← q.queueGetNode surface, q) with
      | some (n, .nodeList) => do
        match impl.enqueue with
        | some f => access fun q => do some ((), ← f n q)
        | none => modify (·.surfaceQueueEnqueue n true)
        if ← read (·.queueIsEmpty .dirty) then
          unlockBoth
          pure .unknownSurface
        else
          modify (·.setType n .enqueue)
          mutexUnlock .queue
          condSignal .dirtyCond
          mutexUnlock .global
          notify (.trace surface .enqueue)
          notify .acquirableNoti
          pure .none
      | _ => do
        unlockBoth
        pure .alreadyExist

def tbmSurfaceQueueDequeue (impl : Interface) (me : ℕ) : QProg (Error × Option Surface) := do
  mutexLock .global
  returnValIfFail (← surfaceQueueIsValid) (.invalidQueue, none) <| do
    mutexLock .queue
    let node ← match impl.dequeue with
      | some f => f me
      | none => surfaceQueueDequeue (callNeedAttach impl me)
    match node with
    | none => do
      unlockBoth
      pure (.invalidQueue, none)
    | some n => do
      modify (·.setType n .dequeue)
      let surface ← read fun q => (q.node n).surface
      unlockBoth
      notify (.trace surface .dequeue)
      notify .dequeueNoti
      pure (.none, some surface)

def tbmSurfaceQueueCanDequeue (impl : Interface) (wait : ℤ) (me : ℕ) : QProg ℤ := do
  mutexLock .global
  returnValIfFail (← surfaceQueueIsValid) 0 <| do
    mutexUnlock .global
    notify .canDequeueNoti
    mutexLock .global
    returnValIfFail (← surfaceQueueIsValid) 0 <| do
      mutexLock .queue
      let valid ← if ← read (·.queueIsEmpty .free) then do
          callNeedAttach impl me
          surfaceQueueIsValid
        else pure true
      if !valid then
        mutexUnlock .global
        pure 0
      else if !(← read (·.queueIsEmpty .free)) then
        unlockBoth
        pure 1
      else
        let outstanding ←
          if wait = 0 then pure 0
          else access fun q => do some (← q.surfaceQueueGetNodeCount .acquire, q)
        if outstanding ≠ 0 then
          mutexUnlock .global
          condWait .freeCond .queue
          mutexLock .global
          if !(← surfaceQueueIsValid) then
            unlockBoth
            pure 0
          else
            unlockBoth
            pure 1
        else
          unlockBoth
          pure 0

/-- `need_detach`, or `_tbm_surface_queue_detach` where the table has no such hook. -/
def detachNode (impl : Interface) (n : ℕ) (q : SurfaceQueue) : Option SurfaceQueue :=
  match impl.needDetach with
  | some f => f n q
  | none => q.surfaceQueueDetach (q.node n).surface

def tbmSurfaceQueueRelease (impl : Interface) (surface : Option Surface) : QProg Error := do
  mutexLock .global
  returnValIfFail (← surfaceQueueIsValid) .invalidQueue <|
    match surface with
    | none => returnValIfFail false .invalidSurface (pure .none)
    | some surface => do
      mutexLock .queue
      match ← access fun q => do some (← q.queueGetNode surface, q) with
      | some (n, .nodeList) => do
        if ← read fun q => decide (q.queueSize < q.numAttached) then
          access fun q => do some ((), ← detachNode impl n q)
          unlockBoth
          pure .none
        else
          match impl.release with
          | some f => modify (f n)
          | none => modify (·.surfaceQueueRelease n true)
          if ← read (·.queueIsEmpty .free) then
            unlockBoth
            pure .invalidSurface
          else
            modify (·.setType n .release)
            mutexUnlock .queue
            condSignal .freeCond
            mutexUnlock .global
            notify (.trace surface .release)
            notify .dequeuableNoti
            pure .none
      | _ => do
        unlockBoth
        pure .invalidSurface

def tbmSurfaceQueueAcquire (impl : Interface) : QProg (Error × Option Surface) := do
  mutexLock .global
  returnValIfFail (← surfaceQueueIsValid) (.invalidQueue, none) <| do
    mutexLock .queue
    let node ← match impl.acquire with
      | some f => access f
      | none => access (·.surfaceQueueAcquire)
    match node with
    | none => do
      unlockBoth
      pure (.invalidQueue, none)
    | some n => do
      modify (·.setType n .acquire)
      let surface ← read fun q => (q.node n).surface
      unlockBoth
      notify (.trace surface .acquire)
      pure (.none, some surface)

def tbmSurfaceQueueCanAcquire (wait : ℤ) : QProg ℤ := do
  mutexLock .global
  returnValIfFail (← surfaceQueueIsValid) 0 <| do
    mutexLock .queue
    if !(← read (·.queueIsEmpty .dirty)) then
      unlockBoth
      pure 1
    else
      let outstanding ←
        if wait = 0 then pure 0
        else access fun q => do some (← q.surfaceQueueGetNodeCount .dequeue, q)
      if outstanding ≠ 0 then
        mutexUnlock .global
        condWait .dirtyCond .queue
        mutexLock .global
        if !(← surfaceQueueIsValid) then
          unlockBoth
          pure 0
        else
          unlockBoth
          pure 1
      else
        unlockBoth
        pure 0

/-- The heads are initialised again and the `reset` hook runs. -/
def initHeads (impl : Interface) (q : SurfaceQueue) : SurfaceQueue :=
  let q := (q.queueInit .free).queueInit .dirty
  let q := { q with
    links := q.links.inithead .list
    numAttached := 0
    epoch := q.epoch + 1 }
  match impl.reset with
  | some f => f q
  | none => q

/-- The block shared by reset, flush and a flushing size change. -/
def clearNodes (impl : Interface) (q : SurfaceQueue) : Option SurfaceQueue := do
  some (initHeads impl (← q.deleteNodes))

/-- The common tail of the three clearing operations. -/
def leaveCleared : QProg Error := do
  mutexUnlock .queue
  condSignal .freeCond
  mutexUnlock .global
  notify .resetNoti
  pure .none

def tbmSurfaceQueueReset (impl : Interface) (width height format : ℤ) : QProg Error := do
  mutexLock .global
  returnValIfFail (← surfaceQueueIsValid) .invalidQueue <| do
    if ← read fun q => decide (width = q.width ∧ height = q.height ∧ format = q.format) then
      mutexUnlock .global
      pure .none
    else
      mutexLock .queue
      access fun q => do
        let q := { q with width := width, height := height, format := format }
        some ((), ← clearNodes impl q)
      leaveCleared

def tbmSurfaceQueueSetSize (impl : Interface) (queueSize : ℤ) (flush : Bool) : QProg Error := do
  mutexLock .global
  returnValIfFail (← surfaceQueueIsValid) .invalidQueue <|
    returnValIfFail (decide (0 < queueSize)) .invalidParameter <| do
      if ← read fun q => decide (q.queueSize = queueSize) && !flush then
        mutexUnlock .global
        pure .none
      else
        mutexLock .queue
        if flush then
          access fun q => do
            let q ← clearNodes impl q
            some ((), { q with queueSize := queueSize })
          leaveCleared
        else
          access fun q => do
            let q ← if queueSize < q.queueSize then
                q.detachFree (detachNode impl) (q.queueSize - queueSize)
              else some q
            some ((), { q with queueSize := queueSize })
          unlockBoth
          pure .none

def tbmSurfaceQueueFlush (impl : Interface) : QProg Error := do
  mutexLock .global
  returnValIfFail (← surfaceQueueIsValid) .invalidQueue <| do
    if ← read fun q => decide (q.numAttached = 0) then
      mutexUnlock .global
      pure .none
    else
      mutexLock .queue
      access fun q => do some ((), ← clearNodes impl q)
      leaveCleared

/-- `destroy` holds the global mutex only. The queue leaves `surf_queue_list` first. -/
def tbmSurfaceQueueDestroy : QProg Unit := do
  mutexLock .global
  returnValIfFail (← surfaceQueueIsValid) () <| do
    modify fun q => { q with valid := false }
    access fun q => do some ((), ← q.deleteNodes)
    notify .destroyNoti
    mutexUnlock .global

inductive Op
  | dequeue
  | enqueue (surface : Option Surface)
  | acquire
  | release (surface : Option Surface)
  | canDequeue (wait : ℤ)
  | canAcquire (wait : ℤ)
  | reset (width height format : ℤ)
  | flush
  | setSize (queueSize : ℤ) (flush : Bool)
  | setAllocCb (allocCb freeCb : Bool)
  | destroy
  deriving DecidableEq, Repr

inductive Reply
  | error (e : Error)
  | surface (e : Error) (s : Option Surface)
  | answer (n : ℤ)
  | done
  deriving DecidableEq, Repr

/-- The two kinds of queue, by their implementation table. -/
inductive Kind
  | default | sequence
  deriving DecidableEq, Repr

def Kind.impl : Kind → Interface
  | .default => tbmQueueDefaultImpl
  | .sequence => tbmQueueSequenceImpl

namespace Kind

variable (kind : Kind)

theorem impl_release : kind.impl.release = none := by cases kind <;> rfl

theorem impl_acquire : kind.impl.acquire = none := by cases kind <;> rfl

theorem impl_needDetach : kind.impl.needDetach = none := by cases kind <;> rfl

theorem callNeedAttach_impl (me : ℕ) : callNeedAttach kind.impl me = needAttach me := by
  cases kind <;> rfl

end Kind

def Kind.create : Kind → ℤ → ℤ → ℤ → ℤ → ℤ → Option SurfaceQueue
  | .default => tbmSurfaceQueueCreate
  | .sequence => tbmSurfaceQueueSequenceCreate

/-- The code thread `me` runs for a call of the public interface. -/
def program (impl : Interface) (me : ℕ) : Op → QProg Reply
  | .dequeue => do
    let (e, s) ← tbmSurfaceQueueDequeue impl me
    pure (.surface e s)
  | .enqueue surface => do pure (.error (← tbmSurfaceQueueEnqueue impl surface))
  | .acquire => do
    let (e, s) ← tbmSurfaceQueueAcquire impl
    pure (.surface e s)
  | .release surface => do pure (.error (← tbmSurfaceQueueRelease impl surface))
  | .canDequeue w => do pure (.answer (← tbmSurfaceQueueCanDequeue impl w me))
  | .canAcquire w => do pure (.answer (← tbmSurfaceQueueCanAcquire w))
  | .reset width height format => do
    pure (.error (← tbmSurfaceQueueReset impl width height format))
  | .flush => do pure (.error (← tbmSurfaceQueueFlush impl))
  | .setSize queueSize flush => do
    pure (.error (← tbmSurfaceQueueSetSize impl queueSize flush))
  | .setAllocCb allocCb freeCb => do
    pure (.error (← tbmSurfaceQueueSetAllocCb allocCb freeCb))
  | .destroy => do
    tbmSurfaceQueueDestroy
    pure .done

/-- One call by a single thread; `x` is what the allocator answers if it is asked. -/
def call (kind : Kind) (op : Op) (x : AllocResult) (q : SurfaceQueue) :
    Option (Reply × SurfaceQueue) :=
  (program kind.impl 0 op).exec x q

end Tbm.Queue
