import Tbm.Bufmgr.Report
import Tbm.Core.Program
import Mathlib.Algebra.Group.Int.Defs
import Mathlib.Algebra.Group.Nat.Defs

/-! The operations of the buffer manager, its buffer objects and its surfaces as programs, with
the part of the queue code that shares the manager. A use of freed memory, of NULL or of an index
out of range has no step; nor has the nested `tbm_bufmgr_deinit`, which asks for the `gLock` its
own thread holds. -/
namespace Tbm.Bufmgr

open Prog

/-- What `calloc` and the backend answer when a buffer object is made. -/
structure BoAnswer where
  calloc : Bool
  priv : Option Priv
  deriving DecidableEq, Repr

structure PlaneAnswer where
  plane : Plane
  boIdx : ℤ
  deriving DecidableEq, Repr

/-- The answers of the backend, the environment and `calloc` to one call. -/
structure Answers where
  /-- The manager is allocated and its backend is loaded. -/
  load : Bool
  /-- `getenv("BUFMGR_LOCK_TYPE")`. -/
  env : Option String
  calloc : Bool
  /-- By the slot the buffer object is for. -/
  bo : ℕ → BoAnswer
  plane : ℕ → Option PlaneAnswer
  boFlags : ℤ
  boSize : Bo → ℤ
  formats : Bool
  lock : Bool
  map : Bool
  unmap : Bool
  /-- The `calloc` of a queue node. -/
  node : Bool
  /-- The debug data that earlier calls have left. -/
  debug : DebugState
  report : ShowAnswers

/-- The static mutexes of the three files, and the `lock` of the manager. -/
inductive Mutex
  | gLock | bufmgr | surface | surfQueue | lock
  deriving DecidableEq, Repr

abbrev BProg := Prog Mutex Empty Empty Answers State

/-- Undefined behaviour or a deadlock. -/
def stuck {α : Type} : BProg α := access fun _ => none

/-- A critical section; every return inside it gives the mutex back. -/
def locked {S α : Type} (m : Mutex) (p : Prog Mutex Empty Empty Answers S α) :
    Prog Mutex Empty Empty Answers S α := do
  mutexLock m
  let r ← p
  mutexUnlock m
  pure r

@[simp] theorem exec_locked {S α : Type} (x : Answers) (m : Mutex)
    (p : Prog Mutex Empty Empty Answers S α) (s : S) : exec x (locked m p) s = exec x p s := by
  cases h : exec x p s <;> simp [locked, h]

@[simp] theorem exec_stuck {α : Type} (x : Answers) (s : State) :
    exec x (stuck : BProg α) s = none := rfl

def lockTypeOf : Option String → LockType
  | some "always" => .tryAlways
  | some "none" => .tryNever
  | some "once" => .tryOnce
  | _ => .tryAlways

/-- How `_tbm_bo_lock` goes on. -/
inductive LockStart
  | failed | ready | outside
  deriving DecidableEq, Repr

namespace State

/-- A use of `*m`. -/
def deref (s : State) (m : Option Mgr) : Option Unit :=
  if m.isSome ∧ m = s.gBufMgr then some () else none

def bufmgrInit (x : Answers) (s : State) : Option Mgr × State :=
  match s.gBufMgr with
  | some m => (some m, { s with refCount := s.refCount + 1 })
  | none =>
    if x.load then
      (some s.mgrs, { s with
        gBufMgr := some s.mgrs
        mgrs := s.mgrs + 1
        refCount := 1
        lockType := lockTypeOf x.env
        boCnt := 0
        boList := []
        surfList := []
        surfQueueList := [] })
    else (none, s)

/-- The handle, if it passes `_tbm_bo_is_valid`. -/
def boIsValid (s : State) (b : Option Bo) : Option Bo :=
  b.filter fun b => s.gBufMgr.isSome && decide (b ∈ s.boList)

/-- The handle, if it passes `_tbm_surface_internal_is_valid`. -/
def surfaceIsValid (s : State) (h : Option Surface) : Option (Option Surface) := do
  if s.surfaceBufmgr.isNone ∨ h.isNone then some none
  else do
    s.deref s.surfaceBufmgr
    some (h.filter fun h => decide (h ∈ s.surfList))

/-- The handle, if it passes `_tbm_surface_queue_is_valid`. -/
def surfQueueIsValid (s : State) (q : Option Queue) : Option (Option Queue) := do
  if s.surfQueueBufmgr.isNone ∨ q.isNone then some none
  else do
    s.deref s.surfQueueBufmgr
    some (q.filter fun q => decide (q ∈ s.surfQueueList))

/-- The new buffer object at the head of `bo_list`. -/
def linkBo (s : State) (flags : ℤ) (p : Priv) : State :=
  { s with
    bos := s.bos + 1
    boList := s.bos :: s.boList
    bo := Function.update s.bo s.bos
      { refCnt := 1, flags := flags, priv := some p, surface := none, lockCnt := 0, mapCnt := 0 } }

def boAlloc (s : State) (size flags : ℤ) (p : Priv) : State :=
  { s.linkBo flags p with
    boCnt := s.boCnt + 1
    asked := Function.update s.asked s.bos (some size)
    freshAllocs := s.freshAllocs && !decide (s.HasPriv p) }

/-- What `tbm_surface_internal_create_with_flags` does itself where the backend has a
`surface_bo_alloc`. -/
def surfaceBoAlloc (s : State) (flags : ℤ) (p : Priv) : State :=
  { s.linkBo flags p with freshAllocs := s.freshAllocs && !decide (s.HasPriv p) }

/-- A buffer object that has the pointer gets one more reference, else there is a new one. -/
def boImport (s : State) (flags : ℤ) (p : Priv) : Option Bo × State :=
  match s.boList.find? fun b => decide ((s.bo b).priv = some p) with
  | some b => (some b, s.setRefCnt b ((s.bo b).refCnt + 1))
  | none => (some s.bos, { s.linkBo flags p with boCnt := s.boCnt + 1 })

def boSwap (s : State) (b c : Bo) : State :=
  (s.setPriv b (s.bo c).priv).setPriv c (s.bo b).priv

def newSurface (s : State) : Surface × State := (s.surfaces, { s with surfaces := s.surfaces + 1 })

def linkSurface (s : State) (h : Surface) (v : SurfaceData) : State :=
  { s.setSurface h v with surfList := h :: s.surfList }

def linkQueue (s : State) : Queue × State :=
  (s.queues, { s with
    queues := s.queues + 1
    surfQueueList := s.queues :: s.surfQueueList
    queue := Function.update s.queue s.queues [] })

def setQueue (s : State) (q : Queue) (l : List Surface) : State :=
  { s with queue := Function.update s.queue q l }

variable (backend : Backend)

/-- `_bo_unlock`. -/
def boUnlock (s : State) (b : Bo) : State :=
  if backend.boUnlock then { s with unlocks := Function.update s.unlocks b (s.unlocks b + 1) }
  else s

/-- `_tbm_bo_unlock`. -/
def tbmBoUnlock (s : State) (b : Bo) : State :=
  match s.lockType with
  | .tryNever => s
  | .tryOnce =>
    if 0 < (s.bo b).lockCnt then
      let s := s.setLockCnt b ((s.bo b).lockCnt - 1)
      if (s.bo b).lockCnt = 0 then s.boUnlock backend b else s
    else if (s.bo b).lockCnt < 0 then s.setLockCnt b 0 else s
  | .tryAlways =>
    if 0 < (s.bo b).lockCnt then
      (s.setLockCnt b ((s.bo b).lockCnt - 1)).boUnlock backend b
    else if (s.bo b).lockCnt < 0 then s.setLockCnt b 0 else s

/-- The loop over `lock_cnt` at the last unref. -/
def drainLocks (b : Bo) : ℕ → State → State
  | 0, s => s
  | n + 1, s =>
    let s := s.boUnlock backend b
    drainLocks b n (s.setLockCnt b ((s.bo b).lockCnt - 1))

/-- The end of a buffer object. -/
def boFree (s : State) (b : Bo) : State :=
  let s := s.drainLocks backend b (s.bo b).lockCnt.toNat
  let s := { s with frees := s.frees ++ [b] }
  let s := s.setPriv b none
  { s with boList := s.boList.erase b, boCnt := s.boCnt - 1 }

def boUnref (s : State) (b : Bo) : State :=
  if (s.bo b).refCnt ≤ 0 then s
  else
    let s := s.setRefCnt b ((s.bo b).refCnt - 1)
    if (s.bo b).refCnt = 0 then s.boFree backend b else s

/-- `_tbm_bo_lock` up to where it leaves the mutex. -/
def tbmBoLockStart (s : State) (b : Bo) : LockStart :=
  match s.lockType with
  | .tryNever => .ready
  | .tryOnce =>
    if (s.bo b).lockCnt < 0 then .failed else if (s.bo b).lockCnt = 0 then .outside else .ready
  | .tryAlways => if (s.bo b).lockCnt < 0 then .failed else .outside

def enterWindow (s : State) (me : ℕ) (b : Bo) : State :=
  { s with window := Function.update s.window me (some (b, false)) }

/-- `_bo_lock` without the mutex; tells whether it succeeded. -/
def boLock (s : State) (me : ℕ) (b : Bo) (ok : Bool) : Option (Bool × State) :=
  if b ∈ s.boList then
    if backend.boLock then
      if ok then some (true, { s with
        locks := Function.update s.locks b (s.locks b + 1)
        window := Function.update s.window me (some (b, true)) })
      else some (false, s)
    else some (true, { s with window := Function.update s.window me (some (b, true)) })
  else none

/-- `_tbm_bo_lock` from where it has the mutex back; `lock_cnt` is an `int`. -/
def tbmBoLockEnd (s : State) (me : ℕ) (b : Bo) (ok : Bool) : Option State :=
  if b ∈ s.boList then
    let s := { s with window := Function.update s.window me none }
    if ok then
      if (s.bo b).lockCnt < 2 ^ 31 - 1 then some (s.setLockCnt b ((s.bo b).lockCnt + 1)) else none
    else some s
  else none

/-- What `tbm_bo_map` does with the lock. -/
def boMap (s : State) (b : Bo) (ok : Bool) : Bool × State :=
  if ok then
    let s := { s with maps := Function.update s.maps b (s.maps b + 1) }
    (true, s.setMapCnt b ((s.bo b).mapCnt + 1))
  else (false, s.tbmBoUnlock backend b)

def boUnmap (s : State) (b : Bo) (ok : Bool) : Bool × State :=
  if ok then
    let s := { s with maps := Function.update s.maps b (s.maps b - 1) }
    let s := s.setMapCnt b ((s.bo b).mapCnt - 1)
    (true, s.tbmBoUnlock backend b)
  else (false, s)

/-- `tbm_bo_map` up to where it leaves the mutex or returns. -/
def boMapStart (s : State) (me : ℕ) (b : Option Bo) (ok : Bool) : (Option Bo × Bool) × State :=
  match s.boIsValid b with
  | none => ((none, false), s)
  | some b =>
    match s.tbmBoLockStart b with
    | .failed => ((none, false), s)
    | .ready => ((none, (s.boMap backend b ok).1), (s.boMap backend b ok).2)
    | .outside => ((some b, false), s.enterWindow me b)

/-- `tbm_bo_map` from where it has the mutex back. -/
def boMapEnd (s : State) (me : ℕ) (b : Bo) (locked ok : Bool) : Option (Bool × State) := do
  let s ← s.tbmBoLockEnd me b locked
  if locked then some (s.boMap backend b ok) else some (false, s)

end State

def tbmBufmgrInit : BProg (Option Mgr) := locked .gLock do
  let x ← answer
  access fun s => some (s.bufmgrInit x)

/-- A report that reads or writes where it must not is not defined. -/
def tbmBufmgrDebugShow (x : Answers) (m : Option Mgr) : BProg Unit := locked .gLock do
  access fun s => (x.debug.tbmBufmgrDebugShow x.report s m).map fun _ => ((), s)

def tbmUtilCheckBoCnt (x : Answers) (m : Option Mgr) : BProg Unit := do
  let cnt ← read (·.boCnt)
  let last ← read (·.lastChkBoCnt)
  if 500 ≤ cnt ∧ cnt % 20 = 0 ∧ last < cnt then do
    tbmBufmgrDebugShow x m
    modify fun s => { s with lastChkBoCnt := s.boCnt }
  else pure ()

def tbmBoRef (b : Option Bo) : BProg (Option Bo) := locked .bufmgr do
  access fun s => some <| match s.boIsValid b with
    | some b => (some b, s.setRefCnt b ((s.bo b).refCnt + 1))
    | none => (none, s)

/-- `_tbm_bo_set_surface`. -/
def tbmBoSetSurface (b : Option Bo) (h : Option Surface) : BProg Unit := locked .bufmgr do
  modify fun s => match s.boIsValid b with
    | some b => s.setBoSurface b h
    | none => s

/-- The `i`-th answer of the backend is for this call. -/
def tbmBoAlloc (m : Option Mgr) (size flags : ℤ) (i : ℕ) : BProg (Option Bo) := locked .bufmgr do
  let g ← read (·.gBufMgr)
  if m.isSome ∧ m = g ∧ 0 < size then do
    let x ← answer
    if (x.bo i).calloc then do
      tbmUtilCheckBoCnt x m
      match (x.bo i).priv with
      | some p => access fun s => some (some s.bos, s.boAlloc size flags p)
      | none => pure none
    else pure none
  else pure none

def tbmBoSwap (b c : Option Bo) : BProg Bool := locked .bufmgr do
  let x ← answer
  access fun s => some <| match s.boIsValid b, s.boIsValid c with
    | some b, some c => if x.boSize b = x.boSize c then (true, s.boSwap b c) else (false, s)
    | _, _ => (false, s)

section Mapping

variable (backend : Backend)

/-- The thread `me` leaves the mutex while the backend locks the buffer object. -/
def tbmBoMap (me : ℕ) (b : Option Bo) : BProg Bool := locked .bufmgr do
  let x ← answer
  match ← access fun s => some (s.boMapStart backend me b x.map) with
  | (none, r) => pure r
  | (some b, _) => do
    mutexUnlock .bufmgr
    let x ← answer
    let ok ← access fun s => s.boLock backend me b x.lock
    mutexLock .bufmgr
    let x ← answer
    access fun s => s.boMapEnd backend me b ok x.map

def tbmBoUnmap (b : Option Bo) : BProg Bool := locked .bufmgr do
  let x ← answer
  access fun s => some <| match s.boIsValid b with
    | some b => s.boUnmap backend b x.unmap
    | none => (false, s)

end Mapping

section Surface

/-- `_init_surface_bufmgr` where the surface code has no manager yet; tells whether it had none. -/
def initSurfaceBufmgr : BProg Bool := do
  match ← read (·.surfaceBufmgr) with
  | some _ => pure false
  | none => do
    let m ← tbmBufmgrInit
    access fun s => do
      s.deref m
      some (true, { s with surfaceBufmgr := m, surfList := [] })

def deinitSurfaceBufmgr (deinit : Option Mgr → BProg Unit) : BProg Unit := do
  match ← read (·.surfaceBufmgr) with
  | none => pure ()
  | some m => do
    deinit (some m)
    modify fun s => { s with surfaceBufmgr := none }

def tbmSurfaceInternalRef (h : Option Surface) : BProg Unit := locked .surface do
  access fun s => do
    match ← s.surfaceIsValid h with
    | some h => some ((), s.setSurfaceRefcnt h ((s.surface h).refcnt + 1))
    | none => some ((), s)

/-- The planes of a new surface as the backend describes them. -/
def queryPlaneData (backend : Backend) (x : Answers) (n : ℕ) : Option (List PlaneAnswer) :=
  (List.range n).mapM fun i => if backend.surfaceGetPlaneData then x.plane i else none

def numBosOf (ps : List PlaneAnswer) : ℤ :=
  ps.foldl (fun n p => if n < p.boIdx + 1 then p.boIdx + 1 else n) 1

def sizeOf (ps : List Plane) : UInt32 := ps.foldl (fun n p => n + p.size) 0

/-- The bytes of the planes in slot `i`, as the `int` that `tbm_bo_alloc` takes. -/
def boSizeOf (ps : List PlaneAnswer) (i : ℕ) : ℤ :=
  (sizeOf ((ps.filter fun p => p.boIdx = (i : ℤ)).map (·.plane))).toInt32.toInt

/-- A zeroed table of slots with the given first entries. -/
def slotTable (l : List (Option Bo)) : ℕ → Option Bo := fun i => l[i]?.join

def planeTable (l : List Plane) : ℕ → Plane := fun i => l[i]?.getD ⟨0, 0, 0⟩

/-- The surface `tbm_surface_internal_create_with_flags` returns. -/
def newSurfaceData (m : Mgr) (width height : ℤ) (format : Format) (flags : ℤ)
    (ps : List PlaneAnswer) (bos : List (Option Bo)) : SurfaceData where
  bufmgr := some m
  info :=
    { width := .ofInt width
      height := .ofInt height
      format := format
      bpp := format.bpp
      size := sizeOf (ps.map (·.plane))
      numPlanes := format.numPlanes
      planes := planeTable (ps.map (·.plane)) }
  flags := flags
  numBos := numBosOf ps
  bos := slotTable bos
  planesBoIdx := fun i => (ps[i]?.map (·.boIdx)).getD 0
  refcnt := 1

/-- A plane of `create_with_bos` without a size gets one from its stride. -/
def planeOf (info : SurfaceInfo) (i : ℕ) : Plane :=
  { info.planes i with
    size := if 0 < (info.planes i).size then (info.planes i).size
      else (info.planes i).stride * info.height }

/-- The surface `tbm_surface_internal_create_with_bos` returns. -/
def importedSurfaceData (m : Mgr) (info : SurfaceInfo) (num : ℤ) (bos : List (Option Bo)) :
    SurfaceData :=
  let planes := (List.range info.numPlanes.toNat).map (planeOf info)
  { bufmgr := some m
    info := { info with
      size := if 0 < info.size then info.size else sizeOf planes
      planes := planeTable planes }
    flags := 0
    numBos := num
    bos := slotTable bos
    planesBoIdx := fun i => if num = 1 ∨ info.numPlanes.toNat ≤ i then 0 else i
    refcnt := 1 }

/-- The loop of `create_with_bos` over the slots, with the slots filled so far. It stops at NULL. -/
def refSlots (h : Surface) (bos : ℕ → Option Bo) :
    ℕ → List (Option Bo) → BProg (Bool × List (Option Bo))
  | 0, l => pure (true, l)
  | n + 1, l =>
    if l.length < 4 then
      match bos l.length with
      | none => pure (false, l)
      | some b => do
        let r ← tbmBoRef (some b)
        tbmBoSetSurface (some b) (some h)
        refSlots h bos n (l ++ [r])
    else stuck

variable (backend : Backend)

def tbmBoUnref (b : Option Bo) : BProg Unit := locked .bufmgr do
  modify fun s => match s.boIsValid b with
    | some b => s.boUnref backend b
    | none => s

/-- The two import functions differ in the entry of the backend they call. -/
def boImport (provided : Bool) (m : Option Mgr) : BProg (Option Bo) := locked .bufmgr do
  let g ← read (·.gBufMgr)
  if (m.isSome ∧ m = g) ∧ provided then do
    let x ← answer
    tbmUtilCheckBoCnt x m
    match if (x.bo 0).calloc then (x.bo 0).priv else none with
    | some p => access fun s => some (s.boImport (if backend.boGetFlags then x.boFlags else 0) p)
    | none => pure none
  else pure none

def tbmBoImport (m : Option Mgr) : BProg (Option Bo) := boImport backend backend.boImport m

def tbmBoImportFd (m : Option Mgr) : BProg (Option Bo) := boImport backend backend.boImportFd m

/-- The loop over the slots of a surface that is destroyed, from slot `i` on. -/
def destroySlots (h : Surface) : ℕ → ℕ → BProg Unit
  | 0, _ => pure ()
  | n + 1, i => do
    let b ← access fun s => do
      let b ← s.slotBo h i
      some (b, s.setBoSurface b none)
    tbmBoUnref backend (some b)
    modify (·.setSlot h i none)
    destroySlots h n (i + 1)

/-- `_tbm_surface_internal_destroy`. -/
def surfaceInternalDestroy (deinit : Option Mgr → BProg Unit) (h : Surface) : BProg Unit := do
  let n ← read fun s => (s.surface h).numBos.toNat
  destroySlots backend h n 0
  let last ← access fun s => do
    s.deref (s.surface h).bufmgr
    some ((s.surfList.erase h).isEmpty, { s with surfList := s.surfList.erase h })
  if last then deinitSurfaceBufmgr deinit else pure ()

/-- `tbm_surface_internal_destroy` and `tbm_surface_internal_unref` have the same body. -/
def dropSurface (deinit : Option Mgr → BProg Unit) (h : Option Surface) : BProg Unit :=
  locked .surface do
    match ← access fun s => (s.surfaceIsValid h).map (·, s) with
    | none => pure ()
    | some h => do
      let n ← read fun s => (s.surface h).refcnt - 1
      modify (·.setSurfaceRefcnt h n)
      if n = 0 then surfaceInternalDestroy backend deinit h else pure ()

/-- The loop of `tbm_bufmgr_deinit` over `bo_list`. -/
def destroyBos : List Bo → BProg Unit
  | [] => pure ()
  | b :: bs => do
    modify (·.setRefCnt b 1)
    tbmBoUnref backend (some b)
    destroyBos bs

/-- The loop of `tbm_bufmgr_deinit` over `surf_list`. -/
def destroySurfaces : List Surface → BProg Unit
  | [] => pure ()
  | h :: hs => do
    dropSurface backend (fun _ => stuck) (some h)
    destroySurfaces hs

def tbmBufmgrDeinit (m : Option Mgr) : BProg Unit :=
  if m.isNone then pure ()
  else locked .gLock do
    let g ← read (·.gBufMgr)
    if g.isNone then pure ()
    else do
      let last ← access fun s => do
        s.deref m
        some (decide (s.refCount - 1 ≤ 0), { s with refCount := s.refCount - 1 })
      if last then do
        let bos ← read (·.boList)
        destroyBos backend bos
        let surfs ← read (·.surfList)
        destroySurfaces backend surfs
        modify fun s => { s with gBufMgr := none }
      else pure ()

def tbmSurfaceInternalDestroy (h : Option Surface) : BProg Unit :=
  dropSurface backend (tbmBufmgrDeinit backend) h

def tbmSurfaceInternalUnref (h : Option Surface) : BProg Unit :=
  dropSurface backend (tbmBufmgrDeinit backend) h

/-- The failure exits give the manager back if the call has taken it. -/
def giveBack (initialized : Bool) : BProg Unit :=
  if initialized then do
    modify fun s => { s with surfList := [] }
    deinitSurfaceBufmgr (tbmBufmgrDeinit backend)
  else pure ()

/-- The undo loop of the two creations. -/
def unrefSlots : List (Option Bo) → BProg Unit
  | [] => pure ()
  | none :: l => unrefSlots l
  | some b :: l => do
    tbmBoUnref backend (some b)
    unrefSlots l

/-- Slot `i` of a new surface. -/
def allocSlot (m : Mgr) (size flags : ℤ) (i : ℕ) : BProg (Option Bo) :=
  if backend.surfaceBoAlloc then do
    let x ← answer
    if (x.bo i).calloc then locked .lock do
      match (x.bo i).priv with
      | some p => access fun s => do
        s.deref (some m)
        some (some s.bos, s.surfaceBoAlloc flags p)
      | none => pure none
    else pure none
  else tbmBoAlloc (some m) size flags i

/-- The loop of `create_with_flags` over the slots, with the slots filled so far. The table has four
of them. What `tbm_bo_alloc` returns is written there even if it is NULL. -/
def allocSlots (m : Mgr) (flags : ℤ) (ps : List PlaneAnswer) (h : Surface) :
    ℕ → List (Option Bo) → BProg (Bool × List (Option Bo))
  | 0, l => pure (true, l)
  | n + 1, l => do
    match ← allocSlot backend m (boSizeOf ps l.length) flags l.length with
    | none => if l.length < 4 ∨ backend.surfaceBoAlloc then pure (false, l) else stuck
    | some b =>
      if l.length < 4 then do
        tbmBoSetSurface (some b) (some h)
        allocSlots m flags ps h n (l ++ [some b])
      else stuck

/-- Links the surface or undoes what its slots have taken. -/
def finishSurface (m : Mgr) (h : Surface) (data : List (Option Bo) → SurfaceData)
    (r : Bool × List (Option Bo)) : BProg (Option Surface) :=
  if r.1 then
    access fun s => do
      s.deref (some m)
      some (some h, s.linkSurface h (data r.2))
  else do
    unrefSlots backend r.2
    pure none

/-- Runs a creation on the manager of the surface code, with a new handle. -/
def makeSurface (body : Mgr → Surface → Answers → BProg (Option Surface)) :
    BProg (Option Surface) := do
  match ← read (·.surfaceBufmgr) with
  | none => pure none
  | some m => do
    let x ← answer
    if x.calloc then do
      let h ← access fun s => some s.newSurface
      body m h x
    else pure none

/-- The frame of the two creations. -/
def createSurface (body : Mgr → Surface → Answers → BProg (Option Surface)) :
    BProg (Option Surface) := locked .surface do
  let initialized ← initSurfaceBufmgr
  match ← makeSurface body with
  | some h => pure (some h)
  | none => do
    giveBack backend initialized
    pure none

def tbmSurfaceInternalCreateWithFlags (width height : ℤ) (format : Format) (flags : ℤ) :
    BProg (Option Surface) :=
  if 0 < width ∧ 0 < height then
    createSurface backend fun m h x =>
      match queryPlaneData backend x format.numPlanes.toNat with
      | none => pure none
      | some ps => do
        let r ← allocSlots backend m flags ps h (numBosOf ps).toNat []
        finishSurface backend m h (newSurfaceData m width height format flags ps) r
  else pure none

/-- The array `bos` has `num` entries; a table of more than four planes is written out of range. -/
def tbmSurfaceInternalCreateWithBos (info : Option SurfaceInfo) (bos : Option (ℕ → Option Bo))
    (num : ℤ) : BProg (Option Surface) :=
  match bos, info with
  | some bos, some info =>
    if num = 1 ∨ info.numPlanes = .ofInt num then
      createSurface backend fun m h _ =>
        if info.numPlanes ≤ 4 then do
          let r ← refSlots h bos num.toNat []
          finishSurface backend m h (importedSurfaceData m info num) r
        else stuck
    else pure none
  | _, _ => pure none

def tbmSurfaceInternalQuerySupportedFormats : BProg Bool := locked .surface do
  let initialized ← initSurfaceBufmgr
  let x ← answer
  access fun s => do
    s.deref s.surfaceBufmgr
    some ((), s)
  if backend.surfaceSupportedFormat ∧ x.formats then pure true
  else do
    giveBack backend initialized
    pure false

end Surface

section Queue

variable (backend : Backend)

/-- `_tbm_surface_queue_init`; the two creations differ in the `impl` they pass. -/
def surfaceQueueInit : BProg Queue := do
  match ← read (·.surfQueueBufmgr) with
  | some _ => pure ()
  | none => do
    let m ← tbmBufmgrInit
    modify fun s => { s with surfQueueBufmgr := m }
  access fun s => do
    s.deref s.surfQueueBufmgr
    some s.linkQueue

def surfaceQueueCreate (queueSize width height format : ℤ) : BProg (Option Queue) :=
  if 0 < queueSize ∧ 0 < width ∧ 0 < height ∧ 0 < format then locked .surfQueue do
    let x ← answer
    if x.calloc ∧ x.node then do
      let q ← surfaceQueueInit
      pure (some q)
    else pure none
  else pure none

def tbmSurfaceQueueCreate (queueSize width height format : ℤ) : BProg (Option Queue) :=
  surfaceQueueCreate queueSize width height format

def tbmSurfaceQueueSequenceCreate (queueSize width height format : ℤ) : BProg (Option Queue) :=
  surfaceQueueCreate queueSize width height format

/-- Runs `k` on a queue that passes `_tbm_surface_queue_is_valid`. -/
def withQueue (q : Option Queue) (k : Queue → BProg Unit) : BProg Unit := locked .surfQueue do
  match ← access fun s => (s.surfQueueIsValid q).map (·, s) with
  | none => pure ()
  | some q => k q

/-- `_tbm_surface_queue_attach`. -/
def surfaceQueueAttach (q : Queue) (h : Surface) : BProg Unit := do
  let x ← answer
  if x.node then do
    tbmSurfaceInternalRef (some h)
    modify fun s => s.setQueue q (s.queue q ++ [h])
  else pure ()

/-- The `need_attach` hooks on a queue without `alloc_cb`. -/
def needAttach (width height : ℤ) (format : Format) (flags : ℤ) (q : Queue) : BProg Unit := do
  match ← tbmSurfaceInternalCreateWithFlags backend width height format flags with
  | none => pure ()
  | some h => do
    surfaceQueueAttach q h
    tbmSurfaceInternalUnref backend (some h)

/-- The `need_attach` hooks on a queue whose `alloc_cb` returns the surface `h`. -/
def needAttachCb (h : Surface) (q : Queue) : BProg Unit := do
  tbmSurfaceInternalRef (some h)
  surfaceQueueAttach q h
  tbmSurfaceInternalUnref backend (some h)

/-- `_queue_delete_node` on the node of `h`. -/
def queueDeleteNode (h : Surface) (q : Queue) : BProg Unit := do
  if h ∈ (← read fun s => s.queue q) then do
    tbmSurfaceInternalDestroy backend (some h)
    modify fun s => s.setQueue q ((s.queue q).erase h)
  else pure ()

/-- The loop of `tbm_surface_queue_destroy` over the nodes. -/
def deleteNodes : List Surface → BProg Unit
  | [] => pure ()
  | h :: hs => do
    tbmSurfaceInternalDestroy backend (some h)
    deleteNodes hs

def deinitSurfQueueBufmgr : BProg Unit := do
  match ← read (·.surfQueueBufmgr) with
  | none => pure ()
  | some m => do
    tbmBufmgrDeinit backend (some m)
    modify fun s => { s with surfQueueBufmgr := none }

def tbmSurfaceQueueDestroy (q : Option Queue) : BProg Unit := withQueue q fun q => do
  modify fun s => { s with surfQueueList := s.surfQueueList.erase q }
  let hs ← read fun s => s.queue q
  deleteNodes backend hs
  let last ← access fun s => do
    s.deref s.surfQueueBufmgr
    some (s.surfQueueList.isEmpty, s.setQueue q [])
  if last then deinitSurfQueueBufmgr backend else pure ()

end Queue

end Tbm.Bufmgr
