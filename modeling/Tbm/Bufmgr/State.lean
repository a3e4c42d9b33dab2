import Mathlib.Data.Int.Notation
import Mathlib.Data.Nat.Notation
import Mathlib.Logic.Function.Basic

/-! The buffer manager with its buffer objects and surfaces, and what the surface and the queue
code keep of it. Handles are numbered in the order they are made and a number is never given out
twice, so that a handle of something freed is on no list again. -/
namespace Tbm.Bufmgr

abbrev Mgr := ℕ

abbrev Bo := ℕ

abbrev Surface := ℕ

abbrev Queue := ℕ

abbrev Priv := ℕ

inductive LockType
  | tryOnce | tryAlways | tryNever
  deriving DecidableEq, Repr

/-- The formats the two tables of the surface code know. -/
inductive Format
  | c8 | rgb332 | bgr233
  | xrgb4444 | xbgr4444 | rgbx4444 | bgrx4444 | argb4444 | abgr4444 | rgba4444 | bgra4444
  | xrgb1555 | xbgr1555 | rgbx5551 | bgrx5551 | argb1555 | abgr1555 | rgba5551 | bgra5551
  | rgb565 | bgr565 | rgb888 | bgr888
  | xrgb8888 | xbgr8888 | rgbx8888 | bgrx8888 | argb8888 | abgr8888 | rgba8888 | bgra8888
  | xrgb2101010 | xbgr2101010 | rgbx1010102 | bgrx1010102
  | argb2101010 | abgr2101010 | rgba1010102 | bgra1010102
  | yuyv | yvyu | uyvy | vyuy | ayuv
  | nv12 | nv12mt | nv21 | nv16 | nv61
  | yuv410 | yvu410 | yuv411 | yvu411 | yuv420 | yvu420 | yuv422 | yvu422 | yuv444 | yvu444
  | other (code : UInt32)
  deriving DecidableEq, Repr

/-- `tbm_surface_internal_get_num_planes`. -/
def Format.numPlanes : Format → UInt32
  | c8 | rgb332 | bgr233
  | xrgb4444 | xbgr4444 | rgbx4444 | bgrx4444 | argb4444 | abgr4444 | rgba4444 | bgra4444
  | xrgb1555 | xbgr1555 | rgbx5551 | bgrx5551 | argb1555 | abgr1555 | rgba5551 | bgra5551
  | rgb565 | bgr565 | rgb888 | bgr888
  | xrgb8888 | xbgr8888 | rgbx8888 | bgrx8888 | argb8888 | abgr8888 | rgba8888 | bgra8888
  | xrgb2101010 | xbgr2101010 | rgbx1010102 | bgrx1010102
  | argb2101010 | abgr2101010 | rgba1010102 | bgra1010102
  | yuyv | yvyu | uyvy | vyuy | ayuv => 1
  | nv12 | nv12mt | nv21 | nv16 | nv61 => 2
  | yuv410 | yvu410 | yuv411 | yvu411 | yuv420 | yvu420 | yuv422 | yvu422 | yuv444 | yvu444 => 3
  | other _ => 0

/-- `tbm_surface_internal_get_bpp`. -/
def Format.bpp : Format → UInt32
  | c8 | rgb332 | bgr233 => 8
  | xrgb4444 | xbgr4444 | rgbx4444 | bgrx4444 | argb4444 | abgr4444 | rgba4444 | bgra4444
  | xrgb1555 | xbgr1555 | rgbx5551 | bgrx5551 | argb1555 | abgr1555 | rgba5551 | bgra5551
  | rgb565 | bgr565 => 16
  | rgb888 | bgr888 => 24
  | xrgb8888 | xbgr8888 | rgbx8888 | bgrx8888 | argb8888 | abgr8888 | rgba8888 | bgra8888
  | xrgb2101010 | xbgr2101010 | rgbx1010102 | bgrx1010102
  | argb2101010 | abgr2101010 | rgba1010102 | bgra1010102
  | yuyv | yvyu | uyvy | vyuy | ayuv => 32
  | nv12 | nv12mt | nv21 => 12
  | nv16 | nv61 => 16
  | yuv410 | yvu410 => 9
  | yuv411 | yvu411 | yuv420 | yvu420 => 12
  | yuv422 | yvu422 => 16
  | yuv444 | yvu444 => 24
  | other _ => 0

structure Plane where
  size : UInt32
  offset : UInt32
  stride : UInt32
  deriving DecidableEq, Repr

/-- `tbm_surface_info_s`; the table of planes has four entries. -/
structure SurfaceInfo where
  width : UInt32
  height : UInt32
  format : Format
  bpp : UInt32
  size : UInt32
  numPlanes : UInt32
  planes : ℕ → Plane

/-- `struct _tbm_bo` without its user data. Its `bufmgr` is the manager whose list it is on. -/
structure BoData where
  refCnt : ℤ
  flags : ℤ
  priv : Option Priv
  surface : Option Surface
  lockCnt : ℤ
  mapCnt : UInt32

/-- `struct _tbm_surface` without its user and debug data. -/
structure SurfaceData where
  bufmgr : Option Mgr
  info : SurfaceInfo
  flags : ℤ
  numBos : ℤ
  bos : ℕ → Option Bo
  planesBoIdx : ℕ → ℤ
  refcnt : ℤ

/-- A read of the table of four slots. -/
def SurfaceData.slot (v : SurfaceData) (i : ℕ) : Option (Option Bo) :=
  if i < 4 then some (v.bos i) else none

def SurfaceData.held (v : SurfaceData) : List Bo :=
  (List.range v.numBos.toNat).filterMap v.bos

/-- What the backend provides; the other entries of its table are mandatory. -/
structure Backend where
  boImport : Bool
  boImportFd : Bool
  boGetFlags : Bool
  boLock : Bool
  boUnlock : Bool
  surfaceGetPlaneData : Bool
  surfaceBoAlloc : Bool
  surfaceSupportedFormat : Bool
  deriving DecidableEq, Repr

/-- The globals of `tbm_bufmgr.c`, `tbm_surface_internal.c` and `tbm_surface_queue.c`, with the
fields of the manager. Of a queue only the surfaces attached to it are kept. The fields from
`frees` on are observers the code never reads. -/
structure State where
  gBufMgr : Option Mgr
  refCount : ℤ
  lockType : LockType
  boCnt : UInt32
  boList : List Bo
  surfList : List Surface
  surfQueueList : List Queue
  surfaceBufmgr : Option Mgr
  surfQueueBufmgr : Option Mgr
  lastChkBoCnt : UInt32
  bo : Bo → BoData
  surface : Surface → SurfaceData
  queue : Queue → List Surface
  /-- Handles given out so far. -/
  mgrs : ℕ
  bos : ℕ
  surfaces : ℕ
  queues : ℕ
  /-- Calls of `bo_free`. -/
  frees : List Bo
  /-- Successful calls of `bo_lock`, and calls of `bo_unlock`. -/
  locks : Bo → ℕ
  unlocks : Bo → ℕ
  /-- Successful calls of `bo_map` less those of `bo_unmap`. -/
  maps : Bo → ℤ
  /-- Where a thread has left the mutex to call `bo_lock`: the buffer object, and whether the call
  has succeeded. -/
  window : ℕ → Option (Bo × Bool)
  /-- The size `tbm_bo_alloc` was called with. -/
  asked : Bo → Option ℤ
  /-- No private pointer that was allocated belonged to a live buffer object. -/
  freshAllocs : Bool

namespace State

def initial : State where
  gBufMgr := none
  refCount := 0
  lockType := .tryOnce
  boCnt := 0
  boList := []
  surfList := []
  surfQueueList := []
  surfaceBufmgr := none
  surfQueueBufmgr := none
  lastChkBoCnt := 0
  bo := fun _ =>
    { refCnt := 0, flags := 0, priv := none, surface := none, lockCnt := 0, mapCnt := 0 }
  surface := fun _ =>
    { bufmgr := none
      info :=
        { width := 0, height := 0, format := .other 0, bpp := 0, size := 0, numPlanes := 0
          planes := fun _ => ⟨0, 0, 0⟩ }
      flags := 0
      numBos := 0
      bos := fun _ => none
      planesBoIdx := fun _ => 0
      refcnt := 0 }
  queue := fun _ => []
  mgrs := 0
  bos := 0
  surfaces := 0
  queues := 0
  frees := []
  locks := fun _ => 0
  unlocks := fun _ => 0
  maps := fun _ => 0
  window := fun _ => none
  asked := fun _ => none
  freshAllocs := true

variable (s : State)

def setBo (b : Bo) (v : BoData) : State := { s with bo := Function.update s.bo b v }

def setRefCnt (b : Bo) (n : ℤ) : State := s.setBo b { s.bo b with refCnt := n }

def setPriv (b : Bo) (p : Option Priv) : State := s.setBo b { s.bo b with priv := p }

def setBoSurface (b : Bo) (h : Option Surface) : State := s.setBo b { s.bo b with surface := h }

def setLockCnt (b : Bo) (n : ℤ) : State := s.setBo b { s.bo b with lockCnt := n }

def setMapCnt (b : Bo) (n : UInt32) : State := s.setBo b { s.bo b with mapCnt := n }

def setSurface (h : Surface) (v : SurfaceData) : State :=
  { s with surface := Function.update s.surface h v }

def setSlot (h : Surface) (i : ℕ) (b : Option Bo) : State :=
  s.setSurface h { s.surface h with bos := Function.update (s.surface h).bos i b }

def setSurfaceRefcnt (h : Surface) (n : ℤ) : State :=
  s.setSurface h { s.surface h with refcnt := n }

def HasPriv (p : Priv) : Prop := ∃ b ∈ s.boList, (s.bo b).priv = some p

instance (p : Priv) : Decidable (s.HasPriv p) :=
  inferInstanceAs (Decidable (∃ b ∈ s.boList, (s.bo b).priv = some p))

def slotBo (h : Surface) (i : ℕ) : Option Bo := do
  let r ← (s.surface h).slot i
  let b ← r
  if b ∈ s.boList then some b else none

/-- The pairs of a linked surface and one of its slots that hold the buffer object. -/
def slots (b : Bo) : ℕ := (s.surfList.flatMap fun h => (s.surface h).held).count b

end State

end Tbm.Bufmgr
