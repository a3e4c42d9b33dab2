import Tbm.Bufmgr.Calls
import Tbm.Bufmgr.Mapping
import Tbm.Core.Parts

/-! Surfaces that are mapped, and the debug functions that dump them. The dump in progress is kept
beside the data of the manager, and no mutex guards it. -/
namespace Tbm.Bufmgr

open Prog

/-- `tbm_surface_dump_buf_info` without what is only written to its file. -/
structure DumpBuf where
  bo : Bo
  size : ℤ
  deriving DecidableEq, Repr

/-- `struct _tbm_surface_dump_info` as far as mutexes go. The position `0` of `link` is the head
of the list, and the buffer `i` is at `i + 1`. -/
structure DumpInfo where
  bufs : List DumpBuf
  link : Option ℕ
  deriving DecidableEq, Repr

/-- The buffer after `link`, past the head, with its number. -/
def DumpInfo.next (d : DumpInfo) : Option (ℕ × DumpBuf) := do
  let l ← d.link
  let i := if l < d.bufs.length then l else 0
  let b ← d.bufs[i]?
  some (i, b)

/-- The data of the manager and `g_dump_info`. -/
structure Store where
  mgr : State
  dump : Option DumpInfo

abbrev DProg := Prog Mutex Empty Empty Answers Store

def Store.setMgr (s : Store) (m : State) : Store := { s with mgr := m }

def onMgr {α : Type} (p : BProg α) : DProg α := p.zoom Store.mgr Store.setMgr

/-- A read of a slot of a surface that may have been freed meanwhile. -/
def State.surfaceSlot (s : State) (h : Surface) (i : ℕ) : Option (Option Bo) :=
  if h ∈ s.surfList then (s.surface h).slot i else none

/-- `map` tells whether the backend gives a pointer. -/
def tbmBoGetHandle (b : Option Bo) : BProg Bool := locked .bufmgr do
  let x ← answer
  read fun s => (s.boIsValid b).isSome && x.map

section Surface

variable (backend : Backend) (me : ℕ)

/-- The loop over the slots from slot `i` on that gives back what a failed map has mapped. -/
def unmapSlots (h : Surface) : ℕ → ℕ → BProg Unit
  | 0, _ => pure ()
  | n + 1, i => do
    let b ← access fun s => (s.surfaceSlot h i).map (·, s)
    let _ ← tbmBoUnmap backend b
    unmapSlots h n (i + 1)

/-- The loop that maps the slots. The surface mutex is given up for each map. -/
def mapSlots (h : Surface) : ℕ → ℕ → BProg Bool
  | 0, _ => pure true
  | n + 1, i => do
    mutexUnlock .surface
    let ok ← do
      let b ← access fun s => (s.surfaceSlot h i).map (·, s)
      tbmBoMap backend me b
    mutexLock .surface
    if ok then mapSlots h n (i + 1)
    else do
      unmapSlots backend h i 0
      pure false

/-- The loop that asks for the handles of the slots. -/
def handleSlots (h : Surface) : ℕ → ℕ → BProg Bool
  | 0, _ => pure true
  | n + 1, i => do
    let b ← access fun s => (s.surfaceSlot h i).map (·, s)
    if ← tbmBoGetHandle b then handleSlots h n (i + 1) else pure false

def fetchSlots (h : Surface) (map : Bool) (n : ℕ) : BProg Bool :=
  if map then mapSlots backend me h n 0 else handleSlots h n 0

/-- The pointers of the planes are left out of the result. -/
def tbmSurfaceInternalGetInfo (h : Option Surface) (map : Bool) : BProg (Option SurfaceInfo) :=
  locked .surface do
    match ← access fun s => (s.surfaceIsValid h).map (·, s) with
    | none => pure none
    | some h => do
      let n ← read fun s => (s.surface h).numBos.toNat
      if ← fetchSlots backend me h map n then
        access fun s => if h ∈ s.surfList then some (some (s.surface h).info, s) else none
      else pure none

def tbmSurfaceInternalUnmap (h : Option Surface) : BProg Unit := locked .surface do
  match ← access fun s => (s.surfaceIsValid h).map (·, s) with
  | none => pure ()
  | some h => do
    let n ← read fun s => (s.surface h).numBos.toNat
    unmapSlots backend h n 0

def tbmSurfaceMap (h : Option Surface) : BProg (Option SurfaceInfo) :=
  if h.isSome then tbmSurfaceInternalGetInfo backend me h true else pure none

def tbmSurfaceUnmap (h : Option Surface) : BProg Unit :=
  if h.isSome then tbmSurfaceInternalUnmap backend h else pure ()

def tbmSurfaceGetInfo (h : Option Surface) : BProg (Option SurfaceInfo) :=
  if h.isSome then tbmSurfaceInternalGetInfo backend me h false else pure none

def tbmSurfaceCreate (width height : ℤ) (format : Format) : BProg (Option Surface) :=
  if 0 < width ∧ 0 < height then tbmSurfaceInternalCreateWithFlags backend width height format 0
  else pure none

def tbmSurfaceDestroy (h : Option Surface) : BProg Unit :=
  if h.isSome then tbmSurfaceInternalDestroy backend h else pure ()

/-- The surface is mapped, written to its file if there is none yet, and unmapped. -/
def tbmSurfaceInternalCaptureBuffer (h : Option Surface) : BProg Unit :=
  if h.isSome then do
    match ← tbmSurfaceMap backend me h with
    | none => pure ()
    | some _ => tbmSurfaceUnmap backend h
  else pure ()

/-- The number of surfaces seen, and the greatest width and height. -/
def SurfaceInfo.widen (i : SurfaceInfo) (r : ℕ × ℤ × ℤ) : ℕ × ℤ × ℤ :=
  (r.1 + 1, if .ofInt r.2.1 < i.width then i.width.toInt32.toInt else r.2.1,
    if .ofInt r.2.2 < i.height then i.height.toInt32.toInt else r.2.2)

def maxSize : List Surface → ℕ × ℤ × ℤ → BProg (ℕ × ℤ × ℤ)
  | [], r => pure r
  | h :: hs, r => do
    match ← tbmSurfaceGetInfo backend me (some h) with
    | none => maxSize hs r
    | some i => maxSize hs (i.widen r)

def tbmUtilGetMaxSurfaceSize : BProg (ℕ × ℤ × ℤ) := do
  let hs ← read fun s => if s.gBufMgr.isSome then s.surfList else []
  maxSize backend me hs (0, 0, 0)

end Surface

section Dump

variable (backend : Backend) (me : ℕ)

/-- A use of `*g_dump_info`. -/
def onDump {α : Type} (f : DumpInfo → α × DumpInfo) : DProg α := access fun s => do
  let d ← s.dump
  some ((f d).1, { s with dump := some (f d).2 })

def endDump : DProg Unit := modify fun s => { s with dump := none }

/-- The loop of `dump_start` over the buffers. -/
def startBufs (size : ℤ) : ℕ → DProg Bool
  | 0 => pure true
  | n + 1 => do
    let x ← answer
    if x.calloc then do
      let m ← read fun s => s.mgr.surfaceBufmgr
      match ← onMgr (tbmBoAlloc m size 0 0) with
      | none => pure false
      | some b => do
        onDump fun d => ((), { d with bufs := d.bufs ++ [⟨b, size⟩] })
        startBufs size n
    else pure false

def unrefBufs : List DumpBuf → DProg Unit
  | [] => pure ()
  | b :: bs => do
    onMgr (tbmBoUnref backend (some b.bo))
    unrefBufs bs

/-- `dump_start` from where the size of the buffers is known. -/
def fillDump (size : ℤ) (count : ℕ) : DProg Unit := do
  if ← startBufs size count then onDump fun d => ((), { d with link := some 0 })
  else do
    let bufs ← onDump fun d => (d.bufs, d)
    unrefBufs backend bufs
    endDump

/-- `path` tells whether it is not NULL. -/
def tbmSurfaceInternalDumpStart (path : Bool) (w h count : ℤ) : DProg Unit :=
  if path ∧ 0 < w ∧ 0 < h ∧ 0 < count then do
    if (← read (·.dump)).isSome then pure ()
    else do
      let x ← answer
      if x.calloc then do
        modify fun s => { s with dump := some ⟨[], none⟩ }
        match ← onMgr (tbmSurfaceCreate backend w h .argb8888) with
        | none => endDump
        | some t => do
          match ← onMgr (tbmSurfaceMap backend me (some t)) with
          | none => do
            onMgr (tbmSurfaceDestroy backend (some t))
            endDump
          | some info => do
            onMgr (tbmSurfaceUnmap backend (some t))
            onMgr (tbmSurfaceDestroy backend (some t))
            fillDump backend ((info.planes 0).stride * .ofInt h).toInt32.toInt count.toNat
      else pure ()
  else pure ()

/-- The loop of `dump_end` over the buffers. -/
def endBufs : List DumpBuf → DProg Unit
  | [] => pure ()
  | b :: bs => do
    if ← onMgr (tbmBoMap backend me (some b.bo)) then do
      let _ ← onMgr (tbmBoUnmap backend (some b.bo))
      onMgr (tbmBoUnref backend (some b.bo))
    else onMgr (tbmBoUnref backend (some b.bo))
    endBufs bs

def tbmSurfaceInternalDumpEnd : DProg Unit := do
  match ← read (·.dump) with
  | none => pure ()
  | some d => do
    endBufs backend me d.bufs
    endDump

/-- The formats whose planes are copied. -/
def Format.copied : Format → Bool
  | argb8888 | xrgb8888 | yvu420 | yuv420 | nv12 | nv21 | yuyv | uyvy => true
  | _ => false

/-- The buffer the next dump goes to, if a dump is in progress. -/
def nextBuf : DProg (Option (ℕ × DumpBuf)) := access fun s =>
  match s.dump with
  | none => some (none, s)
  | some d => d.next.map fun r => (some r, s)

/-- `type` tells whether it is not NULL. -/
def tbmSurfaceInternalDumpBuffer (h : Option Surface) (type : Bool) : DProg Unit :=
  if h.isSome ∧ type then do
    match ← nextBuf with
    | none => pure ()
    | some (i, b) => do
      match ← onMgr (tbmSurfaceMap backend me h) with
      | none => pure ()
      | some info =>
        if .ofInt b.size < info.size then onMgr (tbmSurfaceUnmap backend h)
        else if ← onMgr (tbmBoMap backend me (some b.bo)) then do
          let _ ← onMgr (tbmBoUnmap backend (some b.bo))
          onMgr (tbmSurfaceUnmap backend h)
          if info.format.copied then onDump fun d => ((), { d with link := some (i + 1) })
          else pure ()
        else onMgr (tbmSurfaceUnmap backend h)
  else pure ()

/-- `ptr` and `type` tell whether they are not NULL. -/
def tbmSurfaceInternalDumpShmBuffer (ptr : Bool) (w h stride : ℤ) (type : Bool) : DProg Unit :=
  if ptr ∧ 0 < w ∧ 0 < h ∧ 0 < stride ∧ type then do
    match ← nextBuf with
    | none => pure ()
    | some (i, b) =>
      if b.size < (Int32.ofInt stride * Int32.ofInt h).toInt then pure ()
      else if ← onMgr (tbmBoMap backend me (some b.bo)) then do
        let _ ← onMgr (tbmBoUnmap backend (some b.bo))
        onDump fun d => ((), { d with link := some (i + 1) })
      else pure ()
  else pure ()

def tbmBufmgrDebugQueueDump (path : Bool) (count onoff : ℤ) : DProg Bool := locked .gLock do
  if onoff = 0 then do
    tbmSurfaceInternalDumpEnd backend me
    pure true
  else if path then do
    let r ← onMgr (tbmUtilGetMaxSurfaceSize backend me)
    if r.1 = 0 then pure false
    else do
      tbmSurfaceInternalDumpStart backend me path r.2.1 r.2.2 count
      pure true
  else pure false

def dumpSurfaces : List Surface → DProg Unit
  | [] => pure ()
  | h :: hs => do
    tbmSurfaceInternalDumpBuffer backend me (some h) true
    dumpSurfaces hs

def tbmBufmgrDebugDumpAll (path : Bool) : DProg Bool :=
  if path then locked .gLock do
    let r ← onMgr (tbmUtilGetMaxSurfaceSize backend me)
    if r.1 = 0 then pure true
    else do
      tbmSurfaceInternalDumpStart backend me path r.2.1 r.2.2 r.1
      let hs ← read fun s => s.mgr.surfList
      dumpSurfaces backend me hs
      tbmSurfaceInternalDumpEnd backend me
      pure true
  else pure false

end Dump

/-- The calls of the library. `single` stands for the functions that do all their work inside a
single critical section that takes no other mutex: the getters, the functions for user data and
debug data, the exports and `bind_native_display`. -/
inductive Request
  | op (o : Op)
  | mapping (o : MapOp)
  | surfaceGetInfo (h : Option Surface) (map : Bool)
  | surfaceUnmap (h : Option Surface)
  | surfaceCaptureBuffer (h : Option Surface)
  | debugShow (m : Option Mgr)
  | debugQueueDump (path : Bool) (count onoff : ℤ)
  | debugDumpAll (path : Bool)
  | dumpStart (path : Bool) (w h count : ℤ)
  | dumpEnd
  | dumpBuffer (h : Option Surface) (type : Bool)
  | dumpShmBuffer (ptr : Bool) (w h stride : ℤ) (type : Bool)
  | single (m : Mutex) (f : Answers → Store → Option (Reply × Store))

/-- The code of thread `me`. -/
def Request.prog (backend : Backend) (me : ℕ) : Request → DProg Reply
  | op o => onMgr (o.prog backend)
  | mapping o => return .flag (← onMgr (o.prog backend me))
  | surfaceGetInfo h map =>
    return .flag (← onMgr (tbmSurfaceInternalGetInfo backend me h map)).isSome
  | surfaceUnmap h => do
    onMgr (tbmSurfaceInternalUnmap backend h)
    return .done
  | surfaceCaptureBuffer h => do
    onMgr (tbmSurfaceInternalCaptureBuffer backend me h)
    return .done
  | debugShow m => do
    let x ← answer
    onMgr (tbmBufmgrDebugShow x m)
    return .done
  | debugQueueDump path count onoff =>
    return .flag (← tbmBufmgrDebugQueueDump backend me path count onoff)
  | debugDumpAll path => return .flag (← tbmBufmgrDebugDumpAll backend me path)
  | dumpStart path w h count => do
    tbmSurfaceInternalDumpStart backend me path w h count
    return .done
  | dumpEnd => do
    tbmSurfaceInternalDumpEnd backend me
    return .done
  | dumpBuffer h type => do
    tbmSurfaceInternalDumpBuffer backend me h type
    return .done
  | dumpShmBuffer ptr w h stride type => do
    tbmSurfaceInternalDumpShmBuffer backend me ptr w h stride type
    return .done
  | single m f => locked m do
    let x ← answer
    access (f x)

end Tbm.Bufmgr
