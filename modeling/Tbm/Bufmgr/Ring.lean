import Tbm.Bufmgr.Dumps
import Tbm.Core.Copies
import Tbm.Core.Rotation
import Tbm.Core.Runs

/-! The buffers a dump goes to in turn: what each of them holds after a run of dumps. -/
namespace Tbm.Bufmgr

open Runs Copies Rotation

/-- What the name of a file is printed from: the time in milliseconds, the number of the dump and
what is known of it. -/
inductive DumpName
  /-- `"%10.3f_%03d_%p-%s.%s"` -/
  | pixels (time : ℕ) (count : Int32) (surface : Surface) (type : String) (ending : String)
  /-- `"%10.3f_%03d-%s_%dx%d_%c%c%c%c.%s"` -/
  | planes (time : ℕ) (count : Int32) (type : String) (stride height : UInt32) (format : Format)
    (ending : String)
  /-- `"%10.3f_%03d-%s.%s"` -/
  | shm (time : ℕ) (count : Int32) (type : String) (ending : String)
  deriving DecidableEq, Repr

def Format.dumpPostfix : Format → String
  | argb8888 | xrgb8888 => "png"
  | _ => "yuv"

def SurfaceInfo.zero : SurfaceInfo where
  width := 0
  height := 0
  format := .other 0
  bpp := 0
  size := 0
  numPlanes := 0
  planes := fun _ => ⟨0, 0, 0⟩

/-- A surface that is mapped, with the bytes there are from the pointer of each plane on. -/
structure MappedSurface where
  info : SurfaceInfo
  ptr : ℕ → List UInt8

/-- `struct _tbm_surface_dump_buf_info`, with the bytes of its buffer object. -/
structure DumpSlot where
  bo : Bo
  size : Int32
  dirty : Bool
  dirtyShm : Bool
  shmStride : Int32
  shmH : Int32
  name : Option DumpName
  info : SurfaceInfo
  contents : List UInt8

/-- `struct _tbm_surface_dump_info`. The cell `0` is `surface_list`, and the buffer `i` is linked by
the cell `i + 1`. -/
structure DumpRing where
  path : String
  count : Int32
  link : ℕ
  links : Links ℕ
  slots : List DumpSlot

section Bytes

variable (info : SurfaceInfo)

/-- `planes[i].stride * height`, and with the half height of the other planes. -/
def SurfaceInfo.planeBytes (i : ℕ) : UInt32 := (info.planes i).stride * info.height

def SurfaceInfo.chromaBytes (i : ℕ) : UInt32 := (info.planes i).stride * (info.height >>> 1)

/-- The copies `dump_buffer` makes, in their order. -/
def MappedSurface.copies (m : MappedSurface) : List (List UInt8 × ℕ) :=
  match m.info.format with
  | .argb8888 | .xrgb8888 => [(m.ptr 0, m.info.size.toNat)]
  | .yvu420 | .yuv420 =>
    [(m.ptr 0, (m.info.planeBytes 0).toNat), (m.ptr 1, (m.info.chromaBytes 1).toNat),
      (m.ptr 2, (m.info.chromaBytes 2).toNat)]
  | .nv12 | .nv21 =>
    [(m.ptr 0, (m.info.planeBytes 0).toNat), (m.ptr 1, (m.info.chromaBytes 1).toNat)]
  | .yuyv | .uyvy => [(m.ptr 0, (m.info.planeBytes 0).toNat)]
  | _ => []

def MappedSurface.name (m : MappedSurface) (time : ℕ) (count : Int32) (h : Surface)
    (type : String) : DumpName :=
  match m.info.format with
  | .argb8888 | .xrgb8888 => .pixels time count h type m.info.format.dumpPostfix
  | _ => .planes time count type (m.info.planes 0).stride m.info.height m.info.format
    m.info.format.dumpPostfix

/-- An `int` as the number of bytes of a copy. -/
def sizeT (n : Int32) : ℕ := (n.toInt % 2 ^ 64).toNat

/-- What `memset` leaves of the bytes of a buffer. -/
def DumpSlot.zeros (b : DumpSlot) : List UInt8 := List.replicate b.size.toNatClampNeg 0

end Bytes

section Start

/-- What `calloc`, `tbm_surface_create`, `tbm_surface_map` and `tbm_bo_alloc` answer, and what is in
the memory of a new buffer object. -/
structure StartAnswers where
  calloc : Bool
  surface : Bool
  map : Option SurfaceInfo
  slot : ℕ → Bool
  bo : ℕ → Option Bo
  bytes : ℕ → ℕ → UInt8

variable (x : StartAnswers)

/-- `info.planes[0].stride * h`. -/
def StartAnswers.bufferSize (h : Int32) : Int32 :=
  match x.map with
  | none => 0
  | some info => ((info.planes 0).stride * h.toUInt32).toInt32

/-- A buffer object needs a size. -/
def StartAnswers.alloc (size : Int32) (i : ℕ) : Option Bo := if 0 < size then x.bo i else none

def DumpSlot.new (b : Bo) (size : Int32) (bytes : ℕ → UInt8) : DumpSlot where
  bo := b
  size := size
  dirty := false
  dirtyShm := false
  shmStride := 0
  shmH := 0
  name := none
  info := .zero
  contents := (List.range size.toNatClampNeg).map bytes

def DumpRing.new (path : String) : DumpRing where
  path := path
  count := 0
  link := 0
  links := Links.inithead ⟨fun _ => 0, fun _ => 0⟩ 0
  slots := []

def DumpRing.addSlot (r : DumpRing) (b : DumpSlot) : DumpRing :=
  { r with links := r.links.addtail (r.slots.length + 1) 0, slots := r.slots ++ [b] }

/-- The loop that makes the buffers; `none` if it gives them up. -/
def createSlots (size : Int32) : ℕ → DumpRing → Option DumpRing
  | 0, r => some r
  | n + 1, r =>
    if x.slot r.slots.length then
      match x.alloc size r.slots.length with
      | none => none
      | some b => createSlots size n (r.addSlot (.new b size (x.bytes r.slots.length)))
    else none

/-- `g_dump_info` afterwards, if it was NULL. -/
def DumpRing.tbmSurfaceInternalDumpStart (path : Option String) (w h count : Int32) :
    Option DumpRing :=
  match path with
  | none => none
  | some path =>
    if 0 < w ∧ 0 < h ∧ 0 < count then
      if x.calloc ∧ x.surface ∧ x.map.isSome then
        createSlots x (x.bufferSize h) count.toNatClampNeg (.new path)
      else none
    else none

end Start

namespace DumpRing

variable (r : DumpRing)

/-- The `next_link` of both functions. -/
def nextLink : ℕ :=
  if r.links.next r.link = 0 then r.links.next (r.links.next r.link) else r.links.next r.link

/-- `LIST_ENTRY`; the head is in no buffer. -/
def entry : ℕ → Option DumpSlot
  | 0 => none
  | i + 1 => r.slots[i]?

def setNext (b : DumpSlot) : DumpRing := { r with slots := r.slots.set (r.nextLink - 1) b }

/-- The end of a dump that is accepted: the number goes up, and the cursor goes on. -/
def accept (b : DumpSlot) : DumpRing :=
  { r.setNext b with
    count := if r.count + 1 = 1000 then 0 else r.count + 1
    link := r.nextLink }

/-- `map` and `boMap` are what the two maps give. The result tells whether the end is reached. -/
def tbmSurfaceInternalDumpBuffer (surface : Option Surface) (type : Option String)
    (map : Option MappedSurface) (boMap : Bool) (time : ℕ) : Option (Bool × DumpRing) :=
  match surface, type with
  | some h, some type => do
    let b ← r.entry r.nextLink
    match map with
    | none => some (false, r)
    | some m =>
      if b.size.toUInt32 < m.info.size then some (false, r)
      else if boMap then
        if m.info.format.copied then do
          let contents ← gather b.zeros 0 m.copies
          some (true, r.accept
            { b with
              info := m.info
              name := some (m.name time r.count h type)
              contents := contents
              dirty := true
              dirtyShm := false })
        -- The description and the zeros are in the buffer by now.
        else some (false, r.setNext { b with info := m.info, contents := b.zeros })
      else some (false, r.setNext { b with info := m.info })
  | _, _ => some (false, r)

/-- `ptr` is what there is to read from the pointer on. -/
def tbmSurfaceInternalDumpShmBuffer (ptr : Option (List UInt8)) (w h stride : Int32)
    (type : Option String) (boMap : Bool) (time : ℕ) : Option (Bool × DumpRing) :=
  match ptr, type with
  | some ptr, some type =>
    if 0 < w ∧ 0 < h ∧ 0 < stride then do
      let b ← r.entry r.nextLink
      if b.size < stride * h then some (false, r)
      else if boMap then do
        let contents ← memcpy b.zeros 0 ptr (sizeT (stride * h))
        some (true, r.accept
          { b with
            info := .zero
            name := some (.shm time r.count type "png")
            contents := contents
            dirty := false
            dirtyShm := true
            shmStride := stride
            shmH := h })
      else some (false, r)
    else some (false, r)
  | _, _ => some (false, r)

end DumpRing

/-- A dump, with what the maps give and the time. -/
inductive DumpCall
  | buffer (surface : Option Surface) (type : Option String) (map : Option MappedSurface)
    (boMap : Bool) (time : ℕ)
  | shmBuffer (ptr : Option (List UInt8)) (w h stride : Int32) (type : Option String)
    (boMap : Bool) (time : ℕ)

def DumpRing.step : DumpCall → DumpRing → Option (Bool × DumpRing)
  | .buffer surface type map boMap time, r =>
    r.tbmSurfaceInternalDumpBuffer surface type map boMap time
  | .shmBuffer ptr w h stride type boMap time, r =>
    r.tbmSurfaceInternalDumpShmBuffer ptr w h stride type boMap time

section Law

/-- What is kept of a dump. -/
structure DumpImage where
  name : DumpName
  contents : List UInt8
  info : SurfaceInfo
  /-- The stride and the height, if it came from shared memory. -/
  shm : Option (Int32 × Int32)

def padded (size : Int32) (l : List UInt8) : List UInt8 :=
  l ++ List.replicate (size.toNatClampNeg - l.length) 0

/-- What buffers of `size` bytes should keep of a call if `n` dumps were accepted before, and `none`
for a call that is not accepted. -/
def DumpCall.image (size : Int32) (n : ℕ) : DumpCall → Option DumpImage
  | buffer (some h) (some type) (some m) boMap time =>
    if m.info.size ≤ size.toUInt32 ∧ boMap ∧ m.info.format.copied then
      some ⟨m.name time (.ofNat (n % 1000)) h type, padded size (joined m.copies), m.info, none⟩
    else none
  | shmBuffer (some ptr) w h stride (some type) boMap time =>
    if 0 < w ∧ 0 < h ∧ 0 < stride ∧ stride * h ≤ size ∧ boMap then
      some ⟨.shm time (.ofNat (n % 1000)) type "png",
        padded size (ptr.take (stride * h).toNatClampNeg), .zero, some (stride, h)⟩
    else none
  | _ => none

def DumpCall.accepted (size : Int32) (c : DumpCall) : Bool := (c.image size 0).isSome

/-- The dumps that are accepted, after those in `l`. -/
def accepted (size : Int32) : List DumpCall → List DumpImage → List DumpImage
  | [], l => l
  | c :: cs, l => accepted size cs (l ++ (c.image size l.length).toList)

/-- The call is not turned down after the size test, and its copies stay inside of their blocks. -/
def DumpCall.clean (size : Int32) : DumpCall → Bool
  | buffer (some _) (some _) (some m) boMap _ => decide (m.info.size ≤ size.toUInt32 →
    boMap ∧ m.info.format.copied ∧ Sourced m.copies ∧ total m.copies ≤ size.toNatClampNeg)
  | shmBuffer (some ptr) w h stride (some _) boMap _ =>
    decide (0 < w ∧ 0 < h ∧ 0 < stride ∧ stride * h ≤ size ∧ boMap →
      0 ≤ stride * h ∧ (stride * h).toNatClampNeg ≤ ptr.length)
  | _ => true

/-- The buffer keeps the dump. -/
structure DumpSlot.Keeps (b : DumpSlot) (a : DumpImage) : Prop where
  name : b.name = some a.name
  contents : b.contents = a.contents
  info : b.info = a.info
  dirty : b.dirty = !a.shm.isSome
  dirtyShm : b.dirtyShm = a.shm.isSome
  shm : ∀ p, a.shm = some p → b.shmStride = p.1 ∧ b.shmH = p.2

/-- No dump went to the buffer. -/
structure DumpSlot.Unused (b : DumpSlot) : Prop where
  name : b.name = none
  info : b.info = .zero
  dirty : b.dirty = false
  dirtyShm : b.dirtyShm = false

end Law

section Steps

variable {r0 r : DumpRing} {size : Int32} {l : List DumpImage} {b : DumpSlot}

/-- After the dumps `l`, what the buffers of `r0` have become. -/
structure Holding (r0 : DumpRing) (size : Int32) (l : List DumpImage) (r : DumpRing) : Prop where
  pos : 0 < r0.slots.length
  ring : r.links.Ring 0 (List.range' 1 r0.slots.length)
  len : r.slots.length = r0.slots.length
  size : ∀ b ∈ r.slots, b.size = size
  link : r.link = cursor r0.slots.length l.length
  count : r.count = .ofNat (l.length % 1000)
  slot : ∀ i b, r.slots[i]? = some b →
    match lastAt r0.slots.length i l with
    | some a => b.Keeps a
    | none => r0.slots[i]? = some b

theorem Holding.nextLink (h : Holding r0 size l r) :
    r.nextLink = l.length % r0.slots.length + 1 := by
  unfold DumpRing.nextLink
  rw [h.link]
  exact next_cursor h.ring h.pos l.length

theorem Holding.entry (h : Holding r0 size l r) :
    ∃ b, r.entry r.nextLink = some b ∧ b.size = size := by
  have hlt : l.length % r0.slots.length < r.slots.length := by
    rw [h.len]
    exact Nat.mod_lt _ h.pos
  rw [h.nextLink]
  exact ⟨_, List.getElem?_eq_getElem hlt, h.size _ (List.getElem_mem hlt)⟩

private theorem count_succ (n : ℕ) :
    (if Int32.ofNat (n % 1000) + 1 = 1000 then 0 else Int32.ofNat (n % 1000) + 1) =
      Int32.ofNat ((n + 1) % 1000) := by
  have hlt : n % 1000 < 1000 := Nat.mod_lt _ (by decide)
  have hadd : Int32.ofNat (n % 1000) + 1 = Int32.ofNat (n % 1000 + 1) := (Int32.ofNat_add _ _).symm
  have hinj : Int32.ofNat (n % 1000 + 1) = 1000 ↔ n % 1000 + 1 = 1000 := by
    constructor
    · intro heq
      have hval := congrArg Int32.toNatClampNeg heq
      rw [Int32.toNatClampNeg_ofNat_of_lt (by omega)] at hval
      exact hval
    · intro heq
      rw [heq]
      rfl
  rw [hadd]
  by_cases hwrap : n % 1000 + 1 = 1000
  · have hzero : (n + 1) % 1000 = 0 := by omega
    rw [if_pos (hinj.mpr hwrap), hzero]
    rfl
  · have hsucc : (n + 1) % 1000 = n % 1000 + 1 := by omega
    rw [if_neg (fun he => hwrap (hinj.mp he)), hsucc]

theorem Holding.accept (h : Holding r0 size l r) {a : DumpImage} (hb : b.Keeps a)
    (hs : b.size = size) : Holding r0 size (l ++ [a]) (r.accept b) := by
  have hslots : (r.accept b).slots = r.slots.set (l.length % r0.slots.length) b := by
    show r.slots.set (r.nextLink - 1) b = _
    rw [h.nextLink, Nat.add_sub_cancel]
  refine ⟨h.pos, h.ring, ?_, ?_, ?_, ?_, ?_⟩
  · rw [hslots, List.length_set]
    exact h.len
  · intro v hv
    rw [hslots] at hv
    rcases List.mem_or_eq_of_mem_set hv with hv | rfl
    · exact h.size v hv
    · exact hs
  · show r.nextLink = _
    rw [h.nextLink, List.length_append, List.length_singleton]
    unfold cursor
    rw [if_neg (Nat.succ_ne_zero _), Nat.add_sub_cancel]
  · show (if r.count + 1 = 1000 then 0 else r.count + 1) = _
    rw [h.count, count_succ, List.length_append, List.length_singleton]
  · intro i v hv
    rw [hslots, List.getElem?_set] at hv
    rw [lastAt_concat]
    by_cases hi : l.length % r0.slots.length = i
    · rw [if_pos hi] at hv ⊢
      split_ifs at hv with hlt
      · obtain rfl : b = v := Option.some.inj hv
        exact hb
    · rw [if_neg hi] at hv ⊢
      exact h.slot i v hv

theorem padded_joined {cs : List (List UInt8 × ℕ)} (h : Sourced cs) :
    padded size (joined cs) = joined cs ++ List.replicate (size.toNatClampNeg - total cs) 0 := by
  unfold padded
  rw [length_joined h]

theorem sizeT_of_nonneg {n : Int32} (h : 0 ≤ n) : sizeT n = n.toNatClampNeg := by
  have hpos : 0 ≤ n.toInt := Int32.le_iff_toInt_le.mp h
  have hlt : n.toInt < 2 ^ 31 := n.toInt_lt
  unfold sizeT
  rw [Int.emod_eq_of_lt hpos (by omega)]
  rfl

/-- What a step should do: a dump that is accepted is kept, and no other does anything. -/
def Lawful (r0 : DumpRing) (size : Int32) (l : List DumpImage) (c : DumpCall) (r : DumpRing) :
    Prop :=
  ∃ r', DumpRing.step c r = some (c.accepted size, r') ∧
    Holding r0 size (l ++ (c.image size l.length).toList) r' ∧ (c.accepted size = false → r' = r)

theorem Lawful.turnedDown {c : DumpCall} (h : Holding r0 size l r)
    (hs : DumpRing.step c r = some (false, r)) (hi : ∀ n, c.image size n = none) :
    Lawful r0 size l c r := by
  have hc : c.accepted size = false := by
    unfold DumpCall.accepted
    rw [hi]
    rfl
  refine ⟨r, ?_, ?_, fun _ => rfl⟩
  · rw [hc]
    exact hs
  · rw [hi, Option.toList_none, List.append_nil]
    exact h

theorem Lawful.kept {c : DumpCall} {a : ℕ → DumpImage} (h : Holding r0 size l r)
    (hs : DumpRing.step c r = some (true, r.accept b)) (hi : ∀ n, c.image size n = some (a n))
    (hb : b.Keeps (a l.length)) (hsize : b.size = size) : Lawful r0 size l c r := by
  have hc : c.accepted size = true := by
    unfold DumpCall.accepted
    rw [hi]
    rfl
  refine ⟨r.accept b, ?_, ?_, fun hno => ?_⟩
  · rw [hc]
    exact hs
  · rw [hi, Option.toList_some]
    exact h.accept hb hsize
  · rw [hc] at hno
    cases hno

theorem dumpBuffer_lawful (h : Holding r0 size l r) {s : Surface} {type : String}
    {m : MappedSurface} {boMap : Bool} {time : ℕ}
    (hc : (DumpCall.buffer (some s) (some type) (some m) boMap time).clean size = true) :
    Lawful r0 size l (.buffer (some s) (some type) (some m) boMap time) r := by
  obtain ⟨b, hb, rfl⟩ := h.entry
  have hstep : DumpRing.step (.buffer (some s) (some type) (some m) boMap time) r =
      r.tbmSurfaceInternalDumpBuffer (some s) (some type) (some m) boMap time := rfl
  unfold DumpRing.tbmSurfaceInternalDumpBuffer at hstep
  simp only [hb, Option.bind_eq_bind, Option.bind_some] at hstep
  by_cases hsize : b.size.toUInt32 < m.info.size
  · rw [if_pos hsize] at hstep
    refine Lawful.turnedDown h hstep fun n => ?_
    exact if_neg fun hacc => absurd hsize (UInt32.not_lt.mpr hacc.1)
  · have hle : m.info.size ≤ b.size.toUInt32 := UInt32.not_lt.mp hsize
    obtain ⟨hmap, hformat, hsrc, htotal⟩ := of_decide_eq_true hc hle
    have hcopy : gather b.zeros 0 m.copies = some (padded b.size (joined m.copies)) :=
      gather_replicate.mpr ⟨hsrc, htotal, padded_joined hsrc⟩
    rw [if_neg hsize, if_pos hmap, if_pos hformat, hcopy, Option.bind_some] at hstep
    refine Lawful.kept h hstep (fun n => if_pos ⟨hle, hmap, hformat⟩) ?_ rfl
    refine ⟨?_, rfl, rfl, rfl, rfl, fun p hp => by cases hp⟩
    rw [← h.count]

theorem dumpShmBuffer_lawful (h : Holding r0 size l r) {ptr : List UInt8} {w ht stride : Int32}
    {type : String} {boMap : Bool} {time : ℕ}
    (hc : (DumpCall.shmBuffer (some ptr) w ht stride (some type) boMap time).clean size = true) :
    Lawful r0 size l (.shmBuffer (some ptr) w ht stride (some type) boMap time) r := by
  obtain ⟨b, hb, rfl⟩ := h.entry
  have hstep : DumpRing.step (.shmBuffer (some ptr) w ht stride (some type) boMap time) r =
      r.tbmSurfaceInternalDumpShmBuffer (some ptr) w ht stride (some type) boMap time := rfl
  unfold DumpRing.tbmSurfaceInternalDumpShmBuffer at hstep
  simp only [hb, Option.bind_eq_bind, Option.bind_some] at hstep
  by_cases harg : 0 < w ∧ 0 < ht ∧ 0 < stride
  · rw [if_pos harg] at hstep
    by_cases hsize : b.size < stride * ht
    · rw [if_pos hsize] at hstep
      refine Lawful.turnedDown h hstep fun n => ?_
      exact if_neg fun hacc => absurd hsize (Int32.not_lt.mpr hacc.2.2.2.1)
    · rw [if_neg hsize] at hstep
      have hle : stride * ht ≤ b.size := Int32.not_lt.mp hsize
      by_cases hmap : boMap
      · have hacc : 0 < w ∧ 0 < ht ∧ 0 < stride ∧ stride * ht ≤ b.size ∧ boMap :=
          ⟨harg.1, harg.2.1, harg.2.2, hle, hmap⟩
        obtain ⟨hpos, hsrc⟩ := of_decide_eq_true hc hacc
        have hfit : (stride * ht).toNatClampNeg ≤ b.size.toNatClampNeg :=
          Int.toNat_le_toNat (Int32.le_iff_toInt_le.mp hle)
        have hcopy : memcpy b.zeros 0 ptr (sizeT (stride * ht)) =
            some (padded b.size (ptr.take (stride * ht).toNatClampNeg)) := by
          unfold DumpSlot.zeros padded
          rw [sizeT_of_nonneg hpos, memcpy_eq_some, List.length_replicate, Nat.zero_add,
            List.take_zero, List.nil_append, List.drop_replicate, List.length_take,
            Nat.min_eq_left hsrc]
          exact ⟨hsrc, hfit, rfl⟩
        rw [if_pos hmap, hcopy, Option.bind_some] at hstep
        refine Lawful.kept h hstep (fun n => if_pos hacc) ?_ rfl
        refine ⟨?_, rfl, rfl, rfl, rfl, ?_⟩
        · rw [← h.count]
        · rintro p hp
          obtain rfl := Option.some.inj hp
          exact ⟨rfl, rfl⟩
      · rw [if_neg hmap] at hstep
        exact Lawful.turnedDown h hstep fun n => if_neg fun hacc => hmap hacc.2.2.2.2
  · rw [if_neg harg] at hstep
    exact Lawful.turnedDown h hstep fun n =>
      if_neg fun hacc => harg ⟨hacc.1, hacc.2.1, hacc.2.2.1⟩

/-- One call with copies that stay inside of their blocks, and no late rejection. -/
theorem Holding.step (h : Holding r0 size l r) {c : DumpCall} (hc : c.clean size = true) :
    Lawful r0 size l c r := by
  obtain ⟨v, hv, -⟩ := h.entry
  cases c with
  | buffer s type map boMap time =>
    cases s with
    | none => exact .turnedDown h rfl fun _ => rfl
    | some s =>
      cases type with
      | none => exact .turnedDown h rfl fun _ => rfl
      | some type =>
        cases map with
        | some m => exact dumpBuffer_lawful h hc
        | none =>
          refine .turnedDown h ?_ fun _ => rfl
          simp [DumpRing.step, DumpRing.tbmSurfaceInternalDumpBuffer, hv]
  | shmBuffer ptr w ht stride type boMap time =>
    cases ptr with
    | none => exact .turnedDown h rfl fun _ => rfl
    | some ptr =>
      cases type with
      | none => exact .turnedDown h rfl fun _ => rfl
      | some type => exact dumpShmBuffer_lawful h hc

end Steps

section Start

variable {x : StartAnswers} {size : Int32} {r t : DumpRing}

/-- The buffers that are there are linked in their order, and no dump went to them. -/
structure Started (size : Int32) (r : DumpRing) : Prop where
  ring : r.links.Ring 0 (List.range' 1 r.slots.length)
  slots : ∀ b ∈ r.slots, b.size = size ∧ b.Unused
  link : r.link = 0
  count : r.count = 0

theorem started_new (size : Int32) (path : String) : Started size (.new path) :=
  ⟨Links.ring_nil.mpr ⟨rfl, rfl⟩, fun _ hb => absurd hb List.not_mem_nil, rfl, rfl⟩

theorem Started.addSlot (h : Started size r) (b : Bo) (bytes : ℕ → UInt8) :
    Started size (r.addSlot (.new b size bytes)) := by
  refine ⟨?_, ?_, h.link, h.count⟩
  · have hnew : r.slots.length + 1 ∉ 0 :: List.range' 1 r.slots.length := by
      rw [List.mem_cons, List.mem_range'_1]
      omega
    have hadd := h.ring.addtail hnew
    have hrange : List.range' 1 r.slots.length ++ [r.slots.length + 1] =
        List.range' 1 (r.slots.length + 1) := by
      rw [List.range'_1_concat, Nat.add_comm 1]
    rw [hrange] at hadd
    show (r.links.addtail (r.slots.length + 1) 0).Ring 0 (List.range' 1 (r.slots ++ [_]).length)
    rw [List.length_append, List.length_singleton]
    exact hadd
  · intro v hv
    rcases List.mem_append.mp hv with hv | hv
    · exact h.slots v hv
    · obtain rfl := List.mem_singleton.mp hv
      exact ⟨rfl, rfl, rfl, rfl, rfl⟩

theorem createSlots_started {n : ℕ} (h : Started size r) (hr : createSlots x size n r = some t) :
    Started size t ∧ t.slots.length = r.slots.length + n := by
  induction n generalizing r with
  | zero =>
    obtain rfl : r = t := Option.some.inj hr
    exact ⟨h, rfl⟩
  | succ n ih =>
    unfold createSlots at hr
    split_ifs at hr with hslot
    cases ha : x.alloc size r.slots.length with
    | none => simp [ha] at hr
    | some b =>
      simp only [ha] at hr
      obtain ⟨ht, hlen⟩ := ih (h.addSlot b _) hr
      refine ⟨ht, ?_⟩
      rw [hlen]
      show (r.slots ++ [_]).length + n = _
      rw [List.length_append, List.length_singleton]
      omega

theorem dumpStart_started {path : Option String} {w h count : Int32}
    (hs : DumpRing.tbmSurfaceInternalDumpStart x path w h count = some r) :
    Started (x.bufferSize h) r ∧ r.slots.length = count.toNatClampNeg ∧ 0 < r.slots.length := by
  unfold DumpRing.tbmSurfaceInternalDumpStart at hs
  cases path with
  | none => cases hs
  | some path =>
    simp only at hs
    split_ifs at hs with harg hans
    obtain ⟨hr, hlen⟩ := createSlots_started (started_new _ path) hs
    have hcount : r.slots.length = count.toNatClampNeg := by
      rw [hlen]
      exact Nat.zero_add _
    refine ⟨hr, hcount, ?_⟩
    rw [hcount]
    exact (Int32.toNatClampNeg_pos_iff count).mpr harg.2.2

theorem Started.holding (h : Started size r) (hpos : 0 < r.slots.length) :
    Holding r size [] r where
  pos := hpos
  ring := h.ring
  len := rfl
  size := fun b hb => (h.slots b hb).1
  link := h.link
  count := h.count
  slot := fun _ _ hb => hb

end Start

section Runs

/-- After the calls every buffer keeps the last dump that was accepted in its turn, or none if there
is none, and no other call has changed anything. -/
def DumpRing.KeepsLatest (size : Int32) (cs : List DumpCall) (r : DumpRing) : Prop :=
  ∃ log t, run DumpRing.step cs r = some (log, t) ∧
    (∀ i < r.slots.length, ∃ b, t.slots[i]? = some b ∧
      match lastAt r.slots.length i (accepted size cs []) with
      | some a => b.Keeps a
      | none => b.Unused) ∧
    ∀ e ∈ log, e.call.accepted size = false → e.after = e.before

/-- A dump is in its buffer until the next one that goes there. -/
theorem DumpRing.KeepsLatest.dump {size : Int32} {cs : List DumpCall} {r : DumpRing}
    (h : r.KeepsLatest size cs) (hpos : 0 < r.slots.length) {n : ℕ} {a : DumpImage}
    (hn : (accepted size cs [])[n]? = some a)
    (hlast : ∀ m, n < m → m < (accepted size cs []).length →
      m % r.slots.length ≠ n % r.slots.length) :
    ∃ log t b, run DumpRing.step cs r = some (log, t) ∧ t.slots[n % r.slots.length]? = some b ∧
      b.Keeps a := by
  obtain ⟨log, t, hrun, hslots, -⟩ := h
  obtain ⟨b, hb, hkeeps⟩ := hslots (n % r.slots.length) (Nat.mod_lt n hpos)
  rw [lastAt_eq_some.mpr ⟨n, hn, rfl, hlast⟩] at hkeeps
  exact ⟨log, t, b, hrun, hb, hkeeps⟩

/-- A buffer that no dump has reached yet is unused. -/
theorem DumpRing.KeepsLatest.unused {size : Int32} {cs : List DumpCall} {r : DumpRing}
    (h : r.KeepsLatest size cs) {i : ℕ} (hi : i < r.slots.length)
    (hnone : ∀ n < (accepted size cs []).length, n % r.slots.length ≠ i) :
    ∃ log t b, run DumpRing.step cs r = some (log, t) ∧ t.slots[i]? = some b ∧ b.Unused := by
  obtain ⟨log, t, hrun, hslots, -⟩ := h
  obtain ⟨b, hb, hunused⟩ := hslots i hi
  rw [lastAt_eq_none.mpr hnone] at hunused
  exact ⟨log, t, b, hrun, hb, hunused⟩

private theorem run_holding {r0 : DumpRing} {size : Int32} (cs : List DumpCall) {r : DumpRing}
    {l : List DumpImage} (h : Holding r0 size l r) (hcs : ∀ c ∈ cs, c.clean size = true) :
    ∃ log t, run DumpRing.step cs r = some (log, t) ∧ Holding r0 size (accepted size cs l) t ∧
      ∀ e ∈ log, e.call.accepted size = false → e.after = e.before := by
  induction cs generalizing r l with
  | nil => exact ⟨[], r, rfl, h, fun e he => absurd he List.not_mem_nil⟩
  | cons c cs ih =>
    obtain ⟨hc, hcs⟩ := List.forall_mem_cons.mp hcs
    obtain ⟨r', hs, h', hkeep⟩ := h.step hc
    obtain ⟨log, t, hr, ht, hlog⟩ := ih h' hcs
    refine ⟨⟨r, c, c.accepted size, r'⟩ :: log, t, by simp [run, hs, hr], ht, ?_⟩
    exact List.forall_mem_cons.mpr ⟨hkeep, hlog⟩

/-- The buffers of a dump keep the latest dumps if no call is turned down after the size test and no
copy leaves its block. -/
theorem dump_ring_keeps_latest {x : StartAnswers} {path : Option String} {w h count : Int32}
    {r : DumpRing} (hs : DumpRing.tbmSurfaceInternalDumpStart x path w h count = some r)
    {cs : List DumpCall} (hcs : ∀ c ∈ cs, c.clean (x.bufferSize h) = true) :
    r.slots.length = count.toNatClampNeg ∧ r.KeepsLatest (x.bufferSize h) cs := by
  obtain ⟨hr, hlen, hpos⟩ := dumpStart_started hs
  obtain ⟨log, t, hrun, ht, hlog⟩ := run_holding cs (hr.holding hpos) hcs
  refine ⟨hlen, log, t, hrun, fun i hi => ?_, hlog⟩
  have hit : i < t.slots.length := by
    rw [ht.len]
    exact hi
  refine ⟨t.slots[i], List.getElem?_eq_getElem hit, ?_⟩
  have hslot := ht.slot i _ (List.getElem?_eq_getElem hit)
  cases hlast : lastAt r.slots.length i (accepted (x.bufferSize h) cs []) with
  | some a =>
    rw [hlast] at hslot
    exact hslot
  | none =>
    rw [hlast] at hslot
    exact (hr.slots _ (List.mem_of_getElem? hslot)).2

private def supplies : StartAnswers where
  calloc := true
  surface := true
  map := some { SurfaceInfo.zero with planes := fun _ => ⟨4, 0, 4⟩ }
  slot := fun _ => true
  bo := fun i => some i
  bytes := fun _ _ => 7

private def pixel (format : Format) (size : UInt32) (bytes : List UInt8) : DumpCall :=
  .buffer (some 0) (some "a")
    (some ⟨{ SurfaceInfo.zero with
      height := 1, format := format, size := size, planes := fun _ => ⟨4, 0, 4⟩ },
      fun _ => bytes⟩) true 0

/-- Three dumps into two buffers, and one that is too large. -/
private def threeDumps : List DumpCall :=
  [pixel .argb8888 4 [1, 2, 3, 4], pixel .argb8888 8 [5, 6, 7, 8],
    .shmBuffer (some [9, 9, 9, 9]) 1 1 4 (some "b") true 0, pixel .yuyv 4 [5, 6, 7, 8]]

theorem dump_ring_keeps_latest_three :
    ∃ r, DumpRing.tbmSurfaceInternalDumpStart supplies (some "d") 1 1 2 = some r ∧
      r.slots.length = 2 ∧ r.KeepsLatest 4 threeDumps := by
  obtain ⟨r, hr⟩ : ∃ r, DumpRing.tbmSurfaceInternalDumpStart supplies (some "d") 1 1 2 = some r :=
    ⟨_, rfl⟩
  have hcs : ∀ c ∈ threeDumps, c.clean (supplies.bufferSize 1) = true := by decide +kernel
  obtain ⟨hlen, hkeeps⟩ := dump_ring_keeps_latest hr hcs
  exact ⟨r, hr, hlen, hkeeps⟩

/-- A surface of a format that is not dumped leaves zeros over the dump before it. -/
theorem dump_ring_overwritten :
    ¬∀ (x : StartAnswers) (path : Option String) (w h count : Int32) (r : DumpRing)
      (cs : List DumpCall), DumpRing.tbmSurfaceInternalDumpStart x path w h count = some r →
        r.KeepsLatest (x.bufferSize h) cs := by
  intro hall
  let cs := [pixel .argb8888 4 [1, 2, 3, 4], pixel .rgb565 2 [5, 6]]
  have hrun : ((DumpRing.tbmSurfaceInternalDumpStart supplies (some "d") 1 1 1).bind fun r =>
      (run DumpRing.step cs r).map fun p => (r.slots.length, p.2.slots.map (·.contents))) =
        some (1, [[0, 0, 0, 0]]) := by decide +kernel
  have hlast : (lastAt 1 0 (accepted 4 cs [])).map (·.contents) = some [1, 2, 3, 4] := by
    decide +kernel
  obtain ⟨r, hs, hrun⟩ := Option.bind_eq_some_iff.mp hrun
  obtain ⟨⟨log, t⟩, hr, ht⟩ := Option.map_eq_some_iff.mp hrun
  obtain ⟨hlen, hslots⟩ := Prod.mk.inj ht
  obtain ⟨log', t', hr', hkept, -⟩ := hall _ _ _ _ _ _ cs hs
  obtain ⟨-, rfl⟩ : log = log' ∧ t = t' := by simpa [hr] using hr'
  obtain ⟨b, hb, hkeeps⟩ := hkept 0 (by omega)
  have hzero : b.contents = [0, 0, 0, 0] := by
    have hget := congrArg (·[0]?) hslots
    simpa [hb] using hget
  rw [hlen] at hkeeps
  obtain ⟨a, ha, hcontents⟩ := Option.map_eq_some_iff.mp hlast
  have hbuf : supplies.bufferSize 1 = 4 := rfl
  rw [hbuf, ha] at hkeeps
  have hsame := hkeeps.contents
  rw [hzero, hcontents] at hsame
  exact absurd hsame (by decide)

end Runs

end Tbm.Bufmgr
