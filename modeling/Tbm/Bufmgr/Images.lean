import Tbm.Bufmgr.Ring

/-! The files that are written of a dump and of a capture. A read that leaves the memory there is
behind a pointer is undefined. -/
namespace Tbm.Bufmgr

open Copies

/-- What a file is made of: bytes, or rows of pixels. -/
inductive Image
  | raw (bytes : List UInt8)
  | png (width height : Int32) (rows : List (List UInt32))
  deriving DecidableEq, Repr

/-- What is written when a dump ends. -/
structure DumpFile where
  path : String
  name : Option DumpName
  image : Image
  deriving DecidableEq, Repr

section Writers

def fwrite (data : List UInt8) (size : Int32) : Option (List UInt8) :=
  if sizeT size ≤ data.length then some (data.take (sizeT size)) else none

def fwriteIf (data : List UInt8) (size : Int32) : Option (List UInt8) :=
  if 0 < size then fwrite data size else some []

def tbmSurfaceInternalDumpFileRaw (data1 : List UInt8) (size1 : Int32) (data2 : List UInt8)
    (size2 : Int32) (data3 : List UInt8) (size3 : Int32) : Option Image := do
  let bytes1 ← fwrite data1 size1
  let bytes2 ← fwriteIf data2 size2
  let bytes3 ← fwriteIf data3 size3
  some (.raw (bytes1 ++ bytes2 ++ bytes3))

/-- `blocks[k]`, the low byte first. -/
def blocks (data : List UInt8) (k : Int32) : Option UInt32 :=
  if 0 ≤ k then
    match (data.drop (4 * k.toNatClampNeg)).take 4 with
    | [a, b, c, d] =>
      some (a.toUInt32 ||| b.toUInt32 <<< 8 ||| c.toUInt32 <<< 16 ||| d.toUInt32 <<< 24)
    | _ => none
  else none

/-- The loop over the pixels of row `y`. -/
def pngRow (data : List UInt8) (width : Int32) (y : ℕ) : Option (List UInt32) :=
  (List.range width.toNatClampNeg).mapM fun x => blocks data (.ofNat y * width + .ofNat x)

def tbmSurfaceInternalDumpFilePng (data : List UInt8) (width height : Int32) : Option Image := do
  let rows ← (List.range height.toNatClampNeg).mapM (pngRow data width)
  some (.png width height rows)

end Writers

section Dumped

variable (b : DumpSlot)

/-- What `dump_end` makes of a buffer that a surface was dumped to. -/
def DumpSlot.surfaceImage : Option (Option Image) :=
  match b.info.format with
  | .argb8888 | .xrgb8888 =>
    (tbmSurfaceInternalDumpFilePng b.contents ((b.info.planes 0).stride >>> 2).toInt32
      b.info.height.toInt32).map some
  | .yvu420 | .yuv420 =>
    (tbmSurfaceInternalDumpFileRaw b.contents (b.info.planeBytes 0).toInt32
      (b.contents.drop (b.info.planeBytes 0).toNat) (b.info.chromaBytes 1).toInt32
      ((b.contents.drop (b.info.planeBytes 0).toNat).drop (b.info.chromaBytes 1).toNat)
      (b.info.chromaBytes 2).toInt32).map some
  | .nv12 | .nv21 =>
    (tbmSurfaceInternalDumpFileRaw b.contents (b.info.planeBytes 0).toInt32
      (b.contents.drop (b.info.planeBytes 0).toNat) (b.info.chromaBytes 1).toInt32 [] 0).map some
  | .yuyv | .uyvy =>
    (tbmSurfaceInternalDumpFileRaw b.contents (b.info.planeBytes 0).toInt32 [] 0 [] 0).map some
  | _ => some none

def DumpSlot.image : Option (Option Image) :=
  if b.dirty then b.surfaceImage
  else if b.dirtyShm then
    (tbmSurfaceInternalDumpFilePng b.contents (b.shmStride >>> 2) b.shmH).map some
  else some none

/-- The files, by the buffers. `boMap` tells which of them can be mapped. -/
def DumpRing.tbmSurfaceInternalDumpEnd (r : DumpRing) (boMap : ℕ → Bool) :
    List (Option (Option DumpFile)) :=
  r.slots.mapIdx fun i b =>
    if boMap i then b.image.map fun o => o.map fun w => ⟨r.path, b.name, w⟩ else some none

end Dumped

section Captured

/-- What `capture_buffer` writes of a surface. -/
def MappedSurface.image (m : MappedSurface) : Option (Option Image) :=
  match m.info.format with
  | .argb8888 | .xrgb8888 =>
    (tbmSurfaceInternalDumpFilePng (m.ptr 0) ((m.info.planes 0).stride >>> 2).toInt32
      m.info.height.toInt32).map some
  | .yvu420 | .yuv420 =>
    (tbmSurfaceInternalDumpFileRaw (m.ptr 0) (m.info.planeBytes 0).toInt32
      (m.ptr 1) (m.info.chromaBytes 1).toInt32
      (m.ptr 2) (m.info.chromaBytes 2).toInt32).map some
  | .nv12 | .nv21 =>
    (tbmSurfaceInternalDumpFileRaw (m.ptr 0) (m.info.planeBytes 0).toInt32
      (m.ptr 1) (m.info.chromaBytes 1).toInt32 [] 0).map some
  | .yuyv | .uyvy =>
    (tbmSurfaceInternalDumpFileRaw (m.ptr 0) (m.info.planeBytes 0).toInt32 [] 0 [] 0).map some
  | _ => some none

namespace Capture

/-- `map` is what the map of the surface gives, and `present` tells whether there is a file of that
name. Nothing is written but by a call that returns `1`. -/
def tbmSurfaceInternalCaptureBuffer (surface : Option Surface) (path name : Option String)
    (type : String) (map : Option MappedSurface) (present : Bool) : Option (Option Image) :=
  if surface.isSome ∧ path.isSome ∧ name.isSome then
    match map with
    | none => some none
    | some m =>
      if m.info.format.dumpPostfix ≠ type then some none
      else if present then some none
      else m.image
  else some none

/-- `present` is the answer for the name that is in `file` before it is written. -/
def tbmSurfaceInternalCaptureShmBuffer (ptr : Option (List UInt8)) (w h stride : Int32)
    (path name : Option String) (type : String) (present : Bool) : Option (Option Image) :=
  match ptr with
  | none => some none
  | some ptr =>
    if 0 < w ∧ 0 < h ∧ 0 < stride ∧ path.isSome ∧ name.isSome then
      if "png" ≠ type then some none
      else if present then some none
      else (tbmSurfaceInternalDumpFilePng ptr stride h).map some
    else some none

end Capture

end Captured

section Reads

variable {data data' : List UInt8}

theorem toInt_of_lt {n : UInt32} (h : n.toNat < 2 ^ 31) : n.toInt32.toInt = n.toNat := by
  have hbits : n.toBitVec.toInt = n.toBitVec.toNat := BitVec.toInt_eq_toNat_of_lt (by
    show 2 * n.toNat < 2 ^ 32
    omega)
  exact hbits

theorem toNatClampNeg_le (n : UInt32) : n.toInt32.toNatClampNeg ≤ n.toNat := by
  have hint := n.toBitVec.toInt_eq_toNat_cond
  show n.toBitVec.toInt.toNat ≤ n.toBitVec.toNat
  split at hint
  · omega
  · omega

theorem fwrite_of_lt {n : UInt32} (h : n.toNat < 2 ^ 31) (hd : n.toNat ≤ data.length) :
    fwrite data n.toInt32 = some (data.take n.toNat) := by
  have hsize : sizeT n.toInt32 = n.toNat := by
    unfold sizeT
    rw [toInt_of_lt h]
    omega
  unfold fwrite
  rw [hsize, if_pos hd]

theorem fwriteIf_of_lt {n : UInt32} (h : n.toNat < 2 ^ 31) (hd : n.toNat ≤ data.length) :
    fwriteIf data n.toInt32 = some (data.take n.toNat) := by
  unfold fwriteIf
  split_ifs with hpos
  · exact fwrite_of_lt h hd
  · rw [Int32.lt_iff_toInt_lt, toInt_of_lt h] at hpos
    have hzero : n.toNat = 0 := by
      simp only [Int32.reduceToInt, Int.natCast_pos, not_lt, nonpos_iff_eq_zero] at hpos
      omega
    rw [hzero, List.take_zero]

theorem fwrite_joined {n : UInt32} (h : n.toNat < 2 ^ 31) (hd : n.toNat ≤ data.length)
    (cs : List (List UInt8 × ℕ)) (z : List UInt8) :
    fwrite (joined ((data, n.toNat) :: cs) ++ z) n.toInt32 = some (data.take n.toNat) ∧
      fwriteIf (joined ((data, n.toNat) :: cs) ++ z) n.toInt32 = some (data.take n.toNat) := by
  have hlen : n.toNat ≤ (joined ((data, n.toNat) :: cs) ++ z).length := by
    rw [joined_cons, List.length_append, List.length_append, List.length_take]
    omega
  constructor
  · rw [fwrite_of_lt h hlen, take_joined hd]
  · rw [fwriteIf_of_lt h hlen, take_joined hd]

theorem blocks_congr {k : Int32}
    (h : (data.drop (4 * k.toNatClampNeg)).take 4 = (data'.drop (4 * k.toNatClampNeg)).take 4) :
    blocks data k = blocks data' k := by
  unfold blocks
  rw [h]

theorem blocks_isSome {k : Int32} :
    (blocks data k).isSome ↔ 0 ≤ k ∧ 4 * k.toNatClampNeg + 4 ≤ data.length := by
  unfold blocks
  by_cases hk : 0 ≤ k
  · rw [if_pos hk]
    have hlen : ((data.drop (4 * k.toNatClampNeg)).take 4).length =
        min 4 (data.length - 4 * k.toNatClampNeg) := by
      rw [List.length_take, List.length_drop]
    constructor
    · intro h
      split at h
      · next hfour =>
        rw [hfour] at hlen
        simp only [List.length_cons, List.length_nil] at hlen
        exact ⟨hk, by omega⟩
      · cases h
    · rintro ⟨-, hfit⟩
      have hfour : ((data.drop (4 * k.toNatClampNeg)).take 4).length = 4 := by omega
      obtain ⟨a, b, c, d, hl⟩ := List.length_eq_four.mp hfour
      rw [hl]
      rfl
  · rw [if_neg hk]
    constructor
    · intro h
      cases h
    · intro h
      exact absurd h.1 hk

theorem index_eq {width : Int32} (hw : 0 ≤ width) (x y : ℕ) :
    Int32.ofNat y * width + Int32.ofNat x = Int32.ofNat (y * width.toNatClampNeg + x) := by
  rw [Int32.ofNat_add, Int32.ofNat_mul, Int32.ofNat_toNatClampNeg width hw]

theorem index_lt {w h x y : ℕ} (hx : x < w) (hy : y < h) : y * w + x < h * w :=
  calc y * w + x < y * w + w := Nat.add_lt_add_left hx _
    _ = (y + 1) * w := (Nat.succ_mul y w).symm
    _ ≤ h * w := Nat.mul_le_mul_right w hy

/-- The picture in the first `n` bytes does not depend on what is behind them. -/
theorem dumpFilePng_take {width : Int32} (height : Int32) {n : ℕ} (hw : 0 ≤ width)
    (hn : n ≤ data.length) (hlt : n < 2 ^ 31)
    (hfit : 4 * (height.toNatClampNeg * width.toNatClampNeg) ≤ n)
    (z : List UInt8) : ∃ w, tbmSurfaceInternalDumpFilePng data width height = some w ∧
      tbmSurfaceInternalDumpFilePng (data.take n ++ z) width height = some w := by
  have hindex : ∀ y ∈ List.range height.toNatClampNeg, ∀ x ∈ List.range width.toNatClampNeg,
      (blocks data (.ofNat y * width + .ofNat x)).isSome ∧
        blocks data (.ofNat y * width + .ofNat x) =
          blocks (data.take n ++ z) (.ofNat y * width + .ofNat x) := by
    intro y hy x hx
    have hk := index_lt (List.mem_range.mp hx) (List.mem_range.mp hy)
    have hval : (Int32.ofNat (y * width.toNatClampNeg + x)).toNatClampNeg =
        y * width.toNatClampNeg + x := Int32.toNatClampNeg_ofNat_of_lt (by omega)
    rw [index_eq hw]
    constructor
    · rw [blocks_isSome, hval]
      refine ⟨?_, by omega⟩
      rw [Int32.le_iff_toInt_le, Int32.toInt_ofNat_of_lt (by omega)]
      exact Int.natCast_nonneg _
    · apply blocks_congr
      rw [hval, List.drop_append_of_le_length (by rw [List.length_take]; omega), List.drop_take,
        List.take_append_of_le_length (by simp only [List.length_take, List.length_drop]; omega),
        List.take_take, Nat.min_eq_left (by omega)]
  have hrow : ∀ y ∈ List.range height.toNatClampNeg, (pngRow data width y).isSome ∧
      pngRow data width y = pngRow (data.take n ++ z) width y := by
    intro y hy
    constructor
    · exact mapM_isSome fun x hx => (hindex y hy x hx).1
    · exact mapM_congr fun x hx => (hindex y hy x hx).2
  obtain ⟨rows, hrows⟩ := Option.isSome_iff_exists.mp (mapM_isSome fun y hy => (hrow y hy).1)
  have hsame := mapM_congr fun y hy => (hrow y hy).2
  refine ⟨.png width height rows, ?_, ?_⟩
  · unfold tbmSurfaceInternalDumpFilePng
    rw [hrows]
    rfl
  · unfold tbmSurfaceInternalDumpFilePng
    rw [← hsame, hrows]
    rfl

end Reads

section Agreement

variable {m : MappedSurface} {b : DumpSlot} {r r' : DumpRing}

/-- The rows of a surface of pixels are part of its size. -/
def SurfaceInfo.spans (info : SurfaceInfo) : Prop :=
  info.format = .argb8888 ∨ info.format = .xrgb8888 →
    (info.planes 0).stride.toNat * info.height.toNat ≤ info.size.toNat

theorem pixels_agree {data : List UInt8} {info : SurfaceInfo} {cs : List (List UInt8 × ℕ)}
    (hcs : cs = [(data, info.size.toNat)]) (hs : Sourced cs) (ht : total cs < 2 ^ 31)
    (hspan : (info.planes 0).stride.toNat * info.height.toNat ≤ info.size.toNat) (z : List UInt8) :
    ∃ w, tbmSurfaceInternalDumpFilePng data ((info.planes 0).stride >>> 2).toInt32
        info.height.toInt32 = some w ∧
      tbmSurfaceInternalDumpFilePng (joined cs ++ z) ((info.planes 0).stride >>> 2).toInt32
        info.height.toInt32 = some w := by
  subst hcs
  have hsize : info.size.toNat ≤ data.length := hs _ (List.mem_singleton_self _)
  rw [total_cons] at ht
  rw [joined_cons, List.append_assoc]
  have hwidth : ((info.planes 0).stride >>> 2).toNat = (info.planes 0).stride.toNat / 4 := by
    rw [UInt32.toNat_shiftRight]
    exact Nat.shiftRight_eq_div_pow _ 2
  have hstride := (info.planes 0).stride.toNat_lt
  have hw : ((info.planes 0).stride >>> 2).toInt32.toInt =
      ((info.planes 0).stride.toNat / 4 : ℕ) := by
    rw [toInt_of_lt (by omega), hwidth]
  have hclamp : ((info.planes 0).stride >>> 2).toInt32.toNatClampNeg =
      (info.planes 0).stride.toNat / 4 := by
    rw [← Int32.toNat_toInt, hw, Int.toNat_natCast]
  have hheight := toNatClampNeg_le info.height
  refine dumpFilePng_take _ ?_ hsize (by omega) ?_ (joined [] ++ z)
  · rw [Int32.le_iff_toInt_le, hw]
    exact Int.natCast_nonneg _
  · rw [hclamp]
    calc 4 * (info.height.toInt32.toNatClampNeg * ((info.planes 0).stride.toNat / 4))
        ≤ 4 * (info.height.toNat * ((info.planes 0).stride.toNat / 4)) :=
          Nat.mul_le_mul_left 4 (Nat.mul_le_mul_right _ hheight)
      _ = info.height.toNat * (4 * ((info.planes 0).stride.toNat / 4)) := by
          rw [Nat.mul_left_comm]
      _ ≤ info.height.toNat * (info.planes 0).stride.toNat :=
          Nat.mul_le_mul_left _ (Nat.mul_div_le _ 4)
      _ = (info.planes 0).stride.toNat * info.height.toNat := Nat.mul_comm _ _
      _ ≤ info.size.toNat := hspan

theorem planes_agree {l0 l1 l2 : List UInt8} {n0 n1 n2 : UInt32} {cs : List (List UInt8 × ℕ)}
    (hcs : cs = [(l0, n0.toNat), (l1, n1.toNat), (l2, n2.toNat)]) (hs : Sourced cs)
    (ht : total cs < 2 ^ 31) (z : List UInt8) :
    ∃ w, tbmSurfaceInternalDumpFileRaw l0 n0.toInt32 l1 n1.toInt32 l2 n2.toInt32 = some w ∧
      tbmSurfaceInternalDumpFileRaw (joined cs ++ z) n0.toInt32
        ((joined cs ++ z).drop n0.toNat) n1.toInt32
        (((joined cs ++ z).drop n0.toNat).drop n1.toNat) n2.toInt32 = some w := by
  subst hcs
  simp only [total_cons] at ht
  simp only [Sourced, List.forall_mem_cons] at hs
  obtain ⟨h0, h1, h2, -⟩ := hs
  refine ⟨.raw (l0.take n0.toNat ++ l1.take n1.toNat ++ l2.take n2.toNat), ?_, ?_⟩
  · unfold tbmSurfaceInternalDumpFileRaw
    rw [fwrite_of_lt (by omega) h0, fwriteIf_of_lt (by omega) h1, fwriteIf_of_lt (by omega) h2]
    rfl
  · unfold tbmSurfaceInternalDumpFileRaw
    rw [drop_joined h0, drop_joined h1, (fwrite_joined (by omega) h0 _ z).1,
      (fwrite_joined (by omega) h1 _ z).2, (fwrite_joined (by omega) h2 _ z).2]
    rfl

theorem pair_agree {l0 l1 : List UInt8} {n0 n1 : UInt32} {cs : List (List UInt8 × ℕ)}
    (hcs : cs = [(l0, n0.toNat), (l1, n1.toNat)]) (hs : Sourced cs) (ht : total cs < 2 ^ 31)
    (z : List UInt8) :
    ∃ w, tbmSurfaceInternalDumpFileRaw l0 n0.toInt32 l1 n1.toInt32 [] 0 = some w ∧
      tbmSurfaceInternalDumpFileRaw (joined cs ++ z) n0.toInt32
        ((joined cs ++ z).drop n0.toNat) n1.toInt32 [] 0 = some w := by
  subst hcs
  simp only [total_cons] at ht
  simp only [Sourced, List.forall_mem_cons] at hs
  obtain ⟨h0, h1, -⟩ := hs
  refine ⟨.raw (l0.take n0.toNat ++ l1.take n1.toNat ++ []), ?_, ?_⟩
  · unfold tbmSurfaceInternalDumpFileRaw
    rw [fwrite_of_lt (by omega) h0, fwriteIf_of_lt (by omega) h1]
    rfl
  · unfold tbmSurfaceInternalDumpFileRaw
    rw [drop_joined h0, (fwrite_joined (by omega) h0 _ z).1, (fwrite_joined (by omega) h1 _ z).2]
    rfl

theorem plane_agree {l0 : List UInt8} {n0 : UInt32} {cs : List (List UInt8 × ℕ)}
    (hcs : cs = [(l0, n0.toNat)]) (hs : Sourced cs) (ht : total cs < 2 ^ 31) (z : List UInt8) :
    ∃ w, tbmSurfaceInternalDumpFileRaw l0 n0.toInt32 [] 0 [] 0 = some w ∧
      tbmSurfaceInternalDumpFileRaw (joined cs ++ z) n0.toInt32 [] 0 [] 0 = some w := by
  subst hcs
  rw [total_cons] at ht
  have h0 : n0.toNat ≤ l0.length := hs _ (List.mem_singleton_self _)
  refine ⟨.raw (l0.take n0.toNat ++ [] ++ []), ?_, ?_⟩
  · unfold tbmSurfaceInternalDumpFileRaw
    rw [fwrite_of_lt (by omega) h0]
    rfl
  · unfold tbmSurfaceInternalDumpFileRaw
    rw [(fwrite_joined (by omega) h0 _ z).1]
    rfl

theorem Format.copied_cases {f : Format} (h : f.copied = true) :
    (f = .argb8888 ∨ f = .xrgb8888) ∨ (f = .yvu420 ∨ f = .yuv420) ∨ (f = .nv12 ∨ f = .nv21) ∨
      f = .yuyv ∨ f = .uyvy := by
  cases f <;> simp_all [Format.copied]

theorem surfaceImage_eq {size : Int32} (hi : b.info = m.info)
    (hc : b.contents = padded size (joined m.copies)) (hf : m.info.format.copied = true)
    (hs : Sourced m.copies) (ht : total m.copies ≤ size.toNatClampNeg) (hspan : m.info.spans) :
    ∃ w, b.surfaceImage = some (some w) ∧ m.image = some (some w) := by
  have hlt : total m.copies < 2 ^ 31 := Nat.lt_of_le_of_lt ht size.toNatClampNeg_lt
  obtain ⟨z, hz⟩ : ∃ z, b.contents = joined m.copies ++ z := ⟨_, hc.trans (padded_joined hs)⟩
  unfold DumpSlot.surfaceImage MappedSurface.image
  rw [hi, hz]
  rcases Format.copied_cases hf with hrgb | hyuv | hnv | hyuyv
  · have hcs : m.copies = [(m.ptr 0, m.info.size.toNat)] := by
      unfold MappedSurface.copies
      rcases hrgb with hfm | hfm <;> rw [hfm]
    obtain ⟨w, hw, hw'⟩ := pixels_agree hcs hs hlt (hspan hrgb) z
    refine ⟨w, ?_, ?_⟩
    · rcases hrgb with hfm | hfm <;> rw [hfm] <;> exact congrArg (Option.map some) hw'
    · rcases hrgb with hfm | hfm <;> rw [hfm] <;> exact congrArg (Option.map some) hw
  · have hcs : m.copies = [(m.ptr 0, (m.info.planeBytes 0).toNat),
        (m.ptr 1, (m.info.chromaBytes 1).toNat), (m.ptr 2, (m.info.chromaBytes 2).toNat)] := by
      unfold MappedSurface.copies
      rcases hyuv with hfm | hfm <;> rw [hfm]
    obtain ⟨w, hw, hw'⟩ := planes_agree hcs hs hlt z
    refine ⟨w, ?_, ?_⟩
    · rcases hyuv with hfm | hfm <;> rw [hfm] <;> exact congrArg (Option.map some) hw'
    · rcases hyuv with hfm | hfm <;> rw [hfm] <;> exact congrArg (Option.map some) hw
  · have hcs : m.copies = [(m.ptr 0, (m.info.planeBytes 0).toNat),
        (m.ptr 1, (m.info.chromaBytes 1).toNat)] := by
      unfold MappedSurface.copies
      rcases hnv with hfm | hfm <;> rw [hfm]
    obtain ⟨w, hw, hw'⟩ := pair_agree hcs hs hlt z
    refine ⟨w, ?_, ?_⟩
    · rcases hnv with hfm | hfm <;> rw [hfm] <;> exact congrArg (Option.map some) hw'
    · rcases hnv with hfm | hfm <;> rw [hfm] <;> exact congrArg (Option.map some) hw
  · have hcs : m.copies = [(m.ptr 0, (m.info.planeBytes 0).toNat)] := by
      unfold MappedSurface.copies
      rcases hyuyv with hfm | hfm <;> rw [hfm]
    obtain ⟨w, hw, hw'⟩ := plane_agree hcs hs hlt z
    refine ⟨w, ?_, ?_⟩
    · rcases hyuyv with hfm | hfm <;> rw [hfm] <;> exact congrArg (Option.map some) hw'
    · rcases hyuyv with hfm | hfm <;> rw [hfm] <;> exact congrArg (Option.map some) hw

/-- What `dump_end` makes of the buffer that has just been dumped to. -/
theorem dumpEnd_accept (hb : r.entry r.nextLink = some b) {boMap : ℕ → Bool}
    (hmap : boMap (r.nextLink - 1) = true) (v : DumpSlot) {w : Image}
    (hv : v.image = some (some w)) :
    ((r.accept v).tbmSurfaceInternalDumpEnd boMap)[r.nextLink - 1]? =
      some (some (some ⟨r.path, v.name, w⟩)) := by
  have hlt : r.nextLink - 1 < r.slots.length := by
    unfold DumpRing.entry at hb
    cases hn : r.nextLink with
    | zero => simp [hn] at hb
    | succ i =>
      rw [hn] at hb
      exact (List.getElem?_eq_some_iff.mp hb).1
  have hslot : (r.accept v).slots[r.nextLink - 1]? = some v := List.getElem?_set_self hlt
  unfold DumpRing.tbmSurfaceInternalDumpEnd
  rw [List.getElem?_mapIdx, hslot, Option.map_some, if_pos hmap, hv]
  rfl

/-- The dump of a surface and its capture write the same. -/
theorem dump_and_capture_agree (hb : r.entry r.nextLink = some b) (hf : m.info.format.copied = true)
    (hsize : m.info.size ≤ b.size.toUInt32) (hs : Sourced m.copies)
    (ht : total m.copies ≤ b.size.toNatClampNeg) (hspan : m.info.spans) (s : Surface)
    (type path name : String) (time : ℕ) {boMap : ℕ → Bool}
    (hmap : boMap (r.nextLink - 1) = true) :
    ∃ r' w, r.tbmSurfaceInternalDumpBuffer (some s) (some type) (some m) true time =
        some (true, r') ∧
      (r'.tbmSurfaceInternalDumpEnd boMap)[r.nextLink - 1]? =
        some (some (some ⟨r.path, some (m.name time r.count s type), w⟩)) ∧
      Capture.tbmSurfaceInternalCaptureBuffer (some s) (some path) (some name)
        m.info.format.dumpPostfix (some m) false = some (some w) := by
  have hcopy : gather b.zeros 0 m.copies = some (padded b.size (joined m.copies)) :=
    gather_replicate.mpr ⟨hs, ht, padded_joined hs⟩
  let v : DumpSlot :=
    { b with
      info := m.info
      name := some (m.name time r.count s type)
      contents := padded b.size (joined m.copies)
      dirty := true
      dirtyShm := false }
  obtain ⟨w, hw, hw'⟩ := surfaceImage_eq (b := v) (m := m) rfl rfl hf hs ht hspan
  refine ⟨r.accept v, w, ?_, dumpEnd_accept hb hmap v ?_, ?_⟩
  · simp only [DumpRing.tbmSurfaceInternalDumpBuffer, hb, Option.bind_eq_bind, Option.bind_some,
      if_neg (UInt32.not_lt.mpr hsize), if_true, if_pos hf, hcopy]
    rfl
  · exact hw
  · unfold Capture.tbmSurfaceInternalCaptureBuffer
    simp only [Option.isSome_some, and_self, if_true, ne_eq, not_true_eq_false, if_false,
      Bool.false_eq_true]
    exact hw'

private def sixteen : DumpRing := (DumpRing.new "d").addSlot (.new 0 16 fun _ => 7)

private def twoRows : MappedSurface where
  info :=
    { SurfaceInfo.zero with
      height := 2, format := .nv12, size := 12, numPlanes := 2, planes := fun _ => ⟨8, 0, 4⟩ }
  ptr := fun i => if i = 0 then [1, 2, 3, 4, 5, 6, 7, 8] else [9, 10, 11, 12]

theorem dump_and_capture_agree_nv12 :
    ∃ r' w, sixteen.tbmSurfaceInternalDumpBuffer (some 0) (some "a") (some twoRows) true 0 =
        some (true, r') ∧
      (r'.tbmSurfaceInternalDumpEnd fun _ => true)[0]? =
        some (some (some ⟨"d", some (twoRows.name 0 0 0 "a"), w⟩)) ∧
      Capture.tbmSurfaceInternalCaptureBuffer (some 0) (some "p") (some "n") "yuv" (some twoRows)
        false = some (some w) :=
  dump_and_capture_agree (r := sixteen) (m := twoRows) rfl rfl (by decide) (by decide) (by decide)
    (fun h => by rcases h with h | h <;> cases h) 0 "a" "p" "n" 0 rfl

end Agreement

section Shm

variable {mem : List UInt8} {stride h : Int32}

/-- A row as wide as the stride has bytes is four times too long. -/
theorem dumpFilePng_overreads (hstride : 0 < stride) (hh : 0 < h)
    (hlen : mem.length = stride.toNatClampNeg * h.toNatClampNeg) :
    tbmSurfaceInternalDumpFilePng mem stride h = none := by
  have hs : 0 < stride.toNatClampNeg := (Int32.toNatClampNeg_pos_iff stride).mpr hstride
  have ht : 0 < h.toNatClampNeg := (Int32.toNatClampNeg_pos_iff h).mpr hh
  have hpos : 0 < mem.length := hlen ▸ Nat.mul_pos hs ht
  -- The first index behind the bytes, or the first one that overflows.
  obtain ⟨k, hk, hlt, hbad⟩ : ∃ k, k < mem.length ∧ k ≤ 2 ^ 31 ∧
      (k = 2 ^ 31 ∨ mem.length < 4 * k + 4) := by
    by_cases hbig : mem.length / 4 < 2 ^ 31
    · exact ⟨mem.length / 4, by omega, by omega, .inr (by omega)⟩
    · exact ⟨2 ^ 31, by omega, Nat.le_refl _, .inl rfl⟩
  have hindex : k / stride.toNatClampNeg * stride.toNatClampNeg + k % stride.toNatClampNeg = k :=
    Nat.div_add_mod' k _
  have hy : k / stride.toNatClampNeg < h.toNatClampNeg := by
    rw [Nat.div_lt_iff_lt_mul hs, Nat.mul_comm]
    omega
  have hread : blocks mem (.ofNat (k / stride.toNatClampNeg) * stride +
      .ofNat (k % stride.toNatClampNeg)) = none := by
    rw [index_eq (Int32.le_of_lt hstride), hindex, Option.eq_none_iff_forall_ne_some]
    intro v hv
    have hsome : (blocks mem (Int32.ofNat k)).isSome := Option.isSome_of_eq_some hv
    obtain ⟨hnonneg, hfit⟩ := blocks_isSome.mp hsome
    rcases hbad with rfl | hbad
    · exact absurd hnonneg (by decide)
    · by_cases hmax : k < 2 ^ 31
      · rw [Int32.toNatClampNeg_ofNat_of_lt hmax] at hfit
        omega
      · obtain rfl : k = 2 ^ 31 := by omega
        exact absurd hnonneg (by decide)
  have hrow : pngRow mem stride (k / stride.toNatClampNeg) = none :=
    mapM_eq_none (List.mem_range.mpr (Nat.mod_lt _ hs)) hread
  unfold tbmSurfaceInternalDumpFilePng
  rw [mapM_eq_none (List.mem_range.mpr hy) hrow]
  rfl

theorem shm_width (hstride : 0 < stride) : (0 : Int32) ≤ stride >>> 2 ∧
    (stride >>> 2 : Int32).toNatClampNeg = stride.toNatClampNeg / 4 ∧
      stride >>> 2 ≠ stride := by
  have hpos : 0 < stride.toInt := Int32.lt_iff_toInt_lt.mp hstride
  have hshift : (stride >>> 2 : Int32).toInt = stride.toInt / 4 := by
    show (stride.toBitVec.sshiftRight 2).toInt = _
    rw [BitVec.toInt_sshiftRight, Int.shiftRight_eq_div_pow]
    rfl
  refine ⟨?_, ?_, ?_⟩
  · rw [Int32.le_iff_toInt_le, hshift]
    exact Int.ediv_nonneg (Int.le_of_lt hpos) (by decide)
  · rw [← Int32.toNat_toInt, ← Int32.toNat_toInt, hshift]
    omega
  · intro heq
    rw [heq] at hshift
    omega

theorem dumpShmBuffer_image {r : DumpRing} {b : DumpSlot} (hb : r.entry r.nextLink = some b)
    {w : Int32} (hw : 0 < w) (hh : 0 < h) (hstride : 0 < stride)
    (hmem : stride.toNatClampNeg * h.toNatClampNeg ≤ mem.length)
    (hfit : stride.toNatClampNeg * h.toNatClampNeg ≤ b.size.toNatClampNeg) (type : String)
    (time : ℕ) {boMap : ℕ → Bool} (hmap : boMap (r.nextLink - 1) = true) :
    ∃ r' v, r.tbmSurfaceInternalDumpShmBuffer (some mem) w h stride (some type) true time =
        some (true, r') ∧
      (r'.tbmSurfaceInternalDumpEnd boMap)[r.nextLink - 1]? =
        some (some (some ⟨r.path, some (.shm time r.count type "png"), v⟩)) ∧
      tbmSurfaceInternalDumpFilePng mem (stride >>> 2) h = some v := by
  obtain ⟨hwidth, hclamp, -⟩ := shm_width hstride
  have hmax := b.size.toNatClampNeg_lt
  have hprod : stride * h = Int32.ofNat (stride.toNatClampNeg * h.toNatClampNeg) := by
    rw [Int32.ofNat_mul, Int32.ofNat_toNatClampNeg _ (Int32.le_of_lt hstride),
      Int32.ofNat_toNatClampNeg _ (Int32.le_of_lt hh)]
  have hsize : (stride * h).toNatClampNeg = stride.toNatClampNeg * h.toNatClampNeg := by
    rw [hprod, Int32.toNatClampNeg_ofNat_of_lt (by omega)]
  have hnonneg : 0 ≤ stride * h := by
    rw [hprod, Int32.le_iff_toInt_le, Int32.toInt_ofNat_of_lt (by omega)]
    exact Int.natCast_nonneg _
  have hle : ¬b.size < stride * h := by
    rw [Int32.not_lt, Int32.le_iff_toInt_le, hprod, Int32.toInt_ofNat_of_lt (by omega)]
    have hpos : 0 < stride.toNatClampNeg * h.toNatClampNeg :=
      Nat.mul_pos ((Int32.toNatClampNeg_pos_iff stride).mpr hstride)
        ((Int32.toNatClampNeg_pos_iff h).mpr hh)
    rw [← Int32.toNat_toInt b.size] at hfit
    omega
  have hcopy : memcpy b.zeros 0 mem (sizeT (stride * h)) =
      some (mem.take (stride * h).toNatClampNeg ++
        List.replicate (b.size.toNatClampNeg - (stride * h).toNatClampNeg) 0) := by
    unfold DumpSlot.zeros
    rw [sizeT_of_nonneg hnonneg, memcpy_eq_some, List.length_replicate, Nat.zero_add,
      List.take_zero, List.nil_append, List.drop_replicate, hsize]
    exact ⟨hmem, hfit, rfl⟩
  have hpixels : 4 * (h.toNatClampNeg * (stride >>> 2 : Int32).toNatClampNeg) ≤
      (stride * h).toNatClampNeg := by
    rw [hclamp, hsize, Nat.mul_left_comm, Nat.mul_comm stride.toNatClampNeg]
    exact Nat.mul_le_mul_left _ (Nat.mul_div_le _ 4)
  obtain ⟨v, hv, hv'⟩ := dumpFilePng_take h hwidth (hsize ▸ hmem) (by omega) hpixels
    (List.replicate (b.size.toNatClampNeg - (stride * h).toNatClampNeg) 0)
  let kept : DumpSlot :=
    { b with
      info := .zero
      name := some (.shm time r.count type "png")
      contents := mem.take (stride * h).toNatClampNeg ++
        List.replicate (b.size.toNatClampNeg - (stride * h).toNatClampNeg) 0
      dirty := false
      dirtyShm := true
      shmStride := stride
      shmH := h }
  have himage : kept.image = some (some v) := congrArg (Option.map some) hv'
  refine ⟨r.accept kept, v, ?_, dumpEnd_accept hb hmap kept himage, hv⟩
  simp only [DumpRing.tbmSurfaceInternalDumpShmBuffer, hb, Option.bind_eq_bind, Option.bind_some,
    if_pos (And.intro hw (And.intro hh hstride)), if_neg hle, if_true, hcopy]
  rfl

/-- The capture of shared memory leaves the memory for every stride and every height, and with more
memory behind it the picture is not that of the dump. -/
theorem capture_shm_never_agrees {w : Int32} (hw : 0 < w) (hh : 0 < h) (hstride : 0 < stride)
    (hmem : stride.toNatClampNeg * h.toNatClampNeg ≤ mem.length) (path name : String) :
    Capture.tbmSurfaceInternalCaptureShmBuffer
        (some (mem.take (stride.toNatClampNeg * h.toNatClampNeg))) w h stride (some path)
        (some name) "png" false = none ∧
      ∀ (r : DumpRing) (b : DumpSlot) (type : String) (time : ℕ) (boMap : ℕ → Bool),
        r.entry r.nextLink = some b →
        stride.toNatClampNeg * h.toNatClampNeg ≤ b.size.toNatClampNeg →
        boMap (r.nextLink - 1) = true →
        ∃ r' v, r.tbmSurfaceInternalDumpShmBuffer (some mem) w h stride (some type) true time =
            some (true, r') ∧
          (r'.tbmSurfaceInternalDumpEnd boMap)[r.nextLink - 1]? =
            some (some (some ⟨r.path, some (.shm time r.count type "png"), v⟩)) ∧
          Capture.tbmSurfaceInternalCaptureShmBuffer (some mem) w h stride (some path)
            (some name) "png" false ≠ some (some v) := by
  have hcapture : ∀ l, Capture.tbmSurfaceInternalCaptureShmBuffer (some l) w h stride (some path)
      (some name) "png" false = (tbmSurfaceInternalDumpFilePng l stride h).map some := by
    intro l
    unfold Capture.tbmSurfaceInternalCaptureShmBuffer
    simp [hw, hh, hstride]
  constructor
  · rw [hcapture, dumpFilePng_overreads hstride hh]
    · rfl
    · rw [List.length_take, Nat.min_eq_left hmem]
  · intro r b type time boMap hb hfit hmap
    obtain ⟨r', v, hd, hend, hv⟩ :=
      dumpShmBuffer_image hb hw hh hstride hmem hfit type time hmap
    refine ⟨r', v, hd, hend, fun hsame => ?_⟩
    rw [hcapture] at hsame
    obtain ⟨v', hv', heq⟩ := Option.map_eq_some_iff.mp hsame
    obtain rfl : v' = v := Option.some.inj heq
    unfold tbmSurfaceInternalDumpFilePng at hv hv'
    obtain ⟨rows, -, hpng⟩ := Option.bind_eq_some_iff.mp hv
    obtain ⟨rows', -, hpng'⟩ := Option.bind_eq_some_iff.mp hv'
    have hwide : Image.png stride h rows' = Image.png (stride >>> 2) h rows :=
      Option.some.inj (hpng'.trans hpng.symm)
    obtain ⟨heq, -, -⟩ := Image.png.inj hwide
    exact (shm_width hstride).2.2 heq.symm

theorem capture_shm_never_agrees_pixel :
    Capture.tbmSurfaceInternalCaptureShmBuffer (some [1, 2, 3, 4]) 1 1 4 (some "p") (some "n")
        "png" false = none ∧
      ∃ r' v, sixteen.tbmSurfaceInternalDumpShmBuffer (some [1, 2, 3, 4]) 1 1 4 (some "a") true 0 =
          some (true, r') ∧
        (r'.tbmSurfaceInternalDumpEnd fun _ => true)[0]? =
          some (some (some ⟨"d", some (.shm 0 0 "a" "png"), v⟩)) ∧
        Capture.tbmSurfaceInternalCaptureShmBuffer (some [1, 2, 3, 4]) 1 1 4 (some "p") (some "n")
          "png" false ≠ some (some v) := by
  have hone : (0 : Int32) < 1 := by decide
  have hfour : (0 : Int32) < 4 := by decide
  have hmem : (4 : Int32).toNatClampNeg * (1 : Int32).toNatClampNeg ≤
      ([1, 2, 3, 4] : List UInt8).length := by decide
  obtain ⟨hleaves, hdiffers⟩ := capture_shm_never_agrees hone hone hfour hmem "p" "n"
  exact ⟨hleaves, hdiffers sixteen _ "a" 0 (fun _ => true) rfl (by decide) rfl⟩

/-- The capture of one pixel reads four, of which three are behind the buffer. -/
theorem capture_shm_reads_four :
    Capture.tbmSurfaceInternalCaptureShmBuffer (some [1, 2, 3, 4]) 1 1 4 (some "p") (some "n")
        "png" false = none ∧
      Capture.tbmSurfaceInternalCaptureShmBuffer
        (some [1, 2, 3, 4, 0, 0, 0, 0, 0, 0, 0, 0, 0, 0, 0, 0]) 1 1 4 (some "p") (some "n") "png"
        false = some (some (.png 4 1 [[0x04030201, 0, 0, 0]])) ∧
      ((sixteen.tbmSurfaceInternalDumpShmBuffer (some [1, 2, 3, 4]) 1 1 4 (some "a") true 0).map
        fun p => p.2.tbmSurfaceInternalDumpEnd fun _ => true) =
          some [some (some ⟨"d", some (.shm 0 0 "a" "png"), .png 1 1 [[0x04030201]]⟩)] := by
  decide +kernel

end Shm

end Tbm.Bufmgr
