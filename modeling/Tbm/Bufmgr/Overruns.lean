import Tbm.Bufmgr.Ring
import Tbm.Bufmgr.Sizes
import Tbm.Bufmgr.Tables
import Mathlib.Algebra.Order.BigOperators.Group.Finset

/-! What a dump copies against the size of the buffer it goes to. For a surface the size test looks
at the size the surface declares and the copies at its strides; for shared memory it looks at a
product of two `int`. -/
namespace Tbm.Bufmgr

open Copies

section Surfaces

variable {info : SurfaceInfo} {m : MappedSurface} {size : Int32}

/-- The bytes of the planes that are copied by stride and height. The pixels of the first two
formats are copied by the declared size. -/
def SurfaceInfo.planeTotal (info : SurfaceInfo) : ℕ :=
  match info.format with
  | .yvu420 | .yuv420 =>
    (info.planeBytes 0).toNat + (info.chromaBytes 1).toNat + (info.chromaBytes 2).toNat
  | .nv12 | .nv21 => (info.planeBytes 0).toNat + (info.chromaBytes 1).toNat
  | .yuyv | .uyvy => (info.planeBytes 0).toNat
  | _ => 0

/-- The declared size covers the planes, or is more than any `int`. A buffer has a byte at least. -/
def SurfaceInfo.Declared (info : SurfaceInfo) : Prop :=
  2 ^ 31 ≤ info.size.toNat ∨ info.planeTotal ≤ max 1 info.size.toNat

instance (info : SurfaceInfo) : Decidable info.Declared := inferInstanceAs (Decidable (_ ∨ _))

theorem MappedSurface.planeTotal_le (m : MappedSurface) : m.info.planeTotal ≤ total m.copies := by
  unfold SurfaceInfo.planeTotal MappedSurface.copies
  cases m.info.format <;> simp [total, Nat.add_assoc]

theorem MappedSurface.total_le (m : MappedSurface) :
    total m.copies ≤ max m.info.size.toNat m.info.planeTotal := by
  unfold SurfaceInfo.planeTotal MappedSurface.copies
  cases m.info.format <;> simp [total, Nat.add_assoc]

theorem MappedSurface.copies_nil (m : MappedSurface) (hf : m.info.format.copied = false) :
    m.copies = [] := by
  unfold MappedSurface.copies
  cases hm : m.info.format <;> simp_all [Format.copied]

/-- The comparison of `info.size` with the `int` of the buffer. -/
theorem le_toUInt32_iff {n : UInt32} (h : 0 < size) :
    n ≤ size.toUInt32 ↔ n.toNat ≤ size.toNatClampNeg := by
  rw [UInt32.le_iff_toNat_le, Int32.toNat_toUInt32_of_le (Int32.le_of_lt h)]

/-- A surface that declares the bytes of its planes fits every buffer that takes it. -/
theorem SurfaceInfo.Declared.fits (h : m.info.Declared) (hsize : 0 < size)
    (hle : m.info.size ≤ size.toUInt32) : total m.copies ≤ size.toNatClampNeg := by
  have hdeclared : m.info.size.toNat ≤ size.toNatClampNeg := (le_toUInt32_iff hsize).mp hle
  have hlt : size.toNatClampNeg < 2 ^ 31 := size.toNatClampNeg_lt
  have hone : 1 ≤ size.toNatClampNeg := (Int32.toNatClampNeg_pos_iff size).mpr hsize
  have htotal := m.total_le
  rcases h with hbig | hplanes
  · omega
  · omega

/-- The smallest buffer that takes a surface has only as many bytes as it declares. -/
theorem SurfaceInfo.declared_of_fits (h : ∀ size : Int32, 0 < size → m.info.size ≤ size.toUInt32 →
    total m.copies ≤ size.toNatClampNeg) : m.info.Declared := by
  by_contra hnot
  unfold SurfaceInfo.Declared at hnot
  push Not at hnot
  obtain ⟨hint, hover⟩ := hnot
  let size : Int32 := .ofNat (max 1 m.info.size.toNat)
  have hval : size.toNatClampNeg = max 1 m.info.size.toNat :=
    Int32.toNatClampNeg_ofNat_of_lt (by omega)
  have hpos : 0 < size := (Int32.toNatClampNeg_pos_iff size).mp (by omega)
  have hfits := h size hpos ((le_toUInt32_iff hpos).mpr (by omega))
  have htotal := m.planeTotal_le
  omega

end Surfaces

section Imported

variable {g : Mgr} {info : SurfaceInfo} {num : ℤ} {bos : List (Option Bo)}

theorem SurfaceInfo.planeBytes_le (info : SurfaceInfo) (i : ℕ) :
    (info.planeBytes i).toNat ≤ (info.planes i).stride.toNat * info.height.toNat := by
  rw [planeBytes, UInt32.toNat_mul]
  exact Nat.mod_le _ _

theorem SurfaceInfo.chromaBytes_le (info : SurfaceInfo) (i : ℕ) :
    (info.chromaBytes i).toNat ≤ (info.planes i).stride.toNat * info.height.toNat := by
  rw [chromaBytes, UInt32.toNat_mul]
  apply (Nat.mod_le _ _).trans
  apply Nat.mul_le_mul_left
  rw [UInt32.toNat_shiftRight]
  exact Nat.shiftRight_le _ _

theorem SurfaceInfo.planeTotal_le (info : SurfaceInfo) : info.planeTotal ≤
    ∑ i ∈ Finset.range 3, (info.planes i).stride.toNat * info.height.toNat := by
  have h0 := info.planeBytes_le 0
  have h1 := info.chromaBytes_le 1
  have h2 := info.chromaBytes_le 2
  rw [Finset.sum_range_succ, Finset.sum_range_succ, Finset.sum_range_one]
  unfold planeTotal
  split <;> omega

/-- A surface made of a client's buffers declares its planes if its size is left to the library,
each of its planes has room for its rows and the sum does not wrap. -/
theorem importedSurfaceData_declared (hsize : info.size = 0)
    (hplanes : ∀ i < info.numPlanes.toNat,
      (info.planes i).stride.toNat * info.height.toNat ≤ (planeOf info i).size.toNat)
    (hfit : ∑ i ∈ Finset.range info.numPlanes.toNat, (planeOf info i).size.toNat < 2 ^ 32) :
    (importedSurfaceData g info num bos).info.Declared := by
  have htable (i : ℕ) : (importedSurfaceData g info num bos).info.planes i =
      if i < info.numPlanes.toNat then planeOf info i else ⟨0, 0, 0⟩ := planeTable_range _ _ _
  -- The sum is the exact one.
  have htotal : (importedSurfaceData g info num bos).info.size.toNat =
      ∑ i ∈ Finset.range info.numPlanes.toNat, (planeOf info i).size.toNat := by
    rw [importedSurfaceData, hsize, if_neg (UInt32.lt_irrefl 0), sizeOf_planes, List.map_map]
    exact Nat.mod_eq_of_lt hfit
  -- A plane that is not in use has no rows.
  have hrows : ∑ i ∈ Finset.range 3,
        ((importedSurfaceData g info num bos).info.planes i).stride.toNat * info.height.toNat ≤
      ∑ i ∈ Finset.range info.numPlanes.toNat,
        ((importedSurfaceData g info num bos).info.planes i).stride.toNat * info.height.toNat := by
    apply Finset.sum_le_sum_of_ne_zero
    rintro i - hne
    rw [Finset.mem_range]
    by_contra hi
    rw [htable, if_neg hi] at hne
    simp at hne
  have hroom : ∑ i ∈ Finset.range info.numPlanes.toNat,
      ((importedSurfaceData g info num bos).info.planes i).stride.toNat * info.height.toNat ≤
        ∑ i ∈ Finset.range info.numPlanes.toNat, (planeOf info i).size.toNat := by
    apply Finset.sum_le_sum
    intro i hi
    rw [htable, if_pos (Finset.mem_range.mp hi)]
    exact hplanes i (Finset.mem_range.mp hi)
  have hle := (importedSurfaceData g info num bos).info.planeTotal_le.trans (hrows.trans hroom)
  rw [← htotal] at hle
  exact .inr (hle.trans (le_max_right _ _))

end Imported

section Products

variable {stride h : Int32}

/-- The product of two positive `int` is the exact one as long as that is an `int`. -/
theorem toInt_mul_of_lt (hs : 0 < stride) (hh : 0 < h)
    (hlt : stride.toInt * h.toInt < 2 ^ 31) : (stride * h).toInt = stride.toInt * h.toInt := by
  have hs' : 0 < stride.toInt := Int32.lt_iff_toInt_lt.mp hs
  have hh' : 0 < h.toInt := Int32.lt_iff_toInt_lt.mp hh
  have hpos : 0 < stride.toInt * h.toInt := Int.mul_pos hs' hh'
  rw [Int32.toInt_mul]
  exact Int.bmod_eq_of_le (by omega) (by omega)

theorem toInt_mul_le (hs : 0 < stride) (hh : 0 < h) :
    (stride * h).toInt ≤ stride.toInt * h.toInt := by
  have hs' : 0 < stride.toInt := Int32.lt_iff_toInt_lt.mp hs
  have hh' : 0 < h.toInt := Int32.lt_iff_toInt_lt.mp hh
  have hpos : 0 < stride.toInt * h.toInt := Int.mul_pos hs' hh'
  rw [Int32.toInt_mul, Int.bmod_def]
  split <;> omega

/-- The test of `dump_shm_buffer` keeps out what is too large just if the product does not wrap to
something that passes it. -/
theorem shm_fits_iff (hs : 0 < stride) (hh : 0 < h) (size : Int32) :
    (stride * h ≤ size → stride.toInt * h.toInt ≤ size.toInt) ↔
      stride.toInt * h.toInt < 2 ^ 31 ∨ size < stride * h := by
  have hlt : size.toInt < 2 ^ 31 := size.toInt_lt
  constructor
  · intro hfits
    by_cases hle : stride * h ≤ size
    · exact .inl (Int.lt_of_le_of_lt (hfits hle) hlt)
    · exact .inr (Int32.not_le.mp hle)
  · rintro (hexact | hskip) hle
    · rw [← toInt_mul_of_lt hs hh hexact]
      exact Int32.le_iff_toInt_le.mp hle
    · exact absurd hskip (Int32.not_lt.mpr hle)

theorem sizeT_of_neg {n : Int32} (hn : n < 0) : 2 ^ 31 ≤ sizeT n := by
  have hneg : n.toInt < 0 := Int32.lt_iff_toInt_lt.mp hn
  have hle : -2 ^ 31 ≤ n.toInt := n.le_toInt
  unfold sizeT
  omega

end Products

section Calls

private theorem isSome_bind_some {α β : Type} (o : Option α) (f : α → β) :
    (o.bind fun a => some (f a)).isSome = o.isSome := by
  cases o <;> rfl

variable {r : DumpRing} {b : DumpSlot} {m : MappedSurface} {s : Surface} {type : String}
  {boMap : Bool} {time : ℕ}

/-- Where the surface can be read, the call is undefined just if its copies leave the buffer. -/
theorem dumpBuffer_isSome (hb : r.entry r.nextLink = some b) (hs : Sourced m.copies) :
    (r.tbmSurfaceInternalDumpBuffer (some s) (some type) (some m) boMap time).isSome ↔
      (m.info.size ≤ b.size.toUInt32 → boMap → total m.copies ≤ b.size.toNatClampNeg) := by
  unfold DumpRing.tbmSurfaceInternalDumpBuffer
  simp only [hb, Option.bind_eq_bind, Option.bind_some]
  by_cases hsize : b.size.toUInt32 < m.info.size
  · have hnot : ¬m.info.size ≤ b.size.toUInt32 := UInt32.not_le.mpr hsize
    simp [hsize, hnot]
  · rw [if_neg hsize]
    have hle : m.info.size ≤ b.size.toUInt32 := UInt32.not_lt.mp hsize
    by_cases hmap : boMap
    · rw [if_pos hmap]
      by_cases hf : m.info.format.copied
      · rw [if_pos hf, isSome_bind_some]
        have hcopy : (gather b.zeros 0 m.copies).isSome ↔
            total m.copies ≤ b.size.toNatClampNeg := by
          rw [Option.isSome_iff_exists]
          constructor
          · rintro ⟨l, hl⟩
            exact (gather_replicate.mp hl).2.1
          · intro hfit
            exact ⟨_, gather_replicate.mpr ⟨hs, hfit, rfl⟩⟩
        simp [hle, hmap, hcopy]
      · have hnil : m.copies = [] := m.copies_nil (by simpa using hf)
        simp [hf, hnil, total]
    · simp [hmap]

/-- Where shared memory can be read, the call is undefined just if its product has become negative
and so many bytes are copied that no buffer has them. -/
theorem dumpShmBuffer_isSome {ptr : List UInt8} {w h stride : Int32}
    (hb : r.entry r.nextLink = some b) (hw : 0 < w) (hh : 0 < h) (hs : 0 < stride)
    (hptr : stride.toInt * h.toInt ≤ ptr.length) :
    (r.tbmSurfaceInternalDumpShmBuffer (some ptr) w h stride (some type) boMap time).isSome ↔
      (stride * h ≤ b.size → boMap → 0 ≤ stride * h) := by
  unfold DumpRing.tbmSurfaceInternalDumpShmBuffer
  simp only [hb, hw, hh, hs, and_self, if_true, Option.bind_eq_bind, Option.bind_some]
  by_cases hsize : b.size < stride * h
  · have hnot : ¬stride * h ≤ b.size := Int32.not_le.mpr hsize
    simp [hsize, hnot]
  · have hle : stride * h ≤ b.size := Int32.not_lt.mp hsize
    rw [if_neg hsize]
    by_cases hmap : boMap
    · have hcopy : (memcpy b.zeros 0 ptr (sizeT (stride * h))).isSome ↔ 0 ≤ stride * h := by
        rw [memcpy_isSome, Nat.zero_add]
        show _ ∧ _ ≤ (List.replicate _ _).length ↔ _
        rw [List.length_replicate]
        constructor
        · rintro ⟨-, hfit⟩
          by_contra hneg
          have hbig := sizeT_of_neg (Int32.not_le.mp hneg)
          have hsmall := b.size.toNatClampNeg_lt
          omega
        · intro hpos
          rw [sizeT_of_nonneg hpos]
          refine ⟨?_, Int.toNat_le_toNat (Int32.le_iff_toInt_le.mp hle)⟩
          exact Int.toNat_le.mpr ((toInt_mul_le hs hh).trans hptr)
      rw [if_pos hmap, isSome_bind_some, hcopy]
      simp [hle, hmap]
    · simp [hmap]

theorem dumpShmBuffer_accepts {ptr : List UInt8} {w h stride : Int32}
    (hb : r.entry r.nextLink = some b) (hw : 0 < w) (hh : 0 < h) (hs : 0 < stride) :
    r.tbmSurfaceInternalDumpShmBuffer (some ptr) w h stride (some type) true time ≠
      some (false, r) ↔ stride * h ≤ b.size := by
  unfold DumpRing.tbmSurfaceInternalDumpShmBuffer
  simp only [hb, hw, hh, hs, and_self, if_true, Option.bind_eq_bind, Option.bind_some]
  by_cases hsize : b.size < stride * h
  · have hnot : ¬stride * h ≤ b.size := Int32.not_le.mpr hsize
    simp [hsize, hnot]
  · have hle : stride * h ≤ b.size := Int32.not_lt.mp hsize
    rw [if_neg hsize]
    cases memcpy b.zeros 0 ptr (sizeT (stride * h)) with
    | none => simp [hle]
    | some contents => simp [hle]

end Calls

section Start

variable {x : StartAnswers} {r : DumpRing}

/-- A dump that has started has buffers with at least a byte. -/
theorem dumpStart_size_pos {path : Option String} {w h count : Int32} {b : DumpSlot}
    (hs : DumpRing.tbmSurfaceInternalDumpStart x path w h count = some r) (hb : b ∈ r.slots) :
    0 < b.size := by
  obtain ⟨hr, hlen, hpos⟩ := dumpStart_started hs
  rw [(hr.slots b hb).1]
  unfold DumpRing.tbmSurfaceInternalDumpStart at hs
  cases path with
  | none => cases hs
  | some path =>
    simp only at hs
    split_ifs at hs
    cases hn : count.toNatClampNeg with
    | zero => omega
    | succ n =>
      rw [hn] at hs
      unfold createSlots StartAnswers.alloc at hs
      by_contra hsize
      simp [hsize] at hs

end Start

/-- A surface fits every dump buffer that takes it just if it declares its planes, and shared memory
fits the next buffer, if that takes it, just if the product of its stride and height does not wrap
to something the test lets pass. -/
theorem dump_copies_fit (m : MappedSurface) {r : DumpRing} {b : DumpSlot} {w h stride : Int32}
    (hb : r.entry r.nextLink = some b) (hw : 0 < w) (hh : 0 < h) (hs : 0 < stride)
    (ptr : List UInt8) (type : String) (time : ℕ) :
    ((∀ size : Int32, 0 < size → m.info.size ≤ size.toUInt32 →
        total m.copies ≤ size.toNatClampNeg) ↔ m.info.Declared) ∧
      ((r.tbmSurfaceInternalDumpShmBuffer (some ptr) w h stride (some type) true time ≠
          some (false, r) → stride.toInt * h.toInt ≤ b.size.toInt) ↔
        stride.toInt * h.toInt < 2 ^ 31 ∨ b.size < stride * h) := by
  constructor
  · exact ⟨SurfaceInfo.declared_of_fits, fun hd size hsize hle => hd.fits hsize hle⟩
  · rw [dumpShmBuffer_accepts hb hw hh hs]
    exact shm_fits_iff hs hh b.size

/-- A picture of four rows of four pixels. -/
private def square (size : UInt32) : SurfaceInfo where
  width := 4
  height := 4
  format := .nv12
  bpp := 12
  size := size
  numPlanes := 2
  planes := fun i => ⟨0, if i = 0 then 0 else 16, 4⟩

/-- One buffer of a kilobyte, linked after the head. -/
private def kilobyte : DumpRing where
  path := "dump"
  count := 0
  link := 0
  links := ⟨fun i => if i = 0 then 1 else 0, fun i => if i = 0 then 1 else 0⟩
  slots := [⟨0, 1024, false, false, 0, 0, none, .zero, []⟩]

theorem dump_copies_fit_square :
    (∀ size : Int32, 0 < size → (square 24).size ≤ size.toUInt32 →
        total (MappedSurface.copies ⟨square 24, fun _ => []⟩) ≤ size.toNatClampNeg) ∧
      (kilobyte.tbmSurfaceInternalDumpShmBuffer (some []) 16 16 64 (some "shm") true 0 ≠
        some (false, kilobyte) → (64 : Int32).toInt * (16 : Int32).toInt ≤ 1024) := by
  have hb : kilobyte.entry kilobyte.nextLink =
      some ⟨0, 1024, false, false, 0, 0, none, .zero, []⟩ := rfl
  obtain ⟨hsurface, hshm⟩ := dump_copies_fit ⟨square 24, fun _ => []⟩ hb
    (show (0 : Int32) < 16 by decide) (show (0 : Int32) < 16 by decide)
    (show (0 : Int32) < 64 by decide) [] "shm" 0
  exact ⟨hsurface.mpr (by decide), hshm.mpr (by decide)⟩

/-- A surface made of a client's buffers that declares a byte is taken by a buffer of one byte, and
`0x10000 * 0x10000` is taken for nothing. -/
theorem dump_copies_exceed :
    (¬∀ (g : Mgr) (info : SurfaceInfo) (num : ℤ) (bos : List (Option Bo)) (ptr : ℕ → List UInt8)
      (size : Int32), 0 < size → (importedSurfaceData g info num bos).info.size ≤ size.toUInt32 →
        total (MappedSurface.copies ⟨(importedSurfaceData g info num bos).info, ptr⟩) ≤
          size.toNatClampNeg) ∧
      ¬∀ (r : DumpRing) (b : DumpSlot) (ptr : List UInt8) (w h stride : Int32) (type : String)
        (time : ℕ), r.entry r.nextLink = some b → 0 < b.size → 0 < w → 0 < h → 0 < stride →
          r.tbmSurfaceInternalDumpShmBuffer (some ptr) w h stride (some type) true time ≠
            some (false, r) → stride.toInt * h.toInt ≤ b.size.toInt := by
  constructor
  · intro hall
    have hfits := hall 7 (square 1) 1 [some 0] (fun _ => []) 1 (by decide) (by decide)
    exact absurd hfits (by decide)
  · intro hall
    have hh : (0 : Int32) < 65536 := by decide
    have hfits := hall kilobyte _ [] 65536 65536 65536 "shm" 0 rfl (by decide) hh hh hh
      ((dumpShmBuffer_accepts rfl hh hh hh).mpr (by decide))
    exact absurd hfits (by decide)

end Tbm.Bufmgr
