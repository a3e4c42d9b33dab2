import Tbm.Bufmgr.Creation
import Mathlib.Algebra.BigOperators.Group.List.Basic
import Mathlib.Algebra.GroupWithZero.Nat

/-! The sizes of the buffers of a new surface against those of its planes. -/
namespace Tbm.Bufmgr

open Prog

def bytes (ps : List PlaneAnswer) : ℕ := (ps.map fun p => p.plane.size.toNat).sum

def planesOf (ps : List PlaneAnswer) (i : ℤ) : List PlaneAnswer := ps.filter fun p => p.boIdx = i

/-- Each plane starts where the earlier planes of its buffer end. -/
def Contiguous (ps : List PlaneAnswer) : Prop :=
  ∀ j < ps.length, ∀ p ∈ ps[j]?, p.plane.offset.toNat = bytes (planesOf (ps.take j) p.boIdx)

instance (ps : List PlaneAnswer) : Decidable (Contiguous ps) :=
  inferInstanceAs (Decidable (∀ _ < _, _))

/-- The sum of the sizes wraps once at its end. -/
theorem sizeOf_planes (ps : List Plane) :
    (sizeOf ps).toNat = (ps.map fun p => p.size.toNat).sum % 2 ^ 32 := by
  suffices ∀ n : UInt32, (ps.foldl (fun n p => n + p.size) n).toNat =
      (n.toNat + (ps.map fun p => p.size.toNat).sum) % 2 ^ 32 by
    rw [sizeOf, this]
    simp
  induction ps with
  | nil =>
    intro n
    have hn := n.toNat_lt
    simp only [List.map_nil, List.foldl_nil, List.sum_nil, Nat.add_zero]
    omega
  | cons p ps ih =>
    intro n
    rw [List.foldl_cons, ih, UInt32.toNat_add, List.map_cons, List.sum_cons]
    omega

theorem sizeOf_toNat (ps : List PlaneAnswer) :
    (sizeOf (ps.map (·.plane))).toNat = bytes ps % 2 ^ 32 := by
  rw [sizeOf_planes, List.map_map]
  rfl

/-- The narrowing to `int` never gives more than the exact value, and that only below `2 ^ 31`. -/
theorem le_boSizeOf_iff (ps : List PlaneAnswer) (i : ℕ) :
    (bytes (planesOf ps i) : ℤ) ≤ boSizeOf ps i ↔ bytes (planesOf ps i) < 2 ^ 31 := by
  have hcast (u : UInt32) : u.toInt32.toInt = (u.toNat : ℤ).bmod (2 ^ 32) :=
    BitVec.toInt_eq_toNat_bmod u.toBitVec
  have hsize : boSizeOf ps i = ((bytes (planesOf ps i) % 2 ^ 32 : ℕ) : ℤ).bmod (2 ^ 32) := by
    rw [boSizeOf, hcast, sizeOf_toNat]
    rfl
  rw [hsize, Int.bmod_def]
  split <;> omega

theorem bytes_append (ps qs : List PlaneAnswer) : bytes (ps ++ qs) = bytes ps + bytes qs := by
  simp [bytes]

theorem Contiguous.end_le {ps : List PlaneAnswer} (hc : Contiguous ps) {j : ℕ} {p : PlaneAnswer}
    (hj : ps[j]? = some p) :
    p.plane.offset.toNat + p.plane.size.toNat ≤ bytes (planesOf ps p.boIdx) := by
  obtain ⟨hlt, hget⟩ := List.getElem?_eq_some_iff.mp hj
  have hsplit : ps = ps.take j ++ p :: ps.drop (j + 1) := by
    rw [← hget, List.cons_getElem_drop_succ, List.take_append_drop]
  have hbytes : bytes (planesOf ps p.boIdx) = bytes (planesOf (ps.take j) p.boIdx) +
      (p.plane.size.toNat + bytes (planesOf (ps.drop (j + 1)) p.boIdx)) := by
    conv_lhs => rw [hsplit]
    simp only [planesOf, List.filter_append, List.filter_cons, decide_true, if_true]
    rw [bytes_append]
    simp [bytes]
  rw [hc j hlt p hj, hbytes]
  omega

/-- The last plane of a buffer ends with its last byte. -/
theorem Contiguous.last {ps : List PlaneAnswer} (hc : Contiguous ps) {i : ℤ}
    (hne : planesOf ps i ≠ []) : ∃ (j : ℕ) (p : PlaneAnswer), ps[j]? = some p ∧ p.boIdx = i ∧
      p.plane.offset.toNat + p.plane.size.toNat = bytes (planesOf ps i) := by
  induction ps using List.reverseRecOn with
  | nil => simp [planesOf] at hne
  | append_singleton ps q ih =>
    by_cases hq : q.boIdx = i
    · have hlast : (ps ++ [q])[ps.length]? = some q := by simp
      refine ⟨ps.length, q, hlast, hq, ?_⟩
      have hoff := hc ps.length (by simp) q hlast
      rw [List.take_left, hq] at hoff
      rw [hoff]
      simp [planesOf, List.filter_append, bytes, hq]
    · have hsame : planesOf (ps ++ [q]) i = planesOf ps i := by
        simp [planesOf, List.filter_append, hq]
      rw [hsame] at hne ⊢
      obtain ⟨j, p, hj, hp, he⟩ := ih (by
        intro j hlt p hj
        have hlt' : j < (ps ++ [q]).length := by
          rw [List.length_append]
          omega
        have hj' : p ∈ (ps ++ [q])[j]? := by
          rw [List.getElem?_append_left hlt]
          exact hj
        have := hc j hlt' p hj'
        rwa [List.take_append_of_le_length (Nat.le_of_lt hlt)] at this) hne
      refine ⟨j, p, ?_, hp, he⟩
      have hlt : j < ps.length := (List.getElem?_eq_some_iff.mp hj).1
      rw [List.getElem?_append_left hlt, hj]

/-- Every plane of the surface ends inside the buffer of its slot, which has as many bytes as
`tbm_bo_alloc` was asked for, and the surface has as many bytes as its planes. -/
structure Covered (s : State) (v : SurfaceData) : Prop where
  planes : ∀ j < v.info.numPlanes.toNat, ∀ i : ℕ, v.planesBoIdx j = i →
    ∃ b size, v.bos i = some b ∧ s.asked b = some size ∧
      ((v.info.planes j).offset.toNat + (v.info.planes j).size.toNat : ℤ) ≤ size
  total : v.info.size.toNat =
    ((List.range v.info.numPlanes.toNat).map fun j => (v.info.planes j).size.toNat).sum

theorem lt_numBosOf {ps : List PlaneAnswer} {p : PlaneAnswer} (hp : p ∈ ps) :
    p.boIdx < numBosOf ps := by
  suffices ∀ (ps : List PlaneAnswer) (n : ℤ),
      n ≤ ps.foldl (fun n p => if n < p.boIdx + 1 then p.boIdx + 1 else n) n ∧
        ∀ p ∈ ps, p.boIdx < ps.foldl (fun n p => if n < p.boIdx + 1 then p.boIdx + 1 else n) n from
    (this ps 1).2 p hp
  intro ps
  induction ps with
  | nil => simp
  | cons q ps ih =>
    intro n
    rw [List.foldl_cons]
    obtain ⟨hn, hps⟩ := ih (if n < q.boIdx + 1 then q.boIdx + 1 else n)
    have hnq : n ≤ (if n < q.boIdx + 1 then q.boIdx + 1 else n) ∧
        q.boIdx + 1 ≤ (if n < q.boIdx + 1 then q.boIdx + 1 else n) := by
      split <;> omega
    refine ⟨by omega, List.forall_mem_cons.mpr ⟨by omega, hps⟩⟩

section Covered

variable {m : Mgr} {width height flags : ℤ} {format : Format} {ps : List PlaneAnswer}
  {bos : List (Option Bo)} {s : State}

/-- The slots hold buffers of the sizes the loop has computed. -/
theorem covered_iff (hn : ps.length = format.numPlanes.toNat) (hc : Contiguous ps)
    (hs : ∀ i < (numBosOf ps).toNat, ∃ b, slotTable bos i = some b ∧
      s.asked b = some (boSizeOf ps i)) :
    Covered s (newSurfaceData m width height format flags ps bos) ↔
      (∀ i : ℕ, bytes (planesOf ps i) < 2 ^ 31) ∧ bytes ps < 2 ^ 32 := by
  have hplane (j : ℕ) (p : PlaneAnswer) (hj : ps[j]? = some p) :
      (newSurfaceData m width height format flags ps bos).info.planes j = p.plane ∧
        (newSurfaceData m width height format flags ps bos).planesBoIdx j = p.boIdx := by
    simp [newSurfaceData, planeTable, hj]
  have hslot (j i : ℕ) (p : PlaneAnswer) (hj : ps[j]? = some p) (hi : p.boIdx = i) : ∃ b,
      (newSurfaceData m width height format flags ps bos).bos i = some b ∧
        s.asked b = some (boSizeOf ps i) := by
    have hlt := lt_numBosOf (List.mem_of_getElem? hj)
    exact hs i (by omega)
  have htotal : ((List.range format.numPlanes.toNat).map fun j =>
      (planeTable (ps.map (·.plane)) j).size.toNat).sum = bytes ps := by
    rw [← hn, bytes]
    congr 1
    apply List.ext_getElem
    · simp
    · intro j h1 h2
      have hj : j < ps.length := by simpa using h1
      simp [planeTable, hj]
  have hsize : (newSurfaceData m width height format flags ps bos).info.size.toNat =
      bytes ps % 2 ^ 32 := sizeOf_toNat ps
  constructor
  · intro h
    constructor
    · intro i
      by_cases hne : planesOf ps i = []
      · simp [hne, bytes]
      · obtain ⟨j, p, hj, hp, he⟩ := hc.last hne
        obtain ⟨hpl, hidx⟩ := hplane j p hj
        have hlt : j < ps.length := (List.getElem?_eq_some_iff.mp hj).1
        obtain ⟨b, size, hb, hasked, hle⟩ := h.planes j (hn ▸ hlt) i (hidx.trans hp)
        obtain ⟨c, hcb, hcs⟩ := hslot j i p hj hp
        obtain rfl : b = c := Option.some.inj (hb.symm.trans hcb)
        obtain rfl : size = boSizeOf ps i := Option.some.inj (hasked.symm.trans hcs)
        rw [hpl] at hle
        rw [← le_boSizeOf_iff]
        omega
    · have := h.total
      rw [hsize] at this
      have htot : bytes ps % 2 ^ 32 = bytes ps := this.trans htotal
      omega
  · rintro ⟨hslots, htot⟩
    constructor
    · intro j hj i hi
      have hlt : j < ps.length := hn ▸ hj
      have hget : ps[j]? = some ps[j] := List.getElem?_eq_getElem hlt
      obtain ⟨hpl, hidx⟩ := hplane j ps[j] hget
      have hend := hc.end_le hget
      rw [← hidx, hi] at hend
      obtain ⟨b, hb, hasked⟩ := hslot j i ps[j] hget (hidx.symm.trans hi)
      have hfit := (le_boSizeOf_iff ps i).mpr (hslots i)
      refine ⟨b, boSizeOf ps i, hb, hasked, ?_⟩
      rw [hpl]
      omega
    · rw [hsize]
      refine Eq.trans ?_ htotal.symm
      omega

end Covered

variable {backend : Backend} {x : Answers} {s s' : State} {h : Surface}

/-- A surface that is returned has room for its planes exactly if the bytes of each buffer fit an
`int` and those of the surface 32 bits. -/
theorem bo_sizes_cover_planes {width height flags : ℤ} {format : Format} {ps : List PlaneAnswer}
    (hq : queryPlaneData backend x format.numPlanes.toNat = some ps) (hc : Contiguous ps)
    (hb : backend.surfaceBoAlloc = false)
    (he : exec x (tbmSurfaceInternalCreateWithFlags backend width height format flags) s =
      some (some h, s')) :
    Covered s' (s'.surface h) ↔
      (∀ i : ℕ, bytes (planesOf ps i) < 2 ^ 31) ∧ bytes ps < 2 ^ 32 := by
  obtain ⟨i, t, m, qs, k, t', -, -, -, hqs, hgrown, rfl, rfl⟩ := createWithFlags_some he
  obtain rfl : ps = qs := Option.some.inj (hq.symm.trans hqs)
  have hsurf : (t'.linkSurface h (newSurfaceData m width height format flags ps
      ((List.range' t.bos (numBosOf ps).toNat).map some))).surface h =
      newSurfaceData m width height format flags ps
        ((List.range' t.bos (numBosOf ps).toNat).map some) := by
    simp [State.linkSurface, State.setSurface]
  rw [hsurf]
  refine covered_iff (queryPlaneData_length hq) hc fun i hi => ⟨t.bos + i, ?_, ?_⟩
  · simp [slotTable, hi]
  · have hasked := hgrown.asked hb i hi
    rw [Nat.zero_add] at hasked
    exact hasked

private def stacked (a b : UInt32) : List PlaneAnswer := [⟨⟨a, 0, 4⟩, 0⟩, ⟨⟨b, a, 4⟩, 0⟩]

theorem bo_sizes_cover_planes_stacked : ∃ h s',
    exec { Answers.granted 7 with plane := ((stacked 16 8)[·]?) }
      (tbmSurfaceInternalCreateWithFlags .plain 4 4 .nv12 0) .initial = some (some h, s') ∧
    (Covered s' (s'.surface h) ↔
      (∀ i : ℕ, bytes (planesOf (stacked 16 8) i) < 2 ^ 31) ∧ bytes (stacked 16 8) < 2 ^ 32) := by
  have hrun : ((exec { Answers.granted 7 with plane := ((stacked 16 8)[·]?) }
      (tbmSurfaceInternalCreateWithFlags .plain 4 4 .nv12 0) .initial).map (·.1)) =
      some (some 0) := by decide +kernel
  obtain ⟨⟨o, s'⟩, he, rfl⟩ := Option.map_eq_some_iff.mp hrun
  exact ⟨0, s', he, bo_sizes_cover_planes (by decide +kernel) (by decide +kernel) rfl he⟩

theorem bo_size_wraps :
    ¬∀ (backend : Backend) (x : Answers) (s s' : State) (h : Surface) (width height flags : ℤ)
      (format : Format) (ps : List PlaneAnswer),
      queryPlaneData backend x format.numPlanes.toNat = some ps → Contiguous ps →
      backend.surfaceBoAlloc = false →
      exec x (tbmSurfaceInternalCreateWithFlags backend width height format flags) s =
        some (some h, s') →
      Covered s' (s'.surface h) := by
  intro hall
  let x : Answers := { Answers.granted 7 with plane := ((stacked (2 ^ 31) (2 ^ 31 + 16))[·]?) }
  have hrun : ((exec x (tbmSurfaceInternalCreateWithFlags .plain 4 4 .nv12 0) .initial).map
      fun r => (r.1, decide ((r.2.surface 0).info.numPlanes = 2 ∧
        (r.2.surface 0).planesBoIdx 0 = 0 ∧ ((r.2.surface 0).info.planes 0).size = 2 ^ 31 ∧
        (r.2.surface 0).bos 0 = some 0 ∧ r.2.asked 0 = some 16))) = some (some 0, true) := by
    decide +kernel
  obtain ⟨⟨o, s'⟩, he, ho⟩ := Option.map_eq_some_iff.mp hrun
  simp only [Prod.mk.injEq, decide_eq_true_eq] at ho
  obtain ⟨rfl, hn, hidx, hsize, hslot, hasked⟩ := ho
  have hcov := hall .plain x .initial s' 0 4 4 0 .nv12 (stacked (2 ^ 31) (2 ^ 31 + 16))
    (by decide +kernel) (by decide +kernel) rfl he
  obtain ⟨b, size, hb, hs, hle⟩ := hcov.planes 0 (by rw [hn]; decide) 0 hidx
  obtain rfl : 0 = b := Option.some.inj (hslot.symm.trans hb)
  obtain rfl : 16 = size := Option.some.inj (hasked.symm.trans hs)
  rw [hsize] at hle
  have hbytes : (2 ^ 31 : UInt32).toNat = 2 ^ 31 := by decide
  omega

end Tbm.Bufmgr
