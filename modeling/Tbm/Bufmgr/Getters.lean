import Tbm.Bufmgr.Backlinks
import Tbm.Bufmgr.Dumps
import Tbm.Bufmgr.Tables

/-! What is read of a surface between its creation and its destruction. -/
namespace Tbm.Bufmgr

open Prog Runs

/-- What the functions that read a surface have in common. An index outside the tables has no
result. -/
def getEntry {α : Type} (h : Option Surface) (no : α) (f : SurfaceData → Option α) : BProg α :=
  locked .surface do
    match ← access fun s => (s.surfaceIsValid h).map (·, s) with
    | none => pure no
    | some h => access fun s => (f (s.surface h)).map (·, s)

def getField {α : Type} (h : Option Surface) (no : α) (f : SurfaceData → α) : BProg α :=
  getEntry h no fun v => some (f v)

def tbmSurfaceInternalGetNumBos (h : Option Surface) : BProg ℤ := getField h 0 (·.numBos)

def tbmSurfaceInternalGetSize (h : Option Surface) : BProg UInt32 := getField h 0 (·.info.size)

def tbmSurfaceInternalGetWidth (h : Option Surface) : BProg UInt32 := getField h 0 (·.info.width)

def tbmSurfaceInternalGetHeight (h : Option Surface) : BProg UInt32 :=
  getField h 0 (·.info.height)

def tbmSurfaceInternalGetFormat (h : Option Surface) : BProg Format :=
  getField h (.other 0) (·.info.format)

def tbmSurfaceInternalGetBo (h : Option Surface) (boIdx : Int32) : BProg (Option Bo) :=
  getEntry h none (·.tbmSurfaceInternalGetBo boIdx)

def tbmSurfaceInternalGetPlaneBoIdx (h : Option Surface) (planeIdx : Int32) : BProg ℤ :=
  getEntry h 0 (·.tbmSurfaceInternalGetPlaneBoIdx planeIdx)

def tbmSurfaceInternalGetPlaneData (h : Option Surface) (planeIdx : Int32) :
    BProg (Option Plane) :=
  getEntry h none (·.tbmSurfaceInternalGetPlaneData planeIdx)

/-- `invalidParameter` is `TBM_SURFACE_ERROR_INVALID_PARAMETER`. -/
def tbmSurfaceGetWidth (invalidParameter : ℤ) (h : Option Surface) : BProg ℤ :=
  if h.isSome then do return (← tbmSurfaceInternalGetWidth h).toInt32.toInt
  else pure invalidParameter

def tbmSurfaceGetHeight (invalidParameter : ℤ) (h : Option Surface) : BProg ℤ :=
  if h.isSome then do return (← tbmSurfaceInternalGetHeight h).toInt32.toInt
  else pure invalidParameter

def tbmSurfaceGetFormat (h : Option Surface) : BProg Format :=
  if h.isSome then tbmSurfaceInternalGetFormat h else pure (.other 0)

/-- A surface up to the references on it. -/
def SurfaceData.shape (v : SurfaceData) : SurfaceData := { v with refcnt := 0 }

/-- Of the surfaces of `s₀` none is new and none has another shape, but for one that is being
destroyed. -/
structure Shaped (s₀ s : State) (L : Ledger) : Prop where
  surfaces : s₀.surfaces ≤ s.surfaces
  making : ∀ h l, L.making = some (h, l) → s₀.surfaces ≤ h
  shape : ∀ h ∈ s.surfList, h < s₀.surfaces → h ∈ s₀.surfList ∧
    ((∀ i n, L.dying ≠ some (h, i, n)) → (s.surface h).shape = (s₀.surface h).shape)

section Shaped

variable {A : Allowed} {s₀ s s' : State} {L L' : Ledger}

@[simp] theorem shape_setRefcnt (v : SurfaceData) (n : ℤ) :
    SurfaceData.shape { v with refcnt := n } = v.shape := rfl

theorem Shaped.refl (hm : L.making = none) : Shaped s s L where
  surfaces := Nat.le_refl _
  making := by simp [hm]
  shape := fun _ hin _ => ⟨hin, fun _ => rfl⟩

/-- Surfaces, their list and the one that is destroyed are left alone. -/
theorem Shaped.same (h : Shaped s₀ s L) (hs : s'.surfaces = s.surfaces)
    (hlist : s'.surfList = s.surfList) (hdata : s'.surface = s.surface)
    (hm : ∀ h l, L'.making = some (h, l) → ∃ l', L.making = some (h, l'))
    (hd : L'.dying = L.dying) : Shaped s₀ s' L' where
  surfaces := hs ▸ h.surfaces
  making := fun k l hk => by
    obtain ⟨l', hk'⟩ := hm k l hk
    exact h.making k l' hk'
  shape := by
    rw [hlist, hdata, hd]
    exact h.shape

theorem Move.shaped (hl : Life s L) (h : Move A s L s' L') (hs : Shaped s₀ s L) :
    Shaped s₀ s' L' := by
  have keep (hm : L'.making = L.making) : ∀ h l, L'.making = some (h, l) →
      ∃ l', L.making = some (h, l') := fun k l hk => ⟨l, hm ▸ hk⟩
  cases h with
  | init hx =>
    unfold State.bufmgrInit at hx
    split at hx
    · obtain ⟨-, rfl⟩ := Prod.mk.inj hx
      exact hs.same rfl rfl rfl (keep rfl) rfl
    · split_ifs at hx
      · obtain ⟨-, rfl⟩ := Prod.mk.inj hx
        exact ⟨hs.surfaces, hs.making, by simp⟩
      · simp at hx
  | openSurface => exact ⟨hs.surfaces, hs.making, by simp⟩
  | newSurface =>
    refine ⟨Nat.le_succ_of_le hs.surfaces, fun k l hk => ?_, hs.shape⟩
    obtain ⟨rfl, -⟩ : s.surfaces = k ∧ [] = l := by simpa using hk
    exact hs.surfaces
  | fill hm => exact hs.same rfl rfl rfl (by simp_all) rfl
  | gap hm => exact hs.same rfl rfl rfl (by simp_all) rfl
  | unfill hm => exact hs.same rfl rfl rfl (by simp_all) rfl
  | skip hm => exact hs.same rfl rfl rfl (by simp_all) rfl
  | abandon => exact hs.same rfl rfl rfl (by simp) rfl
  | @linkSurface _ h l v hm =>
    have hnew := hs.making h l hm
    refine ⟨hs.surfaces, by simp, fun k hk hlt => ?_⟩
    have hne : k ≠ h := Nat.ne_of_lt (Nat.lt_of_lt_of_le hlt hnew)
    rcases List.mem_cons.mp hk with heq | hk
    · exact absurd heq hne
    · simpa [State.linkSurface, State.setSurface, hne] using hs.shape k hk hlt
  | condemn _ hd => exact ⟨hs.surfaces, hs.making, fun k hk hlt =>
      ⟨(hs.shape k hk hlt).1, fun _ => (hs.shape k hk hlt).2 (by simp [hd])⟩⟩
  | @takeSlot _ h i n b hd =>
    refine ⟨hs.surfaces, hs.making, fun k hk hlt => ⟨(hs.shape k hk hlt).1, fun hnot => ?_⟩⟩
    have hne : k ≠ h := by
      rintro rfl
      exact hnot _ _ rfl
    have hshape := (hs.shape k hk hlt).2 (by simp [hd, hne.symm])
    simpa [State.setSlot, State.setSurface, hne] using hshape
  | @unlinkSurface _ h n hd =>
    refine ⟨hs.surfaces, hs.making, fun k hk hlt => ?_⟩
    obtain ⟨hne, hk⟩ := hl.surfNodup.mem_erase_iff.mp hk
    obtain ⟨hin, hshape⟩ := hs.shape k hk hlt
    exact ⟨hin, fun _ => hshape (by simp [hd, hne.symm])⟩
  | @setSurfaceRefcnt _ h n =>
    refine ⟨hs.surfaces, hs.making, fun k hk hlt => ?_⟩
    obtain ⟨hin, hshape⟩ := hs.shape k hk hlt
    refine ⟨hin, fun hnot => ?_⟩
    rw [← hshape hnot]
    by_cases heq : k = h
    · simp [State.setSurfaceRefcnt, State.setSurface, heq]
    · simp [State.setSurfaceRefcnt, State.setSurface, heq]
  | _ => exact hs.same rfl rfl rfl (keep rfl) rfl

end Shaped

section Reads

variable {backend : Backend} {s s' : State} {L : Ledger} {h : Surface} {x : Answers}

theorem Life.surfaceIsValid_eq (hl : Life s L) (k : Option Surface) :
    s.surfaceIsValid k = some (k.filter fun h => decide (h ∈ s.surfList)) := by
  obtain ⟨r, hr, -⟩ := hl.surfaceIsValid k
  rw [hr]
  unfold State.surfaceIsValid at hr
  split_ifs at hr with hno
  · rw [← hr]
    rcases hno with hno | hno
    · rw [hl.surfs (by simpa using hno)]
      cases k with
      | none => rfl
      | some h => simp
    · rw [Option.isNone_iff_eq_none.mp hno]
      rfl
  · obtain ⟨-, -, hr⟩ := Option.bind_eq_some_iff.mp hr
    exact hr.symm

theorem filter_linked (hin : h ∈ s.surfList) :
    (some h).filter (fun h => decide (h ∈ s.surfList)) = some h := by
  simp [Option.filter, hin]

theorem filter_unlinked (hnot : h ∉ s.surfList) :
    (some h).filter (fun h => decide (h ∈ s.surfList)) = none := by
  simp [Option.filter, hnot]

theorem getEntry_linked {α : Type} {no a : α} {f : SurfaceData → Option α} (hl : Life s L)
    (hin : h ∈ s.surfList) (hf : f (s.surface h) = some a) :
    exec x (getEntry (some h) no f) s = some (a, s) := by
  simp only [getEntry, exec_locked, exec_bind, exec_access, hl.surfaceIsValid_eq,
    filter_linked hin, Option.map_some, Option.bind_some, hf]

/-- A handle of a surface that is not there reads as `no`. -/
theorem getEntry_unlinked {α : Type} {no : α} {f : SurfaceData → Option α} (hl : Life s L)
    (hnot : h ∉ s.surfList) : exec x (getEntry (some h) no f) s = some (no, s) := by
  simp only [getEntry, exec_locked, exec_bind, exec_access, hl.surfaceIsValid_eq,
    filter_unlinked hnot, Option.map_some, Option.bind_some, exec_pure]

section Info

variable {me n i : ℕ} {map : Bool}

/-- The surfaces are those of `s`. -/
def State.SameSurfaces (s t : State) : Prop := t.surfList = s.surfList ∧ t.surface = s.surface

theorem tbmBoUnlock_sameSurfaces (b : Bo) : s.SameSurfaces (s.tbmBoUnlock backend b) := by
  unfold State.tbmBoUnlock State.boUnlock
  cases s.lockType with
  | tryNever => exact ⟨rfl, rfl⟩
  | tryOnce =>
    simp only
    split_ifs
    all_goals exact ⟨rfl, rfl⟩
  | tryAlways =>
    simp only
    split_ifs
    all_goals exact ⟨rfl, rfl⟩

theorem boMap_sameSurfaces (b : Bo) (ok : Bool) : s.SameSurfaces (s.boMap backend b ok).2 := by
  cases ok with
  | true => exact ⟨rfl, rfl⟩
  | false => exact tbmBoUnlock_sameSurfaces b

theorem boUnmap_sameSurfaces (b : Bo) (ok : Bool) :
    s.SameSurfaces (s.boUnmap backend b ok).2 := by
  cases ok with
  | true => exact tbmBoUnlock_sameSurfaces (s := State.setMapCnt _ _ _) b
  | false => exact ⟨rfl, rfl⟩

theorem State.SameSurfaces.trans {t u : State} (h1 : s.SameSurfaces t) (h2 : t.SameSurfaces u) :
    s.SameSurfaces u := ⟨h2.1.trans h1.1, h2.2.trans h1.2⟩

theorem boMapStart_sameSurfaces (b : Option Bo) (ok : Bool) :
    s.SameSurfaces (s.boMapStart backend me b ok).2 := by
  unfold State.boMapStart
  cases s.boIsValid b with
  | none => exact ⟨rfl, rfl⟩
  | some b =>
    simp only
    cases s.tbmBoLockStart b with
    | failed => exact ⟨rfl, rfl⟩
    | ready => exact boMap_sameSurfaces b ok
    | outside => exact ⟨rfl, rfl⟩

theorem boLock_sameSurfaces {b : Bo} {ok r : Bool}
    (h : s.boLock backend me b ok = some (r, s')) : s.SameSurfaces s' := by
  unfold State.boLock at h
  split_ifs at h
  all_goals
    obtain ⟨-, rfl⟩ := Prod.mk.inj (Option.some.inj h)
    exact ⟨rfl, rfl⟩

theorem boMapEnd_sameSurfaces {b : Bo} {ok map r : Bool}
    (h : s.boMapEnd backend me b ok map = some (r, s')) : s.SameSurfaces s' := by
  obtain ⟨t, ht, h⟩ := Option.bind_eq_some_iff.mp h
  have hst : s.SameSurfaces t := by
    unfold State.tbmBoLockEnd at ht
    simp only at ht
    split_ifs at ht
    all_goals
      obtain rfl := Option.some.inj ht
      exact ⟨rfl, rfl⟩
  split_ifs at h
  · obtain ⟨-, rfl⟩ := Prod.mk.inj (Option.some.inj h)
    exact hst.trans (boMap_sameSurfaces b map)
  · obtain ⟨-, rfl⟩ := Prod.mk.inj (Option.some.inj h)
    exact hst

/-- The calls on buffer objects under `get_info` leave the surfaces alone. -/
theorem tbmBoMap_upholds (b : Option Bo) :
    Upholds x s.SameSurfaces (tbmBoMap backend me b) := by
  refine upholds_locked (.answer (.bind (.access fun t a t' ht he => ?_) fun r => ?_))
  · obtain ⟨rfl, rfl⟩ := Prod.mk.inj (Option.some.inj he)
    exact ht.trans (boMapStart_sameSurfaces b x.map)
  · obtain ⟨o, r⟩ := r
    cases o with
    | none => exact .pure r
    | some b =>
      intro t a t' ht he
      simp only [exec_mutexUnlock, exec_mutexLock, exec_bind, exec_answer, exec_access,
        Option.bind_some] at he
      obtain ⟨⟨ok, u⟩, hok, he⟩ := Option.bind_eq_some_iff.mp he
      exact (ht.trans (boLock_sameSurfaces hok)).trans (boMapEnd_sameSurfaces he)

theorem tbmBoUnmap_upholds (b : Option Bo) : Upholds x s.SameSurfaces (tbmBoUnmap backend b) := by
  refine upholds_locked (.answer (.access fun t a t' ht he => ?_))
  cases hb : t.boIsValid b with
  | none =>
    simp only [hb, Option.some.injEq, Prod.mk.injEq] at he
    obtain ⟨-, rfl⟩ := he
    exact ht
  | some b =>
    simp only [hb] at he
    obtain ⟨-, rfl⟩ := Prod.mk.inj (Option.some.inj he)
    exact ht.trans (boUnmap_sameSurfaces b x.unmap)

theorem unmapSlots_upholds : Upholds x s.SameSurfaces (unmapSlots backend h n i) := by
  induction n generalizing i with
  | zero => exact .pure ()
  | succ n ih => exact .bind (.lookup _) fun b => .bind (tbmBoUnmap_upholds b) fun _ => ih

theorem mapSlots_upholds : Upholds x s.SameSurfaces (mapSlots backend me h n i) := by
  induction n generalizing i with
  | zero => exact .pure true
  | succ n ih =>
    exact .bind (.mutexUnlock _) fun _ => .bind (.lookup _) fun b =>
      .bind (tbmBoMap_upholds b) fun ok => .bind (.mutexLock _) fun _ =>
        .ite (fun _ => ih) fun _ => .bind unmapSlots_upholds fun _ => .pure false

theorem handleSlots_upholds : Upholds x s.SameSurfaces (handleSlots h n i) := by
  induction n generalizing i with
  | zero => exact .pure true
  | succ n ih =>
    exact .bind (.lookup _) fun b => .bind (upholds_locked (.answer (.read _))) fun ok =>
      .ite (fun _ => ih) fun _ => .pure false

theorem fetchSlots_upholds : Upholds x s.SameSurfaces (fetchSlots backend me h map n) :=
  .ite (fun _ => mapSlots_upholds) fun _ => handleSlots_upholds

/-- What `get_info` fills in is the data of its surface. -/
theorem getInfo_info {r : Option SurfaceInfo} (hl : Life s L)
    (he : exec x (tbmSurfaceInternalGetInfo backend me (some h) map) s = some (r, s')) :
    s.SameSurfaces s' ∧
      ∀ info, r = some info → h ∈ s.surfList ∧ info = (s.surface h).info := by
  simp only [tbmSurfaceInternalGetInfo, exec_locked, exec_bind, exec_access,
    hl.surfaceIsValid_eq, Option.map_some, Option.bind_some] at he
  by_cases hin : h ∈ s.surfList
  · simp only [filter_linked hin, exec_bind, exec_read, Option.bind_some] at he
    obtain ⟨⟨ok, t⟩, hok, he⟩ := Option.bind_eq_some_iff.mp he
    have ht : s.SameSurfaces t := fetchSlots_upholds s ok t ⟨rfl, rfl⟩ hok
    cases ok with
    | true =>
      have hint : h ∈ t.surfList := by
        rw [ht.1]
        exact hin
      simp only [if_true, exec_access, if_pos hint] at he
      obtain ⟨rfl, rfl⟩ := Prod.mk.inj (Option.some.inj he)
      refine ⟨ht, fun info hinfo => ⟨hin, ?_⟩⟩
      rw [← Option.some.inj hinfo, ht.2]
    | false =>
      simp only [Bool.false_eq_true, if_false, exec_pure, Option.some.injEq,
        Prod.mk.injEq] at he
      obtain ⟨rfl, rfl⟩ := he
      exact ⟨ht, fun info hinfo => by cases hinfo⟩
  · simp only [filter_unlinked hin, exec_pure, Option.some.injEq, Prod.mk.injEq] at he
    obtain ⟨rfl, rfl⟩ := he
    exact ⟨⟨rfl, rfl⟩, fun info hinfo => by cases hinfo⟩

/-- Where every slot holds a live buffer object and the backend gives its handle. -/
theorem handleSlots_exec (hin : h ∈ s.surfList) (hx : x.map = true) (h4 : i + n ≤ 4)
    (hlive : ∀ j < i + n, (s.boIsValid ((s.surface h).bos j)).isSome) :
    exec x (handleSlots h n i) s = some (true, s) := by
  induction n generalizing i with
  | zero => rfl
  | succ n ih =>
    have hi : i < 4 := by omega
    have hslot : s.surfaceSlot h i = some ((s.surface h).bos i) := by
      simp [State.surfaceSlot, hin, SurfaceData.slot, hi]
    have hbo := hlive i (by omega)
    simp only [handleSlots, exec_bind, exec_access, hslot, Option.map_some, Option.bind_some,
      tbmBoGetHandle, exec_locked, exec_answer, exec_read, hx, hbo, Bool.and_self, if_true]
    exact ih (by omega) fun j hj => hlive j (by omega)

theorem getInfo_exec (hl : Life s L) (hin : h ∈ s.surfList) (hx : x.map = true)
    (h4 : (s.surface h).numBos ≤ 4)
    (hlive : ∀ j < (s.surface h).numBos.toNat, (s.boIsValid ((s.surface h).bos j)).isSome) :
    exec x (tbmSurfaceInternalGetInfo backend me (some h) false) s =
      some (some (s.surface h).info, s) := by
  have hvalid : s.surfaceIsValid (some h) = some (some h) := by
    rw [hl.surfaceIsValid_eq, filter_linked hin]
  have hslots := handleSlots_exec (x := x) (i := 0) (n := (s.surface h).numBos.toNat) hin hx
    (by omega) (by simpa using hlive)
  simp only [tbmSurfaceInternalGetInfo, exec_locked, exec_bind, exec_access, hvalid,
    Option.map_some, Option.bind_some, exec_read, fetchSlots, Bool.false_eq_true, if_false, hslots,
    if_true, if_pos hin]

end Info

/-- The functions that read a surface answer with the data `v`. -/
structure ReadsAs (s : State) (h : Surface) (v : SurfaceData) : Prop where
  numBos : ∀ x, exec x (tbmSurfaceInternalGetNumBos (some h)) s = some (v.numBos, s)
  size : ∀ x, exec x (tbmSurfaceInternalGetSize (some h)) s = some (v.info.size, s)
  width : ∀ x, exec x (tbmSurfaceInternalGetWidth (some h)) s = some (v.info.width, s)
  height : ∀ x, exec x (tbmSurfaceInternalGetHeight (some h)) s = some (v.info.height, s)
  format : ∀ x, exec x (tbmSurfaceInternalGetFormat (some h)) s = some (v.info.format, s)
  getWidth : ∀ x no, exec x (tbmSurfaceGetWidth no (some h)) s =
    some (v.info.width.toInt32.toInt, s)
  getHeight : ∀ x no, exec x (tbmSurfaceGetHeight no (some h)) s =
    some (v.info.height.toInt32.toInt, s)
  getFormat : ∀ x, exec x (tbmSurfaceGetFormat (some h)) s = some (v.info.format, s)
  bo : ∀ x (i : Int32), -1 < i.toInt → i.toInt < 4 →
    exec x (tbmSurfaceInternalGetBo (some h) i) s = some (v.bos i.toInt.toNat, s)
  planeBoIdx : ∀ x (i : Int32), -1 < i.toInt → i.toInt < 4 →
    exec x (tbmSurfaceInternalGetPlaneBoIdx (some h) i) s =
      some (v.planesBoIdx i.toInt.toNat, s)
  planeData : ∀ x (i : Int32), -1 < i.toInt → i.toInt < 4 → i.toInt < v.info.numPlanes.toNat →
    exec x (tbmSurfaceInternalGetPlaneData (some h) i) s =
      some (some (v.info.planes i.toInt.toNat), s)
  noPlane : ∀ x (i : Int32), i.toInt < 0 ∨ v.info.numPlanes.toNat ≤ i.toInt →
    exec x (tbmSurfaceInternalGetPlaneData (some h) i) s = some (none, s)
  /-- A call may fail, but not with other data. -/
  internalInfo : ∀ x backend me map r s',
    exec x (tbmSurfaceInternalGetInfo backend me (some h) map) s = some (some r, s') →
      r = v.info
  mapInfo : ∀ x backend me r s',
    exec x (tbmSurfaceMap backend me (some h)) s = some (some r, s') → r = v.info
  /-- It does not fail where the slots hold buffer objects and the backend has handles of them. -/
  getInfo : ∀ x backend me, x.map = true → v.numBos ≤ 4 →
    (∀ i < v.numBos.toNat, (s.boIsValid (v.bos i)).isSome) →
      exec x (tbmSurfaceGetInfo backend me (some h)) s = some (some v.info, s)
  data : (s.surface h).shape = v.shape

theorem numPlanes_le_ofInt (v : SurfaceData) {i : Int32} (hi : -1 < i.toInt) :
    v.info.numPlanes ≤ .ofInt i.toInt ↔ (v.info.numPlanes.toNat : ℤ) ≤ i.toInt := by
  have hhigh := Int32.toInt_lt i
  rw [UInt32.le_iff_toNat_le, ofInt_toNat]
  omega

theorem ReadsAs.of_shape {v : SurfaceData} (hl : Life s L) (hin : h ∈ s.surfList)
    (hv : (s.surface h).shape = v.shape) : ReadsAs s h v := by
  have hfield {α : Type} (no : α) (f : SurfaceData → α) (hf : ∀ v, f v = f v.shape)
      (x : Answers) : exec x (getField (some h) no f) s = some (f v, s) := by
    have hsame : f (s.surface h) = f v := by rw [hf, hv, ← hf]
    exact getEntry_linked hl hin (congrArg some hsame)
  have hinfo : (s.surface h).info = v.info := (congrArg SurfaceData.info hv :)
  have hbos : (s.surface h).bos = v.bos := (congrArg SurfaceData.bos hv :)
  have hidx : (s.surface h).planesBoIdx = v.planesBoIdx := (congrArg SurfaceData.planesBoIdx hv :)
  have hnum : (s.surface h).numBos = v.numBos := (congrArg SurfaceData.numBos hv :)
  have hwidth (x : Answers) := hfield 0 (·.info.width) (fun _ => rfl) x
  have hheight (x : Answers) := hfield 0 (·.info.height) (fun _ => rfl) x
  have hformat (x : Answers) := hfield (.other 0) (·.info.format) (fun _ => rfl) x
  have hcall {x : Answers} {backend : Backend} {me : ℕ} {map : Bool} {r : SurfaceInfo}
      {s' : State} (he : exec x (tbmSurfaceInternalGetInfo backend me (some h) map) s =
        some (some r, s')) : r = v.info := by
    rw [((getInfo_info hl he).2 r rfl).2, hinfo]
  constructor
  case numBos => exact hfield _ _ fun _ => rfl
  case size => exact hfield _ _ fun _ => rfl
  case width => exact hwidth
  case height => exact hheight
  case format => exact hformat
  case getWidth =>
    intro x no
    simp [tbmSurfaceGetWidth, tbmSurfaceInternalGetWidth, hwidth x]
  case getHeight =>
    intro x no
    simp [tbmSurfaceGetHeight, tbmSurfaceInternalGetHeight, hheight x]
  case getFormat => exact hformat
  case bo =>
    intro x i h0 h4
    apply getEntry_linked hl hin
    rw [SurfaceData.tbmSurfaceInternalGetBo, if_pos h0, hbos, tableGet, if_pos (by omega)]
  case planeBoIdx =>
    intro x i h0 h4
    apply getEntry_linked hl hin
    rw [SurfaceData.tbmSurfaceInternalGetPlaneBoIdx, if_pos h0, hidx, tableGet,
      if_pos (by omega)]
  case planeData =>
    intro x i h0 h4 hn
    apply getEntry_linked hl hin
    have hlt : ¬v.info.numPlanes ≤ .ofInt i.toInt := by
      rw [numPlanes_le_ofInt v h0]
      omega
    rw [SurfaceData.tbmSurfaceInternalGetPlaneData, if_pos h0, hinfo, if_neg hlt, tableGet,
      if_pos (by omega)]
    rfl
  case noPlane =>
    intro x i hi
    apply getEntry_linked hl hin
    rw [SurfaceData.tbmSurfaceInternalGetPlaneData, hinfo]
    by_cases h0 : -1 < i.toInt
    · rw [if_pos h0, if_pos ((numPlanes_le_ofInt v h0).mpr (by omega))]
    · rw [if_neg h0]
  case internalInfo => exact fun x backend me map r s' he => hcall he
  case mapInfo => exact fun x backend me r s' he => hcall he
  case getInfo =>
    intro x backend me hx h4 hlive
    rw [← hinfo]
    exact getInfo_exec hl hin hx (hnum ▸ h4) (by simpa only [hnum, hbos] using hlive)
  case data => exact hv

/-- They answer with zero. -/
structure ReadsZero (s : State) (h : Surface) : Prop where
  numBos : ∀ x, exec x (tbmSurfaceInternalGetNumBos (some h)) s = some (0, s)
  size : ∀ x, exec x (tbmSurfaceInternalGetSize (some h)) s = some (0, s)
  width : ∀ x, exec x (tbmSurfaceInternalGetWidth (some h)) s = some (0, s)
  height : ∀ x, exec x (tbmSurfaceInternalGetHeight (some h)) s = some (0, s)
  format : ∀ x, exec x (tbmSurfaceInternalGetFormat (some h)) s = some (.other 0, s)
  bo : ∀ x i, exec x (tbmSurfaceInternalGetBo (some h) i) s = some (none, s)
  planeBoIdx : ∀ x i, exec x (tbmSurfaceInternalGetPlaneBoIdx (some h) i) s = some (0, s)
  planeData : ∀ x i, exec x (tbmSurfaceInternalGetPlaneData (some h) i) s = some (none, s)
  info : ∀ x backend me map,
    exec x (tbmSurfaceInternalGetInfo backend me (some h) map) s = some (none, s)

theorem ReadsZero.of_notMem (hl : Life s L) (hnot : h ∉ s.surfList) : ReadsZero s h := by
  have hfield {α : Type} (no : α) (f : SurfaceData → α) (x : Answers) :
      exec x (getField (some h) no f) s = some (no, s) := getEntry_unlinked hl hnot
  constructor
  case info =>
    intro x backend me map
    simp only [tbmSurfaceInternalGetInfo, exec_locked, exec_bind, exec_access,
      hl.surfaceIsValid_eq, filter_unlinked hnot, Option.map_some, Option.bind_some, exec_pure]
  case bo => exact fun x i => getEntry_unlinked hl hnot
  case planeBoIdx => exact fun x i => getEntry_unlinked hl hnot
  case planeData => exact fun x i => getEntry_unlinked hl hnot
  all_goals exact hfield _ _

/-- What `create_with_flags` is asked for, where the backend describes the planes with `ps`. -/
structure Requested (s : State) (h : Surface) (width height : ℤ) (format : Format) (flags : ℤ)
    (ps : List PlaneAnswer) (v : SurfaceData) : Prop where
  width : v.info.width = .ofInt width
  height : v.info.height = .ofInt height
  bpp : v.info.bpp = format.bpp
  numPlanes : v.info.numPlanes = format.numPlanes
  format : v.info.format = format
  size : v.info.size = sizeOf (ps.map (·.plane))
  planes : ∀ i p, ps[i]? = some p → v.info.planes i = p.plane ∧ v.planesBoIdx i = p.boIdx
  numBos : v.numBos = numBosOf ps
  bos : ∀ i < v.numBos.toNat, ∃ b ∈ s.boList, v.bos i = some b ∧ (s.bo b).surface = some h ∧
    (s.bo b).flags = flags ∧ (s.bo b).refCnt = 1
  flags : v.flags = flags

/-- What `create_with_bos` is asked for. A handle of a buffer object that is not there leaves its
slot empty. -/
structure Described (s : State) (info : SurfaceInfo) (bos : ℕ → Option Bo) (num : ℤ)
    (v : SurfaceData) : Prop where
  width : v.info.width = info.width
  height : v.info.height = info.height
  format : v.info.format = info.format
  bpp : v.info.bpp = info.bpp
  numPlanes : v.info.numPlanes = info.numPlanes
  size : 0 < info.size → v.info.size = info.size
  total : info.size = 0 →
    v.info.size = sizeOf ((List.range info.numPlanes.toNat).map v.info.planes)
  offset : ∀ i < info.numPlanes.toNat, (v.info.planes i).offset = (info.planes i).offset
  stride : ∀ i < info.numPlanes.toNat, (v.info.planes i).stride = (info.planes i).stride
  planeSize : ∀ i < info.numPlanes.toNat, (v.info.planes i).size =
    if 0 < (info.planes i).size then (info.planes i).size
    else (info.planes i).stride * info.height
  planesBoIdx : ∀ i < info.numPlanes.toNat, v.planesBoIdx i = if num = 1 then 0 else (i : ℤ)
  flags : v.flags = 0
  numBos : v.numBos = num
  bos : ∀ i < num.toNat, (bos i).isSome ∧ v.bos i = s.boIsValid (bos i)

/-- What the arguments of a creation say of the surface that is there after it. -/
def Turn.Describes (backend : Backend) (t : Turn) (s : State) (h : Surface) (v : SurfaceData) :
    Prop :=
  match t.op with
  | .surfaceCreateWithFlags width height format flags =>
    ∃ ps, queryPlaneData backend t.answers format.numPlanes.toNat = some ps ∧
      Requested s h width height format flags ps v
  | .surfaceCreateWithBos (some info) (some bos) num => Described s info bos num v
  | _ => True

theorem linkSurface_surface (s : State) (h : Surface) (v : SurfaceData) :
    (s.linkSurface h v).surface h = v := by
  simp [State.linkSurface, State.setSurface]

theorem createWithFlags_describes {width height : ℤ} {format : Format} {flags : ℤ}
    (he : exec x (tbmSurfaceInternalCreateWithFlags backend width height format flags) s =
      some (some h, s')) : h ∈ s'.surfList ∧
        ∃ ps, queryPlaneData backend x format.numPlanes.toNat = some ps ∧
          Requested s' h width height format flags ps (s'.surface h) := by
  obtain ⟨i, t, m, ps, k, t', -, -, -, hps, hgrown, rfl, rfl⟩ := createWithFlags_some he
  rw [linkSurface_surface]
  refine ⟨List.mem_cons_self, ps, hps, ?_⟩
  constructor
  case planes =>
    intro i p hp
    simp [newSurfaceData, planeTable, hp]
  case bos =>
    intro i hi
    have hi' : i < (numBosOf ps).toNat := hi
    have hnew := hgrown.new i hi'
    refine ⟨t.bos + i, ?_, ?_, ?_, ?_, ?_⟩
    · have hin : t.bos + i ∈ List.range' t.bos (numBosOf ps).toNat := by
        rw [List.mem_range'_1]
        omega
      show t.bos + i ∈ t'.boList
      rw [hgrown.boList]
      exact List.mem_append_left _ (List.mem_reverse.mpr hin)
    · simp [newSurfaceData, slotTable, hi']
    · exact (congrArg BoData.surface hnew :)
    · exact (congrArg BoData.flags hnew :)
    · exact (congrArg BoData.refCnt hnew :)
  all_goals rfl

theorem tbmBoRef_slot {b r : Option Bo} (he : exec x (tbmBoRef b) s = some (r, s')) :
    r = s.boIsValid b ∧ s'.boList = s.boList ∧ s'.gBufMgr = s.gBufMgr := by
  simp only [tbmBoRef, exec_locked, exec_access, Option.some.injEq] at he
  cases hv : s.boIsValid b with
  | none =>
    simp only [hv, Prod.mk.injEq] at he
    obtain ⟨rfl, rfl⟩ := he
    exact ⟨rfl, rfl, rfl⟩
  | some c =>
    simp only [hv, Prod.mk.injEq] at he
    obtain ⟨rfl, rfl⟩ := he
    exact ⟨rfl, rfl, rfl⟩

theorem tbmBoSetSurface_lists {b : Option Bo} {o : Option Surface} {u : Unit}
    (he : exec x (tbmBoSetSurface b o) s = some (u, s')) :
    s'.boList = s.boList ∧ s'.gBufMgr = s.gBufMgr := by
  simp only [tbmBoSetSurface, exec_locked, exec_modify, Option.some.injEq, Prod.mk.injEq,
    true_and] at he
  cases hv : s.boIsValid b with
  | none =>
    simp only [hv] at he
    rw [← he]
    exact ⟨rfl, rfl⟩
  | some c =>
    simp only [hv] at he
    rw [← he]
    exact ⟨rfl, rfl⟩

theorem boIsValid_congr (hlist : s'.boList = s.boList) (hmgr : s'.gBufMgr = s.gBufMgr) :
    s'.boIsValid = s.boIsValid := by
  funext b
  simp only [State.boIsValid, hlist, hmgr]

/-- The loop of `create_with_bos` that comes to its end. -/
theorem refSlots_filled {bos : ℕ → Option Bo} {n : ℕ} {l l' : List (Option Bo)}
    (he : exec x (refSlots h bos n l) s = some ((true, l'), s')) :
    s'.boList = s.boList ∧ s'.gBufMgr = s.gBufMgr ∧
      (∀ i, l.length ≤ i → i < l.length + n → (bos i).isSome) ∧
      l' = l ++ (List.range' l.length n).map fun i => s.boIsValid (bos i) := by
  induction n generalizing s l with
  | zero =>
    simp only [refSlots, exec_pure, Option.some.injEq, Prod.mk.injEq, true_and] at he
    obtain ⟨rfl, rfl⟩ := he
    exact ⟨rfl, rfl, fun i h1 h2 => by omega, by simp⟩
  | succ n ih =>
    simp only [refSlots] at he
    split_ifs at he
    · cases hbos : bos l.length with
      | none => simp [hbos] at he
      | some b =>
        simp only [hbos, exec_bind] at he
        obtain ⟨⟨o, t⟩, href, he⟩ := Option.bind_eq_some_iff.mp he
        obtain ⟨⟨u, t'⟩, hset, he⟩ := Option.bind_eq_some_iff.mp he
        obtain ⟨rfl, hlist₁, hmgr₁⟩ := tbmBoRef_slot href
        obtain ⟨hlist₂, hmgr₂⟩ := tbmBoSetSurface_lists hset
        obtain ⟨hlist, hmgr, hsome, hval⟩ := ih he
        have hsame := boIsValid_congr (hlist₂.trans hlist₁) (hmgr₂.trans hmgr₁)
        rw [List.length_append, List.length_singleton] at hsome hval
        refine ⟨(hlist.trans hlist₂).trans hlist₁, (hmgr.trans hmgr₂).trans hmgr₁, ?_, ?_⟩
        · intro i h1 h2
          by_cases hi : i = l.length
          · rw [hi, hbos]
            rfl
          · exact hsome i (by omega) (by omega)
        · rw [hval, hsame, List.range'_succ, List.map_cons, hbos, List.append_assoc]
          rfl
    · simp at he

theorem importedSurfaceData_planes {m : Mgr} {info : SurfaceInfo} {num : ℤ}
    {l : List (Option Bo)} {i : ℕ} (hi : i < info.numPlanes.toNat) :
    (importedSurfaceData m info num l).info.planes i = planeOf info i := by
  simp [importedSurfaceData, planeTable, hi]

theorem importedSurfaceData_described {m : Mgr} {info : SurfaceInfo} {bos : ℕ → Option Bo}
    {num : ℤ} (hbos : ∀ i < num.toNat, (bos i).isSome) : Described s info bos num
      (importedSurfaceData m info num ((List.range num.toNat).map fun i =>
        s.boIsValid (bos i))) := by
  constructor
  case size =>
    intro hpos
    simp [importedSurfaceData, hpos]
  case total =>
    intro hzero
    have hmap : (List.range info.numPlanes.toNat).map (importedSurfaceData m info num
        ((List.range num.toNat).map fun i => s.boIsValid (bos i))).info.planes =
          (List.range info.numPlanes.toNat).map (planeOf info) :=
      List.map_congr_left fun i hi => importedSurfaceData_planes (List.mem_range.mp hi)
    rw [hmap]
    simp [importedSurfaceData, hzero]
  case offset =>
    intro i hi
    rw [importedSurfaceData_planes hi]
    rfl
  case stride =>
    intro i hi
    rw [importedSurfaceData_planes hi]
    rfl
  case planeSize =>
    intro i hi
    rw [importedSurfaceData_planes hi]
    rfl
  case planesBoIdx =>
    intro i hi
    have hle : ¬info.numPlanes.toNat ≤ i := Nat.not_le.mpr hi
    simp [importedSurfaceData, hle]
  case bos =>
    intro i hi
    refine ⟨hbos i hi, ?_⟩
    simp [importedSurfaceData, slotTable, hi]
  all_goals rfl

theorem Described.of_valid {info : SurfaceInfo} {bos : ℕ → Option Bo} {num : ℤ}
    {v : SurfaceData} (hd : Described s info bos num v) (hv : s'.boIsValid = s.boIsValid) :
    Described s' info bos num v := by
  have hbos : ∀ i < num.toNat, (bos i).isSome ∧ v.bos i = s'.boIsValid (bos i) := by
    rw [hv]
    exact hd.bos
  exact { hd with bos := hbos }

theorem createWithBos_describes {info : SurfaceInfo} {bos : ℕ → Option Bo} {num : ℤ}
    (he : exec x (tbmSurfaceInternalCreateWithBos backend (some info) (some bos) num) s =
      some (some h, s')) : h ∈ s'.surfList ∧ Described s' info bos num (s'.surface h) := by
  unfold tbmSurfaceInternalCreateWithBos at he
  simp only at he
  split_ifs at he with hnum hplanes
  · obtain ⟨i, t, m, -, -, hb⟩ := createSurface_some he
    rw [exec_bind] at hb
    obtain ⟨⟨⟨done, l⟩, t'⟩, hr, hb⟩ := Option.bind_eq_some_iff.mp hb
    obtain ⟨rfl, rfl, rfl⟩ := finishSurface_some hb
    obtain ⟨hlist, hmgr, hsome, rfl⟩ := refSlots_filled hr
    have hbos : ∀ i < num.toNat, (bos i).isSome := fun i hi =>
      hsome i (Nat.zero_le i) (by simpa using hi)
    have hmade : Described t.newSurface.2 info bos num (importedSurfaceData m info num
        ((List.range num.toNat).map fun i => t.newSurface.2.boIsValid (bos i))) :=
      importedSurfaceData_described hbos
    have hvalid := boIsValid_congr hlist hmgr
    refine ⟨List.mem_cons_self, ?_⟩
    rw [linkSurface_surface]
    simp only [List.nil_append, ← List.range_eq_range', List.length_nil]
    exact hmade.of_valid hvalid
  · obtain ⟨i, t, m, -, -, hb⟩ := createSurface_some he
    simp at hb
  · simp at he

variable {w w' : World} {t : Turn} {r : Reply}

theorem step_describes (hs : w.step backend t = some (r, w')) (hr : r = .surface (some h)) :
    h ∈ w'.state.surfList ∧ t.Describes backend w'.state h (w'.state.surface h) := by
  obtain ⟨op, x⟩ := t
  obtain ⟨⟨r', s⟩, he, hw⟩ := Option.bind_eq_some_iff.mp hs
  obtain ⟨rfl, rfl⟩ : r' = r ∧ w.settle op r' s = w' := by simpa using hw
  subst hr
  cases op with
  | surfaceCreateWithFlags width height format flags =>
    obtain ⟨v, hx, hv⟩ := exec_return he
    obtain rfl := Reply.surface.inj hv
    exact createWithFlags_describes hx
  | surfaceCreateWithBos info bos num =>
    obtain ⟨v, hx, hv⟩ := exec_return he
    obtain rfl := Reply.surface.inj hv
    cases info with
    | none =>
      exfalso
      cases bos with
      | none => simp [tbmSurfaceInternalCreateWithBos] at hx
      | some bos => simp [tbmSurfaceInternalCreateWithBos] at hx
    | some info =>
      cases bos with
      | none => simp [tbmSurfaceInternalCreateWithBos] at hx
      | some bos => exact createWithBos_describes hx
  | _ =>
    obtain ⟨v, -, hv⟩ := exec_return he
    cases hv

end Reads

section Run

variable {backend : Backend} {w : World}

/-- A surface outlives one that shares its first buffer. -/
private def sharesBuffer : List Turn :=
  [⟨.surfaceCreateWithFlags 4 6 .nv12 0, .granted 7⟩,
    ⟨.surfaceCreateWithBos (some .small) (some fun _ => some 0) 1, .granted 9⟩,
    ⟨.surfaceRef (some 0), .granted 9⟩, ⟨.boSwap (some 0) (some 1), .granted 9⟩,
    ⟨.surfaceDestroy (some 1), .granted 9⟩, ⟨.surfaceUnref (some 0), .granted 9⟩]

end Run

end Tbm.Bufmgr
