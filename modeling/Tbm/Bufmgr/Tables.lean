import Tbm.Bufmgr.Creation

/-! The tables of four entries of a surface and the loops and indices that reach them. A call that
leaves a table has no result. -/
namespace Tbm.Bufmgr

section Access

variable {α : Type}

def tableGet (t : ℕ → α) (i : ℤ) : Option α := if 0 ≤ i ∧ i < 4 then some (t i.toNat) else none

def tableSet (t : ℕ → α) (i : ℤ) (v : α) : Option (ℕ → α) :=
  if 0 ≤ i ∧ i < 4 then some (Function.update t i.toNat v) else none

theorem tableGet_of_lt (t : ℕ → α) {i : ℕ} (hi : i < 4) : tableGet t i = some (t i) := by
  have hrange : (0 : ℤ) ≤ i ∧ (i : ℤ) < 4 := by omega
  rw [tableGet, if_pos hrange, Int.toNat_natCast]

theorem tableSet_of_lt (t : ℕ → α) (v : α) {i : ℕ} (hi : i < 4) :
    tableSet t i v = some (Function.update t i v) := by
  have hrange : (0 : ℤ) ≤ i ∧ (i : ℤ) < 4 := by omega
  rw [tableSet, if_pos hrange, Int.toNat_natCast]

theorem tableSet_of_le (t : ℕ → α) (v : α) {i : ℕ} (hi : 4 ≤ i) : tableSet t i v = none := by
  have hrange : ¬((0 : ℤ) ≤ i ∧ (i : ℤ) < 4) := by omega
  rw [tableSet, if_neg hrange]

theorem tableGet_isSome (t : ℕ → α) (i : ℤ) : (tableGet t i).isSome ↔ 0 ≤ i ∧ i < 4 := by
  unfold tableGet
  by_cases hi : 0 ≤ i ∧ i < 4
  · simp [hi]
  · simp [hi]

end Access

/-- `info.planes` and `planes_bo_idx` of a surface. -/
structure PlaneTables where
  planes : ℕ → Plane
  boIdx : ℕ → ℤ

/-- The zeroed tables of `calloc`. -/
def PlaneTables.zero : PlaneTables := ⟨fun _ => ⟨0, 0, 0⟩, fun _ => 0⟩

section Creation

variable (m : Mgr)

/-- The loop of `create_with_bos` over the planes, from plane `i` on. -/
def importPlanes (info : SurfaceInfo) (num : ℤ) : ℕ → ℕ → PlaneTables → Option PlaneTables
  | 0, _, t => some t
  | n + 1, i, t => do
    let _ ← tableGet info.planes i
    let planes ← tableSet t.planes i (planeOf info i)
    let boIdx ← tableSet t.boIdx i (if num = 1 then 0 else i)
    importPlanes info num n (i + 1) ⟨planes, boIdx⟩

/-- The sum of the sizes of `n` planes from plane `i` on. -/
def sumSizes (planes : ℕ → Plane) : ℕ → ℕ → UInt32 → Option UInt32
  | 0, _, size => some size
  | n + 1, i, size => do
    let p ← tableGet planes i
    sumSizes planes n (i + 1) (size + p.size)

/-- The undo loops look at `n` slots from slot `i` on. -/
def visitSlots (slots : ℕ → Option Bo) : ℕ → ℕ → Option Unit
  | 0, _ => some ()
  | n + 1, i => do
    let _ ← tableGet slots i
    visitSlots slots n (i + 1)

/-- The loop of `create_with_bos` over the slots, which stops at NULL; `ref` is what `tbm_bo_ref`
returns. -/
def importSlots (ref : Bo → Option Bo) (bos : ℕ → Option Bo) :
    ℕ → ℕ → (ℕ → Option Bo) → Option (Bool × (ℕ → Option Bo))
  | 0, _, slots => some (true, slots)
  | n + 1, i, slots =>
    match bos i with
    | none => some (false, slots)
    | some b => do
      let slots ← tableSet slots i (ref b)
      importSlots ref bos n (i + 1) slots

/-- The size of a surface without one of its own is the sum over its planes. -/
def importedSize (info : SurfaceInfo) (planes : ℕ → Plane) : Option UInt32 :=
  if 0 < info.size then some info.size else sumSizes planes info.numPlanes.toNat 0 0

/-- `tbm_surface_internal_create_with_bos` from its guard on: the surface, or NULL. -/
def createWithBosTables (ref : Bo → Option Bo) (info : SurfaceInfo) (bos : ℕ → Option Bo)
    (num : Int32) : Option (Option SurfaceData) :=
  if num = 1 ∨ info.numPlanes = .ofInt num.toInt then do
    let t ← importPlanes info num.toInt info.numPlanes.toNat 0 .zero
    let size ← importedSize info t.planes
    let (done, slots) ← importSlots ref bos num.toInt.toNat 0 fun _ => none
    if done then
      some (some
        { bufmgr := some m
          info := { info with size := size, planes := t.planes }
          flags := 0
          numBos := num.toInt
          bos := slots
          planesBoIdx := t.boIdx
          refcnt := 1 })
    else do
      visitSlots slots num.toInt.toNat 0
      some none
  else some none

/-- The loop of `create_with_flags` that asks the backend for the planes; the inner result is
missing where the backend does not know one. -/
def queryPlanes (query : ℕ → Option PlaneAnswer) :
    ℕ → ℕ → PlaneTables → Option (Option PlaneTables)
  | 0, _, t => some (some t)
  | n + 1, i, t =>
    match query i with
    | none => some none
    | some a => do
      let planes ← tableSet t.planes i a.plane
      let boIdx ← tableSet t.boIdx i a.boIdx
      queryPlanes query n (i + 1) ⟨planes, boIdx⟩

/-- The loop that adds up the sizes and finds the number of slots. -/
def countSlots (t : PlaneTables) : ℕ → ℕ → UInt32 × ℤ → Option (UInt32 × ℤ)
  | 0, _, r => some r
  | n + 1, i, r => do
    let p ← tableGet t.planes i
    let k ← tableGet t.boIdx i
    countSlots t n (i + 1) (r.1 + p.size, if r.2 < k + 1 then k + 1 else r.2)

/-- The bytes of the planes in slot `slot`. -/
def slotSize (t : PlaneTables) (slot : ℕ) : ℕ → ℕ → UInt32 → Option UInt32
  | 0, _, size => some size
  | n + 1, j, size => do
    let k ← tableGet t.boIdx j
    let p ← tableGet t.planes j
    slotSize t slot n (j + 1) (if k = slot then size + p.size else size)

/-- The loop of `create_with_flags` over the slots: the first slot that gets nothing, if there is
one. `alloc` is what the backend or `tbm_bo_alloc` gives. -/
def fillSlots (surfaceBoAlloc : Bool) (alloc : ℕ → Option Bo) (t : PlaneTables) (planes : ℕ) :
    ℕ → ℕ → (ℕ → Option Bo) → Option (Option ℕ × (ℕ → Option Bo))
  | 0, _, slots => some (none, slots)
  | n + 1, i, slots => do
    let _ ← slotSize t i planes 0 0
    match alloc i with
    | none =>
      if surfaceBoAlloc then some (some i, slots)
      else do
        let slots ← tableSet slots i none
        some (some i, slots)
    | some b => do
      let slots ← tableSet slots i (some b)
      fillSlots surfaceBoAlloc alloc t planes n (i + 1) slots

/-- `tbm_surface_internal_create_with_flags` from where the surface is allocated on. -/
def createWithFlagsTables (surfaceBoAlloc : Bool) (query : ℕ → Option PlaneAnswer)
    (alloc : ℕ → Option Bo) (width height : ℤ) (format : Format) (flags : ℤ) :
    Option (Option SurfaceData) := do
  match ← queryPlanes query format.numPlanes.toNat 0 .zero with
  | none => some none
  | some t => do
    let (size, numBos) ← countSlots t format.numPlanes.toNat 0 (0, 1)
    match ← fillSlots surfaceBoAlloc alloc t format.numPlanes.toNat numBos.toNat 0
      fun _ => none with
    | (none, slots) =>
      some (some
        { bufmgr := some m
          info :=
            { width := .ofInt width
              height := .ofInt height
              format := format
              bpp := format.bpp
              size := size
              numPlanes := format.numPlanes
              planes := t.planes }
          flags := flags
          numBos := numBos
          bos := slots
          planesBoIdx := t.boIdx
          refcnt := 1 })
    | (some i, slots) => do
      visitSlots slots i 0
      some none

end Creation

namespace SurfaceData

variable (v : SurfaceData)

def tbmSurfaceInternalGetBo (boIdx : Int32) : Option (Option Bo) :=
  if -1 < boIdx.toInt then tableGet v.bos boIdx.toInt else some none

def tbmSurfaceInternalGetPlaneBoIdx (planeIdx : Int32) : Option ℤ :=
  if -1 < planeIdx.toInt then tableGet v.planesBoIdx planeIdx.toInt else some 0

/-- The second test compares without a sign. -/
def tbmSurfaceInternalGetPlaneData (planeIdx : Int32) : Option (Option Plane) :=
  if -1 < planeIdx.toInt then
    if v.info.numPlanes ≤ .ofInt planeIdx.toInt then some none
    else (tableGet v.info.planes planeIdx.toInt).map some
  else some none

/-- The loops of `get_info` over the slots: whether every one of `n` slots from slot `i` on has a
pointer, with `bo_handles`. A map that fails is undone. -/
def fetchHandles (map : Bool) (ptr : ℕ → Bool) :
    ℕ → ℕ → (ℕ → Bool) → Option (Bool × (ℕ → Bool))
  | 0, _, handles => some (true, handles)
  | n + 1, i, handles => do
    let _ ← tableGet v.bos i
    let handles ← tableSet handles i (ptr i)
    if ptr i then fetchHandles map ptr n (i + 1) handles
    else do
      if map then visitSlots v.bos i 0 else some ()
      some (false, handles)

/-- The loop of `get_info` over the planes, which writes the table of the caller. -/
def fetchPlanes (handles : ℕ → Bool) : ℕ → ℕ → (ℕ → Plane) → Option (ℕ → Plane)
  | 0, _, planes => some planes
  | n + 1, i, planes => do
    let p ← tableGet v.info.planes i
    let planes ← tableSet planes i p
    let k ← tableGet v.planesBoIdx i
    let _ ← tableGet handles k
    fetchPlanes handles n (i + 1) planes

/-- `ptr` is whether the backend gives a pointer for a slot. -/
def getInfoTables (map : Bool) (ptr : ℕ → Bool) : Option (Option SurfaceInfo) := do
  let (done, handles) ← v.fetchHandles map ptr v.numBos.toNat 0 fun _ => false
  if done then do
    let planes ← v.fetchPlanes handles v.info.numPlanes.toNat 0 fun _ => ⟨0, 0, 0⟩
    some (some { v.info with planes := planes })
  else some none

end SurfaceData

/-- A use of the tables. -/
inductive TableUse
  | createWithBos (ref : Bo → Option Bo) (info : SurfaceInfo) (bos : ℕ → Option Bo) (num : Int32)
  | createWithFlags (surfaceBoAlloc : Bool) (query : ℕ → Option PlaneAnswer)
    (alloc : ℕ → Option Bo) (width height : ℤ) (format : Format) (flags : ℤ)
  | getBo (v : SurfaceData) (boIdx : Int32)
  | getPlaneBoIdx (v : SurfaceData) (planeIdx : Int32)
  | getPlaneData (v : SurfaceData) (planeIdx : Int32)
  | getInfo (v : SurfaceData) (map : Bool) (ptr : ℕ → Bool)

/-- One of the two creations returns the surface. -/
def Created (v : SurfaceData) : Prop :=
  (∃ m ref info bos num, createWithBosTables m ref info bos num = some (some v)) ∨
    ∃ m surfaceBoAlloc query alloc width height format flags,
      createWithFlagsTables m surfaceBoAlloc query alloc width height format flags = some (some v)

namespace TableUse

/-- The call passes its guards, and its surface has been created. -/
def Guarded : TableUse → Prop
  | createWithBos _ info _ num => num = 1 ∨ info.numPlanes = .ofInt num.toInt
  | createWithFlags .. => True
  | getBo v i | getPlaneBoIdx v i | getPlaneData v i => Created v ∧ -1 < i.toInt
  | getInfo v _ _ => Created v

/-- No index leaves a table. -/
def InRange : TableUse → Prop
  | createWithBos ref info bos num => ∀ m, (createWithBosTables m ref info bos num).isSome
  | createWithFlags sba query alloc width height format flags =>
    ∀ m, (createWithFlagsTables m sba query alloc width height format flags).isSome
  | getBo v i => (v.tbmSurfaceInternalGetBo i).isSome
  | getPlaneBoIdx v i => (v.tbmSurfaceInternalGetPlaneBoIdx i).isSome
  | getPlaneData v i => (v.tbmSurfaceInternalGetPlaneData i).isSome
  | getInfo v map ptr => (v.getInfoTables map ptr).isSome

/-- What the guards leave out: no more than four planes, slots that the backend numbers below four
or that come after one without a buffer, and indices below four. -/
def Fits : TableUse → Prop
  | createWithBos _ info _ _ => info.numPlanes ≤ 4
  | createWithFlags sba query alloc _ _ format _ =>
    (∃ i < format.numPlanes.toNat, query i = none) ∨
      (∀ i < format.numPlanes.toNat, ∀ a ∈ query i, a.boIdx < 4) ∨
      (∃ i < 4, alloc i = none) ∨ (sba = true ∧ alloc 4 = none)
  | getBo _ i | getPlaneBoIdx _ i => i.toInt < 4
  | getPlaneData _ _ => True
  | getInfo v _ ptr => (∃ i < v.numBos.toNat, ptr i = false) ∨
    ∀ i < v.info.numPlanes.toNat, 0 ≤ v.planesBoIdx i

end TableUse

section Loops

variable {n i : ℕ}

theorem tableGet_of_le {α : Type} (t : ℕ → α) (hi : 4 ≤ i) : tableGet t i = none := by
  have hrange : ¬((0 : ℤ) ≤ i ∧ (i : ℤ) < 4) := by omega
  rw [tableGet, if_neg hrange]

theorem importPlanes_of_le (info : SurfaceInfo) (num : ℤ) (hi : i + n ≤ 4) (t : PlaneTables) :
    ∃ t', importPlanes info num n i t = some t' ∧
      (∀ j, t'.boIdx j = if i ≤ j ∧ j < i + n then (if num = 1 then 0 else ↑j)
        else t.boIdx j) ∧
      ∀ j, t'.planes j = if i ≤ j ∧ j < i + n then planeOf info j else t.planes j := by
  induction n generalizing i t with
  | zero =>
    refine ⟨t, rfl, fun j => ?_, fun j => ?_⟩
    · rw [if_neg (by omega)]
    · rw [if_neg (by omega)]
  | succ n ih =>
    have hlt : i < 4 := by omega
    let u : PlaneTables := ⟨Function.update t.planes i (planeOf info i),
      Function.update t.boIdx i (if num = 1 then 0 else i)⟩
    obtain ⟨t', he, hidx, hplanes⟩ := ih (i := i + 1) (by omega) u
    have hiff (j : ℕ) (hj : j ≠ i) : (i + 1 ≤ j ∧ j < i + 1 + n) ↔ (i ≤ j ∧ j < i + (n + 1)) := by
      omega
    refine ⟨t', ?_, fun j => ?_, fun j => ?_⟩
    · simpa [importPlanes, tableGet_of_lt _ hlt, tableSet_of_lt _ _ hlt] using he
    · rw [hidx j]
      by_cases hj : j = i
      · subst hj
        rw [if_neg (by omega), if_pos (by omega)]
        exact Function.update_self ..
      · have hsame : u.boIdx j = t.boIdx j := Function.update_of_ne hj ..
        rw [hsame]
        simp only [hiff j hj]
    · rw [hplanes j]
      by_cases hj : j = i
      · subst hj
        rw [if_neg (by omega), if_pos (by omega)]
        exact Function.update_self ..
      · have hsame : u.planes j = t.planes j := Function.update_of_ne hj ..
        rw [hsame]
        simp only [hiff j hj]

theorem importPlanes_of_lt (info : SurfaceInfo) (num : ℤ) (hn : n ≠ 0) (hi : 4 < i + n)
    (t : PlaneTables) : importPlanes info num n i t = none := by
  induction n generalizing i t with
  | zero => exact absurd rfl hn
  | succ n ih =>
    by_cases hlt : i < 4
    · have hn' : n ≠ 0 := by omega
      simp [importPlanes, tableGet_of_lt _ hlt, tableSet_of_lt _ _ hlt,
        ih hn' (i := i + 1) (by omega)]
    · simp [importPlanes, tableGet_of_le _ (Nat.le_of_not_lt hlt)]

theorem sumSizes_of_le (planes : ℕ → Plane) (hi : i + n ≤ 4) (size : UInt32) :
    sumSizes planes n i size =
      some (((List.range' i n).map planes).foldl (fun size p => size + p.size) size) := by
  induction n generalizing i size with
  | zero => rfl
  | succ n ih =>
    have hrest := ih (i := i + 1) (by omega) (size + (planes i).size)
    simpa [sumSizes, tableGet_of_lt _ (show i < 4 by omega), List.range'_succ] using hrest

theorem importedSize_of_le {info : SurfaceInfo} (hn : info.numPlanes.toNat ≤ 4)
    (planes : ℕ → Plane) : importedSize info planes = some (if 0 < info.size then info.size
      else sizeOf ((List.range info.numPlanes.toNat).map planes)) := by
  unfold importedSize
  by_cases h0 : 0 < info.size
  · rw [if_pos h0, if_pos h0]
  · rw [if_neg h0, if_neg h0, sumSizes_of_le planes (by omega), ← List.range_eq_range']
    rfl

theorem visitSlots_of_le (slots : ℕ → Option Bo) (hi : i + n ≤ 4) :
    visitSlots slots n i = some () := by
  induction n generalizing i with
  | zero => rfl
  | succ n ih =>
    simp [visitSlots, tableGet_of_lt _ (show i < 4 by omega), ih (i := i + 1) (by omega)]

theorem importSlots_full (ref : Bo → Option Bo) (bos : ℕ → Option Bo) (hi : i + n ≤ 4)
    (hb : ∀ j, i ≤ j → j < i + n → (bos j).isSome) (slots : ℕ → Option Bo) :
    ∃ slots', importSlots ref bos n i slots = some (true, slots') ∧
      ∀ j, slots' j = if i ≤ j ∧ j < i + n then (bos j).bind ref else slots j := by
  induction n generalizing i slots with
  | zero =>
    refine ⟨slots, rfl, fun j => ?_⟩
    rw [if_neg (by omega)]
  | succ n ih =>
    have hlt : i < 4 := by omega
    obtain ⟨b, hbi⟩ := Option.isSome_iff_exists.mp (hb i (by omega) (by omega))
    obtain ⟨slots', he, hval⟩ := ih (i := i + 1) (by omega)
      (fun j h1 h2 => hb j (by omega) (by omega)) (Function.update slots i (ref b))
    refine ⟨slots', ?_, fun j => ?_⟩
    · simpa [importSlots, hbi, tableSet_of_lt _ _ hlt] using he
    · rw [hval j]
      by_cases hj : j = i
      · subst hj
        rw [if_neg (by omega), if_pos (by omega), hbi]
        exact Function.update_self ..
      · have hiff : (i + 1 ≤ j ∧ j < i + 1 + n) ↔ (i ≤ j ∧ j < i + (n + 1)) := by omega
        rw [Function.update_of_ne hj]
        simp only [hiff]

theorem importSlots_of_le (ref : Bo → Option Bo) (bos : ℕ → Option Bo) (hi : i + n ≤ 4)
    (slots : ℕ → Option Bo) : ∃ r, importSlots ref bos n i slots = some r := by
  induction n generalizing i slots with
  | zero => exact ⟨_, rfl⟩
  | succ n ih =>
    cases hb : bos i with
    | none => exact ⟨_, by rw [importSlots, hb]⟩
    | some b =>
      obtain ⟨r, he⟩ := ih (i := i + 1) (by omega) (Function.update slots i (ref b))
      exact ⟨r, by simpa [importSlots, hb, tableSet_of_lt _ _ (show i < 4 by omega)] using he⟩

/-- The backend does not know a plane, or the tables hold what it says. -/
theorem queryPlanes_of_le (query : ℕ → Option PlaneAnswer) (hi : i + n ≤ 4) (t : PlaneTables) :
    (queryPlanes query n i t = some none ∧ ∃ j, i ≤ j ∧ j < i + n ∧ query j = none) ∨
      ∃ t', queryPlanes query n i t = some (some t') ∧
        (∀ j, j < i → t'.boIdx j = t.boIdx j) ∧
        ∀ j, i ≤ j → j < i + n → ∃ a, query j = some a ∧ t'.boIdx j = a.boIdx := by
  induction n generalizing i t with
  | zero =>
    refine .inr ⟨t, rfl, fun _ _ => rfl, fun j h1 h2 => ?_⟩
    omega
  | succ n ih =>
    have hlt : i < 4 := by omega
    cases hq : query i with
    | none => exact .inl ⟨by rw [queryPlanes, hq], i, by omega, by omega, hq⟩
    | some a =>
      let u : PlaneTables := ⟨Function.update t.planes i a.plane,
        Function.update t.boIdx i a.boIdx⟩
      have hstep : queryPlanes query (n + 1) i t = queryPlanes query n (i + 1) u := by
        simp [queryPlanes, hq, tableSet_of_lt _ _ hlt, u]
      rw [hstep]
      rcases ih (i := i + 1) (by omega) u with ⟨he, j, h1, h2, hj⟩ | ⟨t', he, hlow, hidx⟩
      · exact .inl ⟨he, j, by omega, by omega, hj⟩
      · refine .inr ⟨t', he, fun j hj => ?_, fun j h1 h2 => ?_⟩
        · rw [hlow j (by omega)]
          exact Function.update_of_ne (by omega) ..
        · by_cases hj : j = i
          · subst hj
            refine ⟨a, hq, ?_⟩
            rw [hlow j (by omega)]
            exact Function.update_self ..
          · exact hidx j (by omega) (by omega)

/-- The number of slots is the least bound of the indices. -/
theorem countSlots_of_le (t : PlaneTables) (hi : i + n ≤ 4) (r : UInt32 × ℤ) :
    ∃ r', countSlots t n i r = some r' ∧
      ∀ c, r'.2 ≤ c ↔ r.2 ≤ c ∧ ∀ j, i ≤ j → j < i + n → t.boIdx j < c := by
  induction n generalizing i r with
  | zero =>
    refine ⟨r, rfl, fun c => ?_⟩
    constructor
    · intro h
      exact ⟨h, fun j h1 h2 => by omega⟩
    · exact fun h => h.1
  | succ n ih =>
    have hlt : i < 4 := by omega
    let u : UInt32 × ℤ := (r.1 + (t.planes i).size,
      if r.2 < t.boIdx i + 1 then t.boIdx i + 1 else r.2)
    obtain ⟨r', he, hle⟩ := ih (i := i + 1) (by omega) u
    refine ⟨r', ?_, fun c => ?_⟩
    · rw [countSlots, tableGet_of_lt _ hlt, tableGet_of_lt _ hlt]
      exact he
    · have hu : u.2 ≤ c ↔ r.2 ≤ c ∧ t.boIdx i < c := by
        by_cases h : r.2 < t.boIdx i + 1
        · have hmax : u.2 = t.boIdx i + 1 := if_pos h
          omega
        · have hmax : u.2 = r.2 := if_neg h
          omega
      rw [hle c, hu]
      constructor
      · rintro ⟨⟨h1, h2⟩, h3⟩
        refine ⟨h1, fun j hj1 hj2 => ?_⟩
        by_cases hj : j = i
        · rw [hj]
          exact h2
        · exact h3 j (by omega) (by omega)
      · rintro ⟨h1, h2⟩
        exact ⟨⟨h1, h2 i (by omega) (by omega)⟩, fun j hj1 hj2 => h2 j (by omega) (by omega)⟩

theorem slotSize_of_le (t : PlaneTables) (slot : ℕ) (hi : i + n ≤ 4) (size : UInt32) :
    ∃ r, slotSize t slot n i size = some r := by
  induction n generalizing i size with
  | zero => exact ⟨size, rfl⟩
  | succ n ih =>
    have hlt : i < 4 := by omega
    obtain ⟨r, he⟩ := ih (i := i + 1) (by omega)
      (if t.boIdx i = slot then size + (t.planes i).size else size)
    exact ⟨r, by simpa [slotSize, tableGet_of_lt _ hlt] using he⟩

section Slots

variable {sba : Bool} {alloc : ℕ → Option Bo} {t : PlaneTables} {planes : ℕ}
  {slots : ℕ → Option Bo}

theorem fillSlots_succ (hp : planes ≤ 4) : fillSlots sba alloc t planes (n + 1) i slots =
    match alloc i with
    | none => if sba then some (some i, slots)
      else (tableSet slots i none).map fun slots => (some i, slots)
    | some b => (tableSet slots i (some b)).bind
        (fillSlots sba alloc t planes n (i + 1)) := by
  obtain ⟨r, hr⟩ := slotSize_of_le (i := 0) t i (show 0 + planes ≤ 4 by omega) 0
  rw [fillSlots, hr]
  cases alloc i with
  | none =>
    cases sba with
    | true => rfl
    | false => cases tableSet slots i none <;> rfl
  | some b => rfl

theorem fillSlots_isSome (hp : planes ≤ 4) (hi : i ≤ 4) (slots : ℕ → Option Bo) :
    (fillSlots sba alloc t planes n i slots).isSome ↔
      i + n ≤ 4 ∨ (∃ j, i ≤ j ∧ j < 4 ∧ alloc j = none) ∨ (sba = true ∧ alloc 4 = none) := by
  induction n generalizing i slots with
  | zero =>
    simp [fillSlots, hi]
  | succ n ih =>
    rw [fillSlots_succ hp]
    by_cases hlt : i < 4
    · cases ha : alloc i with
      | none =>
        have hex : ∃ j, i ≤ j ∧ j < 4 ∧ alloc j = none := ⟨i, by omega, hlt, ha⟩
        cases sba <;> simp [tableSet_of_lt _ _ hlt, hex]
      | some b =>
        have hrest := ih (i := i + 1) (by omega) (Function.update slots i (some b))
        have hex : (∃ j, i + 1 ≤ j ∧ j < 4 ∧ alloc j = none) ↔
            ∃ j, i ≤ j ∧ j < 4 ∧ alloc j = none := by
          constructor
          · rintro ⟨j, h1, h2, h3⟩
            exact ⟨j, by omega, h2, h3⟩
          · rintro ⟨j, h1, h2, h3⟩
            refine ⟨j, ?_, h2, h3⟩
            by_contra hj
            obtain rfl : j = i := by omega
            exact absurd (ha.symm.trans h3) (by simp)
        have hsum : i + 1 + n ≤ 4 ↔ i + (n + 1) ≤ 4 := by omega
        rw [hex, hsum] at hrest
        simpa [tableSet_of_lt _ _ hlt] using hrest
    · obtain rfl : i = 4 := by omega
      have hlong : ¬4 + (n + 1) ≤ 4 := by omega
      have hex : ¬∃ j, 4 ≤ j ∧ j < 4 ∧ alloc j = none := by
        rintro ⟨j, h1, h2, -⟩
        omega
      have hfull (v : Option Bo) : tableSet slots 4 v = none :=
        tableSet_of_le (i := 4) slots v (Nat.le_refl 4)
      cases ha : alloc 4 with
      | none => cases sba <;> simp [hfull, hlong, hex]
      | some b => simp [hfull, hlong, hex]

/-- Where the loop stops: past the last slot of the table, or at a slot without a buffer. -/
theorem fillSlots_stop (hp : planes ≤ 4) (hi : i ≤ 4) {r : Option ℕ × (ℕ → Option Bo)}
    (he : fillSlots sba alloc t planes n i slots = some r) :
    (r.1 = none → i + n ≤ 4) ∧ ∀ k ∈ r.1, k ≤ 4 := by
  induction n generalizing i slots with
  | zero =>
    obtain rfl := Option.some.inj he
    exact ⟨fun _ => hi, nofun⟩
  | succ n ih =>
    rw [fillSlots_succ hp] at he
    cases ha : alloc i with
    | none =>
      have hstop : r.1 = some i := by
        cases sba with
        | true => simp [ha] at he; rw [← he]
        | false =>
          simp only [ha, Bool.false_eq_true, if_false, Option.map_eq_some_iff] at he
          obtain ⟨slots', -, he⟩ := he
          rw [← he]
      rw [hstop]
      refine ⟨nofun, fun k hk => ?_⟩
      obtain rfl := Option.some.inj hk
      exact hi
    | some b =>
      simp only [ha] at he
      obtain ⟨slots', hs, he⟩ := Option.bind_eq_some_iff.mp he
      have hlt : i < 4 := by
        by_contra hge
        rw [tableSet_of_le _ _ (Nat.le_of_not_lt hge)] at hs
        exact absurd hs (by simp)
      obtain ⟨h1, h2⟩ := ih (by omega) he
      refine ⟨fun h => ?_, h2⟩
      have := h1 h
      omega

end Slots

theorem SurfaceData.fetchHandles_of_le (v : SurfaceData) (map : Bool) (ptr : ℕ → Bool)
    (hi : i + n ≤ 4) (handles : ℕ → Bool) :
    ∃ r, v.fetchHandles map ptr n i handles = some r ∧
      (r.1 = true ↔ ∀ j, i ≤ j → j < i + n → ptr j = true) := by
  induction n generalizing i handles with
  | zero =>
    refine ⟨(true, handles), rfl, ?_⟩
    constructor
    · intro _ j h1 h2
      omega
    · intro _
      rfl
  | succ n ih =>
    have hlt : i < 4 := by omega
    cases hp : ptr i with
    | true =>
      obtain ⟨r, he, hr⟩ := ih (i := i + 1) (by omega) (Function.update handles i true)
      refine ⟨r, ?_, ?_⟩
      · simpa [SurfaceData.fetchHandles, tableGet_of_lt _ hlt, tableSet_of_lt _ _ hlt, hp] using he
      · rw [hr]
        constructor
        · intro h j h1 h2
          by_cases hj : j = i
          · rw [hj]
            exact hp
          · exact h j (by omega) (by omega)
        · exact fun h j h1 h2 => h j (by omega) (by omega)
    | false =>
      have hundo : visitSlots v.bos i 0 = some () := visitSlots_of_le _ (by omega)
      refine ⟨(false, Function.update handles i false), ?_, ?_⟩
      · cases map <;> simp [SurfaceData.fetchHandles, tableGet_of_lt _ hlt,
          tableSet_of_lt _ _ hlt, hp, hundo]
      · constructor
        · exact fun h => absurd h Bool.false_ne_true
        · intro h
          rw [h i (by omega) (by omega)] at hp
          exact absurd hp (by simp)

theorem SurfaceData.fetchPlanes_isSome (v : SurfaceData) (handles : ℕ → Bool) (hi : i + n ≤ 4)
    (planes : ℕ → Plane) : (v.fetchPlanes handles n i planes).isSome ↔
      ∀ j, i ≤ j → j < i + n → 0 ≤ v.planesBoIdx j ∧ v.planesBoIdx j < 4 := by
  induction n generalizing i planes with
  | zero =>
    constructor
    · intro _ j h1 h2
      omega
    · intro _
      rfl
  | succ n ih =>
    have hlt : i < 4 := by omega
    have hrest := ih (i := i + 1) (by omega) (Function.update planes i (v.info.planes i))
    have hstep : (v.fetchPlanes handles (n + 1) i planes).isSome ↔
        (tableGet handles (v.planesBoIdx i)).isSome ∧ (v.fetchPlanes handles n (i + 1)
          (Function.update planes i (v.info.planes i))).isSome := by
      rw [SurfaceData.fetchPlanes]
      simp only [tableGet_of_lt _ hlt, tableSet_of_lt _ _ hlt, Option.bind_eq_bind,
        Option.bind_some]
      cases tableGet handles (v.planesBoIdx i) <;> simp
    rw [hstep, tableGet_isSome, hrest]
    constructor
    · rintro ⟨h1, h2⟩ j hj1 hj2
      by_cases hj : j = i
      · rw [hj]
        exact h1
      · exact h2 j (by omega) (by omega)
    · intro h
      exact ⟨h i (by omega) (by omega), fun j hj1 hj2 => h j (by omega) (by omega)⟩

end Loops

theorem Format.numPlanes_le (format : Format) : format.numPlanes.toNat ≤ 3 := by
  cases format with
  | other => exact Nat.zero_le 3
  | _ => decide

section Calls

theorem ofInt_toNat (i : ℤ) : (UInt32.ofInt i).toNat = (i % 2 ^ 32).toNat := by
  simp only [UInt32.ofInt, UInt32.toNat_ofNat']
  omega

/-- An `int` that passes for a small number without a sign. -/
theorem toNat_le_of_guard {num : Int32} {k : UInt32} (hk : k ≤ 4)
    (h : num = 1 ∨ k = .ofInt num.toInt) : num.toInt.toNat ≤ 4 := by
  rcases h with rfl | h
  · decide
  · have hk' : k.toNat ≤ 4 := UInt32.le_iff_toNat_le.mp hk
    have hlow := Int32.le_toInt num
    have hhigh := Int32.toInt_lt num
    rw [h, ofInt_toNat] at hk'
    omega

theorem slotTable_range (f : ℕ → Option Bo) (n i : ℕ) :
    slotTable ((List.range n).map f) i = if i < n then f i else none := by
  unfold slotTable
  by_cases hi : i < n
  · simp [hi]
  · simp [hi]

theorem planeTable_range (f : ℕ → Plane) (n i : ℕ) :
    planeTable ((List.range n).map f) i = if i < n then f i else ⟨0, 0, 0⟩ := by
  unfold planeTable
  by_cases hi : i < n
  · simp [hi]
  · simp [hi]

variable {m : Mgr} {v : SurfaceData}

section WithBos

variable {ref : Bo → Option Bo} {info : SurfaceInfo} {bos : ℕ → Option Bo} {num : Int32}

theorem createWithBosTables_isSome (m : Mgr) (ref : Bo → Option Bo) (bos : ℕ → Option Bo)
    (h : num = 1 ∨ info.numPlanes = .ofInt num.toInt) :
    (createWithBosTables m ref info bos num).isSome ↔ info.numPlanes ≤ 4 := by
  rw [UInt32.le_iff_toNat_le]
  change _ ↔ info.numPlanes.toNat ≤ 4
  unfold createWithBosTables
  rw [if_pos h]
  constructor
  · intro hs
    by_contra hlt
    have hnone := importPlanes_of_lt info num.toInt (i := 0)
      (show info.numPlanes.toNat ≠ 0 by omega) (by omega) .zero
    rw [hnone] at hs
    exact absurd hs (by simp)
  · intro hle
    have hnum : num.toInt.toNat ≤ 4 := toNat_le_of_guard (UInt32.le_iff_toNat_le.mpr hle) h
    obtain ⟨t, ht, -⟩ := importPlanes_of_le info num.toInt (i := 0)
      (show 0 + info.numPlanes.toNat ≤ 4 by omega) .zero
    have hsize := importedSize_of_le hle t.planes
    obtain ⟨⟨done, slots⟩, hslots⟩ := importSlots_of_le ref bos (i := 0)
      (show 0 + num.toInt.toNat ≤ 4 by omega) fun _ => none
    have hundo := visitSlots_of_le slots (i := 0) (show 0 + num.toInt.toNat ≤ 4 by omega)
    rw [ht]
    cases done <;> simp only [hsize, hslots, hundo, if_true, if_false, Option.bind_eq_bind,
      Option.bind_some, Option.isSome_some, Bool.false_eq_true]

/-- In range and without a NULL the tables are those of the surface the creation links. -/
theorem createWithBosTables_eq (h : num = 1 ∨ info.numPlanes = .ofInt num.toInt)
    (hn : info.numPlanes ≤ 4) (hb : ∀ i < num.toInt.toNat, (bos i).isSome) :
    createWithBosTables m ref info bos num = some (some (importedSurfaceData m info num.toInt
      ((List.range num.toInt.toNat).map fun i => (bos i).bind ref))) := by
  have hle : info.numPlanes.toNat ≤ 4 := UInt32.le_iff_toNat_le.mp hn
  have hnum : num.toInt.toNat ≤ 4 := toNat_le_of_guard hn h
  obtain ⟨t, ht, hidx, hplanes⟩ := importPlanes_of_le info num.toInt (i := 0)
    (show 0 + info.numPlanes.toNat ≤ 4 by omega) .zero
  obtain ⟨slots, hslots, hval⟩ := importSlots_full ref bos (i := 0)
    (show 0 + num.toInt.toNat ≤ 4 by omega) (fun j _ hj => hb j (by omega)) fun _ => none
  have hsize := importedSize_of_le hle t.planes
  have hplane (i : ℕ) (hi : i < info.numPlanes.toNat) : t.planes i = planeOf info i := by
    rw [hplanes i, if_pos (by omega)]
  have hlist : (List.range info.numPlanes.toNat).map t.planes =
      (List.range info.numPlanes.toNat).map (planeOf info) := by
    refine List.map_congr_left fun i hi => hplane i (List.mem_range.mp hi)
  have htable : t.planes =
      planeTable ((List.range info.numPlanes.toNat).map (planeOf info)) := by
    funext i
    rw [planeTable_range, hplanes i]
    simp only [Nat.zero_le, true_and, Nat.zero_add]
    rfl
  have hbo : t.boIdx = fun i => if num.toInt = 1 ∨ info.numPlanes.toNat ≤ i then 0 else ↑i := by
    funext i
    rw [hidx i]
    by_cases hi : i < info.numPlanes.toNat
    · have hout : ¬info.numPlanes.toNat ≤ i := by omega
      simp [hi, hout]
    · have hout : info.numPlanes.toNat ≤ i := by omega
      simp [hi, hout, PlaneTables.zero]
  have hslot : slots = slotTable ((List.range num.toInt.toNat).map fun i => (bos i).bind ref) := by
    funext i
    rw [slotTable_range, hval i]
    simp only [Nat.zero_le, true_and, Nat.zero_add]
  rw [hlist] at hsize
  unfold createWithBosTables importedSurfaceData
  rw [if_pos h, ht]
  simp only [Option.bind_eq_bind, Option.bind_some, hsize, hslots, if_true]
  rw [htable, hbo, hslot]

theorem createWithBosTables_created
    (he : createWithBosTables m ref info bos num = some (some v)) :
    v.info.numPlanes.toNat ≤ 4 ∧ v.numBos.toNat ≤ 4 ∧
      ∀ i < v.info.numPlanes.toNat, v.planesBoIdx i < 4 := by
  by_cases h : num = 1 ∨ info.numPlanes = .ofInt num.toInt
  · have hle : info.numPlanes ≤ 4 := by
      rw [← createWithBosTables_isSome m ref bos h, he]
      rfl
    have hle' : info.numPlanes.toNat ≤ 4 := UInt32.le_iff_toNat_le.mp hle
    obtain ⟨t, ht, hidx, -⟩ := importPlanes_of_le info num.toInt (i := 0)
      (show 0 + info.numPlanes.toNat ≤ 4 by omega) .zero
    unfold createWithBosTables at he
    rw [if_pos h, ht] at he
    simp only [Option.bind_eq_bind, Option.bind_some] at he
    obtain ⟨size, -, he⟩ := Option.bind_eq_some_iff.mp he
    obtain ⟨⟨done, slots⟩, -, he⟩ := Option.bind_eq_some_iff.mp he
    cases done with
    | false =>
      obtain ⟨-, -, he⟩ := Option.bind_eq_some_iff.mp he
      exact absurd he (by simp)
    | true =>
      obtain rfl := Option.some.inj (Option.some.inj he)
      refine ⟨hle', toNat_le_of_guard hle h, fun i hi => ?_⟩
      have hi' : i < info.numPlanes.toNat := hi
      show t.boIdx i < 4
      rw [hidx i, if_pos (by omega)]
      by_cases h1 : num.toInt = 1
      · rw [if_pos h1]
        decide
      · rw [if_neg h1]
        omega
  · rw [createWithBosTables, if_neg h] at he
    exact absurd he (by simp)

end WithBos

section WithFlags

variable {sba : Bool} {query : ℕ → Option PlaneAnswer} {alloc : ℕ → Option Bo}
  {width height flags : ℤ} {format : Format}

theorem createWithFlagsTables_isSome :
    (createWithFlagsTables m sba query alloc width height format flags).isSome ↔
      (∃ i < format.numPlanes.toNat, query i = none) ∨
        (∀ i < format.numPlanes.toNat, ∀ a ∈ query i, a.boIdx < 4) ∨
        (∃ i < 4, alloc i = none) ∨ (sba = true ∧ alloc 4 = none) := by
  have hn := format.numPlanes_le
  have hle : 0 + format.numPlanes.toNat ≤ 4 := by omega
  unfold createWithFlagsTables
  rcases queryPlanes_of_le query hle .zero with ⟨hq, j, -, hj, hnone⟩ | ⟨t, hq, -, hidx⟩
  · rw [hq]
    have hex : ∃ i < format.numPlanes.toNat, query i = none := ⟨j, by omega, hnone⟩
    simp [hex]
  · obtain ⟨⟨size, numBos⟩, hc, hbound⟩ := countSlots_of_le t hle (0, 1)
    have hall : ¬∃ i < format.numPlanes.toNat, query i = none := by
      rintro ⟨i, hi, hnone⟩
      obtain ⟨a, ha, -⟩ := hidx i (Nat.zero_le i) (by omega)
      exact absurd (ha.symm.trans hnone) (by simp)
    have hsmall : 0 + numBos.toNat ≤ 4 ↔
        ∀ i < format.numPlanes.toNat, ∀ a ∈ query i, a.boIdx < 4 := by
      have hb := hbound 4
      have hcast : 0 + numBos.toNat ≤ 4 ↔ numBos ≤ 4 := by omega
      rw [hcast]
      refine hb.trans ⟨fun h i hi a ha => ?_, fun h => ⟨by decide, fun i _ hi => ?_⟩⟩
      · obtain ⟨a', ha', he⟩ := hidx i (Nat.zero_le i) (by omega)
        obtain rfl : a' = a := Option.some.inj (ha'.symm.trans ha)
        rw [← he]
        exact h.2 i (Nat.zero_le i) (by omega)
      · obtain ⟨a, ha, he⟩ := hidx i (Nat.zero_le i) hi
        rw [he]
        exact h i (by omega) a ha
    have hplanes : format.numPlanes.toNat ≤ 4 := by omega
    have hfill : (fillSlots sba alloc t format.numPlanes.toNat numBos.toNat 0
        fun _ => none).isSome ↔ _ := fillSlots_isSome hplanes (Nat.zero_le 4) _
    rw [hsmall] at hfill
    simp only [Nat.zero_le, true_and] at hfill
    rw [or_iff_right hall, ← hfill, hq]
    simp only [Option.bind_eq_bind, Option.bind_some, hc]
    cases hf : fillSlots sba alloc t format.numPlanes.toNat numBos.toNat 0 fun _ => none with
    | none => simp
    | some r =>
      obtain ⟨stop, slots⟩ := r
      cases stop with
      | none => simp
      | some k =>
        have hk : k ≤ 4 := (fillSlots_stop (by omega) (Nat.zero_le 4) hf).2 k rfl
        have hundo := visitSlots_of_le slots (i := 0) (show 0 + k ≤ 4 by omega)
        simp [hundo]

theorem createWithFlagsTables_created
    (he : createWithFlagsTables m sba query alloc width height format flags = some (some v)) :
    v.info.numPlanes.toNat ≤ 4 ∧ v.numBos.toNat ≤ 4 ∧
      ∀ i < v.info.numPlanes.toNat, v.planesBoIdx i < 4 := by
  have hn := format.numPlanes_le
  have hle : 0 + format.numPlanes.toNat ≤ 4 := by omega
  unfold createWithFlagsTables at he
  rcases queryPlanes_of_le query hle .zero with ⟨hq, -⟩ | ⟨t, hq, -, -⟩
  · rw [hq] at he
    exact absurd he (by simp)
  · obtain ⟨⟨size, numBos⟩, hc, hbound⟩ := countSlots_of_le t hle (0, 1)
    rw [hq] at he
    simp only [Option.bind_eq_bind, Option.bind_some, hc] at he
    obtain ⟨⟨stop, slots⟩, hf, he⟩ := Option.bind_eq_some_iff.mp he
    cases stop with
    | some k =>
      obtain ⟨-, -, he⟩ := Option.bind_eq_some_iff.mp he
      exact absurd he (by simp)
    | none =>
      obtain rfl := Option.some.inj (Option.some.inj he)
      have hnum := (fillSlots_stop (show format.numPlanes.toNat ≤ 4 by omega)
        (Nat.zero_le 4) hf).1 rfl
      refine ⟨?_, ?_, fun i hi => ?_⟩
      · show format.numPlanes.toNat ≤ 4
        omega
      · show numBos.toNat ≤ 4
        omega
      · have hi' : i < format.numPlanes.toNat := hi
        have hidx := ((hbound numBos).mp (Int.le_refl _)).2 i (Nat.zero_le i) (by omega)
        show t.boIdx i < 4
        omega

end WithFlags

/-- The tables of a surface that has been created. -/
theorem Created.bounds (h : Created v) : v.info.numPlanes.toNat ≤ 4 ∧ v.numBos.toNat ≤ 4 ∧
    ∀ i < v.info.numPlanes.toNat, v.planesBoIdx i < 4 := by
  rcases h with ⟨m, ref, info, bos, num, he⟩ | ⟨m, sba, query, alloc, width, height, format,
    flags, he⟩
  · exact createWithBosTables_created he
  · exact createWithFlagsTables_created he

theorem getInfoTables_isSome (h : Created v) (map : Bool) (ptr : ℕ → Bool) :
    (v.getInfoTables map ptr).isSome ↔ (∃ i < v.numBos.toNat, ptr i = false) ∨
      ∀ i < v.info.numPlanes.toNat, 0 ≤ v.planesBoIdx i := by
  obtain ⟨hplanes, hbos, hidx⟩ := h.bounds
  obtain ⟨⟨done, handles⟩, he, hdone⟩ := v.fetchHandles_of_le map ptr
    (show 0 + v.numBos.toNat ≤ 4 by omega) fun _ => false
  unfold SurfaceData.getInfoTables
  rw [he]
  cases done with
  | false =>
    have hex : ∃ i < v.numBos.toNat, ptr i = false := by
      by_contra hall
      have hfalse : false = true := by
        refine hdone.mpr fun j _ hj => ?_
        cases hp : ptr j with
        | true => rfl
        | false => exact absurd ⟨j, by omega, hp⟩ hall
      exact Bool.false_ne_true hfalse
    constructor
    · exact fun _ => .inl hex
    · exact fun _ => rfl
  | true =>
    have hall : ¬∃ i < v.numBos.toNat, ptr i = false := by
      rintro ⟨i, hi, hp⟩
      rw [hdone.mp rfl i (Nat.zero_le i) (by omega)] at hp
      exact absurd hp (by simp)
    have hf := v.fetchPlanes_isSome handles (show 0 + v.info.numPlanes.toNat ≤ 4 by omega)
      fun _ => ⟨0, 0, 0⟩
    rw [or_iff_right hall]
    simp only [Option.bind_eq_bind, Option.bind_some, if_true, Option.isSome_bind,
      Option.isSome_some, Option.any_true]
    rw [hf]
    constructor
    · intro hr i hi
      exact (hr i (Nat.zero_le i) (by omega)).1
    · intro hr i _ hi
      exact ⟨hr i (by omega), hidx i (by omega)⟩

/-- An index that is not negative and passes the test against the number of planes. -/
theorem getPlaneData_isSome (h : Created v) (i : Int32) :
    (v.tbmSurfaceInternalGetPlaneData i).isSome := by
  have hplanes := h.bounds.1
  have hhigh := Int32.toInt_lt i
  unfold SurfaceData.tbmSurfaceInternalGetPlaneData
  by_cases hneg : -1 < i.toInt
  · rw [if_pos hneg]
    by_cases hn : v.info.numPlanes ≤ .ofInt i.toInt
    · rw [if_pos hn]
      rfl
    · rw [if_neg hn, Option.isSome_map, tableGet_isSome]
      rw [UInt32.le_iff_toNat_le, ofInt_toNat] at hn
      omega
  · rw [if_neg hneg]
    rfl

/-- The guards keep a call inside the tables of four entries just if it fits without them. -/
theorem tables_in_range (use : TableUse) (h : use.Guarded) : use.InRange ↔ use.Fits := by
  cases use with
  | createWithBos ref info bos num =>
    constructor
    · exact fun hr => (createWithBosTables_isSome _ _ _ h).mp (hr 0)
    · exact fun hf _ => (createWithBosTables_isSome _ _ _ h).mpr hf
  | createWithFlags sba query alloc width height format flags =>
    constructor
    · exact fun hr => createWithFlagsTables_isSome.mp (hr 0)
    · exact fun hf _ => createWithFlagsTables_isSome.mpr hf
  | getBo v i =>
    have hget : (v.tbmSurfaceInternalGetBo i).isSome ↔ 0 ≤ i.toInt ∧ i.toInt < 4 := by
      rw [SurfaceData.tbmSurfaceInternalGetBo, if_pos h.2, tableGet_isSome]
    have hneg : -1 < i.toInt := h.2
    show (v.tbmSurfaceInternalGetBo i).isSome ↔ i.toInt < 4
    rw [hget]
    omega
  | getPlaneBoIdx v i =>
    have hget : (v.tbmSurfaceInternalGetPlaneBoIdx i).isSome ↔ 0 ≤ i.toInt ∧ i.toInt < 4 := by
      rw [SurfaceData.tbmSurfaceInternalGetPlaneBoIdx, if_pos h.2, tableGet_isSome]
    have hneg : -1 < i.toInt := h.2
    show (v.tbmSurfaceInternalGetPlaneBoIdx i).isSome ↔ i.toInt < 4
    rw [hget]
    omega
  | getPlaneData v i =>
    constructor
    · exact fun _ => trivial
    · exact fun _ => getPlaneData_isSome h.1 i
  | getInfo v map ptr => exact getInfoTables_isSome h map ptr

section Program

open Prog

variable {backend : Backend} {x : Answers} {s s' : State} {h : Surface} {ps : List PlaneAnswer}
  {width height flags : ℤ} {format : Format}

/-- The tables with the first entries `ps`. -/
def PlaneTables.ofList (ps : List PlaneAnswer) : PlaneTables :=
  ⟨planeTable (ps.map (·.plane)), fun i => (ps[i]?.map (·.boIdx)).getD 0⟩

theorem getElem?_append_one {α : Type} (l : List α) (a : α) (i : ℕ) :
    (l ++ [a])[i]? = if i = l.length then some a else l[i]? := by
  by_cases hi : i = l.length
  · rw [if_pos hi, hi, List.getElem?_concat_length]
  · rw [if_neg hi, List.getElem?_append]
    split_ifs with hlt
    · rfl
    · rw [List.getElem?_eq_none (by simp; omega), List.getElem?_eq_none (by omega)]

theorem slotTable_append (l : List (Option Bo)) (b : Option Bo) :
    slotTable (l ++ [b]) = Function.update (slotTable l) l.length b := by
  funext i
  rw [slotTable, getElem?_append_one, Function.update_apply]
  split_ifs
  · rfl
  · rfl

theorem PlaneTables.ofList_append (ps : List PlaneAnswer) (a : PlaneAnswer) :
    PlaneTables.ofList (ps ++ [a]) =
      ⟨Function.update (PlaneTables.ofList ps).planes ps.length a.plane,
        Function.update (PlaneTables.ofList ps).boIdx ps.length a.boIdx⟩ := by
  rw [PlaneTables.ofList, PlaneTables.mk.injEq]
  constructor
  · funext i
    rw [planeTable, List.getElem?_map, getElem?_append_one, Function.update_apply]
    split_ifs
    · rfl
    · simp [PlaneTables.ofList, planeTable]
  · funext i
    rw [getElem?_append_one, Function.update_apply]
    split_ifs
    · rfl
    · rfl

/-- The loop over the planes writes down what the backend says. -/
theorem queryPlanes_eq (query : ℕ → Option PlaneAnswer) {n : ℕ} {l : List PlaneAnswer}
    (h4 : l.length + n ≤ 4) : queryPlanes query n l.length (.ofList l) =
      some (((List.range' l.length n).mapM query).map fun ps => .ofList (l ++ ps)) := by
  induction n generalizing l with
  | zero => simp [queryPlanes]
  | succ n ih =>
    have hlt : l.length < 4 := by omega
    rw [List.range'_succ, List.mapM_cons]
    cases ha : query l.length with
    | none => simp [queryPlanes, ha]
    | some a =>
      have hlen : (l ++ [a]).length = l.length + 1 := by simp
      have hrest := ih (l := l ++ [a]) (by omega)
      rw [hlen, PlaneTables.ofList_append] at hrest
      simp only [queryPlanes, ha, tableSet_of_lt _ _ hlt, Option.bind_eq_bind, Option.bind_some,
        hrest]
      cases (List.range' (l.length + 1) n).mapM query with
      | none => rfl
      | some qs => simp

theorem countSlots_eq {n i : ℕ} (hn : i + n = ps.length) (h4 : ps.length ≤ 4) (r : UInt32 × ℤ) :
    countSlots (.ofList ps) n i r =
      some (((ps.drop i).map (·.plane)).foldl (fun n p => n + p.size) r.1,
        (ps.drop i).foldl (fun n p => if n < p.boIdx + 1 then p.boIdx + 1 else n) r.2) := by
  induction n generalizing i r with
  | zero =>
    have hend : ps.drop i = [] := List.drop_eq_nil_of_le (by omega)
    rw [hend]
    rfl
  | succ n ih =>
    have hi : i < ps.length := by omega
    have hlt : i < 4 := by omega
    have hplane : (PlaneTables.ofList ps).planes i = ps[i].plane := by
      simp [PlaneTables.ofList, planeTable, hi]
    have hidx : (PlaneTables.ofList ps).boIdx i = ps[i].boIdx := by
      simp [PlaneTables.ofList, hi]
    rw [countSlots, tableGet_of_lt _ hlt, tableGet_of_lt _ hlt, List.drop_eq_getElem_cons hi]
    simp only [Option.bind_eq_bind, Option.bind_some, hplane, hidx, List.map_cons, List.foldl_cons]
    exact ih (by omega) _

/-- The slots of the loop, and where it has stopped. -/
theorem fillSlots_eq {m : Mgr} {t : PlaneTables} {planes n : ℕ} {l : List (Option Bo)}
    {r : Bool × List (Option Bo)} (hp : planes ≤ 4) (hl : l.length ≤ 4)
    (he : exec x (allocSlots backend m flags ps h n l) s = some (r, s')) :
    r.2.length ≤ 4 ∧ fillSlots backend.surfaceBoAlloc (slotTable r.2) t planes n l.length
      (slotTable l) = some (if r.1 then none else some r.2.length, slotTable r.2) := by
  induction n generalizing s l with
  | zero =>
    simp only [allocSlots, exec_pure, Option.some.injEq, Prod.mk.injEq] at he
    obtain ⟨rfl, -⟩ := he
    exact ⟨hl, rfl⟩
  | succ n ih =>
    simp only [allocSlots, exec_bind] at he
    obtain ⟨⟨o, t⟩, -, he⟩ := Option.bind_eq_some_iff.mp he
    rw [fillSlots_succ hp]
    cases o with
    | none =>
      simp only at he
      split_ifs at he with hok
      · simp only [exec_pure, Option.some.injEq, Prod.mk.injEq] at he
        obtain ⟨rfl, -⟩ := he
        have hnone : slotTable l l.length = none := by simp [slotTable]
        have hsame : Function.update (slotTable l) l.length none = slotTable l := by
          rw [← hnone, Function.update_eq_self]
        refine ⟨hl, ?_⟩
        simp only [hnone, Bool.false_eq_true, if_false]
        by_cases hsba : backend.surfaceBoAlloc
        · rw [if_pos hsba]
        · have hlt : l.length < 4 := by simpa [hsba] using hok
          rw [if_neg hsba, tableSet_of_lt _ _ hlt, hsame]
          rfl
      · simp at he
    | some b =>
      simp only at he
      split_ifs at he with hlt
      · simp only [exec_bind] at he
        obtain ⟨⟨u, t'⟩, -, he⟩ := Option.bind_eq_some_iff.mp he
        have hlen : (l ++ [some b]).length = l.length + 1 := by simp
        obtain ⟨hr, hrest⟩ := ih (by omega) he
        obtain ⟨k, -, hval, -⟩ := allocSlots_grown he
        have hslot : slotTable r.2 l.length = some b := by
          rw [hval, List.append_assoc]
          simp [slotTable]
        refine ⟨hr, ?_⟩
        rw [hlen, slotTable_append] at hrest
        simp only [hslot, tableSet_of_lt _ _ hlt, Option.bind_some]
        exact hrest
      · simp at he

/-- What the backend says of a plane. -/
def planeQuery (backend : Backend) (x : Answers) (i : ℕ) : Option PlaneAnswer :=
  if backend.surfaceGetPlaneData then x.plane i else none

/-- From where its surface is allocated on, a creation that comes to its end stays in the tables,
and they hold its surface. -/
theorem createBody_tables {m : Mgr} {o : Option Surface}
    (he : exec x (match queryPlaneData backend x format.numPlanes.toNat with
      | none => pure none
      | some ps => do
        let r ← allocSlots backend m flags ps h (numBosOf ps).toNat []
        finishSurface backend m h (newSurfaceData m width height format flags ps) r) s =
      some (o, s')) : ∃ alloc, createWithFlagsTables m backend.surfaceBoAlloc
        (planeQuery backend x) alloc width height format flags = some (o.map s'.surface) := by
  have hn := format.numPlanes_le
  have hplanes : queryPlanes (planeQuery backend x) format.numPlanes.toNat 0 .zero =
      some ((queryPlaneData backend x format.numPlanes.toNat).map .ofList) := by
    rw [queryPlaneData, List.range_eq_range']
    exact queryPlanes_eq (l := []) (planeQuery backend x) (by simp; omega)
  unfold createWithFlagsTables
  rw [hplanes]
  cases hq : queryPlaneData backend x format.numPlanes.toNat with
  | none =>
    simp only [hq, exec_pure, Option.some.injEq, Prod.mk.injEq] at he
    obtain ⟨rfl, -⟩ := he
    exact ⟨fun _ => none, rfl⟩
  | some ps =>
    simp only [hq, exec_bind] at he
    obtain ⟨⟨⟨done, l⟩, t⟩, hr, he⟩ := Option.bind_eq_some_iff.mp he
    have hlen : ps.length = format.numPlanes.toNat := queryPlaneData_length hq
    have hcount : countSlots (.ofList ps) format.numPlanes.toNat 0 (0, 1) =
        some (sizeOf (ps.map (·.plane)), numBosOf ps) :=
      countSlots_eq (i := 0) (by omega) (by omega) (0, 1)
    obtain ⟨h4, hfill⟩ : l.length ≤ 4 ∧ fillSlots backend.surfaceBoAlloc (slotTable l)
        (.ofList ps) format.numPlanes.toNat (numBosOf ps).toNat 0 (slotTable []) =
          some (if done then none else some l.length, slotTable l) :=
      fillSlots_eq (l := []) (by omega) (Nat.zero_le 4) hr
    have hzero : slotTable [] = fun _ => none := rfl
    rw [hzero] at hfill
    refine ⟨slotTable l, ?_⟩
    simp only [Option.map_some, Option.bind_eq_bind, Option.bind_some, hcount, hfill]
    rcases finishSurface_cases he with ⟨rfl, rfl, rfl⟩ | ⟨rfl, rfl⟩
    · simp only [if_true, Option.map_some, State.linkSurface, State.setSurface,
        Function.update_self]
      rfl
    · have hundo := visitSlots_of_le (slotTable l) (i := 0) (n := l.length)
        (by rw [Nat.zero_add]; exact h4)
      simp only [Bool.false_eq_true, if_false, hundo, Option.bind_some, Option.map_none]

theorem createWithFlags_tables
    (he : exec x (tbmSurfaceInternalCreateWithFlags backend width height format flags) s =
      some (some h, s')) : ∃ m alloc, createWithFlagsTables m backend.surfaceBoAlloc
        (planeQuery backend x) alloc width height format flags = some (some (s'.surface h)) := by
  unfold tbmSurfaceInternalCreateWithFlags at he
  split_ifs at he
  · obtain ⟨i, t, m, -, -, hbody⟩ := createSurface_some he
    obtain ⟨alloc, htables⟩ := createBody_tables hbody
    exact ⟨m, alloc, htables⟩
  · simp at he

end Program

/-- `n` planes of 16 bytes each. -/
private def striped (n : UInt32) : SurfaceInfo where
  width := 4
  height := 4
  format := .yuv420
  bpp := 12
  size := 0
  numPlanes := n
  planes := fun _ => ⟨16, 0, 4⟩

theorem tables_in_range_striped : ∃ v, Created v ∧
    (∀ m, (createWithBosTables m some (striped 2) (fun i => some i) 2).isSome) ∧
    (v.getInfoTables true fun _ => true).isSome ∧
    (v.tbmSurfaceInternalGetBo 3).isSome ∧ ¬(v.tbmSurfaceInternalGetBo 4).isSome := by
  have hrun : ((createWithBosTables 0 some (striped 2) (fun i => some i) 2).bind id).any fun v =>
      decide (∀ i < v.info.numPlanes.toNat, 0 ≤ v.planesBoIdx i) := by decide
  obtain ⟨v, hv, hidx⟩ := (Option.any_eq_true ..).mp hrun
  obtain ⟨r, hr, he⟩ := Option.bind_eq_some_iff.mp hv
  obtain rfl : r = some v := he
  have hc : Created v := .inl ⟨0, some, striped 2, fun i => some i, 2, hr⟩
  have hmade := (tables_in_range (.createWithBos some (striped 2) (fun i => some i) 2)
    (.inr (by decide))).mpr (show (2 : UInt32) ≤ 4 by decide)
  have hinfo := (tables_in_range (.getInfo v true fun _ => true) hc).mpr
    (.inr (of_decide_eq_true hidx))
  have hin := (tables_in_range (.getBo v 3) ⟨hc, by decide⟩).mpr (show (3 : ℤ) < 4 by decide)
  have hout := (tables_in_range (.getBo v 4) ⟨hc, by decide⟩).not.mpr
    (show ¬(4 : ℤ) < 4 by decide)
  exact ⟨v, hc, hmade, hinfo, hin, hout⟩

/-- Five planes in five buffer objects pass the guard and are written past the tables. -/
theorem create_with_five_bos : ¬∀ use : TableUse, use.Guarded → use.InRange := by
  intro hall
  have h := hall (.createWithBos some (striped 5) (fun i => some i) 5) (.inr (by decide)) 0
  exact absurd h (by decide)

end Calls

end Tbm.Bufmgr
