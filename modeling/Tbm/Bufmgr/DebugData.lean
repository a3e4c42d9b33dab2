import Tbm.Bufmgr.State
import Tbm.Core.Runs
import Mathlib.Data.List.Nodup

/-! The debug data of surfaces and the list of their keys: what is read back, and what is stored
twice. -/
namespace Tbm.Bufmgr

open Runs

/-- A string, as the bytes before its end. -/
abbrev Str := List UInt8

/-- `strncmp` returns zero. -/
def strncmp (v w : Str) (n : ℕ) : Bool := v.take n = w.take n

/-- `ok` is the outcome of its `malloc`; there is nothing to copy from NULL. -/
def strdup (ok : Bool) (v : Option Str) : Option Str := if ok then v else none

/-- `tbm_surface_debug_data`. -/
structure DebugData where
  key : Option Str
  value : Option Str
  deriving DecidableEq, Repr

/-- The outcomes of the allocations of one call, of which only the first is checked. -/
structure DebugAllocs where
  calloc : Bool
  key : Bool
  value : Bool
  /-- By the place of the entry whose value is replaced. -/
  update : ℕ → Bool
  listCalloc : Bool
  listKey : Bool

/-- The buffer manager as far as debug data go. The last field is an observer: the value of the
most recent call that returned 1. -/
structure DebugState where
  surfList : List Surface
  debugDataList : Surface → List DebugData
  debugKeyList : List DebugData
  /-- Handles given out so far. -/
  surfaces : ℕ
  written : Surface → Str → Option Str

namespace DebugState

def initial : DebugState where
  surfList := []
  debugDataList := fun _ => []
  debugKeyList := []
  surfaces := 0
  written := fun _ _ => none

end DebugState

/-- `_tbm_surface_internal_debug_data_create`; `k` and `v` are the outcomes for the key and the
value. -/
def debugDataCreate (ok k v : Bool) (key value : Option Str) : Option DebugData :=
  if ok then some ⟨strdup k key, strdup v value⟩ else none

/-- The value is there already, as far as its own length. -/
def sameValue (old value : Option Str) : Bool :=
  match old, value with
  | some v, some w => strncmp v w v.length
  | _, _ => false

/-- The loop over the entries from place `i` on; tells whether it jumps to `add_debug_key_list`.
`strcmp` has no result for NULL. -/
def updateDebugData (key : Str) (value : Option Str) (ok : ℕ → Bool) :
    ℕ → List DebugData → Option (Bool × List DebugData)
  | _, [] => some (false, [])
  | i, d :: l => do
    let k ← d.key
    if k = key then
      if sameValue d.value value then some (true, d :: l)
      else do
        let r ← updateDebugData key value ok (i + 1) l
        some (r.1, { d with value := strdup (ok i) value } :: r.2)
    else do
      let r ← updateDebugData key value ok (i + 1) l
      some (r.1, d :: r.2)

/-- The loop over `debug_key_list`. -/
def hasDebugKey (key : Str) : List DebugData → Option Bool
  | [] => some false
  | d :: l => do
    let k ← d.key
    if k = key then some true else hasDebugKey key l

/-- The loop of `_tbm_surface_internal_get_debug_data`. -/
def findDebugData (key : Str) : List DebugData → Option (Option Str)
  | [] => some none
  | d :: l => do
    let k ← d.key
    if k = key then some d.value else findDebugData key l

namespace DebugState

variable (s : DebugState)

def setDebugDataList (h : Surface) (l : List DebugData) : DebugState :=
  { s with debugDataList := Function.update s.debugDataList h l }

/-- `tbm_surface_internal_set_debug_data` from `add_debug_key_list` on. NULL is linked where the
`calloc` fails. -/
def addDebugKeyList (key : Str) (x : DebugAllocs) : Option (Bool × DebugState) := do
  if ← hasDebugKey key s.debugKeyList then some (true, s)
  else do
    let d ← debugDataCreate x.listCalloc x.listKey true (some key) none
    some (true, { s with debugKeyList := d :: s.debugKeyList })

def tbmSurfaceInternalSetDebugData (h : Surface) (key value : Option Str) (x : DebugAllocs) :
    Option (Bool × DebugState) :=
  if h ∈ s.surfList then
    match key with
    | none => some (false, s)
    | some key =>
      match updateDebugData key value x.update 0 (s.debugDataList h) with
      | none => none
      | some (true, l) => (s.setDebugDataList h l).addDebugKeyList key x
      | some (false, l) =>
        match debugDataCreate x.calloc x.key x.value (some key) value with
        | none => some (false, s.setDebugDataList h l)
        | some d => (s.setDebugDataList h (d :: l)).addDebugKeyList key x
  else some (false, s)

def tbmSurfaceInternalGetDebugData (h : Surface) (key : Str) : Option (Option Str) :=
  findDebugData key (s.debugDataList h)

/-- A surface is made. -/
def createSurface : DebugState :=
  { s with
    surfList := s.surfaces :: s.surfList
    debugDataList := Function.update s.debugDataList s.surfaces []
    surfaces := s.surfaces + 1 }

/-- `_tbm_surface_internal_destroy`. The last surface takes the list of the keys along. -/
def surfaceInternalDestroy (h : Surface) : DebugState :=
  let s := { s with debugDataList := Function.update s.debugDataList h []
                    surfList := s.surfList.erase h }
  if s.surfList.isEmpty then { s with debugKeyList := [] } else s

/-- The observer. -/
def record (h : Surface) (key value : Option Str) : DebugState :=
  match key with
  | none => s
  | some key =>
    { s with written := Function.update s.written h (Function.update (s.written h) key value) }

end DebugState

inductive DebugCall
  | create (ok : Bool)
  | destroy (h : Surface)
  | set (h : Surface) (key value : Option Str) (x : DebugAllocs)

def DebugState.step (c : DebugCall) (s : DebugState) : Option (Bool × DebugState) :=
  match c with
  | .create ok => if ok then some (true, s.createSurface) else some (false, s)
  | .destroy h =>
    if h ∈ s.surfList then some (true, s.surfaceInternalDestroy h) else some (false, s)
  | .set h key value x => (s.tbmSurfaceInternalSetDebugData h key value x).map fun r =>
      (r.1, if r.1 then r.2.record h key value else r.2)

section Loops

variable {key k : Str} {value : Option Str} {ok : ℕ → Bool} {l : List DebugData}

/-- Entries that `strcmp` can look at. -/
def Named (l : List DebugData) : Prop := ∀ d ∈ l, d.key.isSome

/-- An entry with the key whose value is there already. -/
def stands (key : Str) (value : Option Str) (d : DebugData) : Bool :=
  d.key = some key && sameValue d.value value

theorem updateDebugData_named (key : Str) (value : Option Str) (ok : ℕ → Bool) (hn : Named l)
    (i : ℕ) : ∃ l',
    updateDebugData key value ok i l = some (l.any (stands key value), l') ∧
      l'.map DebugData.key = l.map DebugData.key := by
  induction l generalizing i with
  | nil => exact ⟨[], rfl, rfl⟩
  | cons d l ih =>
    obtain ⟨hd, hl⟩ := List.forall_mem_cons.mp hn
    obtain ⟨k, hk⟩ := Option.isSome_iff_exists.mp hd
    obtain ⟨l', hr, hkeys⟩ := ih hl (i + 1)
    by_cases he : k = key
    · by_cases hv : sameValue d.value value
      · refine ⟨d :: l, ?_, rfl⟩
        simp [updateDebugData, hk, he, hv, stands]
      · refine ⟨{ d with value := strdup (ok i) value } :: l', ?_, by simp [hkeys]⟩
        simp [updateDebugData, hk, he, hv, stands, hr]
    · refine ⟨d :: l', ?_, by simp [hkeys]⟩
      simp [updateDebugData, hk, he, stands, hr]

theorem hasDebugKey_named (hn : Named l) :
    hasDebugKey key l = some (decide (some key ∈ l.map DebugData.key)) := by
  induction l with
  | nil => rfl
  | cons d l ih =>
    obtain ⟨hd, hl⟩ := List.forall_mem_cons.mp hn
    obtain ⟨k, hk⟩ := Option.isSome_iff_exists.mp hd
    by_cases he : k = key
    · simp [hasDebugKey, hk, he]
    · have hne : ¬key = k := fun h => he h.symm
      simp [hasDebugKey, hk, he, ih hl, hne]

theorem findDebugData_named (hn : Named l) : findDebugData key l =
    some ((l.find? fun d => d.key = some key).bind DebugData.value) := by
  induction l with
  | nil => rfl
  | cons d l ih =>
    obtain ⟨hd, hl⟩ := List.forall_mem_cons.mp hn
    obtain ⟨k, hk⟩ := Option.isSome_iff_exists.mp hd
    by_cases he : k = key
    · simp [findDebugData, hk, he]
    · simp [findDebugData, hk, he, ih hl]

end Loops

/-- No allocation fails. -/
private def ample : DebugAllocs := ⟨true, true, true, fun _ => true, true, true⟩

section Calls

variable {s t : DebugState} {h : Surface} {key : Str} {value : Option Str} {x : DebugAllocs}

/-- The entries all have keys, and those of the live surfaces are on the list of the keys. -/
structure DebugState.Keyed (s : DebugState) : Prop where
  data : ∀ h ∈ s.surfList, Named (s.debugDataList h)
  list : Named s.debugKeyList
  nodup : (s.debugKeyList.map DebugData.key).Nodup
  covers : ∀ h ∈ s.surfList, ∀ d ∈ s.debugDataList h, d.key ∈ s.debugKeyList.map DebugData.key

/-- The allocations for keys do not fail. -/
def DebugCall.named : DebugCall → Prop
  | .set _ _ _ x => x.key = true ∧ x.listCalloc = true ∧ x.listKey = true
  | _ => True

/-- The list of the keys with one that may be there. -/
def withKey (key : Str) (l : List DebugData) : List DebugData :=
  if some key ∈ l.map DebugData.key then l else ⟨some key, none⟩ :: l

theorem addDebugKeyList_eq (hn : Named s.debugKeyList) (hx : x.listCalloc = true)
    (hk : x.listKey = true) : s.addDebugKeyList key x =
      some (true, { s with debugKeyList := withKey key s.debugKeyList }) := by
  unfold DebugState.addDebugKeyList withKey
  rw [hasDebugKey_named hn]
  by_cases hm : some key ∈ s.debugKeyList.map DebugData.key
  · simp [hm]
  · simp [hm, debugDataCreate, strdup, hx, hk]

/-- What a call leaves on the surface, from what the loop has left. -/
def storedData (key : Str) (value : Option Str) (x : DebugAllocs) (j : Bool) (l : List DebugData) :
    List DebugData :=
  if j = false ∧ x.calloc = true then ⟨some key, strdup x.value value⟩ :: l else l

theorem setDebugData_eq (hs : s.Keyed) (hh : h ∈ s.surfList) (hx : x.key = true)
    (hlc : x.listCalloc = true) (hlk : x.listKey = true) {j : Bool} {l : List DebugData}
    (hl : updateDebugData key value x.update 0 (s.debugDataList h) = some (j, l)) :
    s.tbmSurfaceInternalSetDebugData h (some key) value x = some (j || x.calloc,
      { s.setDebugDataList h (storedData key value x j l) with
        debugKeyList :=
          if j || x.calloc then withKey key s.debugKeyList else s.debugKeyList }) := by
  unfold DebugState.tbmSurfaceInternalSetDebugData
  rw [if_pos hh]
  simp only [hl]
  cases j with
  | true =>
    change (s.setDebugDataList h l).addDebugKeyList key x = _
    rw [addDebugKeyList_eq (s := s.setDebugDataList h l) hs.list hlc hlk]
    simp [storedData, DebugState.setDebugDataList]
  | false =>
    cases hc : x.calloc with
    | false => simp [debugDataCreate, storedData, hc, DebugState.setDebugDataList]
    | true =>
      have hd : debugDataCreate true x.key x.value (some key) value =
          some ⟨some key, strdup x.value value⟩ := by
        simp [debugDataCreate, strdup, hx]
      simp only [hd]
      rw [addDebugKeyList_eq (s := s.setDebugDataList h _) hs.list hlc hlk]
      simp [storedData, hc, DebugState.setDebugDataList]

theorem mem_withKey {k : Option Str} {l : List DebugData} :
    k ∈ (withKey key l).map DebugData.key ↔ k = some key ∨ k ∈ l.map DebugData.key := by
  unfold withKey
  by_cases hm : some key ∈ l.map DebugData.key
  · rw [if_pos hm]
    constructor
    · exact .inr
    · rintro (rfl | hk)
      · exact hm
      · exact hk
  · rw [if_neg hm, List.map_cons, List.mem_cons]

theorem withKey_named {l : List DebugData} (hn : Named l) : Named (withKey key l) := by
  unfold withKey
  split_ifs
  · exact hn
  · exact List.forall_mem_cons.mpr ⟨rfl, hn⟩

theorem withKey_nodup {l : List DebugData} (hn : (l.map DebugData.key).Nodup) :
    ((withKey key l).map DebugData.key).Nodup := by
  unfold withKey
  by_cases hm : some key ∈ l.map DebugData.key
  · rw [if_pos hm]
    exact hn
  · rw [if_neg hm, List.map_cons, List.nodup_cons]
    exact ⟨hm, hn⟩

theorem keyed_of_keys (key : Str) (hs : s.Keyed) (hsurf : t.surfList = s.surfList)
    (hlist : t.debugKeyList = s.debugKeyList ∨ t.debugKeyList = withKey key s.debugKeyList)
    (hkeys : ∀ h ∈ s.surfList, ∀ k ∈ (t.debugDataList h).map DebugData.key,
      k ∈ (s.debugDataList h).map DebugData.key ∨
        k = some key ∧ t.debugKeyList = withKey key s.debugKeyList) : t.Keyed := by
  constructor
  · intro h hh d hd
    rw [hsurf] at hh
    rcases hkeys h hh d.key (List.mem_map_of_mem hd) with hk | ⟨hk, -⟩
    · obtain ⟨e, he, hek⟩ := List.mem_map.mp hk
      rw [← hek]
      exact hs.data h hh e he
    · rw [hk]
      rfl
  · rcases hlist with hl | hl
    · rw [hl]
      exact hs.list
    · rw [hl]
      exact withKey_named hs.list
  · rcases hlist with hl | hl
    · rw [hl]
      exact hs.nodup
    · rw [hl]
      exact withKey_nodup hs.nodup
  · intro h hh d hd
    rw [hsurf] at hh
    rcases hkeys h hh d.key (List.mem_map_of_mem hd) with hk | ⟨hk, hl⟩
    · obtain ⟨e, he, hek⟩ := List.mem_map.mp hk
      have hc := hs.covers h hh e he
      rw [hek] at hc
      rcases hlist with hl | hl
      · rw [hl]
        exact hc
      · rw [hl]
        exact mem_withKey.mpr (.inr hc)
    · rw [hl]
      exact mem_withKey.mpr (.inl hk)

/-- The debug keys are stored once. -/
structure DebugState.KeysOnce (s : DebugState) : Prop where
  data : ∀ h ∈ s.surfList, ((s.debugDataList h).map DebugData.key).Nodup
  list : (s.debugKeyList.map DebugData.key).Nodup
  covers : ∀ h ∈ s.surfList, ∀ d ∈ s.debugDataList h, d.key ∈ s.debugKeyList.map DebugData.key

/-- The key is not on the surface yet, or its value is a prefix of the new one, or the call
fails. -/
def DebugState.inPlace (s : DebugState) : DebugCall → Bool
  | .set h (some key) value x => decide (h ∉ s.surfList) || !x.calloc ||
      (s.debugDataList h).all fun d => d.key ≠ some key || sameValue d.value value
  | _ => true

/-- Surfaces come without debug data, and go with theirs. -/
structure CameOrWent (s t : DebugState) : Prop where
  data : ∀ h ∈ t.surfList, t.debugDataList h = [] ∨
    h ∈ s.surfList ∧ t.debugDataList h = s.debugDataList h
  list : t.debugKeyList = s.debugKeyList ∨ t.surfList = [] ∧ t.debugKeyList = []

theorem createSurface_came (s : DebugState) : CameOrWent s s.createSurface := by
  constructor
  · intro h hh
    by_cases hn : h = s.surfaces
    · left
      simp [DebugState.createSurface, hn]
    · right
      have hold : h ∈ s.surfList := (List.mem_cons.mp hh).resolve_left hn
      exact ⟨hold, by simp [DebugState.createSurface, hn]⟩
  · exact .inl rfl

theorem surfaceInternalDestroy_went (s : DebugState) (h : Surface) :
    CameOrWent s (s.surfaceInternalDestroy h) := by
  have hdata : (s.surfaceInternalDestroy h).debugDataList =
      Function.update s.debugDataList h [] := by
    unfold DebugState.surfaceInternalDestroy
    dsimp only
    split_ifs <;> rfl
  have hsurf : (s.surfaceInternalDestroy h).surfList = s.surfList.erase h := by
    unfold DebugState.surfaceInternalDestroy
    dsimp only
    split_ifs <;> rfl
  constructor
  · intro k hk
    rw [hsurf] at hk
    rw [hdata]
    by_cases hkh : k = h
    · left
      rw [hkh, Function.update_self]
    · right
      rw [Function.update_of_ne hkh]
      exact ⟨List.mem_of_mem_erase hk, rfl⟩
  · unfold DebugState.surfaceInternalDestroy
    by_cases he : (s.surfList.erase h).isEmpty
    · right
      simp only [he, if_true, and_true]
      exact List.isEmpty_iff.mp he
    · left
      simp only [he]
      rfl

theorem CameOrWent.keyed (h : CameOrWent s t) (hs : s.Keyed) : t.Keyed := by
  constructor
  · intro k hk
    rcases h.data k hk with hd | ⟨hold, hd⟩
    · simp [hd, Named]
    · rw [hd]
      exact hs.data k hold
  · rcases h.list with hl | ⟨-, hl⟩
    · rw [hl]
      exact hs.list
    · simp [hl, Named]
  · rcases h.list with hl | ⟨-, hl⟩
    · rw [hl]
      exact hs.nodup
    · simp [hl]
  · intro k hk d hd
    rcases h.data k hk with he | ⟨hold, he⟩
    · rw [he] at hd
      cases hd
    · rw [he] at hd
      rcases h.list with hl | ⟨hl, -⟩
      · rw [hl]
        exact hs.covers k hold d hd
      · rw [hl] at hk
        cases hk

theorem CameOrWent.keysOnce (h : CameOrWent s t) (hs : s.Keyed) (ho : s.KeysOnce) :
    t.KeysOnce := by
  have ht := h.keyed hs
  refine ⟨fun k hk => ?_, ht.nodup, ht.covers⟩
  rcases h.data k hk with hd | ⟨hold, hd⟩
  · simp [hd]
  · rw [hd]
    exact ho.data k hold

/-- Whether a call keeps the keys of a surface distinct. -/
theorem storedData_nodup (key : Str) (value : Option Str) (x : DebugAllocs) {l l' : List DebugData}
    (hk : l'.map DebugData.key = l.map DebugData.key)
    (hn : (l.map DebugData.key).Nodup) :
    ((storedData key value x (l.any (stands key value)) l').map DebugData.key).Nodup ↔
      (!x.calloc || l.all fun d => d.key ≠ some key || sameValue d.value value) = true := by
  cases hany : l.any (stands key value) with
  | true =>
    have hsame : storedData key value x true l' = l' := by simp [storedData]
    rw [hsame, hk]
    refine iff_of_true hn (Bool.or_eq_true_iff.mpr (.inr (List.all_eq_true.mpr fun d hd => ?_)))
    obtain ⟨e, he, hstands⟩ := List.any_eq_true.mp hany
    obtain ⟨hkey, hval⟩ : e.key = some key ∧ sameValue e.value value = true := by
      simpa [stands] using hstands
    by_cases hdk : d.key = some key
    · have hde : d = e := List.inj_on_of_nodup_map hn hd he (hdk.trans hkey.symm)
      simp [hde, hval]
    · simp [hdk]
  | false =>
    cases hc : x.calloc with
    | false =>
      have hsame : storedData key value x false l' = l' := by simp [storedData, hc]
      rw [hsame, hk]
      exact iff_of_true hn rfl
    | true =>
      have hcons : storedData key value x false l' = ⟨some key, strdup x.value value⟩ :: l' := by
        simp [storedData, hc]
      rw [hcons, List.map_cons, hk, List.nodup_cons, Bool.not_true, Bool.false_or,
        List.all_eq_true]
      constructor
      · rintro ⟨hnot, -⟩ d hd
        have hdk : d.key ≠ some key := by
          intro heq
          exact hnot (List.mem_map.mpr ⟨d, hd, heq⟩)
        simp [hdk]
      · intro hall
        refine ⟨fun hm => ?_, hn⟩
        obtain ⟨d, hd, hdk⟩ := List.mem_map.mp hm
        have hval : sameValue d.value value = true := by simpa [hdk] using hall d hd
        have hstands : stands key value d = true := by simp [stands, hdk, hval]
        have htrue := List.any_eq_true.mpr ⟨d, hd, hstands⟩
        rw [hany] at htrue
        cases htrue

/-- One call on a live surface leaves the keys distinct just if it is in place. -/
theorem set_keysOnce (hs : s.Keyed) (hh : h ∈ s.surfList) (value : Option Str)
    (hx : x.key = true) (hlc : x.listCalloc = true) (hlk : x.listKey = true) : ∃ r t,
      s.tbmSurfaceInternalSetDebugData h (some key) value x = some (r, t) ∧ t.Keyed ∧
        (s.KeysOnce → (t.KeysOnce ↔ s.inPlace (.set h (some key) value x) = true)) := by
  obtain ⟨l, hl, hkeys⟩ := updateDebugData_named key value x.update (hs.data h hh) 0
  let j := (s.debugDataList h).any (stands key value)
  let t : DebugState := { s.setDebugDataList h (storedData key value x j l) with
    debugKeyList := if j || x.calloc then withKey key s.debugKeyList else s.debugKeyList }
  have hself : t.debugDataList h = storedData key value x j l := by
    simp [t, DebugState.setDebugDataList]
  have hother : ∀ k, k ≠ h → t.debugDataList k = s.debugDataList k := by
    intro k hk
    simp [t, DebugState.setDebugDataList, hk]
  have hlist : t.debugKeyList = if j || x.calloc then withKey key s.debugKeyList
      else s.debugKeyList := rfl
  have ht : t.Keyed := by
    refine keyed_of_keys key hs rfl ?_ fun k hk d hd => ?_
    · rw [hlist]
      split_ifs
      · exact .inr rfl
      · exact .inl rfl
    · by_cases hkh : k = h
      · rw [hkh, hself] at hd
        unfold storedData at hd
        split_ifs at hd with hstored
        · rw [List.map_cons, List.mem_cons, hkeys] at hd
          rcases hd with hd | hd
          · right
            refine ⟨hd, ?_⟩
            rw [hlist, hstored.2, Bool.or_true, if_pos rfl]
          · left
            rw [hkh]
            exact hd
        · left
          rw [hkh, ← hkeys]
          exact hd
      · left
        rw [hother k hkh] at hd
        exact hd
  refine ⟨_, t, setDebugData_eq hs hh hx hlc hlk hl, ht, fun ho => ?_⟩
  have hnodup := storedData_nodup key value x hkeys (ho.data h hh)
  have hplace : s.inPlace (.set h (some key) value x) = true ↔
      (!x.calloc || (s.debugDataList h).all fun d =>
        d.key ≠ some key || sameValue d.value value) = true := by
    simp [DebugState.inPlace, hh]
  rw [hplace, ← hnodup, ← hself]
  constructor
  · intro hto
    exact hto.data h hh
  · intro hdata
    refine ⟨fun k hk => ?_, ht.nodup, ht.covers⟩
    by_cases hkh : k = h
    · rw [hkh]
      exact hdata
    · rw [hother k hkh]
      exact ho.data k hk

theorem record_keyed (k v : Option Str) (hs : s.Keyed) : (s.record h k v).Keyed := by
  cases k with
  | none => exact hs
  | some k => exact ⟨hs.data, hs.list, hs.nodup, hs.covers⟩

theorem record_keysOnce (k v : Option Str) : (s.record h k v).KeysOnce ↔ s.KeysOnce := by
  cases k with
  | none => exact Iff.rfl
  | some k => exact ⟨fun h => ⟨h.data, h.list, h.covers⟩, fun h => ⟨h.data, h.list, h.covers⟩⟩

theorem step_keysOnce {c : DebugCall} (hc : c.named) (hs : s.Keyed) : ∃ r t,
    s.step c = some (r, t) ∧ t.Keyed ∧ (s.KeysOnce → (t.KeysOnce ↔ s.inPlace c = true)) := by
  cases c with
  | create ok =>
    cases ok with
    | false => exact ⟨false, s, rfl, hs, fun ho => iff_of_true ho rfl⟩
    | true =>
      have hcame := createSurface_came s
      exact ⟨true, s.createSurface, rfl, hcame.keyed hs, fun ho =>
        iff_of_true (hcame.keysOnce hs ho) rfl⟩
  | destroy h =>
    by_cases hh : h ∈ s.surfList
    · have hwent := surfaceInternalDestroy_went s h
      exact ⟨true, _, if_pos hh, hwent.keyed hs, fun ho =>
        iff_of_true (hwent.keysOnce hs ho) rfl⟩
    · exact ⟨false, s, if_neg hh, hs, fun ho => iff_of_true ho rfl⟩
  | set h key value x =>
    by_cases hh : h ∈ s.surfList
    · cases key with
      | none =>
        refine ⟨false, s, ?_, hs, fun ho => iff_of_true ho rfl⟩
        simp [DebugState.step, DebugState.tbmSurfaceInternalSetDebugData, hh]
      | some key =>
        obtain ⟨r, t, hset, ht, honce⟩ := set_keysOnce hs hh value hc.1 hc.2.1 hc.2.2
        cases r with
        | false => exact ⟨false, t, by simp [DebugState.step, hset], ht, honce⟩
        | true =>
          refine ⟨true, t.record h (some key) value, by simp [DebugState.step, hset],
            record_keyed _ _ ht, fun ho => ?_⟩
          rw [record_keysOnce]
          exact honce ho
    · refine ⟨false, s, ?_, hs, fun ho => iff_of_true ho ?_⟩
      · simp [DebugState.step, DebugState.tbmSurfaceInternalSetDebugData, hh]
      · cases key with
        | none => rfl
        | some key => simp [DebugState.inPlace, hh]

theorem initial_keyed : DebugState.initial.Keyed := by
  constructor
  · simp [DebugState.initial]
  · simp [DebugState.initial, Named]
  · simp [DebugState.initial]
  · simp [DebugState.initial]

/-- The debug keys are stored once in all states of a run just if each call that sets a key that is
on the surface finds a prefix of the new value there. -/
theorem debug_keys_once {cs : List DebugCall} (hcs : ∀ c ∈ cs, c.named) : ∃ log t,
    run DebugState.step cs .initial = some (log, t) ∧ ((∀ e ∈ log, e.after.KeysOnce) ↔
      Permitted DebugState.step (fun s c => s.inPlace c = true) cs .initial) := by
  have hinit : DebugState.initial.KeysOnce :=
    ⟨by simp [DebugState.initial], initial_keyed.nodup, initial_keyed.covers⟩
  exact run_iff_on hcs initial_keyed hinit fun s c hc hs => step_keysOnce hc hs

/-- Two surfaces with a key in common; a value that grows; the last surface goes, and another one
comes. -/
private def keysInTurn : List DebugCall :=
  [.create true, .create true, .set 0 (some [97]) (some [1]) ample,
    .set 0 (some [97]) (some [1, 2]) ample, .set 1 (some [97]) none ample,
    .set 1 (some [98]) (some [3]) ample, .destroy 0, .destroy 1, .create true,
    .set 2 (some [98]) (some [4]) ample]

theorem debug_keys_once_in_turn : ∃ log t, run DebugState.step keysInTurn .initial = some (log, t) ∧
    ∀ e ∈ log, e.after.KeysOnce := by
  have hnamed : ∀ c ∈ keysInTurn, c.named := by simp [keysInTurn, DebugCall.named, ample]
  obtain ⟨log, t, hr, hiff⟩ := debug_keys_once hnamed
  exact ⟨log, t, hr, hiff.mpr (by decide +kernel)⟩

/-- A second value for one key makes a second entry. -/
theorem debug_key_twice : ∃ log t,
    run DebugState.step [.create true, .set 0 (some [97]) (some [1]) ample,
      .set 0 (some [97]) (some [2]) ample] .initial = some (log, t) ∧
      t.debugDataList 0 = [⟨some [97], some [2]⟩, ⟨some [97], some [2]⟩] ∧ ¬t.KeysOnce := by
  refine ⟨_, _, rfl, rfl, fun h => ?_⟩
  exact absurd (h.data 0 (by decide)) (by decide)

end Calls

section Values

variable {s t : DebugState} {h : Surface} {key k : Str} {value : Option Str} {x : DebugAllocs}
  {l : List DebugData}

/-- The allocations do not fail. -/
def DebugCall.allocated : DebugCall → Prop
  | .set _ _ _ x => x.calloc = true ∧ x.key = true ∧ x.value = true ∧ (∀ i, x.update i = true) ∧
      x.listCalloc = true ∧ x.listKey = true
  | _ => True

theorem DebugCall.allocated.named {c : DebugCall} (h : c.allocated) : c.named := by
  cases c with
  | create ok => trivial
  | destroy k => trivial
  | set k key value x => exact ⟨h.2.1, h.2.2.2.2⟩

/-- The entries of one key have one value. -/
def Uniform (l : List DebugData) : Prop := ∀ d ∈ l, ∀ e ∈ l, d.key = e.key → d.value = e.value

/-- The entry with a new value, if it has the key. -/
def replaced (key : Str) (value : Option Str) (d : DebugData) : DebugData :=
  if d.key = some key then { d with value := value } else d

@[simp] theorem replaced_key (d : DebugData) : (replaced key value d).key = d.key := by
  unfold replaced
  split_ifs <;> rfl

/-- The loop stops at the first entry with the key. -/
theorem updateDebugData_stands (hn : Named l) (hu : Uniform l) (ok : ℕ → Bool) (i : ℕ)
    (hs : l.any (stands key value) = true) :
    updateDebugData key value ok i l = some (true, l) := by
  induction l generalizing i with
  | nil => cases hs
  | cons d l ih =>
    obtain ⟨hd, hl⟩ := List.forall_mem_cons.mp hn
    obtain ⟨k, hk⟩ := Option.isSome_iff_exists.mp hd
    obtain ⟨e, he, hstands⟩ := List.any_eq_true.mp hs
    obtain ⟨hkey, hval⟩ : e.key = some key ∧ sameValue e.value value = true := by
      simpa [stands] using hstands
    by_cases hkk : k = key
    · have hsame : d.value = e.value :=
        hu d List.mem_cons_self e he (by rw [hk, hkk, hkey])
      simp [updateDebugData, hk, hkk, hsame, hval]
    · have htail : e ∈ l := by
        rcases List.mem_cons.mp he with rfl | he
        · exact absurd (Option.some.inj (hk.symm.trans hkey)) hkk
        · exact he
      have hul : Uniform l := fun a ha b hb =>
        hu a (List.mem_cons_of_mem d ha) b (List.mem_cons_of_mem d hb)
      have hrest := ih hl hul (i + 1) (List.any_eq_true.mpr ⟨e, htail, hstands⟩)
      simp [updateDebugData, hk, hkk, hrest]

/-- The loop replaces the value of every entry with the key. -/
theorem updateDebugData_replaced {ok : ℕ → Bool} (hn : Named l) (hok : ∀ i, ok i = true) (i : ℕ)
    (hs : l.any (stands key value) = false) :
    updateDebugData key value ok i l = some (false, l.map (replaced key value)) := by
  induction l generalizing i with
  | nil => rfl
  | cons d l ih =>
    obtain ⟨hd, hl⟩ := List.forall_mem_cons.mp hn
    obtain ⟨k, hk⟩ := Option.isSome_iff_exists.mp hd
    rw [List.any_cons, Bool.or_eq_false_iff] at hs
    have hrest := ih hl (i + 1) hs.2
    by_cases hkk : k = key
    · have hval : sameValue d.value value = false := by simpa [stands, hk, hkk] using hs.1
      simp [updateDebugData, hk, hkk, hval, hrest, strdup, hok, replaced]
    · simp [updateDebugData, hk, hkk, hrest, replaced]

/-- What is found after the values of one key have been replaced. -/
theorem find_replaced (hk : k ≠ key) :
    ((l.map (replaced key value)).find? fun d => d.key = some k).bind DebugData.value =
      (l.find? fun d => d.key = some k).bind DebugData.value := by
  induction l with
  | nil => rfl
  | cons d l ih =>
    by_cases hd : d.key = some k
    · simp [hd, replaced, hk]
    · simpa [hd] using ih

theorem uniform_replaced (hu : Uniform l) :
    Uniform (⟨some key, value⟩ :: l.map (replaced key value)) := by
  have hval : ∀ d ∈ l.map (replaced key value), d.key = some key → d.value = value := by
    intro d hd hdk
    obtain ⟨e, -, rfl⟩ := List.mem_map.mp hd
    rw [replaced_key] at hdk
    simp [replaced, hdk]
  intro d hd e he hde
  rcases List.mem_cons.mp hd with rfl | hd
  · rcases List.mem_cons.mp he with rfl | he
    · rfl
    · exact (hval e he hde.symm).symm
  · rcases List.mem_cons.mp he with rfl | he
    · exact hval d hd hde
    · by_cases hdk : d.key = some key
      · rw [hval d hd hdk, hval e he (hde ▸ hdk)]
      · obtain ⟨a, ha, rfl⟩ := List.mem_map.mp hd
        obtain ⟨b, hb, rfl⟩ := List.mem_map.mp he
        rw [replaced_key] at hdk
        rw [replaced_key, replaced_key] at hde
        have hbk : ¬b.key = some key := fun h => hdk (hde.trans h)
        simp only [replaced, hdk, hbk, if_false]
        exact hu a ha b hb hde

/-- What holds between calls whose allocations do not fail. -/
structure DebugState.Settled (s : DebugState) : Prop extends Keyed s where
  uniform : ∀ h ∈ s.surfList, Uniform (s.debugDataList h)
  distinct : s.surfList.Nodup
  known : ∀ h ∈ s.surfList, h < s.surfaces
  unwritten : ∀ h, s.surfaces ≤ h → ∀ key, s.written h key = none

/-- Every key of every surface has the value most recently set. -/
def DebugState.ReadsBack (s : DebugState) : Prop := ∀ h ∈ s.surfList, ∀ key,
  s.tbmSurfaceInternalGetDebugData h key = some (s.written h key)

/-- The key is on the surface, and its value is a proper prefix of the new one. -/
def DebugState.lengthens (s : DebugState) : DebugCall → Bool
  | .set h (some key) value _ => decide (h ∈ s.surfList) &&
      (s.debugDataList h).any fun d => stands key value d && decide (d.value ≠ value)
  | _ => false

theorem CameOrWent.uniform (h : CameOrWent s t) (hs : s.Settled) :
    ∀ h ∈ t.surfList, Uniform (t.debugDataList h) := by
  intro k hk
  rcases h.data k hk with hd | ⟨hold, hd⟩
  · simp [hd, Uniform]
  · rw [hd]
    exact hs.uniform k hold

theorem createSurface_settled (hs : s.Settled) : s.createSurface.Settled := by
  have hcame := createSurface_came s
  refine ⟨hcame.keyed hs.toKeyed, hcame.uniform hs, ?_, fun k hk => ?_, fun k hk key => ?_⟩
  · refine List.nodup_cons.mpr ⟨fun hm => ?_, hs.distinct⟩
    exact Nat.lt_irrefl _ (hs.known _ hm)
  · rcases List.mem_cons.mp hk with rfl | hk
    · exact Nat.lt_succ_self s.surfaces
    · exact Nat.lt_succ_of_lt (hs.known k hk)
  · exact hs.unwritten k (Nat.le_of_succ_le hk) key

theorem createSurface_readsBack (hs : s.Settled) (hr : s.ReadsBack) :
    s.createSurface.ReadsBack := by
  intro k hk key
  by_cases hn : k = s.surfaces
  · have hnone : s.written k key = none := hs.unwritten k (Nat.le_of_eq hn.symm) key
    have hdata : s.createSurface.debugDataList k = [] := by simp [DebugState.createSurface, hn]
    unfold DebugState.tbmSurfaceInternalGetDebugData
    rw [hdata]
    exact congrArg some hnone.symm
  · have hold : k ∈ s.surfList := (List.mem_cons.mp hk).resolve_left hn
    have hdata : s.createSurface.debugDataList k = s.debugDataList k := by
      simp [DebugState.createSurface, hn]
    unfold DebugState.tbmSurfaceInternalGetDebugData
    rw [hdata]
    exact hr k hold key

theorem surfaceInternalDestroy_same (s : DebugState) (h : Surface) :
    (s.surfaceInternalDestroy h).surfList = s.surfList.erase h ∧
      (s.surfaceInternalDestroy h).debugDataList = Function.update s.debugDataList h [] ∧
      (s.surfaceInternalDestroy h).surfaces = s.surfaces ∧
      (s.surfaceInternalDestroy h).written = s.written := by
  unfold DebugState.surfaceInternalDestroy
  dsimp only
  split_ifs <;> exact ⟨rfl, rfl, rfl, rfl⟩

theorem surfaceInternalDestroy_settled (hs : s.Settled) :
    (s.surfaceInternalDestroy h).Settled := by
  have hwent := surfaceInternalDestroy_went s h
  obtain ⟨hsurf, -, hcount, hwritten⟩ := surfaceInternalDestroy_same s h
  refine ⟨hwent.keyed hs.toKeyed, hwent.uniform hs, ?_, fun k hk => ?_, fun k hk key => ?_⟩
  · rw [hsurf]
    exact hs.distinct.erase h
  · rw [hsurf] at hk
    rw [hcount]
    exact hs.known k (List.mem_of_mem_erase hk)
  · rw [hcount] at hk
    rw [hwritten]
    exact hs.unwritten k hk key

theorem surfaceInternalDestroy_readsBack (hs : s.Settled) (hr : s.ReadsBack) :
    (s.surfaceInternalDestroy h).ReadsBack := by
  obtain ⟨hsurf, hdata, -, hwritten⟩ := surfaceInternalDestroy_same s h
  intro k hk key
  rw [hsurf] at hk
  have hkh : k ≠ h := by
    rintro rfl
    exact hs.distinct.not_mem_erase hk
  unfold DebugState.tbmSurfaceInternalGetDebugData
  rw [hdata, hwritten, Function.update_of_ne hkh]
  exact hr k (List.mem_of_mem_erase hk) key

theorem find_stands (hu : Uniform l) (hs : l.any (stands key value) = true) :
    (l.find? fun d => d.key = some key).bind DebugData.value = value ↔
      (l.any fun d => stands key value d && decide (d.value ≠ value)) = false := by
  obtain ⟨e, he, hstands⟩ := List.any_eq_true.mp hs
  have hkey : e.key = some key := by
    have hboth : e.key = some key ∧ sameValue e.value value = true := by
      simpa [stands] using hstands
    exact hboth.1
  have hvalue : ∀ d ∈ l, d.key = some key → d.value = e.value :=
    fun d hd hdk => hu d hd e he (hdk.trans hkey.symm)
  have hfind : (l.find? fun d => d.key = some key).bind DebugData.value = e.value := by
    cases hf : l.find? fun d => d.key = some key with
    | none =>
      have hnot := List.find?_eq_none.mp hf e he
      exact absurd hkey (by simpa using hnot)
    | some d =>
      exact hvalue d (List.mem_of_find?_eq_some hf) (by simpa using List.find?_some hf)
  rw [hfind, List.any_eq_false]
  constructor
  · intro heq d hd hboth
    obtain ⟨hd', hne⟩ := Bool.and_eq_true_iff.mp hboth
    have hdk : d.key = some key := by
      have hboth : d.key = some key ∧ sameValue d.value value = true := by
        simpa [stands] using hd'
      exact hboth.1
    exact of_decide_eq_true hne ((hvalue d hd hdk).trans heq)
  · intro hall
    by_contra hne
    exact hall e he (by simp [hstands, hne])

theorem storedData_settled (key : Str) (value : Option Str) (hn : Named l) (hu : Uniform l)
    (hc : x.calloc = true) (hv : x.value = true) (hok : ∀ i, x.update i = true) : ∃ l',
      updateDebugData key value x.update 0 l = some (l.any (stands key value), l') ∧
      Uniform (storedData key value x (l.any (stands key value)) l') ∧
      (∀ k, k ≠ key → ((storedData key value x (l.any (stands key value)) l').find? fun d =>
        d.key = some k).bind DebugData.value = (l.find? fun d => d.key = some k).bind
          DebugData.value) ∧
      (((storedData key value x (l.any (stands key value)) l').find? fun d =>
        d.key = some key).bind DebugData.value = value ↔
          (l.any fun d => stands key value d && decide (d.value ≠ value)) = false) := by
  cases hany : l.any (stands key value) with
  | true =>
    have hsame : storedData key value x true l = l := by simp [storedData]
    refine ⟨l, updateDebugData_stands hn hu x.update 0 hany, ?_, ?_, ?_⟩
    · rw [hsame]
      exact hu
    · intro k _
      rw [hsame]
    · rw [hsame]
      exact find_stands hu hany
  | false =>
    have hcons : storedData key value x false (l.map (replaced key value)) =
        ⟨some key, value⟩ :: l.map (replaced key value) := by
      simp [storedData, hc, hv, strdup]
    refine ⟨l.map (replaced key value), updateDebugData_replaced hn hok 0 hany, ?_, ?_, ?_⟩
    · rw [hcons]
      exact uniform_replaced hu
    · intro k hk
      rw [hcons, List.find?_cons_of_neg (by simpa using Ne.symm hk)]
      exact find_replaced hk
    · rw [hcons, List.find?_cons_of_pos (by simp)]
      refine iff_of_true rfl (List.any_eq_false.mpr fun d hd => ?_)
      have hno := List.any_eq_false.mp hany d hd
      simp [hno]

/-- One call on a live surface leaves the new value to be read back unless it lengthens the old. -/
theorem set_readsBack (hs : s.Settled) (hh : h ∈ s.surfList)
    (hx : (DebugCall.set h (some key) value x).allocated) : ∃ t,
      s.step (.set h (some key) value x) = some (true, t) ∧ t.Settled ∧
        (s.ReadsBack → (t.ReadsBack ↔ s.lengthens (.set h (some key) value x) = false)) := by
  obtain ⟨hc, hk, hv, hok, hlc, hlk⟩ := hx
  obtain ⟨l, hl, huniform, hothers, hself⟩ := storedData_settled key value (hs.data h hh)
    (hs.uniform h hh) hc hv hok
  let j := (s.debugDataList h).any (stands key value)
  let u : DebugState := { s.setDebugDataList h (storedData key value x j l) with
    debugKeyList := if j || x.calloc then withKey key s.debugKeyList else s.debugKeyList }
  have hset : s.tbmSurfaceInternalSetDebugData h (some key) value x = some (true, u) := by
    have heq := setDebugData_eq hs.toKeyed hh hk hlc hlk hl
    rw [hc, Bool.or_true] at heq
    rw [heq]
    simp [u, hc, j]
  have hkeyed : u.Keyed := by
    obtain ⟨r, v, hset', hv, -⟩ := set_keysOnce hs.toKeyed hh value hk hlc hlk
    rw [hset] at hset'
    obtain ⟨-, rfl⟩ := Prod.mk.inj (Option.some.inj hset')
    exact hv
  let t := u.record h (some key) value
  have hdata : t.debugDataList h = storedData key value x j l := by
    simp [t, u, DebugState.record, DebugState.setDebugDataList]
  have hdata' : ∀ k, k ≠ h → t.debugDataList k = s.debugDataList k := by
    intro k hkh
    simp [t, u, DebugState.record, DebugState.setDebugDataList, hkh]
  have hwritten : ∀ k, t.written h k = if k = key then value else s.written h k := by
    intro k
    by_cases hkk : k = key
    · simp [t, u, DebugState.record, hkk]
    · simp [t, u, DebugState.record, DebugState.setDebugDataList, hkk]
  have hwritten' : ∀ k, k ≠ h → t.written k = s.written k := by
    intro k hkh
    simp [t, u, DebugState.record, DebugState.setDebugDataList, hkh]
  have ht : t.Keyed := record_keyed (some key) value hkeyed
  have hfind : ∀ k, t.tbmSurfaceInternalGetDebugData h k = some
      (((storedData key value x j l).find? fun d => d.key = some k).bind DebugData.value) := by
    intro k
    unfold DebugState.tbmSurfaceInternalGetDebugData
    rw [findDebugData_named (ht.data h hh), hdata]
  refine ⟨t, by simp [DebugState.step, hset, t], ?_, fun hr => ?_⟩
  · refine ⟨ht, fun k hk => ?_, hs.distinct, hs.known, fun k hk key => ?_⟩
    · by_cases hkh : k = h
      · rw [hkh, hdata]
        exact huniform
      · rw [hdata' k hkh]
        exact hs.uniform k hk
    · have hkh : k ≠ h := by
        rintro rfl
        exact Nat.lt_irrefl _ (Nat.lt_of_lt_of_le (hs.known k hh) hk)
      rw [hwritten' k hkh]
      exact hs.unwritten k hk key
  · have hlengthens : s.lengthens (.set h (some key) value x) = (s.debugDataList h).any fun d =>
        stands key value d && decide (d.value ≠ value) := by
      simp [DebugState.lengthens, hh]
    rw [hlengthens, ← hself]
    constructor
    · intro hback
      have hkey := hback h hh key
      rw [hfind, hwritten, if_pos rfl] at hkey
      exact Option.some.inj hkey
    · intro hvalue k hk k'
      by_cases hkh : k = h
      · rw [hkh, hfind, hwritten]
        by_cases hkk : k' = key
        · rw [if_pos hkk, hkk]
          exact congrArg some hvalue
        · rw [if_neg hkk, hothers k' hkk, ← findDebugData_named (hs.data h hh)]
          exact hr h hh k'
      · unfold DebugState.tbmSurfaceInternalGetDebugData
        rw [hdata' k hkh, hwritten' k hkh]
        exact hr k hk k'

theorem step_readsBack {c : DebugCall} (hc : c.allocated) (hs : s.Settled) : ∃ r t,
    s.step c = some (r, t) ∧ t.Settled ∧ (s.ReadsBack → (t.ReadsBack ↔ s.lengthens c = false)) := by
  cases c with
  | create ok =>
    cases ok with
    | false => exact ⟨false, s, rfl, hs, fun hr => iff_of_true hr rfl⟩
    | true =>
      exact ⟨true, s.createSurface, rfl, createSurface_settled hs, fun hr =>
        iff_of_true (createSurface_readsBack hs hr) rfl⟩
  | destroy h =>
    by_cases hh : h ∈ s.surfList
    · exact ⟨true, _, if_pos hh, surfaceInternalDestroy_settled hs, fun hr =>
        iff_of_true (surfaceInternalDestroy_readsBack hs hr) rfl⟩
    · exact ⟨false, s, if_neg hh, hs, fun hr => iff_of_true hr rfl⟩
  | set h key value x =>
    by_cases hh : h ∈ s.surfList
    · cases key with
      | none =>
        refine ⟨false, s, ?_, hs, fun hr => iff_of_true hr rfl⟩
        simp [DebugState.step, DebugState.tbmSurfaceInternalSetDebugData, hh]
      | some key =>
        obtain ⟨t, hset, ht, hback⟩ := set_readsBack hs hh hc
        exact ⟨true, t, hset, ht, hback⟩
    · refine ⟨false, s, ?_, hs, fun hr => iff_of_true hr ?_⟩
      · simp [DebugState.step, DebugState.tbmSurfaceInternalSetDebugData, hh]
      · cases key with
        | none => rfl
        | some key => simp [DebugState.lengthens, hh]

theorem initial_settled : DebugState.initial.Settled := by
  refine ⟨initial_keyed, ?_, ?_, ?_, ?_⟩
  · simp [DebugState.initial]
  · simp [DebugState.initial]
  · simp [DebugState.initial]
  · simp [DebugState.initial]

/-- Every key of every surface reads back what was set most recently in all states of a run just if
no call finds a proper prefix of its value under its key. -/
theorem debug_data_reads_back {cs : List DebugCall} (hcs : ∀ c ∈ cs, c.allocated) : ∃ log t,
    run DebugState.step cs .initial = some (log, t) ∧ ((∀ e ∈ log, e.after.ReadsBack) ↔
      Permitted DebugState.step (fun s c => s.lengthens c = false) cs .initial) := by
  have hinit : DebugState.initial.ReadsBack := by
    intro h hh
    cases hh
  exact run_iff_on hcs initial_settled hinit fun s c hc hs => step_readsBack hc hs

/-- A value is set, replaced twice, set to NULL and set again; another surface has the key too. -/
private def writtenInTurn : List DebugCall :=
  [.create true, .create true, .set 0 (some [97]) (some [1, 2]) ample,
    .set 0 (some [97]) (some [1]) ample, .set 0 (some [97]) (some [3]) ample,
    .set 1 (some [97]) (some [1]) ample, .set 0 (some [97]) none ample,
    .set 0 (some [97]) (some [3, 4]) ample, .set 0 (some [97]) (some [3, 4]) ample, .destroy 0]

theorem debug_data_reads_back_in_turn : ∃ log t,
    run DebugState.step writtenInTurn .initial = some (log, t) ∧ ∀ e ∈ log, e.after.ReadsBack := by
  have hallocated : ∀ c ∈ writtenInTurn, c.allocated := by
    simp [writtenInTurn, DebugCall.allocated, ample]
  obtain ⟨log, t, hr, hiff⟩ := debug_data_reads_back hallocated
  exact ⟨log, t, hr, hiff.mpr (by decide +kernel)⟩

/-- A longer value that begins with the stored one is not stored. -/
theorem debug_data_cut : ∃ log t,
    run DebugState.step [.create true, .set 0 (some [97]) (some [1]) ample,
      .set 0 (some [97]) (some [1, 2]) ample] .initial = some (log, t) ∧
      log.map Entry.reply = [true, true, true] ∧
      t.tbmSurfaceInternalGetDebugData 0 [97] = some (some [1]) ∧
      t.written 0 [97] = some [1, 2] ∧ ¬t.ReadsBack := by
  refine ⟨_, _, rfl, rfl, rfl, rfl, fun h => ?_⟩
  exact absurd (h 0 (by decide) [97]) (by decide)

end Values

end Tbm.Bufmgr
