import Tbm.Bufmgr.Operations
import Tbm.Core.Runs
import Tbm.Core.Strings
import Mathlib.Data.List.ReduceOption

/-! How `tbm_bufmgr_init` looks for a backend: the modules that are opened and closed, the one that
stays, and what the manager has from it. A module is code, and its `init` an unknown function; `dir`
is `BUFMGR_MODULE_DIR`. -/
namespace Tbm.Bufmgr

open Runs

section Version

def abiMinorMask : UInt64 := 0x0000FFFF

def abiMajorMask : UInt64 := 0xFFFF0000

def getAbiMinor (v : UInt64) : UInt64 := v &&& abiMinorMask

def getAbiMajor (v : UInt64) : UInt64 := (v &&& abiMajorMask) >>> 16

def setAbiVersion (maj min : UInt64) : UInt64 :=
  ((maj <<< 16) &&& abiMajorMask) ||| (min &&& abiMinorMask)

def tbmAbiVersion : UInt64 := setAbiVersion 1 1

def checkVersion (abiversion : UInt64) : Bool :=
  if getAbiMajor abiversion ≠ getAbiMajor tbmAbiVersion then false
  else if getAbiMinor tbmAbiVersion < getAbiMinor abiversion then false
  else true

end Version

/-- A handle of `dlopen`; a number is never given out twice. -/
abbrev Dl := ℕ

/-- `struct _tbm_bufmgr_backend`, of its functions those that decide the capabilities. -/
structure BackendTable where
  priv : Option Priv
  boImport : Bool
  boExport : Bool
  boImportFd : Bool
  boExportFd : Bool
  deriving DecidableEq, Repr

/-- What the `init` of a module does: its result, and what it passes to `tbm_backend_init`. -/
structure InitAnswer where
  ok : Bool
  handed : List (Option BackendTable)

/-- `TBMModuleData`; of the version only the number. -/
structure ModuleData where
  vers : Option UInt64
  init : Option (ℤ → InitAnswer)

/-- A module that `dlopen` has found, with what `dlsym` finds in it. -/
structure Library where
  data : Option ModuleData

/-- What there is to find: a path may be opened several times in a search, and what it leads to may
change. The directory is listed in the order of `alphasort`. -/
structure Files where
  dlopen : ℕ → List Char → Option Library
  scandir : Option (List (List Char))

/-- The fields of `struct _tbm_bufmgr` that the search sets. `maker` is the module that has made
the backend, which the code does not note. -/
structure MgrData where
  fd : ℤ
  backend : Option BackendTable
  capabilities : UInt32
  moduleData : Option Dl
  maker : Option Dl
  deriving DecidableEq, Repr

namespace MgrData

/-- The manager as `calloc` returns it, with its descriptor. -/
def new (fd : ℤ) : MgrData where
  fd := fd
  backend := none
  capabilities := 0
  moduleData := none
  maker := none

end MgrData

/-- `TBM_BUFMGR_CAPABILITY_SHARE_KEY` and `TBM_BUFMGR_CAPABILITY_SHARE_FD`. -/
def shareKey : UInt32 := 1

def shareFd : UInt32 := 2

def BackendTable.capabilities (t : BackendTable) : UInt32 :=
  (if t.boImport && t.boExport then shareKey else 0) |||
    (if t.boImportFd && t.boExportFd then shareFd else 0)

def tbmBackendInit (h : Dl) (bufmgr : MgrData) : Option BackendTable → MgrData
  | none => bufmgr
  | some t => { bufmgr with backend := some t, capabilities := t.capabilities, maker := some h }

/-- The modules open so far, and an account of the search. -/
structure Search where
  bufmgr : MgrData
  opened : List Dl
  next : Dl
  /-- The files tried and the names freed, in order. -/
  tried : List (List Char)
  freed : List (List Char)

def prefixLib : List Char := "libtbm_".toList

def suffixLib : List Char := ".so".toList

def defaultLib : List Char := prefixLib ++ "default".toList ++ suffixLib

def pathMax : ℕ := 4096

section Search

variable (dir : List Char) (files : Files) (fd : ℤ)

def modulePath (file : List Char) : List Char := snprintf pathMax (dir ++ '/' :: file)

def tbmBufmgrLoadModule (file : List Char) (s : Search) : Bool × Search :=
  let found := files.dlopen s.tried.length (modulePath dir file)
  let s := { s with tried := s.tried ++ [file] }
  match found with
  | none => (false, s)
  | some lib =>
    let moduleData := s.next
    let s := { s with opened := moduleData :: s.opened, next := s.next + 1 }
    -- The jump to `err`.
    let err (s : Search) := (false, { s with opened := s.opened.erase moduleData })
    match lib.data with
    | none => err s
    | some initdata =>
      match initdata.vers, initdata.init with
      | some vers, some init =>
        if !checkVersion vers then err s
        else
          let r := init fd
          let s := { s with bufmgr := r.handed.foldl (tbmBackendInit moduleData) s.bufmgr }
          if !r.ok then err s
          else
            match s.bufmgr.backend with
            | some ⟨some _, _, _, _, _⟩ =>
              (true, { s with bufmgr := { s.bufmgr with moduleData := some moduleData } })
            | _ => err s
      | _, _ => err s

/-- The names in the directory that are taken for modules. -/
def isModuleName (name : List Char) : Bool :=
  (strstr prefixLib name).isSome && strstr suffixLib name == some suffixLib

/-- The loop over the names, from the last one on. -/
def tbmLoadNames : List (List Char) → Bool → Search → Bool × Search
  | [], ret, s => (ret, s)
  | name :: names, ret, s =>
    let (ret, s) :=
      if !ret && isModuleName name then tbmBufmgrLoadModule dir files fd name s else (ret, s)
    tbmLoadNames names ret { s with freed := s.freed ++ [name] }

def tbmLoadModule (s : Search) : Bool × Search :=
  let (ret, s) := tbmBufmgrLoadModule dir files fd defaultLib s
  if ret then (true, s)
  else
    match files.scandir with
    | none => (false, s)
    | some namelist => tbmLoadNames dir files fd namelist.reverse false s

end Search

section Results

variable {dir file : List Char} {files : Files} {fd : ℤ} {h : Dl} {m : MgrData} {s s' : Search}
  {r : Bool × Search}

theorem toNat_getAbiMajor (v : UInt64) : (getAbiMajor v).toNat = v.toNat / 2 ^ 16 % 2 ^ 16 := by
  unfold getAbiMajor
  rw [UInt64.toNat_shiftRight, UInt64.toNat_and]
  have hs : (16 : UInt64).toNat % 64 = 16 := rfl
  have hm : abiMajorMask.toNat >>> 16 = 2 ^ 16 - 1 := rfl
  rw [hs, Nat.shiftRight_and_distrib, hm, Nat.and_two_pow_sub_one_eq_mod,
    Nat.shiftRight_eq_div_pow]

theorem toNat_getAbiMinor (v : UInt64) : (getAbiMinor v).toNat = v.toNat % 2 ^ 16 := by
  unfold getAbiMinor
  have hm : abiMinorMask.toNat = 2 ^ 16 - 1 := rfl
  rw [UInt64.toNat_and, hm, Nat.and_two_pow_sub_one_eq_mod]

/-- The versions that are let in: the major one of the library, and no newer minor one. -/
theorem checkVersion_iff (v : UInt64) :
    checkVersion v ↔ v.toNat / 2 ^ 16 % 2 ^ 16 = 1 ∧ v.toNat % 2 ^ 16 ≤ 1 := by
  have hmaj : getAbiMajor tbmAbiVersion = 1 := rfl
  have hmin : getAbiMinor tbmAbiVersion = 1 := rfl
  unfold checkVersion
  rw [hmaj, hmin, ← toNat_getAbiMajor, ← toNat_getAbiMinor]
  have hone : (1 : UInt64).toNat = 1 := rfl
  split_ifs with h h' <;> rw [Ne, ← UInt64.toNat_inj, hone] at h
  · simp [h]
  · rw [UInt64.lt_iff_toNat_lt, hone] at h'
    simp only [false_iff, not_and, not_le]
    omega
  · rw [UInt64.lt_iff_toNat_lt, hone] at h'
    simp only [true_iff]
    omega

/-- The table of the last successful `tbm_backend_init`. -/
def lastHanded (l : List (Option BackendTable)) : Option BackendTable := l.reduceOption.getLast?

theorem foldl_tbmBackendInit (l : List (Option BackendTable)) :
    l.foldl (tbmBackendInit h) m = tbmBackendInit h m (lastHanded l) := by
  induction l using List.reverseRecOn with
  | nil => rfl
  | append_singleton l o ih =>
    rw [List.foldl_append, ih]
    unfold lastHanded
    cases o with
    | none => simp [tbmBackendInit, List.reduceOption_append]
    | some t =>
      rw [List.reduceOption_append, List.reduceOption_singleton, Option.toList_some,
        List.getLast?_concat]
      cases l.reduceOption.getLast? <;> rfl

/-- The capabilities are those of the functions the manager has. -/
def MgrData.Fits (m : MgrData) : Prop := m.capabilities = m.backend.elim 0 BackendTable.capabilities

theorem MgrData.Fits.backendInit (hm : m.Fits) (t : Option BackendTable) :
    (tbmBackendInit h m t).Fits := by
  cases t with
  | none => exact hm
  | some t => rfl

/-- A module that the search stops at. -/
def Library.Accepted (lib : Library) (fd : ℤ) : Prop := ∃ vers init t p,
  lib.data = some ⟨some vers, some init⟩ ∧ checkVersion vers ∧ (init fd).ok ∧
    lastHanded (init fd).handed = some t ∧ t.priv = some p

def Files.Accepted (files : Files) (dir : List Char) (fd : ℤ) (i : ℕ) (file : List Char) : Prop :=
  ∃ lib, files.dlopen i (modulePath dir file) = some lib ∧ lib.Accepted fd

/-- An `init` that reports success has initialized the backend. -/
def Files.HandsOver (files : Files) (fd : ℤ) : Prop := ∀ i path lib vers init,
  files.dlopen i path = some lib → lib.data = some ⟨vers, some init⟩ → (init fd).ok →
    (lastHanded (init fd).handed).isSome

/-- One module is tried. -/
structure Tried (dir : List Char) (files : Files) (fd : ℤ) (file : List Char) (s : Search)
    (r : Bool × Search) : Prop where
  tried : r.2.tried = s.tried ++ [file]
  freed : r.2.freed = s.freed
  result : r.1 = true ↔ files.Accepted dir fd s.tried.length file
  opened : r.2.opened = if r.1 then s.next :: s.opened else s.opened
  next : if r.1 then r.2.next = s.next + 1 else s.next ≤ r.2.next
  fits : s.bufmgr.Fits → r.2.bufmgr.Fits
  loaded : r.1 = true → r.2.bufmgr.moduleData = some s.next ∧ r.2.bufmgr.maker = some s.next ∧
    ∃ t p, r.2.bufmgr.backend = some t ∧ t.priv = some p

theorem tbmBufmgrLoadModule_tried (hf : files.HandsOver fd) :
    Tried dir files fd file s (tbmBufmgrLoadModule dir files fd file s) := by
  have hno (hn : ¬files.Accepted dir fd s.tried.length file) {m : MgrData}
      (hm : s.bufmgr.Fits → m.Fits) {n : Dl} (hn : s.next ≤ n) :
      Tried dir files fd file s (false, ⟨m, s.opened, n, s.tried ++ [file], s.freed⟩) := by
    refine ⟨rfl, rfl, ?_, rfl, hn, hm, ?_⟩ <;> simp_all
  unfold tbmBufmgrLoadModule
  cases hl : files.dlopen s.tried.length (modulePath dir file) with
  | none =>
    refine hno ?_ id (Nat.le_refl _)
    rintro ⟨lib, hlib, -⟩
    simp [hl] at hlib
  | some lib =>
    have herr (hn : ¬lib.Accepted fd) {m : MgrData} (hm : s.bufmgr.Fits → m.Fits) :
        Tried dir files fd file s
          (false, ⟨m, s.opened, s.next + 1, s.tried ++ [file], s.freed⟩) :=
      hno (by simpa [Files.Accepted, hl] using hn) hm (Nat.le_succ _)
    simp only [List.erase_cons_head, foldl_tbmBackendInit]
    obtain ⟨_ | ⟨_ | vers, _ | init⟩⟩ := lib
    · exact herr (by simp [Library.Accepted]) id
    · exact herr (by simp [Library.Accepted]) id
    · exact herr (by simp [Library.Accepted]) id
    · exact herr (by simp [Library.Accepted]) id
    · simp only
      split_ifs with hv hok
      · exact herr (by simp_all [Library.Accepted]) id
      · exact herr (by simp_all [Library.Accepted]) (·.backendInit _)
      · have hsome := hf _ _ _ _ init hl rfl (by simpa using hok)
        obtain ⟨⟨priv, a, b, c, d⟩, ht⟩ := Option.isSome_iff_exists.mp hsome
        rw [ht]
        cases priv with
        | none =>
          exact herr (by simp_all [Library.Accepted]) (·.backendInit (some ⟨none, a, b, c, d⟩))
        | some p =>
          refine ⟨rfl, rfl, iff_of_true rfl ?_, rfl, rfl, fun _ => rfl, fun _ =>
            ⟨rfl, rfl, _, p, rfl, rfl⟩⟩
          exact ⟨_, hl, vers, init, _, p, rfl, by simpa using hv, by simpa using hok, ht, rfl⟩

/-- The files in the order they are tried in. -/
def Files.candidates (files : Files) : List (List Char) :=
  defaultLib :: ((files.scandir.getD []).reverse.filter isModuleName)

/-- A search for the first of some files that is accepted, the first of them being the `i`-th. -/
def Files.First (files : Files) (dir : List Char) (fd : ℤ) (i : ℕ) :
    List (List Char) → List (List Char) → Bool → Prop
  | [], tried, ret => tried = [] ∧ ret = false
  | file :: cs, tried, ret =>
    (files.Accepted dir fd i file ∧ tried = [file] ∧ ret = true) ∨
      (¬files.Accepted dir fd i file ∧
        ∃ rest, tried = file :: rest ∧ files.First dir fd (i + 1) cs rest ret)

/-- A search, up to the files it tries and the names it frees. -/
structure Searched (s : Search) (r : Bool × Search) : Prop where
  next : s.next ≤ r.2.next
  fits : s.bufmgr.Fits → r.2.bufmgr.Fits
  failed : r.1 = false → r.2.opened = s.opened
  loaded : r.1 = true → ∃ h t p, s.next ≤ h ∧ h < r.2.next ∧ r.2.opened = h :: s.opened ∧
    r.2.bufmgr.moduleData = some h ∧ r.2.bufmgr.maker = some h ∧
    r.2.bufmgr.backend = some t ∧ t.priv = some p

theorem Tried.searched (h : Tried dir files fd file s r) : Searched s r := by
  obtain ⟨ret, s'⟩ := r
  have hn := h.next
  cases ret with
  | false => exact ⟨hn, h.fits, fun _ => h.opened, by simp⟩
  | true =>
    obtain ⟨hd, hm, t, p, hb, hp⟩ := h.loaded rfl
    have hlt : s.next < s'.next := Nat.lt_of_lt_of_eq (Nat.lt_succ_self _) hn.symm
    exact ⟨hlt.le, h.fits, by simp, fun _ =>
      ⟨s.next, t, p, Nat.le_refl _, hlt, h.opened, hd, hm, hb, hp⟩⟩

theorem Searched.trans (h : Searched s (false, s')) (h' : Searched s' r) : Searched s r := by
  refine ⟨h.next.trans h'.next, h'.fits ∘ h.fits, fun hr => ?_, fun hr => ?_⟩
  · rw [h'.failed hr]
    exact h.failed rfl
  · obtain ⟨d, t, p, hle, hlt, ho, hrest⟩ := h'.loaded hr
    refine ⟨d, t, p, h.next.trans hle, hlt, ?_, hrest⟩
    rw [ho, h.failed rfl]

theorem Searched.free (h : Searched s r) (l : List (List Char)) :
    Searched s (r.1, { r.2 with freed := l }) := ⟨h.next, h.fits, h.failed, h.loaded⟩

/-- After a success nothing more is tried; every name is freed. -/
theorem tbmLoadNames_true (names : List (List Char)) (s : Search) :
    tbmLoadNames dir files fd names true s = (true, { s with freed := s.freed ++ names }) := by
  induction names generalizing s with
  | nil => simp [tbmLoadNames]
  | cons name names ih => simp [tbmLoadNames, ih]

theorem tbmLoadNames_first (hf : files.HandsOver fd) (names : List (List Char)) (s : Search) :
    let r := tbmLoadNames dir files fd names false s
    Searched s r ∧ r.2.freed = s.freed ++ names ∧ ∃ tried, r.2.tried = s.tried ++ tried ∧
      files.First dir fd s.tried.length (names.filter isModuleName) tried r.1 := by
  induction names generalizing s with
  | nil =>
    refine ⟨⟨Nat.le_refl _, id, fun _ => rfl, ?_⟩, (List.append_nil _).symm, [],
      (List.append_nil _).symm, rfl, rfl⟩
    simp [tbmLoadNames]
  | cons name names ih =>
    simp only [tbmLoadNames, Bool.not_false, Bool.true_and]
    by_cases hm : isModuleName name
    · rw [if_pos hm, List.filter_cons_of_pos hm]
      have ht : Tried dir files fd name s (tbmBufmgrLoadModule dir files fd name s) :=
        tbmBufmgrLoadModule_tried hf
      generalize tbmBufmgrLoadModule dir files fd name s = r at ht
      obtain ⟨ret, s'⟩ := r
      have htried : s'.tried = s.tried ++ [name] := ht.tried
      have hfreed : s'.freed = s.freed := ht.freed
      cases ret with
      | true =>
        simp only [tbmLoadNames_true]
        refine ⟨ht.searched.free _, ?_, [name], htried, .inl ⟨ht.result.mp rfl, rfl, rfl⟩⟩
        rw [hfreed, List.append_assoc]
        rfl
      | false =>
        obtain ⟨hs, hfree, rest, hrest, hfirst⟩ := ih { s' with freed := s'.freed ++ [name] }
        refine ⟨(ht.searched.free _).trans hs, ?_, name :: rest, ?_, .inr ⟨?_, rest, rfl, ?_⟩⟩
        · rw [hfree, hfreed, List.append_assoc]
          rfl
        · rw [hrest, htried, List.append_assoc]
          rfl
        · exact fun h => Bool.false_ne_true (ht.result.mpr h)
        · have hlen : s.tried.length + 1 = s'.tried.length := by
            rw [htried, List.length_append]
            rfl
          rw [hlen]
          exact hfirst
    · rw [if_neg hm, List.filter_cons_of_neg hm]
      obtain ⟨hs, hfree, htried⟩ := ih { s with freed := s.freed ++ [name] }
      refine ⟨⟨hs.next, hs.fits, hs.failed, hs.loaded⟩, ?_, htried⟩
      rw [hfree, List.append_assoc]
      rfl

/-- The default module is tried first, then those of the directory from the last one on, up to the
first that is accepted; once the directory is listed all its names are freed. -/
theorem tbmLoadModule_first (hf : files.HandsOver fd) (hs : s.tried = []) :
    let r := tbmLoadModule dir files fd s
    Searched s r ∧ files.First dir fd 0 files.candidates r.2.tried r.1 ∧
      (files.Accepted dir fd 0 defaultLib → r.2.freed = s.freed) ∧
      (¬files.Accepted dir fd 0 defaultLib →
        r.2.freed = s.freed ++ (files.scandir.getD []).reverse) := by
  unfold tbmLoadModule
  have ht : Tried dir files fd defaultLib s (tbmBufmgrLoadModule dir files fd defaultLib s) :=
    tbmBufmgrLoadModule_tried hf
  generalize tbmBufmgrLoadModule dir files fd defaultLib s = r at ht
  obtain ⟨ret, s'⟩ := r
  have hfreed : s'.freed = s.freed := ht.freed
  have htried : s'.tried = [defaultLib] := by
    have h := ht.tried
    rwa [hs] at h
  have hres := ht.result
  rw [hs] at hres
  cases ret with
  | true =>
    have hacc := hres.mp rfl
    exact ⟨ht.searched, .inl ⟨hacc, htried, rfl⟩, fun _ => hfreed, fun h => absurd hacc h⟩
  | false =>
    have hacc : ¬files.Accepted dir fd 0 defaultLib := fun h => Bool.false_ne_true (hres.mpr h)
    unfold Files.candidates
    cases hd : files.scandir with
    | none =>
      exact ⟨ht.searched, .inr ⟨hacc, [], htried, rfl, rfl⟩, fun h => absurd h hacc,
        fun _ => by simpa using hfreed⟩
    | some namelist =>
      obtain ⟨hsearch, hfree, rest, hrest, hfirst⟩ :=
        tbmLoadNames_first hf namelist.reverse s'
      rw [htried] at hrest hfirst
      refine ⟨ht.searched.trans hsearch, .inr ⟨hacc, rest, hrest, hfirst⟩, fun h => absurd h hacc,
        fun _ => ?_⟩
      rw [hfreed] at hfree
      exact hfree

/-- A module of some version whose `init` sets the backend up. -/
private def library (vers : UInt64) (priv : Option Priv) : Library :=
  ⟨some ⟨some vers, some fun _ => ⟨priv.isSome, [some ⟨priv, true, true, true, false⟩]⟩⟩⟩

/-- The module with the last name is too new. -/
private def shelf : Files where
  dlopen _ path :=
    if path = "/lib/libtbm_new.so".toList then some (library (setAbiVersion 1 2) (some 7))
    else if path = "/lib/libtbm_good.so".toList then some (library (setAbiVersion 1 0) (some 7))
    else if path = "/lib/libtbm_bad.so".toList then some (library (setAbiVersion 1 1) none)
    else none
  scandir := some (["libtbm_bad.so", "libtbm_good.so", "libtbm_good.so.so",
    "libtbm_new.so"].map String.toList)

private theorem shelf_handsOver (fd : ℤ) : shelf.HandsOver fd := by
  have hlib (v : UInt64) (priv : Option Priv) (vers : Option UInt64) (init : ℤ → InitAnswer)
      (h : (library v priv).data = some ⟨vers, some init⟩) :
      (lastHanded (init fd).handed).isSome := by
    simp only [library, Option.some.injEq, ModuleData.mk.injEq] at h
    rw [← h.2]
    rfl
  intro i path lib vers init hl hd _
  simp only [shelf] at hl
  split_ifs at hl <;> obtain rfl := Option.some.inj hl <;> exact hlib _ _ _ _ hd

theorem tbmLoadModule_first_shelf :
    let s : Search := ⟨.new (-1), [], 0, [], []⟩
    let r := tbmLoadModule "/lib".toList shelf (-1) s
    r.1 = true ∧ r.2.opened = [1] ∧
      r.2.tried = [defaultLib, "libtbm_new.so".toList, "libtbm_good.so".toList] ∧
      Searched s r ∧ shelf.First "/lib".toList (-1) 0 shelf.candidates r.2.tried r.1 ∧
      (shelf.Accepted "/lib".toList (-1) 0 defaultLib → r.2.freed = s.freed) ∧
      (¬shelf.Accepted "/lib".toList (-1) 0 defaultLib →
        r.2.freed = s.freed ++ (shelf.scandir.getD []).reverse) :=
  ⟨by decide +kernel, by decide +kernel, by decide +kernel,
    tbmLoadModule_first (shelf_handsOver _) rfl⟩

/-- The names that are taken for modules: the prefix anywhere, the suffix at the end and not
before. -/
theorem isModuleName_iff (name : List Char) : isModuleName name ↔
    prefixLib <:+: name ∧ suffixLib <:+ name ∧ ¬suffixLib <:+: name.dropLast := by
  unfold isModuleName
  rw [Bool.and_eq_true, beq_iff_eq, strstr_isSome, strstr_eq_self (by decide)]

end Results

inductive LoadError
  | none | heapAllocFailed | loadModuleFailed
  deriving DecidableEq, Repr

/-- The globals of a process that make and drop the manager, and its open modules. -/
structure Process where
  gBufMgr : Option Mgr
  bufmgr : MgrData
  refCount : ℤ
  lockType : LockType
  mgrs : ℕ
  lastError : LoadError
  opened : List Dl
  next : Dl

/-- What one `tbm_bufmgr_init` is answered. -/
structure LoadAnswers where
  calloc : Bool
  files : Files
  env : Option String

inductive LoadOp
  | init (fd : ℤ) (x : LoadAnswers)
  | deinit (m : Option Mgr)
  /-- A function of the backend. -/
  | call
  | getCapability (m : Option Mgr)

inductive LoadReply
  | done
  | mgr (m : Option Mgr)
  | capabilities (c : UInt32)

namespace Process

def initial : Process where
  gBufMgr := none
  bufmgr := .new 0
  refCount := 0
  lockType := .tryOnce
  mgrs := 0
  lastError := .none
  opened := []
  next := 0

variable (dir : List Char) (p : Process)

/-- The search of one `tbm_bufmgr_init`. -/
def search (fd : ℤ) (files : Files) : Bool × Search :=
  tbmLoadModule dir files fd ⟨.new fd, p.opened, p.next, [], []⟩

def tbmBufmgrInit (fd : ℤ) (x : LoadAnswers) : Option Mgr × Process :=
  match p.gBufMgr with
  | some m => (some m, { p with refCount := p.refCount + 1 })
  | none =>
    if !x.calloc then (none, { p with lastError := .heapAllocFailed })
    else
      let (ret, s) := p.search dir fd x.files
      let p := { p with opened := s.opened, next := s.next }
      if !ret then (none, { p with lastError := .loadModuleFailed })
      else
        (some p.mgrs, { p with
          gBufMgr := some p.mgrs
          mgrs := p.mgrs + 1
          bufmgr := s.bufmgr
          refCount := 1
          lockType := lockTypeOf x.env })

/-- A call through the table of the backend, whose code must be there. -/
def callBackend : Option Unit := do
  let _ ← p.bufmgr.backend
  let h ← p.bufmgr.maker
  if h ∈ p.opened then some () else none

def tbmBufmgrDeinit (m : Option Mgr) : Option Process :=
  if m.isNone ∨ p.gBufMgr.isNone then some p
  -- A manager that is gone.
  else if m ≠ p.gBufMgr then none
  else if 0 < p.refCount - 1 then some { p with refCount := p.refCount - 1 }
  else do
    p.callBackend
    let h ← p.bufmgr.moduleData
    some { p with
      gBufMgr := none
      refCount := p.refCount - 1
      opened := p.opened.erase h }

def tbmBufmgrGetCapability (m : Option Mgr) : UInt32 :=
  if m.isSome ∧ m = p.gBufMgr then p.bufmgr.capabilities else 0

def step : LoadOp → Process → Option (LoadReply × Process)
  | .init fd x, p =>
    let (m, p) := p.tbmBufmgrInit dir fd x
    some (.mgr m, p)
  | .deinit m, p => (p.tbmBufmgrDeinit m).map (.done, ·)
  | .call, p => p.callBackend.map fun _ => (.done, p)
  | .getCapability m, p => some (.capabilities (p.tbmBufmgrGetCapability m), p)

/-- Clients give back the manager they have got, and the backend is only called while there is
one. -/
def Sane : LoadOp → Prop
  | .deinit m => m = none ∨ p.gBufMgr = none ∨ m = p.gBufMgr
  | .call => p.gBufMgr.isSome
  | .init _ _ | .getCapability _ => True

instance : DecidablePred p.Sane
  | .deinit m => inferInstanceAs (Decidable (m = none ∨ p.gBufMgr = none ∨ m = p.gBufMgr))
  | .call => inferInstanceAs (Decidable (p.gBufMgr.isSome = true))
  | .init _ _ | .getCapability _ => isTrue trivial

/-- The open module is the one that has made the backend of the manager. -/
structure Loaded : Prop where
  closed : p.gBufMgr = none → p.opened = []
  loaded : p.gBufMgr.isSome → ∃ h t q, p.opened = [h] ∧ p.bufmgr.moduleData = some h ∧
    p.bufmgr.maker = some h ∧ p.bufmgr.backend = some t ∧ t.priv = some q ∧
    p.bufmgr.capabilities = t.capabilities ∧ 0 < p.refCount

variable {dir p} {fd : ℤ} {x : LoadAnswers}

theorem loaded_initial : initial.Loaded := ⟨fun _ => rfl, by simp [initial]⟩

theorem Loaded.init (h : p.Loaded) (hf : x.files.HandsOver fd) :
    (p.tbmBufmgrInit dir fd x).2.Loaded := by
  unfold tbmBufmgrInit
  cases hg : p.gBufMgr with
  | some m =>
    obtain ⟨d, t, q, ho, hd, hm, hb, hq, hc, hr⟩ := h.loaded (by simp [hg])
    refine ⟨by simp, fun _ => ⟨d, t, q, ho, hd, hm, hb, hq, hc, ?_⟩⟩
    simp only
    omega
  | none =>
    have hopened := h.closed hg
    have hs : Searched ⟨.new fd, p.opened, p.next, [], []⟩ (p.search dir fd x.files) :=
      (tbmLoadModule_first hf rfl).1
    simp only
    split_ifs with hx hr
    · exact ⟨fun _ => hopened, by simp⟩
    · refine ⟨fun _ => ?_, by simp⟩
      rw [← hopened]
      exact hs.failed (by simpa using hr)
    · obtain ⟨d, t, q, -, -, ho, hd, hm, hb, hq⟩ := hs.loaded (by simpa using hr)
      refine ⟨by simp, fun _ => ⟨d, t, q, ?_, hd, hm, hb, hq, ?_, Int.one_pos⟩⟩
      · rw [← hopened]
        exact ho
      · have hfits : (p.search dir fd x.files).2.bufmgr.Fits := hs.fits rfl
        rw [MgrData.Fits, hb] at hfits
        exact hfits

theorem tbmBufmgrInit_fst :
    (p.tbmBufmgrInit dir fd x).1 = (p.tbmBufmgrInit dir fd x).2.gBufMgr := by
  unfold tbmBufmgrInit
  cases p.gBufMgr with
  | some m => rfl
  | none =>
    simp only
    split_ifs <;> rfl

theorem tbmBufmgrInit_gBufMgr (h : p.gBufMgr.isSome) :
    (p.tbmBufmgrInit dir fd x).2.gBufMgr = p.gBufMgr := by
  unfold tbmBufmgrInit
  cases hg : p.gBufMgr with
  | some m => rfl
  | none => simp [hg] at h

theorem tbmBufmgrDeinit_gBufMgr {p' : Process} {m : Option Mgr}
    (h : p.tbmBufmgrDeinit m = some p') : (p'.gBufMgr = p.gBufMgr ∨ p'.gBufMgr = none) ∧
      (m = none ∨ 1 < p.refCount → p'.gBufMgr = p.gBufMgr) := by
  unfold tbmBufmgrDeinit at h
  split_ifs at h with hnone hm hr
  · cases h
    exact ⟨.inl rfl, fun _ => rfl⟩
  · cases h
    exact ⟨.inl rfl, fun _ => rfl⟩
  · obtain ⟨-, -, h⟩ := Option.bind_eq_some_iff.mp h
    obtain ⟨d, -, h⟩ := Option.bind_eq_some_iff.mp h
    cases h
    refine ⟨.inr rfl, fun hkept => ?_⟩
    rcases hkept with hkept | hkept
    · simp [hkept] at hnone
    · omega

/-- The backend can be called while there is a manager. -/
theorem Loaded.callBackend (h : p.Loaded) (hg : p.gBufMgr.isSome) : p.callBackend = some () := by
  obtain ⟨d, t, q, ho, -, hm, hb, -⟩ := h.loaded hg
  simp [Process.callBackend, ho, hm, hb]

theorem Loaded.deinit (h : p.Loaded) {m : Option Mgr} (hs : p.Sane (.deinit m)) :
    ∃ p', p.tbmBufmgrDeinit m = some p' ∧ p'.Loaded := by
  unfold tbmBufmgrDeinit
  split_ifs with hnone hm hr
  · exact ⟨p, rfl, h⟩
  · rcases hs with hs | hs | hs
    · simp [hs] at hnone
    · simp [hs] at hnone
    · exact absurd hs hm
  · refine ⟨_, rfl, h.closed, fun hg => ?_⟩
    obtain ⟨d, t, q, ho, hd, hm, hb, hq, hc, -⟩ := h.loaded hg
    exact ⟨d, t, q, ho, hd, hm, hb, hq, hc, hr⟩
  · have hg : p.gBufMgr.isSome := by
      rw [not_or, Option.isNone_iff_eq_none, Option.isNone_iff_eq_none] at hnone
      exact Option.isSome_iff_ne_none.mpr hnone.2
    obtain ⟨d, t, q, ho, hd, -⟩ := h.loaded hg
    refine ⟨_, by rw [h.callBackend hg, hd]; rfl, fun _ => ?_, by simp⟩
    simp [ho]

/-- In any run of calls the module whose functions the manager calls is open, and it is the only one
that is; without a manager none is. -/
theorem backend_stays_loaded {ops : List LoadOp}
    (hf : ∀ op ∈ ops, ∀ fd x, op = .init fd x → x.files.HandsOver fd)
    (hp : Permitted (step dir) Sane ops .initial) :
    ∃ log p, run (step dir) ops .initial = some (log, p) ∧ p.Loaded := by
  refine run_total (fun _ p => p.Loaded) loaded_initial ?_ (hp.and hf)
  rintro - p op h ⟨hs, hf⟩
  cases op with
  | init fd x => exact ⟨_, _, rfl, h.init (hf fd x rfl)⟩
  | deinit m =>
    obtain ⟨p', hp', h'⟩ := h.deinit hs
    exact ⟨_, p', by rw [step, hp']; rfl, h'⟩
  | call => exact ⟨_, p, by rw [step, h.callBackend hs]; rfl, h⟩
  | getCapability m => exact ⟨_, p, rfl, h⟩

/-- Two clients and a late call; the manager is made anew, and last there is nothing to load. -/
private def reloaded : List LoadOp :=
  [.init (-1) ⟨true, shelf, none⟩, .init (-1) ⟨true, shelf, none⟩, .deinit (some 0), .call,
    .deinit (some 0), .deinit (some 0), .init 5 ⟨true, shelf, some "once"⟩, .call,
    .getCapability (some 1), .deinit (some 1),
    .init (-1) ⟨true, { shelf with scandir := none }, none⟩]

theorem backend_stays_loaded_reloaded : ∃ log p,
    run (step "/lib".toList) reloaded .initial = some (log, p) ∧ p.Loaded := by
  apply backend_stays_loaded
  · intro op hop fd x hx
    have hfiles : x.files = shelf ∨ x.files = { shelf with scandir := none } := by
      subst hx
      simp only [reloaded, List.mem_cons, LoadOp.init.injEq, reduceCtorEq, List.not_mem_nil,
        or_false, false_or] at hop
      rcases hop with ⟨-, rfl⟩ | ⟨-, rfl⟩ | ⟨-, rfl⟩ | ⟨-, rfl⟩ <;> simp
    rcases hfiles with h | h <;> rw [h] <;> exact shelf_handsOver fd
  · decide +kernel

/-- The search is what decides the answer that the other calls know of it. -/
structure Agrees (p : Process) (s : State) : Prop where
  gBufMgr : p.gBufMgr = s.gBufMgr
  mgrs : p.mgrs = s.mgrs
  refCount : p.gBufMgr.isSome → p.refCount = s.refCount
  lockType : p.gBufMgr.isSome → p.lockType = s.lockType

theorem Agrees.init {s : State} (h : p.Agrees s) {y : Answers}
    (hl : y.load = (x.calloc && (p.search dir fd x.files).1)) (he : y.env = x.env) :
    (p.tbmBufmgrInit dir fd x).1 = (s.bufmgrInit y).1 ∧
      (p.tbmBufmgrInit dir fd x).2.Agrees (s.bufmgrInit y).2 := by
  unfold tbmBufmgrInit State.bufmgrInit
  rw [← h.gBufMgr]
  cases hg : p.gBufMgr with
  | some m =>
    have hsome : p.gBufMgr.isSome := by simp [hg]
    refine ⟨rfl, rfl, h.mgrs, fun _ => ?_, fun _ => h.lockType hsome⟩
    exact congrArg (· + 1) (h.refCount hsome)
  | none =>
    simp only [hl]
    cases x.calloc with
    | false => exact ⟨rfl, hg.symm.trans h.gBufMgr, h.mgrs, by simp, by simp⟩
    | true =>
      cases hr : (p.search dir fd x.files).1 with
      | false => exact ⟨by simp, hg.symm.trans h.gBufMgr, h.mgrs, by simp, by simp⟩
      | true =>
        have hm := h.mgrs
        refine ⟨by simp [hm], by simp [hm], by simp [hm], fun _ => rfl, fun _ => ?_⟩
        simp [he]

end Process

end Tbm.Bufmgr
