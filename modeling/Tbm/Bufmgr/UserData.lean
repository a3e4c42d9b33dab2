import Tbm.Core.Runs
import Mathlib.Data.Int.Notation
import Mathlib.Data.List.Perm.Basic
import Mathlib.Data.List.Nodup

/-! The user data of a buffer object or a surface: which pointers its free functions get, and
when. Of the owner itself only the reference count and its place on the list of the manager
matter. -/
namespace Tbm.Bufmgr

open Runs

/-- The address of a free function; NULL is `none`. -/
abbrev FreeFunc := ℕ

/-- A pointer of the client; NULL is `none`. -/
abbrev Ptr := ℕ

/-- `tbm_user_data`. -/
structure UserData where
  key : UInt64
  freeFunc : Option FreeFunc
  data : Option Ptr
  deriving DecidableEq, Repr

/-- The free function is called only if there is one and there is something to free. -/
def UserData.freeCall (d : UserData) : Option (FreeFunc × Ptr) :=
  match d.data, d.freeFunc with
  | some p, some f => some (f, p)
  | _, _ => none

/-- `struct _tbm_bo` or `struct _tbm_surface` as far as user data go; `live` if it passes the check
of its handle. The last field is an observer: the calls of free functions. -/
structure Owner where
  live : Bool
  refCnt : ℤ
  userData : List UserData
  freed : List (FreeFunc × Ptr)

inductive OwnerKind
  | bo | surface
  deriving DecidableEq, Repr

def userDataLookup (l : List UserData) (key : UInt64) : Option UserData :=
  l.find? fun d => d.key = key

/-- `ok` is the outcome of `calloc`. -/
def userDataCreate (ok : Bool) (key : UInt64) (f : Option FreeFunc) : Option UserData :=
  if ok then some ⟨key, f, none⟩ else none

/-- The data of the first entry with the key are replaced. -/
def storeData (key : UInt64) (p : Option Ptr) : List UserData → List UserData
  | [] => []
  | d :: l => if d.key = key then { d with data := p } :: l else d :: storeData key p l

namespace Owner

variable (o : Owner)

def callFree (d : UserData) : Owner := { o with freed := o.freed ++ d.freeCall.toList }

/-- `user_data_delete` on the first entry with the key of `d`. -/
def userDataDelete (d : UserData) : Owner :=
  let o := o.callFree d
  { o with userData := o.userData.eraseP fun e => e.key = d.key }

/-- The loop over the entries when the owner goes. -/
def deleteAll : List UserData → Owner → Owner
  | [], o => o
  | d :: l, o => deleteAll l (o.userDataDelete d)

/-- The two functions that add user data have the same body. -/
def addUserData (ok : Bool) (key : UInt64) (f : Option FreeFunc) : Bool × Owner :=
  if o.live then
    match userDataLookup o.userData key with
    | some _ => (false, o)
    | none =>
      match userDataCreate ok key f with
      | none => (false, o)
      | some d => (true, { o with userData := d :: o.userData })
  else (false, o)

def tbmBoAddUserData (ok : Bool) (key : UInt64) (f : Option FreeFunc) : Bool × Owner :=
  o.addUserData ok key f

def tbmSurfaceInternalAddUserData (ok : Bool) (key : UInt64) (f : Option FreeFunc) : Bool × Owner :=
  o.addUserData ok key f

def tbmBoSetUserData (key : UInt64) (p : Option Ptr) : Bool × Owner :=
  if o.live then
    if o.userData.isEmpty then (false, o)
    else
      match userDataLookup o.userData key with
      | none => (false, o)
      | some d => (true, { o.callFree d with userData := storeData key p o.userData })
  else (false, o)

def tbmSurfaceInternalSetUserData (key : UInt64) (p : Option Ptr) : Bool × Owner :=
  if o.live then
    match userDataLookup o.userData key with
    | none => (false, o)
    | some d => (true, { o.callFree d with userData := storeData key p o.userData })
  else (false, o)

/-- `out` tells whether there is a place for the answer; the second result is what is written to
it. -/
def tbmBoGetUserData (key : UInt64) (out : Bool) : Bool × Option (Option Ptr) :=
  if o.live then
    if !out || o.userData.isEmpty then (false, none)
    else
      match userDataLookup o.userData key with
      | none => (false, some none)
      | some d => (true, some d.data)
  else (false, none)

def tbmSurfaceInternalGetUserData (key : UInt64) (out : Bool) : Bool × Option (Option Ptr) :=
  if o.live then
    if !out then (false, none)
    else
      match userDataLookup o.userData key with
      | none => (false, some none)
      | some d => (true, some d.data)
  else (false, none)

def tbmBoDeleteUserData (key : UInt64) : Bool × Owner :=
  if o.live then
    if o.userData.isEmpty then (false, o)
    else
      match userDataLookup o.userData key with
      | none => (false, o)
      | some d => (true, o.userDataDelete d)
  else (false, o)

def tbmSurfaceInternalDeleteUserData (key : UInt64) : Bool × Owner :=
  if o.live then
    match userDataLookup o.userData key with
    | none => (false, o)
    | some d => (true, o.userDataDelete d)
  else (false, o)

def addRef : Owner := if o.live then { o with refCnt := o.refCnt + 1 } else o

/-- The end of the owner. -/
def destroy : Owner := { deleteAll o.userData o with live := false }

def tbmBoUnref : Owner :=
  if o.live then
    if o.refCnt ≤ 0 then o
    else
      let o := { o with refCnt := o.refCnt - 1 }
      if o.refCnt = 0 then o.destroy else o
  else o

/-- `tbm_surface_internal_unref` and `tbm_surface_internal_destroy`. -/
def tbmSurfaceInternalUnref : Owner :=
  if o.live then
    let o := { o with refCnt := o.refCnt - 1 }
    if 0 < o.refCnt then o else if o.refCnt = 0 then o.destroy else o
  else o

end Owner

inductive DataCall
  | add (key : UInt64) (f : Option FreeFunc) (ok : Bool)
  | set (key : UInt64) (p : Option Ptr)
  | get (key : UInt64) (out : Bool)
  | delete (key : UInt64)
  | ref
  | unref
  deriving DecidableEq, Repr

structure DataReply where
  ret : Bool
  out : Option (Option Ptr)
  deriving DecidableEq, Repr

/-- One call on the owner. -/
def Owner.step (kind : OwnerKind) (c : DataCall) (o : Owner) : Option (DataReply × Owner) :=
  let done (r : Bool × Owner) : Option (DataReply × Owner) := some (⟨r.1, none⟩, r.2)
  match kind, c with
  | .bo, .add key f ok => done (o.tbmBoAddUserData ok key f)
  | .bo, .set key p => done (o.tbmBoSetUserData key p)
  | .bo, .get key out =>
    some (⟨(o.tbmBoGetUserData key out).1, (o.tbmBoGetUserData key out).2⟩, o)
  | .bo, .delete key => done (o.tbmBoDeleteUserData key)
  | .bo, .unref => done (true, o.tbmBoUnref)
  | .surface, .add key f ok => done (o.tbmSurfaceInternalAddUserData ok key f)
  | .surface, .set key p => done (o.tbmSurfaceInternalSetUserData key p)
  | .surface, .get key out =>
    some (⟨(o.tbmSurfaceInternalGetUserData key out).1,
      (o.tbmSurfaceInternalGetUserData key out).2⟩, o)
  | .surface, .delete key => done (o.tbmSurfaceInternalDeleteUserData key)
  | .surface, .unref => done (true, o.tbmSurfaceInternalUnref)
  | _, .ref => done (true, o.addRef)

/-- What a call can do to the user data. -/
inductive DataStep (o : Owner) : DataCall → DataReply → Owner → Prop
  | quiet {c r o'} (hl : o'.live = o.live) (hd : o'.userData = o.userData) (hf : o'.freed = o.freed)
    (hr : match c with
      | .add _ _ _ | .set _ _ | .delete _ => r.ret = false
      | .get key true => o.live = true → r.ret = (userDataLookup o.userData key).isSome ∧
        ∀ d ∈ userDataLookup o.userData key, r.out = some d.data
      | _ => True) : DataStep o c r o'
  | add {key f ok} (hl : o.live = true) (hn : userDataLookup o.userData key = none) :
    DataStep o (.add key f ok) ⟨true, none⟩ { o with userData := ⟨key, f, none⟩ :: o.userData }
  | set {key p d} (hl : o.live = true) (hd : userDataLookup o.userData key = some d) :
    DataStep o (.set key p) ⟨true, none⟩
      { o.callFree d with userData := storeData key p o.userData }
  | delete {key d} (hl : o.live = true) (hd : userDataLookup o.userData key = some d) :
    DataStep o (.delete key) ⟨true, none⟩ (o.userDataDelete d)
  | destroy {o'} (hl : o.live = true) (hl' : o'.live = false) (hd : o'.userData = [])
    (hf : o'.freed = o.freed ++ o.userData.filterMap UserData.freeCall) :
    DataStep o .unref ⟨true, none⟩ o'

section Steps

variable {kind : OwnerKind} {o o' : Owner} {c : DataCall} {r : DataReply}

/-- The loop calls the free function of every entry, in the order of the list. -/
theorem deleteAll_eq (l : List UserData) (o : Owner) (h : o.userData = l) :
    Owner.deleteAll l o = { o with
      userData := []
      freed := o.freed ++ l.filterMap UserData.freeCall } := by
  induction l generalizing o with
  | nil =>
    have hsame : o = { o with userData := [] } := by rw [← h]
    simpa [Owner.deleteAll] using hsame
  | cons d l ih =>
    have hl : (o.userDataDelete d).userData = l := by
      simp [Owner.userDataDelete, Owner.callFree, h]
    rw [Owner.deleteAll, ih _ hl]
    cases hd : d.freeCall with
    | none => simp [Owner.userDataDelete, Owner.callFree, hd]
    | some v => simp [Owner.userDataDelete, Owner.callFree, hd]

theorem destroy_step (hl : o.live = true) (n : ℤ) :
    DataStep o .unref ⟨true, none⟩ ({ o with refCnt := n } : Owner).destroy := by
  have heq := deleteAll_eq o.userData { o with refCnt := n } rfl
  apply DataStep.destroy hl rfl
  · rw [Owner.destroy, heq]
  · rw [Owner.destroy, heq]

theorem addUserData_step {key : UInt64} {f : Option FreeFunc} {ok : Bool} :
    DataStep o (.add key f ok) ⟨(o.addUserData ok key f).1, none⟩ (o.addUserData ok key f).2 := by
  unfold Owner.addUserData
  by_cases hl : o.live
  · rw [if_pos hl]
    cases hk : userDataLookup o.userData key with
    | some d => exact .quiet rfl rfl rfl rfl
    | none =>
      cases ok with
      | false => exact .quiet rfl rfl rfl rfl
      | true => exact .add hl hk
  · rw [if_neg hl]
    exact .quiet rfl rfl rfl rfl

theorem setUserData_step {key : UInt64} {p : Option Ptr} : DataStep o (.set key p)
    ⟨(o.tbmSurfaceInternalSetUserData key p).1, none⟩
    (o.tbmSurfaceInternalSetUserData key p).2 := by
  unfold Owner.tbmSurfaceInternalSetUserData
  by_cases hl : o.live
  · rw [if_pos hl]
    cases hk : userDataLookup o.userData key with
    | none => exact .quiet rfl rfl rfl rfl
    | some d => exact .set hl hk
  · rw [if_neg hl]
    exact .quiet rfl rfl rfl rfl

theorem deleteUserData_step {key : UInt64} : DataStep o (.delete key)
    ⟨(o.tbmSurfaceInternalDeleteUserData key).1, none⟩
    (o.tbmSurfaceInternalDeleteUserData key).2 := by
  unfold Owner.tbmSurfaceInternalDeleteUserData
  by_cases hl : o.live
  · rw [if_pos hl]
    cases hk : userDataLookup o.userData key with
    | none => exact .quiet rfl rfl rfl rfl
    | some d => exact .delete hl hk
  · rw [if_neg hl]
    exact .quiet rfl rfl rfl rfl

/-- The test of the empty list changes nothing where the search comes after it. -/
theorem tbmBoSetUserData_eq (o : Owner) (key : UInt64) (p : Option Ptr) :
    o.tbmBoSetUserData key p = o.tbmSurfaceInternalSetUserData key p := by
  unfold Owner.tbmBoSetUserData Owner.tbmSurfaceInternalSetUserData
  cases hd : o.userData with
  | nil => simp [userDataLookup]
  | cons d l => simp

theorem tbmBoDeleteUserData_eq (o : Owner) (key : UInt64) :
    o.tbmBoDeleteUserData key = o.tbmSurfaceInternalDeleteUserData key := by
  unfold Owner.tbmBoDeleteUserData Owner.tbmSurfaceInternalDeleteUserData
  cases hd : o.userData with
  | nil => simp [userDataLookup]
  | cons d l => simp

/-- The answer is what the search finds, whatever the list. -/
theorem boGetUserData_step {key : UInt64} {out : Bool} : DataStep o (.get key out)
    ⟨(o.tbmBoGetUserData key out).1, (o.tbmBoGetUserData key out).2⟩ o := by
  apply DataStep.quiet rfl rfl rfl
  cases out with
  | false => trivial
  | true =>
    intro hl
    unfold Owner.tbmBoGetUserData
    cases hd : o.userData with
    | nil => simp [hl, userDataLookup]
    | cons d l =>
      cases hk : userDataLookup (d :: l) key with
      | none => simp [hl]
      | some e => simp [hl]

theorem surfaceGetUserData_step {key : UInt64} {out : Bool} : DataStep o (.get key out)
    ⟨(o.tbmSurfaceInternalGetUserData key out).1, (o.tbmSurfaceInternalGetUserData key out).2⟩
    o := by
  apply DataStep.quiet rfl rfl rfl
  cases out with
  | false => trivial
  | true =>
    intro hl
    unfold Owner.tbmSurfaceInternalGetUserData
    cases hk : userDataLookup o.userData key with
    | none => simp [hl]
    | some e => simp [hl]

theorem addRef_step : DataStep o .ref ⟨true, none⟩ o.addRef := by
  unfold Owner.addRef
  by_cases hl : o.live
  · rw [if_pos hl]
    exact .quiet rfl rfl rfl trivial
  · rw [if_neg hl]
    exact .quiet rfl rfl rfl trivial

theorem boUnref_step : DataStep o .unref ⟨true, none⟩ o.tbmBoUnref := by
  unfold Owner.tbmBoUnref
  by_cases hl : o.live
  · rw [if_pos hl]
    by_cases h0 : o.refCnt ≤ 0
    · rw [if_pos h0]
      exact .quiet rfl rfl rfl trivial
    · rw [if_neg h0]
      by_cases h1 : o.refCnt - 1 = 0
      · rw [if_pos h1]
        exact destroy_step hl _
      · rw [if_neg h1]
        exact .quiet rfl rfl rfl trivial
  · rw [if_neg hl]
    exact .quiet rfl rfl rfl trivial

theorem surfaceUnref_step : DataStep o .unref ⟨true, none⟩ o.tbmSurfaceInternalUnref := by
  unfold Owner.tbmSurfaceInternalUnref
  by_cases hl : o.live
  · rw [if_pos hl]
    by_cases h0 : 0 < o.refCnt - 1
    · rw [if_pos h0]
      exact .quiet rfl rfl rfl trivial
    · rw [if_neg h0]
      by_cases h1 : o.refCnt - 1 = 0
      · rw [if_pos h1]
        exact destroy_step hl _
      · rw [if_neg h1]
        exact .quiet rfl rfl rfl trivial
  · rw [if_neg hl]
    exact .quiet rfl rfl rfl trivial

theorem Owner.step_cases (h : o.step kind c = some (r, o')) : DataStep o c r o' := by
  cases kind with
  | bo =>
    cases c <;> obtain ⟨rfl, rfl⟩ := Prod.mk.inj (Option.some.inj h)
    case add => exact addUserData_step
    case set =>
      rw [tbmBoSetUserData_eq]
      exact setUserData_step
    case get => exact boGetUserData_step
    case delete =>
      rw [tbmBoDeleteUserData_eq]
      exact deleteUserData_step
    case ref => exact addRef_step
    case unref => exact boUnref_step
  | surface =>
    cases c <;> obtain ⟨rfl, rfl⟩ := Prod.mk.inj (Option.some.inj h)
    case add => exact addUserData_step
    case set => exact setUserData_step
    case get => exact surfaceGetUserData_step
    case delete => exact deleteUserData_step
    case ref => exact addRef_step
    case unref => exact surfaceUnref_step

theorem Owner.step_total (kind : OwnerKind) (c : DataCall) (o : Owner) :
    ∃ r o', o.step kind c = some (r, o') := by
  cases kind <;> cases c <;> exact ⟨_, _, rfl⟩

end Steps

section Lists

variable {β : Type} {l : List UserData} {key k : UInt64} {p : Option Ptr} {d : UserData}

theorem lookup_cons (e : UserData) : userDataLookup (e :: l) key =
    if e.key = key then some e else userDataLookup l key := by
  by_cases he : e.key = key
  · simp [userDataLookup, he]
  · simp [userDataLookup, he]

theorem key_of_lookup (h : userDataLookup l key = some d) : d.key = key ∧ d ∈ l :=
  ⟨by simpa using List.find?_some h, List.mem_of_find?_eq_some h⟩

theorem storeData_keys : (storeData key p l).map UserData.key = l.map UserData.key := by
  induction l with
  | nil => rfl
  | cons e l ih =>
    by_cases he : e.key = key
    · simp [storeData, he]
    · simp [storeData, he, ih]

theorem lookup_storeData : userDataLookup (storeData key p l) k =
    if k = key then (userDataLookup l key).map fun d => { d with data := p }
    else userDataLookup l k := by
  induction l with
  | nil => simp [storeData, userDataLookup]
  | cons e l ih =>
    by_cases he : e.key = key
    · by_cases hk : k = key
      · simp [storeData, he, lookup_cons, hk]
      · have hne : e.key ≠ k := fun h => hk (h.symm.trans he)
        simp [storeData, he, lookup_cons, hk, Ne.symm hk]
    · by_cases hk : k = key
      · subst hk
        simpa [storeData, he, lookup_cons] using ih
      · simp only [storeData, he, if_false, lookup_cons, ih, if_neg hk]

theorem lookup_eraseP (hn : (l.map UserData.key).Nodup) :
    userDataLookup (l.eraseP fun e => e.key = key) k =
      if k = key then none else userDataLookup l k := by
  induction l with
  | nil => simp [userDataLookup]
  | cons e l ih =>
    obtain ⟨hnot, hn'⟩ :=
      List.nodup_cons.mp (by simpa using hn : (e.key :: l.map UserData.key).Nodup)
    by_cases he : e.key = key
    · rw [List.eraseP_cons_of_pos (by simpa using he), lookup_cons]
      by_cases hk : k = key
      · rw [if_pos hk]
        apply List.find?_eq_none.mpr
        intro x hx
        have : x.key ≠ e.key := fun h => hnot (h ▸ List.mem_map_of_mem hx)
        simpa [hk, ← he] using this
      · rw [if_neg hk, if_neg (fun h => hk (h.symm.trans he))]
    · rw [List.eraseP_cons_of_neg (by simpa using he), lookup_cons, lookup_cons, ih hn']
      by_cases hk : k = key
      · simp [hk, he]
      · simp [hk]

theorem filterMap_lookup (g : UserData → Option β) (h : userDataLookup l key = some d) :
    (l.filterMap g).Perm ((g d).toList ++ (l.eraseP fun e => e.key = key).filterMap g) := by
  induction l with
  | nil => simp [userDataLookup] at h
  | cons e l ih =>
    rw [lookup_cons] at h
    by_cases he : e.key = key
    · rw [if_pos he] at h
      obtain rfl : e = d := Option.some.inj h
      rw [List.eraseP_cons_of_pos (by simpa using he)]
      cases hg : g e <;> simp [hg]
    · rw [if_neg he] at h
      rw [List.eraseP_cons_of_neg (by simpa using he)]
      cases hg : g e with
      | none => simpa [hg] using ih h
      | some v =>
        simp only [List.filterMap_cons, hg]
        exact ((ih h).cons v).trans List.perm_middle.symm

theorem filterMap_storeData (g : UserData → Option β) (h : userDataLookup l key = some d) :
    ((storeData key p l).filterMap g).Perm
      ((g { d with data := p }).toList ++ (l.eraseP fun e => e.key = key).filterMap g) := by
  induction l with
  | nil => simp [userDataLookup] at h
  | cons e l ih =>
    rw [lookup_cons] at h
    by_cases he : e.key = key
    · rw [if_pos he] at h
      obtain rfl : e = d := Option.some.inj h
      subst he
      rw [List.eraseP_cons_of_pos (by simp)]
      cases hg : g { e with data := p } <;> simp [storeData, hg]
    · rw [if_neg he] at h
      rw [List.eraseP_cons_of_neg (by simpa using he)]
      cases hg : g e with
      | none => simpa [storeData, he, hg] using ih h
      | some v =>
        simp only [storeData, if_neg he, List.filterMap_cons, hg]
        exact ((ih h).cons v).trans List.perm_middle.symm

end Lists

section Histories

abbrev DataEntry := Entry Owner DataCall DataReply

/-- The pointer a call hands over for a free function: it was stored, and the key has one. -/
def handedOver (e : DataEntry) : Option (FreeFunc × Ptr) :=
  match e.call with
  | .set key p =>
    if e.reply.ret then
      (userDataLookup e.before.userData key).bind fun d => UserData.freeCall { d with data := p }
    else none
  | _ => none

/-- The entries a call overwrites, deletes or takes along with the owner. -/
def outgoing (e : DataEntry) : List UserData :=
  match e.call with
  | .set key _ | .delete key =>
    if e.reply.ret then (userDataLookup e.before.userData key).toList else []
  | .unref => if e.after.live then [] else e.before.userData
  | _ => []

/-- What is known of a key after one more call. -/
def latestAfter (key : UInt64) (v : Option (Option Ptr)) (e : DataEntry) : Option (Option Ptr) :=
  match e.call with
  | .add k _ _ => if k = key ∧ e.reply.ret = true then some none else v
  | .set k p => if k = key ∧ e.reply.ret = true then some p else v
  | .delete k => if k = key ∧ e.reply.ret = true then none else v
  | .unref => if e.after.live then v else none
  | _ => v

/-- The data most recently set under the key since it was added. -/
def latest (log : List DataEntry) (key : UInt64) : Option (Option Ptr) :=
  log.foldl (latestAfter key) none

/-- The client sets no pointer that is stored. -/
def Owner.unstored (o : Owner) : DataCall → Bool
  | .set _ (some p) => o.userData.all fun d => d.data ≠ some p
  | _ => true

/-- The account of a run: the keys of every state, the answers, and the free functions. -/
structure Accounted (log : List DataEntry) (o : Owner) : Prop where
  distinct : ∀ e ∈ log, (e.after.userData.map UserData.key).Nodup
  gets : ∀ l e r key, log = l ++ e :: r → e.call = .get key true → e.before.live = true →
    e.reply.ret = (latest l key).isSome ∧ ∀ v ∈ latest l key, e.reply.out = some v
  /-- What was handed over is freed, each once, or is stored. -/
  once : (log.filterMap handedOver).Perm (o.freed ++ o.userData.filterMap UserData.freeCall)
  gone : o.live = false → o.userData = []
  /-- A call frees what it overwrites, deletes or takes along. -/
  frees : ∀ e ∈ log, e.after.freed = e.before.freed ++ (outgoing e).filterMap UserData.freeCall
  /-- What it frees is not stored any more. -/
  unreachable : ∀ e ∈ log, ∀ d ∈ outgoing e, ∀ v ∈ d.freeCall, ∀ d' ∈ e.after.userData,
    d'.data ≠ some v.2

/-- What holds between two calls. -/
structure Orderly (log : List DataEntry) (o : Owner) : Prop extends Accounted log o where
  keys : (o.userData.map UserData.key).Nodup
  pointers : (o.userData.filterMap UserData.data).Nodup
  latest : ∀ key, latest log key = (userDataLookup o.userData key).map UserData.data

variable {log : List DataEntry} {o o' : Owner} {c : DataCall} {r : DataReply}

theorem latest_concat (log : List DataEntry) (e : DataEntry) (key : UInt64) :
    latest (log ++ [e]) key = latestAfter key (latest log key) e := by
  simp [latest]

theorem Orderly.extend (h : Orderly log o) (e : DataEntry) (hafter : e.after = o')
    (hkeys : (o'.userData.map UserData.key).Nodup)
    (hpointers : (o'.userData.filterMap UserData.data).Nodup)
    (hlatest : ∀ key, latestAfter key ((userDataLookup o.userData key).map UserData.data) e =
      (userDataLookup o'.userData key).map UserData.data)
    (hgets : ∀ key, e.call = .get key true → e.before.live = true →
      e.reply.ret = (userDataLookup o.userData key).isSome ∧
        ∀ d ∈ userDataLookup o.userData key, e.reply.out = some d.data)
    (honce : ((handedOver e).toList ++ (o.freed ++ o.userData.filterMap UserData.freeCall)).Perm
      (o'.freed ++ o'.userData.filterMap UserData.freeCall))
    (hgone : o'.live = false → o'.userData = [])
    (hfrees : o'.freed = e.before.freed ++ (outgoing e).filterMap UserData.freeCall)
    (hunreach : ∀ d ∈ outgoing e, ∀ v ∈ d.freeCall, ∀ d' ∈ o'.userData, d'.data ≠ some v.2) :
    Orderly (log ++ [e]) o' := by
  have hmem {P : DataEntry → Prop} (hold : ∀ e ∈ log, P e) (hnew : P e) :
      ∀ e' ∈ log ++ [e], P e' := by
    intro e' he'
    rw [List.mem_append, List.mem_singleton] at he'
    rcases he' with he' | rfl
    · exact hold e' he'
    · exact hnew
  refine ⟨⟨?_, ?_, ?_, hgone, ?_, ?_⟩, hkeys, hpointers, ?_⟩
  · apply hmem h.distinct
    rw [hafter]
    exact hkeys
  · intro l e' r' key hl hcall hlive
    rcases List.eq_nil_or_concat r' with rfl | ⟨r', e'', rfl⟩
    · obtain ⟨rfl, he⟩ := List.append_inj' hl rfl
      obtain rfl : e = e' := by simpa using he
      rw [h.latest key]
      obtain ⟨hret, hout⟩ := hgets key hcall hlive
      constructor
      · rw [hret, Option.isSome_map]
      · intro v hv
        obtain ⟨d, hd, rfl⟩ := Option.map_eq_some_iff.mp hv
        exact hout d hd
    · have hl' : log ++ [e] = (l ++ e' :: r') ++ [e''] := by simpa using hl
      obtain ⟨hlog, -⟩ := List.append_inj' hl' rfl
      exact h.gets l e' r' key hlog hcall hlive
  · rw [List.filterMap_append]
    have hlast : [e].filterMap handedOver = (handedOver e).toList := by
      cases he : handedOver e <;> simp [he]
    rw [hlast]
    exact ((h.once.append_right _).trans List.perm_append_comm).trans honce
  · apply hmem h.frees
    rw [hafter]
    exact hfrees
  · apply hmem h.unreachable
    rw [hafter]
    exact hunreach
  · intro key
    rw [latest_concat, h.latest key, hlatest key]

theorem data_of_freeCall {d : UserData} {v : FreeFunc × Ptr} (h : d.freeCall = some v) :
    d.data = some v.2 := by
  obtain ⟨key, f, p⟩ := d
  cases p with
  | none => simp [UserData.freeCall] at h
  | some p =>
    cases f with
    | none => simp [UserData.freeCall] at h
    | some f =>
      obtain rfl : (f, p) = v := by simpa [UserData.freeCall] using h
      rfl

/-- A stored pointer is stored under one key only. -/
theorem Orderly.notMem_others (h : Orderly log o) {key : UInt64} {d : UserData} {q : Ptr}
    (hd : userDataLookup o.userData key = some d) (hq : d.data = some q) :
    q ∉ (o.userData.eraseP fun e => e.key = key).filterMap UserData.data := by
  have hperm := filterMap_lookup UserData.data hd
  have hn := hperm.nodup h.pointers
  rw [hq] at hn
  exact (List.nodup_cons.mp (by simpa using hn)).1

theorem Orderly.quiet (h : Orderly log o) (hl : o'.live = o.live)
    (hd : o'.userData = o.userData) (hf : o'.freed = o.freed)
    (hr : match c with
      | .add _ _ _ | .set _ _ | .delete _ => r.ret = false
      | .get key true => o.live = true → r.ret = (userDataLookup o.userData key).isSome ∧
        ∀ d ∈ userDataLookup o.userData key, r.out = some d.data
      | _ => True) : Orderly (log ++ [⟨o, c, r, o'⟩]) o' := by
  have hout : outgoing ⟨o, c, r, o'⟩ = [] := by
    cases c with
    | set key p =>
      have hr' : r.ret = false := hr
      simp [outgoing, hr']
    | delete key =>
      have hr' : r.ret = false := hr
      simp [outgoing, hr']
    | unref =>
      cases hlive : o'.live with
      | true => simp [outgoing, hlive]
      | false => simp [outgoing, hlive, h.gone (hl.symm.trans hlive)]
    | _ => rfl
  have hover : handedOver ⟨o, c, r, o'⟩ = none := by
    cases c with
    | set key p =>
      have hr' : r.ret = false := hr
      simp [handedOver, hr']
    | _ => rfl
  apply h.extend _ rfl
  · rw [hd]
    exact h.keys
  · rw [hd]
    exact h.pointers
  · intro key
    rw [hd]
    cases c with
    | add k f ok =>
      have hr' : r.ret = false := hr
      simp [latestAfter, hr']
    | set k p =>
      have hr' : r.ret = false := hr
      simp [latestAfter, hr']
    | delete k =>
      have hr' : r.ret = false := hr
      simp [latestAfter, hr']
    | unref =>
      cases hlive : o'.live with
      | true => simp [latestAfter, hlive]
      | false => simp [latestAfter, hlive, h.gone (hl.symm.trans hlive), userDataLookup]
    | _ => rfl
  · intro key hcall hlive
    obtain rfl : c = .get key true := hcall
    exact hr hlive
  · rw [hover, hd, hf]
    exact .refl _
  · intro hlive
    rw [hd]
    exact h.gone (hl.symm.trans hlive)
  · rw [hout, hf]
    simp
  · rw [hout]
    simp

theorem Orderly.add (h : Orderly log o) {key : UInt64} {f : Option FreeFunc} {ok : Bool}
    (hlive : o.live = true) (hn : userDataLookup o.userData key = none)
    (ho : o' = { o with userData := ⟨key, f, none⟩ :: o.userData }) :
    Orderly (log ++ [⟨o, .add key f ok, ⟨true, none⟩, o'⟩]) o' := by
  subst ho
  apply h.extend _ rfl
  · rw [List.map_cons, List.nodup_cons]
    refine ⟨?_, h.keys⟩
    intro hm
    obtain ⟨d, hd, hk⟩ := List.mem_map.mp hm
    exact List.find?_eq_none.mp hn d hd (by simpa using hk)
  · simpa using h.pointers
  · intro k
    by_cases hk : key = k
    · simp [latestAfter, lookup_cons, hk]
    · simp [latestAfter, lookup_cons, hk]
  · simp
  · have hfree : UserData.freeCall ⟨key, f, none⟩ = none := rfl
    simp [handedOver, hfree]
  · intro hdead
    exact absurd hlive (by simpa using hdead)
  · simp [outgoing]
  · simp [outgoing]

theorem toList_filterMap (d : UserData) :
    [d].filterMap UserData.freeCall = d.freeCall.toList := by
  cases hd : d.freeCall <;> simp [hd]

theorem Orderly.set (h : Orderly log o) {key : UInt64} {p : Option Ptr} {d : UserData}
    (hlive : o.live = true) (hd : userDataLookup o.userData key = some d)
    (hp : o.unstored (.set key p) = true)
    (ho : o' = { o.callFree d with userData := storeData key p o.userData }) :
    Orderly (log ++ [⟨o, .set key p, ⟨true, none⟩, o'⟩]) o' := by
  subst ho
  have hin : d ∈ o.userData := (key_of_lookup hd).2
  have hnew {d' : UserData} {q : Ptr} (hd' : d' ∈ o.userData) (hq : p = some q) :
      d'.data ≠ some q := by
    subst hq
    have hall : ∀ d ∈ o.userData, ¬d.data = some q := by simpa [Owner.unstored] using hp
    exact hall d' hd'
  have hstore := filterMap_storeData (p := p) UserData.data hd
  have hothers : ((o.userData.eraseP fun e => e.key = key).filterMap UserData.data).Sublist
      (o.userData.filterMap UserData.data) := List.eraseP_sublist.filterMap _
  apply h.extend _ rfl
  · show ((storeData key p o.userData).map UserData.key).Nodup
    rw [storeData_keys]
    exact h.keys
  · apply hstore.symm.nodup
    cases p with
    | none => simpa using h.pointers.sublist hothers
    | some q =>
      apply List.nodup_cons.mpr
      refine ⟨fun hq => ?_, h.pointers.sublist hothers⟩
      obtain ⟨d', hd', hq'⟩ := List.mem_filterMap.mp (hothers.subset hq)
      exact hnew hd' rfl hq'
  · intro k
    show _ = (userDataLookup (storeData key p o.userData) k).map UserData.data
    rw [lookup_storeData]
    by_cases hk : key = k
    · subst hk
      simp [latestAfter, hd]
    · simp [latestAfter, hk, Ne.symm hk]
  · simp
  · have hover : handedOver ⟨o, .set key p, ⟨true, none⟩, { o.callFree d with
        userData := storeData key p o.userData }⟩ = UserData.freeCall { d with data := p } := by
      simp [handedOver, hd]
    rw [hover]
    have hold := filterMap_lookup UserData.freeCall hd
    have hafter := filterMap_storeData (p := p) UserData.freeCall hd
    have hswap : ((UserData.freeCall { d with data := p }).toList ++ (o.freed ++
        (d.freeCall.toList ++ (o.userData.eraseP fun e => e.key = key).filterMap
          UserData.freeCall))).Perm ((o.freed ++ d.freeCall.toList) ++
        ((UserData.freeCall { d with data := p }).toList ++
          (o.userData.eraseP fun e => e.key = key).filterMap UserData.freeCall)) := by
      rw [← List.append_assoc o.freed]
      exact List.perm_append_comm_assoc _ _ _
    have hbefore := (hold.append_left o.freed).append_left
      (UserData.freeCall { d with data := p }).toList
    exact hbefore.trans (hswap.trans (hafter.symm.append_left _))
  · intro hdead
    exact absurd hlive (by simpa [Owner.callFree] using hdead)
  · simp [outgoing, hd, toList_filterMap, Owner.callFree]
  · intro e he v hv d' hd' hq
    obtain rfl : e = d := by simpa [outgoing, hd] using he
    have hdata := data_of_freeCall hv
    have hmem : v.2 ∈ (storeData key p o.userData).filterMap UserData.data :=
      List.mem_filterMap.mpr ⟨d', hd', hq⟩
    rcases List.mem_append.mp (hstore.subset hmem) with hmem | hmem
    · exact hnew hin (by simpa using hmem) hdata
    · exact h.notMem_others hd hdata hmem

theorem Orderly.delete (h : Orderly log o) {key : UInt64} {d : UserData}
    (hlive : o.live = true) (hd : userDataLookup o.userData key = some d)
    (ho : o' = o.userDataDelete d) :
    Orderly (log ++ [⟨o, .delete key, ⟨true, none⟩, o'⟩]) o' := by
  subst ho
  have hkey : d.key = key := (key_of_lookup hd).1
  have hafter : (o.userDataDelete d).userData = o.userData.eraseP fun e => e.key = key := by
    rw [← hkey]
    rfl
  have hfreed : (o.userDataDelete d).freed = o.freed ++ d.freeCall.toList := rfl
  apply h.extend _ rfl
  · rw [hafter]
    exact h.keys.sublist (List.eraseP_sublist.map _)
  · rw [hafter]
    exact h.pointers.sublist (List.eraseP_sublist.filterMap _)
  · intro k
    rw [hafter, lookup_eraseP h.keys]
    by_cases hk : key = k
    · simp [latestAfter, hk]
    · simp [latestAfter, hk, Ne.symm hk]
  · simp
  · have hover : handedOver ⟨o, .delete key, ⟨true, none⟩, o.userDataDelete d⟩ = none := rfl
    rw [hover, hafter, hfreed, List.append_assoc]
    exact (filterMap_lookup UserData.freeCall hd).append_left _
  · intro hdead
    exact absurd hlive (by simpa [Owner.userDataDelete, Owner.callFree] using hdead)
  · rw [hfreed]
    simp [outgoing, hd, toList_filterMap]
  · intro e he v hv d' hd' hq
    obtain rfl : e = d := by simpa [outgoing, hd] using he
    rw [hafter] at hd'
    exact h.notMem_others hd (data_of_freeCall hv) (List.mem_filterMap.mpr ⟨d', hd', hq⟩)

theorem Orderly.destroy (h : Orderly log o) (hl' : o'.live = false) (hd : o'.userData = [])
    (hf : o'.freed = o.freed ++ o.userData.filterMap UserData.freeCall) :
    Orderly (log ++ [⟨o, .unref, ⟨true, none⟩, o'⟩]) o' := by
  apply h.extend _ rfl
  · simp [hd]
  · simp [hd]
  · simp [latestAfter, hl', hd, userDataLookup]
  · simp
  · simp [handedOver, hd, hf]
  · intro _
    exact hd
  · simp [outgoing, hl', hf]
  · simp [hd]

theorem Orderly.step (h : Orderly log o) (hc : o.unstored c = true) (hs : DataStep o c r o') :
    Orderly (log ++ [⟨o, c, r, o'⟩]) o' := by
  cases hs with
  | quiet hl hd hf hr => exact h.quiet hl hd hf hr
  | add hl hn => exact h.add hl hn rfl
  | set hl hd => exact h.set hl hd hc rfl
  | delete hl hd => exact h.delete hl hd rfl
  | destroy hl hl' hd hf => exact h.destroy hl' hd hf

/-- A new owner with `n` references. -/
def Owner.new (n : ℤ) : Owner where
  live := true
  refCnt := n
  userData := []
  freed := []

/-- Where the client sets no pointer that is stored, keys stay distinct, the answers are the data
most recently set, and every pointer that was handed over is freed once: when it is overwritten,
when its key is deleted or when the owner goes. -/
theorem user_data_freed_once {kind : OwnerKind} {n : ℤ} {calls : List DataCall}
    (hp : Permitted (Owner.step kind) (fun o c => o.unstored c) calls (.new n)) :
    ∃ log o, run (Owner.step kind) calls (.new n) = some (log, o) ∧ Accounted log o ∧
      (o.live = false → (log.filterMap handedOver).Perm o.freed) := by
  have hnew : Orderly [] (Owner.new n) := by
    refine ⟨⟨by simp, by simp, ?_, by simp [Owner.new], by simp, by simp⟩, ?_, ?_, ?_⟩
    · simp [Owner.new]
    · simp [Owner.new]
    · simp [Owner.new]
    · intro key
      rfl
  obtain ⟨log, o, hr, ho⟩ := run_total Orderly hnew (fun log o c h hc => by
    obtain ⟨r, o', hs⟩ := Owner.step_total kind c o
    exact ⟨r, o', hs, h.step hc (Owner.step_cases hs)⟩) hp
  refine ⟨log, o, hr, ho.toAccounted, fun hdead => ?_⟩
  have honce := ho.once
  rw [ho.gone hdead] at honce
  simpa using honce

/-- A pointer is overwritten, one is deleted with its key, one is freed with the buffer object; NULL
and the key without a free function cost no call. -/
private def storedInTurn : List DataCall :=
  [.add 1 (some 5) true, .set 1 (some 70), .set 1 (some 71), .add 2 none true, .set 2 (some 72),
    .add 3 (some 6) true, .set 3 (some 70), .delete 3, .set 1 none, .get 2 true, .set 1 (some 73),
    .unref]

theorem user_data_freed_once_in_turn : ∃ log o,
    run (Owner.step .bo) storedInTurn (.new 1) = some (log, o) ∧
    o.freed = [(5, 70), (6, 70), (5, 71), (5, 73)] ∧ Accounted log o ∧
      (o.live = false → (log.filterMap handedOver).Perm o.freed) := by
  obtain ⟨log, o, hr, h⟩ := user_data_freed_once (n := 1)
    (by decide +kernel : Permitted (Owner.step .bo) _ storedInTurn _)
  refine ⟨log, o, hr, ?_, h⟩
  have hrun : ((run (Owner.step .bo) storedInTurn (.new 1)).map fun r => r.2.freed) =
      some [(5, 70), (6, 70), (5, 71), (5, 73)] := by decide +kernel
  rw [hr] at hrun
  exact Option.some.inj hrun

end Histories

end Tbm.Bufmgr
