import Mathlib.Data.Int.Notation
import Mathlib.Data.List.Basic
import Mathlib.Data.List.TakeWhile
import Mathlib.Data.Nat.Notation

/-! Timelines and fences: what is asked of the kernel, and the names it is given. -/
namespace Tbm.Sync

def store (dst : List UInt8) (i : ℕ) (c : UInt8) : Option (List UInt8) :=
  if i < dst.length then some (dst.set i c) else none

/-- The loop of `_copy_string`, with `n` characters to go and both pointers at `i`. -/
def copyChars (src : List UInt8) : ℕ → ℕ → List UInt8 → Option (List UInt8)
  | 0, i, dst => store dst i 0
  | n + 1, i, dst => do
    let c ← src[i]?
    let dst ← store dst i c
    if c = 0 then some dst else copyChars src n (i + 1) dst

/-- `_copy_string`. `src` is the memory from the pointer on, which may be NULL. -/
def copyString (dst : List UInt8) (src : Option (List UInt8)) (size : ℕ) :
    Option (List UInt8) :=
  if size = 0 then some dst
  else
    match src with
    | none => store dst 0 0
    | some src => if size = 1 then store dst 0 0 else copyChars src (size - 1) 0 dst

section Names

variable {src dst : List UInt8} {c d : UInt8} {n : ℕ}

theorem copyChars_append (src dst pre pre' : List UInt8) (n i : ℕ) (hp' : pre'.length = i)
    (hp : pre.length = i) :
    copyChars (pre' ++ src) n i (pre ++ dst) = (copyChars src n 0 dst).map (pre ++ ·) := by
  have hstore (c : UInt8) (l : List UInt8) (j : ℕ) (q : List UInt8) (hq : q.length = j) :
      store (q ++ l) j c = (store l 0 c).map (q ++ ·) := by
    cases l with
    | nil => simp [store, hq]
    | cons d l => simp [store, ← hq]
  induction n generalizing src dst pre pre' i with
  | zero => exact hstore 0 dst i pre hp
  | succ n ih =>
    have hread : (pre' ++ src)[i]? = src[0]? := by
      rw [List.getElem?_append_right (by omega)]
      simp [hp']
    rw [copyChars, copyChars, hread]
    cases src with
    | nil => rfl
    | cons c src =>
      simp only [List.getElem?_cons_zero, Option.bind_eq_bind, Option.bind_some,
        hstore c dst i pre hp]
      cases dst with
      | nil => rfl
      | cons d dst =>
        have hstep : store (d :: dst) 0 c = some (c :: dst) := by simp [store]
        simp only [Option.bind_some, hstep, Option.map_some]
        split_ifs with hc
        · rfl
        · have hone := ih src dst [c] [c] 1 rfl rfl
          have hall := ih src dst (pre ++ [c]) (pre' ++ [c]) (i + 1) (by simp [hp'])
            (by simp [hp])
          simp only [List.append_assoc, List.singleton_append] at hone hall
          rw [hone, hall, Option.map_map]
          rfl

theorem copyChars_cons : copyChars (c :: src) (n + 1) 0 (d :: dst) =
    if c = 0 then some (0 :: dst) else (copyChars src n 0 dst).map (c :: ·) := by
  have hstep : store (d :: dst) 0 c = some (c :: dst) := by simp [store]
  rw [copyChars, List.getElem?_cons_zero, Option.bind_eq_bind, Option.bind_some, hstep,
    Option.bind_eq_bind, Option.bind_some]
  split_ifs with hc
  · rw [hc]
  · exact copyChars_append src dst [c] [c] n 1 rfl rfl

def chars (src : List UInt8) : List UInt8 := src.takeWhile (· ≠ 0)

/-- As far as `n` characters are copied, they are there, and so is the place for them and a NUL. -/
def Fits (src dst : List UInt8) (n : ℕ) : Prop :=
  (0 ∈ src ∨ n ≤ src.length) ∧ min (chars src).length n < dst.length

instance (src dst : List UInt8) (n : ℕ) : Decidable (Fits src dst n) :=
  inferInstanceAs (Decidable (_ ∧ _))

theorem copyChars_eq (src dst : List UInt8) (n : ℕ) : copyChars src n 0 dst =
    if Fits src dst n then
      some ((chars src).take n ++ 0 :: dst.drop (min (chars src).length n + 1))
    else none := by
  induction n generalizing src dst with
  | zero => cases dst <;> simp [copyChars, store, Fits]
  | succ n ih =>
    cases src with
    | nil => simp [copyChars, Fits]
    | cons c src =>
      cases dst with
      | nil => simp [copyChars, store, Fits]
      | cons d dst =>
        rw [copyChars_cons]
        by_cases hc : c = 0
        · simp [hc, chars, Fits]
        · have hchars : chars (c :: src) = c :: chars src := by simp [chars, hc]
          have hfits : Fits (c :: src) (d :: dst) (n + 1) ↔ Fits src dst n := by
            simp only [Fits, hchars, List.mem_cons, List.length_cons, Ne.symm hc, false_or]
            exact and_congr (or_congr_right (by omega)) (by omega)
          rw [if_neg hc, ih]
          simp only [hfits, hchars]
          split_ifs
          · simp
          · rfl

theorem copyString_eq (src : Option (List UInt8)) (dst : List UInt8) (n : ℕ) :
    copyString dst src (n + 1) = copyChars (src.getD [0]) n 0 dst := by
  cases src with
  | none =>
    have hempty : chars [0] = [] := by simp [chars]
    rw [Option.getD_none, copyChars_eq]
    cases dst with
    | nil => simp [copyString, store, Fits]
    | cons d dst => simp [copyString, store, Fits, hempty]
  | some src =>
    cases n with
    | zero => simp [copyString, copyChars]
    | succ n => simp [copyString]

end Names

/-- `create_fence_data` and `sync_merge_data`: `arg` is `value` in the one and `fd2` in the
other. -/
structure FenceData where
  arg : ℤ
  name : List UInt8
  fence : ℤ
  deriving DecidableEq, Repr

/-- The record a fence is asked for with; what is not named in its initializer is zero. -/
def FenceData.asked (arg : ℤ) (name : Option (List UInt8)) : Option FenceData := do
  let name ← copyString (List.replicate 32 0) name 32
  some { arg, name, fence := 0 }

abbrev Ioctl := FenceData → ℤ × FenceData

def fenceOf (answer : ℤ × FenceData) : ℤ := if answer.1 = -1 then -1 else answer.2.fence

/-- `tbm_sync_fence_create`, with what `TIMELINE_IOC_CREATE_FENCE` does on the timeline. -/
def tbmSyncFenceCreate (ioctl : Ioctl) (name : Option (List UInt8)) (value : ℕ) : Option ℤ := do
  let data ← FenceData.asked value name
  some (fenceOf (ioctl data))

/-- `tbm_sync_fence_merge`, with what `FENCE_IOC_MERGE` does on `fence1`. -/
def tbmSyncFenceMerge (ioctl : Ioctl) (name : Option (List UInt8)) (fence2 : ℤ) : Option ℤ := do
  let data ← FenceData.asked fence2 name
  some (fenceOf (ioctl data))

def kept (name : Option (List UInt8)) : List UInt8 := (chars (name.getD [0])).take 31

/-- Up to the NUL, or for 31 bytes, there is memory behind the pointer. -/
def Readable (name : Option (List UInt8)) : Prop := ∀ src ∈ name, 0 ∈ src ∨ 31 ≤ src.length

/-- A record that is asked for with names the fence by the first 31 characters of the name, and
every byte after them is zero. -/
theorem asked_eq (arg : ℤ) (name : Option (List UInt8)) (h : Readable name) :
    FenceData.asked arg name =
      some ⟨arg, kept name ++ List.replicate (32 - (kept name).length) 0, 0⟩ := by
  have hsrc : 0 ∈ name.getD [0] ∨ 31 ≤ (name.getD [0]).length := by
    cases name with
    | none => simp
    | some src => exact h src rfl
  have hfits : Fits (name.getD [0]) (List.replicate 32 0) 31 :=
    ⟨hsrc, by rw [List.length_replicate]; omega⟩
  have hlen : (kept name).length = min (chars (name.getD [0])).length 31 := by
    rw [kept, List.length_take, Nat.min_comm]
  have hzeros : (0 : UInt8) :: (List.replicate 32 0).drop ((kept name).length + 1) =
      List.replicate (32 - (kept name).length) 0 := by
    rw [List.drop_replicate, ← List.replicate_succ]
    congr 1
    omega
  rw [FenceData.asked, copyString_eq, copyChars_eq, if_pos hfits, ← hlen, hzeros]
  rfl

theorem asked_isSome (arg : ℤ) (name : Option (List UInt8)) :
    (FenceData.asked arg name).isSome ↔ Readable name := by
  constructor
  · intro h src hsrc
    cases hsrc
    by_contra hno
    have hfits : ¬Fits src (List.replicate 32 0) 31 := fun hfits => hno hfits.1
    rw [FenceData.asked, copyString_eq, Option.getD_some, copyChars_eq, if_neg hfits] at h
    simp at h
  · intro h
    rw [asked_eq arg name h]
    rfl

theorem chars_kept (name : Option (List UInt8)) (n : ℕ) :
    chars (kept name ++ List.replicate (n + 1) 0) = kept name := by
  have hkept : ∀ c ∈ kept name, c ≠ 0 := by
    intro c hc
    have hmem : c ∈ chars (name.getD [0]) := List.mem_of_mem_take hc
    simpa using List.mem_takeWhile_imp hmem
  rw [chars, List.takeWhile_append_of_pos (by simpa using hkept), List.replicate_succ]
  simp

/-- `data` asks for a fence with `arg`, and a reader of its name finds `name`, cut off. -/
structure Asks (data : FenceData) (arg : ℤ) (name : Option (List UInt8)) : Prop where
  arg_eq : data.arg = arg
  length_name : data.name.length = 32
  terminated : 0 ∈ data.name
  chars_name : chars data.name = kept name

theorem Asks.asked {arg : ℤ} {name : Option (List UInt8)} {data : FenceData}
    (h : FenceData.asked arg name = some data) : Asks data arg name := by
  have hread : Readable name := (asked_isSome arg name).mp (by rw [h]; rfl)
  have hlen : (kept name).length ≤ 31 := by
    rw [kept, List.length_take]
    omega
  have hrest : 32 - (kept name).length = 31 - (kept name).length + 1 := by omega
  rw [asked_eq arg name hread, hrest] at h
  cases h
  exact
    { arg_eq := rfl
      length_name := by
        rw [List.length_append, List.length_replicate]
        omega
      terminated := by simp
      chars_name := chars_kept name _ }

/-- Both ways to a fence hand the kernel one record, whose name is terminated and is the name
given as far as it has a place; they are defined for exactly the names that can be read. -/
theorem fence_requests (name : Option (List UInt8)) (value : ℕ) (fence2 : ℤ) :
    (Readable name → ∃ created merged,
      Asks created value name ∧ Asks merged fence2 name ∧
      ∀ ioctl, tbmSyncFenceCreate ioctl name value = some (fenceOf (ioctl created)) ∧
        tbmSyncFenceMerge ioctl name fence2 = some (fenceOf (ioctl merged))) ∧
    (¬Readable name → ∀ ioctl, tbmSyncFenceCreate ioctl name value = none ∧
      tbmSyncFenceMerge ioctl name fence2 = none) := by
  constructor
  · intro h
    obtain ⟨created, hcreated⟩ := Option.isSome_iff_exists.mp ((asked_isSome value name).mpr h)
    obtain ⟨merged, hmerged⟩ := Option.isSome_iff_exists.mp ((asked_isSome fence2 name).mpr h)
    refine ⟨created, merged, Asks.asked hcreated, Asks.asked hmerged, fun ioctl => ?_⟩
    rw [tbmSyncFenceCreate, tbmSyncFenceMerge, hcreated, hmerged]
    exact ⟨rfl, rfl⟩
  · intro h ioctl
    have hnone (arg : ℤ) : FenceData.asked arg name = none := by
      apply Option.not_isSome_iff_eq_none.mp
      rwa [asked_isSome]
    rw [tbmSyncFenceCreate, tbmSyncFenceMerge, hnone, hnone]
    exact ⟨rfl, rfl⟩

inductive Errno
  | eintr | etime | other
  deriving DecidableEq, Repr

/-- What `FENCE_IOC_WAIT` returns, and `errno` after it. -/
structure Answer where
  ret : ℤ
  errno : Errno
  deriving DecidableEq, Repr

/-- `tbm_sync_fence_wait`, with the answers of the kernel one after another. -/
def tbmSyncFenceWait : List Answer → Option ℤ
  | [] => none
  | answer :: answers =>
    if answer.ret = -1 ∧ answer.errno = .eintr then tbmSyncFenceWait answers
    else if answer.ret = 0 then some 1
    else if answer.errno = .etime then some (-1)
    else some 0

/-- The fence is reported as signalled exactly when the kernel says so after interrupts only. -/
theorem tbmSyncFenceWait_eq_one (answers : List Answer) : tbmSyncFenceWait answers = some 1 ↔
    ∃ before answer rest, answers = before ++ answer :: rest ∧
      (∀ a ∈ before, a = ⟨-1, .eintr⟩) ∧ answer.ret = 0 := by
  induction answers with
  | nil => simp [tbmSyncFenceWait]
  | cons a answers ih =>
    obtain ⟨ret, errno⟩ := a
    rw [tbmSyncFenceWait]
    by_cases hint : ret = -1 ∧ errno = .eintr
    · rw [if_pos hint, ih]
      obtain ⟨rfl, rfl⟩ := hint
      constructor
      · rintro ⟨before, answer, rest, rfl, hbefore, hret⟩
        exact ⟨_ :: before, answer, rest, rfl, by simpa using hbefore, hret⟩
      · rintro ⟨before, answer, rest, heq, hbefore, hret⟩
        cases before with
        | nil =>
          cases heq
          exact absurd hret (by decide)
        | cons b before =>
          cases heq
          exact ⟨before, answer, rest, rfl, fun a ha => hbefore a (by simp [ha]), hret⟩
    · rw [if_neg hint]
      constructor
      · intro h
        have hret : ret = 0 := by
          by_contra hne
          rw [if_neg hne] at h
          split_ifs at h <;> simp at h
        exact ⟨[], _, answers, rfl, by simp, hret⟩
      · rintro ⟨before, answer, rest, heq, hbefore, hret⟩
        cases before with
        | nil =>
          cases heq
          rw [if_pos hret]
        | cons b before =>
          cases heq
          have hb := hbefore _ List.mem_cons_self
          cases hb
          exact absurd ⟨rfl, rfl⟩ hint

end Tbm.Sync
