import Tbm.Bufmgr.Dumps
import Tbm.Bufmgr.Nesting
import Tbm.Core.Outcomes

/-! The map of a surface and its unmap, without interference: what they do to the counts of the
buffer objects, whatever the backend answers. -/
namespace Tbm.Bufmgr

open Prog

/-- `tbm_bo_unmap` from where the backend has answered. -/
def unmapEnd (backend : Backend) (b : Option Bo) (x : Answers) : BProg Bool :=
  access fun s => some <| match s.boIsValid b with
    | some b => s.boUnmap backend b x.unmap
    | none => (false, s)

/-- `bo_unmap` succeeds exactly on what has an outstanding map. -/
def honest (backend : Backend) : Outside Mutex Empty Empty Answers State where
  may k s x := ∀ b, Asks k (unmapEnd backend b) → ∀ c, s.boIsValid b = some c →
    (x.unmap = true ↔ 0 < s.maps c)
  bind := fun h b hk => h b (hk.bind _)

theorem boUnmap_maps (backend : Backend) (s : State) (b c : Bo) :
    (s.boUnmap backend b true).2.maps c = s.maps c - if c = b then 1 else 0 := by
  have hkeep : ∀ t : State, (t.tbmBoUnlock backend b).maps = t.maps := by
    intro t
    unfold State.tbmBoUnlock State.boUnlock
    cases t.lockType <;> dsimp only <;> split_ifs <;> rfl
  unfold State.boUnmap
  simp only [if_true, hkeep, State.setMapCnt, State.setBo]
  by_cases hc : c = b
  · rw [hc, Function.update_self, if_pos rfl]
  · rw [Function.update_of_ne hc, if_neg hc, sub_zero]

/-- Such a backend has an answer to every question. -/
theorem honest_may (backend : Backend) {α : Type} (k : Answers → BProg α) (s : State)
    (x : Answers) : ∃ v, (honest backend).may k s { x with unmap := v } := by
  by_cases hk : ∃ b c, Asks k (unmapEnd backend b) ∧ s.boIsValid b = some c
  · obtain ⟨b, c, ⟨f, hk⟩, hc⟩ := hk
    refine ⟨decide (0 < s.maps c), fun b' ⟨f', hk'⟩ c' hc' => ?_⟩
    -- the program asks about one buffer object only
    have hone : c' = c := by
      have heq := congrFun (hk.symm.trans hk') { x with unmap := true }
      simp only [unmapEnd] at heq
      have hact := congrFun (eq_of_heq (Prog.act.inj heq).2.1) s
      simp only [hc, hc'] at hact
      have hmaps := congrArg (fun r => r.2.maps c') (Option.some.inj hact)
      simp only [boUnmap_maps, if_true] at hmaps
      by_contra hne
      rw [if_neg hne] at hmaps
      omega
    rw [hone, decide_eq_true_iff]
  · exact ⟨true, fun b hb c hc => absurd ⟨b, c, hb, hc⟩ hk⟩

/-- The `int` `lock_cnt` has no next value. -/
def State.atLimit (s : State) : Prop := ∃ b, 2 ^ 31 - 1 ≤ (s.bo b).lockCnt

/-- What a surface is mapped and unmapped by. -/
structure Stays (s t : State) : Prop where
  gBufMgr : t.gBufMgr = s.gBufMgr
  surfaceBufmgr : t.surfaceBufmgr = s.surfaceBufmgr
  lockType : t.lockType = s.lockType
  boList : t.boList = s.boList
  surfList : t.surfList = s.surfList
  surface : t.surface = s.surface

/-- The maps of `mapped` have come on top of `s`, and the locks that `lock_cnt` and the backend
have seen. -/
structure Taken (backend : Backend) (mapped counted locked : List Bo) (s t : State) : Prop
    extends Stays s t where
  mapCnt : ∀ b, (t.bo b).mapCnt = (s.bo b).mapCnt + .ofNat (mapped.count b)
  maps : ∀ b, t.maps b = s.maps b + mapped.count b
  lockCnt : ∀ b, (t.bo b).lockCnt = (s.bo b).lockCnt + counted.count b
  held : backend.boLock = backend.boUnlock → ∀ b,
    (t.tally b).held = (s.tally b).held + if backend.boLock then (locked.count b : ℤ) else 0
  nonneg : ∀ b ∈ counted, 0 ≤ (s.bo b).lockCnt

/-- The locks that the maps of `l` take. -/
def State.locksFor (s : State) (l : List Bo) : List Bo :=
  if s.lockType = .tryAlways then l else []

/-- The buffer objects of `l` have been mapped once more each. -/
def MapsTaken (backend : Backend) (l : List Bo) (s t : State) : Prop :=
  Taken backend l (s.locksFor l) (s.locksFor l) s t

section Taken

variable {backend : Backend} {me : ℕ} {s t u : State} {b : Bo} {m c l : List Bo}

theorem Stays.refl : Stays s s := ⟨rfl, rfl, rfl, rfl, rfl, rfl⟩

theorem MapsTaken.refl : MapsTaken backend [] s s := by
  have hnil : s.locksFor [] = [] := by simp [State.locksFor]
  unfold MapsTaken
  rw [hnil]
  constructor
  · exact Stays.refl
  · simp
  · simp
  · simp
  · simp
  · simp

theorem Taken.congr {m' c' l' : List Bo} (h : Taken backend m c l s t) (hm : m.Perm m')
    (hc : c.Perm c') (hl : l.Perm l') : Taken backend m' c' l' s t := by
  constructor
  · exact h.toStays
  · intro b
    rw [h.mapCnt, hm.count_eq]
  · intro b
    rw [h.maps, hm.count_eq]
  · intro b
    rw [h.lockCnt, hc.count_eq]
  · intro hb b
    rw [h.held hb, hl.count_eq]
  · intro b hb
    exact h.nonneg b (hc.mem_iff.mpr hb)

theorem MapsTaken.perm {l' : List Bo} (h : MapsTaken backend l s t) (hl : l.Perm l') :
    MapsTaken backend l' s t := by
  have hlocks : (s.locksFor l).Perm (s.locksFor l') := by
    unfold State.locksFor
    by_cases ha : s.lockType = .tryAlways
    · rw [if_pos ha, if_pos ha]
      exact hl
    · rw [if_neg ha, if_neg ha]
  exact Taken.congr h hl hlocks hlocks

theorem Taken.setWindow (h : Taken backend m c l s t) (me : ℕ) (v : Option (Bo × Bool)) :
    Taken backend m c l s (t.setWindow me v) :=
  ⟨⟨h.gBufMgr, h.surfaceBufmgr, h.lockType, h.boList, h.surfList, h.surface⟩, h.mapCnt, h.maps,
    h.lockCnt, h.held, h.nonneg⟩

theorem Taken.boLock {ok r : Bool} (h : Taken backend m c l s t)
    (he : t.boLock backend me b ok = some (r, u)) :
    Taken backend m c (if r then b :: l else l) s u := by
  unfold State.boLock at he
  by_cases hb : b ∈ t.boList
  · rw [if_pos hb] at he
    cases hk : backend.boLock with
    | false =>
      rw [hk] at he
      obtain ⟨rfl, rfl⟩ := Prod.mk.inj (Option.some.inj he)
      have hw := h.setWindow me (some (b, true))
      refine ⟨hw.toStays, hw.mapCnt, hw.maps, hw.lockCnt, fun hu c => ?_, hw.nonneg⟩
      have hc := hw.held hu c
      rw [hk] at hc ⊢
      exact hc
    | true =>
      rw [hk] at he
      cases ok with
      | false =>
        obtain ⟨rfl, rfl⟩ := Prod.mk.inj (Option.some.inj he)
        exact h
      | true =>
        obtain ⟨rfl, rfl⟩ := Prod.mk.inj (Option.some.inj he)
        refine ⟨⟨h.gBufMgr, h.surfaceBufmgr, h.lockType, h.boList, h.surfList, h.surface⟩,
          h.mapCnt, h.maps, h.lockCnt, fun hu c => ?_, h.nonneg⟩
        have hc := h.held hu c
        rw [hk] at hc ⊢
        simp only [State.tally] at hc ⊢
        by_cases hcb : c = b
        · subst hcb
          simp only [if_true, Function.update_self, List.count_cons_self] at hc ⊢
          push_cast
          omega
        · simp only [if_true, List.count_cons_of_ne (Ne.symm hcb)] at hc ⊢
          rw [Function.update_of_ne hcb]
          exact hc
  · rw [if_neg hb] at he
    cases he

theorem count_cons_eq (b c : Bo) (l : List Bo) :
    (b :: l).count c = l.count c + if c = b then 1 else 0 := by
  by_cases hc : c = b
  · rw [hc, List.count_cons_self, if_pos rfl]
  · rw [List.count_cons_of_ne (Ne.symm hc), if_neg hc, add_zero]

theorem Taken.setLockCnt (h : Taken backend m c l s t) (h0 : 0 ≤ (s.bo b).lockCnt) :
    Taken backend m (b :: c) l s (t.setLockCnt b ((t.bo b).lockCnt + 1)) := by
  refine ⟨⟨h.gBufMgr, h.surfaceBufmgr, h.lockType, h.boList, h.surfList, h.surface⟩,
    fun d => ?_, h.maps, fun d => ?_, h.held, fun d hd => ?_⟩
  · rw [← h.mapCnt]
    by_cases hd : d = b
    · simp [State.setLockCnt, State.setBo, hd]
    · simp [State.setLockCnt, State.setBo, hd]
  · have hc := h.lockCnt d
    rw [count_cons_eq]
    by_cases hd : d = b
    · subst hd
      simp only [State.setLockCnt, State.setBo, Function.update_self, if_true]
      push_cast
      omega
    · simp only [State.setLockCnt, State.setBo, Function.update_of_ne hd, if_neg hd]
      exact hc
  · obtain rfl | hd := List.mem_cons.mp hd
    · exact h0
    · exact h.nonneg d hd

theorem Taken.boMap (h : Taken backend m c l s t) :
    Taken backend (b :: m) c l s (t.boMap backend b true).2 := by
  refine ⟨⟨h.gBufMgr, h.surfaceBufmgr, h.lockType, h.boList, h.surfList, h.surface⟩,
    fun d => ?_, fun d => ?_, fun d => ?_, h.held, h.nonneg⟩
  · have hm := h.mapCnt d
    rw [count_cons_eq]
    by_cases hd : d = b
    · subst hd
      simp [State.boMap, State.setMapCnt, State.setBo, hm, UInt32.add_assoc]
    · simp [State.boMap, State.setMapCnt, State.setBo, hd, hm]
  · have hm := h.maps d
    rw [count_cons_eq]
    by_cases hd : d = b
    · subst hd
      simp only [State.boMap, State.setMapCnt, State.setBo, Function.update_self, if_true]
      push_cast
      omega
    · simp only [State.boMap, State.setMapCnt, State.setBo, Function.update_of_ne hd, if_neg hd,
        if_true]
      exact hm
  · rw [← h.lockCnt]
    by_cases hd : d = b
    · simp [State.boMap, State.setMapCnt, State.setBo, hd]
    · simp [State.boMap, State.setMapCnt, State.setBo, hd]

theorem Taken.unmap (h : Taken backend (b :: m) c l s t) : Taken backend m c l s
    (({ t with maps := Function.update t.maps b (t.maps b - 1) }).setMapCnt b
      ((t.bo b).mapCnt - 1)) := by
  refine ⟨⟨h.gBufMgr, h.surfaceBufmgr, h.lockType, h.boList, h.surfList, h.surface⟩,
    fun d => ?_, fun d => ?_, fun d => ?_, h.held, h.nonneg⟩
  · have hm := h.mapCnt d
    rw [count_cons_eq] at hm
    by_cases hd : d = b
    · subst hd
      rw [if_pos rfl] at hm
      simp only [State.setMapCnt, State.setBo, Function.update_self, hm]
      rw [UInt32.ofNat_add, ← UInt32.add_assoc]
      exact UInt32.add_sub_cancel _ _
    · rw [if_neg hd] at hm
      simp [State.setMapCnt, State.setBo, hd, hm]
  · have hm := h.maps d
    rw [count_cons_eq] at hm
    by_cases hd : d = b
    · subst hd
      rw [if_pos rfl] at hm
      push_cast at hm
      simp only [State.setMapCnt, State.setBo, Function.update_self]
      omega
    · rw [if_neg hd] at hm
      simp only [State.setMapCnt, State.setBo, Function.update_of_ne hd]
      exact hm
  · rw [← h.lockCnt]
    by_cases hd : d = b
    · simp [State.setMapCnt, State.setBo, hd]
    · simp [State.setMapCnt, State.setBo, hd]

theorem Taken.uncount (h : Taken backend m (b :: c) l s t) :
    Taken backend m c l s (t.setLockCnt b ((t.bo b).lockCnt - 1)) := by
  refine ⟨⟨h.gBufMgr, h.surfaceBufmgr, h.lockType, h.boList, h.surfList, h.surface⟩,
    fun d => ?_, h.maps, fun d => ?_, h.held, fun d hd => h.nonneg d (List.mem_cons_of_mem b hd)⟩
  · rw [← h.mapCnt]
    by_cases hd : d = b
    · simp [State.setLockCnt, State.setBo, hd]
    · simp [State.setLockCnt, State.setBo, hd]
  · have hc := h.lockCnt d
    rw [count_cons_eq] at hc
    by_cases hd : d = b
    · subst hd
      rw [if_pos rfl] at hc
      push_cast at hc
      simp only [State.setLockCnt, State.setBo, Function.update_self]
      omega
    · rw [if_neg hd] at hc
      simp only [State.setLockCnt, State.setBo, Function.update_of_ne hd]
      exact hc

theorem Taken.boUnlock (h : Taken backend m c (b :: l) s t) :
    Taken backend m c l s (t.boUnlock backend b) := by
  unfold State.boUnlock
  cases hu : backend.boUnlock with
  | false =>
    rw [if_neg Bool.false_ne_true]
    refine ⟨h.toStays, h.mapCnt, h.maps, h.lockCnt, fun hk d => ?_, h.nonneg⟩
    have hd := h.held hk d
    rw [hk, hu] at hd ⊢
    exact hd
  | true =>
    rw [if_pos rfl]
    refine ⟨⟨h.gBufMgr, h.surfaceBufmgr, h.lockType, h.boList, h.surfList, h.surface⟩,
      h.mapCnt, h.maps, h.lockCnt, fun hk d => ?_, h.nonneg⟩
    have hc := h.held hk d
    rw [hk, hu, if_pos rfl, count_cons_eq] at hc
    rw [hk, hu, if_pos rfl]
    simp only [State.tally] at hc ⊢
    by_cases hd : d = b
    · subst hd
      rw [if_pos rfl] at hc
      rw [Function.update_self]
      push_cast at hc ⊢
      omega
    · rw [if_neg hd] at hc
      rw [Function.update_of_ne hd]
      exact hc

/-- `lock_cnt` and the backend give a lock back together. -/
theorem Taken.tbmBoUnlock (h : Taken backend m (b :: c) (b :: l) s t)
    (hl : s.lockType = .tryAlways) : Taken backend m c l s (t.tbmBoUnlock backend b) := by
  have hcount := h.lockCnt b
  rw [List.count_cons_self] at hcount
  push_cast at hcount
  have h0 := h.nonneg b List.mem_cons_self
  have hpos : 0 < (t.bo b).lockCnt := by omega
  have heq : t.tbmBoUnlock backend b =
      (t.setLockCnt b ((t.bo b).lockCnt - 1)).boUnlock backend b := by
    simp only [State.tbmBoUnlock, h.lockType, hl, hpos, if_true]
  rw [heq]
  exact h.uncount.boUnlock

/-- A map without its lock, where locks are never tried. -/
theorem tbmBoUnlock_never (hl : t.lockType = .tryNever) : t.tbmBoUnlock backend b = t := by
  simp only [State.tbmBoUnlock, hl]

theorem locksFor_cons (hl : s.lockType = .tryAlways) : s.locksFor (b :: l) = b :: s.locksFor l := by
  simp only [State.locksFor, hl, if_true]

theorem locksFor_never (hl : s.lockType = .tryNever) : s.locksFor l = [] := by
  simp [State.locksFor, hl]

/-- What `tbm_bo_unmap` does where the backend has answered yes. -/
theorem MapsTaken.boUnmap (h : MapsTaken backend (b :: l) s t) (hl : s.lockType ≠ .tryOnce) :
    MapsTaken backend l s (t.boUnmap backend b true).2 := by
  change Taken backend l (s.locksFor l) (s.locksFor l) s ((({ t with
    maps := Function.update t.maps b (t.maps b - 1) }).setMapCnt b
      ((t.bo b).mapCnt - 1)).tbmBoUnlock backend b)
  have hu := Taken.unmap h
  cases hlock : s.lockType with
  | tryOnce => exact absurd hlock hl
  | tryAlways =>
    rw [locksFor_cons hlock] at hu
    exact hu.tbmBoUnlock hlock
  | tryNever =>
    rw [locksFor_never hlock] at hu ⊢
    rw [tbmBoUnlock_never (hu.lockType.trans hlock)]
    exact hu

end Taken

section Calls

variable {backend : Backend} {me : ℕ} {s t : State} {b : Bo} {l : List Bo}

/-- What a map that has the answer `ok` leaves. -/
def MapsLeft (backend : Backend) (b : Bo) (l : List Bo) (s : State) (ok : Bool) (t : State) :
    Prop :=
  MapsTaken backend (if ok then b :: l else l) s t

theorem boMap_never (h : MapsTaken backend l s t) (hl : s.lockType = .tryNever) (ok : Bool) :
    MapsLeft backend b l s (t.boMap backend b ok).1 (t.boMap backend b ok).2 := by
  unfold MapsTaken at h
  rw [locksFor_never hl] at h
  unfold MapsLeft MapsTaken
  rw [locksFor_never hl]
  cases ok with
  | false =>
    have heq : t.boMap backend b false = (false, t) := by
      simp [State.boMap, tbmBoUnlock_never (h.lockType.trans hl)]
    rw [heq]
    exact h
  | true => exact h.boMap

theorem boMap_always (h : Taken backend l (b :: l) (b :: l) s t) (hl : s.lockType = .tryAlways)
    (ok : Bool) : MapsLeft backend b l s (t.boMap backend b ok).1 (t.boMap backend b ok).2 := by
  have hlocks : ∀ l, s.locksFor l = l := by simp [State.locksFor, hl]
  unfold MapsLeft MapsTaken
  rw [hlocks]
  cases ok with
  | false => exact h.tbmBoUnlock hl
  | true => exact h.boMap

variable {L : Outside Mutex Empty Empty Answers State}

theorem boMapEnd_ends {ok : Bool} {x : Answers} {u : State} (hl : s.lockType = .tryAlways)
    (hb : b ∈ s.boList) (h0 : 0 ≤ (s.bo b).lockCnt)
    (h : Taken backend l l (if ok then b :: l else l) s u) :
    (access fun s => s.boMapEnd backend me b ok x.map : BProg Bool).Ends L State.atLimit u
      (MapsLeft backend b l s) := by
  have hlocks : ∀ l, s.locksFor l = l := by simp [State.locksFor, hl]
  have hmem : b ∈ u.boList := by
    rw [h.boList]
    exact hb
  have hw : Taken backend l l (if ok then b :: l else l) s (u.setWindow me none) :=
    h.setWindow me none
  cases ok with
  | false =>
    have heq : u.boMapEnd backend me b false x.map = some (false, u.setWindow me none) := by
      simp [State.boMapEnd, State.tbmBoLockEnd, hmem, State.setWindow]
    refine Ends.access_eq heq ?_
    unfold MapsLeft MapsTaken
    rw [hlocks]
    exact hw
  | true =>
    by_cases hmax : (u.bo b).lockCnt < 2 ^ 31 - 1
    · have hc := Taken.setLockCnt hw h0
      have heq : u.boMapEnd backend me b true x.map = some
          (((u.setWindow me none).setLockCnt b ((u.bo b).lockCnt + 1)).boMap backend b x.map) := by
        simp only [State.boMapEnd, State.tbmBoLockEnd, hmem, hmax, if_true]
        rfl
      exact Ends.access_eq heq (boMap_always hc hl x.map)
    · refine Ends.access (fun _ => ⟨b, by omega⟩) fun r v hv => ?_
      simp only [State.boMapEnd, State.tbmBoLockEnd, hmem, hmax, if_true, if_false] at hv
      cases hv

theorem tbmBoMap_ends (hl : s.lockType ≠ .tryOnce) (hg : s.gBufMgr.isSome) (hb : b ∈ s.boList)
    (h : MapsTaken backend l s t) :
    (tbmBoMap backend me (some b)).Ends L State.atLimit t (MapsLeft backend b l s) := by
  have hmem : b ∈ t.boList := by
    rw [h.boList]
    exact hb
  have hv : t.boIsValid (some b) = some b := by
    refine boIsValid_of_mem ?_ hmem
    rw [h.gBufMgr]
    exact hg
  refine Ends.inside (Ends.ask fun x _ => Ends.bind ?_)
  cases hlock : s.lockType with
  | tryOnce => exact absurd hlock hl
  | tryNever =>
    have hready : t.tbmBoLockStart b = .ready := by
      simp only [State.tbmBoLockStart, h.lockType, hlock]
    have hstart : t.boMapStart backend me (some b) x.map =
        ((none, (t.boMap backend b x.map).1), (t.boMap backend b x.map).2) := by
      simp only [State.boMapStart, hv, hready]
    refine Ends.access_eq (congrArg some hstart) ?_
    exact Ends.pure (boMap_never h hlock x.map)
  | tryAlways =>
    have hlocks : ∀ l, s.locksFor l = l := by simp [State.locksFor, hlock]
    by_cases hneg : (t.bo b).lockCnt < 0
    · have hfail : t.tbmBoLockStart b = .failed := by
        simp only [State.tbmBoLockStart, h.lockType, hlock, hneg, if_true]
      have hstart : t.boMapStart backend me (some b) x.map = ((none, false), t) := by
        simp only [State.boMapStart, hv, hfail]
      exact Ends.access_eq (congrArg some hstart) (Ends.pure h)
    · have hout : t.tbmBoLockStart b = .outside := by
        simp only [State.tbmBoLockStart, h.lockType, hlock, hneg, if_false]
      have hstart : t.boMapStart backend me (some b) x.map =
          ((some b, false), t.enterWindow me b) := by
        simp only [State.boMapStart, hv, hout]
      have h0 : 0 ≤ (s.bo b).lockCnt := by
        by_cases hc : b ∈ s.locksFor l
        · exact h.nonneg b hc
        · have hz := h.lockCnt b
          rw [List.count_eq_zero_of_not_mem hc] at hz
          omega
      have htaken : Taken backend l l l s t := by
        have ht := h
        unfold MapsTaken at ht
        rw [hlocks] at ht
        exact ht
      have hin : Taken backend l l l s (t.enterWindow me b) := htaken.setWindow me (some (b, false))
      refine Ends.access_eq (congrArg some hstart) (Ends.bind (Ends.ask fun y _ => ?_))
      refine Ends.bind (Ends.access (fun hn => ?_) fun ok u hu => ?_)
      · simp only [State.boLock, State.enterWindow, hmem, if_true] at hn
        cases hk : backend.boLock with
        | false => simp [hk] at hn
        | true => cases hy : y.lock <;> simp [hk, hy] at hn
      · exact Ends.bind (Ends.ask fun z _ => boMapEnd_ends hlock hb h0 (hin.boLock hu))

theorem tbmBoUnmap_ends (hl : s.lockType ≠ .tryOnce) (hg : s.gBufMgr.isSome) (hb : b ∈ s.boList)
    (hm : 0 ≤ s.maps b) (h : MapsTaken backend (b :: l) s t) :
    (tbmBoUnmap backend (some b)).Ends (honest backend) State.atLimit t fun _ u =>
      MapsTaken backend l s u := by
  have hmem : b ∈ t.boList := by
    rw [h.boList]
    exact hb
  have hv : t.boIsValid (some b) = some b := by
    refine boIsValid_of_mem ?_ hmem
    rw [h.gBufMgr]
    exact hg
  refine Ends.inside (Ends.ask fun x hx => ?_)
  have hpos : 0 < t.maps b := by
    have hmaps := h.maps b
    rw [List.count_cons_self] at hmaps
    push_cast at hmaps
    omega
  have hask : Asks (unmapEnd backend (some b)) (unmapEnd backend (some b)) :=
    ⟨pure, funext fun y => (bind_pure (unmapEnd backend (some b) y)).symm⟩
  have hok : x.unmap = true := (hx (some b) hask b hv).mpr hpos
  have heq : (some <| match t.boIsValid (some b) with
      | some b => t.boUnmap backend b x.unmap
      | none => (false, t)) = some (true, (t.boUnmap backend b true).2) := by
    rw [hv, hok]
    rfl
  exact Ends.access_eq heq (h.boUnmap hl)

/-- The slots of a linked surface hold the live buffer objects `l`. -/
structure SlotsHold (s : State) (h : Surface) (l : List Bo) : Prop where
  linked : h ∈ s.surfList
  slot : ∀ i < l.length, (s.surface h).bos i = l[i]?
  le : l.length ≤ 4
  live : ∀ b ∈ l, b ∈ s.boList

variable {h : Surface} {l' : List Bo}

theorem SlotsHold.left (hs : SlotsHold s h (l ++ l')) : SlotsHold s h l := by
  have hlen := hs.le
  rw [List.length_append] at hlen
  refine ⟨hs.linked, fun i hi => ?_, by omega, fun b hb => hs.live b (List.mem_append_left l' hb)⟩
  rw [hs.slot i (by rw [List.length_append]; omega), List.getElem?_append_left hi]

theorem SlotsHold.surfaceSlot (hs : SlotsHold s h (l ++ b :: l')) (ht : Stays s t) :
    t.surfaceSlot h l.length = some (some b) := by
  have hlen : l.length < (l ++ b :: l').length := by simp
  have hle := hs.le
  have hslot := hs.slot l.length hlen
  rw [List.getElem?_append_right (le_refl _), Nat.sub_self, List.getElem?_cons_zero] at hslot
  unfold State.surfaceSlot SurfaceData.slot
  rw [ht.surfList, ht.surface, if_pos hs.linked, if_pos (by omega), hslot]

theorem unmapSlots_ends (hl : s.lockType ≠ .tryOnce) (hg : s.gBufMgr.isSome)
    (hm : ∀ b, 0 ≤ s.maps b) (hs : SlotsHold s h (l ++ l')) (ht : MapsTaken backend l' s t) :
    (unmapSlots backend h l'.length l.length).Ends (honest backend) State.atLimit t fun _ u =>
      MapsTaken backend [] s u := by
  induction l' generalizing l t with
  | nil => exact Ends.pure ht
  | cons b l' ih =>
    have hb : b ∈ s.boList := hs.live b (by simp)
    have hslot := hs.surfaceSlot ht.toStays
    refine Ends.bind (Ends.access_eq (by rw [hslot]; rfl) (Ends.bind ?_))
    refine (tbmBoUnmap_ends hl hg hb (hm b) ht).mono fun _ u hu => ?_
    have hnext : SlotsHold s h ((l ++ [b]) ++ l') := by
      rw [List.append_assoc]
      exact hs
    have hrest := ih hnext hu
    rw [List.length_append] at hrest
    exact hrest

theorem mapSlots_ends (hl : s.lockType ≠ .tryOnce) (hg : s.gBufMgr.isSome)
    (hm : ∀ b, 0 ≤ s.maps b) (hs : SlotsHold s h (l ++ l')) (ht : MapsTaken backend l s t) :
    (mapSlots backend me h l'.length l.length).Ends (honest backend) State.atLimit t fun ok u =>
      MapsTaken backend (if ok then l ++ l' else []) s u := by
  induction l' generalizing l t with
  | nil =>
    rw [List.append_nil]
    exact Ends.pure ht
  | cons b l' ih =>
    have hb : b ∈ s.boList := hs.live b (by simp)
    have hslot := hs.surfaceSlot ht.toStays
    refine Ends.bind (Ends.bind (Ends.access_eq (by rw [hslot]; rfl) (Ends.bind ?_)))
    refine (tbmBoMap_ends hl hg hb ht).mono fun ok u hu => Ends.bind ?_
    cases ok with
    | true =>
      have hnext : SlotsHold s h ((l ++ [b]) ++ l') := by
        rw [List.append_assoc]
        exact hs
      have hswap : (b :: l).Perm (l ++ [b]) := (List.perm_append_singleton b l).symm
      have hrest := ih hnext (MapsTaken.perm hu hswap)
      rw [List.length_append, List.append_assoc] at hrest
      exact hrest
    | false =>
      -- the slot that failed is not among those that are given back
      have hback := unmapSlots_ends (l := []) hl hg hm hs.left hu
      exact Ends.bind (hback.mono fun _ _ hv => Ends.pure hv)

/-- A surface whose slots all hold live buffer objects. -/
theorem slotsHold_held (hh : h ∈ s.surfList) (hn : (s.surface h).numBos ≤ 4)
    (hb : ∀ i < (s.surface h).numBos.toNat, ∃ b ∈ s.boList, (s.surface h).bos i = some b) :
    (s.surface h).held.length = (s.surface h).numBos.toNat ∧
      SlotsHold s h (s.surface h).held := by
  let v := s.surface h
  let n := v.numBos.toNat
  have hheld : v.held = (List.range n).map fun i => (v.bos i).getD 0 := by
    rw [← List.filterMap_eq_map]
    refine List.filterMap_congr fun i hi => ?_
    obtain ⟨b, -, hbi⟩ := hb i (List.mem_range.mp hi)
    simp [v, hbi]
  have hlen : v.held.length = n := by simp [hheld]
  refine ⟨hlen, hh, fun i hi => ?_, ?_, fun b hbm => ?_⟩
  · change i < v.held.length at hi
    rw [hlen] at hi
    obtain ⟨b, -, hbi⟩ := hb i hi
    change v.bos i = v.held[i]?
    rw [hheld, List.getElem?_map, List.getElem?_range hi]
    simp [v, hbi]
  · change v.held.length ≤ 4
    rw [hlen]
    change v.numBos.toNat ≤ 4
    have hv : v.numBos ≤ 4 := hn
    omega
  · change b ∈ v.held at hbm
    rw [hheld] at hbm
    obtain ⟨i, hi, rfl⟩ := List.mem_map.mp hbm
    obtain ⟨c, hc, hci⟩ := hb i (List.mem_range.mp hi)
    have hval : (v.bos i).getD 0 = c := by simp [v, hci]
    rw [hval]
    exact hc

theorem valid_linked (hv : s.surfaceIsValid (some h) = some (some h)) :
    s.gBufMgr.isSome ∧ h ∈ s.surfList := by
  unfold State.surfaceIsValid at hv
  by_cases hn : s.surfaceBufmgr.isNone ∨ (some h).isNone
  · rw [if_pos hn] at hv
    cases hv
  · rw [if_neg hn] at hv
    by_cases hd : s.surfaceBufmgr.isSome ∧ s.surfaceBufmgr = s.gBufMgr
    · have hf : (some h).filter (fun h => decide (h ∈ s.surfList)) = some h := by
        simpa only [State.deref, if_pos hd, Option.bind_eq_bind, Option.bind_some,
          Option.some.injEq] using hv
      have hmem := (Option.filter_eq_some_iff.mp hf).2
      exact ⟨hd.2 ▸ hd.1, of_decide_eq_true hmem⟩
    · simp only [State.deref, if_neg hd] at hv
      cases hv

theorem Stays.surfaceIsValid (ht : Stays s t) (o : Option Surface) :
    t.surfaceIsValid o = s.surfaceIsValid o := by
  unfold State.surfaceIsValid State.deref
  rw [ht.surfaceBufmgr, ht.gBufMgr, ht.surfList]

/-- The counts of every buffer object are the same, also those of the backend's lock if its lock
and its unlock come together. -/
structure SameCounts (backend : Backend) (s t : State) : Prop where
  mapCnt : ∀ b, (t.bo b).mapCnt = (s.bo b).mapCnt
  maps : ∀ b, t.maps b = s.maps b
  lockCnt : ∀ b, (t.bo b).lockCnt = (s.bo b).lockCnt
  held : backend.boLock = backend.boUnlock → ∀ b, (t.tally b).held = (s.tally b).held

theorem MapsTaken.sameCounts (ht : MapsTaken backend [] s t) : SameCounts backend s t := by
  have hnil : s.locksFor [] = [] := by simp [State.locksFor]
  unfold MapsTaken at ht
  rw [hnil] at ht
  constructor
  · intro b
    rw [ht.mapCnt, List.count_nil]
    exact UInt32.add_zero _
  · intro b
    rw [ht.maps, List.count_nil]
    exact add_zero _
  · intro b
    rw [ht.lockCnt, List.count_nil]
    exact add_zero _
  · intro hk b
    rw [ht.held hk, List.count_nil]
    simp

/-- The unmap of a surface whose slots have been mapped on top of `s`. -/
theorem tbmSurfaceInternalUnmap_ends (hl : s.lockType ≠ .tryOnce)
    (hv : s.surfaceIsValid (some h) = some (some h)) (hm : ∀ b, 0 ≤ s.maps b)
    (hn : l.length = (s.surface h).numBos.toNat) (hs : SlotsHold s h l)
    (ht : MapsTaken backend l s t) :
    (tbmSurfaceInternalUnmap backend (some h)).Ends (honest backend) State.atLimit t fun _ u =>
      SameCounts backend s u := by
  have hg := (valid_linked hv).1
  refine Ends.inside (Ends.bind ?_)
  refine Ends.access_eq (a := some h) (t := t) ?_ (Ends.bind (Ends.read ?_))
  · rw [ht.surfaceIsValid, hv]
    rfl
  · rw [ht.surface, ← hn]
    exact (unmapSlots_ends (l := []) hl hg hm hs ht).mono fun _ u hu => hu.sameCounts

/-- A surface map that fails leaves the counts as they were; one that succeeds maps each slot once
more, and the unmap gives that back. -/
theorem surface_map_all_or_nothing (hl : s.lockType ≠ .tryOnce)
    (hv : s.surfaceIsValid (some h) = some (some h)) (hn : (s.surface h).numBos ≤ 4)
    (hb : ∀ i < (s.surface h).numBos.toNat, ∃ b ∈ s.boList, (s.surface h).bos i = some b)
    (hm : ∀ b, 0 ≤ s.maps b) :
    (tbmSurfaceInternalGetInfo backend me (some h) true).Ends (honest backend) State.atLimit s
      fun r t => match r with
        | none => SameCounts backend s t
        | some _ =>
          (∀ b, (t.bo b).mapCnt = (s.bo b).mapCnt + .ofNat ((s.surface h).held.count b) ∧
            t.maps b = s.maps b + (s.surface h).held.count b) ∧
          (tbmSurfaceInternalUnmap backend (some h)).Ends (honest backend) State.atLimit t
            fun _ u => SameCounts backend s u := by
  obtain ⟨hg, hh⟩ := valid_linked hv
  obtain ⟨hlen, hs⟩ := slotsHold_held hh hn hb
  refine Ends.inside (Ends.bind ?_)
  refine Ends.access_eq (a := some h) (t := s) ?_ (Ends.bind (Ends.read ?_))
  · rw [hv]
    rfl
  · refine Ends.bind ?_
    rw [← hlen]
    refine (mapSlots_ends (l := []) hl hg hm hs MapsTaken.refl).mono fun ok t ht => ?_
    cases ok with
    | false => exact Ends.pure (MapsTaken.sameCounts ht)
    | true =>
      have htaken : MapsTaken backend (s.surface h).held s t := ht
      have hlinked : h ∈ t.surfList := by
        rw [htaken.surfList]
        exact hh
      refine Ends.access_eq (if_pos hlinked) ⟨fun b => ⟨htaken.mapCnt b, htaken.maps b⟩, ?_⟩
      exact tbmSurfaceInternalUnmap_ends hl hv hm hlen hs htaken

/-- One buffer object, once mapped by someone else, in both slots of a surface. -/
private def sharedSlots : State :=
  { State.initial with
    gBufMgr := some 0
    surfaceBufmgr := some 0
    lockType := .tryAlways
    boList := [0]
    surfList := [0]
    bo := fun _ => ⟨2, 0, some 0, some 0, 1, 1⟩
    surface := fun _ => ⟨some 0, ⟨8, 8, .nv12, 12, 96, 2, fun _ => ⟨64, 0, 8⟩⟩, 0, 2,
      fun i => if i < 2 then some 0 else none, fun i => i, 1⟩
    locks := fun _ => 1
    maps := fun _ => 1 }

private def locking : Backend := ⟨true, true, true, true, true, true, true, true⟩

theorem surface_map_all_or_nothing_shared :
    (tbmSurfaceInternalGetInfo locking 0 (some 0) true).Ends (honest locking) State.atLimit
      sharedSlots fun r t => match r with
        | none => SameCounts locking sharedSlots t
        | some _ =>
          (∀ b, (t.bo b).mapCnt = (sharedSlots.bo b).mapCnt +
              .ofNat ((sharedSlots.surface 0).held.count b) ∧
            t.maps b = sharedSlots.maps b + (sharedSlots.surface 0).held.count b) ∧
          (tbmSurfaceInternalUnmap locking (some 0)).Ends (honest locking) State.atLimit t
            fun _ u => SameCounts locking sharedSlots u := by
  refine surface_map_all_or_nothing (by decide) (by decide) (by decide) (fun i hi => ?_) fun b => ?_
  · have htwo : i < 2 := hi
    exact ⟨0, by decide, if_pos htwo⟩
  · change (0 : ℤ) ≤ 1
    decide

/-- A surface of one plane whose buffer object nobody has mapped. -/
private def oneSlot : State :=
  { State.initial with
    gBufMgr := some 0
    surfaceBufmgr := some 0
    lockType := .tryAlways
    boList := [0]
    surfList := [0]
    bo := fun _ => ⟨1, 0, some 0, some 0, 0, 0⟩
    surface := fun _ => ⟨some 0, ⟨8, 8, .c8, 8, 64, 1, fun _ => ⟨64, 0, 8⟩⟩, 0, 1,
      fun i => if i < 1 then some 0 else none, fun i => i, 1⟩ }

/-- With a backend that locks and never unlocks, a map that fails leaves its lock behind. -/
theorem failed_map_keeps_lock :
    ¬∀ (backend : Backend) (me : ℕ) (s : State) (h : Surface), s.lockType ≠ .tryOnce →
      s.surfaceIsValid (some h) = some (some h) → (s.surface h).numBos ≤ 4 →
      (∀ i < (s.surface h).numBos.toNat, ∃ b ∈ s.boList, (s.surface h).bos i = some b) →
      (∀ b, 0 ≤ s.maps b) →
      (tbmSurfaceInternalGetInfo backend me (some h) true).Ends (honest backend) State.atLimit s
        fun r t => r = none → ∀ b, (t.bo b).mapCnt = (s.bo b).mapCnt ∧
          (t.bo b).lockCnt = (s.bo b).lockCnt ∧ (t.tally b).held = (s.tally b).held := by
  intro hall
  let backend : Backend := { Backend.plain with boUnlock := false }
  let x : Answers := { Answers.granted 0 with map := false }
  have hstart := hall backend 0 oneSlot 0 (by decide) (by decide) (by decide)
    (fun i hi => ⟨0, by decide, if_pos hi⟩) fun b => le_refl 0
  -- The call has three questions: before the lock, for the lock, and for the map.
  have hslot := ((hstart.2 _ _ rfl).2 _ _ rfl).2 _ _ rfl
  obtain ⟨u₁, hu₁⟩ := honest_may backend _ _ x
  have houtside := (hslot _ hu₁).2 _ _ rfl
  obtain ⟨u₂, hu₂⟩ := honest_may backend _ _ x
  have hlocked := (houtside _ hu₂).2 _ _ rfl
  obtain ⟨u₃, hu₃⟩ := honest_may backend _ _ x
  have hend := (hlocked _ hu₃).2 _ _ rfl
  obtain ⟨-, -, hheld⟩ := hend rfl 0
  exact absurd hheld (by decide)

end Calls

end Tbm.Bufmgr
