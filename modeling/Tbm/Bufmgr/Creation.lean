import Tbm.Bufmgr.Calls
import Mathlib.Data.List.Range

/-! What the creation of a surface adds to the data and what it takes back when it fails. -/
namespace Tbm.Bufmgr

open Prog Runs

variable {backend : Backend} {x : Answers} {s s' t : State} {L : Ledger} {h : Surface}

/-- The state with the buffer objects, the counts and the observers of an earlier one. -/
def State.rewind (t s : State) : State :=
  { t with
    boCnt := s.boCnt
    boList := s.boList
    lastChkBoCnt := s.lastChkBoCnt
    bo := s.bo
    bos := s.bos
    surfaces := s.surfaces
    frees := s.frees
    unlocks := s.unlocks
    asked := s.asked
    freshAllocs := s.freshAllocs }

theorem State.rewind_trans (h1 : t.rewind s = s) (h2 : s'.rewind t = t) : s'.rewind s = s := by
  calc s'.rewind s = (s'.rewind t).rewind s := rfl
    _ = t.rewind s := by rw [h2]
    _ = s := h1

section Slots

/-- There are `k` new buffer objects, for the slots of `h` from `i` on. `tbm_bo_alloc` is called
with `size j` for slot `j`. -/
structure Grown (backend : Backend) (x : Answers) (size : ℕ → ℤ) (flags : ℤ) (h : Surface)
    (i k : ℕ) (s t : State) : Prop where
  bos : t.bos = s.bos + k
  boList : t.boList = (List.range' s.bos k).reverse ++ s.boList
  old : ∀ b < s.bos, t.bo b = s.bo b
  new : ∀ j < k, t.bo (s.bos + j) =
    { refCnt := 1, flags := flags, priv := (x.bo (i + j)).priv, surface := some h, lockCnt := 0
      mapCnt := 0 }
  kept : ∀ b < s.bos, t.asked b = s.asked b
  asked : backend.surfaceBoAlloc = false → ∀ j < k, t.asked (s.bos + j) = some (size (i + j))
  frees : t.frees = s.frees
  rest : t.rewind s = s

section Grown

variable {size : ℕ → ℤ} {flags : ℤ}

theorem Grown.checked (i : ℕ) (s : State) (n : UInt32) :
    Grown backend x size flags h i 0 s { s with lastChkBoCnt := n } where
  bos := rfl
  boList := rfl
  old := fun _ _ => rfl
  new := fun _ hj => absurd hj (Nat.not_lt_zero _)
  kept := fun _ _ => rfl
  asked := fun _ _ hj => absurd hj (Nat.not_lt_zero _)
  frees := rfl
  rest := rfl

theorem Grown.slot {m : Mgr} {i : ℕ} {b : Bo} {u : Unit}
    (ha : exec x (allocSlot backend m (size i) flags i) s = some (some b, t))
    (hs : exec x (tbmBoSetSurface (some b) (some h)) t = some (u, s')) :
    b = s.bos ∧ Grown backend x size flags h i 1 s s' := by
  obtain ⟨rfl, hg, -, -, p, hp, n, ht⟩ := allocSlot_exec ha
  have hin : s.bos ∈ t.boList := by
    rcases ht with rfl | ⟨-, rfl⟩ <;> exact List.mem_cons_self
  have hmgr : t.gBufMgr = some m := by
    rcases ht with rfl | ⟨-, rfl⟩ <;> exact hg
  have hv : t.boIsValid (some s.bos) = some s.bos := by simp [State.boIsValid, hin, hmgr]
  simp only [tbmBoSetSurface, exec_locked, exec_modify, hv, Option.some.injEq,
    Prod.mk.injEq] at hs
  obtain ⟨-, rfl⟩ := hs
  have hbos : t.bos = s.bos + 1 := by
    rcases ht with rfl | ⟨-, rfl⟩ <;> rfl
  have hlist : t.boList = s.bos :: s.boList := by
    rcases ht with rfl | ⟨-, rfl⟩ <;> rfl
  have hbo : t.bo = Function.update s.bo s.bos
      { refCnt := 1, flags := flags, priv := some p, surface := none, lockCnt := 0
        mapCnt := 0 } := by
    rcases ht with rfl | ⟨-, rfl⟩ <;> rfl
  refine ⟨rfl, hbos, hlist, ?_, ?_, ?_, ?_, ?_, ?_⟩
  · intro c hc
    have hne : c ≠ s.bos := Nat.ne_of_lt hc
    simp [State.setBoSurface, State.setBo, hbo, hne]
  · intro j hj
    obtain rfl : j = 0 := by omega
    simp [State.setBoSurface, State.setBo, hbo, hp]
  · intro c hc
    rcases ht with rfl | ⟨-, rfl⟩
    · exact Function.update_of_ne (Nat.ne_of_lt hc) _ _
    · rfl
  · intro hb j hj
    obtain rfl : j = 0 := by omega
    rcases ht with rfl | ⟨hb', -⟩
    · exact Function.update_self ..
    · rw [hb] at hb'
      exact absurd hb' Bool.false_ne_true
  · rcases ht with rfl | ⟨-, rfl⟩ <;> rfl
  · rcases ht with rfl | ⟨-, rfl⟩ <;> rfl

theorem Grown.trans {i j k : ℕ} (h1 : Grown backend x size flags h i j s t)
    (h2 : Grown backend x size flags h (i + j) k t s') :
    Grown backend x size flags h i (j + k) s s' := by
  refine ⟨?_, ?_, ?_, ?_, ?_, ?_, h2.frees.trans h1.frees, State.rewind_trans h1.rest h2.rest⟩
  · rw [h2.bos, h1.bos, Nat.add_assoc]
  · rw [h2.boList, h1.boList, h1.bos, ← List.append_assoc, ← List.reverse_append,
      List.range'_append_1]
  · intro b hb
    rw [h2.old b (by rw [h1.bos]; omega), h1.old b hb]
  · intro n hn
    by_cases hj : n < j
    · rw [h2.old _ (by rw [h1.bos]; omega), h1.new n hj]
    · have hk := h2.new (n - j) (by omega)
      have hidx : s.bos + j + (n - j) = s.bos + n := by omega
      have hslot : i + j + (n - j) = i + n := by omega
      rw [h1.bos, hidx, hslot] at hk
      exact hk
  · intro b hb
    rw [h2.kept b (by rw [h1.bos]; omega), h1.kept b hb]
  · intro hb n hn
    by_cases hj : n < j
    · rw [h2.kept _ (by rw [h1.bos]; omega), h1.asked hb n hj]
    · have hk := h2.asked hb (n - j) (by omega)
      have hidx : s.bos + j + (n - j) = s.bos + n := by omega
      have hslot : i + j + (n - j) = i + n := by omega
      rw [h1.bos, hidx, hslot] at hk
      exact hk

end Grown

/-- The loop over the slots fills one after the other until an allocation fails. -/
theorem allocSlots_grown {m : Mgr} {flags : ℤ} {ps : List PlaneAnswer} {n : ℕ}
    {l : List (Option Bo)} {r : Bool × List (Option Bo)}
    (he : exec x (allocSlots backend m flags ps h n l) s = some (r, s')) :
    ∃ k, Grown backend x (boSizeOf ps) flags h l.length k s s' ∧
      r.2 = l ++ (List.range' s.bos k).map some ∧ (r.1 = true → k = n) := by
  induction n generalizing s l with
  | zero =>
    simp only [allocSlots, exec_pure, Option.some.injEq, Prod.mk.injEq] at he
    obtain ⟨rfl, rfl⟩ := he
    exact ⟨0, .checked l.length s s.lastChkBoCnt, by simp, fun _ => rfl⟩
  | succ n ih =>
    simp only [allocSlots, exec_bind] at he
    obtain ⟨⟨o, t⟩, ho, he⟩ := Option.bind_eq_some_iff.mp he
    cases o with
    | none =>
      obtain ⟨n, rfl⟩ := allocSlot_exec ho
      simp only at he
      split_ifs at he
      · simp only [exec_pure, Option.some.injEq, Prod.mk.injEq] at he
        obtain ⟨rfl, rfl⟩ := he
        exact ⟨0, .checked l.length s n, by simp, by simp⟩
      · simp at he
    | some b =>
      simp only at he
      split_ifs at he
      · simp only [exec_bind] at he
        obtain ⟨⟨u, t'⟩, hset, he⟩ := Option.bind_eq_some_iff.mp he
        obtain ⟨rfl, h1⟩ := Grown.slot ho hset
        obtain ⟨k, h2, hl, hk⟩ := ih he
        rw [List.length_append, List.length_singleton] at h2
        refine ⟨1 + k, h1.trans h2, ?_, fun hr => ?_⟩
        · rw [hl, h1.bos, Nat.add_comm 1 k, List.range'_succ, List.map_cons, List.append_assoc]
          rfl
        · rw [hk hr, Nat.add_comm]
      · simp at he

end Slots

section Undo

/-- The buffer objects `bs` are freed, in that order. -/
structure Freed (bs : List Bo) (s t : State) : Prop where
  bos : t.bos = s.bos
  boList : t.boList = s.boList.diff bs
  other : ∀ c ∉ bs, t.bo c = s.bo c
  frees : t.frees = s.frees ++ bs
  rest : t.rewind s = s

theorem tbmBoUnref_freed (backend : Backend) (x : Answers) {b : Bo} (hg : s.gBufMgr.isSome)
    (hb : b ∈ s.boList) (h1 : (s.bo b).refCnt = 1) :
    ∃ t, exec x (tbmBoUnref backend (some b)) s = some ((), t) ∧ Freed [b] s t := by
  have hv : s.boIsValid (some b) = some b := by simp [State.boIsValid, hg, hb]
  have hunref : s.boUnref backend b = (s.setRefCnt b 0).boFree backend b := by
    simp [State.boUnref, State.setRefCnt, State.setBo, h1]
  obtain ⟨bo, unlocks, hbo, hfree⟩ := boFree_eq backend (s.setRefCnt b 0) b
  refine ⟨(s.setRefCnt b 0).boFree backend b, ?_, ?_⟩
  · simp only [tbmBoUnref, exec_locked, exec_modify, hv, hunref]
  · rw [hfree]
    refine ⟨rfl, ?_, ?_, rfl, rfl⟩
    · rw [List.diff_cons, List.diff_nil]
      rfl
    · intro c hc
      have hne : c ≠ b := by simpa using hc
      show bo c = s.bo c
      rw [hbo c hne]
      simp [State.setRefCnt, State.setBo, hne]

/-- The undo loop frees buffer objects nobody else refers to. -/
theorem unrefSlots_freed (backend : Backend) (x : Answers) {bs : List Bo} (hg : s.gBufMgr.isSome)
    (hn : bs.Nodup) (hin : ∀ b ∈ bs, b ∈ s.boList ∧ (s.bo b).refCnt = 1) :
    ∃ t, exec x (unrefSlots backend (bs.map some)) s = some ((), t) ∧ Freed bs s t := by
  induction bs generalizing s with
  | nil => exact ⟨s, rfl, rfl, rfl, fun _ _ => rfl, (List.append_nil _).symm, rfl⟩
  | cons b bs ih =>
    obtain ⟨hb, hn'⟩ := List.nodup_cons.mp hn
    obtain ⟨hbin, h1⟩ := hin b List.mem_cons_self
    obtain ⟨t, he, ht⟩ := tbmBoUnref_freed backend x hg hbin h1
    have hgt : t.gBufMgr = s.gBufMgr := (congrArg State.gBufMgr ht.rest :)
    have hlist : t.boList = s.boList.erase b := by rw [ht.boList, List.diff_cons, List.diff_nil]
    obtain ⟨t', he', ht'⟩ := ih (hgt ▸ hg) hn' (by
      intro c hc
      have hne : c ≠ b := fun e => hb (e ▸ hc)
      obtain ⟨hcin, hc1⟩ := hin c (List.mem_cons_of_mem b hc)
      rw [ht.other c (by simpa using hne), hlist]
      exact ⟨(List.mem_erase_of_ne hne).mpr hcin, hc1⟩)
    refine ⟨t', ?_, ?_, ?_, ?_, ?_, State.rewind_trans ht.rest ht'.rest⟩
    · simp only [List.map_cons, unrefSlots, exec_bind, he, Option.bind_some, he']
    · rw [ht'.bos, ht.bos]
    · rw [ht'.boList, hlist, List.diff_cons]
    · intro c hc
      rw [ht'.other c fun h => hc (List.mem_cons_of_mem b h),
        ht.other c fun h => hc (by simp [List.mem_singleton.mp h])]
    · rw [ht'.frees, ht.frees, List.append_assoc]
      rfl

private theorem diff_append_perm {as bs l : List Bo} (hp : as.Perm bs) : (as ++ l).diff bs = l := by
  induction bs generalizing as with
  | nil =>
    rw [hp.eq_nil]
    rfl
  | cons b bs ih =>
    have hb : b ∈ as := hp.mem_iff.mpr List.mem_cons_self
    rw [List.diff_cons, List.erase_append_left l hb]
    apply ih
    exact (hp.erase b).trans (by simp)

/-- All that is left of the call are its handles and what it has freed. -/
structure Restored (s t : State) : Prop where
  bos : s.bos ≤ t.bos
  boList : t.boList = s.boList
  old : ∀ b < s.bos, t.bo b = s.bo b
  frees : t.frees = s.frees ++ List.range' s.bos (t.bos - s.bos)
  rest : t.rewind s = s

theorem Restored.refl (s : State) (n : ℕ) : Restored s { s with surfaces := n } :=
  ⟨Nat.le_refl _, rfl, fun _ _ => rfl, by simp, rfl⟩

theorem Grown.freed {size : ℕ → ℤ} {flags : ℤ} {i k : ℕ}
    (h1 : Grown backend x size flags h i k s t)
    (h2 : Freed (List.range' s.bos k) t s') : Restored s s' := by
  have hbos : s'.bos = s.bos + k := by rw [h2.bos, h1.bos]
  refine ⟨by omega, ?_, ?_, ?_, State.rewind_trans h1.rest h2.rest⟩
  · rw [h2.boList, h1.boList]
    exact diff_append_perm (List.reverse_perm _)
  · intro b hb
    have hnot : b ∉ List.range' s.bos k := by
      rw [List.mem_range'_1]
      intro hin
      exact Nat.not_le_of_lt hb hin.1
    rw [h2.other b hnot, h1.old b hb]
  · rw [h2.frees, h1.frees, hbos, Nat.add_sub_cancel_left]

theorem createBody_restored {m : Mgr} {flags : ℤ} {width height : ℤ} {format : Format}
    {ps : List PlaneAnswer} (hg : s.gBufMgr = some m)
    (he : exec x (do
      let r ← allocSlots backend m flags ps h (numBosOf ps).toNat []
      finishSurface backend m h (newSurfaceData m width height format flags ps) r) s =
        some (none, s')) : Restored s s' := by
  simp only [exec_bind] at he
  obtain ⟨⟨r, t⟩, hr, he⟩ := Option.bind_eq_some_iff.mp he
  obtain ⟨k, hgrown, hl, -⟩ := allocSlots_grown hr
  rw [List.nil_append] at hl
  have hgt : t.gBufMgr = s.gBufMgr := (congrArg State.gBufMgr hgrown.rest :)
  unfold finishSurface at he
  split_ifs at he with h1
  · simp only [exec_access, Option.bind_eq_bind] at he
    obtain ⟨-, -, he⟩ := Option.bind_eq_some_iff.mp he
    simp at he
  · have hlive : ∀ b ∈ List.range' s.bos k, b ∈ t.boList ∧ (t.bo b).refCnt = 1 := by
      intro b hb
      obtain ⟨j, hj, rfl⟩ := List.mem_range'.mp hb
      rw [Nat.one_mul, hgrown.new j hj, hgrown.boList]
      rw [Nat.one_mul] at hb
      exact ⟨List.mem_append_left _ (List.mem_reverse.mpr hb), rfl⟩
    have hgt' : t.gBufMgr.isSome := by simp [hgt, hg]
    obtain ⟨t', hu, hfreed⟩ := unrefSlots_freed backend x hgt' List.nodup_range' hlive
    simp only [exec_bind, hl, hu, Option.bind_some, exec_pure, Option.some.injEq, Prod.mk.injEq,
      true_and] at he
    rw [← he]
    exact hgrown.freed hfreed

end Undo

section Success

/-- A creation that succeeds returns what its body does. -/
theorem createSurface_some {body : Mgr → Surface → Answers → BProg (Option Surface)}
    (he : exec x (createSurface backend body) s = some (some h, s')) :
    ∃ i t m, exec x initSurfaceBufmgr s = some (i, t) ∧ t.surfaceBufmgr = some m ∧
      exec x (body m t.surfaces x) t.newSurface.2 = some (some h, s') := by
  simp only [createSurface, exec_locked, exec_bind] at he
  obtain ⟨⟨i, t⟩, hi, he⟩ := Option.bind_eq_some_iff.mp he
  obtain ⟨⟨r, t'⟩, hr, he⟩ := Option.bind_eq_some_iff.mp he
  cases r with
  | none =>
    simp only [exec_bind] at he
    obtain ⟨⟨u, t''⟩, -, he⟩ := Option.bind_eq_some_iff.mp he
    simp at he
  | some k =>
    simp only [exec_pure, Option.some.injEq, Prod.mk.injEq] at he
    obtain ⟨rfl, rfl⟩ := he
    simp only [makeSurface, exec_bind, exec_read, Option.bind_some] at hr
    cases hm : t.surfaceBufmgr with
    | none => simp [hm] at hr
    | some m =>
      simp only [hm, exec_bind, exec_answer, Option.bind_some] at hr
      split_ifs at hr with hc
      · simp only [exec_bind, exec_access, Option.bind_some] at hr
        exact ⟨i, t, m, hi, hm, hr⟩
      · simp at hr

theorem finishSurface_cases {m : Mgr} {k : Surface} {data : List (Option Bo) → SurfaceData}
    {r : Bool × List (Option Bo)} {o : Option Surface}
    (he : exec x (finishSurface backend m k data r) s = some (o, s')) :
    (r.1 = true ∧ o = some k ∧ s' = s.linkSurface k (data r.2)) ∨ (r.1 = false ∧ o = none) := by
  unfold finishSurface at he
  split_ifs at he with h1
  · simp only [exec_access, Option.bind_eq_bind] at he
    obtain ⟨-, -, he⟩ := Option.bind_eq_some_iff.mp he
    obtain ⟨rfl, rfl⟩ := Prod.mk.inj (Option.some.inj he)
    exact .inl ⟨h1, rfl, rfl⟩
  · simp only [exec_bind] at he
    obtain ⟨⟨u, t⟩, -, he⟩ := Option.bind_eq_some_iff.mp he
    obtain ⟨rfl, -⟩ := Prod.mk.inj (Option.some.inj he)
    exact .inr ⟨by simpa using h1, rfl⟩

theorem finishSurface_some {m : Mgr} {k : Surface} {data : List (Option Bo) → SurfaceData}
    {r : Bool × List (Option Bo)}
    (he : exec x (finishSurface backend m k data r) s = some (some h, s')) :
    h = k ∧ r.1 = true ∧ s' = s.linkSurface k (data r.2) := by
  rcases finishSurface_cases he with ⟨hdone, ho, hs⟩ | ⟨-, ho⟩
  · exact ⟨Option.some.inj ho, hdone, hs⟩
  · contradiction

theorem queryPlaneData_length {backend : Backend} {x : Answers} {n : ℕ} {ps : List PlaneAnswer}
    (h : queryPlaneData backend x n = some ps) : ps.length = n := by
  suffices ∀ (l : List ℕ) (ps : List PlaneAnswer),
      (l.mapM fun i => if backend.surfaceGetPlaneData then x.plane i else none) = some ps →
        ps.length = l.length by
    rw [this _ _ h, List.length_range]
  intro l
  induction l with
  | nil =>
    intro ps h
    obtain rfl : [] = ps := by simpa using h
    rfl
  | cons i l ih =>
    intro ps h
    rw [List.mapM_cons] at h
    obtain ⟨p, -, h⟩ := Option.bind_eq_some_iff.mp h
    obtain ⟨qs, hqs, h⟩ := Option.bind_eq_some_iff.mp h
    obtain rfl : p :: qs = ps := by simpa using h
    rw [List.length_cons, List.length_cons, ih qs hqs]

/-- What `create_with_flags` has done when it returns a surface. -/
theorem createWithFlags_some {width height : ℤ} {format : Format} {flags : ℤ}
    (he : exec x (tbmSurfaceInternalCreateWithFlags backend width height format flags) s =
      some (some h, s')) :
    ∃ i t m ps k t', exec x initSurfaceBufmgr s = some (i, t) ∧ t.surfaceBufmgr = some m ∧
      h = t.surfaces ∧ queryPlaneData backend x format.numPlanes.toNat = some ps ∧
      Grown backend x (boSizeOf ps) flags h 0 k t.newSurface.2 t' ∧ k = (numBosOf ps).toNat ∧
      s' = t'.linkSurface h (newSurfaceData m width height format flags ps
        ((List.range' t.bos k).map some)) := by
  unfold tbmSurfaceInternalCreateWithFlags at he
  split_ifs at he with hsz
  · obtain ⟨i, t, m, hi, hm, hb⟩ := createSurface_some he
    cases hps : queryPlaneData backend x format.numPlanes.toNat with
    | none => simp [hps] at hb
    | some ps =>
      simp only [hps, exec_bind] at hb
      obtain ⟨⟨r, t'⟩, hr, hb⟩ := Option.bind_eq_some_iff.mp hb
      obtain ⟨k, hgrown, hl, hk⟩ := allocSlots_grown hr
      obtain ⟨rfl, h1, rfl⟩ := finishSurface_some hb
      rw [List.nil_append] at hl
      rw [hl]
      exact ⟨i, t, m, ps, k, t', hi, hm, rfl, rfl, hgrown, hk h1, rfl⟩
  · simp at he

end Success

section Failure

/-- What a creation that fails leaves as it was. Handles are given out in order, one for each
buffer the backend allocates, and those of the call are freed once each. -/
structure Atomic (s s' : State) : Prop where
  surfList : s'.surfList = s.surfList
  boList : s'.boList = s.boList
  bo : ∀ b ∈ s.boList, s'.bo b = s.bo b
  refCount : s'.refCount = s.refCount
  gBufMgr : s'.gBufMgr = s.gBufMgr
  surfaceBufmgr : s'.surfaceBufmgr = s.surfaceBufmgr
  surface : s'.surface = s.surface
  bos : s.bos ≤ s'.bos
  frees : s'.frees = s.frees ++ List.range' s.bos (s'.bos - s.bos)

theorem Restored.atomic (hl : Life s L) (hr : Restored s s') : Atomic s s' where
  surfList := (congrArg State.surfList hr.rest :)
  boList := hr.boList
  bo := fun b hb => hr.old b (hl.fresh b hb)
  refCount := (congrArg State.refCount hr.rest :)
  gBufMgr := (congrArg State.gBufMgr hr.rest :)
  surfaceBufmgr := (congrArg State.surfaceBufmgr hr.rest :)
  surface := (congrArg State.surface hr.rest :)
  bos := hr.bos
  frees := hr.frees

/-- The manager that the call has taken is given back as it was found. -/
theorem giveBack_atomic {m : Mgr} (hl : Life s L) (hs : s.surfaceBufmgr = none)
    (hi : s.bufmgrInit x = (some m, t))
    (hr : Restored { t with surfaceBufmgr := some m, surfList := [] } s') {u : Unit} {t' : State}
    (he : exec x (giveBack backend true) s' = some (u, t')) : Atomic s t' := by
  have hg : s'.gBufMgr = some m := by
    rw [show s'.gBufMgr = t.gBufMgr from (congrArg State.gBufMgr hr.rest :)]
    exact (bufmgrInit_some hi).1
  have hsb : s'.surfaceBufmgr = some m := (congrArg State.surfaceBufmgr hr.rest :)
  have hsl : s'.surfList = [] := (congrArg State.surfList hr.rest :)
  have hrc : s'.refCount = t.refCount := (congrArg State.refCount hr.rest :)
  have hsurf : s.surfList = [] := hl.surfs hs
  have hts : s'.surface = t.surface := (congrArg State.surface hr.rest :)
  have hself : { s' with surfList := [] } = s' := by rw [← hsl]
  simp only [giveBack, if_true, exec_bind, exec_modify, Option.bind_some, hself] at he
  simp only [deinitSurfaceBufmgr, exec_bind, exec_read, Option.bind_some] at he
  rw [hsb] at he
  simp only [exec_bind] at he
  -- what `tbm_bufmgr_init` has done
  have hinit : (s.gBufMgr = some m ∧ t = { s with refCount := s.refCount + 1 }) ∨
      (s.gBufMgr = none ∧ t.refCount = 1 ∧ t.boList = [] ∧ t.bos = s.bos ∧ t.frees = s.frees ∧
        t.surface = s.surface) := by
    unfold State.bufmgrInit at hi
    split at hi
    next k hk =>
      obtain ⟨hkm, rfl⟩ := Prod.mk.inj hi
      exact .inl ⟨hk.trans hkm, rfl⟩
    next hk =>
      split_ifs at hi with hload
      · obtain ⟨-, rfl⟩ := Prod.mk.inj hi
        exact .inr ⟨hk, rfl, rfl, rfl, rfl, rfl⟩
      · simp at hi
  rcases hinit with ⟨hk, rfl⟩ | ⟨hk, h1, hnil, hbos, hfrees, hsame⟩
  · have hpos : 0 < s.refCount := hl.alive.mp (by simp [hk])
    have hrc' : s'.refCount = s.refCount + 1 := hrc
    rcases tbmBufmgrDeinit_exec backend x hg (by rw [hr.boList]; exact hl.nodup) (fun _ => hsl)
      with ⟨-, hd⟩ | ⟨h1, -⟩
    · rw [hd, Option.bind_some, exec_modify, Option.some.injEq, Prod.mk.injEq] at he
      obtain ⟨-, rfl⟩ := he
      exact ⟨hsl.trans hsurf.symm, hr.boList, fun b hb => hr.old b (hl.fresh b hb),
        show s'.refCount - 1 = s.refCount by omega, hg.trans hk.symm, hs.symm, hts,
        hr.bos, hr.frees⟩
    · omega
  · have hb : s'.boList = [] := hr.boList.trans hnil
    have hsb' : s.boList = [] := hl.bos hk
    obtain ⟨-, h0, -⟩ := hl.unloaded hk
    rcases tbmBufmgrDeinit_exec backend x hg (by simp [hb]) (fun _ => hsl) with
      ⟨h1', -⟩ | ⟨-, bo, unlocks, hd⟩
    · omega
    · rw [hd, Option.bind_some, exec_modify, Option.some.injEq, Prod.mk.injEq] at he
      obtain ⟨-, rfl⟩ := he
      have hle : t.bos ≤ s'.bos := hr.bos
      have hf : s'.frees = t.frees ++ List.range' t.bos (s'.bos - t.bos) := hr.frees
      refine ⟨hsl.trans hsurf.symm, hsb'.symm, by simp [hsb'], ?_, hk.symm, hs.symm,
        hts.trans hsame, ?_, ?_⟩
      · show s'.refCount - 1 = s.refCount
        omega
      · rw [← hbos]
        exact hle
      · show s'.frees ++ s'.boList = _
        rw [hb, List.append_nil, hf, hfrees, hbos]

theorem createSurface_atomic {body : Mgr → Surface → Answers → BProg (Option Surface)}
    (hl : Life s L)
    (hbody : ∀ {m h t t'}, x.calloc = true → t.boList = s.boList → t.gBufMgr = some m →
      exec x (body m h x) t = some (none, t') → Restored t t')
    (he : exec x (createSurface backend body) s = some (none, s')) : Atomic s s' := by
  simp only [createSurface, exec_locked, exec_bind] at he
  obtain ⟨⟨i, t⟩, hi, he⟩ := Option.bind_eq_some_iff.mp he
  obtain ⟨⟨r, t'⟩, hr, he⟩ := Option.bind_eq_some_iff.mp he
  have hlist := initSurfaceBufmgr_boList hl hi
  have hmake (hg : t.gBufMgr = t.surfaceBufmgr)
      (hr : exec x (makeSurface body) t = some (none, t')) :
      Restored t t' := by
    simp only [makeSurface, exec_bind, exec_read, Option.bind_some] at hr
    cases hm : t.surfaceBufmgr with
    | none =>
      simp only [hm, exec_pure, Option.some.injEq, Prod.mk.injEq, true_and] at hr
      rw [← hr]
      exact .refl t t.surfaces
    | some m =>
      simp only [hm, exec_bind, exec_answer, Option.bind_some] at hr
      split_ifs at hr with hc
      · simp only [exec_bind, exec_access, Option.bind_some] at hr
        have hb := hbody (t := t.newSurface.2) hc hlist (hg.trans hm) hr
        exact ⟨hb.bos, hb.boList, hb.old, hb.frees,
          State.rewind_trans (t := t.newSurface.2) rfl hb.rest⟩
      · simp only [exec_pure, Option.some.injEq, Prod.mk.injEq, true_and] at hr
        rw [← hr]
        exact .refl t t.surfaces
  cases r with
  | some k => simp at he
  | none =>
    simp only [exec_bind] at he
    obtain ⟨⟨u, t''⟩, hgive, he⟩ := Option.bind_eq_some_iff.mp he
    simp only [exec_pure, Option.some.injEq, Prod.mk.injEq, true_and] at he
    rw [← he]
    simp only [initSurfaceBufmgr, exec_bind, exec_read, Option.bind_some] at hi
    cases hs : s.surfaceBufmgr with
    | some m =>
      simp only [hs, exec_pure, Option.some.injEq, Prod.mk.injEq] at hi
      obtain ⟨rfl, rfl⟩ := hi
      have hg : s.gBufMgr = s.surfaceBufmgr := by
        rcases hl.surface with h0 | h0
        · simp [hs] at h0
        · exact h0.symm
      simp only [giveBack, Bool.false_eq_true, if_false, exec_pure, Option.some.injEq,
        Prod.mk.injEq, true_and] at hgive
      rw [← hgive]
      exact (hmake hg hr).atomic hl
    | none =>
      simp only [hs, exec_bind] at hi
      obtain ⟨⟨k, t₁⟩, hinit, hi⟩ := Option.bind_eq_some_iff.mp hi
      have hinit' := tbmBufmgrInit_exec hinit
      cases k with
      | none => simp [State.deref] at hi
      | some m =>
        have hg := (bufmgrInit_some hinit').1
        have hd : t₁.deref (some m) = some () := by simp [State.deref, hg]
        simp only [exec_access, hd, Option.bind_eq_bind, Option.bind_some, Option.some.injEq,
          Prod.mk.injEq] at hi
        obtain ⟨rfl, rfl⟩ := hi
        exact giveBack_atomic hl hs hinit' (hmake hg hr) hgive

theorem createWithFlags_atomic {width height : ℤ} {format : Format} {flags : ℤ} (hl : Life s L)
    (he : exec x (tbmSurfaceInternalCreateWithFlags backend width height format flags) s =
      some (none, s')) : Atomic s s' := by
  unfold tbmSurfaceInternalCreateWithFlags at he
  split_ifs at he with hsz
  · apply createSurface_atomic hl ?_ he
    intro m h t t' _ _ hg hb
    split at hb
    next =>
      simp only [exec_pure, Option.some.injEq, Prod.mk.injEq, true_and] at hb
      rw [← hb]
      exact .refl t t.surfaces
    next => exact createBody_restored hg hb
  · simp only [exec_pure, Option.some.injEq, Prod.mk.injEq, true_and] at he
    rw [← he]
    exact (Restored.refl s s.surfaces).atomic hl

variable {turns : List Turn} {log : List (Entry World Turn Reply)} {w : World}

/-- A creation that returns NULL leaves the lists, the references and the manager as they were,
and every buffer it has allocated is freed. -/
theorem create_with_flags_atomic {width height : ℤ} {format : Format} {flags : ℤ}
    (hp : Permitted (World.step backend) (fun w t => w.inited t) turns .initial)
    (hr : run (World.step backend) turns .initial = some (log, w))
    (he : exec x (tbmSurfaceInternalCreateWithFlags backend width height format flags) w.state =
      some (none, s')) : Atomic w.state s' := by
  obtain ⟨o, hl⟩ := run_life hp hr
  exact createWithFlags_atomic hl he

/-- The second buffer of a surface of two planes is refused. -/
private def halfGranted : Answers :=
  { Answers.granted 8 with bo := fun i => ⟨true, if i = 0 then some 8 else none⟩ }

theorem create_with_flags_atomic_half : ∃ log w s',
    run (World.step .plain) [⟨.bufmgrInit, .granted 7⟩, ⟨.boAlloc (some 0) 16 0, .granted 7⟩]
      .initial = some (log, w) ∧
    exec halfGranted (tbmSurfaceInternalCreateWithFlags .plain 4 4 .nv12 0) w.state =
      some (none, s') ∧
    s'.frees = [1] ∧ Atomic w.state s' := by
  have hrun : ((run (World.step .plain)
      [⟨.bufmgrInit, .granted 7⟩, ⟨.boAlloc (some 0) 16 0, .granted 7⟩] .initial).bind fun r =>
        (exec halfGranted (tbmSurfaceInternalCreateWithFlags .plain 4 4 .nv12 0) r.2.state).map
          fun e => (e.1, e.2.frees)) = some (none, [1]) := by decide +kernel
  obtain ⟨⟨log, w⟩, hr, hw⟩ := Option.bind_eq_some_iff.mp hrun
  obtain ⟨⟨o, s'⟩, he, ho⟩ := Option.map_eq_some_iff.mp hw
  obtain ⟨rfl, hf⟩ := Prod.mk.inj ho
  exact ⟨log, w, s', hr, he, hf, create_with_flags_atomic (by decide +kernel) hr he⟩

end Failure

end Tbm.Bufmgr
