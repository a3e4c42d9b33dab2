import Tbm.Bufmgr.Moves

/-! Every operation that returns is a sequence of moves. -/
namespace Tbm.Bufmgr

open Prog

variable {A : Allowed} {backend : Backend} {x : Answers} {s s' : State} {L : Ledger}

section Fields

variable (backend) (s) (b : Bo)

theorem drainLocks_eq (n : ℕ) : s.drainLocks backend b n =
    { s with
      bo := Function.update s.bo b { s.bo b with lockCnt := (s.bo b).lockCnt - n }
      unlocks := if backend.boUnlock then Function.update s.unlocks b (s.unlocks b + n)
        else s.unlocks } := by
  induction n generalizing s with
  | zero => simp [State.drainLocks]
  | succ n ih =>
    simp only [State.drainLocks]
    rw [ih]
    by_cases hu : backend.boUnlock
    · simp only [State.setLockCnt, State.setBo, State.boUnlock, hu, ↓reduceIte,
        Function.update_self, Function.update_idem, Int.natCast_add, Int.cast_ofNat_Int,
        State.mk.injEq, and_self, and_true, true_and]
      constructor
      · congr 2
        omega
      · congr 1
        omega
    · simp only [State.setLockCnt, State.setBo, State.boUnlock, hu, Bool.false_eq_true, ↓reduceIte,
        Function.update_self, Function.update_idem, Int.natCast_add, Int.cast_ofNat_Int,
        State.mk.injEq, and_self, and_true, true_and]
      congr 2
      omega

/-- Only the freed buffer object and the lists change. -/
theorem boFree_eq : ∃ bo unlocks, (∀ c, c ≠ b → bo c = s.bo c) ∧ s.boFree backend b =
    { s with
      boList := s.boList.erase b
      boCnt := s.boCnt - 1
      frees := s.frees ++ [b]
      bo := bo
      unlocks := unlocks } := by
  unfold State.boFree
  rw [drainLocks_eq]
  refine ⟨_, _, ?_, rfl⟩
  intro c hc
  simp [State.setPriv, State.setBo, hc]

end Fields

section Objects

variable {b : Bo}

theorem boIsValid_eq_some {s : State} {b : Option Bo} {c : Bo} (h : s.boIsValid b = some c) :
    b = some c ∧ c ∈ s.boList := by
  obtain ⟨hb, hc⟩ := Option.filter_eq_some_iff.mp h
  simp only [Bool.and_eq_true, decide_eq_true_eq] at hc
  exact ⟨hb, hc.2⟩

theorem Life.boIsValid (hl : Life s L) (b : Bo) :
    s.boIsValid (some b) = if b ∈ s.boList then some b else none := by
  by_cases hb : b ∈ s.boList
  · have hg : s.gBufMgr ≠ none := fun hg => by simp [hl.bos hg] at hb
    simp [State.boIsValid, hb, Option.isSome_iff_ne_none, hg]
  · simp [State.boIsValid, hb]

theorem boUnref_moves (hb : b ∈ s.boList) (hL : A.stray ∨ 0 < L.bos b) :
    Moves A s L (s.boUnref backend b) (L.lose b) := by
  unfold State.boUnref
  by_cases h0 : (s.bo b).refCnt ≤ 0
  · rw [if_pos h0]
    exact (Move.forget (.inr h0) hL).moves
  rw [if_neg h0]
  by_cases h1 : (s.bo b).refCnt = 1
  · have hr : ((s.setRefCnt b ((s.bo b).refCnt - 1)).bo b).refCnt = 0 := by
      simp [State.setRefCnt, State.setBo, h1]
    simp only [hr, if_true]
    obtain ⟨bo, unlocks, hbo, he⟩ :=
      boFree_eq backend (s.setRefCnt b ((s.bo b).refCnt - 1)) b
    rw [he]
    apply Move.moves
    apply Move.free hb h1 hL
    intro c hc
    rw [hbo c hc]
    simp [State.setRefCnt, State.setBo, hc]
  · have hr : ((s.setRefCnt b ((s.bo b).refCnt - 1)).bo b).refCnt ≠ 0 := by
      simp only [State.setRefCnt, State.setBo, Function.update_self]
      omega
    simp only [hr, if_false]
    exact (Move.unref hb (by omega) hL).moves

theorem tbmBoUnref_moves (hl : Life s L) (hL : A.stray ∨ 0 < L.bos b) {r : Unit}
    (he : exec x (tbmBoUnref backend (some b)) s = some (r, s')) : Moves A s L s' (L.lose b) := by
  simp only [tbmBoUnref, exec_locked, exec_modify, Option.some.injEq, Prod.mk.injEq] at he
  obtain ⟨-, rfl⟩ := he
  rw [hl.boIsValid]
  by_cases hb : b ∈ s.boList
  · simp only [hb, if_true]
    exact boUnref_moves hb hL
  · simp only [hb, if_false]
    exact (Move.forget (.inl hb) hL).moves

/-- The call returns a reference on a live buffer object, or nothing. -/
def Gets (A : Allowed) (s : State) (L : Ledger) (s' : State) : Option Bo → Prop
  | some b => Moves A s L s' (L.gain b) ∧ b ∈ s'.boList
  | none => Moves A s L s' L

theorem tbmBoRef_gets (hl : Life s L) {r : Option Bo}
    (he : exec x (tbmBoRef (some b)) s = some (r, s')) :
    Gets A s L s' r ∧ (r = none ∨ r = some b) ∧ (b ∈ s.boList → r = some b) := by
  simp only [tbmBoRef, exec_locked, exec_access, hl.boIsValid, Option.some.injEq] at he
  by_cases hb : b ∈ s.boList
  · simp only [hb, if_true, Prod.mk.injEq] at he
    obtain ⟨rfl, rfl⟩ := he
    exact ⟨⟨(Move.ref hb).moves, hb⟩, .inr rfl, fun _ => rfl⟩
  · simp only [hb, if_false, Prod.mk.injEq] at he
    obtain ⟨rfl, rfl⟩ := he
    exact ⟨.refl, .inl rfl, fun h => absurd h hb⟩

theorem tbmBoSetSurface_moves {h : Option Surface} {b : Option Bo} {r : Unit}
    (he : exec x (tbmBoSetSurface b h) s = some (r, s')) :
    Moves A s L s' L ∧ s'.boList = s.boList := by
  simp only [tbmBoSetSurface, exec_locked, exec_modify, Option.some.injEq, Prod.mk.injEq] at he
  obtain ⟨-, rfl⟩ := he
  split
  · exact ⟨Move.setBoSurface.moves, rfl⟩
  · exact ⟨.refl, rfl⟩

theorem tbmBufmgrDebugShow_exec {y : Answers} {m : Option Mgr} {r : Unit}
    (he : exec x (tbmBufmgrDebugShow y m) s = some (r, s')) : s' = s := by
  simp only [tbmBufmgrDebugShow, exec_locked, exec_access] at he
  obtain ⟨lines, -, he⟩ := Option.map_eq_some_iff.mp he
  exact (congrArg Prod.snd he).symm

/-- The check of the count only writes its static variable. -/
theorem tbmUtilCheckBoCnt_exec {y : Answers} {m : Option Mgr} {r : Unit}
    (he : exec x (tbmUtilCheckBoCnt y m) s = some (r, s')) :
    ∃ n, s' = { s with lastChkBoCnt := n } := by
  simp only [tbmUtilCheckBoCnt, exec_bind, exec_read, Option.bind_some] at he
  split_ifs at he with hc
  · simp only [exec_bind] at he
    obtain ⟨⟨u, t⟩, ht, hset⟩ := Option.bind_eq_some_iff.mp he
    obtain rfl : t = s := tbmBufmgrDebugShow_exec ht
    simp only [exec_modify, Option.some.injEq, Prod.mk.injEq] at hset
    obtain ⟨-, rfl⟩ := hset
    exact ⟨_, rfl⟩
  · simp only [exec_pure, Option.some.injEq, Prod.mk.injEq] at he
    obtain ⟨-, rfl⟩ := he
    exact ⟨_, rfl⟩

/-- An allocation links one more buffer object, or it only checks the count. -/
theorem tbmBoAlloc_exec {m : Option Mgr} {size flags : ℤ} {i : ℕ} {r : Option Bo}
    (he : exec x (tbmBoAlloc m size flags i) s = some (r, s')) :
    ∃ n, match r with
      | some b => b = s.bos ∧ 0 < size ∧ m.isSome ∧ m = s.gBufMgr ∧
        ∃ p, (x.bo i).priv = some p ∧ s' = { s with lastChkBoCnt := n }.boAlloc size flags p
      | none => s' = { s with lastChkBoCnt := n } := by
  simp only [tbmBoAlloc, exec_locked, exec_bind, exec_read, Option.bind_some] at he
  split_ifs at he with hg
  · simp only [exec_bind, exec_answer, Option.bind_some] at he
    split_ifs at he with hc
    · simp only [exec_bind] at he
      obtain ⟨⟨u, t⟩, ht, he⟩ := Option.bind_eq_some_iff.mp he
      obtain ⟨n, rfl⟩ := tbmUtilCheckBoCnt_exec ht
      refine ⟨n, ?_⟩
      cases hp : (x.bo i).priv with
      | some p =>
        simp only [hp, exec_access, Option.some.injEq, Prod.mk.injEq] at he
        obtain ⟨rfl, rfl⟩ := he
        exact ⟨rfl, hg.2.2, hg.1, hg.2.1, p, rfl, rfl⟩
      | none =>
        simp only [hp, exec_pure, Option.some.injEq, Prod.mk.injEq] at he
        obtain ⟨rfl, rfl⟩ := he
        rfl
    · simp only [exec_pure, Option.some.injEq, Prod.mk.injEq] at he
      obtain ⟨rfl, rfl⟩ := he
      exact ⟨s.lastChkBoCnt, rfl⟩
  · simp only [exec_pure, Option.some.injEq, Prod.mk.injEq] at he
    obtain ⟨rfl, rfl⟩ := he
    exact ⟨s.lastChkBoCnt, rfl⟩

theorem tbmBoAlloc_gets {m : Option Mgr} {size flags : ℤ} {i : ℕ} {r : Option Bo}
    (he : exec x (tbmBoAlloc m size flags i) s = some (r, s')) : Gets A s L s' r := by
  obtain ⟨n, hn⟩ := tbmBoAlloc_exec he
  have hchk : Moves A s L { s with lastChkBoCnt := n } L := Move.checked.moves
  cases r with
  | some b =>
    obtain ⟨rfl, -, hsome, hg, p, -, rfl⟩ := hn
    rw [hg] at hsome
    exact ⟨hchk.tail (.boAlloc hsome), List.mem_cons_self⟩
  | none =>
    rw [hn]
    exact hchk

/-- The pointer the backend gives to an import; `none` if it is not called or fails. -/
def importedPriv (x : Answers) (s : State) (provided : Bool) (m : Option Mgr) : Option Priv :=
  if (m.isSome ∧ m = s.gBufMgr) ∧ provided ∧ (x.bo 0).calloc then (x.bo 0).priv else none

theorem boImport_exec {provided : Bool} {m : Option Mgr} {r : Option Bo}
    (he : exec x (boImport backend provided m) s = some (r, s')) :
    ∃ n, match importedPriv x s provided m with
      | some p => s.gBufMgr.isSome ∧ (r, s') = State.boImport { s with lastChkBoCnt := n }
        (if backend.boGetFlags then x.boFlags else 0) p
      | none => r = none ∧ s' = { s with lastChkBoCnt := n } := by
  simp only [boImport, exec_locked, exec_bind, exec_read, Option.bind_some] at he
  by_cases hg : (m.isSome ∧ m = s.gBufMgr) ∧ provided
  · rw [if_pos hg] at he
    simp only [exec_bind, exec_answer, Option.bind_some] at he
    obtain ⟨⟨u, t⟩, ht, he⟩ := Option.bind_eq_some_iff.mp he
    obtain ⟨n, rfl⟩ := tbmUtilCheckBoCnt_exec ht
    have hsome : s.gBufMgr.isSome := hg.1.2 ▸ hg.1.1
    have hp : importedPriv x s provided m = if (x.bo 0).calloc then (x.bo 0).priv else none := by
      simp [importedPriv, hg.1.1, hg.2, ← hg.1.2]
    refine ⟨n, ?_⟩
    rw [hp]
    cases hx : (if (x.bo 0).calloc then (x.bo 0).priv else none) with
    | some p =>
      simp only [hx, exec_access, Option.some.injEq] at he
      exact ⟨hsome, he.symm⟩
    | none =>
      simp only [hx, exec_pure, Option.some.injEq, Prod.mk.injEq] at he
      exact ⟨he.1.symm, he.2.symm⟩
  · rw [if_neg hg] at he
    have hp : importedPriv x s provided m = none := by
      unfold importedPriv
      exact if_neg fun h => hg ⟨h.1, h.2.1⟩
    simp only [exec_pure, Option.some.injEq, Prod.mk.injEq] at he
    refine ⟨s.lastChkBoCnt, ?_⟩
    rw [hp]
    exact ⟨he.1.symm, he.2.symm⟩

theorem boImport_gets {provided : Bool} {m : Option Mgr} {r : Option Bo}
    (he : exec x (boImport backend provided m) s = some (r, s')) : Gets A s L s' r := by
  obtain ⟨n, hn⟩ := boImport_exec he
  have hchk : Moves A s L { s with lastChkBoCnt := n } L := Move.checked.moves
  split at hn
  · obtain ⟨hsome, heq⟩ := hn
    unfold State.boImport at heq
    split at heq
    next b hb =>
      obtain ⟨rfl, rfl⟩ := Prod.mk.inj heq
      have hin : b ∈ s.boList := List.mem_of_find?_eq_some hb
      have href := Move.ref (A := A) (s := { s with lastChkBoCnt := n }) (L := L) hin
      exact ⟨hchk.tail href, hin⟩
    next hb =>
      obtain ⟨rfl, rfl⟩ := Prod.mk.inj heq
      refine ⟨hchk.tail (.boImport hsome ?_), List.mem_cons_self⟩
      rintro ⟨b, hin, hp⟩
      exact List.find?_eq_none.mp hb b hin (decide_eq_true hp)
  · obtain ⟨rfl, rfl⟩ := hn
    exact hchk

theorem tbmBoSwap_moves {b c : Option Bo} {r : Bool}
    (he : exec x (tbmBoSwap b c) s = some (r, s')) : Moves A s L s' L := by
  simp only [tbmBoSwap, exec_locked, exec_bind, exec_answer, Option.bind_some, exec_access,
    Option.some.injEq] at he
  split at he
  next b' c' hb hc =>
    have hb' : b' ∈ s.boList := (boIsValid_eq_some hb).2
    have hc' : c' ∈ s.boList := (boIsValid_eq_some hc).2
    split_ifs at he with hsz
    · obtain ⟨rfl, rfl⟩ := Prod.mk.inj he
      exact (Move.swap hb' hc').moves
    · obtain ⟨rfl, rfl⟩ := Prod.mk.inj he
      exact .refl
  next =>
    obtain ⟨rfl, rfl⟩ := Prod.mk.inj he
    exact .refl

end Objects

section Manager

variable {m : Mgr}

theorem tbmBufmgrInit_exec {r : Option Mgr} (he : exec x tbmBufmgrInit s = some (r, s')) :
    s.bufmgrInit x = (r, s') := by
  simpa [tbmBufmgrInit] using he

/-- Without a manager a failed load leaves everything as it is. -/
theorem bufmgrInit_none (h : s.bufmgrInit x = (none, s')) : s' = s := by
  unfold State.bufmgrInit at h
  split at h
  · simp at h
  · split_ifs at h
    · simp at h
    · exact (Prod.mk.inj h).2.symm

theorem bufmgrInit_some (h : s.bufmgrInit x = (some m, s')) : s'.gBufMgr = some m ∧
    s'.surfaceBufmgr = s.surfaceBufmgr ∧ s'.surfQueueBufmgr = s.surfQueueBufmgr := by
  unfold State.bufmgrInit at h
  split at h
  next k hg =>
    obtain ⟨hk, rfl⟩ := Prod.mk.inj h
    exact ⟨hg.trans hk, rfl, rfl⟩
  next hg =>
    split_ifs at h
    · obtain ⟨hk, rfl⟩ := Prod.mk.inj h
      exact ⟨hk, rfl, rfl⟩
    · simp at h

/-- The loop over `bo_list` frees every buffer object on it. -/
theorem destroyBos_exec (backend : Backend) (x : Answers) {bs : List Bo} (hb : s.boList = bs)
    (hn : bs.Nodup)
    (hg : s.gBufMgr.isSome) : ∃ bo unlocks, exec x (destroyBos backend bs) s = some ((),
      { s with
        boList := []
        boCnt := s.boCnt - .ofNat bs.length
        frees := s.frees ++ bs
        bo := bo
        unlocks := unlocks }) := by
  induction bs generalizing s with
  | nil =>
    refine ⟨s.bo, s.unlocks, ?_⟩
    cases s
    simp_all [destroyBos]
  | cons b bs ih =>
    have hin : b ∈ s.boList := by simp [hb]
    have hvalid : (s.setRefCnt b 1).boIsValid (some b) = some b := by
      simp [State.boIsValid, State.setRefCnt, State.setBo, hin, hg]
    obtain ⟨bo, unlocks, -, hfree⟩ :=
      boFree_eq backend ((s.setRefCnt b 1).setRefCnt b 0) b
    have hunref : (s.setRefCnt b 1).boUnref backend b =
        ((s.setRefCnt b 1).setRefCnt b 0).boFree backend b := by
      simp [State.boUnref, State.setRefCnt, State.setBo]
    simp only [destroyBos, exec_bind, exec_modify, Option.bind_some, tbmBoUnref, exec_locked,
      hvalid]
    rw [hunref, hfree]
    have herase : s.boList.erase b = bs := by simp [hb]
    obtain ⟨bo', unlocks', hrest⟩ := ih (s := { (s.setRefCnt b 1).setRefCnt b 0 with
        boList := s.boList.erase b, boCnt := s.boCnt - 1, frees := s.frees ++ [b], bo := bo,
        unlocks := unlocks }) herase hn.of_cons hg
    refine ⟨bo', unlocks', hrest.trans ?_⟩
    have hcnt : s.boCnt - 1 - UInt32.ofNat bs.length = s.boCnt - UInt32.ofNat (bs.length + 1) := by
      rw [UInt32.ofNat_add]
      grind
    simp [State.setRefCnt, State.setBo, hcnt]

/-- One reference less, or the end of a manager without surfaces. -/
theorem tbmBufmgrDeinit_exec (backend : Backend) (x : Answers) (hg : s.gBufMgr = some m)
    (hn : s.boList.Nodup) (hs : s.refCount ≤ 1 → s.surfList = []) :
    (1 < s.refCount ∧ exec x (tbmBufmgrDeinit backend (some m)) s =
      some ((), { s with refCount := s.refCount - 1 })) ∨
    (s.refCount ≤ 1 ∧ ∃ bo unlocks, exec x (tbmBufmgrDeinit backend (some m)) s = some ((),
      { s with
        gBufMgr := none
        refCount := s.refCount - 1
        boList := []
        boCnt := s.boCnt - .ofNat s.boList.length
        frees := s.frees ++ s.boList
        bo := bo
        unlocks := unlocks })) := by
  have hd : s.deref (some m) = some () := by simp [State.deref, hg]
  have hnone : s.gBufMgr.isNone = false := by simp [hg]
  by_cases h1 : s.refCount ≤ 1
  · have h0 : s.refCount - 1 ≤ 0 := by omega
    obtain ⟨bo, unlocks, hbos⟩ := destroyBos_exec backend x
      (s := { s with refCount := s.refCount - 1 }) rfl hn (by simp [hg])
    refine .inr ⟨h1, bo, unlocks, ?_⟩
    simp only [tbmBufmgrDeinit, Option.isNone_some, Bool.false_eq_true, if_false, exec_locked,
      exec_bind, exec_read, Option.bind_some, hnone, exec_access, hd, Option.bind_eq_bind, h0,
      decide_true, if_true, hbos]
    rw [hs h1]
    simp only [destroySurfaces, exec_pure, Option.bind_some, exec_modify]
  · have h0 : ¬s.refCount - 1 ≤ 0 := by omega
    refine .inl ⟨by omega, ?_⟩
    simp only [tbmBufmgrDeinit, Option.isNone_some, Bool.false_eq_true, if_false, exec_locked,
      exec_bind, exec_read, Option.bind_some, hnone, exec_access, hd, Option.bind_eq_bind, h0,
      decide_false, exec_pure]

theorem tbmBufmgrDeinit_moves (hl : Life s L) (hm : m ∈ L.mgrs) {r : Unit}
    (he : exec x (tbmBufmgrDeinit backend (some m)) s = some (r, s')) :
    Moves A s L s' { L with mgrs := L.mgrs.erase m } := by
  have hs : s.refCount ≤ 1 → s.surfList = [] := fun h1 => hl.surfs (hl.last hm h1).2.2.1
  rcases tbmBufmgrDeinit_exec backend x (hl.mgrs m hm) hl.nodup hs with ⟨h1, h⟩ | ⟨h1, bo, u, h⟩
  · rw [h, Option.some.injEq, Prod.mk.injEq] at he
    obtain ⟨-, rfl⟩ := he
    exact (Move.release hm h1).moves
  · rw [h, Option.some.injEq, Prod.mk.injEq] at he
    obtain ⟨-, rfl⟩ := he
    exact (Move.teardown hm h1 (hs h1)).moves

theorem deinitSurfaceBufmgr_moves (hl : Life s L) (ho : L.owed = true) (hm : L.making = none)
    {r : Unit} (he : exec x (deinitSurfaceBufmgr (tbmBufmgrDeinit backend)) s = some (r, s')) :
    Moves A s L s' { L with owed := false } := by
  obtain ⟨hsome, hn⟩ := hl.owed.mp ho
  obtain ⟨m, hs⟩ := Option.isSome_iff_exists.mp hsome
  have hclose : Moves A s L { s with surfaceBufmgr := none }
      { L with mgrs := m :: L.mgrs, owed := false } := (Move.closeSurface hs ho hm).moves
  have hl' := hclose.life hl
  have hmem : m ∈ m :: L.mgrs := List.mem_cons_self
  have hg : s.gBufMgr = some m := hl'.mgrs m hmem
  simp only [deinitSurfaceBufmgr, exec_bind, exec_read, Option.bind_some, hs] at he
  rcases tbmBufmgrDeinit_exec backend x hg hl.nodup (fun _ => hn) with ⟨h1, h⟩ | ⟨h1, bo, u, h⟩
  · rw [h, Option.bind_some, exec_modify, Option.some.injEq, Prod.mk.injEq] at he
    obtain ⟨-, rfl⟩ := he
    have hrel := Move.release (A := A) (s := { s with surfaceBufmgr := none })
      (L := { L with mgrs := m :: L.mgrs, owed := false }) hmem h1
    rw [List.erase_cons_head] at hrel
    exact hclose.tail hrel
  · rw [h, Option.bind_some, exec_modify, Option.some.injEq, Prod.mk.injEq] at he
    obtain ⟨-, rfl⟩ := he
    have htear := @Move.teardown A { s with surfaceBufmgr := none }
      { L with mgrs := m :: L.mgrs, owed := false } m bo u hmem h1 hn
    simp only [List.erase_cons_head] at htear
    exact hclose.tail htear

theorem deinitSurfQueueBufmgr_moves (hl : Life s L) (hn : s.surfQueueList = []) {r : Unit}
    (he : exec x (deinitSurfQueueBufmgr backend) s = some (r, s')) : Moves A s L s' L := by
  simp only [deinitSurfQueueBufmgr, exec_bind, exec_read, Option.bind_some] at he
  cases hq : s.surfQueueBufmgr with
  | none =>
    simp only [hq, exec_pure, Option.some.injEq, Prod.mk.injEq] at he
    obtain ⟨-, rfl⟩ := he
    exact .refl
  | some m =>
    have hclose : Moves A s L { s with surfQueueBufmgr := none } { L with mgrs := m :: L.mgrs } :=
      (Move.closeQueue hq hn).moves
    have hl' := hclose.life hl
    have hmem : m ∈ m :: L.mgrs := List.mem_cons_self
    have hg : s.gBufMgr = some m := hl'.mgrs m hmem
    have hs : s.refCount ≤ 1 → s.surfList = [] := fun h1 => hl.surfs (hl'.last hmem h1).2.2.1
    simp only [hq, exec_bind] at he
    rcases tbmBufmgrDeinit_exec backend x hg hl.nodup hs with ⟨h1, h⟩ | ⟨h1, bo, u, h⟩
    · rw [h, Option.bind_some, exec_modify, Option.some.injEq, Prod.mk.injEq] at he
      obtain ⟨-, rfl⟩ := he
      have hrel := Move.release (A := A) (s := { s with surfQueueBufmgr := none })
        (L := { L with mgrs := m :: L.mgrs }) hmem h1
      rw [List.erase_cons_head] at hrel
      exact hclose.tail hrel
    · rw [h, Option.bind_some, exec_modify, Option.some.injEq, Prod.mk.injEq] at he
      obtain ⟨-, rfl⟩ := he
      have htear := @Move.teardown A { s with surfQueueBufmgr := none }
        { L with mgrs := m :: L.mgrs } m bo u hmem h1 (hs h1)
      simp only [List.erase_cons_head] at htear
      exact hclose.tail htear

/-- The surface code takes a reference if it has none. -/
theorem initSurfaceBufmgr_moves (hl : Life s L) {r : Bool}
    (he : exec x initSurfaceBufmgr s = some (r, s')) :
    (r = false ∧ s' = s ∧ s.surfaceBufmgr.isSome) ∨
      (r = true ∧ L.owed = false ∧ Moves A s L s' { L with owed := true }) := by
  simp only [initSurfaceBufmgr, exec_bind, exec_read, Option.bind_some] at he
  cases hs : s.surfaceBufmgr with
  | some m =>
    simp only [hs, exec_pure, Option.some.injEq, Prod.mk.injEq] at he
    obtain ⟨rfl, rfl⟩ := he
    exact .inl ⟨rfl, rfl, rfl⟩
  | none =>
    simp only [hs, exec_bind] at he
    obtain ⟨⟨k, t⟩, hi, he⟩ := Option.bind_eq_some_iff.mp he
    have hinit := tbmBufmgrInit_exec hi
    cases k with
    | none => simp [State.deref] at he
    | some m =>
      obtain ⟨hg, hsb, -⟩ := bufmgrInit_some hinit
      have hd : t.deref (some m) = some () := by simp [State.deref, hg]
      simp only [exec_access, hd, Option.bind_eq_bind, Option.bind_some, Option.some.injEq,
        Prod.mk.injEq] at he
      obtain ⟨rfl, rfl⟩ := he
      have ho : L.owed = false := by
        by_contra hne
        have := (hl.owed.mp (by simpa using hne)).1
        simp [hs] at this
      have hmove : Moves A s L t { L with mgrs := m :: L.mgrs } := (Move.init hinit).moves
      have hopen := Move.openSurface (A := A) (s := t) (L := { L with mgrs := m :: L.mgrs })
        List.mem_cons_self (hsb.trans hs)
      simp only [List.erase_cons_head] at hopen
      exact .inr ⟨rfl, ho, hmove.tail hopen⟩

theorem giveBack_moves (hl : Life s L) {initialized : Bool}
    (ho : initialized = true → L.owed = true) (hm : L.making = none) {r : Unit}
    (he : exec x (giveBack backend initialized) s = some (r, s')) :
    Moves A s L s' { L with owed := L.owed && !initialized } := by
  cases initialized with
  | false =>
    simp only [giveBack, Bool.false_eq_true, if_false, exec_pure, Option.some.injEq,
      Prod.mk.injEq] at he
    obtain ⟨-, rfl⟩ := he
    simp only [Bool.not_false, Bool.and_true]
    exact .refl
  | true =>
    have hn : s.surfList = [] := (hl.owed.mp (ho rfl)).2
    have hs : { s with surfList := [] } = s := by
      rw [← hn]
    simp only [giveBack, if_true, exec_bind, exec_modify, Option.bind_some, hs] at he
    simp only [Bool.not_true, Bool.and_false]
    exact deinitSurfaceBufmgr_moves hl (ho rfl) hm he

end Manager

section Surfaces

variable {b : Bo} {h : Surface}

/-- Dropping a reference does not touch the table of a surface. -/
theorem boUnref_setSlot (s : State) (b : Bo) (h : Surface) (i : ℕ) (v : Option Bo) :
    (s.boUnref backend b).setSlot h i v = (s.setSlot h i v).boUnref backend b := by
  unfold State.boUnref State.boFree
  simp only [drainLocks_eq]
  by_cases h0 : (s.bo b).refCnt ≤ 0
  · simp [State.setSlot, State.setSurface, h0]
  · by_cases h1 : (s.bo b).refCnt - 1 = 0
    · simp [State.setSlot, State.setSurface, State.setRefCnt, State.setPriv, State.setBo, h0, h1]
    · simp [State.setSlot, State.setSurface, State.setRefCnt, State.setBo, h0, h1]

/-- A slot that can be used holds a live buffer object. -/
theorem slotBo_eq_some {i : ℕ} :
    s.slotBo h i = some b ↔ i < 4 ∧ (s.surface h).bos i = some b ∧ b ∈ s.boList := by
  simp only [State.slotBo, SurfaceData.slot, Option.bind_eq_bind]
  by_cases hi : i < 4
  · rw [if_pos hi, Option.bind_some]
    constructor
    · intro hb
      obtain ⟨c, hc, hb⟩ := Option.bind_eq_some_iff.mp hb
      split_ifs at hb with hin
      · obtain rfl := Option.some.inj hb
        exact ⟨hi, hc, hin⟩
    · rintro ⟨-, hc, hin⟩
      rw [hc, Option.bind_some, if_pos hin]
  · simp [hi]

/-- The state after one turn of the loop over the slots. -/
def destroyedSlot (backend : Backend) (s : State) (h : Surface) (i : ℕ) (b : Bo) : State :=
  ((s.setBoSurface b none).boUnref backend b).setSlot h i none

theorem destroySlots_succ (hl : Life s L) {n i : ℕ} (hb : s.slotBo h i = some b) :
    exec x (destroySlots backend h (n + 1) i) s =
      exec x (destroySlots backend h n (i + 1)) (destroyedSlot backend s h i b) := by
  have hin : b ∈ (s.setBoSurface b none).boList := (slotBo_eq_some.mp hb).2.2
  have hl' : Life (s.setBoSurface b none) L := { hl with }
  have hv := hl'.boIsValid b
  rw [if_pos hin] at hv
  simp only [destroySlots, exec_bind, exec_access, Option.bind_eq_bind, hb, Option.bind_some,
    tbmBoUnref, exec_locked, exec_modify, hv]
  rfl

theorem destroyedSlot_moves {n i : ℕ} (hd : L.dying = some (h, i, n)) (hi : i < n)
    (hb : s.slotBo h i = some b) :
    Moves A s L (destroyedSlot backend s h i b) { L with dying := some (h, i + 1, n) } := by
  obtain ⟨-, hbos, hin⟩ := slotBo_eq_some.mp hb
  -- the code empties the slot after the unref, the moves before it
  have htake := Move.takeSlot (A := A) (s := s.setBoSurface b none) hd hi hbos
  have h1 : Moves A s L ((s.setBoSurface b none).setSlot h i none)
      { L.gain b with dying := some (h, i + 1, n) } := Move.setBoSurface.moves.tail htake
  have h2 : Moves A _ _ (((s.setBoSurface b none).setSlot h i none).boUnref backend b) _ :=
    boUnref_moves (L := { L.gain b with dying := some (h, i + 1, n) }) hin
      (.inr (by simp [Ledger.gain]))
  have hlose : { L.gain b with dying := some (h, i + 1, n) }.lose b =
      { L with dying := some (h, i + 1, n) } := by
    simp only [Ledger.gain, Ledger.lose, Function.update_self, Nat.add_sub_cancel,
      Function.update_idem, Function.update_eq_self]
  rw [hlose, ← boUnref_setSlot] at h2
  exact h1.trans h2

/-- The loop over the slots takes each reference out of its slot and drops it. -/
theorem destroySlots_moves {n i : ℕ} (hl : Life s L) (hd : L.dying = some (h, i, i + n)) {r : Unit}
    (he : exec x (destroySlots backend h n i) s = some (r, s')) :
    Moves A s L s' { L with dying := some (h, i + n, i + n) } := by
  induction n generalizing i s L with
  | zero =>
    simp only [destroySlots, exec_pure, Option.some.injEq, Prod.mk.injEq] at he
    obtain ⟨-, rfl⟩ := he
    rw [Nat.add_zero] at hd ⊢
    rw [← hd]
    exact .refl
  | succ n ih =>
    cases hb : s.slotBo h i with
    | none => simp [destroySlots, hb] at he
    | some b =>
      rw [destroySlots_succ hl hb] at he
      have h1 : Moves A s L (destroyedSlot backend s h i b)
          { L with dying := some (h, i + 1, i + (n + 1)) } :=
        destroyedSlot_moves hd (by omega) hb
      have hadd : i + (n + 1) = i + 1 + n := by omega
      rw [hadd] at h1 ⊢
      exact h1.trans (ih (h1.life hl) rfl he)

theorem Life.surfaceIsValid (hl : Life s L) (k : Option Surface) :
    ∃ r, s.surfaceIsValid k = some r ∧ ∀ h, r = some h → k = some h ∧ h ∈ s.surfList := by
  unfold State.surfaceIsValid
  by_cases hc : s.surfaceBufmgr.isNone ∨ k.isNone
  · exact ⟨none, by rw [if_pos hc], by simp⟩
  · have hsb : s.surfaceBufmgr ≠ none := fun hn => hc (.inl (by simp [hn]))
    have hg : s.surfaceBufmgr = s.gBufMgr := hl.surface.resolve_left hsb
    have hd : s.deref s.surfaceBufmgr = some () := by
      simp [State.deref, ← hg, Option.isSome_iff_ne_none, hsb]
    refine ⟨k.filter fun h => decide (h ∈ s.surfList), ?_, ?_⟩
    · simp only [hc, if_false, hd, Option.bind_eq_bind, Option.bind_some]
    intro h hh
    obtain ⟨hk, hin⟩ := Option.filter_eq_some_iff.mp hh
    exact ⟨hk, by simpa using hin⟩

theorem surfaceInternalDestroy_moves (hl : Life s L) (hh : h ∈ s.surfList) (hm : L.making = none)
    (hd : L.dying = none) {r : Unit}
    (he : exec x (surfaceInternalDestroy backend (tbmBufmgrDeinit backend) h) s = some (r, s')) :
    Moves A s L s' { L with owed := false } := by
  simp only [surfaceInternalDestroy, exec_bind, exec_read, Option.bind_some, exec_access] at he
  obtain ⟨⟨u, t⟩, hslots, he⟩ := Option.bind_eq_some_iff.mp he
  obtain ⟨⟨last, t'⟩, hdel, he⟩ := Option.bind_eq_some_iff.mp he
  have h1 : Moves A s L s { L with dying := some (h, 0, (s.surface h).numBos.toNat) } :=
    (Move.condemn hh hd).moves
  have h2 := destroySlots_moves (A := A) (h1.life hl) (by simp) hslots
  rw [Nat.zero_add] at h2
  have h12 := h1.trans h2
  have hl2 := h12.life hl
  obtain ⟨w, -, hw⟩ := Option.bind_eq_some_iff.mp hdel
  obtain ⟨rfl, rfl⟩ : (t.surfList.erase h).isEmpty = last ∧
      { t with surfList := t.surfList.erase h } = t' := by simpa using hw
  have h3 := h12.tail (Move.unlinkSurface (s := t) rfl)
  have hl3 : Life { t with surfList := t.surfList.erase h }
      { L with dying := none, owed := (t.surfList.erase h).isEmpty } := h3.life hl
  cases hlast : (t.surfList.erase h).isEmpty with
  | true =>
    rw [hlast] at hl3
    simp only [hlast, if_true] at he h3
    have h4 := deinitSurfaceBufmgr_moves (A := A) hl3 rfl hm he
    have hfin := h3.trans h4
    rw [← hd] at hfin
    exact hfin
  | false =>
    simp only [hlast, Bool.false_eq_true, if_false, exec_pure, Option.some.injEq,
      Prod.mk.injEq] at he h3
    obtain ⟨-, rfl⟩ := he
    rw [← hd] at h3
    exact h3

/-- The call keeps the ledger, and the surface code holds the manager in vain only if it did. -/
def Keeps (A : Allowed) (s : State) (L : Ledger) (s' : State) : Prop :=
  ∃ o, (o = true → L.owed = true) ∧ Moves A s L s' { L with owed := o }

theorem Keeps.of_moves (h : Moves A s L s' L) : Keeps A s L s' := ⟨L.owed, id, h⟩

theorem dropSurface_keeps (hl : Life s L) (hm : L.making = none) (hd : L.dying = none)
    {k : Option Surface} {r : Unit}
    (he : exec x (dropSurface backend (tbmBufmgrDeinit backend) k) s = some (r, s')) :
    Keeps A s L s' := by
  obtain ⟨v, hv, hmem⟩ := hl.surfaceIsValid k
  simp only [dropSurface, exec_locked, exec_bind, exec_access, hv, Option.map_some,
    Option.bind_some] at he
  cases v with
  | none =>
    simp only [exec_pure, Option.some.injEq, Prod.mk.injEq] at he
    obtain ⟨-, rfl⟩ := he
    exact .of_moves .refl
  | some h =>
    have hh := (hmem h rfl).2
    simp only [exec_bind, exec_read, Option.bind_some, exec_modify] at he
    have h1 : Moves A s L (s.setSurfaceRefcnt h ((s.surface h).refcnt - 1)) L :=
      Move.setSurfaceRefcnt.moves
    split_ifs at he with h0
    · have h2 := surfaceInternalDestroy_moves (A := A) (h1.life hl) hh hm hd he
      exact ⟨false, by simp, h1.trans h2⟩
    · simp only [exec_pure, Option.some.injEq, Prod.mk.injEq] at he
      obtain ⟨-, rfl⟩ := he
      exact .of_moves h1

theorem tbmSurfaceInternalRef_moves (hl : Life s L) {k : Option Surface} {r : Unit}
    (he : exec x (tbmSurfaceInternalRef k) s = some (r, s')) : Moves A s L s' L := by
  obtain ⟨v, hv, -⟩ := hl.surfaceIsValid k
  simp only [tbmSurfaceInternalRef, exec_locked, exec_access, hv, Option.bind_eq_bind,
    Option.bind_some] at he
  cases v with
  | none =>
    simp only [Option.some.injEq, Prod.mk.injEq] at he
    obtain ⟨-, rfl⟩ := he
    exact .refl
  | some h =>
    simp only [Option.some.injEq, Prod.mk.injEq] at he
    obtain ⟨-, rfl⟩ := he
    exact Move.setSurfaceRefcnt.moves

/-- The undo loop drops the references of the slots. -/
theorem unrefSlots_moves {l : List (Option Bo)} (hl : Life s L) (hm : L.making = some (h, l))
    {r : Unit} (he : exec x (unrefSlots backend l) s = some (r, s')) :
    Moves A s L s' { L with making := some (h, []) } := by
  induction l generalizing s L with
  | nil =>
    simp only [unrefSlots, exec_pure, Option.some.injEq, Prod.mk.injEq] at he
    obtain ⟨-, rfl⟩ := he
    rw [← hm]
    exact .refl
  | cons a l ih =>
    cases a with
    | none =>
      have h1 : Moves A s L s { L with making := some (h, l) } := (Move.skip hm).moves
      exact h1.trans (ih (h1.life hl) rfl he)
    | some b =>
      simp only [unrefSlots, exec_bind] at he
      obtain ⟨⟨u, t⟩, hu, he⟩ := Option.bind_eq_some_iff.mp he
      have h1 : Moves A s L s { L.gain b with making := some (h, l) } := (Move.unfill hm).moves
      have h2 := tbmBoUnref_moves (A := A) (h1.life hl) (.inr (by simp [Ledger.gain])) hu
      have hlose : { L.gain b with making := some (h, l) }.lose b =
          { L with making := some (h, l) } := by
        simp [Ledger.gain, Ledger.lose]
      rw [hlose] at h2
      have h12 := h1.trans h2
      exact h12.trans (ih (h12.life hl) rfl he)

/-- Slot `i` gets a new buffer object, or only the count is checked. -/
theorem allocSlot_exec {m : Mgr} {size flags : ℤ} {i : ℕ} {r : Option Bo}
    (he : exec x (allocSlot backend m size flags i) s = some (r, s')) :
    match r with
      | some b => b = s.bos ∧ s.gBufMgr = some m ∧ (backend.surfaceBoAlloc = false → 0 < size) ∧
        (backend.surfaceBoAlloc = true → (x.bo i).calloc = true) ∧
        ∃ p, (x.bo i).priv = some p ∧ ∃ n, s' = { s with lastChkBoCnt := n }.boAlloc size flags p ∨
          backend.surfaceBoAlloc = true ∧ s' = s.surfaceBoAlloc flags p
      | none => ∃ n, s' = { s with lastChkBoCnt := n } := by
  unfold allocSlot at he
  split_ifs at he with hb
  · simp only [exec_bind, exec_answer, Option.bind_some] at he
    split_ifs at he with hc
    · simp only [exec_locked] at he
      cases hp : (x.bo i).priv with
      | some p =>
        simp only [hp, exec_access, Option.bind_eq_bind] at he
        obtain ⟨w, hd, he⟩ := Option.bind_eq_some_iff.mp he
        simp only [Option.some.injEq, Prod.mk.injEq] at he
        obtain ⟨rfl, rfl⟩ := he
        have hg : s.gBufMgr = some m := by
          by_contra hne
          simp [State.deref, Ne.symm hne] at hd
        exact ⟨rfl, hg, by simp [hb], fun _ => hc, p, rfl, s.lastChkBoCnt, .inr ⟨hb, rfl⟩⟩
      | none =>
        simp only [hp, exec_pure, Option.some.injEq, Prod.mk.injEq] at he
        obtain ⟨rfl, rfl⟩ := he
        exact ⟨s.lastChkBoCnt, rfl⟩
    · simp only [exec_pure, Option.some.injEq, Prod.mk.injEq] at he
      obtain ⟨rfl, rfl⟩ := he
      exact ⟨s.lastChkBoCnt, rfl⟩
  · obtain ⟨n, hn⟩ := tbmBoAlloc_exec he
    cases r with
    | some b =>
      obtain ⟨rfl, hsize, -, hg, p, hp, rfl⟩ := hn
      exact ⟨rfl, hg.symm, fun _ => hsize, by simp [hb], p, hp, n, .inl rfl⟩
    | none => exact ⟨n, hn⟩

theorem allocSlot_gets {m : Mgr} {size flags : ℤ} {i : ℕ} {r : Option Bo}
    (ha : backend.surfaceBoAlloc = true → (x.bo i).calloc = true → (x.bo i).priv.isSome →
      A.uncounted)
    (he : exec x (allocSlot backend m size flags i) s = some (r, s')) : Gets A s L s' r := by
  have hslot := allocSlot_exec he
  have hchk (n : UInt32) : Moves A s L { s with lastChkBoCnt := n } L := Move.checked.moves
  cases r with
  | some b =>
    obtain ⟨rfl, hg, -, hc, p, hp, n, hs⟩ := hslot
    have hsome : s.gBufMgr.isSome := by simp [hg]
    rcases hs with rfl | ⟨hb, rfl⟩
    · exact ⟨(hchk n).tail (.boAlloc hsome), List.mem_cons_self⟩
    · exact ⟨(Move.surfaceBoAlloc hsome (ha hb (hc hb) (by simp [hp]))).moves, List.mem_cons_self⟩
  | none =>
    obtain ⟨n, rfl⟩ := hslot
    exact hchk n

theorem Gets.fill {t : State} {l : List (Option Bo)} (hg : Gets A s L t (some b))
    (hm : L.making = some (h, l)) {r : Unit}
    (he : exec x (tbmBoSetSurface (some b) (some h)) t = some (r, s')) :
    Moves A s L s' { L with making := some (h, l ++ [some b]) } := by
  obtain ⟨h1, hin⟩ := hg
  obtain ⟨h2, hlist⟩ := tbmBoSetSurface_moves (A := A) (L := L.gain b) he
  have hfill := Move.fill (A := A) (s := s') (L := L.gain b) hm (hlist ▸ hin)
    (by simp [Ledger.gain])
  have hlose : { (L.gain b).lose b with making := some (h, l ++ [some b]) } =
      { L with making := some (h, l ++ [some b]) } := by rw [Ledger.lose_gain]
  rw [hlose] at hfill
  exact (h1.trans h2).tail hfill

/-- Only the first answer of `surface_bo_alloc` can let one succeed. -/
theorem allocSlots_moves {m : Mgr} {flags : ℤ} {ps : List PlaneAnswer} {n : ℕ}
    {l : List (Option Bo)} (hl : Life s L) (hm : L.making = some (h, l))
    (ha : backend.surfaceBoAlloc = true → l ≠ [] ∨ (x.bo 0).calloc = true ∧ (x.bo 0).priv.isSome →
      A.uncounted) (hn : none ∉ l) (h4 : l.length ≤ 4) {r : Bool × List (Option Bo)}
    (he : exec x (allocSlots backend m flags ps h n l) s = some (r, s')) :
    Moves A s L s' { L with making := some (h, r.2) } ∧ none ∉ r.2 ∧ r.2.length ≤ 4 ∧
      (r.1 = true → r.2.length = l.length + n) := by
  induction n generalizing s L l with
  | zero =>
    simp only [allocSlots, exec_pure, Option.some.injEq, Prod.mk.injEq] at he
    obtain ⟨rfl, rfl⟩ := he
    refine ⟨?_, hn, h4, by simp⟩
    rw [← hm]
    exact .refl
  | succ n ih =>
    simp only [allocSlots, exec_bind] at he
    obtain ⟨⟨o, t⟩, ho, he⟩ := Option.bind_eq_some_iff.mp he
    have hg : Gets A s L t o := by
      apply allocSlot_gets ?_ ho
      intro hb hc hp
      apply ha hb
      by_cases hnil : l = []
      · rw [hnil] at hc hp
        exact .inr ⟨hc, hp⟩
      · exact .inl hnil
    cases o with
    | none =>
      simp only at he
      split_ifs at he
      · simp only [exec_pure, Option.some.injEq, Prod.mk.injEq] at he
        obtain ⟨rfl, rfl⟩ := he
        refine ⟨?_, hn, h4, by simp⟩
        rw [← hm]
        exact hg
      · simp at he
    | some b =>
      have ho' : backend.surfaceBoAlloc = true → A.uncounted := by
        intro hb
        apply ha hb
        by_cases hnil : l = []
        · right
          obtain ⟨-, -, -, hc, p, hp, -⟩ := allocSlot_exec ho
          rw [hnil] at hc hp
          exact ⟨hc hb, Option.isSome_iff_exists.mpr ⟨p, hp⟩⟩
        · exact .inl hnil
      simp only at he
      split_ifs at he with hlen
      · simp only [exec_bind] at he
        obtain ⟨⟨u, t'⟩, hset, he⟩ := Option.bind_eq_some_iff.mp he
        have h1 := hg.fill hm hset
        have hn' : none ∉ l ++ [some b] := by simp [hn]
        have h4' : (l ++ [some b]).length ≤ 4 := by
          rw [List.length_append, List.length_singleton]
          omega
        obtain ⟨h2, h2', h2'', hlen'⟩ := ih (h1.life hl) rfl (fun hb _ => ho' hb) hn' h4' he
        refine ⟨h1.trans h2, h2', h2'', fun hr => ?_⟩
        rw [hlen' hr, List.length_append, List.length_singleton]
        omega
      · simp at he

/-- Where every handle is live, no slot stays empty. -/
theorem refSlots_moves {bos : ℕ → Option Bo} {n : ℕ} {l : List (Option Bo)} (hl : Life s L)
    (hm : L.making = some (h, l)) (h4 : l.length ≤ 4) {r : Bool × List (Option Bo)}
    (he : exec x (refSlots h bos n l) s = some (r, s')) :
    Moves A s L s' { L with making := some (h, r.2) } ∧ r.2.length ≤ 4 ∧
      (r.1 = true → r.2.length = l.length + n ∧
        (∀ j, l.length ≤ j → j < l.length + n → bos j ≠ none) ∧
        (none ∉ l → (∀ j b, l.length ≤ j → j < l.length + n → bos j = some b → b ∈ s.boList) →
          none ∉ r.2)) := by
  induction n generalizing s L l with
  | zero =>
    simp only [refSlots, exec_pure, Option.some.injEq, Prod.mk.injEq] at he
    obtain ⟨rfl, rfl⟩ := he
    refine ⟨?_, h4, fun _ => ⟨rfl, fun j h1 h2 => by omega, fun hn _ => hn⟩⟩
    rw [← hm]
    exact .refl
  | succ n ih =>
    simp only [refSlots] at he
    split_ifs at he with hlen
    · split at he
      next hnone =>
        simp only [exec_pure, Option.some.injEq, Prod.mk.injEq] at he
        obtain ⟨rfl, rfl⟩ := he
        refine ⟨?_, h4, by simp⟩
        rw [← hm]
        exact .refl
      next b hb =>
        simp only [exec_bind] at he
        obtain ⟨⟨o, t⟩, href, he⟩ := Option.bind_eq_some_iff.mp he
        obtain ⟨⟨u, t'⟩, hset, he⟩ := Option.bind_eq_some_iff.mp he
        obtain ⟨hg, hval, hlive⟩ := tbmBoRef_gets (A := A) hl href
        have hlist : t'.boList = s.boList := by
          rw [(tbmBoSetSurface_moves (A := A) (L := L) hset).2]
          simp only [tbmBoRef, exec_locked, exec_access, Option.some.injEq] at href
          split at href
          · rw [← (Prod.mk.inj href).2]
            rfl
          · rw [(Prod.mk.inj href).2]
        have h1 : Moves A s L t' { L with making := some (h, l ++ [o]) } := by
          rcases hval with rfl | rfl
          · have hset' := (tbmBoSetSurface_moves (A := A) (L := L) hset).1
            have hg' : Moves A s L t L := hg
            exact (hg'.trans hset').tail (.gap hm)
          · exact hg.fill hm hset
        have h4' : (l ++ [o]).length ≤ 4 := by
          rw [List.length_append, List.length_singleton]
          omega
        obtain ⟨h2, h2', hfull⟩ := ih (h1.life hl) rfl h4' he
        refine ⟨h1.trans h2, h2', fun hr => ?_⟩
        obtain ⟨hlen', hnull, hnone⟩ := hfull hr
        simp only [List.length_append, List.length_singleton] at hlen' hnull hnone
        refine ⟨by omega, ?_, ?_⟩
        · intro j h1 h2
          by_cases e : j = l.length
          · simp [e, hb]
          · exact hnull j (by omega) (by omega)
        · intro hn hall
          apply hnone
          · have ho : o = some b := hlive (hall l.length b (Nat.le_refl _) (by omega) hb)
            simp [hn, ho]
          · intro j c h1 h2 hj
            rw [hlist]
            exact hall j c (by omega) (by omega) hj
    · simp at he

/-- The surface is linked, or what its slots have taken is given back. -/
def Made (A : Allowed) (s : State) (L : Ledger) (s' : State) : Option Surface → Prop
  | some _ => Moves A s L s' { L with making := none, owed := false }
  | none => Moves A s L s' { L with making := none }

theorem finishSurface_made {m : Mgr} {data : List (Option Bo) → SurfaceData}
    {r : Bool × List (Option Bo)} (hl : Life s L) (hm : L.making = some (h, r.2))
    (h4 : r.2.length ≤ 4) (hd : (data r.2).bufmgr = some m ∧ (data r.2).bos = slotTable r.2)
    (hr : r.1 = true → (data r.2).numBos.toNat = r.2.length ∧ (A.gaps ∨ none ∉ r.2))
    {o : Option Surface} (he : exec x (finishSurface backend m h data r) s = some (o, s')) :
    Made A s L s' o := by
  unfold finishSurface at he
  split_ifs at he with h1
  · simp only [exec_access, Option.bind_eq_bind] at he
    obtain ⟨w, hw, he⟩ := Option.bind_eq_some_iff.mp he
    simp only [Option.some.injEq, Prod.mk.injEq] at he
    obtain ⟨rfl, rfl⟩ := he
    have hg : some m = s.gBufMgr := by
      by_contra hne
      simp [State.deref, hne] at hw
    exact (Move.linkSurface hm (hd.1.trans hg) (hr h1).1 h4 hd.2 (hr h1).2).moves
  · simp only [exec_bind] at he
    obtain ⟨⟨u, t⟩, hu, he⟩ := Option.bind_eq_some_iff.mp he
    simp only [exec_pure, Option.some.injEq, Prod.mk.injEq] at he
    obtain ⟨rfl, rfl⟩ := he
    exact (unrefSlots_moves hl hm hu).tail (.abandon rfl)

theorem initSurfaceBufmgr_boList (hl : Life s L) {r : Bool}
    (he : exec x initSurfaceBufmgr s = some (r, s')) : s'.boList = s.boList := by
  simp only [initSurfaceBufmgr, exec_bind, exec_read, Option.bind_some] at he
  split at he
  · simp only [exec_pure, Option.some.injEq, Prod.mk.injEq] at he
    rw [he.2]
  · simp only [exec_bind] at he
    obtain ⟨⟨k, t⟩, hi, he⟩ := Option.bind_eq_some_iff.mp he
    have hinit := tbmBufmgrInit_exec hi
    simp only [exec_access, Option.bind_eq_bind] at he
    obtain ⟨w, -, he⟩ := Option.bind_eq_some_iff.mp he
    simp only [Option.some.injEq, Prod.mk.injEq] at he
    obtain ⟨-, rfl⟩ := he
    show t.boList = s.boList
    unfold State.bufmgrInit at hinit
    split at hinit
    · rw [← (Prod.mk.inj hinit).2]
    next hg =>
      split_ifs at hinit
      · rw [← (Prod.mk.inj hinit).2, hl.bos hg]
      · rw [(Prod.mk.inj hinit).2]

theorem createSurface_keeps {body : Mgr → Surface → Answers → BProg (Option Surface)}
    (hl : Life s L) (hm : L.making = none)
    (hbody : ∀ {m h t K o s'}, Life t K → K.making = some (h, []) → t.boList = s.boList →
      x.calloc = true → exec x (body m h x) t = some (o, s') → Made A t K s' o)
    {o : Option Surface} (he : exec x (createSurface backend body) s = some (o, s')) :
    Keeps A s L s' := by
  simp only [createSurface, exec_locked, exec_bind] at he
  obtain ⟨⟨i, t⟩, hi, he⟩ := Option.bind_eq_some_iff.mp he
  obtain ⟨⟨r, t'⟩, hr, he⟩ := Option.bind_eq_some_iff.mp he
  have hlist := initSurfaceBufmgr_boList hl hi
  -- the ledger after the manager is taken
  obtain ⟨K, hK, h1, hsome, hio⟩ : ∃ K : Ledger, K = { L with owed := K.owed } ∧ Moves A s L t K ∧
      t.surfaceBufmgr.isSome ∧ ((i = false ∧ K.owed = L.owed) ∨
        (i = true ∧ K.owed = true ∧ L.owed = false)) := by
    rcases initSurfaceBufmgr_moves (A := A) hl hi with ⟨rfl, rfl, hs⟩ | ⟨rfl, ho, hmv⟩
    · exact ⟨L, rfl, .refl, hs, .inl ⟨rfl, rfl⟩⟩
    · exact ⟨{ L with owed := true }, rfl, hmv, ((hmv.life hl).owed.mp rfl).1,
        .inr ⟨rfl, rfl, ho⟩⟩
  have hKm : K.making = none := by rw [hK]; exact hm
  have hl1 := h1.life hl
  -- what the body does to it
  have h2 : Made A t K t' r := by
    simp only [makeSurface, exec_bind, exec_read, Option.bind_some] at hr
    obtain ⟨m, hsm⟩ := Option.isSome_iff_exists.mp hsome
    simp only [hsm, exec_bind, exec_answer, Option.bind_some] at hr
    split_ifs at hr with hc
    · simp only [exec_bind, exec_access, Option.bind_some] at hr
      have hnew : Moves A t K t.newSurface.2 { K with making := some (t.surfaces, []) } :=
        (Move.newSurface hsome hKm).moves
      have hb := hbody (hnew.life hl1) rfl hlist hc hr
      cases r with
      | none =>
        have := hnew.trans hb
        rw [← hKm] at this
        show Moves A t K t' { K with making := none }
        rw [← hKm]
        exact this
      | some k => exact hnew.trans hb
    · simp only [exec_pure, Option.some.injEq, Prod.mk.injEq] at hr
      obtain ⟨rfl, rfl⟩ := hr
      show Moves A t K t { K with making := none }
      rw [← hKm]
      exact .refl
  cases r with
  | some k =>
    simp only [exec_pure, Option.some.injEq, Prod.mk.injEq] at he
    obtain ⟨-, rfl⟩ := he
    refine ⟨false, by simp, h1.trans ?_⟩
    have h2' : Moves A t K t' { K with making := none, owed := false } := h2
    rw [hK] at h2' ⊢
    rw [← hm] at h2'
    exact h2'
  | none =>
    simp only [exec_bind] at he
    obtain ⟨⟨u, t''⟩, hg, he⟩ := Option.bind_eq_some_iff.mp he
    simp only [exec_pure, Option.some.injEq, Prod.mk.injEq] at he
    obtain ⟨-, rfl⟩ := he
    have h2' : Moves A t K t' { K with making := none } := h2
    rw [← hKm] at h2'
    have hl2 := h2'.life hl1
    have ho : i = true → K.owed = true := by
      rcases hio with ⟨rfl, -⟩ | ⟨-, ho, -⟩
      · simp
      · exact fun _ => ho
    have h3 := giveBack_moves (A := A) hl2 ho hKm hg
    refine ⟨K.owed && !i, ?_, ?_⟩
    · rcases hio with ⟨rfl, hKo⟩ | ⟨rfl, -, -⟩
      · simp [hKo]
      · simp
    · have h123 := (h1.trans h2').trans h3
      rw [hK] at h123
      exact h123

/-- The creation comes to a `surface_bo_alloc` that succeeds. -/
def SurfaceAllocates (backend : Backend) (x : Answers) (width height : ℤ) (format : Format) :
    Prop :=
  0 < width ∧ 0 < height ∧ x.calloc = true ∧
    (queryPlaneData backend x format.numPlanes.toNat).isSome ∧ backend.surfaceBoAlloc = true ∧
    (x.bo 0).calloc = true ∧ (x.bo 0).priv.isSome

theorem tbmSurfaceInternalCreateWithFlags_keeps (hl : Life s L) (hm : L.making = none)
    {width height : ℤ} {format : Format} {flags : ℤ}
    (ha : SurfaceAllocates backend x width height format → A.uncounted) {o : Option Surface}
    (he : exec x (tbmSurfaceInternalCreateWithFlags backend width height format flags) s =
      some (o, s')) : Keeps A s L s' := by
  unfold tbmSurfaceInternalCreateWithFlags at he
  split_ifs at he with hsz
  · apply createSurface_keeps hl hm ?_ he
    intro m h t K o t' hlt hK _ hc hb
    split at hb
    next =>
      simp only [exec_pure, Option.some.injEq, Prod.mk.injEq] at hb
      obtain ⟨rfl, rfl⟩ := hb
      exact (Move.abandon hK).moves
    next ps hps =>
      simp only [exec_bind] at hb
      obtain ⟨⟨r, t₁⟩, hr, hb⟩ := Option.bind_eq_some_iff.mp hb
      have ha' : backend.surfaceBoAlloc = true → ([] : List (Option Bo)) ≠ [] ∨
          (x.bo 0).calloc = true ∧ (x.bo 0).priv.isSome → A.uncounted := by
        intro hsb h0
        have h0' := h0.resolve_left (by simp)
        exact ha ⟨hsz.1, hsz.2, hc, by simp [hps], hsb, h0'.1, h0'.2⟩
      obtain ⟨h1, hn, h4, hlen⟩ := allocSlots_moves (A := A) hlt hK ha' (by simp) (by simp) hr
      have h2 := finishSurface_made (A := A) (h1.life hlt) rfl h4 ⟨rfl, rfl⟩
        (fun h => ⟨?_, .inr hn⟩) hb
      · cases o with
        | none => exact h1.trans h2
        | some k => exact h1.trans h2
      · rw [hlen h]
        simp [newSurfaceData]
  · simp only [exec_pure, Option.some.injEq, Prod.mk.injEq] at he
    obtain ⟨-, rfl⟩ := he
    exact .of_moves .refl

/-- The handles contain a NULL, or they are all live. -/
def Gapless (s : State) (bos : ℕ → Option Bo) (num : ℤ) : Prop :=
  (∃ i < num.toNat, bos i = none) ∨ ∀ i < num.toNat, ∀ b, bos i = some b → b ∈ s.boList

theorem tbmSurfaceInternalCreateWithBos_keeps (hl : Life s L) (hm : L.making = none)
    {info : Option SurfaceInfo} {bos : Option (ℕ → Option Bo)} {num : ℤ}
    (ha : A.gaps ∨ ∀ f, bos = some f → Gapless s f num) {o : Option Surface}
    (he : exec x (tbmSurfaceInternalCreateWithBos backend info bos num) s = some (o, s')) :
    Keeps A s L s' := by
  unfold tbmSurfaceInternalCreateWithBos at he
  split at he
  next f i =>
    by_cases hnum : num = 1 ∨ i.numPlanes = UInt32.ofInt num
    · rw [if_pos hnum] at he
      apply createSurface_keeps hl hm ?_ he
      intro m h t K o t' hlt hK hlist hc hb
      split_ifs at hb with hpl
      · simp only [exec_bind] at hb
        obtain ⟨⟨r, t₁⟩, hr, hb⟩ := Option.bind_eq_some_iff.mp hb
        obtain ⟨h1, h4, hfull⟩ := refSlots_moves (A := A) hlt hK (by simp) hr
        have h2 := finishSurface_made (A := A) (h1.life hlt) rfl h4 ⟨rfl, rfl⟩ (fun h => ?_) hb
        · cases o with
          | none => exact h1.trans h2
          | some k => exact h1.trans h2
        · obtain ⟨hlen, hnull, hnone⟩ := hfull h
          simp only [List.length_nil, Nat.zero_add] at hlen hnull hnone
          refine ⟨by rw [hlen]; rfl, ha.imp_right fun hgap => ?_⟩
          apply hnone (by simp)
          intro j b _ hj hjb
          rw [hlist]
          rcases hgap f rfl with ⟨k, hk, hknone⟩ | hall
          · exact absurd hknone (hnull k (Nat.zero_le k) hk)
          · exact hall j hj b hjb
      · simp at hb
    · rw [if_neg hnum] at he
      simp only [exec_pure, Option.some.injEq, Prod.mk.injEq] at he
      obtain ⟨-, rfl⟩ := he
      exact .of_moves .refl
  next =>
    simp only [exec_pure, Option.some.injEq, Prod.mk.injEq] at he
    obtain ⟨-, rfl⟩ := he
    exact .of_moves .refl

/-- A query that succeeds keeps the manager it has taken. -/
theorem tbmSurfaceInternalQuerySupportedFormats_moves (hl : Life s L) (hm : L.making = none)
    {r : Bool} (he : exec x (tbmSurfaceInternalQuerySupportedFormats backend) s = some (r, s')) :
    ∃ o, (o = true → L.owed = true ∨
        backend.surfaceSupportedFormat = true ∧ x.formats = true ∧ s.surfList = []) ∧
      Moves A s L s' { L with owed := o } := by
  simp only [tbmSurfaceInternalQuerySupportedFormats, exec_locked, exec_bind, exec_answer,
    Option.bind_some, exec_access, Option.bind_eq_bind] at he
  obtain ⟨⟨i, t⟩, hi, he₁⟩ := Option.bind_eq_some_iff.mp he
  obtain ⟨⟨u, t'⟩, hd, he₂⟩ := Option.bind_eq_some_iff.mp he₁
  obtain ⟨w, -, hw⟩ := Option.bind_eq_some_iff.mp hd
  obtain rfl : t = t' := by simpa using hw
  clear he he₁ hd
  rcases initSurfaceBufmgr_moves (A := A) hl hi with ⟨rfl, rfl, hs⟩ | ⟨rfl, ho, h1⟩
  · split_ifs at he₂ with hf
    · simp only [exec_pure, Option.some.injEq, Prod.mk.injEq] at he₂
      obtain ⟨-, rfl⟩ := he₂
      exact ⟨L.owed, .inl, .refl⟩
    · simp only [exec_bind, giveBack, Bool.false_eq_true, if_false, exec_pure, Option.bind_some,
        Option.some.injEq, Prod.mk.injEq] at he₂
      obtain ⟨-, rfl⟩ := he₂
      exact ⟨L.owed, .inl, .refl⟩
  · split_ifs at he₂ with hf
    · simp only [exec_pure, Option.some.injEq, Prod.mk.injEq] at he₂
      obtain ⟨-, rfl⟩ := he₂
      refine ⟨true, fun _ => .inr ⟨hf.1, hf.2, hl.surfs ?_⟩, h1⟩
      by_contra hne
      obtain ⟨k, hk⟩ := Option.ne_none_iff_exists'.mp hne
      simp [initSurfaceBufmgr, hk] at hi
    · simp only [exec_bind] at he₂
      obtain ⟨⟨v, t₁⟩, hg, he₃⟩ := Option.bind_eq_some_iff.mp he₂
      simp only [exec_pure, Option.some.injEq, Prod.mk.injEq] at he₃
      obtain ⟨-, rfl⟩ := he₃
      have h2 := giveBack_moves (A := A) (h1.life hl) (fun _ => rfl) hm hg
      exact ⟨false, by simp, h1.trans h2⟩

end Surfaces

section Queues

theorem Keeps.trans {t : State} (h : Keeps A s L t) (hl : Life s L)
    (h' : ∀ o, Life t { L with owed := o } → Keeps A t { L with owed := o } s') :
    Keeps A s L s' := by
  obtain ⟨o, ho, h1⟩ := h
  obtain ⟨o', ho', h2⟩ := h' o (h1.life hl)
  exact ⟨o', fun h => ho (ho' h), h1.trans h2⟩

theorem surfaceQueueInit_moves {q : Queue}
    (he : exec x surfaceQueueInit s = some (q, s')) : Moves A s L s' L := by
  simp only [surfaceQueueInit, exec_bind, exec_read, Option.bind_some] at he
  cases hq : s.surfQueueBufmgr with
  | some m =>
    simp only [hq, exec_access, Option.bind_eq_bind] at he
    obtain ⟨w, -, he⟩ := Option.bind_eq_some_iff.mp he
    obtain rfl : s.linkQueue.2 = s' := congrArg Prod.snd (Option.some.inj he)
    exact (Move.linkQueue (by simp [hq])).moves
  | none =>
    simp only [hq, exec_bind, exec_modify, exec_access, Option.bind_some, Option.bind_eq_bind] at he
    obtain ⟨⟨k, t⟩, hi, he⟩ := Option.bind_eq_some_iff.mp he
    obtain ⟨w, hd, he⟩ := Option.bind_eq_some_iff.mp he
    have hinit := tbmBufmgrInit_exec hi
    cases k with
    | none => simp [State.deref] at hd
    | some m =>
      obtain ⟨-, -, hqb⟩ := bufmgrInit_some hinit
      obtain rfl := congrArg Prod.snd (Option.some.inj he)
      have h1 : Moves A s L t { L with mgrs := m :: L.mgrs } := (Move.init hinit).moves
      have hopen := Move.openQueue (A := A) (s := t) (L := { L with mgrs := m :: L.mgrs })
        List.mem_cons_self (hqb.trans hq)
      simp only [List.erase_cons_head] at hopen
      exact (h1.tail hopen).tail (.linkQueue rfl)

theorem surfaceQueueCreate_moves {queueSize width height format : ℤ}
    {r : Option Queue}
    (he : exec x (surfaceQueueCreate queueSize width height format) s = some (r, s')) :
    Moves A s L s' L := by
  unfold surfaceQueueCreate at he
  split_ifs at he with hsz
  · simp only [exec_locked, exec_bind, exec_answer, Option.bind_some] at he
    split_ifs at he with hc
    · simp only [exec_bind] at he
      obtain ⟨⟨q, t⟩, hq, he⟩ := Option.bind_eq_some_iff.mp he
      simp only [exec_pure, Option.some.injEq, Prod.mk.injEq] at he
      obtain ⟨-, rfl⟩ := he
      exact surfaceQueueInit_moves hq
    · simp only [exec_pure, Option.some.injEq, Prod.mk.injEq] at he
      obtain ⟨-, rfl⟩ := he
      exact .refl
  · simp only [exec_pure, Option.some.injEq, Prod.mk.injEq] at he
    obtain ⟨-, rfl⟩ := he
    exact .refl

theorem withQueue_keeps {k : Queue → BProg Unit} {q : Option Queue}
    (hk : ∀ c {r : Unit}, s.surfQueueIsValid q = some (some c) →
      exec x (k c) s = some (r, s') → Keeps A s L s')
    {r : Unit} (he : exec x (withQueue q k) s = some (r, s')) : Keeps A s L s' := by
  simp only [withQueue, exec_locked, exec_bind, exec_access] at he
  obtain ⟨⟨v, t⟩, hv, he⟩ := Option.bind_eq_some_iff.mp he
  obtain ⟨w, hvalid, hw⟩ := Option.map_eq_some_iff.mp hv
  obtain ⟨rfl, rfl⟩ := Prod.mk.inj hw
  cases w with
  | none =>
    simp only [exec_pure, Option.some.injEq, Prod.mk.injEq] at he
    obtain ⟨-, rfl⟩ := he
    exact .of_moves .refl
  | some c => exact hk c hvalid he

theorem surfaceQueueAttach_moves (hl : Life s L) {q : Queue} {h : Surface} {r : Unit}
    (he : exec x (surfaceQueueAttach q h) s = some (r, s')) : Moves A s L s' L := by
  simp only [surfaceQueueAttach, exec_bind, exec_answer, Option.bind_some] at he
  split_ifs at he with hn
  · simp only [exec_bind, exec_modify] at he
    obtain ⟨⟨u, t⟩, hr, he⟩ := Option.bind_eq_some_iff.mp he
    simp only [Option.some.injEq, Prod.mk.injEq] at he
    obtain ⟨-, rfl⟩ := he
    exact (tbmSurfaceInternalRef_moves hl hr).tail .setQueue
  · simp only [exec_pure, Option.some.injEq, Prod.mk.injEq] at he
    obtain ⟨-, rfl⟩ := he
    exact .refl

variable (hl : Life s L) (hm : L.making = none) (hd : L.dying = none)

include hl hm hd

theorem needAttach_keeps {width height : ℤ} {format : Format} {flags : ℤ}
    (ha : SurfaceAllocates backend x width height format → A.uncounted) {q : Queue} {r : Unit}
    (he : exec x (needAttach backend width height format flags q) s = some (r, s')) :
    Keeps A s L s' := by
  simp only [needAttach, exec_bind] at he
  obtain ⟨⟨o, t⟩, hc, he⟩ := Option.bind_eq_some_iff.mp he
  have h1 := tbmSurfaceInternalCreateWithFlags_keeps hl hm ha hc
  cases o with
  | none =>
    simp only [exec_pure, Option.some.injEq, Prod.mk.injEq] at he
    obtain ⟨-, rfl⟩ := he
    exact h1
  | some h =>
    simp only [exec_bind] at he
    obtain ⟨⟨u, t'⟩, hat, he⟩ := Option.bind_eq_some_iff.mp he
    apply h1.trans hl
    intro o hlo
    have h2 := surfaceQueueAttach_moves (A := A) hlo hat
    obtain ⟨o', ho', h3⟩ := dropSurface_keeps (A := A) (h2.life hlo) hm hd he
    exact ⟨o', ho', h2.trans h3⟩

theorem needAttachCb_keeps {h : Surface} {q : Queue} {r : Unit}
    (he : exec x (needAttachCb backend h q) s = some (r, s')) : Keeps A s L s' := by
  simp only [needAttachCb, exec_bind] at he
  obtain ⟨⟨u, t⟩, hr, he⟩ := Option.bind_eq_some_iff.mp he
  obtain ⟨⟨u', t'⟩, hat, he⟩ := Option.bind_eq_some_iff.mp he
  have h1 := tbmSurfaceInternalRef_moves (A := A) hl hr
  have h12 := h1.trans (surfaceQueueAttach_moves (h1.life hl) hat)
  obtain ⟨o, ho, h3⟩ := dropSurface_keeps (A := A) (h12.life hl) hm hd he
  exact ⟨o, ho, h12.trans h3⟩

theorem queueDeleteNode_keeps {h : Surface} {q : Queue} {r : Unit}
    (he : exec x (queueDeleteNode backend h q) s = some (r, s')) : Keeps A s L s' := by
  simp only [queueDeleteNode, exec_bind, exec_read, Option.bind_some] at he
  split_ifs at he with hin
  · simp only [exec_bind, exec_modify] at he
    obtain ⟨⟨u, t⟩, hdr, he⟩ := Option.bind_eq_some_iff.mp he
    simp only [Option.some.injEq, Prod.mk.injEq] at he
    obtain ⟨-, rfl⟩ := he
    obtain ⟨o, ho, h1⟩ := dropSurface_keeps (A := A) hl hm hd hdr
    exact ⟨o, ho, h1.tail .setQueue⟩
  · simp only [exec_pure, Option.some.injEq, Prod.mk.injEq] at he
    obtain ⟨-, rfl⟩ := he
    exact .of_moves .refl

theorem deleteNodes_keeps {hs : List Surface} {r : Unit}
    (he : exec x (deleteNodes backend hs) s = some (r, s')) : Keeps A s L s' := by
  induction hs generalizing s L with
  | nil =>
    simp only [deleteNodes, exec_pure, Option.some.injEq, Prod.mk.injEq] at he
    obtain ⟨-, rfl⟩ := he
    exact .of_moves .refl
  | cons h hs ih =>
    simp only [deleteNodes, exec_bind] at he
    obtain ⟨⟨u, t⟩, hdr, he⟩ := Option.bind_eq_some_iff.mp he
    apply (dropSurface_keeps hl hm hd hdr).trans hl
    intro o hlo
    exact ih hlo hm hd he

theorem tbmSurfaceQueueDestroy_keeps {q : Option Queue} {r : Unit}
    (he : exec x (tbmSurfaceQueueDestroy backend q) s = some (r, s')) : Keeps A s L s' := by
  refine withQueue_keeps (fun q r _ he => ?_) he
  simp only [exec_bind, exec_modify, exec_read, Option.bind_some, exec_access,
    Option.bind_eq_bind] at he
  obtain ⟨⟨u, t⟩, hdel, he⟩ := Option.bind_eq_some_iff.mp he
  obtain ⟨⟨last, t'⟩, hset, he⟩ := Option.bind_eq_some_iff.mp he
  obtain ⟨w, -, hw⟩ := Option.bind_eq_some_iff.mp hset
  obtain ⟨rfl, rfl⟩ : t.surfQueueList.isEmpty = last ∧ t.setQueue q [] = t' := by simpa using hw
  have h1 : Moves A s L { s with surfQueueList := s.surfQueueList.erase q } L :=
    Move.unlinkQueue.moves
  obtain ⟨o, ho, h2⟩ := deleteNodes_keeps (A := A) (h1.life hl) hm hd hdel
  have h12 := (h1.trans h2).tail (.setQueue (q := q) (l := []))
  split_ifs at he with hlast
  · have hn : (t.setQueue q []).surfQueueList = [] := List.isEmpty_iff.mp hlast
    exact ⟨o, ho, h12.trans (deinitSurfQueueBufmgr_moves (h12.life hl) hn he)⟩
  · simp only [exec_pure, Option.some.injEq, Prod.mk.injEq] at he
    obtain ⟨-, rfl⟩ := he
    exact ⟨o, ho, h12⟩

end Queues

end Tbm.Bufmgr
