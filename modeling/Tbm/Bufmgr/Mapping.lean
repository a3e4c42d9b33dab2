import Tbm.Bufmgr.Paths
import Tbm.Core.Locals
import Mathlib.Algebra.BigOperators.Fin
import Mathlib.Algebra.Order.BigOperators.Group.Finset

/-! Threads that map, unmap and drop buffer objects: what each of their steps does. -/
namespace Tbm.Bufmgr

open Prog

inductive MapOp
  | map (b : Option Bo)
  | unmap (b : Option Bo)
  | unref (b : Option Bo)
  deriving DecidableEq, Repr

/-- The code of thread `me`. -/
def MapOp.prog (backend : Backend) (me : ℕ) : MapOp → BProg Bool
  | map b => tbmBoMap backend me b
  | unmap b => tbmBoUnmap backend b
  | unref b => do
    tbmBoUnref backend b
    return true

/-- Where a thread is: before the data step of a call, between two data steps of `tbm_bo_map` with
the result of `bo_lock`, or elsewhere. -/
inductive Phase
  | rest
  | calling (op : MapOp)
  | inside (b : Bo) (r : Option Bool)
  deriving DecidableEq, Repr

/-- What the observer shows of it. -/
def Phase.window : Phase → Option (Bo × Bool)
  | inside b r => some (b, r.getD false)
  | _ => none

section Steps

variable (backend : Backend) (me : ℕ)

/-- The data steps of the three operations. -/
inductive MapStep : MapOp → State → Phase → State → Phase → Prop
  | refused {op s} : MapStep op s (.calling op) s .rest
  | enter {s b} (hb : b ∈ s.boList) (h : s.tbmBoLockStart b = .outside) :
    MapStep (.map (some b)) s (.calling (.map (some b))) (s.enterWindow me b) (.inside b none)
  | ready {s b ok} (hb : b ∈ s.boList) (h : s.tbmBoLockStart b = .ready) :
    MapStep (.map (some b)) s (.calling (.map (some b))) (s.boMap backend b ok).2 .rest
  | lock {op s b ok r s'} (h : s.boLock backend me b ok = some (r, s')) :
    MapStep op s (.inside b none) s' (.inside b (some r))
  | finish {op s b l ok r s'} (h : s.boMapEnd backend me b l ok = some (r, s')) :
    MapStep op s (.inside b (some l)) s' .rest
  | unmap {s b} (hb : b ∈ s.boList) :
    MapStep (.unmap (some b)) s (.calling (.unmap (some b))) (s.boUnmap backend b true).2 .rest
  | unref {s b} (hb : b ∈ s.boList) :
    MapStep (.unref (some b)) s (.calling (.unref (some b))) (s.boUnref backend b) .rest

variable {backend me}

theorem boMapStart_step {s s' : State} {b : Option Bo} {ok r : Bool} {o : Option Bo}
    (h : s.boMapStart backend me b ok = ((o, r), s')) :
    MapStep backend me (.map b) s (.calling (.map b)) s'
      (match o with
        | some c => .inside c none
        | none => .rest) := by
  cases hc : s.boIsValid b with
  | none =>
    simp only [State.boMapStart, hc, Prod.mk.injEq] at h
    obtain ⟨⟨rfl, -⟩, rfl⟩ := h
    exact .refused
  | some c =>
    obtain ⟨rfl, hin⟩ := boIsValid_eq_some hc
    cases hs : s.tbmBoLockStart c with
    | failed =>
      simp only [State.boMapStart, hc, hs, Prod.mk.injEq] at h
      obtain ⟨⟨rfl, -⟩, rfl⟩ := h
      exact .refused
    | ready =>
      simp only [State.boMapStart, hc, hs, Prod.mk.injEq] at h
      obtain ⟨⟨rfl, -⟩, rfl⟩ := h
      exact .ready hin hs
    | outside =>
      simp only [State.boMapStart, hc, hs, Prod.mk.injEq] at h
      obtain ⟨⟨rfl, -⟩, rfl⟩ := h
      exact .enter hin hs

theorem tbmBoMap_follows (b : Option Bo) : (tbmBoMap backend me b).Follows
    (MapStep backend me (.map b)) .rest (.calling (.map b)) := by
  simp only [tbmBoMap, locked, bind_bind, follows_mutexLock, follows_answer]
  intro x
  rw [follows_access]
  rintro s ⟨o, r⟩ s' he
  refine ⟨_, boMapStart_step (Option.some.inj he), ?_⟩
  cases o with
  | none => exact rfl
  | some c =>
    simp only [bind_bind, follows_mutexUnlock, follows_answer]
    intro x
    rw [follows_access]
    intro s ok s' he
    refine ⟨_, .lock he, ?_⟩
    simp only [follows_mutexLock, follows_answer]
    intro x
    rw [follows_access]
    intro s r s' he
    exact ⟨_, .finish he, rfl⟩

theorem MapOp.prog_follows (op : MapOp) :
    (op.prog backend me).Follows (MapStep backend me op) .rest (.calling op) := by
  cases op with
  | map b => exact tbmBoMap_follows b
  | unmap b =>
    simp only [MapOp.prog, tbmBoUnmap, locked, bind_bind, follows_mutexLock, follows_answer]
    intro x
    rw [follows_access]
    intro s r s' he
    refine ⟨.rest, ?_, rfl⟩
    have he' := Option.some.inj he
    split at he'
    next c hc =>
      obtain ⟨rfl, hin⟩ := boIsValid_eq_some hc
      cases hx : x.unmap with
      | true =>
        rw [hx] at he'
        rw [← show (s.boUnmap backend c true).2 = s' by rw [he']]
        exact .unmap hin
      | false =>
        rw [hx] at he'
        obtain ⟨-, rfl⟩ := Prod.mk.inj he'
        exact .refused
    next =>
      obtain ⟨-, rfl⟩ := Prod.mk.inj he'
      exact .refused
  | unref b =>
    simp only [MapOp.prog, tbmBoUnref, locked, bind_bind, follows_mutexLock]
    rw [follows_modify]
    intro s
    refine ⟨.rest, ?_, rfl⟩
    split
    next c hc =>
      obtain ⟨rfl, hin⟩ := boIsValid_eq_some hc
      exact .unref hin
    next => exact .refused

end Steps

section Effects

/-- A buffer object with new counts of locks and maps. -/
def State.adjust (s : State) (b : Bo) (n : ℤ) (k : UInt32) : State :=
  s.setBo b { s.bo b with lockCnt := n, mapCnt := k }

/-- One more call of `bo_unlock`. -/
def State.unlocked (s : State) (b : Bo) : State :=
  { s with unlocks := Function.update s.unlocks b (s.unlocks b + 1) }

/-- One more or one less successful map. -/
def State.addMaps (s : State) (b : Bo) (k : ℤ) : State :=
  { s with maps := Function.update s.maps b (s.maps b + k) }

def State.setWindow (s : State) (me : ℕ) (v : Option (Bo × Bool)) : State :=
  { s with window := Function.update s.window me v }

/-- What the data steps amount to in the states that come up. -/
inductive Effect (me : ℕ) : MapOp → State → Phase → State → Phase → Prop
  | refused {op s} : Effect me op s (.calling op) s .rest
  | enter {s b} (hb : b ∈ s.boList) (h : s.lockType = .tryAlways ∨ (s.bo b).lockCnt = 0) :
    Effect me (.map (some b)) s (.calling (.map (some b))) (s.setWindow me (some (b, false)))
      (.inside b none)
  | again {s b} (hb : b ∈ s.boList) (h : 0 < (s.bo b).lockCnt) (hl : s.lockType = .tryOnce) :
    Effect me (.map (some b)) s (.calling (.map (some b)))
      ((s.adjust b (s.bo b).lockCnt ((s.bo b).mapCnt + 1)).addMaps b 1) .rest
  | againFailed {s b} (hb : b ∈ s.boList) (h : 0 < (s.bo b).lockCnt) (hl : s.lockType = .tryOnce) :
    Effect me (.map (some b)) s (.calling (.map (some b)))
      ((s.adjust b ((s.bo b).lockCnt - 1) (s.bo b).mapCnt).unlocked b) .rest
  | locked {op s b} (hb : b ∈ s.boList) :
    Effect me op s (.inside b none)
      { s.setWindow me (some (b, true)) with
        locks := Function.update s.locks b (s.locks b + 1) } (.inside b (some true))
  | lockFailed {op s b} (hb : b ∈ s.boList) :
    Effect me op s (.inside b none) s (.inside b (some false))
  | left {op s b} (hb : b ∈ s.boList) :
    Effect me op s (.inside b (some false)) (s.setWindow me none) .rest
  | mapped {op s b} (hb : b ∈ s.boList) (h : (s.bo b).lockCnt < 2 ^ 31 - 1) :
    Effect me op s (.inside b (some true))
      (((s.setWindow me none).adjust b ((s.bo b).lockCnt + 1) ((s.bo b).mapCnt + 1)).addMaps b 1)
      .rest
  | mapFailed {op s b} (hb : b ∈ s.boList) :
    Effect me op s (.inside b (some true)) ((s.setWindow me none).unlocked b) .rest
  | unmapped {s b} (hb : b ∈ s.boList) (h : 0 < (s.bo b).lockCnt) :
    Effect me (.unmap (some b)) s (.calling (.unmap (some b)))
      (((s.adjust b ((s.bo b).lockCnt - 1) ((s.bo b).mapCnt - 1)).addMaps b (-1)).unlocked b) .rest
  | unmappedOnly {s b} (hb : b ∈ s.boList) (h : (s.bo b).lockCnt = 0) :
    Effect me (.unmap (some b)) s (.calling (.unmap (some b)))
      ((s.adjust b 0 ((s.bo b).mapCnt - 1)).addMaps b (-1)) .rest
  | unref {s b} (hb : b ∈ s.boList) (h : 1 < (s.bo b).refCnt) :
    Effect me (.unref (some b)) s (.calling (.unref (some b)))
      (s.setRefCnt b ((s.bo b).refCnt - 1)) .rest
  | free {s b bo} (hb : b ∈ s.boList) (h : (s.bo b).refCnt = 1) (hbo : ∀ c, c ≠ b → bo c = s.bo c)
    (h0 : (bo b).lockCnt = 0) :
    Effect me (.unref (some b)) s (.calling (.unref (some b)))
      { s with
        boList := s.boList.erase b
        boCnt := s.boCnt - 1
        frees := s.frees ++ [b]
        bo := bo
        unlocks := Function.update s.unlocks b (s.unlocks b + (s.bo b).lockCnt.toNat) } .rest

/-- The lock counts that come up: not negative, and with `LOCK_TRY_ONCE` at most one, zero where a
thread is in the window. -/
structure Tight (s : State) : Prop where
  nonneg : ∀ b, 0 ≤ (s.bo b).lockCnt
  mode : s.lockType = .tryAlways ∨ s.lockType = .tryOnce ∧ (∀ b, (s.bo b).lockCnt ≤ 1) ∧
    ∀ i b ok, s.window i = some (b, ok) → (s.bo b).lockCnt = 0

variable {backend : Backend} {me : ℕ} {s s' : State} {b : Bo}

/-- `_tbm_bo_unlock` calls the backend once for every count it takes back. -/
theorem tbmBoUnlock_eq (hu : backend.boUnlock = true) (h0 : 0 ≤ (s.bo b).lockCnt)
    (hm : s.lockType = .tryAlways ∨ s.lockType = .tryOnce ∧ (s.bo b).lockCnt ≤ 1) :
    s.tbmBoUnlock backend b = if 0 < (s.bo b).lockCnt then
      (s.adjust b ((s.bo b).lockCnt - 1) (s.bo b).mapCnt).unlocked b else s := by
  have hneg : ¬(s.bo b).lockCnt < 0 := by omega
  rcases hm with hm | ⟨hm, h1⟩
  · by_cases hpos : 0 < (s.bo b).lockCnt
    · simp [State.tbmBoUnlock, hm, hpos, State.boUnlock, hu, State.setLockCnt, State.unlocked,
        State.adjust, State.setBo]
    · simp [State.tbmBoUnlock, hm, hpos, hneg]
  · by_cases hpos : 0 < (s.bo b).lockCnt
    · have hone : (s.bo b).lockCnt = 1 := by omega
      simp [State.tbmBoUnlock, hm, hone, State.boUnlock, hu, State.setLockCnt, State.unlocked,
        State.adjust, State.setBo]
    · simp [State.tbmBoUnlock, hm, hpos, hneg]

theorem tbmBoLockStart_outside (h : s.tbmBoLockStart b = .outside) :
    s.lockType = .tryAlways ∨ (s.bo b).lockCnt = 0 := by
  unfold State.tbmBoLockStart at h
  split at h
  · simp at h
  · split_ifs at h with hneg h0
    exact .inr h0
  next hl => exact .inl hl

theorem tbmBoLockStart_ready (ht : Tight s) (h : s.tbmBoLockStart b = .ready) :
    s.lockType = .tryOnce ∧ 0 < (s.bo b).lockCnt := by
  have h0 := ht.nonneg b
  unfold State.tbmBoLockStart at h
  split at h
  next hl =>
    rcases ht.mode with hm | ⟨hm, -⟩
    · simp [hl] at hm
    · simp [hl] at hm
  next hl =>
    split_ifs at h with hneg hz
    exact ⟨hl, by omega⟩
  · split_ifs at h

theorem ready_effect {ok : Bool} (hu : backend.boUnlock = true) (ht : Tight s) (hb : b ∈ s.boList)
    (h : s.tbmBoLockStart b = .ready) :
    Effect me (.map (some b)) s (.calling (.map (some b))) (s.boMap backend b ok).2 .rest := by
  obtain ⟨hl, hpos⟩ := tbmBoLockStart_ready ht h
  cases ok with
  | true => exact .again hb hpos hl
  | false =>
    have hone : (s.bo b).lockCnt ≤ 1 := by
      rcases ht.mode with hm | ⟨-, hm, -⟩
      · simp [hl] at hm
      · exact hm b
    have heq : (s.boMap backend b false).2 = s.tbmBoUnlock backend b := rfl
    rw [heq, tbmBoUnlock_eq hu (ht.nonneg b) (.inr ⟨hl, hone⟩), if_pos hpos]
    exact .againFailed hb hpos hl

theorem lock_effect {op : MapOp} {ok r : Bool} (hk : backend.boLock = true)
    (h : s.boLock backend me b ok = some (r, s')) :
    Effect me op s (.inside b none) s' (.inside b (some r)) := by
  unfold State.boLock at h
  split_ifs at h with hb hok
  · obtain ⟨rfl, rfl⟩ : true = r ∧ _ = s' := by simpa using h
    exact .locked hb
  · obtain ⟨rfl, rfl⟩ : false = r ∧ s = s' := by simpa using h
    exact .lockFailed hb

theorem finish_effect {op : MapOp} {l ok r : Bool} (hu : backend.boUnlock = true) (ht : Tight s)
    (hw : s.window me = some (b, l)) (h : s.boMapEnd backend me b l ok = some (r, s')) :
    Effect me op s (.inside b (some l)) s' .rest := by
  unfold State.boMapEnd State.tbmBoLockEnd at h
  by_cases hb : b ∈ s.boList
  · cases l with
    | false =>
      obtain ⟨-, rfl⟩ : false = r ∧ s.setWindow me none = s' := by
        simpa [hb, State.setWindow] using h
      exact .left hb
    | true =>
      by_cases hlt : (s.bo b).lockCnt < 2 ^ 31 - 1
      · have h1 : (((s.setWindow me none).setLockCnt b ((s.bo b).lockCnt + 1)).boMap backend b ok)
            = (r, s') := by
          have hlt' : (s.bo b).lockCnt < 2147483647 := by omega
          simpa [hb, hlt', State.setWindow] using h
        cases ok with
        | true =>
          have h2 : (((s.setWindow me none).adjust b ((s.bo b).lockCnt + 1)
              ((s.bo b).mapCnt + 1)).addMaps b 1) = s' := by
            refine Eq.trans ?_ (congrArg Prod.snd h1)
            simp [State.boMap, State.setWindow, State.adjust, State.addMaps, State.setLockCnt,
              State.setMapCnt, State.setBo]
          rw [← h2]
          exact .mapped hb hlt
        | false =>
          have h0 := ht.nonneg b
          let t := (s.setWindow me none).setLockCnt b ((s.bo b).lockCnt + 1)
          have hcnt : (t.bo b).lockCnt = (s.bo b).lockCnt + 1 := by
            simp [t, State.setLockCnt, State.setBo]
          have hmode : t.lockType = .tryAlways ∨ t.lockType = .tryOnce ∧ (t.bo b).lockCnt ≤ 1 := by
            rcases ht.mode with hm | ⟨hm, -, hz⟩
            · exact .inl hm
            · have := hz me b true hw
              exact .inr ⟨hm, by omega⟩
          have h2 : (s.setWindow me none).unlocked b = s' := by
            refine Eq.trans ?_ (congrArg Prod.snd h1)
            show _ = t.tbmBoUnlock backend b
            rw [tbmBoUnlock_eq hu (by omega) hmode, if_pos (by omega)]
            simp [t, State.setWindow, State.adjust, State.unlocked, State.setLockCnt, State.setBo]
          rw [← h2]
          exact .mapFailed hb
      · have hlt' : ¬(s.bo b).lockCnt < 2147483647 := by omega
        simp [hb, hlt'] at h
  · simp [hb] at h

theorem unmap_effect (hu : backend.boUnlock = true) (ht : Tight s) (hb : b ∈ s.boList) :
    Effect me (.unmap (some b)) s (.calling (.unmap (some b))) (s.boUnmap backend b true).2
      .rest := by
  let t := (s.addMaps b (-1)).setMapCnt b ((s.bo b).mapCnt - 1)
  have heq : (s.boUnmap backend b true).2 = t.tbmBoUnlock backend b := rfl
  have hcnt : (t.bo b).lockCnt = (s.bo b).lockCnt := by
    simp [t, State.setMapCnt, State.setBo, State.addMaps]
  have hmode : t.lockType = .tryAlways ∨ t.lockType = .tryOnce ∧ (t.bo b).lockCnt ≤ 1 := by
    rw [hcnt]
    exact ht.mode.imp_right fun hm => ⟨hm.1, hm.2.1 b⟩
  have h0 := ht.nonneg b
  rw [heq, tbmBoUnlock_eq hu (by omega) hmode, hcnt]
  by_cases hpos : 0 < (s.bo b).lockCnt
  · rw [if_pos hpos]
    have h2 :
        ((s.adjust b ((s.bo b).lockCnt - 1) ((s.bo b).mapCnt - 1)).addMaps b (-1)).unlocked b =
        (t.adjust b ((s.bo b).lockCnt - 1) (t.bo b).mapCnt).unlocked b := by
      simp [t, State.adjust, State.unlocked, State.addMaps, State.setMapCnt, State.setBo]
    rw [← h2]
    exact .unmapped hb hpos
  · rw [if_neg hpos]
    have hz : (s.bo b).lockCnt = 0 := by omega
    have h2 : (s.adjust b 0 ((s.bo b).mapCnt - 1)).addMaps b (-1) = t := by
      simp [t, State.adjust, State.addMaps, State.setMapCnt, State.setBo, ← hz]
    rw [← h2]
    exact .unmappedOnly hb hz

theorem unref_effect (hu : backend.boUnlock = true) (ht : Tight s) (hb : b ∈ s.boList) :
    Effect me (.unref (some b)) s (.calling (.unref (some b))) (s.boUnref backend b) .rest := by
  unfold State.boUnref
  by_cases h0 : (s.bo b).refCnt ≤ 0
  · rw [if_pos h0]
    exact .refused
  rw [if_neg h0]
  by_cases h1 : (s.bo b).refCnt = 1
  · have hr : ((s.setRefCnt b ((s.bo b).refCnt - 1)).bo b).refCnt = 0 := by
      simp [State.setRefCnt, State.setBo, h1]
    have hcnt : ((s.setRefCnt b ((s.bo b).refCnt - 1)).bo b).lockCnt = (s.bo b).lockCnt := by
      simp [State.setRefCnt, State.setBo]
    simp only [hr, if_true, State.boFree, drainLocks_eq, hu, hcnt]
    apply Effect.free hb h1
    · intro c hc
      simp [State.setPriv, State.setRefCnt, State.setBo, hc]
    · have hn := ht.nonneg b
      simp only [State.setPriv, State.setBo, Function.update_self]
      omega
  · have hr : ((s.setRefCnt b ((s.bo b).refCnt - 1)).bo b).refCnt ≠ 0 := by
      simp only [State.setRefCnt, State.setBo, Function.update_self]
      omega
    simp only [hr, if_false]
    exact .unref hb (by omega)

/-- The data steps where the backend locks and unlocks. -/
theorem MapStep.effect {op : MapOp} {p p' : Phase} (h : MapStep backend me op s p s' p')
    (hk : backend.boLock = true) (hu : backend.boUnlock = true) (ht : Tight s)
    (hw : s.window me = p.window) : Effect me op s p s' p' := by
  cases h with
  | refused => exact .refused
  | enter hb h => exact .enter hb (tbmBoLockStart_outside h)
  | ready hb h => exact ready_effect hu ht hb h
  | lock h => exact lock_effect hk h
  | finish h => exact finish_effect hu ht hw h
  | unmap hb => exact unmap_effect hu ht hb
  | unref hb => exact unref_effect hu ht hb

end Effects

end Tbm.Bufmgr
