import Tbm.Bufmgr.Mapping
import Tbm.Bufmgr.Calls

/-! Maps of a buffer object one call after the other, with `LOCK_TRY_ONCE`: which of them leave it
mapped without its lock. -/
namespace Tbm.Bufmgr

open Prog Runs

inductive MapCall
  | map (b : Option Bo)
  | unmap (b : Option Bo)
  deriving DecidableEq, Repr

/-- A call with the answers it gets from outside. -/
structure MapTurn where
  call : MapCall
  answers : Answers

/-- The calls of a single client. -/
def MapTurn.step (backend : Backend) (t : MapTurn) (s : State) : Option (Bool × State) :=
  match t.call with
  | .map b => exec t.answers (tbmBoMap backend 0 b) s
  | .unmap b => exec t.answers (tbmBoUnmap backend b) s

/-- What counts of a buffer object: its two counters and the calls of `bo_lock` that are not undone
by one of `bo_unlock`. -/
structure Tally where
  lockCnt : ℤ
  mapCnt : UInt32
  held : ℤ
  deriving DecidableEq, Repr

def State.tally (s : State) (b : Bo) : Tally where
  lockCnt := (s.bo b).lockCnt
  mapCnt := (s.bo b).mapCnt
  held := s.locks b - s.unlocks b

namespace Tally

variable (v : Tally) (x : Answers)

def map : Tally :=
  if v.lockCnt = 0 then
    if x.lock ∧ x.map then ⟨1, v.mapCnt + 1, v.held + 1⟩ else v
  else if x.map then { v with mapCnt := v.mapCnt + 1 }
  else ⟨v.lockCnt - 1, v.mapCnt, v.held - 1⟩

def unmap : Tally :=
  if x.unmap then
    if v.lockCnt = 0 then { v with mapCnt := v.mapCnt - 1 }
    else ⟨v.lockCnt - 1, v.mapCnt - 1, v.held - 1⟩
  else v

/-- The counts that come up. -/
def Tallied : Prop := (v.lockCnt = 0 ∨ v.lockCnt = 1) ∧ v.held = v.lockCnt

/-- Mapped only with its lock. -/
def Guarded : Prop := 0 < v.mapCnt → 0 < v.lockCnt ∧ 0 < v.held

variable {v : Tally} {x : Answers}

theorem Tallied.map (h : v.Tallied) : (v.map x).Tallied := by
  obtain ⟨hl | hl, hh⟩ := h
  · by_cases hok : x.lock ∧ x.map
    · simp [Tally.map, Tallied, hl, hok, hh]
    · simp [Tally.map, Tallied, hl, hok, hh]
  · by_cases hok : x.map
    · simp [Tally.map, Tallied, hl, hok, hh]
    · simp [Tally.map, Tallied, hl, hok, hh]

theorem Tallied.unmap (h : v.Tallied) : (v.unmap x).Tallied := by
  obtain ⟨hl | hl, hh⟩ := h
  · by_cases hok : x.unmap
    · simp [Tally.unmap, Tallied, hl, hok, hh]
    · simp [Tally.unmap, Tallied, hl, hok, hh]
  · by_cases hok : x.unmap
    · simp [Tally.unmap, Tallied, hl, hok, hh]
    · simp [Tally.unmap, Tallied, hl, hok, hh]

theorem guarded_iff_locked (h : v.Tallied) : v.Guarded ↔ v.mapCnt = 0 ∨ v.lockCnt = 1 := by
  unfold Guarded
  obtain ⟨hl | hl, hh⟩ := h
  · simp [hl]
  · simp [hl, hh]

/-- A map that fails gives the lock up, also one that was there before. -/
theorem guarded_map (h : v.Tallied) (hg : v.Guarded) :
    (v.map x).Guarded ↔ x.map = true ∨ v.mapCnt = 0 := by
  rw [guarded_iff_locked h.map]
  rw [guarded_iff_locked h] at hg
  obtain ⟨hl | hl, hh⟩ := h
  · have hm : v.mapCnt = 0 := hg.resolve_right (by omega)
    by_cases hok : x.lock ∧ x.map
    · simp [Tally.map, hl, hok]
    · simp [Tally.map, hl, hok, hm]
  · by_cases hok : x.map
    · simp [Tally.map, hl, hok]
    · simp [Tally.map, hl, hok]

/-- An unmap that succeeds gives the lock up, also where other maps are left. -/
theorem guarded_unmap (h : v.Tallied) (hg : v.Guarded) :
    (v.unmap x).Guarded ↔ x.unmap = false ∨ v.mapCnt = 1 := by
  rw [guarded_iff_locked h.unmap]
  rw [guarded_iff_locked h] at hg
  by_cases hok : x.unmap
  · obtain ⟨hl | hl, hh⟩ := h
    · have hm : v.mapCnt = 0 := hg.resolve_right (by omega)
      simp [Tally.unmap, hl, hok, hm]
    · have hone : v.mapCnt - 1 = 0 ↔ v.mapCnt = 1 := by
        constructor
        · intro h0
          rw [← UInt32.sub_add_cancel v.mapCnt 1, h0]
          rfl
        · rintro h1
          rw [h1]
          rfl
      simp [Tally.unmap, hl, hok, hone]
  · have hoff : x.unmap = false := by simpa using hok
    simp [Tally.unmap, hoff, hg]

end Tally

section Calls

variable {backend : Backend} {x : Answers} {s s' : State} {b : Bo}

/-- Only what counts of `b` changes, to `v`. -/
structure Retallied (s s' : State) (b : Bo) (v : Tally) : Prop where
  gBufMgr : s'.gBufMgr = s.gBufMgr
  lockType : s'.lockType = s.lockType
  boList : s'.boList = s.boList
  self : s'.tally b = v
  other : ∀ c, c ≠ b → s'.tally c = s.tally c

theorem tbmBoUnlock_retallied (hu : backend.boUnlock = true) (hl : s.lockType = .tryOnce)
    (hone : (s.bo b).lockCnt = 1) : Retallied s (s.tbmBoUnlock backend b) b
      ⟨0, (s.bo b).mapCnt, (s.tally b).held - 1⟩ := by
  rw [tbmBoUnlock_eq hu (by omega) (.inr ⟨hl, by omega⟩), if_pos (by omega)]
  constructor
  · rfl
  · rfl
  · rfl
  · simp only [State.tally, State.unlocked, State.adjust, State.setBo, Function.update_self, hone]
    simp only [sub_self, Nat.cast_add, Nat.cast_one, Tally.mk.injEq, true_and]
    omega
  · intro c hc
    simp [State.tally, State.unlocked, State.adjust, State.setBo, hc]

theorem boIsValid_of_mem (hg : s.gBufMgr.isSome) (hb : b ∈ s.boList) :
    s.boIsValid (some b) = some b := by
  simp [State.boIsValid, hg, hb]

/-- `bo_map` and what follows it, with the lock already there. -/
theorem boMap_retallied (hu : backend.boUnlock = true) (hl : s.lockType = .tryOnce)
    (hone : (s.bo b).lockCnt = 1) : Retallied s (s.boMap backend b x.map).2 b
      (if x.map then { s.tally b with mapCnt := (s.bo b).mapCnt + 1 }
        else ⟨0, (s.bo b).mapCnt, (s.tally b).held - 1⟩) := by
  by_cases hok : x.map
  · rw [hok]
    constructor
    · rfl
    · rfl
    · rfl
    · simp [State.boMap, State.tally, State.setMapCnt, State.setBo]
    · intro c hc
      simp [State.boMap, State.tally, State.setMapCnt, State.setBo, hc]
  · rw [Bool.eq_false_iff.mpr hok]
    exact tbmBoUnlock_retallied hu hl hone

theorem Retallied.trans {t : State} {v v' : Tally} (h : Retallied s t b v)
    (h' : Retallied t s' b v') : Retallied s s' b v' := by
  constructor
  · rw [h'.gBufMgr, h.gBufMgr]
  · rw [h'.lockType, h.lockType]
  · rw [h'.boList, h.boList]
  · exact h'.self
  · intro c hc
    rw [h'.other c hc, h.other c hc]

theorem tbmBoMap_again (hu : backend.boUnlock = true) (hl : s.lockType = .tryOnce)
    (hg : s.gBufMgr.isSome) (hb : b ∈ s.boList) (hone : (s.bo b).lockCnt = 1) :
    ∃ r s', exec x (tbmBoMap backend 0 (some b)) s = some (r, s') ∧
      Retallied s s' b ((s.tally b).map x) := by
  have hstart : s.tbmBoLockStart b = .ready := by simp [State.tbmBoLockStart, hl, hone]
  have hexec : exec x (tbmBoMap backend 0 (some b)) s =
      some ((s.boMap backend b x.map).1, (s.boMap backend b x.map).2) := by
    simp [tbmBoMap, State.boMapStart, boIsValid_of_mem hg hb, hstart]
  have hv : (s.tally b).map x = if x.map then { s.tally b with mapCnt := (s.bo b).mapCnt + 1 }
      else ⟨0, (s.bo b).mapCnt, (s.tally b).held - 1⟩ := by
    simp [Tally.map, State.tally, hone]
  exact ⟨_, _, hexec, hv ▸ boMap_retallied hu hl hone⟩

/-- The state in which a thread goes on to `bo_map` once it has the lock. -/
def State.lockedOnce (s : State) (b : Bo) : State :=
  ({ s with
    locks := Function.update s.locks b (s.locks b + 1)
    window := Function.update s.window 0 none }).setLockCnt b 1

theorem lockedOnce_retallied : Retallied s (s.lockedOnce b) b
    ⟨1, (s.bo b).mapCnt, (s.tally b).held + 1⟩ := by
  constructor
  · rfl
  · rfl
  · rfl
  · simp only [State.tally, State.lockedOnce, State.setLockCnt, State.setBo, Function.update_self,
      Tally.mk.injEq, true_and]
    push_cast
    omega
  · intro c hc
    simp [State.tally, State.lockedOnce, State.setLockCnt, State.setBo, hc]

theorem tbmBoMap_first (hk : backend.boLock = true) (hu : backend.boUnlock = true)
    (hl : s.lockType = .tryOnce) (hg : s.gBufMgr.isSome) (hb : b ∈ s.boList)
    (hz : (s.bo b).lockCnt = 0) :
    ∃ r s', exec x (tbmBoMap backend 0 (some b)) s = some (r, s') ∧
      Retallied s s' b ((s.tally b).map x) := by
  have hstart : s.tbmBoLockStart b = .outside := by simp [State.tbmBoLockStart, hl, hz]
  by_cases hlock : x.lock
  · let t := s.lockedOnce b
    have hone : (t.bo b).lockCnt = 1 := by simp [t, State.lockedOnce, State.setLockCnt, State.setBo]
    have hexec : exec x (tbmBoMap backend 0 (some b)) s =
        some ((t.boMap backend b x.map).1, (t.boMap backend b x.map).2) := by
      simp [tbmBoMap, State.boMapStart, boIsValid_of_mem hg hb, hstart, State.boLock,
        State.enterWindow, hb, hk, hlock, State.boMapEnd, State.tbmBoLockEnd, hz, t,
        State.lockedOnce]
    refine ⟨_, _, hexec, ?_⟩
    have h := lockedOnce_retallied.trans (boMap_retallied (x := x) (s := t) hu hl hone)
    have hv : (s.tally b).map x = if x.map then { t.tally b with mapCnt := (t.bo b).mapCnt + 1 }
        else ⟨0, (t.bo b).mapCnt, (t.tally b).held - 1⟩ := by
      rw [lockedOnce_retallied.self]
      by_cases hok : x.map
      · simp [Tally.map, State.tally, hz, hlock, hok, t, State.lockedOnce, State.setLockCnt,
          State.setBo]
      · simp [Tally.map, State.tally, hz, hok, t, State.lockedOnce, State.setLockCnt, State.setBo]
    rw [hv]
    exact h
  · have hexec : exec x (tbmBoMap backend 0 (some b)) s =
        some (false, { s with window := Function.update s.window 0 none }) := by
      simp [tbmBoMap, State.boMapStart, boIsValid_of_mem hg hb, hstart, State.boLock,
        State.enterWindow, hb, hk, hlock, State.boMapEnd, State.tbmBoLockEnd]
    have hv : (s.tally b).map x = s.tally b := by simp [Tally.map, State.tally, hz, hlock]
    rw [hv]
    exact ⟨_, _, hexec, rfl, rfl, rfl, rfl, fun _ _ => rfl⟩

theorem tbmBoUnmap_retallied (hu : backend.boUnlock = true) (hl : s.lockType = .tryOnce)
    (hg : s.gBufMgr.isSome) (hb : b ∈ s.boList) (ht : (s.tally b).Tallied) :
    ∃ r s', exec x (tbmBoUnmap backend (some b)) s = some (r, s') ∧
      Retallied s s' b ((s.tally b).unmap x) := by
  have hexec : exec x (tbmBoUnmap backend (some b)) s =
      some ((s.boUnmap backend b x.unmap).1, (s.boUnmap backend b x.unmap).2) := by
    simp [tbmBoUnmap, boIsValid_of_mem hg hb]
  refine ⟨_, _, hexec, ?_⟩
  by_cases hok : x.unmap
  · let t := (s.addMaps b (-1)).setMapCnt b ((s.bo b).mapCnt - 1)
    have ht' : Retallied s t b ⟨(s.bo b).lockCnt, (s.bo b).mapCnt - 1, (s.tally b).held⟩ := by
      constructor
      · rfl
      · rfl
      · rfl
      · simp [t, State.tally, State.setMapCnt, State.setBo, State.addMaps]
      · intro c hc
        simp [t, State.tally, State.setMapCnt, State.setBo, State.addMaps, hc]
    have hcnt : (t.bo b).lockCnt = (s.bo b).lockCnt := by
      simp [t, State.setMapCnt, State.setBo, State.addMaps]
    have hstate : (s.boUnmap backend b x.unmap).2 = t.tbmBoUnlock backend b := by
      rw [hok]
      rfl
    rw [hstate]
    rcases ht.1 with hz | hone
    · have hz' : (s.bo b).lockCnt = 0 := hz
      have hsame : t.tbmBoUnlock backend b = t := by
        rw [tbmBoUnlock_eq (s := t) hu (by omega) (.inr ⟨hl, by omega⟩), if_neg (by omega)]
      have hv : (s.tally b).unmap x =
          ⟨(s.bo b).lockCnt, (s.bo b).mapCnt - 1, (s.tally b).held⟩ := by
        simp [Tally.unmap, State.tally, hok, hz']
      rw [hsame, hv]
      exact ht'
    · have hone' : (s.bo b).lockCnt = 1 := hone
      have h := ht'.trans (tbmBoUnlock_retallied hu hl (hcnt.trans hone'))
      have hv : (s.tally b).unmap x = ⟨0, (t.bo b).mapCnt, (t.tally b).held - 1⟩ := by
        rw [ht'.self]
        simp [Tally.unmap, State.tally, hok, hone', t, State.setMapCnt, State.setBo]
      rw [hv]
      exact h
  · have hstate : (s.boUnmap backend b x.unmap).2 = s := by simp [State.boUnmap, hok]
    have hv : (s.tally b).unmap x = s.tally b := by simp [Tally.unmap, hok]
    rw [hstate, hv]
    exact ⟨rfl, rfl, rfl, rfl, fun _ _ => rfl⟩

/-- The states that come up. -/
structure Sparing (s : State) : Prop where
  lockType : s.lockType = .tryOnce
  tallied : ∀ b, (s.tally b).Tallied

theorem Retallied.sparing {v : Tally} (h : Retallied s s' b v) (hs : Sparing s) (hv : v.Tallied) :
    Sparing s' := by
  constructor
  · rw [h.lockType, hs.lockType]
  · intro c
    by_cases e : c = b
    · subst e
      rw [h.self]
      exact hv
    · rw [h.other c e]
      exact hs.tallied c

theorem Retallied.guarded {v : Tally} (h : Retallied s s' b v) (hg : ∀ c, (s.tally c).Guarded) :
    (∀ c, (s'.tally c).Guarded) ↔ v.Guarded := by
  constructor
  · intro hall
    rw [← h.self]
    exact hall b
  · intro hv c
    by_cases e : c = b
    · subst e
      rw [h.self]
      exact hv
    · rw [h.other c e]
      exact hg c

/-- The backend maps, or there is no map yet; the last map goes, or none goes. -/
def State.sustains (s : State) (t : MapTurn) : Bool :=
  match t.call with
  | .map b =>
    match s.boIsValid b with
    | some b => t.answers.map || decide ((s.bo b).mapCnt = 0)
    | none => true
  | .unmap b =>
    match s.boIsValid b with
    | some b => !t.answers.unmap || decide ((s.bo b).mapCnt = 1)
    | none => true

theorem step_sustains {t : MapTurn} (hk : backend.boLock = true) (hu : backend.boUnlock = true)
    (hs : Sparing s) : ∃ r s', t.step backend s = some (r, s') ∧ Sparing s' ∧
      ((∀ b, (s.tally b).Guarded) → ((∀ b, (s'.tally b).Guarded) ↔ s.sustains t = true)) := by
  obtain ⟨call, x⟩ := t
  cases call with
  | map o =>
    cases hc : s.boIsValid o with
    | none =>
      refine ⟨false, s, ?_, hs, fun hg => ?_⟩
      · simp [MapTurn.step, tbmBoMap, State.boMapStart, hc]
      · simp [State.sustains, hc, hg]
    | some b =>
      obtain ⟨rfl, hb⟩ := boIsValid_eq_some hc
      have hmgr : s.gBufMgr.isSome := by
        by_contra hn
        simp [State.boIsValid, hn] at hc
      have hcall : ∃ r s', exec x (tbmBoMap backend 0 (some b)) s = some (r, s') ∧
          Retallied s s' b ((s.tally b).map x) := by
        rcases (hs.tallied b).1 with hz | hone
        · exact tbmBoMap_first hk hu hs.lockType hmgr hb hz
        · exact tbmBoMap_again hu hs.lockType hmgr hb hone
      obtain ⟨r, s', he, hr⟩ := hcall
      refine ⟨r, s', he, hr.sparing hs (hs.tallied b).map, fun hg => ?_⟩
      rw [hr.guarded hg, Tally.guarded_map (hs.tallied b) (hg b)]
      simp [State.sustains, hc, State.tally]
  | unmap o =>
    cases hc : s.boIsValid o with
    | none =>
      refine ⟨false, s, ?_, hs, fun hg => ?_⟩
      · simp [MapTurn.step, tbmBoUnmap, hc]
      · simp [State.sustains, hc, hg]
    | some b =>
      obtain ⟨rfl, hb⟩ := boIsValid_eq_some hc
      have hmgr : s.gBufMgr.isSome := by
        by_contra hn
        simp [State.boIsValid, hn] at hc
      obtain ⟨r, s', he, hr⟩ := tbmBoUnmap_retallied (x := x) hu hs.lockType hmgr hb (hs.tallied b)
      refine ⟨r, s', he, hr.sparing hs (hs.tallied b).unmap, fun hg => ?_⟩
      rw [hr.guarded hg, Tally.guarded_unmap (hs.tallied b) (hg b)]
      simp [State.sustains, hc, State.tally]

end Calls

variable {backend : Backend} {s : State} {turns : List MapTurn}

/-- With `LOCK_TRY_ONCE` every state of a run keeps what is mapped locked, just if no map fails
while there is another one and no unmap leaves another one. -/
theorem mapped_stays_locked (hk : backend.boLock = true) (hu : backend.boUnlock = true)
    (hl : s.lockType = .tryOnce) (h0 : ∀ b, s.tally b = ⟨0, 0, 0⟩) :
    ∃ log s', run (MapTurn.step backend) turns s = some (log, s') ∧
      ((∀ e ∈ log, ∀ b, 0 < (e.after.bo b).mapCnt →
          0 < (e.after.bo b).lockCnt ∧ e.after.unlocks b < e.after.locks b) ↔
        Permitted (MapTurn.step backend) (fun s t => s.sustains t) turns s) := by
  have hs : Sparing s := ⟨hl, fun b => by rw [h0 b]; exact ⟨.inl rfl, rfl⟩⟩
  have hg : ∀ b, (s.tally b).Guarded := by
    intro b
    rw [h0 b]
    exact fun h => absurd h (by decide)
  have hrun : ∃ log s', run (MapTurn.step backend) turns s = some (log, s') ∧
      ((∀ e ∈ log, ∀ b, (e.after.tally b).Guarded) ↔
        Permitted (MapTurn.step backend) (fun s t => s.sustains t) turns s) :=
    run_iff hs hg fun s t hs => step_sustains hk hu hs
  obtain ⟨log, s', hr, hiff⟩ := hrun
  refine ⟨log, s', hr, ?_⟩
  rw [← hiff]
  apply forall₂_congr
  intro e _
  apply forall_congr'
  intro b
  simp only [Tally.Guarded, State.tally, Int.sub_pos, Int.ofNat_lt]

/-- A buffer object that is not mapped yet. -/
private def unmappedBo : State :=
  { State.initial with
    gBufMgr := some 0
    refCount := 1
    boCnt := 1
    boList := [0]
    mgrs := 1
    bos := 1
    bo := Function.update State.initial.bo 0
      { refCnt := 1, flags := 0, priv := some 7, surface := none, lockCnt := 0, mapCnt := 0 } }

private theorem unmappedBo_tally (b : Bo) : unmappedBo.tally b = ⟨0, 0, 0⟩ := by
  by_cases e : b = 0
  · subst e
    rfl
  · simp [State.tally, unmappedBo, State.initial, e]

/-- A map that cannot lock, one that succeeds, and the unmap of it. -/
private def mappedInTurn : List MapTurn :=
  [⟨.map (some 0), { Answers.granted 7 with lock := false }⟩, ⟨.map (some 0), .granted 7⟩,
    ⟨.unmap (some 0), .granted 7⟩]

theorem mapped_stays_locked_in_turn : ∃ log s',
    run (MapTurn.step .plain) mappedInTurn unmappedBo = some (log, s') ∧
      ((∀ e ∈ log, ∀ b, 0 < (e.after.bo b).mapCnt →
          0 < (e.after.bo b).lockCnt ∧ e.after.unlocks b < e.after.locks b) ↔
        Permitted (MapTurn.step .plain) (fun s t => s.sustains t) mappedInTurn unmappedBo) :=
  mapped_stays_locked rfl rfl rfl unmappedBo_tally

/-- Two maps and the unmap of one of them. -/
private def nestedMaps : List MapTurn :=
  [⟨.map (some 0), .granted 7⟩, ⟨.map (some 0), .granted 7⟩, ⟨.unmap (some 0), .granted 7⟩]

/-- One map is left, without the lock. -/
theorem nested_unmap_unlocks :
    ¬∀ (backend : Backend) (s s' : State) (turns : List MapTurn)
      (log : List (Entry State MapTurn Bool)),
      backend.boLock = true → backend.boUnlock = true → s.lockType = .tryOnce →
      (∀ b, s.tally b = ⟨0, 0, 0⟩) → run (MapTurn.step backend) turns s = some (log, s') →
      (∀ e ∈ log, ∀ b ∈ e.after.boList, 0 ≤ e.after.maps b) →
      ∀ e ∈ log, ∀ b, 0 < (e.after.bo b).mapCnt →
        0 < (e.after.bo b).lockCnt ∧ e.after.unlocks b < e.after.locks b := by
  intro hall
  have hrun : ((run (MapTurn.step .plain) nestedMaps unmappedBo).map fun r =>
      (r.1.all fun e => e.after.boList.all fun b => decide (0 ≤ e.after.maps b)) &&
      r.1.any fun e => decide ((e.after.bo 0).mapCnt = 1 ∧ (e.after.bo 0).lockCnt = 0)) =
      some true := by decide +kernel
  obtain ⟨⟨log, s'⟩, hr, hw⟩ := Option.map_eq_some_iff.mp hrun
  obtain ⟨hmaps, e, he, hm, hc⟩ : (∀ e ∈ log, ∀ b ∈ e.after.boList, 0 ≤ e.after.maps b) ∧
      ∃ e ∈ log, (e.after.bo 0).mapCnt = 1 ∧ (e.after.bo 0).lockCnt = 0 := by
    simpa using hw
  have h := hall .plain unmappedBo s' nestedMaps log rfl rfl rfl unmappedBo_tally hr hmaps e he 0
    (by rw [hm]; decide)
  omega

end Tbm.Bufmgr
