import Tbm.Bufmgr.Calls
import Mathlib.Logic.Equiv.Basic

/-! The list of buffer objects: its length against `bo_cnt`, and the private pointers on it. -/
namespace Tbm.Bufmgr

open Prog Runs

section Count

variable {A : Allowed} {s s' : State} {L L' : Ledger}

/-- The counter in the width of the field. -/
def Counted (s : State) : Prop := s.boCnt = .ofNat s.boList.length

theorem Counted.link (hc : Counted s) :
    s.boCnt + 1 = UInt32.ofNat (s.bos :: s.boList).length := by
  rw [List.length_cons, UInt32.ofNat_add, ← hc]
  rfl

theorem Counted.erase (hc : Counted s) {b : Bo} (hb : b ∈ s.boList) :
    s.boCnt - 1 = UInt32.ofNat (s.boList.erase b).length := by
  have hpos : 0 < s.boList.length := List.length_pos_of_mem hb
  have hlen := List.length_erase_of_mem hb
  have hsucc : s.boList.length = (s.boList.erase b).length + 1 := by omega
  rw [hc, hsucc, UInt32.ofNat_add]
  grind

theorem Move.counted (h : Move A s L s' L') (hA : ¬A.uncounted) (hc : Counted s) : Counted s' := by
  cases h with
  | init hx =>
    unfold State.bufmgrInit at hx
    split at hx
    · obtain ⟨-, rfl⟩ := Prod.mk.inj hx
      exact hc
    · split_ifs at hx
      · obtain ⟨-, rfl⟩ := Prod.mk.inj hx
        rfl
      · simp at hx
  | teardown =>
    show s.boCnt - UInt32.ofNat s.boList.length = UInt32.ofNat 0
    rw [hc, UInt32.sub_self]
    rfl
  | boAlloc => exact hc.link
  | surfaceBoAlloc _ ha => exact absurd ha hA
  | boImport => exact hc.link
  | free hb => exact hc.erase hb
  | _ => exact hc

variable {backend : Backend} {w : World} {turns : List Turn} {log : List (Entry World Turn Reply)}

/-- As long as no `surface_bo_alloc` succeeds, `bo_cnt` counts the live buffer objects. -/
theorem bo_cnt_counts
    (hp : Permitted (World.step backend)
      (fun w t => w.inited t ∧ w.surfaceAllocates backend t = false) turns .initial)
    (hr : run (World.step backend) turns .initial = some (log, w)) :
    w.state.boCnt.toNat = w.state.boList.length % 2 ^ 32 ∧
      (w.state.boList.length < 2 ^ 32 → w.state.boCnt.toNat = w.state.boList.length) := by
  have hinit : Counted World.initial.state := rfl
  obtain ⟨o, -, hc⟩ := run_safe (fun _ w => ∃ o, Life w.state (w.ledger o) ∧ Counted w.state)
    ⟨false, life_initial, hinit⟩ (by
      rintro _ w t r w' ⟨o, hl, hc⟩ ⟨hi, ha⟩ hs
      obtain ⟨o', -, hmoves, -⟩ := step_moves (A := ⟨True, False, True⟩) hl hi (.inl trivial)
        (by simp [ha]) (.inl trivial) hs
      exact ⟨o', hmoves.keep (P := fun s _ => Counted s)
        (fun _ hm hc => hm.counted not_false hc) hl hc⟩) hp hr
  have hmod : w.state.boCnt.toNat = w.state.boList.length % 2 ^ 32 := by
    rw [hc, UInt32.toNat_ofNat']
  refine ⟨hmod, fun hlt => ?_⟩
  rw [hmod, Nat.mod_eq_of_lt hlt]

/-- A surface with a buffer of its own comes and goes, and another allocation fails. -/
private def surfaceComesAndGoes : List Turn :=
  [⟨.bufmgrInit, .granted 7⟩, ⟨.boAlloc (some 0) 16 0, .granted 7⟩,
    ⟨.surfaceCreateWithFlags 4 4 .c8 0, .granted 8⟩,
    ⟨.boAlloc (some 0) 16 0, { Answers.granted 9 with bo := fun _ => ⟨true, none⟩ }⟩,
    ⟨.surfaceDestroy (some 0), .granted 8⟩]

theorem bo_cnt_counts_plain : ∃ log w,
    run (World.step .plain) surfaceComesAndGoes .initial = some (log, w) ∧
    w.state.boList = [0] ∧ w.state.boCnt.toNat = w.state.boList.length % 2 ^ 32 ∧
    (w.state.boList.length < 2 ^ 32 → w.state.boCnt.toNat = w.state.boList.length) := by
  have hrun : ((run (World.step .plain) surfaceComesAndGoes .initial).map fun r =>
      r.2.state.boList) = some [0] := by decide +kernel
  obtain ⟨⟨log, w⟩, hr, hw⟩ := Option.map_eq_some_iff.mp hrun
  exact ⟨log, w, hr, hw, bo_cnt_counts (by decide +kernel) hr⟩

/-- With a `surface_bo_alloc` the same calls leave one buffer object and a counter of zero. -/
theorem bo_cnt_counts_surface_bo_alloc :
    ¬∀ (backend : Backend) (turns : List Turn) (log : List (Entry World Turn Reply)) (w : World),
      Permitted (World.step backend) (fun w t => w.inited t) turns .initial →
      run (World.step backend) turns .initial = some (log, w) →
      w.state.boCnt.toNat = w.state.boList.length := by
  intro hall
  let backend : Backend := { Backend.plain with surfaceBoAlloc := true }
  have hrun : ((run (World.step backend) surfaceComesAndGoes .initial).map fun r =>
      (r.2.state.boCnt.toNat, r.2.state.boList.length)) = some (0, 1) := by decide +kernel
  obtain ⟨⟨log, w⟩, hr, hw⟩ := Option.map_eq_some_iff.mp hrun
  obtain ⟨hcnt, hlen⟩ := Prod.mk.inj hw
  have heq := hall backend surfaceComesAndGoes log w (by decide +kernel) hr
  simp only at hcnt hlen
  omega

/-- Without other buffer objects the counter wraps. -/
example : ((run (World.step { Backend.plain with surfaceBoAlloc := true })
    [⟨.bufmgrInit, .granted 7⟩, ⟨.surfaceCreateWithFlags 4 4 .c8 0, .granted 8⟩,
      ⟨.surfaceDestroy (some 0), .granted 8⟩] .initial).map fun r =>
        (r.2.state.boCnt, r.2.state.boList)) = some (4294967295, []) := by decide +kernel

end Count

section Distinct

variable {A : Allowed} {s s' t : State} {L L' : Ledger}

/-- Every live buffer object has a private pointer of its own. -/
structure Distinct (s : State) : Prop where
  some : ∀ b ∈ s.boList, (s.bo b).priv.isSome
  inj : ∀ b ∈ s.boList, ∀ c ∈ s.boList, (s.bo b).priv = (s.bo c).priv → b = c

theorem Distinct.mono (hd : Distinct s) (hsub : ∀ b ∈ t.boList, b ∈ s.boList)
    (hp : ∀ b ∈ t.boList, (t.bo b).priv = (s.bo b).priv) : Distinct t := by
  constructor
  · intro b hb
    rw [hp b hb]
    exact hd.some b (hsub b hb)
  · intro b hb c hc he
    rw [hp b hb, hp c hc] at he
    exact hd.inj b (hsub b hb) c (hsub c hc) he

theorem Distinct.linkBo (hd : Distinct s) (hl : Life s L) {flags : ℤ} {p : Priv}
    (hp : ¬s.HasPriv p) : Distinct (s.linkBo flags p) := by
  have hself : ((s.linkBo flags p).bo s.bos).priv = .some p := by simp [State.linkBo]
  have hother : ∀ b ∈ s.boList, ((s.linkBo flags p).bo b).priv = (s.bo b).priv := by
    intro b hb
    have hne : b ≠ s.bos := Nat.ne_of_lt (hl.fresh b hb)
    simp [State.linkBo, hne]
  constructor
  · intro b hb
    rcases List.mem_cons.mp hb with rfl | hb
    · rw [hself]
      rfl
    · rw [hother b hb]
      exact hd.some b hb
  · intro b hb c hc he
    rcases List.mem_cons.mp hb with rfl | hb <;> rcases List.mem_cons.mp hc with rfl | hc
    · rfl
    · rw [hself, hother c hc] at he
      exact absurd ⟨c, hc, he.symm⟩ hp
    · rw [hself, hother b hb] at he
      exact absurd ⟨b, hb, he⟩ hp
    · rw [hother b hb, hother c hc] at he
      exact hd.inj b hb c hc he

theorem boSwap_priv (b c d : Bo) :
    ((s.boSwap b c).bo d).priv = (s.bo (Equiv.swap b c d)).priv := by
  rw [Equiv.swap_apply_def]
  by_cases hc : d = c
  · subst hc
    by_cases hb : d = b
    · subst hb
      simp [State.boSwap, State.setPriv, State.setBo]
    · simp [State.boSwap, State.setPriv, State.setBo, hb]
  · by_cases hb : d = b
    · subst hb
      simp [State.boSwap, State.setPriv, State.setBo, hc]
    · simp [State.boSwap, State.setPriv, State.setBo, hc, hb]

theorem Distinct.swap (hd : Distinct s) {b c : Bo} (hb : b ∈ s.boList) (hc : c ∈ s.boList) :
    Distinct (s.boSwap b c) := by
  have hmem : ∀ d ∈ s.boList, Equiv.swap b c d ∈ s.boList := by
    intro d hin
    rw [Equiv.swap_apply_def]
    split_ifs
    · exact hc
    · exact hb
    · exact hin
  constructor
  · intro d hin
    rw [boSwap_priv]
    exact hd.some _ (hmem d hin)
  · intro d hin e hin' he
    rw [boSwap_priv, boSwap_priv] at he
    exact (Equiv.swap b c).injective (hd.inj _ (hmem d hin) _ (hmem e hin') he)

/-- The observer only falls, and while it stands the pointers stay distinct. -/
theorem Move.distinct (h : Move A s L s' L') (hl : Life s L) (hf : s'.freshAllocs = true) :
    s.freshAllocs = true ∧ (Distinct s → Distinct s') := by
  cases h with
  | init hx =>
    unfold State.bufmgrInit at hx
    split at hx
    · obtain ⟨-, rfl⟩ := Prod.mk.inj hx
      exact ⟨hf, fun hd => { hd with }⟩
    · split_ifs at hx
      · obtain ⟨-, rfl⟩ := Prod.mk.inj hx
        exact ⟨hf, fun _ => ⟨by simp, by simp⟩⟩
      · simp at hx
  | teardown => exact ⟨hf, fun _ => ⟨by simp, by simp⟩⟩
  | boAlloc =>
    obtain ⟨hs, hp⟩ : s.freshAllocs = true ∧ ¬s.HasPriv _ := by simpa [State.boAlloc] using hf
    exact ⟨hs, fun hd => { hd.linkBo hl hp with }⟩
  | surfaceBoAlloc =>
    obtain ⟨hs, hp⟩ : s.freshAllocs = true ∧ ¬s.HasPriv _ := by
      simpa [State.surfaceBoAlloc] using hf
    exact ⟨hs, fun hd => { hd.linkBo hl hp with }⟩
  | boImport _ hp => exact ⟨hf, fun hd => { hd.linkBo hl hp with }⟩
  | @ref _ b =>
    refine ⟨hf, fun hd => hd.mono (fun _ => id) fun c _ => ?_⟩
    by_cases e : c = b <;> simp [State.setRefCnt, State.setBo, e]
  | @unref _ b =>
    refine ⟨hf, fun hd => hd.mono (fun _ => id) fun c _ => ?_⟩
    by_cases e : c = b <;> simp [State.setRefCnt, State.setBo, e]
  | @free _ b _ _ _ _ _ hbo =>
    refine ⟨hf, fun hd => hd.mono (fun c => List.mem_of_mem_erase) fun c hc => ?_⟩
    rw [← hbo c (hl.nodup.mem_erase_iff.mp hc).1]
  | swap hb hc => exact ⟨hf, fun hd => hd.swap hb hc⟩
  | @setBoSurface _ b =>
    refine ⟨hf, fun hd => hd.mono (fun _ => id) fun c _ => ?_⟩
    by_cases e : c = b <;> simp [State.setBoSurface, State.setBo, e]
  | _ => exact ⟨hf, fun hd => { hd with }⟩

variable {backend : Backend} {x : Answers} {p : Priv}

/-- An import that was given the pointer `p`: a live buffer object that has it gets one more
reference, else there is one more buffer object. -/
structure Imported (s s' : State) (p : Priv) (r : Option Bo) : Prop where
  live : ∀ b ∈ s.boList, (s.bo b).priv = some p → r = some b ∧
    (s'.bo b).refCnt = (s.bo b).refCnt + 1 ∧ s'.boList = s.boList ∧ s'.boCnt = s.boCnt
  new : ¬s.HasPriv p → ∃ b ∉ s.boList, r = some b ∧ s'.boList = b :: s.boList ∧
    (s'.bo b).refCnt = 1

theorem boImport_imported (hl : Life s L) (hd : Distinct s) (flags : ℤ) (n : UInt32)
    {r : Option Bo} (he : (r, s') = State.boImport { s with lastChkBoCnt := n } flags p) :
    Imported s s' p r := by
  unfold State.boImport at he
  split at he
  next b hb =>
    obtain ⟨rfl, rfl⟩ := Prod.mk.inj he
    have hin : b ∈ s.boList := List.mem_of_find?_eq_some hb
    have hpb : (s.bo b).priv = some p := by simpa using List.find?_some hb
    refine ⟨fun c hc hpc => ?_, fun hnot => absurd ⟨b, hin, hpb⟩ hnot⟩
    obtain rfl : b = c := hd.inj b hin c hc (by rw [hpb, hpc])
    exact ⟨rfl, by simp [State.setRefCnt, State.setBo], rfl, rfl⟩
  next hb =>
    obtain ⟨rfl, rfl⟩ := Prod.mk.inj he
    refine ⟨fun c hc hpc => ?_, fun _ => ⟨s.bos, ?_, rfl, rfl, ?_⟩⟩
    · exact absurd (decide_eq_true hpc) (List.find?_eq_none.mp hb c hc)
    · exact fun hin => Nat.lt_irrefl _ (hl.fresh _ hin)
    · simp [State.linkBo]

theorem boImport_spec (hl : Life s L) (hd : Distinct s) {provided : Bool} {m : Option Mgr}
    {r : Option Bo} (he : exec x (boImport backend provided m) s = some (r, s')) :
    (∀ p, importedPriv x s provided m = some p → Imported s s' p r) ∧
      (r.isSome → (importedPriv x s provided m).isSome) := by
  obtain ⟨n, hn⟩ := boImport_exec he
  constructor
  · intro p hp
    rw [hp] at hn
    exact boImport_imported hl hd _ n hn.2
  · intro hr
    by_contra hnone
    rw [Option.not_isSome_iff_eq_none.mp hnone] at hn
    simp [hn.1] at hr

/-- The pointer the backend returns to the call, if it is an import. -/
def World.imported (backend : Backend) (w : World) (t : Turn) : Option Priv :=
  match t.op with
  | .boImport m => importedPriv t.answers w.state backend.boImport m
  | .boImportFd m => importedPriv t.answers w.state backend.boImportFd m
  | _ => none

/-- What a call has done if it was an import. -/
structure Imports (backend : Backend) (e : Entry World Turn Reply) : Prop where
  imported : ∀ p, e.before.imported backend e.call = some p →
    ∃ r, e.reply = .bo r ∧ Imported e.before.state e.after.state p r
  /-- A successful import has got a pointer. -/
  succeeded : ∀ m b, e.call.op = .boImport m ∨ e.call.op = .boImportFd m →
    e.reply = .bo (some b) → (e.before.imported backend e.call).isSome

variable {w w' : World} {u : Turn} {r : Reply} {o : Bool}

theorem step_imports (hl : Life w.state (w.ledger o)) (hd : Distinct w.state)
    (hs : w.step backend u = some (r, w')) : Imports backend ⟨w, u, r, w'⟩ := by
  obtain ⟨op, x⟩ := u
  obtain ⟨⟨r', s⟩, he, hw⟩ := Option.bind_eq_some_iff.mp hs
  obtain ⟨rfl, rfl⟩ : r' = r ∧ w.settle op r' s = w' := by simpa using hw
  cases op with
  | boImport m =>
    obtain ⟨v, hx, rfl⟩ := exec_return he
    obtain ⟨himp, hsome⟩ := boImport_spec hl hd hx
    refine ⟨fun p hp => ⟨v, rfl, himp p hp⟩, fun _ b _ hr => hsome ?_⟩
    simp [Reply.bo.inj hr]
  | boImportFd m =>
    obtain ⟨v, hx, rfl⟩ := exec_return he
    obtain ⟨himp, hsome⟩ := boImport_spec hl hd hx
    refine ⟨fun p hp => ⟨v, rfl, himp p hp⟩, fun _ b _ hr => hsome ?_⟩
    simp [Reply.bo.inj hr]
  | _ => exact ⟨by simp [World.imported], by simp⟩

/-- Where allocations return pointers no live buffer object has, no two live buffer objects have
the same one, and an import finds the one that has it. -/
theorem one_bo_per_buffer {turns : List Turn} {log : List (Entry World Turn Reply)}
    (hp : Permitted (World.step backend) (fun w t => w.inited t) turns .initial)
    (hr : run (World.step backend) turns .initial = some (log, w))
    (hf : w.state.freshAllocs = true) :
    (∀ b ∈ w.state.boList, ∀ c ∈ w.state.boList,
      (w.state.bo b).priv = (w.state.bo c).priv → b = c) ∧
    ∀ e ∈ log, Imports backend e := by
  obtain ⟨-, hrun⟩ := run_safe (fun log w => (∃ o, Life w.state (w.ledger o)) ∧
      (w.state.freshAllocs = true → Distinct w.state ∧ ∀ e ∈ log, Imports backend e))
    ⟨⟨false, life_initial⟩, fun _ => ⟨⟨by simp [World.initial, State.initial],
      by simp [World.initial, State.initial]⟩, by simp⟩⟩ (by
      rintro log w t r w' ⟨⟨o, hl⟩, ih⟩ hi hs
      obtain ⟨o', -, hmoves, -⟩ := step_moves (A := ⟨True, True, True⟩) hl hi (.inl trivial)
        (fun _ => trivial) (.inl trivial) hs
      obtain ⟨hl', hback⟩ := hmoves.keep
        (P := fun s _ => s.freshAllocs = true →
          w.state.freshAllocs = true ∧ (Distinct w.state → Distinct s))
        (fun hl hm hP hf => by
          obtain ⟨hf', hd⟩ := hm.distinct hl hf
          exact ⟨(hP hf').1, fun h => hd ((hP hf').2 h)⟩) hl (fun h => ⟨h, id⟩)
      refine ⟨⟨o', hl'⟩, fun hf => ?_⟩
      obtain ⟨hf', hd⟩ := hback hf
      obtain ⟨hdw, hlog⟩ := ih hf'
      refine ⟨hd hdw, fun e he => ?_⟩
      rw [List.mem_append, List.mem_singleton] at he
      rcases he with he | rfl
      · exact hlog e he
      · exact step_imports hl hdw hs) hp hr
  obtain ⟨hd, hlog⟩ := hrun hf
  exact ⟨hd.inj, hlog⟩

/-- Two buffers trade places; both are imported again, then one that is gone. -/
private def imports : List Turn :=
  [⟨.bufmgrInit, .granted 7⟩, ⟨.boAlloc (some 0) 16 0, .granted 7⟩,
    ⟨.boImport (some 0), .granted 8⟩, ⟨.boSwap (some 0) (some 1), .granted 7⟩,
    ⟨.boImportFd (some 0), .granted 7⟩, ⟨.boUnref (some 0), .granted 7⟩,
    ⟨.boImport (some 0), .granted 8⟩]

theorem one_bo_per_buffer_imports : ∃ log w,
    run (World.step .plain) imports .initial = some (log, w) ∧
    w.state.boList = [2, 1] ∧ (w.state.bo 1).refCnt = 2 ∧
    (∀ b ∈ w.state.boList, ∀ c ∈ w.state.boList,
      (w.state.bo b).priv = (w.state.bo c).priv → b = c) ∧
    ∀ e ∈ log, Imports .plain e := by
  have hrun : ((run (World.step .plain) imports .initial).map fun r =>
      (r.2.state.boList, (r.2.state.bo 1).refCnt, r.2.state.freshAllocs)) =
        some ([2, 1], 2, true) := by decide +kernel
  obtain ⟨⟨log, w⟩, hr, hw⟩ := Option.map_eq_some_iff.mp hrun
  obtain ⟨hlist, href, hf⟩ : w.state.boList = [2, 1] ∧ (w.state.bo 1).refCnt = 2 ∧
      w.state.freshAllocs = true := by simpa using hw
  exact ⟨log, w, hr, hlist, href, one_bo_per_buffer (by decide +kernel) hr hf⟩

end Distinct

end Tbm.Bufmgr
