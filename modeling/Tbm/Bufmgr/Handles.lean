import Tbm.Bufmgr.Accounts

/-! When a buffer object leaves the list, and what the slots of a linked surface hold. -/
namespace Tbm.Bufmgr

open Prog Runs

section Settled

variable {A : Allowed} {s s' : State} {L L' : Ledger} {m : Mgr}

/-- Nobody outside the data refers to a buffer object that is gone. -/
def Settled (s : State) (L : Ledger) : Prop := ∀ b, b ∉ s.boList → L.bos b = 0

/-- The same as long as the manager `m` is the one in use. -/
def SettledUnder (m : Mgr) (s : State) (L : Ledger) : Prop :=
  m < s.mgrs ∧ (s.gBufMgr = some m → Settled s L)

theorem Settled.gain (hs : Settled s L) {b : Bo} (hb : b ∈ s.boList) : Settled s (L.gain b) := by
  intro c hc
  have hne : c ≠ b := fun e => hc (e ▸ hb)
  simpa [Ledger.gain, hne] using hs c hc

theorem Settled.lose (hs : Settled s L) (b : Bo) : Settled s (L.lose b) := by
  intro c hc
  have h0 := hs c hc
  by_cases e : c = b
  · subst e
    simp [Ledger.lose, h0]
  · simpa [Ledger.lose, e] using h0

theorem Settled.link (hs : Settled s L) :
    ∀ c, c ∉ s.bos :: s.boList → (L.gain s.bos).bos c = 0 := by
  intro c hc
  rw [List.mem_cons, not_or] at hc
  simpa [Ledger.gain, hc.1] using hs c hc.2

/-- The last reference was the one in the ledger. -/
theorem Settled.free (hs : Settled s L) (hb : Books s L) {b : Bo} (hin : b ∈ s.boList)
    (h1 : (s.bo b).refCnt = 1) : ∀ c, c ∉ s.boList.erase b → (L.lose b).bos c = 0 := by
  intro c hc
  by_cases e : c = b
  · subst e
    have hr := hb.refs c hin
    rw [h1] at hr
    simp only [owners] at hr
    simp only [Ledger.lose, Function.update_self]
    omega
  · have hout : c ∉ s.boList := fun h => hc ((List.mem_erase_of_ne e).mpr h)
    simpa [Ledger.lose, e] using hs c hout

theorem SettledUnder.init (hs : SettledUnder m s L) {x : Answers} {n : Mgr}
    (h : s.bufmgrInit x = (some n, s')) : SettledUnder m s' { L with mgrs := n :: L.mgrs } := by
  unfold State.bufmgrInit at h
  split at h
  · obtain ⟨-, rfl⟩ := Prod.mk.inj h
    exact hs
  · split_ifs at h
    · obtain ⟨-, rfl⟩ := Prod.mk.inj h
      refine ⟨Nat.lt_succ_of_lt hs.1, fun hg => ?_⟩
      -- The number of the new manager has not been used before.
      have : s.mgrs = m := Option.some.inj hg
      exact absurd hs.1 (Nat.not_lt.mpr (Nat.le_of_eq this))
    · simp at h

theorem Move.settledUnder (h : Move A s L s' L') (hl : Life s L) (hb : Books s L)
    (hs : SettledUnder m s L) :
    SettledUnder m s' L' := by
  cases h with
  | init hx => exact hs.init hx
  | teardown => exact ⟨hs.1, fun hg => by simp at hg⟩
  | boAlloc => exact ⟨hs.1, fun hg => (hs.2 hg).link⟩
  | surfaceBoAlloc => exact ⟨hs.1, fun hg => (hs.2 hg).link⟩
  | boImport => exact ⟨hs.1, fun hg => (hs.2 hg).link⟩
  | ref hin => exact ⟨hs.1, fun hg => (hs.2 hg).gain hin⟩
  | unref => exact ⟨hs.1, fun hg => (hs.2 hg).lose _⟩
  | free hin h1 => exact ⟨hs.1, fun hg => (hs.2 hg).free hb hin h1⟩
  | forget => exact ⟨hs.1, fun hg => (hs.2 hg).lose _⟩
  | fill => exact ⟨hs.1, fun hg => (hs.2 hg).lose _⟩
  | @unfill _ k l b hm =>
    have hin : b ∈ s.boList := hb.filled b (by simp [Ledger.filled, hm])
    exact ⟨hs.1, fun hg => (hs.2 hg).gain hin⟩
  | @takeSlot _ k i n b hd hi hslot =>
    obtain ⟨hk, hn, -, -⟩ := hl.dying k i n hd
    have hi' : i < (s.surface k).numBos.toNat := by omega
    have hin : b ∈ s.boList := hb.slot hk hi' hslot
    exact ⟨hs.1, fun hg => (hs.2 hg).gain hin⟩
  | _ => exact hs

end Settled

section Runs

variable {A : Allowed} {s s' : State} {L L' : Ledger}

theorem Move.bos_le (h : Move A s L s' L') : s.bos ≤ s'.bos := by
  cases h with
  | init hx =>
    unfold State.bufmgrInit at hx
    split at hx
    · obtain ⟨-, rfl⟩ := Prod.mk.inj hx
      exact Nat.le_refl _
    · split_ifs at hx
      · obtain ⟨-, rfl⟩ := Prod.mk.inj hx
        exact Nat.le_refl _
      · simp at hx
  | boAlloc => exact Nat.le_succ _
  | surfaceBoAlloc => exact Nat.le_succ _
  | boImport => exact Nat.le_succ _
  | _ => exact Nat.le_refl _

/-- Between two calls: the life of the manager, the accounts, and no reference on what is gone. -/
structure Ordered (w : World) (o : Bool) : Prop where
  life : Life w.state (w.ledger o)
  books : Books w.state (w.ledger o)
  settled : Settled w.state (w.ledger o)

/-- What a call has done to a buffer object that was live before it. -/
structure Leaves (w w' : World) (b : Bo) : Prop where
  last : b ∉ w'.state.boList ↔ w'.held b + w'.state.slots b = 0
  before : w.state.frees.count b = 0
  after : w'.state.frees.count b = if b ∈ w'.state.boList then 0 else 1

variable {backend : Backend} {w w' : World} {t : Turn} {r : Reply} {o : Bool} {b : Bo}

theorem World.owners_eq (w : World) (o : Bool) (b : Bo) :
    owners w.state (w.ledger o) b = w.held b + w.state.slots b := by
  simp [owners, World.ledger, Ledger.filled]

theorem ordered_initial : Ordered World.initial false := by
  refine ⟨life_initial, ?_, fun _ _ => rfl⟩
  constructor <;> simp [World.initial, World.ledger, State.initial, Ledger.filled]

theorem Ordered.leaves (h : Ordered w o) {o' : Bool} (h' : Ordered w' o')
    (hle : w.state.bos ≤ w'.state.bos) (hb : b ∈ w.state.boList) : Leaves w w' b := by
  have hlt : b < w'.state.bos := Nat.lt_of_lt_of_le (h.life.fresh b hb) hle
  refine ⟨⟨fun hout => ?_, fun hz hin => ?_⟩, ?_, ?_⟩
  · have h0 := h'.settled b hout
    have hs := (h'.books.absent hout).1
    have h0' : w'.held b = 0 := h0
    omega
  · have hpos := h'.books.owned b hin
    rw [World.owners_eq] at hpos
    omega
  · rw [h.books.freed b]
    simp [hb]
  · rw [h'.books.freed b]
    by_cases hin : b ∈ w'.state.boList
    · simp [hin]
    · simp [hin, hlt]

theorem Ordered.step (h : Ordered w o) (hi : w.inited t = true) (ho : w.owns t = true)
    (hs : w.step backend t = some (r, w'))
    (hm : w.state.gBufMgr.isSome → w'.state.gBufMgr = w.state.gBufMgr) :
    (∃ o', Ordered w' o') ∧ ∀ b ∈ w.state.boList, Leaves w w' b := by
  let A : Allowed := ⟨False, True, True⟩
  obtain ⟨o', -, hmoves, hgained⟩ := step_moves (A := A) h.life hi (.inr ho) (fun _ => trivial)
    (.inl trivial) hs
  obtain ⟨hl', hb', hle⟩ := hmoves.keep (P := fun s L => Books s L ∧ w.state.bos ≤ s.bos)
    (fun hl hmv hP => ⟨hmv.books hl not_false hP.1, Nat.le_trans hP.2 hmv.bos_le⟩) h.life
    ⟨h.books, Nat.le_refl _⟩
  have hsettled : Settled w'.state (w'.ledger o') := by
    cases hg : w.state.gBufMgr with
    | none =>
      -- Nobody referred to anything, so a reference is one the call has returned.
      have hnil := h.life.bos hg
      intro b hout
      by_contra hne
      rcases hgained b (Nat.pos_of_ne_zero hne) with hpos | hin
      · have h0 : w.held b = 0 := h.settled b (by simp [hnil])
        omega
      · exact hout hin
    | some m =>
      have hg' : w'.state.gBufMgr = some m := by rw [hm (by simp [hg]), hg]
      have hunder := (hmoves.keep (P := fun s L => Books s L ∧ SettledUnder m s L)
        (fun hl hmv hP => ⟨hmv.books hl not_false hP.1, hmv.settledUnder hl hP.1 hP.2⟩) h.life
        ⟨h.books, h.life.loaded m hg, fun _ => h.settled⟩).2.2
      exact hunder.2 hg'
  have h' : Ordered w' o' := ⟨hl', hb', hsettled⟩
  exact ⟨⟨o', h'⟩, fun b hb => h.leaves h' hle hb⟩

/-- While the manager stays, the reference count of every live buffer object is the number of
handles the clients own plus the number of slots that hold it, and the backend frees it once, when
this number has become zero. -/
theorem bo_references_accounted {turns : List Turn} {log : List (Entry World Turn Reply)}
    (hp : Permitted (World.step backend) (fun w t => w.inited t ∧ w.owns t) turns .initial)
    (hr : run (World.step backend) turns .initial = some (log, w))
    (hm : ∀ e ∈ log, e.before.state.gBufMgr.isSome →
      e.after.state.gBufMgr = e.before.state.gBufMgr) :
    (∀ b ∈ w.state.boList, (w.state.bo b).refCnt = w.held b + w.state.slots b ∧
      0 < w.held b + w.state.slots b) ∧
    ∀ e ∈ log, ∀ b ∈ e.before.state.boList, Leaves e.before e.after b := by
  obtain ⟨⟨o, ho⟩, hlog⟩ := run_safe (fun log w => (∀ e ∈ log, e.before.state.gBufMgr.isSome →
      e.after.state.gBufMgr = e.before.state.gBufMgr) → (∃ o, Ordered w o) ∧
      ∀ e ∈ log, ∀ b ∈ e.before.state.boList, Leaves e.before e.after b)
    (fun _ => ⟨⟨false, ordered_initial⟩, by simp⟩) (by
      intro log w t r w' ih hok hs hm
      obtain ⟨⟨o, ho⟩, hlog⟩ := ih fun e he => hm e (List.mem_append_left _ he)
      obtain ⟨hw', hleaves⟩ := ho.step hok.1 hok.2 hs (hm ⟨w, t, r, w'⟩ (by simp))
      refine ⟨hw', fun e he => ?_⟩
      rw [List.mem_append, List.mem_singleton] at he
      rcases he with he | rfl
      · exact hlog e he
      · exact hleaves) hp hr hm
  refine ⟨fun b hb => ?_, hlog⟩
  have href := ho.books.refs b hb
  have hpos := ho.books.owned b hb
  rw [World.owners_eq] at href hpos
  exact ⟨by exact_mod_cast href, hpos⟩

/-- A buffer object that is imported again and put into a surface outlives its handles, and goes
with the surface. -/
private def shared : List Turn :=
  [⟨.bufmgrInit, .granted 7⟩, ⟨.boAlloc (some 0) 16 0, .granted 7⟩,
    ⟨.boImport (some 0), .granted 7⟩,
    ⟨.surfaceCreateWithBos (some .small) (some fun _ => some 0) 1, .granted 7⟩,
    ⟨.boUnref (some 0), .granted 7⟩, ⟨.boUnref (some 0), .granted 7⟩,
    ⟨.surfaceRef (some 0), .granted 7⟩, ⟨.surfaceUnref (some 0), .granted 7⟩,
    ⟨.surfaceDestroy (some 0), .granted 7⟩]

theorem bo_references_accounted_shared : ∃ log w,
    run (World.step .plain) shared .initial = some (log, w) ∧ w.state.frees = [0] ∧
    (∀ b ∈ w.state.boList, (w.state.bo b).refCnt = w.held b + w.state.slots b ∧
      0 < w.held b + w.state.slots b) ∧
    ∀ e ∈ log, ∀ b ∈ e.before.state.boList, Leaves e.before e.after b := by
  have hrun : ((run (World.step .plain) shared .initial).map fun r =>
      (r.2.state.frees, r.1.all fun e => e.before.state.gBufMgr.isNone ||
        decide (e.after.state.gBufMgr = e.before.state.gBufMgr))) = some ([0], true) := by
    decide +kernel
  obtain ⟨⟨log, w⟩, hr, hw⟩ := Option.map_eq_some_iff.mp hrun
  obtain ⟨hfrees, hall⟩ := Prod.mk.inj hw
  have hm : ∀ e ∈ log, e.before.state.gBufMgr.isSome →
      e.after.state.gBufMgr = e.before.state.gBufMgr := by
    intro e he hs
    have := List.all_eq_true.mp hall e he
    simpa [Option.isSome_iff_ne_none.mp hs] using this
  exact ⟨log, w, hr, hfrees, bo_references_accounted (by decide +kernel) hr hm⟩

end Runs

section Full

variable {A : Allowed} {s s' : State} {L L' : Ledger}

/-- The slots of the linked surfaces are filled, less those that the call has emptied. -/
def Full (s : State) (L : Ledger) : Prop :=
  ∀ h ∈ s.surfList, (s.surface h).numBos.toNat ≤ 4 ∧ ∀ j < (s.surface h).numBos.toNat,
    (∀ i n, L.dying = some (h, i, n) → i ≤ j) → ((s.surface h).bos j).isSome

theorem slotTable_isSome {l : List (Option Bo)} (hl : none ∉ l) {j : ℕ} (hj : j < l.length) :
    (slotTable l j).isSome := by
  have hget : l[j]? = some l[j] := List.getElem?_eq_getElem hj
  have hne : l[j] ≠ none := fun e => hl (e ▸ List.getElem_mem hj)
  simpa [slotTable, hget, Option.isSome_iff_ne_none] using hne

theorem Full.linkSurface (hf : Full s L) {h : Surface} {l : List (Option Bo)} {v : SurfaceData}
    (hnew : h ∉ s.surfList) (hn : v.numBos.toNat = l.length) (h4 : l.length ≤ 4)
    (hb : v.bos = slotTable l) (hl : none ∉ l) :
    Full (s.linkSurface h v) { L with making := none, owed := false } := by
  intro k hk
  rcases List.mem_cons.mp hk with rfl | hk
  · have hself : (s.linkSurface k v).surface k = v := by simp [State.linkSurface, State.setSurface]
    rw [hself, hn, hb]
    exact ⟨h4, fun j hj _ => slotTable_isSome hl hj⟩
  · have hne : k ≠ h := fun e => hnew (e ▸ hk)
    have hoff : (s.linkSurface h v).surface k = s.surface k := by
      simp [State.linkSurface, State.setSurface, hne]
    rw [hoff]
    exact hf k hk

theorem Full.takeSlot (hf : Full s L) {h : Surface} {i n : ℕ} (hd : L.dying = some (h, i, n))
    (b : Bo) : Full (s.setSlot h i none) { L.gain b with dying := some (h, i + 1, n) } := by
  intro k hk
  obtain ⟨h4, hslots⟩ := hf k hk
  by_cases e : k = h
  · subst e
    have hnum : ((s.setSlot k i none).surface k).numBos = (s.surface k).numBos := by
      simp [State.setSlot, State.setSurface]
    rw [hnum]
    refine ⟨h4, fun j hj hij => ?_⟩
    have hlt : i + 1 ≤ j := hij (i + 1) n rfl
    have hne : j ≠ i := by omega
    have hslot : ((s.setSlot k i none).surface k).bos j = (s.surface k).bos j := by
      simp [State.setSlot, State.setSurface, hne]
    rw [hslot]
    apply hslots j hj
    intro i' n' hd'
    rw [hd] at hd'
    obtain ⟨rfl, -⟩ : i = i' ∧ n = n' := by simpa using hd'
    omega
  · have hoff : (s.setSlot h i none).surface k = s.surface k := by
      simp [State.setSlot, State.setSurface, e]
    rw [hoff]
    refine ⟨h4, fun j hj _ => hslots j hj fun i' n' hd' => ?_⟩
    rw [hd] at hd'
    exact absurd (by simpa using hd' : h = k ∧ _).1.symm e

theorem Move.full (h : Move A s L s' L') (hl : Life s L) (hA : ¬A.gaps) (hf : Full s L) :
    Full s' L' := by
  cases h with
  | init hx =>
    unfold State.bufmgrInit at hx
    split at hx
    · obtain ⟨-, rfl⟩ := Prod.mk.inj hx
      exact hf
    · split_ifs at hx
      · obtain ⟨-, rfl⟩ := Prod.mk.inj hx
        exact fun k hk => absurd hk List.not_mem_nil
      · simp at hx
  | openSurface => exact fun k hk => absurd hk List.not_mem_nil
  | linkSurface hm hv hn h4 ht ha =>
    exact hf.linkSurface (hl.making _ _ hm).2.1 hn h4 ht (ha.resolve_left hA)
  | @condemn _ h hh hd =>
    intro k hk
    refine ⟨(hf k hk).1, fun j hj _ => (hf k hk).2 j hj fun i n hd' => ?_⟩
    rw [hd] at hd'
    simp at hd'
  | takeSlot hd => exact hf.takeSlot hd _
  | @unlinkSurface _ h n hd =>
    intro k hk
    have hne : k ≠ h := (hl.surfNodup.mem_erase_iff.mp hk).1
    have hk' := hf k (List.mem_of_mem_erase hk)
    refine ⟨hk'.1, fun j hj _ => hk'.2 j hj fun i n' hd' => ?_⟩
    rw [hd] at hd'
    exact absurd (by simpa using hd' : h = k ∧ _).1.symm hne
  | @setSurfaceRefcnt _ h n =>
    intro k hk
    have hoff : ((s.setSurfaceRefcnt h n).surface k).numBos = (s.surface k).numBos ∧
        ((s.setSurfaceRefcnt h n).surface k).bos = (s.surface k).bos := by
      by_cases e : k = h
      · subst e
        simp [State.setSurfaceRefcnt, State.setSurface]
      · simp [State.setSurfaceRefcnt, State.setSurface, e]
    rw [hoff.1, hoff.2]
    exact hf k hk
  | _ => exact hf

variable {backend : Backend} {x : Answers} {h : Surface}

theorem Full.slotBo (hf : Full s L) (hb : Books s L) (hd : L.dying = none) {i : ℕ}
    (hh : h ∈ s.surfList) (hi : i < (s.surface h).numBos.toNat) :
    ∃ b, (s.surface h).bos i = some b ∧ s.slotBo h i = some b := by
  obtain ⟨h4, hslots⟩ := hf h hh
  obtain ⟨b, hbos⟩ := Option.isSome_iff_exists.mp (hslots i hi (by simp [hd]))
  exact ⟨b, hbos, slotBo_eq_some.mpr ⟨by omega, hbos, hb.slot hh hi hbos⟩⟩

/-- The loop over the slots finds a live buffer object in each. -/
theorem destroySlots_defined {n i : ℕ} (hl : Life s L) (hb : Books s L) (hf : Full s L)
    (hd : L.dying = some (h, i, i + n)) :
    ∃ t, exec x (destroySlots backend h n i) s = some ((), t) := by
  induction n generalizing i s L with
  | zero => exact ⟨s, rfl⟩
  | succ n ih =>
    obtain ⟨hh, hnum, -, -⟩ := hl.dying h i _ hd
    have hi : i < (s.surface h).numBos.toNat := by omega
    obtain ⟨h4, hslots⟩ := hf h hh
    obtain ⟨b, hbos⟩ := Option.isSome_iff_exists.mp (hslots i hi (by
      intro i' n' hd'
      rw [hd] at hd'
      obtain ⟨rfl, -⟩ : i = i' ∧ i + (n + 1) = n' := by simpa using hd'
      exact Nat.le_refl i))
    have hslot : s.slotBo h i = some b :=
      slotBo_eq_some.mpr ⟨by omega, hbos, hb.slot hh hi hbos⟩
    have hmoves : Moves ⟨False, True, False⟩ s L (destroyedSlot backend s h i b)
        { L with dying := some (h, i + 1, i + 1 + n) } := by
      rw [show i + (n + 1) = i + 1 + n by omega] at hd
      exact destroyedSlot_moves hd (by omega) hslot
    obtain ⟨hl', hb', hf'⟩ := hmoves.keep (P := fun s L => Books s L ∧ Full s L)
      (fun hl hm hP => ⟨hm.books hl not_false hP.1, hm.full hl not_false hP.2⟩) hl ⟨hb, hf⟩
    rw [destroySlots_succ hl hslot]
    exact ih hl' hb' hf' rfl

theorem deinitSurfaceBufmgr_defined (hl : Life s L) (ho : L.owed = true) :
    ∃ t, exec x (deinitSurfaceBufmgr (tbmBufmgrDeinit backend)) s = some ((), t) := by
  obtain ⟨hsome, hn⟩ := hl.owed.mp ho
  obtain ⟨m, hs⟩ := Option.isSome_iff_exists.mp hsome
  have hg : s.gBufMgr = some m := by
    rw [← hl.surface.resolve_left (by simp [hs]), hs]
  simp only [deinitSurfaceBufmgr, exec_bind, exec_read, Option.bind_some, hs]
  rcases tbmBufmgrDeinit_exec backend x hg hl.nodup (fun _ => hn) with ⟨-, he⟩ | ⟨-, bo, u, he⟩
  · exact ⟨_, by rw [he, Option.bind_some, exec_modify]⟩
  · exact ⟨_, by rw [he, Option.bind_some, exec_modify]⟩

theorem surfaceInternalDestroy_defined (hl : Life s L) (hb : Books s L) (hf : Full s L)
    (hh : h ∈ s.surfList) (hd : L.dying = none) :
    ∃ t, exec x (surfaceInternalDestroy backend (tbmBufmgrDeinit backend) h) s = some ((), t) := by
  have hcondemn : Move ⟨False, True, False⟩ s L s
      { L with dying := some (h, 0, 0 + (s.surface h).numBos.toNat) } := by
    rw [Nat.zero_add]
    exact .condemn hh hd
  have hl1 := hcondemn.life hl
  obtain ⟨t, ht⟩ : ∃ t, exec x (destroySlots backend h (s.surface h).numBos.toNat 0) s =
      some ((), t) :=
    destroySlots_defined hl1 (hcondemn.books hl not_false hb) (hcondemn.full hl not_false hf) rfl
  have hl2 := (destroySlots_moves (A := ⟨False, True, False⟩) hl1 rfl ht).life hl1
  have hh2 : h ∈ t.surfList := (hl2.dying h _ _ rfl).1
  have hsb : t.surfaceBufmgr ≠ none := fun hn => by simp [hl2.surfs hn] at hh2
  have hderef : t.deref (t.surface h).bufmgr = some () := by
    have hg := hl2.surface.resolve_left hsb
    have hlinked : (t.surface h).bufmgr = t.surfaceBufmgr := by rw [hl2.linked h hh2, hg]
    simp [State.deref, hlinked, ← hg, Option.isSome_iff_ne_none, hsb]
  have hl3 := (Move.unlinkSurface (A := ⟨False, True, False⟩) (s := t) rfl).life hl2
  simp only [surfaceInternalDestroy, exec_bind, exec_read, Option.bind_some, ht, exec_access,
    hderef, Option.bind_eq_bind]
  by_cases hlast : (t.surfList.erase h).isEmpty = true
  · rw [hlast] at hl3 ⊢
    simp only [if_true]
    exact deinitSurfaceBufmgr_defined hl3 rfl
  · simp only [hlast]
    exact ⟨_, rfl⟩

theorem dropSurface_defined (hl : Life s L) (hb : Books s L) (hf : Full s L)
    (hd : L.dying = none) (k : Option Surface) :
    ∃ t, exec x (dropSurface backend (tbmBufmgrDeinit backend) k) s = some ((), t) := by
  obtain ⟨v, hv, hmem⟩ := hl.surfaceIsValid k
  simp only [dropSurface, exec_locked, exec_bind, exec_access, hv, Option.map_some,
    Option.bind_some]
  cases v with
  | none => exact ⟨s, rfl⟩
  | some h =>
    have hh := (hmem h rfl).2
    have hset : Move ⟨False, True, False⟩ s L
        (s.setSurfaceRefcnt h ((s.surface h).refcnt - 1)) L := .setSurfaceRefcnt
    simp only [exec_bind, exec_read, Option.bind_some, exec_modify]
    split_ifs with h0
    · exact surfaceInternalDestroy_defined (hset.life hl) (hset.books hl not_false hb)
        (hset.full hl not_false hf) hh hd
    · exact ⟨_, rfl⟩

variable {w : World} {turns : List Turn} {log : List (Entry World Turn Reply)}

private theorem run_full
    (hp : Permitted (World.step backend) (fun w t => w.inited t ∧ w.owns t ∧ w.gapless t) turns
      .initial)
    (hr : run (World.step backend) turns .initial = some (log, w)) :
    ∃ o, Life w.state (w.ledger o) ∧ Books w.state (w.ledger o) ∧ Full w.state (w.ledger o) := by
  apply run_safe (fun _ w => ∃ o, Life w.state (w.ledger o) ∧ Books w.state (w.ledger o) ∧
    Full w.state (w.ledger o)) ?_ ?_ hp hr
  · exact ⟨false, life_initial, ordered_initial.books, by simp [Full, World.initial, State.initial]⟩
  · rintro _ w t r w' ⟨o, hl, hb, hf⟩ ⟨hi, ho, hg⟩ hs
    obtain ⟨o', -, hmoves, -⟩ := step_moves (A := ⟨False, True, False⟩) hl hi (.inr ho)
      (fun _ => trivial) (.inr hg) hs
    exact ⟨o', hmoves.keep (P := fun s L => Books s L ∧ Full s L)
      (fun hl hm hP => ⟨hm.books hl not_false hP.1, hm.full hl not_false hP.2⟩) hl ⟨hb, hf⟩⟩

/-- When no creation is given handles without NULL of which one is dead, every slot of a linked
surface holds a live buffer object, and destruction is defined. -/
theorem surface_slots_live
    (hp : Permitted (World.step backend) (fun w t => w.inited t ∧ w.owns t ∧ w.gapless t) turns
      .initial)
    (hr : run (World.step backend) turns .initial = some (log, w)) :
    (∀ h ∈ w.state.surfList, ∀ i < (w.state.surface h).numBos.toNat, ∃ b ∈ w.state.boList,
      (w.state.surface h).bos i = some b ∧ w.state.slotBo h i = some b ∧
      w.state.boIsValid ((w.state.surface h).bos i) = some b) ∧
    ∀ x h, (exec x (tbmSurfaceInternalDestroy backend h) w.state).isSome := by
  obtain ⟨o, hl, hb, hf⟩ := run_full hp hr
  constructor
  · intro h hh i hi
    obtain ⟨b, hbos, hslot⟩ := hf.slotBo hb rfl hh hi
    have hin : b ∈ w.state.boList := (slotBo_eq_some.mp hslot).2.2
    have hv := hl.boIsValid b
    rw [if_pos hin] at hv
    exact ⟨b, hin, hbos, hslot, by rw [hbos, hv]⟩
  · intro x h
    obtain ⟨t, ht⟩ := dropSurface_defined (x := x) hl hb hf rfl h
    exact Option.isSome_iff_exists.mpr ⟨((), t), ht⟩

theorem surface_slots_live_shared : ∃ log w,
    run (World.step .plain) (shared.take 6) .initial = some (log, w) ∧
    w.state.surfList = [0] ∧
    (∀ h ∈ w.state.surfList, ∀ i < (w.state.surface h).numBos.toNat, ∃ b ∈ w.state.boList,
      (w.state.surface h).bos i = some b ∧ w.state.slotBo h i = some b ∧
      w.state.boIsValid ((w.state.surface h).bos i) = some b) ∧
    ∀ x h, (exec x (tbmSurfaceInternalDestroy .plain h) w.state).isSome := by
  have hrun : ((run (World.step .plain) (shared.take 6) .initial).map fun r =>
      r.2.state.surfList) = some [0] := by decide +kernel
  obtain ⟨⟨log, w⟩, hr, hw⟩ := Option.map_eq_some_iff.mp hrun
  exact ⟨log, w, hr, hw, surface_slots_live (by decide +kernel) hr⟩

/-- The last reference on the only buffer object of a new surface is gone before the creation. -/
private def outdated : List Turn :=
  [⟨.bufmgrInit, .granted 7⟩, ⟨.boAlloc (some 0) 16 0, .granted 7⟩, ⟨.boUnref (some 0), .granted 7⟩,
    ⟨.surfaceCreateWithBos (some .small) (some fun _ => some 0) 1, .granted 7⟩]

/-- The creation succeeds with NULL in the slot. -/
theorem surface_slots_live_outdated :
    ¬∀ (backend : Backend) (turns : List Turn) (log : List (Entry World Turn Reply)) (w : World),
      Permitted (World.step backend) (fun w t => w.inited t ∧ w.owns t) turns .initial →
      run (World.step backend) turns .initial = some (log, w) →
      ∀ h ∈ w.state.surfList, ∀ i < (w.state.surface h).numBos.toNat, ∃ b ∈ w.state.boList,
        (w.state.surface h).bos i = some b := by
  intro hall
  have hrun : ((run (World.step .plain) outdated .initial).map fun r =>
      (r.2.state.surfList, (r.2.state.surface 0).numBos, (r.2.state.surface 0).bos 0)) =
        some ([0], 1, none) := by decide +kernel
  obtain ⟨⟨log, w⟩, hr, hw⟩ := Option.map_eq_some_iff.mp hrun
  obtain ⟨hlist, hnum, hnone⟩ : w.state.surfList = [0] ∧ (w.state.surface 0).numBos = 1 ∧
      (w.state.surface 0).bos 0 = none := by simpa using hw
  obtain ⟨b, -, hb⟩ := hall .plain outdated log w (by decide +kernel) hr 0 (by simp [hlist]) 0
    (by simp [hnum])
  simp [hnone] at hb

/-- Such a surface cannot be destroyed. -/
example : ((run (World.step .plain) outdated .initial).map fun r =>
    (exec (.granted 7) (tbmSurfaceInternalDestroy .plain (some 0)) r.2.state).isNone) =
      some true := by decide +kernel

end Full

end Tbm.Bufmgr
