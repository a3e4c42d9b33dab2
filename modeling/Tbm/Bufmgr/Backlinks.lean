import Tbm.Bufmgr.Creation
import Tbm.Bufmgr.Steady

/-! The back pointers of buffer objects to their surfaces. -/
namespace Tbm.Bufmgr

open Prog Runs

variable {backend : Backend} {x : Answers} {s s' t : State} {L : Ledger} {h : Surface}

theorem mem_slots {v : SurfaceData} {b : Bo} :
    b ∈ v.held ↔ ∃ i < v.numBos.toNat, v.bos i = some b := by
  simp [SurfaceData.held, List.mem_filterMap]

/-- A back pointer of a live buffer object is to a linked surface that has it in a slot. -/
def Backed (s : State) : Prop :=
  ∀ b ∈ s.boList, ∀ h, (s.bo b).surface = some h → h ∈ s.surfList ∧ b ∈ (s.surface h).held

section Steps

theorem Backed.mono (hb : Backed s) (hlist : ∀ b ∈ t.boList, b ∈ s.boList)
    (hsurf : ∀ b ∈ t.boList, (t.bo b).surface = (s.bo b).surface ∨ (t.bo b).surface = none)
    (hl : t.surfList = s.surfList) (hv : ∀ h, (t.surface h).held = (s.surface h).held) :
    Backed t := by
  intro b hin h hbh
  rcases hsurf b hin with hs | hs
  · rw [hl, hv h]
    exact hb b (hlist b hin) h (hs ▸ hbh)
  · rw [hs] at hbh
    simp at hbh

theorem boUnref_frame (backend : Backend) (s : State) (b : Bo) :
    (∀ c, ((s.boUnref backend b).bo c).surface = (s.bo c).surface) ∧
      (∀ c ∈ (s.boUnref backend b).boList, c ∈ s.boList) ∧
      (s.boUnref backend b).surfList = s.surfList ∧
      (s.boUnref backend b).surface = s.surface := by
  unfold State.boUnref
  split_ifs with h0
  · exact ⟨fun _ => rfl, fun _ => id, rfl, rfl⟩
  · dsimp only
    split_ifs with h1
    · unfold State.boFree
      rw [drainLocks_eq]
      refine ⟨fun c => ?_, fun c => List.mem_of_mem_erase, rfl, rfl⟩
      by_cases e : c = b <;> simp [State.setPriv, State.setBo, State.setRefCnt, e]
    · refine ⟨fun c => ?_, fun _ => id, rfl, rfl⟩
      by_cases e : c = b <;> simp [State.setBo, State.setRefCnt, e]

theorem tbmBoUnref_frame {b : Option Bo} {u : Unit}
    (he : exec x (tbmBoUnref backend b) s = some (u, t)) :
    (∀ c, (t.bo c).surface = (s.bo c).surface) ∧ (∀ c ∈ t.boList, c ∈ s.boList) ∧
      t.surfList = s.surfList ∧ t.surface = s.surface := by
  simp only [tbmBoUnref, exec_locked, exec_modify, Option.some.injEq, Prod.mk.injEq,
    true_and] at he
  rw [← he]
  split
  · exact boUnref_frame backend s _
  · exact ⟨fun _ => rfl, fun _ => id, rfl, rfl⟩

theorem Backed.boUnref (hb : Backed s) (backend : Backend) (b : Bo) :
    Backed (s.boUnref backend b) := by
  obtain ⟨hbo, hlist, hsurf, hsame⟩ := boUnref_frame backend s b
  exact hb.mono hlist (fun c _ => .inl (hbo c)) hsurf fun h => by rw [hsame]

theorem Backed.setBo (hb : Backed s) {b : Bo} {v : BoData}
    (hv : v.surface = (s.bo b).surface ∨ v.surface = none) : Backed (s.setBo b v) := by
  refine hb.mono (fun _ => id) (fun c _ => ?_) rfl fun _ => rfl
  by_cases e : c = b
  · subst e
    simpa [State.setBo] using hv
  · simp [State.setBo, e]

theorem Backed.linkBo (hb : Backed s) (flags : ℤ) (p : Priv) : Backed (s.linkBo flags p) := by
  intro b hin h hbh
  by_cases e : b = s.bos
  · simp [State.linkBo, e] at hbh
  · have hin' : b ∈ s.boList := (List.mem_cons.mp hin).resolve_left e
    have hbh' : (s.bo b).surface = some h := by simpa [State.linkBo, e] using hbh
    exact hb b hin' h hbh'

theorem Backed.boImport (hb : Backed s) (flags : ℤ) (p : Priv) :
    Backed (s.boImport flags p).2 := by
  unfold State.boImport
  split
  · exact hb.setBo (.inl rfl)
  · exact hb.linkBo flags p

theorem Backed.boSwap (hb : Backed s) (b c : Bo) : Backed (s.boSwap b c) := by
  have h1 : Backed (s.setPriv b (s.bo c).priv) := hb.setBo (.inl rfl)
  exact h1.setBo (.inl rfl)

theorem Backed.bufmgrInit (hb : Backed s) (x : Answers) : Backed (s.bufmgrInit x).2 := by
  unfold State.bufmgrInit
  split
  · exact hb
  · split_ifs
    · intro b hin
      simp at hin
    · exact hb

/-- A slot is emptied whose buffer object does not point back. -/
theorem Backed.setSlot (hb : Backed s) {i : ℕ} {b : Bo} (hi : (s.surface h).bos i = some b)
    (hn : (s.bo b).surface = none) : Backed (s.setSlot h i none) := by
  intro c hin k hck
  obtain ⟨hk, hheld⟩ := hb c hin k hck
  refine ⟨hk, ?_⟩
  by_cases e : k = h
  · subst e
    obtain ⟨j, hj, hjc⟩ := mem_slots.mp hheld
    have hji : j ≠ i := by
      rintro rfl
      rw [hi] at hjc
      obtain rfl := Option.some.inj hjc
      have hck' : (s.bo b).surface = some k := hck
      rw [hn] at hck'
      simp at hck'
    refine mem_slots.mpr ⟨j, ?_, ?_⟩
    · simpa [State.setSlot, State.setSurface] using hj
    · simpa [State.setSlot, State.setSurface, hji] using hjc
  · simpa [State.setSlot, State.setSurface, e] using hheld

/-- The loop over the slots leaves them empty, and nothing else of the surface changes. -/
theorem Backed.destroySlots {n i : ℕ} {u : Unit} (hb : Backed s)
    (he : exec x (destroySlots backend h n i) s = some (u, t)) :
    Backed t ∧ (t.surface h).numBos = (s.surface h).numBos ∧
      ∀ j, (i ≤ j ∧ j < i + n) ∨ (s.surface h).bos j = none → (t.surface h).bos j = none := by
  induction n generalizing i s with
  | zero =>
    simp only [Bufmgr.destroySlots, exec_pure, Option.some.injEq, Prod.mk.injEq, true_and] at he
    subst he
    refine ⟨hb, rfl, ?_⟩
    rintro j (hj | hj)
    · omega
    · exact hj
  | succ n ih =>
    simp only [Bufmgr.destroySlots, exec_bind, exec_access, Option.bind_eq_bind] at he
    cases hslot : s.slotBo h i with
    | none => simp [hslot] at he
    | some b =>
      obtain ⟨-, hi, -⟩ := slotBo_eq_some.mp hslot
      simp only [hslot, Option.bind_some] at he
      obtain ⟨⟨u', s₂⟩, hunref, he⟩ := Option.bind_eq_some_iff.mp he
      simp only [exec_modify, Option.bind_some] at he
      have hset : Backed (s.setBoSurface b none) := hb.setBo (.inr rfl)
      obtain ⟨hbo, hlist, hsurf, hv₂⟩ := tbmBoUnref_frame hunref
      have hb₂ : Backed s₂ := hset.mono hlist (fun c _ => .inl (hbo c)) hsurf fun h => by rw [hv₂]
      have hn₂ : (s₂.bo b).surface = none := by
        rw [hbo]
        simp [State.setBoSurface, State.setBo]
      have hb₃ : Backed (s₂.setSlot h i none) :=
        hb₂.setSlot (by rw [hv₂]; exact hi) hn₂
      rw [show (s.setBoSurface b none).surface = s.surface from rfl] at hv₂
      obtain ⟨hbt, hnum, hnone⟩ := ih hb₃ he
      refine ⟨hbt, ?_, ?_⟩
      · rw [hnum]
        simp [State.setSlot, State.setSurface, hv₂]
      · intro j hj
        apply hnone
        by_cases e : j = i
        · right
          simp [State.setSlot, State.setSurface, e]
        · rcases hj with hj | hj
          · left
            omega
          · right
            simpa [State.setSlot, State.setSurface, e, hv₂] using hj

theorem backed_steady (backend : Backend) (x : Answers) : Steady backend x Backed where
  same := by
    intro s s' hs hlist hbo hsurf hsame
    refine hs.mono (fun b hb => hlist ▸ hb) (fun b _ => .inl (by rw [hbo])) hsurf ?_
    intro h
    rw [hsame]
  init := fun hs => hs.bufmgrInit x
  setRefCnt := fun hs => hs.setBo (.inl rfl)
  boUnref := fun hs => hs.boUnref backend _
  setSurfaceRefcnt := by
    intro s k n hs
    refine hs.mono (fun _ => id) (fun _ _ => .inl rfl) rfl fun h => ?_
    by_cases e : h = k
    · subst e
      simp [State.setSurfaceRefcnt, State.setSurface, SurfaceData.held]
    · simp [State.setSurfaceRefcnt, State.setSurface, e]
  destroy := by
    intro s t h u hs he
    obtain ⟨hb, hnum, hnone⟩ := hs.destroySlots he
    intro b hin k hbk
    obtain ⟨hk, hheld⟩ := hb b hin k hbk
    refine ⟨?_, hheld⟩
    have hne : k ≠ h := by
      rintro rfl
      obtain ⟨j, hj, hjb⟩ := mem_slots.mp hheld
      rw [hnone j (.inl ⟨Nat.zero_le j, by rw [hnum] at hj; omega⟩)] at hjb
      simp at hjb
    exact (List.mem_erase_of_ne hne).mpr hk

theorem tbmBoAlloc_backed (m : Option Mgr) (size flags : ℤ) (i : ℕ) :
    Upholds x Backed (tbmBoAlloc m size flags i) := by
  intro s r s' hs he
  obtain ⟨n, hn⟩ := tbmBoAlloc_exec he
  cases r with
  | none =>
    rw [hn]
    exact hs
  | some b =>
    obtain ⟨-, -, -, -, p, -, rfl⟩ := hn
    exact Backed.linkBo (s := { s with lastChkBoCnt := n }) hs flags p

theorem boImport_backed (provided : Bool) (m : Option Mgr) :
    Upholds x Backed (boImport backend provided m) := by
  intro s r s' hs he
  obtain ⟨n, hn⟩ := boImport_exec he
  cases hp : importedPriv x s provided m with
  | none =>
    rw [hp] at hn
    obtain ⟨-, rfl⟩ := hn
    exact hs
  | some p =>
    rw [hp] at hn
    have hs' := congrArg Prod.snd hn.2
    simp only at hs'
    rw [hs']
    exact Backed.boImport (s := { s with lastChkBoCnt := n }) hs _ p

theorem tbmBoSwap_backed (b c : Option Bo) : Upholds x Backed (tbmBoSwap b c) := by
  refine upholds_locked (.answer (.access fun s r s' hs he => ?_))
  cases hb : s.boIsValid b with
  | none =>
    obtain ⟨-, rfl⟩ : false = r ∧ s = s' := by simpa [hb] using he
    exact hs
  | some b' =>
    cases hc : s.boIsValid c with
    | none =>
      obtain ⟨-, rfl⟩ : false = r ∧ s = s' := by simpa [hb, hc] using he
      exact hs
    | some c' =>
      simp only [hb, hc, Option.some.injEq] at he
      split_ifs at he
      · obtain ⟨-, rfl⟩ := Prod.mk.inj he
        exact hs.boSwap b' c'
      · obtain ⟨-, rfl⟩ := Prod.mk.inj he
        exact hs

end Steps

section Creations

/-- A surface is linked whose slots hold the buffer objects that point to it already. -/
theorem Backed.linkSurface {l : List (Option Bo)} {v : SurfaceData} (hh : h ∉ s.surfList)
    (hb : ∀ c ∈ s.boList, ∀ k, (s.bo c).surface = some k →
      (k ∈ s.surfList ∧ c ∈ (s.surface k).held) ∨ (k = h ∧ some c ∈ l))
    (hv : v.bos = slotTable l) (hn : v.numBos.toNat = l.length) : Backed (s.linkSurface h v) := by
  intro c hc k hck
  rcases hb c hc k hck with ⟨hk, hheld⟩ | ⟨rfl, hmem⟩
  · have hne : k ≠ h := fun e => hh (e ▸ hk)
    refine ⟨List.mem_cons_of_mem h hk, ?_⟩
    simpa [State.linkSurface, State.setSurface, hne] using hheld
  · refine ⟨List.mem_cons_self, ?_⟩
    obtain ⟨i, hi, hget⟩ := List.getElem_of_mem hmem
    have hslot : v.bos i = some c := by simp [hv, slotTable, hi, hget]
    have hmem' : c ∈ v.held := mem_slots.mpr ⟨i, hn ▸ hi, hslot⟩
    simpa [State.linkSurface, State.setSurface] using hmem'

/-- Taking the manager for the surfaces leaves the back pointers alone. -/
theorem initSurfaceBufmgr_backed (hl : Life s L) (hb : Backed s) {i : Bool}
    (he : exec x initSurfaceBufmgr s = some (i, t)) :
    Backed t ∧ (∀ k ∈ t.surfList, k < t.surfaces) ∧ ∀ c ∈ t.boList, c < t.bos := by
  have hmoves := initSurfaceBufmgr_moves (A := ⟨True, True, True⟩) hl he
  have hlt : ∃ K, Life t K := by
    rcases hmoves with ⟨-, rfl, -⟩ | ⟨-, -, hm⟩
    · exact ⟨L, hl⟩
    · exact ⟨_, hm.life hl⟩
  obtain ⟨K, hK⟩ := hlt
  refine ⟨?_, hK.surfFresh, hK.fresh⟩
  simp only [initSurfaceBufmgr, exec_bind, exec_read, Option.bind_some] at he
  cases hs : s.surfaceBufmgr with
  | some m =>
    simp only [hs, exec_pure, Option.some.injEq, Prod.mk.injEq] at he
    rw [← he.2]
    exact hb
  | none =>
    simp only [hs, exec_bind] at he
    obtain ⟨⟨k, t₁⟩, hinit, he⟩ := Option.bind_eq_some_iff.mp he
    obtain ⟨w, -, he⟩ := Option.bind_eq_some_iff.mp ((exec_access _ _ _).symm.trans he)
    obtain ⟨-, rfl⟩ := Prod.mk.inj (Option.some.inj he)
    have hb₁ : Backed t₁ := (backed_steady .plain x).tbmBufmgrInit _ _ _ hb hinit
    have hnil : t₁.surfList = [] := by
      have hinit' := tbmBufmgrInit_exec hinit
      unfold State.bufmgrInit at hinit'
      split at hinit'
      · rw [← (Prod.mk.inj hinit').2]
        exact hl.surfs hs
      · split_ifs at hinit'
        · rw [← (Prod.mk.inj hinit').2]
        · rw [← (Prod.mk.inj hinit').2]
          exact hl.surfs hs
    exact hb₁.mono (fun _ => id) (fun _ _ => .inl rfl) hnil.symm fun _ => rfl

theorem Atomic.backed (ha : Atomic s s') (hb : Backed s) : Backed s' := by
  refine hb.mono (fun b hin => ha.boList ▸ hin) (fun b hin => .inl ?_) ha.surfList fun h => ?_
  · rw [ha.bo b (ha.boList ▸ hin)]
  · rw [ha.surface]

theorem createWithFlags_backed {width height : ℤ} {format : Format} {flags : ℤ} (hl : Life s L)
    (hb : Backed s) {o : Option Surface}
    (he : exec x (tbmSurfaceInternalCreateWithFlags backend width height format flags) s =
      some (o, s')) : Backed s' := by
  cases o with
  | none => exact (createWithFlags_atomic hl he).backed hb
  | some h =>
    obtain ⟨i, t, m, ps, k, t', hi, -, rfl, -, hgrown, hk, rfl⟩ := createWithFlags_some he
    obtain ⟨hbt, hfresh, hlt⟩ := initSurfaceBufmgr_backed hl hb hi
    have hsl : t'.surfList = t.surfList := (congrArg State.surfList hgrown.rest :)
    have hsame : t'.surface = t.surface := (congrArg State.surface hgrown.rest :)
    refine Backed.linkSurface (l := (List.range' t.bos k).map some) ?_ ?_ rfl ?_
    · rw [hsl]
      exact fun hin => Nat.lt_irrefl _ (hfresh _ hin)
    · intro c hc h' hch
      rw [hgrown.boList] at hc
      rcases List.mem_append.mp hc with hnew | hold
      · right
        have hc' := List.mem_reverse.mp hnew
        obtain ⟨j, hj, rfl⟩ := List.mem_range'.mp hc'
        rw [Nat.one_mul] at hch
        rw [hgrown.new j hj] at hch
        exact ⟨(Option.some.inj hch).symm, List.mem_map_of_mem hc'⟩
      · left
        rw [hgrown.old c (hlt c hold)] at hch
        rw [hsl, hsame]
        exact hbt c hold h' hch
    · rw [List.length_map, List.length_range']
      exact hk.symm

/-- One turn of the loop of `create_with_bos`: a live buffer object gets a reference and the back
pointer, any other handle leaves the slot empty. -/
theorem refSlot_exec {b : Bo} {r : Option Bo} {u : Unit}
    (hr : exec x (tbmBoRef (some b)) s = some (r, t))
    (hs : exec x (tbmBoSetSurface (some b) (some h)) t = some (u, s')) :
    (b ∈ s.boList ∧ r = some b ∧
      s' = (s.setRefCnt b ((s.bo b).refCnt + 1)).setBoSurface b (some h)) ∨
    ((b ∉ s.boList ∨ s.gBufMgr = none) ∧ r = none ∧ s' = s) := by
  simp only [tbmBoRef, exec_locked, exec_access, Option.some.injEq] at hr
  simp only [tbmBoSetSurface, exec_locked, exec_modify, Option.some.injEq, Prod.mk.injEq,
    true_and] at hs
  by_cases hv : b ∈ s.boList ∧ s.gBufMgr.isSome
  · have hvalid : s.boIsValid (some b) = some b := by simp [State.boIsValid, hv.1, hv.2]
    simp only [hvalid, Prod.mk.injEq] at hr
    obtain ⟨rfl, rfl⟩ := hr
    have hvalid' : (s.setRefCnt b ((s.bo b).refCnt + 1)).boIsValid (some b) = some b := hvalid
    simp only [hvalid'] at hs
    exact .inl ⟨hv.1, rfl, hs.symm⟩
  · have hvalid : s.boIsValid (some b) = none := by
      simp only [State.boIsValid, Option.filter_eq_none_iff]
      intro c hc hboth
      obtain rfl := Option.some.inj hc
      simp only [Bool.and_eq_true, decide_eq_true_eq] at hboth
      exact hv ⟨hboth.2, hboth.1⟩
    simp only [hvalid, Prod.mk.injEq] at hr
    obtain ⟨rfl, rfl⟩ := hr
    simp only [hvalid] at hs
    refine .inr ⟨?_, rfl, hs.symm⟩
    by_cases hin : b ∈ s.boList
    · exact .inr (Option.not_isSome_iff_eq_none.mp fun hg => hv ⟨hin, hg⟩)
    · exact .inl hin

/-- The loop writes back pointers only to what it puts into the slots. -/
theorem refSlots_backs {bos : ℕ → Option Bo} {n : ℕ} {l : List (Option Bo)}
    {r : Bool × List (Option Bo)} (he : exec x (refSlots h bos n l) s = some (r, s')) :
    s'.boList = s.boList ∧ s'.surfList = s.surfList ∧ s'.surface = s.surface ∧
      (∀ c ∈ l, c ∈ r.2) ∧ (r.1 = true → r.2.length = l.length + n) ∧
      ∀ c, (s'.bo c).surface = (s.bo c).surface ∨ ((s'.bo c).surface = some h ∧ some c ∈ r.2) := by
  induction n generalizing s l with
  | zero =>
    simp only [refSlots, exec_pure, Option.some.injEq, Prod.mk.injEq] at he
    obtain ⟨rfl, rfl⟩ := he
    exact ⟨rfl, rfl, rfl, fun _ => id, fun _ => rfl, fun _ => .inl rfl⟩
  | succ n ih =>
    simp only [refSlots] at he
    split_ifs at he with hlen
    · cases hbos : bos l.length with
      | none =>
        simp only [hbos, exec_pure, Option.some.injEq, Prod.mk.injEq] at he
        obtain ⟨rfl, rfl⟩ := he
        exact ⟨rfl, rfl, rfl, fun _ => id, by simp, fun _ => .inl rfl⟩
      | some b =>
        simp only [hbos, exec_bind] at he
        obtain ⟨⟨o, t⟩, href, he⟩ := Option.bind_eq_some_iff.mp he
        obtain ⟨⟨u, t'⟩, hset, he⟩ := Option.bind_eq_some_iff.mp he
        obtain ⟨h1, h2, h3, h4, h5, h6⟩ := ih he
        have hlen' : r.1 = true → r.2.length = l.length + (n + 1) := by
          intro hr
          rw [h5 hr, List.length_append, List.length_singleton]
          omega
        have hsub : ∀ c ∈ l, c ∈ r.2 := fun c hc => h4 c (List.mem_append_left _ hc)
        rcases refSlot_exec href hset with ⟨-, rfl, rfl⟩ | ⟨-, rfl, rfl⟩
        · refine ⟨h1, h2, h3, hsub, hlen', fun c => ?_⟩
          rcases h6 c with hc | hc
          · by_cases e : c = b
            · subst e
              rw [hc]
              exact .inr ⟨by simp [State.setBoSurface, State.setBo], h4 _ (by simp)⟩
            · left
              rw [hc]
              simp [State.setBoSurface, State.setRefCnt, State.setBo, e]
          · exact .inr hc
        · exact ⟨h1, h2, h3, hsub, hlen', h6⟩
    · simp at he

theorem refSlots_null {bos : ℕ → Option Bo} {n : ℕ} {l l' : List (Option Bo)}
    (he : exec x (refSlots h bos n l) s = some ((false, l'), s')) :
    ∃ i, l.length ≤ i ∧ i < l.length + n ∧ bos i = none := by
  induction n generalizing s l with
  | zero => simp [refSlots] at he
  | succ n ih =>
    simp only [refSlots] at he
    split_ifs at he with hlen
    · cases hbos : bos l.length with
      | none => exact ⟨l.length, Nat.le_refl _, by omega, hbos⟩
      | some b =>
        simp only [hbos, exec_bind] at he
        obtain ⟨⟨o, t⟩, -, he⟩ := Option.bind_eq_some_iff.mp he
        obtain ⟨⟨u, t'⟩, -, he⟩ := Option.bind_eq_some_iff.mp he
        obtain ⟨i, h1, h2, hi⟩ := ih he
        rw [List.length_append, List.length_singleton] at h1 h2
        exact ⟨i, by omega, by omega, hi⟩
    · simp at he

/-- If no live buffer object comes before NULL, a loop that stops early has done nothing. -/
theorem refSlots_failed {bos : ℕ → Option Bo} {n : ℕ} {l l' : List (Option Bo)}
    (hw : ∀ i, l.length ≤ i → i < l.length + n → bos i = none →
      ∀ j, l.length ≤ j → j < i → ∀ b, bos j = some b → b ∉ s.boList)
    (he : exec x (refSlots h bos n l) s = some ((false, l'), s')) :
    s' = s ∧ ∃ k, l' = l ++ List.replicate k none := by
  induction n generalizing s l with
  | zero => simp [refSlots] at he
  | succ n ih =>
    obtain ⟨i, hi1, hi2, hnull⟩ := refSlots_null he
    simp only [refSlots] at he
    split_ifs at he with hlen
    · cases hbos : bos l.length with
      | none =>
        simp only [hbos, exec_pure, Option.some.injEq, Prod.mk.injEq, true_and] at he
        obtain ⟨rfl, rfl⟩ := he
        exact ⟨rfl, 0, by simp⟩
      | some b =>
        simp only [hbos, exec_bind] at he
        obtain ⟨⟨o, t⟩, href, hrest⟩ := Option.bind_eq_some_iff.mp he
        obtain ⟨⟨u, t'⟩, hset, hloop⟩ := Option.bind_eq_some_iff.mp hrest
        have hne : i ≠ l.length := by
          rintro rfl
          rw [hbos] at hnull
          simp at hnull
        have hdead : b ∉ s.boList :=
          hw i hi1 hi2 hnull l.length (Nat.le_refl _) (by omega) b hbos
        rcases refSlot_exec href hset with ⟨hin, -⟩ | ⟨-, rfl, rfl⟩
        · exact absurd hin hdead
        · obtain ⟨hs, k, hk⟩ := ih (s := t') (l := l ++ [none]) (by
            intro i h1 h2 hi j h3 h4
            rw [List.length_append, List.length_singleton] at h1 h2 h3
            exact hw i (by omega) (by omega) hi j (by omega) h4) hloop
          refine ⟨hs, k + 1, ?_⟩
          rw [hk, List.append_assoc, List.replicate_succ]
          rfl
    · simp at he

theorem unrefSlots_replicate (k : ℕ) :
    exec x (unrefSlots backend (List.replicate k none)) s = some ((), s) := by
  induction k with
  | zero => rfl
  | succ k ih =>
    rw [List.replicate_succ]
    exact ih

/-- No NULL follows a live buffer object among the handles for a new surface. -/
def Whole (s : State) (bos : ℕ → Option Bo) (num : ℤ) : Prop :=
  ∀ i < num.toNat, ∀ j < i, ∀ b ∈ bos j, b ∉ s.boList ∨ (bos i).isSome

instance (s : State) (bos : ℕ → Option Bo) (num : ℤ) : Decidable (Whole s bos num) :=
  have (i : ℕ) : Decidable (∀ j < i, ∀ b ∈ bos j, b ∉ s.boList ∨ (bos i).isSome) := inferInstance
  Nat.decidableBallLT num.toNat fun i _ => ∀ j < i, ∀ b ∈ bos j, b ∉ s.boList ∨ (bos i).isSome

/-- The creation comes to the loop over the handles. -/
def Handled (x : Answers) (info : Option SurfaceInfo) (bos : Option (ℕ → Option Bo)) (num : ℤ) :
    Prop := ∃ v ∈ info, bos.isSome ∧ (num = 1 ∨ v.numPlanes = .ofInt num) ∧ x.calloc = true

theorem createWithBos_atomic {info : Option SurfaceInfo} {bos : Option (ℕ → Option Bo)} {num : ℤ}
    (hl : Life s L) (hw : ∀ f, bos = some f → Handled x info bos num → Whole s f num)
    (he : exec x (tbmSurfaceInternalCreateWithBos backend info bos num) s = some (none, s')) :
    Atomic s s' := by
  have hsame (he : exec x (pure none : BProg (Option Surface)) s = some (none, s')) :
      Atomic s s' := by
    obtain rfl : s = s' := by simpa using he
    exact (Restored.refl s s.surfaces).atomic hl
  cases bos with
  | none => exact hsame he
  | some f =>
    cases info with
    | none => exact hsame he
    | some v =>
      simp only [tbmSurfaceInternalCreateWithBos] at he
      by_cases hnum : num = 1 ∨ v.numPlanes = .ofInt num
      · rw [if_pos hnum] at he
        apply createSurface_atomic hl ?_ he
        intro m h t t' hc ht hg hb
        split_ifs at hb with h4
        · simp only [exec_bind] at hb
          obtain ⟨⟨⟨ok, l⟩, t₁⟩, href, hb⟩ := Option.bind_eq_some_iff.mp hb
          cases ok with
          | true =>
            simp only [finishSurface, if_true, exec_access, Option.bind_eq_bind] at hb
            obtain ⟨-, -, hb⟩ := Option.bind_eq_some_iff.mp hb
            simp at hb
          | false =>
            have hwhole := hw f rfl ⟨v, rfl, rfl, hnum, hc⟩
            obtain ⟨rfl, k, hk⟩ := refSlots_failed (by
              intro i _ hi hnull j _ hj b hb hin
              have := (hwhole i (by simpa using hi) j hj b hb).resolve_left (fun h => h (ht ▸ hin))
              simp [hnull] at this) href
            rw [List.nil_append] at hk
            subst hk
            simp only [finishSurface, Bool.false_eq_true, if_false, exec_bind,
              unrefSlots_replicate, Option.bind_some, exec_pure, Option.some.injEq, Prod.mk.injEq,
              true_and] at hb
            rw [← hb]
            exact .refl t₁ t₁.surfaces
        · simp at hb
      · rw [if_neg hnum] at he
        exact hsame he

theorem createWithBos_backed {info : Option SurfaceInfo} {bos : Option (ℕ → Option Bo)} {num : ℤ}
    (hl : Life s L) (hw : ∀ f, bos = some f → Handled x info bos num → Whole s f num)
    (hb : Backed s) {o : Option Surface}
    (he : exec x (tbmSurfaceInternalCreateWithBos backend info bos num) s = some (o, s')) :
    Backed s' := by
  cases o with
  | none => exact (createWithBos_atomic hl hw he).backed hb
  | some h =>
    cases bos with
    | none => simp [tbmSurfaceInternalCreateWithBos] at he
    | some f =>
      cases info with
      | none => simp [tbmSurfaceInternalCreateWithBos] at he
      | some v =>
        simp only [tbmSurfaceInternalCreateWithBos] at he
        by_cases hnum : num = 1 ∨ v.numPlanes = .ofInt num
        · rw [if_pos hnum] at he
          obtain ⟨i, t, m, hi, -, hbody⟩ := createSurface_some he
          split_ifs at hbody with h4
          · simp only [exec_bind] at hbody
            obtain ⟨⟨r, t'⟩, href, hfin⟩ := Option.bind_eq_some_iff.mp hbody
            obtain ⟨hbt, hfresh, -⟩ := initSurfaceBufmgr_backed hl hb hi
            obtain ⟨hlist, hsl, hsame, -, hlen, hsurf⟩ := refSlots_backs href
            obtain ⟨rfl, h1, rfl⟩ := finishSurface_some hfin
            have hlen' : r.2.length = num.toNat := by simpa using hlen h1
            refine Backed.linkSurface (l := r.2) ?_ ?_ rfl hlen'.symm
            · rw [hsl]
              exact fun hin => Nat.lt_irrefl _ (hfresh _ hin)
            · intro c hc k hck
              rcases hsurf c with hold | ⟨hnew, hmem⟩
              · left
                rw [hold] at hck
                rw [hsl, hsame]
                exact hbt c (hlist ▸ hc) k hck
              · right
                rw [hnew] at hck
                exact ⟨(Option.some.inj hck).symm, hmem⟩
          · simp at hbody
        · rw [if_neg hnum] at he
          simp at he

theorem query_backed (hl : Life s L) (hb : Backed s) {o : Bool}
    (he : exec x (tbmSurfaceInternalQuerySupportedFormats backend) s = some (o, s')) :
    Backed s' := by
  simp only [tbmSurfaceInternalQuerySupportedFormats, exec_locked, exec_bind, exec_answer,
    Option.bind_some, exec_access, Option.bind_eq_bind] at he
  obtain ⟨⟨i, t⟩, hi, hrest⟩ := Option.bind_eq_some_iff.mp he
  obtain ⟨⟨u, t'⟩, hd, hfin⟩ := Option.bind_eq_some_iff.mp hrest
  obtain ⟨w, -, hw⟩ := Option.bind_eq_some_iff.mp hd
  obtain ⟨-, rfl⟩ := Prod.mk.inj (Option.some.inj hw)
  obtain ⟨hbt, -, -⟩ := initSurfaceBufmgr_backed hl hb hi
  split_ifs at hfin with hq
  · obtain ⟨-, rfl⟩ : true = o ∧ t = s' := by simpa using hfin
    exact hbt
  · simp only [exec_bind] at hfin
    obtain ⟨⟨u', t₁⟩, hgive, hend⟩ := Option.bind_eq_some_iff.mp hfin
    obtain ⟨-, rfl⟩ : false = o ∧ t₁ = s' := by simpa using hend
    cases i with
    | false =>
      obtain ⟨-, rfl⟩ : () = u' ∧ t = t₁ := by simpa [giveBack] using hgive
      exact hbt
    | true =>
      simp only [initSurfaceBufmgr, exec_bind, exec_read, Option.bind_some] at hi
      cases hs : s.surfaceBufmgr with
      | some m => simp [hs] at hi
      | none =>
        simp only [hs, exec_bind] at hi
        obtain ⟨⟨k, t₂⟩, hinit, hacc⟩ := Option.bind_eq_some_iff.mp hi
        have hinit' := tbmBufmgrInit_exec hinit
        cases k with
        | none => simp [State.deref] at hacc
        | some m =>
          have hg := (bufmgrInit_some hinit').1
          have hd : t₂.deref (some m) = some () := by simp [State.deref, hg]
          simp only [exec_access, hd, Option.bind_eq_bind, Option.bind_some, Option.some.injEq,
            Prod.mk.injEq, true_and] at hacc
          subst hacc
          exact (giveBack_atomic hl hs hinit' (.refl _ _) hgive).backed hb

end Creations

section Runs

variable {w w' : World} {u : Turn} {r : Reply} {o : Bool} {turns : List Turn}
  {log : List (Entry World Turn Reply)}

/-- The handles for a new surface hold no NULL after a live buffer object. -/
def World.whole (w : World) (t : Turn) : Prop :=
  match t.op with
  | .surfaceCreateWithBos info (some bos) num =>
    Handled t.answers info (some bos) num → Whole w.state bos num
  | _ => True

/-- A creation from buffer objects that returns NULL leaves them as they were. -/
def Unlinked (e : Entry World Turn Reply) : Prop :=
  ∀ info bos num, e.call.op = .surfaceCreateWithBos info bos num → e.reply = .surface none →
    e.after.state.boList = e.before.state.boList ∧ ∀ b ∈ e.before.state.boList,
      (e.after.state.bo b).surface = (e.before.state.bo b).surface ∧
        (e.after.state.bo b).refCnt = (e.before.state.bo b).refCnt

theorem step_backed (hl : Life w.state (w.ledger o)) (hw : w.whole u) (hb : Backed w.state)
    (hs : w.step backend u = some (r, w')) :
    Backed w'.state ∧ Unlinked ⟨w, u, r, w'⟩ := by
  obtain ⟨op, x⟩ := u
  obtain ⟨⟨r', s⟩, he, hw'⟩ := Option.bind_eq_some_iff.mp hs
  obtain ⟨rfl, rfl⟩ : r' = r ∧ w.settle op r' s = w' := by simpa using hw'
  have hst := backed_steady backend x
  have keep {α : Type} {p : BProg α} {f : α → Reply} (hp : Upholds x Backed p)
      (he : exec x (p >>= fun a => pure (f a)) w.state = some (r', s)) : Backed s := by
    obtain ⟨v, hx, -⟩ := exec_return he
    exact hp _ _ _ hb hx
  cases op with
  | surfaceCreateWithBos info bos num =>
    obtain ⟨v, hx, rfl⟩ := exec_return he
    have hwhole : ∀ f, bos = some f → Handled x info bos num → Whole w.state f num := by
      rintro f rfl hh
      exact hw hh
    refine ⟨createWithBos_backed hl hwhole hb hx, ?_⟩
    intro _ _ _ _ hr
    obtain rfl : v = none := Reply.surface.inj hr
    have ha := createWithBos_atomic hl hwhole hx
    refine ⟨ha.boList, fun b hin => ?_⟩
    exact ⟨congrArg BoData.surface (ha.bo b hin), congrArg BoData.refCnt (ha.bo b hin)⟩
  | bufmgrInit => exact ⟨keep hst.tbmBufmgrInit he, by simp [Unlinked]⟩
  | bufmgrDeinit m => exact ⟨keep (hst.tbmBufmgrDeinit m) he, by simp [Unlinked]⟩
  | boAlloc m size f => exact ⟨keep (tbmBoAlloc_backed m size f 0) he, by simp [Unlinked]⟩
  | boImport m => exact ⟨keep (boImport_backed _ m) he, by simp [Unlinked]⟩
  | boImportFd m => exact ⟨keep (boImport_backed _ m) he, by simp [Unlinked]⟩
  | boRef b => exact ⟨keep (hst.tbmBoRef b) he, by simp [Unlinked]⟩
  | boUnref b => exact ⟨keep (hst.tbmBoUnref b) he, by simp [Unlinked]⟩
  | boSwap b c => exact ⟨keep (tbmBoSwap_backed b c) he, by simp [Unlinked]⟩
  | surfaceCreateWithFlags width height format f =>
    obtain ⟨v, hx, -⟩ := exec_return he
    exact ⟨createWithFlags_backed hl hb hx, by simp [Unlinked]⟩
  | surfaceRef h => exact ⟨keep (hst.tbmSurfaceInternalRef h) he, by simp [Unlinked]⟩
  | surfaceUnref h => exact ⟨keep (hst.tbmSurfaceInternalUnref h) he, by simp [Unlinked]⟩
  | surfaceDestroy h => exact ⟨keep (hst.tbmSurfaceInternalUnref h) he, by simp [Unlinked]⟩
  | querySupportedFormats =>
    obtain ⟨v, hx, -⟩ := exec_return he
    exact ⟨query_backed hl hb hx, by simp [Unlinked]⟩
  | queueCreate queueSize width height format =>
    exact ⟨keep (hst.surfaceQueueCreate _ _ _ _) he, by simp [Unlinked]⟩
  | queueSequenceCreate queueSize width height format =>
    exact ⟨keep (hst.surfaceQueueCreate _ _ _ _) he, by simp [Unlinked]⟩
  | queueAttach q width height format f =>
    obtain ⟨v, hx, -⟩ := exec_return he
    refine ⟨?_, by simp [Unlinked]⟩
    simp only [withQueue, exec_locked, exec_bind, exec_access] at hx
    obtain ⟨⟨q', t⟩, hq, hx⟩ := Option.bind_eq_some_iff.mp hx
    obtain ⟨q'', -, hq⟩ := Option.map_eq_some_iff.mp hq
    obtain ⟨rfl, rfl⟩ := Prod.mk.inj hq
    cases q'' with
    | none =>
      obtain ⟨-, rfl⟩ : v = () ∧ w.state = s := by simpa using hx
      exact hb
    | some q' =>
      simp only [needAttach, exec_bind] at hx
      obtain ⟨⟨k, t⟩, hcreate, hx⟩ := Option.bind_eq_some_iff.mp hx
      have hbt := createWithFlags_backed hl hb hcreate
      cases k with
      | none =>
        obtain ⟨-, rfl⟩ : v = () ∧ t = s := by simpa using hx
        exact hbt
      | some k =>
        have hrest : Upholds x Backed (do
            surfaceQueueAttach q' k
            tbmSurfaceInternalUnref backend (some k)) :=
          .bind (hst.surfaceQueueAttach q' k) fun _ => hst.tbmSurfaceInternalUnref _
        exact hrest t v s hbt (by simpa using hx)
  | queueAttachCb q h =>
    exact ⟨keep (Steady.withQueue (hst.needAttachCb h) q) he, by simp [Unlinked]⟩
  | queueDetach q h =>
    exact ⟨keep (Steady.withQueue (hst.queueDeleteNode h) q) he, by simp [Unlinked]⟩
  | queueDestroy q => exact ⟨keep (hst.tbmSurfaceQueueDestroy q) he, by simp [Unlinked]⟩

/-- While no creation meets a NULL after a live buffer object, every back pointer is to a linked
surface that has the buffer object in a slot, and a creation that fails leaves no trace. -/
theorem back_pointers_live
    (hp : Permitted (World.step backend) (fun w t => w.inited t = true ∧ w.whole t) turns .initial)
    (hr : run (World.step backend) turns .initial = some (log, w)) :
    Backed w.state ∧ ∀ e ∈ log, Unlinked e := by
  obtain ⟨-, hb, hlog⟩ := run_safe (fun log w => (∃ o, Life w.state (w.ledger o)) ∧
      Backed w.state ∧ ∀ e ∈ log, Unlinked e)
    ⟨⟨false, life_initial⟩, fun b hb => absurd hb List.not_mem_nil, by simp⟩ (by
      rintro log w t r w' ⟨⟨o, hl⟩, hb, hlog⟩ ⟨hi, hw⟩ hs
      obtain ⟨o', -, hmoves, -⟩ := step_moves (A := ⟨True, True, True⟩) hl hi (.inl trivial)
        (fun _ => trivial) (.inl trivial) hs
      obtain ⟨hb', he⟩ := step_backed hl hw hb hs
      refine ⟨⟨o', hmoves.life hl⟩, hb', fun e hmem => ?_⟩
      rw [List.mem_append, List.mem_singleton] at hmem
      rcases hmem with hmem | rfl
      · exact hlog e hmem
      · exact he) hp hr
  exact ⟨hb, hlog⟩

/-- Two surfaces share a buffer object, a third creation gets NULL first, and one of the two is
destroyed. -/
private def sharedBacks : List Turn :=
  [⟨.bufmgrInit, .granted 7⟩, ⟨.boAlloc (some 0) 16 0, .granted 7⟩,
    ⟨.surfaceCreateWithBos (some .small) (some fun _ => some 0) 1, .granted 7⟩,
    ⟨.surfaceCreateWithBos (some .small) (some fun _ => some 0) 1, .granted 7⟩,
    ⟨.surfaceCreateWithBos (some { SurfaceInfo.small with numPlanes := 2 })
      (some fun i => if i = 0 then none else some 0) 2, .granted 7⟩,
    ⟨.surfaceDestroy (some 0), .granted 7⟩]

private instance (x : Answers) (info : Option SurfaceInfo) (bos : Option (ℕ → Option Bo))
    (num : ℤ) :
    Decidable (Handled x info bos num) :=
  match info with
  | none => isFalse (by simp [Handled])
  | some v => decidable_of_iff
      (bos.isSome ∧ (num = 1 ∨ v.numPlanes = .ofInt num) ∧ x.calloc = true) (by simp [Handled])

private instance (w : World) (t : Turn) : Decidable (w.whole t) := by
  unfold World.whole
  split <;> infer_instance

theorem back_pointers_live_shared : ∃ log w,
    run (World.step .plain) sharedBacks .initial = some (log, w) ∧
    w.state.surfList = [1] ∧ (w.state.bo 0).refCnt = 2 ∧
    Backed w.state ∧ ∀ e ∈ log, Unlinked e := by
  have hrun : ((run (World.step .plain) sharedBacks .initial).map fun r =>
      (r.2.state.surfList, (r.2.state.bo 0).refCnt)) = some ([1], 2) := by decide +kernel
  obtain ⟨⟨log, w⟩, hr, hw⟩ := Option.map_eq_some_iff.mp hrun
  obtain ⟨hsl, hrc⟩ := Prod.mk.inj hw
  exact ⟨log, w, hr, hsl, hrc, back_pointers_live (by decide +kernel) hr⟩

/-- The handle of a live buffer object and NULL. -/
private def brokenOff : List Turn :=
  [⟨.bufmgrInit, .granted 7⟩, ⟨.boAlloc (some 0) 16 0, .granted 7⟩,
    ⟨.surfaceCreateWithBos (some { SurfaceInfo.small with numPlanes := 2 })
      (some fun i => if i = 0 then some 0 else none) 2, .granted 7⟩]

/-- The creation fails and the buffer object points to the surface that is gone. -/
theorem create_with_bos_leaves_back_pointer :
    ¬∀ (backend : Backend) (turns : List Turn) (log : List (Entry World Turn Reply)) (w : World),
      Permitted (World.step backend) (fun w t => w.inited t) turns .initial →
      run (World.step backend) turns .initial = some (log, w) →
      Backed w.state ∧ ∀ e ∈ log, Unlinked e := by
  intro hall
  have hrun : ((run (World.step .plain) brokenOff .initial).map fun r =>
      (r.2.state.boList, (r.2.state.bo 0).surface, r.2.state.surfList)) =
      some ([0], some 0, []) := by decide +kernel
  obtain ⟨⟨log, w⟩, hr, hw⟩ := Option.map_eq_some_iff.mp hrun
  simp only [Prod.mk.injEq] at hw
  obtain ⟨hlist, hsurf, hsl⟩ := hw
  obtain ⟨hb, -⟩ := hall .plain brokenOff log w (by decide +kernel) hr
  have hin := (hb 0 (by simp [hlist]) 0 hsurf).1
  simp [hsl] at hin

end Runs

end Tbm.Bufmgr
