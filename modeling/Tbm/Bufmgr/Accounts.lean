import Tbm.Bufmgr.Calls
import Mathlib.Data.List.ReduceOption
import Mathlib.Algebra.BigOperators.Group.List.Basic
import Mathlib.Algebra.GroupWithZero.Nat

/-! The references on buffer objects: who holds them, and when the last one goes. -/
namespace Tbm.Bufmgr

open Prog Runs

section Slots

variable {s : State} {h : Surface} {v : SurfaceData} {b c : Bo} {i : ℕ}

theorem held_count (v : SurfaceData) (b : Bo) :
    v.held.count b = (List.range v.numBos.toNat).countP fun i => v.bos i == some b :=
  List.count_filterMap

theorem slots_eq (s : State) (b : Bo) :
    s.slots b = (s.surfList.map fun h => (s.surface h).held.count b).sum :=
  List.count_flatMap

theorem slots_eq_zero (hb : ∀ h ∈ s.surfList, b ∉ (s.surface h).held) : s.slots b = 0 := by
  unfold State.slots
  rw [List.count_eq_zero, List.mem_flatMap]
  rintro ⟨h, hh, hin⟩
  exact hb h hh hin

/-- The table that is filled from a list holds what is in the list. -/
theorem held_slotTable {l : List (Option Bo)} (hn : v.numBos.toNat = l.length)
    (hb : v.bos = slotTable l) : v.held = l.reduceOption := by
  unfold SurfaceData.held
  rw [hn, hb]
  clear hn hb
  induction l with
  | nil => rfl
  | cons a l ih =>
    rw [List.length_cons, List.range_succ_eq_map, List.filterMap_cons, List.filterMap_map]
    have hrest : List.filterMap (slotTable (a :: l) ∘ Nat.succ) (List.range l.length) =
        List.filterMap (slotTable l) (List.range l.length) := by
      apply List.filterMap_congr
      intro j _
      simp [slotTable]
    rw [hrest, ih]
    cases a with
    | none => simp [slotTable]
    | some b => simp [slotTable]

private theorem countP_update (f : ℕ → Option Bo) (n : ℕ) (hi : i < n) :
    (List.range n).countP (fun j => f j == some c) =
      (List.range n).countP (fun j => Function.update f i none j == some c) +
        if f i = some c then 1 else 0 := by
  induction n with
  | zero => omega
  | succ n ih =>
    rw [List.range_succ, List.countP_append, List.countP_append]
    by_cases e : i = n
    · subst e
      have hrest : (List.range i).countP (fun j => Function.update f i none j == some c) =
          (List.range i).countP (fun j => f j == some c) := by
        apply List.countP_congr
        intro j hj
        have hne : j ≠ i := by
          have := List.mem_range.mp hj
          omega
        simp [hne]
      rw [hrest]
      by_cases hc : f i = some c
      · simp [hc]
      · simp [hc]
    · rw [ih (by omega)]
      have hn : Function.update f i none n = f n := by simp [Ne.symm e]
      simp only [List.countP_singleton, hn]
      omega

theorem held_emptied {v' : SurfaceData} (hn : v'.numBos = v.numBos)
    (hv : v'.bos = Function.update v.bos i none) (hi : i < v.numBos.toNat)
    (hb : v.bos i = some b) (c : Bo) :
    v.held.count c = v'.held.count c + if c = b then 1 else 0 := by
  rw [held_count, held_count, countP_update v.bos v.numBos.toNat hi, hb, hn, hv]
  simp [eq_comm]

/-- The slots of one surface and those of the others. -/
theorem slots_split (hh : h ∈ s.surfList) (b : Bo) : s.slots b =
    (s.surface h).held.count b +
      ((s.surfList.erase h).map fun k => (s.surface k).held.count b).sum := by
  rw [slots_eq]
  exact (List.sum_map_erase (fun k => (s.surface k).held.count b) hh).symm

theorem slots_change {t : State} (hl : t.surfList = s.surfList) (hn : s.surfList.Nodup)
    (hh : h ∈ s.surfList) (hs : ∀ k, k ≠ h → t.surface k = s.surface k) (b : Bo) :
    t.slots b + (s.surface h).held.count b = s.slots b + (t.surface h).held.count b := by
  have hrest : ((t.surfList.erase h).map fun k => (t.surface k).held.count b) =
      (s.surfList.erase h).map fun k => (s.surface k).held.count b := by
    rw [hl]
    apply List.map_congr_left
    intro k hk
    rw [hs k (hn.mem_erase_iff.mp hk).1]
  have hh' : h ∈ t.surfList := by
    rw [hl]
    exact hh
  rw [slots_split hh, slots_split hh', hrest]
  omega

end Slots

/-- All references on a buffer object. -/
def owners (s : State) (L : Ledger) (b : Bo) : ℕ := L.bos b + L.filled.count b + s.slots b

/-- Every reference is accounted for, and what is gone was freed once. -/
structure Books (s : State) (L : Ledger) : Prop where
  refs : ∀ b ∈ s.boList, (s.bo b).refCnt = owners s L b
  owned : ∀ b ∈ s.boList, 0 < owners s L b
  filled : ∀ b ∈ L.filled, b ∈ s.boList
  slots : ∀ h ∈ s.surfList, ∀ b ∈ (s.surface h).held, b ∈ s.boList
  fresh : ∀ b, s.bos ≤ b → L.bos b = 0
  freed : ∀ b, s.frees.count b = if b < s.bos ∧ b ∉ s.boList then 1 else 0

section Books

variable {A : Allowed} {s s' : State} {L L' : Ledger} {b c : Bo} {h : Surface}

/-- A buffer object that is not live is in no slot. -/
theorem Books.absent (hb : Books s L) (hn : b ∉ s.boList) : s.slots b = 0 ∧ L.filled.count b = 0 :=
  ⟨slots_eq_zero fun h hh hin => hn (hb.slots h hh b hin),
    List.count_eq_zero.mpr fun hin => hn (hb.filled b hin)⟩

theorem Books.slot (hb : Books s L) {i : ℕ} (hh : h ∈ s.surfList)
    (hi : i < (s.surface h).numBos.toNat) (hs : (s.surface h).bos i = some b) : b ∈ s.boList := by
  apply hb.slots h hh
  unfold SurfaceData.held
  rw [List.mem_filterMap]
  exact ⟨i, List.mem_range.mpr hi, hs⟩

theorem Books.ledger (hb : Books s L) (he : ∀ b, owners s L' b = owners s L b)
    (hf : ∀ b ∈ L'.filled, b ∈ s.boList) (hz : ∀ b, s.bos ≤ b → L'.bos b = 0) : Books s L' := by
  refine { hb with refs := ?_, owned := ?_, filled := hf, fresh := hz }
  · intro b hin
    rw [he]
    exact hb.refs b hin
  · intro b hin
    rw [he]
    exact hb.owned b hin

theorem Books.linkBo (hb : Books s L) (hl : Life s L) (flags : ℤ) (p : Priv) (cnt : UInt32)
    (asked : Bo → Option ℤ) (ok : Bool) :
    Books { s.linkBo flags p with boCnt := cnt, asked := asked, freshAllocs := ok }
      (L.gain s.bos) := by
  have hnew : s.bos ∉ s.boList := fun hin => Nat.lt_irrefl _ (hl.fresh _ hin)
  obtain ⟨hs0, hf0⟩ := hb.absent hnew
  have hL0 := hb.fresh s.bos (Nat.le_refl _)
  have hself : owners { s.linkBo flags p with boCnt := cnt, asked := asked, freshAllocs := ok }
      (L.gain s.bos) s.bos = 1 := by
    show (L.gain s.bos).bos s.bos + L.filled.count s.bos + s.slots s.bos = 1
    simp [Ledger.gain, hs0, hf0, hL0]
  have hother {c : Bo} (hne : c ≠ s.bos) :
      owners { s.linkBo flags p with boCnt := cnt, asked := asked, freshAllocs := ok }
        (L.gain s.bos) c = owners s L c := by
    show (L.gain s.bos).bos c + L.filled.count c + s.slots c = owners s L c
    simp [Ledger.gain, hne, owners]
  refine ⟨?_, ?_, ?_, ?_, ?_, ?_⟩
  · intro c hc
    rcases List.mem_cons.mp hc with rfl | hc
    · rw [hself]
      simp [State.linkBo]
    · have hne : c ≠ s.bos := fun e => hnew (e ▸ hc)
      rw [hother hne, ← hb.refs c hc]
      simp [State.linkBo, hne]
  · intro c hc
    rcases List.mem_cons.mp hc with rfl | hc
    · rw [hself]
      omega
    · have hne : c ≠ s.bos := fun e => hnew (e ▸ hc)
      rw [hother hne]
      exact hb.owned c hc
  · intro c hc
    exact List.mem_cons_of_mem _ (hb.filled c hc)
  · intro k hk c hc
    exact List.mem_cons_of_mem _ (hb.slots k hk c hc)
  · intro c hc
    have hlt : s.bos < c := hc
    have hne : c ≠ s.bos := Nat.ne_of_gt hlt
    simpa [Ledger.gain, hne] using hb.fresh c (Nat.le_of_lt hlt)
  · intro c
    have hfrees : ({ s.linkBo flags p with boCnt := cnt, asked := asked, freshAllocs := ok } :
        State).frees = s.frees := rfl
    rw [hfrees, hb.freed c]
    by_cases e : c = s.bos
    · simp [State.linkBo, e]
    · have hiff : c < s.bos + 1 ↔ c < s.bos :=
        ⟨fun hlt => Nat.lt_of_le_of_ne (Nat.le_of_lt_succ hlt) e, Nat.lt_succ_of_lt⟩
      simp [State.linkBo, e, hiff]

/-- The number of references on one buffer object changes by as many in the ledger. -/
theorem Books.setRefCnt (hb : Books s L) {n : ℤ} (hb' : b ∈ s.boList) (hpos : 0 < n)
    (hother : ∀ c, c ≠ b → L'.bos c = L.bos c) (hm : L'.making = L.making)
    (hn : n - (s.bo b).refCnt = L'.bos b - L.bos b) (hz : b < s.bos) :
    Books (s.setRefCnt b n) L' := by
  have hf : L'.filled = L.filled := by simp [Ledger.filled, hm]
  have hown {c : Bo} (hne : c ≠ b) : owners (s.setRefCnt b n) L' c = owners s L c := by
    show L'.bos c + L'.filled.count c + s.slots c = owners s L c
    rw [hf, hother c hne]
    rfl
  have hself : n = owners (s.setRefCnt b n) L' b := by
    have hr := hb.refs b hb'
    show n = ((L'.bos b + L'.filled.count b + s.slots b : ℕ) : ℤ)
    rw [hf]
    simp only [owners] at hr
    push_cast at hr ⊢
    omega
  refine { hb with refs := ?_, owned := ?_, filled := ?_, fresh := ?_ }
  · intro c hc
    by_cases e : c = b
    · subst e
      rw [← hself]
      simp [State.setRefCnt, State.setBo]
    · rw [hown e, ← hb.refs c hc]
      simp [State.setRefCnt, State.setBo, e]
  · intro c hc
    by_cases e : c = b
    · subst e
      omega
    · rw [hown e]
      exact hb.owned c hc
  · intro c hc
    rw [hf] at hc
    exact hb.filled c hc
  · intro c hc
    have hne : c ≠ b := by
      rintro rfl
      exact absurd hz (Nat.not_lt.mpr hc)
    rw [hother c hne]
    exact hb.fresh c hc

theorem Books.free (hb : Books s L) (hl : Life s L) (hin : b ∈ s.boList)
    (h1 : (s.bo b).refCnt = 1) (hL : 0 < L.bos b) {bo : Bo → BoData} {unlocks : Bo → ℕ}
    {cnt : UInt32} (hbo : ∀ c, c ≠ b → bo c = s.bo c) :
    Books { s with
        boList := s.boList.erase b
        boCnt := cnt
        frees := s.frees ++ [b]
        bo := bo
        unlocks := unlocks }
      (L.lose b) := by
  have hr := hb.refs b hin
  rw [h1] at hr
  simp only [owners] at hr
  have hs0 : s.slots b = 0 := by omega
  have hf0 : L.filled.count b = 0 := by omega
  have hmem {c : Bo} (hne : c ≠ b) : c ∈ s.boList.erase b ↔ c ∈ s.boList :=
    List.mem_erase_of_ne hne
  have hne {c : Bo} (hc : c ∈ s.boList.erase b) : c ≠ b := (hl.nodup.mem_erase_iff.mp hc).1
  have hown {c : Bo} (hc : c ≠ b) : owners s (L.lose b) c = owners s L c := by
    show (L.lose b).bos c + L.filled.count c + s.slots c = owners s L c
    simp [Ledger.lose, hc, owners]
  refine ⟨?_, ?_, ?_, ?_, ?_, ?_⟩
  · intro c hc
    show (bo c).refCnt = owners s (L.lose b) c
    rw [hown (hne hc), hbo c (hne hc)]
    exact hb.refs c (List.mem_of_mem_erase hc)
  · intro c hc
    show 0 < owners s (L.lose b) c
    rw [hown (hne hc)]
    exact hb.owned c (List.mem_of_mem_erase hc)
  · intro c hc
    have hcb : c ≠ b := by
      rintro rfl
      exact absurd hc (List.count_eq_zero.mp hf0)
    exact (hmem hcb).mpr (hb.filled c hc)
  · intro k hk c hc
    have hcb : c ≠ b := by
      rintro rfl
      have hz := slots_split (s := s) hk c
      have hpos : 0 < (s.surface k).held.count c := List.count_pos_iff.mpr hc
      omega
    exact (hmem hcb).mpr (hb.slots k hk c hc)
  · intro c hc
    have h0 := hb.fresh c hc
    by_cases e : c = b
    · subst e
      omega
    · simpa [Ledger.lose, e] using h0
  · intro c
    show (s.frees ++ [b]).count c = _
    rw [List.count_append, hb.freed c]
    by_cases e : c = b
    · subst e
      have hlt := hl.fresh c hin
      have hout : c ∉ s.boList.erase c := fun h => (hne h) rfl
      simp [hin, hlt, hout]
    · have hbe : b ≠ c := fun h => e h.symm
      simp [hmem e, hbe]

theorem Books.teardown (hb : Books s L) (hl : Life s L) (hn : s.surfList = [])
    (hm : L.making = none) (mgrs : List Mgr) (cnt : UInt32) (n : ℤ) (bo : Bo → BoData)
    (unlocks : Bo → ℕ) :
    Books { s with
        gBufMgr := none
        refCount := n
        boList := []
        boCnt := cnt
        frees := s.frees ++ s.boList
        bo := bo
        unlocks := unlocks }
      { L with mgrs := mgrs } := by
  refine ⟨by simp, by simp, by simp [Ledger.filled, hm], by simp [hn], hb.fresh, ?_⟩
  intro c
  show (s.frees ++ s.boList).count c = _
  rw [List.count_append, hb.freed c]
  by_cases hc : c ∈ s.boList
  · have hlt := hl.fresh c hc
    simp [hc, hlt, List.count_eq_one_of_mem hl.nodup hc]
  · simp [hc, List.count_eq_zero.mpr hc]

/-- The references of the slots move from the ledger to the surface. -/
theorem Books.linkSurface (hb : Books s L) {l : List (Option Bo)} {v : SurfaceData}
    (hm : L.making = some (h, l)) (hnew : h ∉ s.surfList) (hn : v.numBos.toNat = l.length)
    (ht : v.bos = slotTable l) :
    Books (s.linkSurface h v) { L with making := none, owed := false } := by
  have hheld := held_slotTable hn ht
  have hfill : L.filled = l.reduceOption := by simp [Ledger.filled, hm]
  have hkeep : ∀ k ∈ s.surfList, (s.linkSurface h v).surface k = s.surface k := by
    intro k hk
    have hne : k ≠ h := fun e => hnew (e ▸ hk)
    simp [State.linkSurface, State.setSurface, hne]
  have hslots (c : Bo) : (s.linkSurface h v).slots c = l.reduceOption.count c + s.slots c := by
    rw [slots_eq, slots_eq]
    show ((h :: s.surfList).map fun k => ((s.linkSurface h v).surface k).held.count c).sum = _
    rw [List.map_cons, List.sum_cons]
    have hself : (s.linkSurface h v).surface h = v := by simp [State.linkSurface, State.setSurface]
    have hrest : (s.surfList.map fun k => ((s.linkSurface h v).surface k).held.count c) =
        s.surfList.map fun k => (s.surface k).held.count c := by
      apply List.map_congr_left
      intro k hk
      rw [hkeep k hk]
    rw [hself, hheld, hrest]
  have hown (c : Bo) : owners (s.linkSurface h v) { L with making := none, owed := false } c =
      owners s L c := by
    simp only [owners, hslots, hfill]
    show L.bos c + List.count c ([] : List Bo) + _ = _
    simp only [List.count_nil]
    omega
  refine { hb with refs := ?_, owned := ?_, filled := ?_, slots := ?_ }
  · intro c hc
    rw [hown]
    exact hb.refs c hc
  · intro c hc
    rw [hown]
    exact hb.owned c hc
  · simp [Ledger.filled]
  · intro k hk c hc
    rcases List.mem_cons.mp hk with rfl | hk
    · have hself : (s.linkSurface k v).surface k = v := by
        simp [State.linkSurface, State.setSurface]
      rw [hself, hheld, ← hfill] at hc
      exact hb.filled c hc
    · rw [hkeep k hk] at hc
      exact hb.slots k hk c hc

/-- A reference moves from a slot to the ledger. -/
theorem Books.takeSlot (hb : Books s L) (hl : Life s L) {i n : ℕ}
    (hd : L.dying = some (h, i, n)) (hi : i < n) (hs : (s.surface h).bos i = some b) :
    Books (s.setSlot h i none) { L.gain b with dying := some (h, i + 1, n) } := by
  obtain ⟨hh, hnum, -, -⟩ := hl.dying h i n hd
  have hi' : i < (s.surface h).numBos.toNat := by omega
  have hoff : ∀ k, k ≠ h → (s.setSlot h i none).surface k = s.surface k := by
    intro k hk
    simp [State.setSlot, State.setSurface, hk]
  have hheld : ∀ c, (s.surface h).held.count c =
      ((s.setSlot h i none).surface h).held.count c + if c = b then 1 else 0 := by
    apply held_emptied (i := i)
    · simp [State.setSlot, State.setSurface]
    · simp [State.setSlot, State.setSurface]
    · exact hi'
    · exact hs
  have hslots (c : Bo) : s.slots c = (s.setSlot h i none).slots c + if c = b then 1 else 0 := by
    have hset := slots_change (s := s) (t := s.setSlot h i none) rfl hl.surfNodup hh hoff c
    have := hheld c
    omega
  have hown (c : Bo) : owners (s.setSlot h i none) { L.gain b with dying := some (h, i + 1, n) } c =
      owners s L c := by
    show (L.gain b).bos c + L.filled.count c + (s.setSlot h i none).slots c = _
    simp only [owners, hslots]
    by_cases e : c = b
    · subst e
      simp only [Ledger.gain, Function.update_self, if_true]
      omega
    · simp [Ledger.gain, e]
  have hbin : b ∈ s.boList := hb.slot hh hi' hs
  refine { hb with refs := ?_, owned := ?_, slots := ?_, fresh := ?_ }
  · intro c hc
    rw [hown]
    exact hb.refs c hc
  · intro c hc
    rw [hown]
    exact hb.owned c hc
  · intro k hk c hc
    by_cases e : k = h
    · subst e
      have hpos := List.count_pos_iff.mpr hc
      have := hheld c
      exact hb.slots k hk c (List.count_pos_iff.mp (by omega))
    · rw [hoff k e] at hc
      exact hb.slots k hk c hc
  · intro c hc
    have hne : c ≠ b := by
      rintro rfl
      exact absurd (hl.fresh c hbin) (Nat.not_lt.mpr hc)
    simpa [Ledger.gain, hne] using hb.fresh c hc

theorem Books.unlinkSurface (hb : Books s L) (hl : Life s L) {n : ℕ} {o : Bool}
    (hd : L.dying = some (h, n, n)) :
    Books { s with surfList := s.surfList.erase h } { L with dying := none, owed := o } := by
  obtain ⟨hh, hnum, -, hnone⟩ := hl.dying h n n hd
  have hheld : (s.surface h).held = [] := by
    unfold SurfaceData.held
    rw [hnum, List.filterMap_eq_nil_iff]
    intro j hj
    exact hnone j (List.mem_range.mp hj)
  have hown (c : Bo) : owners { s with surfList := s.surfList.erase h }
      { L with dying := none, owed := o } c = owners s L c := by
    simp only [owners]
    rw [slots_split hh c, hheld, slots_eq]
    show L.bos c + L.filled.count c + _ = _
    simp
  refine { hb with refs := ?_, owned := ?_, slots := ?_ }
  · intro c hc
    rw [hown]
    exact hb.refs c hc
  · intro c hc
    rw [hown]
    exact hb.owned c hc
  · intro k hk
    exact hb.slots k (List.mem_of_mem_erase hk)

theorem Books.init (hb : Books s L) (hl : Life s L) {x : Answers} {m : Mgr} {mgrs : List Mgr}
    (hx : s.bufmgrInit x = (some m, s')) : Books s' { L with mgrs := mgrs } := by
  unfold State.bufmgrInit at hx
  split at hx
  · obtain ⟨-, rfl⟩ := Prod.mk.inj hx
    exact { hb with }
  next hg =>
    split_ifs at hx
    · obtain ⟨-, rfl⟩ := Prod.mk.inj hx
      have hn : s.boList = [] := hl.bos hg
      refine ⟨by simp, by simp, ?_, by simp, hb.fresh, ?_⟩
      · intro b hin
        simpa [hn] using hb.filled b hin
      · intro b
        have hfreed := hb.freed b
        rw [hn] at hfreed
        exact hfreed
    · simp at hx

/-- The list of surfaces is empty before and after. -/
theorem Books.openSurface (hb : Books s L) (hn : s.surfList = []) (m : Option Mgr)
    (mgrs : List Mgr) (o : Bool) :
    Books { s with surfaceBufmgr := m, surfList := [] } { L with mgrs := mgrs, owed := o } := by
  have hslots (c : Bo) : s.slots c = 0 := by simp [State.slots, hn]
  refine ⟨?_, ?_, hb.filled, by simp, hb.fresh, hb.freed⟩
  · intro c hc
    have hr := hb.refs c hc
    simp only [owners, hslots] at hr
    exact hr
  · intro c hc
    have ho := hb.owned c hc
    simp only [owners, hslots] at ho
    exact ho

theorem Books.ref (hb : Books s L) (hl : Life s L) (hin : b ∈ s.boList) :
    Books (s.setRefCnt b ((s.bo b).refCnt + 1)) (L.gain b) := by
  have hr := hb.refs b hin
  apply hb.setRefCnt hin
  · omega
  · intro c hc
    simp [Ledger.gain, hc]
  · rfl
  · simp only [Ledger.gain, Function.update_self]
    push_cast
    omega
  · exact hl.fresh b hin

theorem Books.unref (hb : Books s L) (hl : Life s L) (hin : b ∈ s.boList)
    (h1 : 1 < (s.bo b).refCnt) (hL : 0 < L.bos b) :
    Books (s.setRefCnt b ((s.bo b).refCnt - 1)) (L.lose b) := by
  apply hb.setRefCnt hin
  · omega
  · intro c hc
    simp [Ledger.lose, hc]
  · rfl
  · simp only [Ledger.lose, Function.update_self]
    omega
  · exact hl.fresh b hin

/-- A reference on what is gone does not count. -/
theorem Books.forget (hb : Books s L) (hd : b ∉ s.boList ∨ (s.bo b).refCnt ≤ 0) :
    Books s (L.lose b) := by
  have hout : b ∉ s.boList := by
    rcases hd with hd | hd
    · exact hd
    · intro hin
      have hr := hb.refs b hin
      have ho := hb.owned b hin
      omega
  have hown {c : Bo} (hne : c ≠ b) : owners s (L.lose b) c = owners s L c := by
    show (L.lose b).bos c + L.filled.count c + s.slots c = _
    simp [Ledger.lose, hne, owners]
  refine { hb with refs := ?_, owned := ?_, fresh := ?_ }
  · intro c hc
    rw [hown fun e => hout (e ▸ hc)]
    exact hb.refs c hc
  · intro c hc
    rw [hown fun e => hout (e ▸ hc)]
    exact hb.owned c hc
  · intro c hc
    have h0 := hb.fresh c hc
    by_cases e : c = b
    · subst e
      simp [Ledger.lose, h0]
    · simpa [Ledger.lose, e] using h0

theorem Books.refCnts (hb : Books s L) {bo : Bo → BoData}
    (hbo : ∀ c, (bo c).refCnt = (s.bo c).refCnt) : Books { s with bo := bo } L := by
  refine { hb with refs := ?_ }
  intro c hc
  rw [hbo]
  exact hb.refs c hc

/-- The surface in the making holds the same buffer objects. -/
theorem Books.remake (hb : Books s L) {making : Option (Surface × List (Option Bo))}
    (hf : ({ L with making := making } : Ledger).filled = L.filled) :
    Books s { L with making := making } := by
  apply hb.ledger
  · intro c
    simp only [owners, hf]
  · intro c hc
    rw [hf] at hc
    exact hb.filled c hc
  · exact hb.fresh

/-- A reference moves from the ledger to the surface in the making. -/
theorem Books.fill (hb : Books s L) {l : List (Option Bo)} (hm : L.making = some (h, l))
    (hin : b ∈ s.boList) (hL : 0 < L.bos b) :
    Books s { L.lose b with making := some (h, l ++ [some b]) } := by
  have hf : L.filled = l.reduceOption := by simp [Ledger.filled, hm]
  have hf' : ({ L.lose b with making := some (h, l ++ [some b]) } : Ledger).filled =
      L.filled ++ [b] := by
    simp [Ledger.filled, hm, List.reduceOption_append]
  apply hb.ledger
  · intro c
    simp only [owners, hf', List.count_append]
    by_cases e : c = b
    · subst e
      simp only [Ledger.lose, Function.update_self, List.count_singleton_self]
      omega
    · have hbe : b ≠ c := fun h => e h.symm
      simp [Ledger.lose, e, hbe]
  · intro c hc
    rw [hf'] at hc
    rcases List.mem_append.mp hc with hc | hc
    · exact hb.filled c hc
    · obtain rfl : c = b := by simpa using hc
      exact hin
  · intro c hc
    have h0 := hb.fresh c hc
    by_cases e : c = b
    · subst e
      omega
    · simpa [Ledger.lose, e] using h0

theorem Books.unfill (hb : Books s L) (hl : Life s L) {l : List (Option Bo)}
    (hm : L.making = some (h, some b :: l)) :
    Books s { L.gain b with making := some (h, l) } := by
  have hf : L.filled = b :: l.reduceOption := by simp [Ledger.filled, hm]
  have hf' : ({ L.gain b with making := some (h, l) } : Ledger).filled = l.reduceOption := rfl
  have hin : b ∈ s.boList := hb.filled b (by simp [hf])
  apply hb.ledger
  · intro c
    simp only [owners, hf, hf', List.count_cons]
    by_cases e : c = b
    · subst e
      simp only [Ledger.gain, Function.update_self, beq_self_eq_true, if_true]
      omega
    · have hbe : b ≠ c := fun h => e h.symm
      simp [Ledger.gain, e, hbe]
  · intro c hc
    rw [hf'] at hc
    exact hb.filled c (by simp [hf, hc])
  · intro c hc
    have hne : c ≠ b := by
      rintro rfl
      exact absurd (hl.fresh c hin) (Nat.not_lt.mpr hc)
    simpa [Ledger.gain, hne] using hb.fresh c hc

/-- The count of a surface is none of its slots. -/
theorem Books.setSurfaceRefcnt (hb : Books s L) (h : Surface) (n : ℤ) :
    Books (s.setSurfaceRefcnt h n) L := by
  have hheld (k : Surface) : ((s.setSurfaceRefcnt h n).surface k).held = (s.surface k).held := by
    by_cases e : k = h
    · subst e
      simp [State.setSurfaceRefcnt, State.setSurface, SurfaceData.held]
    · simp [State.setSurfaceRefcnt, State.setSurface, e]
  have hown (c : Bo) : owners (s.setSurfaceRefcnt h n) L c = owners s L c := by
    simp only [owners, State.slots, hheld]
    rfl
  refine { hb with refs := ?_, owned := ?_, slots := ?_ }
  · intro c hc
    rw [hown]
    exact hb.refs c hc
  · intro c hc
    rw [hown]
    exact hb.owned c hc
  · intro k hk c hc
    rw [hheld] at hc
    exact hb.slots k hk c hc

theorem Move.books (h : Move A s L s' L') (hl : Life s L) (hA : ¬A.stray) (hb : Books s L) :
    Books s' L' := by
  cases h with
  | init hx => exact hb.init hl hx
  | release => exact { hb with }
  | teardown hm hr hs =>
    have hmk : L.making = none := by
      by_contra hne
      obtain ⟨⟨k, l⟩, hk⟩ := Option.ne_none_iff_exists'.mp hne
      have hopen := (hl.making k l hk).2.2
      simp [(hl.last hm hr).2.2.1] at hopen
    exact hb.teardown hl hs hmk ..
  | openSurface hm hs => exact hb.openSurface (hl.surfs hs) ..
  | closeSurface => exact { hb with }
  | openQueue => exact { hb with }
  | closeQueue => exact { hb with }
  | boAlloc => exact hb.linkBo hl ..
  | surfaceBoAlloc => exact hb.linkBo hl ..
  | boImport => exact hb.linkBo hl ..
  | ref hin => exact hb.ref hl hin
  | unref hin h1 hL => exact hb.unref hl hin h1 (hL.resolve_left hA)
  | free hin h1 hL hbo => exact hb.free hl hin h1 (hL.resolve_left hA) hbo
  | forget hd => exact hb.forget hd
  | @swap _ b c =>
    apply hb.refCnts
    intro d
    by_cases e : d = c <;> by_cases e' : d = b <;> simp_all [State.setPriv, State.setBo]
  | @setBoSurface _ b k =>
    apply hb.refCnts
    intro d
    by_cases e : d = b <;> simp [e]
  | checked => exact { hb with }
  | newSurface hs hm => exact { hb.remake (by simp [Ledger.filled, hm]) with }
  | fill hm hin hL => exact hb.fill hm hin hL
  | gap hm => exact hb.remake (by simp [Ledger.filled, hm, List.reduceOption_append])
  | unfill hm => exact hb.unfill hl hm
  | skip hm => exact hb.remake (by simp [Ledger.filled, hm])
  | abandon hm => exact hb.remake (by simp [Ledger.filled, hm])
  | linkSurface hm hv hn h4 ht => exact hb.linkSurface hm (hl.making _ _ hm).2.1 hn ht
  | condemn => exact { hb with }
  | takeSlot hd hi hs => exact hb.takeSlot hl hd hi hs
  | unlinkSurface hd => exact hb.unlinkSurface hl hd
  | setSurfaceRefcnt => exact hb.setSurfaceRefcnt ..
  | linkQueue => exact { hb with }
  | unlinkQueue => exact { hb with }
  | setQueue => exact { hb with }

end Books

end Tbm.Bufmgr
