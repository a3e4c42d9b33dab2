import Tbm.Bufmgr.Operations
import Mathlib.Data.List.Basic
import Mathlib.Data.List.Nodup
import Mathlib.Logic.Relation

/-! The elementary changes the operations are made of, with a ledger of the references that no
global and no linked surface holds, and the invariant that makes every use of the manager safe. -/
namespace Tbm.Bufmgr

/-- References held outside the data, and the surface a call is working on. -/
structure Ledger where
  /-- References on the manager. -/
  mgrs : List Mgr
  /-- References on each buffer object. -/
  bos : Bo → ℕ
  /-- A surface that is not linked yet, with the slots filled so far. -/
  making : Option (Surface × List (Option Bo))
  /-- A surface that is being destroyed, the slots emptied so far and the number of its slots. -/
  dying : Option (Surface × ℕ × ℕ)
  /-- The surface code holds the manager although no surface is linked. -/
  owed : Bool

namespace Ledger

variable (L : Ledger)

def gain (b : Bo) : Ledger := { L with bos := Function.update L.bos b (L.bos b + 1) }

def lose (b : Bo) : Ledger := { L with bos := Function.update L.bos b (L.bos b - 1) }

/-- The buffer objects in the slots of a surface that is not linked yet. -/
def filled : List Bo :=
  match L.making with
  | some (_, l) => l.reduceOption
  | none => []

@[simp] theorem lose_gain (b : Bo) : (L.gain b).lose b = L := by simp [gain, lose]

end Ledger

/-- Steps that only some runs may take. -/
structure Allowed where
  /-- A reference is dropped that the ledger does not know of. -/
  stray : Prop
  /-- `surface_bo_alloc` succeeds. -/
  uncounted : Prop
  /-- A surface is linked with an empty slot. -/
  gaps : Prop

/-- What a step of an operation can do. -/
inductive Move (A : Allowed) : State → Ledger → State → Ledger → Prop
  | init {s s' L x m} (h : s.bufmgrInit x = (some m, s')) :
    Move A s L s' { L with mgrs := m :: L.mgrs }
  | release {s L m} (hm : m ∈ L.mgrs) (h : 1 < s.refCount) :
    Move A s L { s with refCount := s.refCount - 1 } { L with mgrs := L.mgrs.erase m }
  | teardown {s L m bo unlocks} (hm : m ∈ L.mgrs) (h : s.refCount ≤ 1) (hs : s.surfList = []) :
    Move A s L
      { s with
        gBufMgr := none
        refCount := s.refCount - 1
        boList := []
        boCnt := s.boCnt - .ofNat s.boList.length
        frees := s.frees ++ s.boList
        bo := bo
        unlocks := unlocks }
      { L with mgrs := L.mgrs.erase m }
  | openSurface {s L m} (hm : m ∈ L.mgrs) (h : s.surfaceBufmgr = none) :
    Move A s L { s with surfaceBufmgr := some m, surfList := [] }
      { L with mgrs := L.mgrs.erase m, owed := true }
  | closeSurface {s L m} (h : s.surfaceBufmgr = some m) (ho : L.owed = true)
    (hm : L.making = none) :
    Move A s L { s with surfaceBufmgr := none } { L with mgrs := m :: L.mgrs, owed := false }
  | openQueue {s L m} (hm : m ∈ L.mgrs) (h : s.surfQueueBufmgr = none) :
    Move A s L { s with surfQueueBufmgr := some m } { L with mgrs := L.mgrs.erase m }
  | closeQueue {s L m} (h : s.surfQueueBufmgr = some m) (hl : s.surfQueueList = []) :
    Move A s L { s with surfQueueBufmgr := none } { L with mgrs := m :: L.mgrs }
  | boAlloc {s L size flags p} (h : s.gBufMgr.isSome) :
    Move A s L (s.boAlloc size flags p) (L.gain s.bos)
  | surfaceBoAlloc {s L flags p} (h : s.gBufMgr.isSome) (ha : A.uncounted) :
    Move A s L (s.surfaceBoAlloc flags p) (L.gain s.bos)
  | boImport {s L flags p} (h : s.gBufMgr.isSome) (hp : ¬s.HasPriv p) :
    Move A s L { s.linkBo flags p with boCnt := s.boCnt + 1 } (L.gain s.bos)
  | ref {s L b} (hb : b ∈ s.boList) :
    Move A s L (s.setRefCnt b ((s.bo b).refCnt + 1)) (L.gain b)
  | unref {s L b} (hb : b ∈ s.boList) (h : 1 < (s.bo b).refCnt) (hL : A.stray ∨ 0 < L.bos b) :
    Move A s L (s.setRefCnt b ((s.bo b).refCnt - 1)) (L.lose b)
  | free {s L b bo unlocks} (hb : b ∈ s.boList) (h : (s.bo b).refCnt = 1)
    (hL : A.stray ∨ 0 < L.bos b) (hbo : ∀ c, c ≠ b → bo c = s.bo c) :
    Move A s L
      { s with
        boList := s.boList.erase b
        boCnt := s.boCnt - 1
        frees := s.frees ++ [b]
        bo := bo
        unlocks := unlocks }
      (L.lose b)
  /-- A reference on something that is gone. -/
  | forget {s L b} (hb : b ∉ s.boList ∨ (s.bo b).refCnt ≤ 0) (hL : A.stray ∨ 0 < L.bos b) :
    Move A s L s (L.lose b)
  | swap {s L b c} (hb : b ∈ s.boList) (hc : c ∈ s.boList) : Move A s L (s.boSwap b c) L
  | setBoSurface {s L b h} : Move A s L (s.setBoSurface b h) L
  | checked {s L n} : Move A s L { s with lastChkBoCnt := n } L
  | newSurface {s L} (h : s.surfaceBufmgr.isSome) (hm : L.making = none) :
    Move A s L s.newSurface.2 { L with making := some (s.surfaces, []) }
  | fill {s L h l b} (hm : L.making = some (h, l)) (hb : b ∈ s.boList) (hL : 0 < L.bos b) :
    Move A s L s { L.lose b with making := some (h, l ++ [some b]) }
  | gap {s L h l} (hm : L.making = some (h, l)) :
    Move A s L s { L with making := some (h, l ++ [none]) }
  | unfill {s L h l b} (hm : L.making = some (h, some b :: l)) :
    Move A s L s { L.gain b with making := some (h, l) }
  | skip {s L h l} (hm : L.making = some (h, none :: l)) :
    Move A s L s { L with making := some (h, l) }
  | abandon {s L h} (hm : L.making = some (h, [])) : Move A s L s { L with making := none }
  | linkSurface {s L h l v} (hm : L.making = some (h, l)) (hv : v.bufmgr = s.gBufMgr)
    (hn : v.numBos.toNat = l.length) (h4 : l.length ≤ 4) (hb : v.bos = slotTable l)
    (ha : A.gaps ∨ none ∉ l) :
    Move A s L (s.linkSurface h v) { L with making := none, owed := false }
  | condemn {s L h} (hh : h ∈ s.surfList) (hd : L.dying = none) :
    Move A s L s { L with dying := some (h, 0, (s.surface h).numBos.toNat) }
  | takeSlot {s L h i n b} (hd : L.dying = some (h, i, n)) (hi : i < n)
    (hb : (s.surface h).bos i = some b) :
    Move A s L (s.setSlot h i none) { L.gain b with dying := some (h, i + 1, n) }
  | unlinkSurface {s L h n} (hd : L.dying = some (h, n, n)) :
    Move A s L { s with surfList := s.surfList.erase h }
      { L with dying := none, owed := (s.surfList.erase h).isEmpty }
  | setSurfaceRefcnt {s L h n} : Move A s L (s.setSurfaceRefcnt h n) L
  | linkQueue {s L} (h : s.surfQueueBufmgr.isSome) : Move A s L s.linkQueue.2 L
  | unlinkQueue {s L q} :
    Move A s L { s with surfQueueList := s.surfQueueList.erase q } L
  | setQueue {s L q l} : Move A s L (s.setQueue q l) L

/-- The manager lives as long as somebody refers to it, everything on its lists belongs to it, and
no handle is on a list twice. -/
structure Life (s : State) (L : Ledger) : Prop where
  alive : s.gBufMgr.isSome ↔ 0 < s.refCount
  count : s.refCount = L.mgrs.length + (if s.surfaceBufmgr.isSome then 1 else 0) +
    (if s.surfQueueBufmgr.isSome then 1 else 0)
  mgrs : ∀ m ∈ L.mgrs, s.gBufMgr = some m
  loaded : ∀ m, s.gBufMgr = some m → m < s.mgrs
  surface : s.surfaceBufmgr = none ∨ s.surfaceBufmgr = s.gBufMgr
  surfQueue : s.surfQueueBufmgr = none ∨ s.surfQueueBufmgr = s.gBufMgr
  bos : s.gBufMgr = none → s.boList = []
  surfs : s.surfaceBufmgr = none → s.surfList = []
  queues : s.surfQueueBufmgr = none → s.surfQueueList = []
  linked : ∀ h ∈ s.surfList, (s.surface h).bufmgr = s.gBufMgr
  owed : L.owed = true ↔ s.surfaceBufmgr.isSome ∧ s.surfList = []
  nodup : s.boList.Nodup
  fresh : ∀ b ∈ s.boList, b < s.bos
  surfNodup : s.surfList.Nodup
  surfFresh : ∀ h ∈ s.surfList, h < s.surfaces
  making : ∀ h l, L.making = some (h, l) →
    h < s.surfaces ∧ h ∉ s.surfList ∧ s.surfaceBufmgr.isSome
  dying : ∀ h i n, L.dying = some (h, i, n) → h ∈ s.surfList ∧
    (s.surface h).numBos.toNat = n ∧ i ≤ n ∧ ∀ j < i, (s.surface h).bos j = none

section Life

variable {A : Allowed} {s s' : State} {L L' : Ledger} {m : Mgr}

/-- With one reference left and that one in the ledger, no global refers to the manager. -/
theorem Life.last (hl : Life s L) (hm : m ∈ L.mgrs) (h : s.refCount ≤ 1) :
    L.mgrs = [m] ∧ s.refCount = 1 ∧ s.surfaceBufmgr = none ∧ s.surfQueueBufmgr = none := by
  have hc := hl.count
  have hpos : 0 < L.mgrs.length := List.length_pos_of_mem hm
  have hs : s.surfaceBufmgr = none := by
    by_contra hne
    rw [if_pos (Option.isSome_iff_ne_none.mpr hne)] at hc
    split at hc <;> omega
  have hq : s.surfQueueBufmgr = none := by
    by_contra hne
    rw [if_pos (Option.isSome_iff_ne_none.mpr hne)] at hc
    split at hc <;> omega
  rw [hs, hq] at hc
  simp only [Option.isSome_none, Bool.false_eq_true, if_false] at hc
  obtain ⟨k, hk⟩ := List.length_eq_one_iff.mp (show L.mgrs.length = 1 by omega)
  rw [hk] at hm
  obtain rfl : m = k := by simpa using hm
  exact ⟨hk, by omega, hs, hq⟩

theorem Life.unloaded (hl : Life s L) (h : s.gBufMgr = none) :
    L.mgrs = [] ∧ s.refCount = 0 ∧ s.surfaceBufmgr = none ∧ s.surfQueueBufmgr = none := by
  have hs : s.surfaceBufmgr = none := by
    rcases hl.surface with hs | hs
    · exact hs
    · rw [hs, h]
  have hq : s.surfQueueBufmgr = none := by
    rcases hl.surfQueue with hq | hq
    · exact hq
    · rw [hq, h]
  have hm : L.mgrs = [] := by
    apply List.eq_nil_iff_forall_not_mem.mpr
    intro m hm
    have := hl.mgrs m hm
    rw [h] at this
    simp at this
  have hc := hl.count
  rw [hs, hq, hm] at hc
  exact ⟨hm, by simpa using hc, hs, hq⟩

theorem Life.init (hl : Life s L) {x : Answers} (h : s.bufmgrInit x = (some m, s')) :
    Life s' { L with mgrs := m :: L.mgrs } := by
  unfold State.bufmgrInit at h
  split at h
  next k hg =>
    obtain ⟨hk, rfl⟩ := Prod.mk.inj h
    obtain rfl := Option.some.inj hk
    have hpos := hl.alive.mp (by rw [hg]; rfl)
    refine { hl with alive := ?_, count := ?_, mgrs := ?_ }
    · simp only [hg, Option.isSome_some, true_iff]
      omega
    · have hc := hl.count
      simp only [List.length_cons] at hc ⊢
      omega
    · intro n hn
      rcases List.mem_cons.mp hn with rfl | hn
      · exact hg
      · exact hl.mgrs n hn
  next hg =>
    split_ifs at h with hx
    · obtain ⟨hk, rfl⟩ := Prod.mk.inj h
      obtain rfl := Option.some.inj hk
      obtain ⟨hm, -, hs, hq⟩ := hl.unloaded hg
      have hn : s.surfList = [] := hl.surfs hs
      refine { hl with alive := ?_, count := ?_, mgrs := ?_, loaded := ?_, surface := .inl hs,
                       surfQueue := .inl hq, bos := fun _ => rfl, surfs := fun _ => rfl,
                       queues := fun _ => rfl,
                       linked := ?_, owed := ?_, nodup := List.nodup_nil, fresh := ?_,
                       surfNodup := List.nodup_nil, surfFresh := ?_, making := ?_, dying := ?_ }
      · simp
      · simp [hm, hs, hq]
      · intro n hmem
        simpa [hm, eq_comm] using hmem
      · intro n hn
        obtain rfl := Option.some.inj hn
        exact Nat.lt_succ_self _
      · simp
      · have ho := hl.owed
        simpa [hs] using ho
      · simp
      · simp
      · intro h l hmk
        have := (hl.making h l hmk).2.2
        simp [hs] at this
      · intro h i n hd
        have := (hl.dying h i n hd).1
        simp [hn] at this
    · simp at h

theorem Life.erase (hl : Life s L) (hm : m ∈ L.mgrs) :
    s.gBufMgr = some m ∧ (L.mgrs.erase m).length + 1 = L.mgrs.length ∧
      ∀ n ∈ L.mgrs.erase m, s.gBufMgr = some n := by
  have hpos := List.length_pos_of_mem hm
  have hlen := List.length_erase_of_mem hm
  refine ⟨hl.mgrs m hm, by omega, ?_⟩
  intro n hn
  exact hl.mgrs n (List.mem_of_mem_erase hn)

theorem Life.release (hl : Life s L) (hm : m ∈ L.mgrs) (h : 1 < s.refCount) :
    Life { s with refCount := s.refCount - 1 } { L with mgrs := L.mgrs.erase m } := by
  obtain ⟨hg, hlen, hall⟩ := hl.erase hm
  refine { hl with alive := ?_, count := ?_, mgrs := hall }
  · simp only [hg, Option.isSome_some, true_iff]
    omega
  · have hc := hl.count
    simp only
    omega

theorem Life.teardown (hl : Life s L) (hm : m ∈ L.mgrs) (h : s.refCount ≤ 1) (cnt : UInt32)
    (frees : List Bo) (bo : Bo → BoData) (unlocks : Bo → ℕ) :
    Life { s with
        gBufMgr := none
        refCount := s.refCount - 1
        boList := []
        boCnt := cnt
        frees := frees
        bo := bo
        unlocks := unlocks }
      { L with mgrs := L.mgrs.erase m } := by
  obtain ⟨hmgrs, h1, hs, hq⟩ := hl.last hm h
  have hn : s.surfList = [] := hl.surfs hs
  refine { hl with alive := ?_, count := ?_, mgrs := ?_, loaded := ?_, surface := .inl hs,
                   surfQueue := .inl hq, bos := fun _ => rfl, linked := ?_,
                   nodup := List.nodup_nil, fresh := ?_ }
  · simp [h1]
  · simp [h1, hmgrs, hs, hq]
  · simp [hmgrs]
  · simp
  · simp [hn]
  · simp

theorem Life.openSurface (hl : Life s L) (hm : m ∈ L.mgrs) (h : s.surfaceBufmgr = none) :
    Life { s with surfaceBufmgr := some m, surfList := [] }
      { L with mgrs := L.mgrs.erase m, owed := true } := by
  obtain ⟨hg, hlen, hall⟩ := hl.erase hm
  refine { hl with count := ?_, mgrs := hall, surface := .inr hg.symm, surfs := fun _ => rfl,
                   linked := ?_, owed := ?_, surfNodup := List.nodup_nil, surfFresh := ?_,
                   making := ?_, dying := ?_ }
  · have hc := hl.count
    simp only [h, Option.isSome_none, Option.isSome_some, Bool.false_eq_true, if_false, if_true]
      at hc ⊢
    omega
  · simp
  · simp
  · simp
  · intro k l hk
    exact ⟨(hl.making k l hk).1, by simp, rfl⟩
  · intro k i n hk
    have := (hl.dying k i n hk).1
    simp [hl.surfs h] at this

theorem Life.closeSurface (hl : Life s L) (h : s.surfaceBufmgr = some m) (ho : L.owed = true)
    (hm : L.making = none) :
    Life { s with surfaceBufmgr := none } { L with mgrs := m :: L.mgrs, owed := false } := by
  have hn : s.surfList = [] := (hl.owed.mp ho).2
  have hg : s.gBufMgr = some m := by
    rcases hl.surface with hs | hs
    · simp [h] at hs
    · rw [← hs, h]
  refine { hl with count := ?_, mgrs := ?_, surface := .inl rfl, surfs := fun _ => hn, owed := ?_,
                   making := ?_ }
  · have hc := hl.count
    simp only [h, Option.isSome_some, Option.isSome_none, Bool.false_eq_true, if_false, if_true,
      List.length_cons] at hc ⊢
    omega
  · intro n hn
    rcases List.mem_cons.mp hn with rfl | hn
    · exact hg
    · exact hl.mgrs n hn
  · simp
  · simp [hm]

theorem Life.openQueue (hl : Life s L) (hm : m ∈ L.mgrs) (h : s.surfQueueBufmgr = none) :
    Life { s with surfQueueBufmgr := some m } { L with mgrs := L.mgrs.erase m } := by
  obtain ⟨hg, hlen, hall⟩ := hl.erase hm
  refine { hl with count := ?_, mgrs := hall, surfQueue := .inr hg.symm, queues := ?_ }
  · have hc := hl.count
    simp only [h, Option.isSome_none, Option.isSome_some, Bool.false_eq_true, if_false, if_true]
      at hc ⊢
    omega
  · simp

theorem Life.closeQueue (hl : Life s L) (h : s.surfQueueBufmgr = some m)
    (hn : s.surfQueueList = []) :
    Life { s with surfQueueBufmgr := none } { L with mgrs := m :: L.mgrs } := by
  have hg : s.gBufMgr = some m := by
    rcases hl.surfQueue with hs | hs
    · simp [h] at hs
    · rw [← hs, h]
  refine { hl with count := ?_, mgrs := ?_, surfQueue := .inl rfl, queues := fun _ => hn }
  · have hc := hl.count
    simp only [h, Option.isSome_some, Option.isSome_none, Bool.false_eq_true, if_false, if_true,
      List.length_cons] at hc ⊢
    omega
  · intro n hn
    rcases List.mem_cons.mp hn with rfl | hn
    · exact hg
    · exact hl.mgrs n hn

theorem Life.linkBo (hl : Life s L) (h : s.gBufMgr.isSome) (flags : ℤ) (p : Priv) (cnt : UInt32)
    (asked : Bo → Option ℤ) (ok : Bool) :
    Life { s.linkBo flags p with boCnt := cnt, asked := asked, freshAllocs := ok }
      (L.gain s.bos) := by
  have hnew : s.bos ∉ s.boList := fun hb => Nat.lt_irrefl _ (hl.fresh _ hb)
  refine { hl with bos := ?_, nodup := List.nodup_cons.mpr ⟨hnew, hl.nodup⟩, fresh := ?_ }
  · intro hg
    have hg' : s.gBufMgr = none := hg
    simp [hg'] at h
  · intro b hb
    rcases List.mem_cons.mp hb with rfl | hb
    · exact Nat.lt_succ_self _
    · exact Nat.lt_succ_of_lt (hl.fresh b hb)

theorem Life.eraseBo (hl : Life s L) (b : Bo) (cnt : UInt32) (frees : List Bo) (bo : Bo → BoData)
    (unlocks : Bo → ℕ) :
    Life { s with
        boList := s.boList.erase b
        boCnt := cnt
        frees := frees
        bo := bo
        unlocks := unlocks }
      (L.lose b) := by
  refine { hl with bos := ?_, nodup := hl.nodup.erase b, fresh := ?_ }
  · intro hg
    have hn := hl.bos hg
    simp [hn]
  · intro c hc
    exact hl.fresh c (List.mem_of_mem_erase hc)

theorem Life.newSurface (hl : Life s L) (h : s.surfaceBufmgr.isSome) :
    Life s.newSurface.2 { L with making := some (s.surfaces, []) } := by
  refine { hl with surfFresh := ?_, making := ?_ }
  · intro k hk
    exact Nat.lt_succ_of_lt (hl.surfFresh k hk)
  · intro k l hk
    obtain ⟨rfl, rfl⟩ : s.surfaces = k ∧ [] = l := by simpa using hk
    exact ⟨Nat.lt_succ_self _, fun hin => Nat.lt_irrefl _ (hl.surfFresh _ hin), h⟩

/-- The slots of the surface that is made play no part here. -/
theorem Life.making_slots (hl : Life s L) {h : Surface} {l l' : List (Option Bo)}
    (hm : L.making = some (h, l)) (bos : Bo → ℕ) :
    Life s { L with bos := bos, making := some (h, l') } := by
  refine { hl with making := ?_ }
  intro k k' hk
  obtain ⟨rfl, rfl⟩ : h = k ∧ l' = k' := by simpa using hk
  exact hl.making h l hm

theorem Life.linkSurface (hl : Life s L) {h : Surface} {l : List (Option Bo)} {v : SurfaceData}
    (hm : L.making = some (h, l)) (hv : v.bufmgr = s.gBufMgr) :
    Life (s.linkSurface h v) { L with making := none, owed := false } := by
  obtain ⟨hlt, hnew, hsb⟩ := hl.making h l hm
  refine { hl with surfs := ?_, linked := ?_, owed := ?_,
                   surfNodup := List.nodup_cons.mpr ⟨hnew, hl.surfNodup⟩, surfFresh := ?_,
                   making := ?_, dying := ?_ }
  · intro hs
    have hs' : s.surfaceBufmgr = none := hs
    simp [hs'] at hsb
  · intro k hk
    by_cases e : k = h
    · subst e
      simpa [State.linkSurface, State.setSurface] using hv
    · have hk' : k ∈ s.surfList := by simpa [State.linkSurface, e] using hk
      simpa [State.linkSurface, State.setSurface, e] using hl.linked k hk'
  · simp [State.linkSurface]
  · intro k hk
    rcases List.mem_cons.mp hk with rfl | hk
    · exact hlt
    · exact hl.surfFresh k hk
  · simp
  · intro k i n hd
    obtain ⟨hk, hrest⟩ := hl.dying k i n hd
    have e : k ≠ h := fun e => hnew (e ▸ hk)
    refine ⟨List.mem_cons_of_mem h hk, ?_⟩
    simpa [State.linkSurface, State.setSurface, e] using hrest

theorem Life.condemn (hl : Life s L) {h : Surface} (hh : h ∈ s.surfList) :
    Life s { L with dying := some (h, 0, (s.surface h).numBos.toNat) } := by
  refine { hl with dying := ?_ }
  intro k i n hk
  obtain ⟨rfl, rfl, rfl⟩ : h = k ∧ 0 = i ∧ (s.surface h).numBos.toNat = n := by simpa using hk
  exact ⟨hh, rfl, Nat.zero_le _, by simp⟩

theorem Life.takeSlot (hl : Life s L) {h : Surface} {i n : ℕ} (hd : L.dying = some (h, i, n))
    (hi : i < n) (bos : Bo → ℕ) :
    Life (s.setSlot h i none) { L with bos := bos, dying := some (h, i + 1, n) } := by
  obtain ⟨hh, hn, -, hnone⟩ := hl.dying h i n hd
  refine { hl with linked := ?_, dying := ?_ }
  · intro k hk
    by_cases e : k = h
    · subst e
      simpa [State.setSlot, State.setSurface] using hl.linked k hk
    · simpa [State.setSlot, State.setSurface, e] using hl.linked k hk
  · intro k j n' hk
    obtain ⟨rfl, rfl, rfl⟩ : h = k ∧ i + 1 = j ∧ n = n' := by simpa using hk
    refine ⟨hh, by simpa [State.setSlot, State.setSurface] using hn, hi, fun j hj => ?_⟩
    by_cases e : j = i
    · simp [State.setSlot, State.setSurface, e]
    · simpa [State.setSlot, State.setSurface, e] using hnone j (by omega)

theorem Life.unlinkSurface (hl : Life s L) {h : Surface} {n : ℕ}
    (hd : L.dying = some (h, n, n)) :
    Life { s with surfList := s.surfList.erase h }
      { L with dying := none, owed := (s.surfList.erase h).isEmpty } := by
  obtain ⟨hh, -⟩ := hl.dying h n n hd
  have hsb : s.surfaceBufmgr ≠ none := fun hs => by simp [hl.surfs hs] at hh
  refine { hl with surfs := ?_, linked := ?_, owed := ?_, surfNodup := hl.surfNodup.erase h,
                   surfFresh := ?_, making := ?_, dying := ?_ }
  · intro hs
    exact absurd hs hsb
  · intro k hk
    exact hl.linked k (List.mem_of_mem_erase hk)
  · simp [Option.isSome_iff_ne_none, hsb]
  · intro k hk
    exact hl.surfFresh k (List.mem_of_mem_erase hk)
  · intro k l hk
    obtain ⟨hlt, hnew, hs⟩ := hl.making k l hk
    exact ⟨hlt, fun hin => hnew (List.mem_of_mem_erase hin), hs⟩
  · simp

theorem Life.setSurfaceRefcnt (hl : Life s L) (h : Surface) (n : ℤ) :
    Life (s.setSurfaceRefcnt h n) L := by
  refine { hl with linked := ?_, dying := ?_ }
  · intro k hk
    by_cases e : k = h
    · subst e
      simpa [State.setSurfaceRefcnt, State.setSurface] using hl.linked k hk
    · simpa [State.setSurfaceRefcnt, State.setSurface, e] using hl.linked k hk
  · intro k i m hk
    by_cases e : k = h
    · subst e
      simpa [State.setSurfaceRefcnt, State.setSurface] using hl.dying k i m hk
    · simpa [State.setSurfaceRefcnt, State.setSurface, e] using hl.dying k i m hk

theorem Move.life (h : Move A s L s' L') (hl : Life s L) : Life s' L' := by
  cases h with
  | init hx => exact hl.init hx
  | release hm hr => exact hl.release hm hr
  | teardown hm hr hs => exact hl.teardown hm hr ..
  | openSurface hm hs => exact hl.openSurface hm hs
  | closeSurface hs ho hm => exact hl.closeSurface hs ho hm
  | openQueue hm hs => exact hl.openQueue hm hs
  | closeQueue hs hn => exact hl.closeQueue hs hn
  | boAlloc hg => exact hl.linkBo hg ..
  | surfaceBoAlloc hg => exact hl.linkBo hg ..
  | boImport hg => exact hl.linkBo hg ..
  | ref => exact { hl with }
  | unref => exact { hl with }
  | free => exact hl.eraseBo ..
  | forget => exact { hl with }
  | swap => exact { hl with }
  | setBoSurface => exact { hl with }
  | checked => exact { hl with }
  | newSurface hs => exact hl.newSurface hs
  | fill hm => exact hl.making_slots hm _
  | gap hm => exact hl.making_slots hm _
  | unfill hm => exact hl.making_slots hm _
  | skip hm => exact hl.making_slots hm _
  | abandon hm => exact { hl with making := by simp }
  | linkSurface hm hv => exact hl.linkSurface hm hv
  | condemn hh => exact hl.condemn hh
  | takeSlot hd hi => exact hl.takeSlot hd hi _
  | unlinkSurface hd => exact hl.unlinkSurface hd
  | setSurfaceRefcnt => exact hl.setSurfaceRefcnt ..
  | linkQueue hq =>
    refine { hl with queues := ?_ }
    intro hn
    have hn' : s.surfQueueBufmgr = none := hn
    simp [hn'] at hq
  | unlinkQueue => exact { hl with queues := fun hn => by simp [hl.queues hn] }
  | setQueue => exact { hl with }

end Life

/-- A sequence of moves. -/
def Moves (A : Allowed) (s : State) (L : Ledger) (s' : State) (L' : Ledger) : Prop :=
  Relation.ReflTransGen (fun c d : State × Ledger => Move A c.1 c.2 d.1 d.2) (s, L) (s', L')

section Moves

variable {A : Allowed} {s s' t : State} {L L' K : Ledger}

theorem Moves.refl : Moves A s L s L := Relation.ReflTransGen.refl

theorem Moves.trans (h : Moves A s L s' L') (h' : Moves A s' L' t K) : Moves A s L t K :=
  Relation.ReflTransGen.trans h h'

theorem Moves.tail (h : Moves A s L s' L') (h' : Move A s' L' t K) : Moves A s L t K :=
  Relation.ReflTransGen.tail h h'

theorem Move.moves (h : Move A s L s' L') : Moves A s L s' L' := Moves.refl.tail h

theorem Moves.keep {P : State → Ledger → Prop}
    (hP : ∀ {s s' L L'}, Life s L → Move A s L s' L' → P s L → P s' L')
    (h : Moves A s L s' L') (hl : Life s L) (hs : P s L) : Life s' L' ∧ P s' L' := by
  suffices ∀ d : State × Ledger,
      Relation.ReflTransGen (fun c d : State × Ledger => Move A c.1 c.2 d.1 d.2) (s, L) d →
        Life d.1 d.2 ∧ P d.1 d.2 from this _ h
  intro d hd
  induction hd with
  | refl => exact ⟨hl, hs⟩
  | tail _ hm ih => exact ⟨hm.life ih.1, hP ih.1 hm ih.2⟩

theorem Moves.life (h : Moves A s L s' L') (hl : Life s L) : Life s' L' :=
  (h.keep (P := fun _ _ => True) (fun _ _ _ => trivial) hl trivial).1

end Moves

end Tbm.Bufmgr
