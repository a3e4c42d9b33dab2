import Mathlib.Data.List.Nodup
import Mathlib.Data.List.Perm.Subperm
import Mathlib.Logic.Function.Basic

/-! Intrusive circular doubly linked lists over an arbitrary type of link cells. The memory
is the pair of successor and predecessor maps; `Ring` says which cells a head links. -/
namespace Tbm

/-- The `next` and `prev` fields of every link cell. -/
structure Links (κ : Type) where
  next : κ → κ
  prev : κ → κ

namespace Links

variable {κ : Type}

/-- The cells after `a` and up to `b` are exactly `xs`, in both directions. -/
def Chain (m : Links κ) (a : κ) : List κ → κ → Prop
  | [], b => m.next a = b ∧ m.prev b = a
  | x :: xs, b => m.next a = x ∧ m.prev x = a ∧ Chain m x xs b

/-- The head `h` links exactly the cells `xs`, each once. -/
structure Ring (m : Links κ) (h : κ) (xs : List κ) : Prop where
  nodup : (h :: xs).Nodup
  chain : m.Chain h xs h

theorem chain_append (m : Links κ) (a b x : κ) (xs ys : List κ) :
    m.Chain a (xs ++ x :: ys) b ↔ m.Chain a xs x ∧ m.Chain x ys b := by
  induction xs generalizing a with
  | nil => simp only [List.nil_append, Chain, and_assoc]
  | cons y xs ih => simp only [List.cons_append, Chain, ih, and_assoc]

theorem Chain.next_mem {m : Links κ} {a b : κ} {xs : List κ} (h : m.Chain a xs b) :
    m.next a ∈ xs ++ [b] := by
  cases xs with
  | nil => simp [h.1]
  | cons x xs => simp [h.1]

theorem Chain.prev_mem {m : Links κ} {a b : κ} {xs : List κ} (h : m.Chain a xs b) :
    m.prev b ∈ a :: xs := by
  induction xs generalizing a with
  | nil => simp [h.2]
  | cons x xs ih => exact List.mem_cons_of_mem _ (ih h.2.2)

theorem Chain.prev_next {m : Links κ} {a b : κ} {xs : List κ} (h : m.Chain a xs b) :
    m.prev (m.next a) = a := by
  cases xs with
  | nil => rw [h.1, h.2]
  | cons x xs => rw [h.1, h.2.1]

theorem Chain.next_prev {m : Links κ} {a b : κ} {xs : List κ} (h : m.Chain a xs b) :
    m.next (m.prev b) = b := by
  induction xs generalizing a with
  | nil => rw [h.2, h.1]
  | cons x xs ih => exact ih h.2.2

/-- A chain only depends on the successors of its cells and the predecessors behind them. -/
theorem Chain.congr {m m' : Links κ} {a b : κ} {xs : List κ} (h : m.Chain a xs b)
    (hn : ∀ c ∈ a :: xs, m'.next c = m.next c) (hp : ∀ c ∈ xs ++ [b], m'.prev c = m.prev c) :
    m'.Chain a xs b := by
  induction xs generalizing a with
  | nil =>
    have hna := hn a (by simp)
    have hpb := hp b (by simp)
    exact ⟨hna.trans h.1, hpb.trans h.2⟩
  | cons x xs ih =>
    have hna := hn a (by simp)
    have hpx := hp x (by simp)
    refine ⟨hna.trans h.1, hpx.trans h.2.1, ih h.2.2 ?_ ?_⟩
    · exact fun c hc => hn c (List.mem_cons_of_mem _ hc)
    · exact fun c hc => hp c (List.mem_cons_of_mem _ hc)

theorem Chain.unique {m : Links κ} {a b : κ} {xs ys : List κ} (hx : m.Chain a xs b)
    (hy : m.Chain a ys b) (hbx : b ∉ xs) (hby : b ∉ ys) : xs = ys := by
  induction xs generalizing a ys with
  | nil =>
    cases ys with
    | nil => rfl
    | cons y ys => exact absurd (hx.1.symm.trans hy.1) (by simp_all)
  | cons x xs ih =>
    cases ys with
    | nil => exact absurd (hy.1.symm.trans hx.1) (by simp_all)
    | cons y ys =>
      obtain rfl : x = y := hx.1.symm.trans hy.1
      simp only [List.mem_cons, not_or] at hbx hby
      rw [ih hx.2.2 hy.2.2 hbx.2 hby.2]

/-- A property that goes on from the cell before the chain along the successors. -/
theorem Chain.forward {m : Links κ} {a b : κ} {xs : List κ} {P : κ → Prop} (h : m.Chain a xs b)
    (ha : P a) (hstep : ∀ c ∈ a :: xs, P c → P (m.next c)) : ∀ c ∈ a :: xs, P c := by
  induction xs generalizing a with
  | nil =>
    intro c hc
    rw [List.mem_singleton.mp hc]
    exact ha
  | cons x xs ih =>
    have hx : P x := h.1 ▸ hstep a (by simp) ha
    exact List.forall_mem_cons.mpr
      ⟨ha, ih h.2.2 hx fun c hc => hstep c (List.mem_cons_of_mem _ hc)⟩

/-- The same from its end along the predecessors. -/
theorem Chain.backward {m : Links κ} {a b : κ} {xs : List κ} {P : κ → Prop} (h : m.Chain a xs b)
    (hb : P b) (hstep : ∀ c ∈ xs ++ [b], P c → P (m.prev c)) : ∀ c ∈ a :: xs, P c := by
  induction xs generalizing a with
  | nil =>
    intro c hc
    rw [List.mem_singleton.mp hc, ← h.2]
    exact hstep b (by simp) hb
  | cons x xs ih =>
    have hxs := ih h.2.2 fun c hc => hstep c (List.mem_cons_of_mem _ hc)
    have hx : P x := hxs x (by simp)
    have ha : P a := h.2.1 ▸ hstep x (by simp) hx
    exact List.forall_mem_cons.mpr ⟨ha, hxs⟩

theorem ring_nil {m : Links κ} {h : κ} : m.Ring h [] ↔ m.next h = h ∧ m.prev h = h :=
  ⟨fun r => r.chain, fun e => ⟨by simp, e⟩⟩

namespace Ring

variable {m m' : Links κ} {h : κ} {xs ys : List κ}

theorem head_notMem (r : m.Ring h xs) : h ∉ xs := (List.nodup_cons.mp r.nodup).1

theorem list_nodup (r : m.Ring h xs) : xs.Nodup := (List.nodup_cons.mp r.nodup).2

theorem unique (r : m.Ring h xs) (s : m.Ring h ys) : xs = ys :=
  r.chain.unique s.chain r.head_notMem s.head_notMem

/-- The frame rule: cells outside the ring may be written freely. -/
theorem congr (r : m.Ring h xs)
    (e : ∀ c ∈ h :: xs, m'.next c = m.next c ∧ m'.prev c = m.prev c) : m'.Ring h xs := by
  refine ⟨r.nodup, r.chain.congr (fun c hc => (e c hc).1) (fun c hc => (e c ?_).2)⟩
  simpa [or_comm] using hc

theorem next_head_eq (r : m.Ring h xs) : m.next h = h ↔ xs = [] := by
  cases xs with
  | nil => simp [r.chain.1]
  | cons x xs =>
    have hne : x ≠ h := fun e => r.head_notMem (by simp [e])
    simp [r.chain.1, hne]

theorem next_head (r : m.Ring h xs) : m.next h = xs.headD h := by
  cases xs with
  | nil => exact r.chain.1
  | cons x xs => exact r.chain.1

theorem next_first {x : κ} (r : m.Ring h (x :: xs)) : m.next x = xs.headD h := by
  cases xs with
  | nil => exact r.chain.2.2.1
  | cons y ys => exact r.chain.2.2.1

theorem next_split {x : κ} (r : m.Ring h (xs ++ x :: ys)) : m.next x = ys.headD h := by
  have hchain := ((chain_append m h h x xs ys).mp r.chain).2
  cases ys with
  | nil => exact hchain.1
  | cons y ys => exact hchain.1

/-- Every member is linked from both sides, and its neighbours belong to the ring. -/
theorem linked (r : m.Ring h xs) {x : κ} (hx : x ∈ xs) :
    m.next (m.prev x) = x ∧ m.prev (m.next x) = x ∧ m.prev x ∈ h :: xs ∧ m.next x ∈ h :: xs := by
  obtain ⟨as, bs, rfl⟩ := List.append_of_mem hx
  obtain ⟨hl, hr⟩ := (chain_append m h h x as bs).mp r.chain
  refine ⟨hl.next_prev, hr.prev_next, ?_, ?_⟩
  · have hm := hl.prev_mem
    simp only [List.mem_cons, List.mem_append] at hm ⊢
    tauto
  · have hm := hr.next_mem
    simp only [List.mem_cons, List.mem_append, List.not_mem_nil, or_false] at hm ⊢
    tauto

/-- The neighbours of every cell are in the ring and point back at it. -/
theorem closed (r : m.Ring h xs) {c : κ} (hc : c ∈ h :: xs) :
    (m.next c ∈ h :: xs ∧ m.prev (m.next c) = c) ∧ m.prev c ∈ h :: xs ∧ m.next (m.prev c) = c := by
  rcases List.mem_cons.mp hc with rfl | hx
  · have hn := r.chain.next_mem
    rw [List.mem_append, List.mem_singleton, or_comm, ← List.mem_cons] at hn
    exact ⟨⟨hn, r.chain.prev_next⟩, r.chain.prev_mem, r.chain.next_prev⟩
  · obtain ⟨hnp, hpn, hp, hn⟩ := r.linked hx
    exact ⟨⟨hn, hpn⟩, hp, hnp⟩

theorem forward {P : κ → Prop} (r : m.Ring h xs) (hh : P h)
    (hstep : ∀ c ∈ h :: xs, P c → P (m.next c)) : ∀ c ∈ h :: xs, P c := r.chain.forward hh hstep

theorem backward {P : κ → Prop} (r : m.Ring h xs) (hh : P h)
    (hstep : ∀ c ∈ h :: xs, P c → P (m.prev c)) : ∀ c ∈ h :: xs, P c :=
  r.chain.backward hh fun c hc => hstep c (by simpa [or_comm] using hc)

/-- Among as many cells a ring has all of them. -/
theorem mem_iff (r : m.Ring h xs) (hsub : ∀ c ∈ h :: xs, c ∈ h :: ys)
    (hlen : xs.length = ys.length) {c : κ} : c ∈ h :: xs ↔ c ∈ h :: ys := by
  have hp : (h :: xs).Perm (h :: ys) :=
    (List.subperm_of_subset r.nodup hsub).perm_of_length_le (by simp [hlen])
  exact hp.mem_iff

end Ring

variable [DecidableEq κ]

def setNext (m : Links κ) (c v : κ) : Links κ := { m with next := Function.update m.next c v }

def setPrev (m : Links κ) (c v : κ) : Links κ := { m with prev := Function.update m.prev c v }

@[simp] theorem setNext_next (m : Links κ) (c v x : κ) :
    (m.setNext c v).next x = if x = c then v else m.next x := by
  simp [setNext, Function.update_apply]

@[simp] theorem setNext_prev (m : Links κ) (c v : κ) : (m.setNext c v).prev = m.prev := rfl

@[simp] theorem setPrev_prev (m : Links κ) (c v x : κ) :
    (m.setPrev c v).prev x = if x = c then v else m.prev x := by
  simp [setPrev, Function.update_apply]

@[simp] theorem setPrev_next (m : Links κ) (c v : κ) : (m.setPrev c v).next = m.next := rfl

def inithead (m : Links κ) (item : κ) : Links κ := (m.setPrev item item).setNext item item

def add (m : Links κ) (item list : κ) : Links κ :=
  let m := m.setPrev item list
  let m := m.setNext item (m.next list)
  let m := m.setPrev (m.next list) item
  m.setNext list item

def addtail (m : Links κ) (item list : κ) : Links κ :=
  let m := m.setNext item list
  let m := m.setPrev item (m.prev list)
  let m := m.setNext (m.prev list) item
  m.setPrev list item

/-- The fields of `item` itself keep their old, from now on stale, values. -/
def del (m : Links κ) (item : κ) : Links κ :=
  let m := m.setNext (m.prev item) (m.next item)
  m.setPrev (m.next item) (m.prev item)

def isEmpty (m : Links κ) (list : κ) : Bool := m.next list = list

@[simp] theorem inithead_next (m : Links κ) (item c : κ) :
    (m.inithead item).next c = if c = item then item else m.next c := by
  simp [inithead]

@[simp] theorem inithead_prev (m : Links κ) (item c : κ) :
    (m.inithead item).prev c = if c = item then item else m.prev c := by
  simp [inithead]

@[simp] theorem add_next (m : Links κ) (item list c : κ) :
    (m.add item list).next c =
      if c = list then item else if c = item then m.next list else m.next c := by
  simp [add]

@[simp] theorem add_prev (m : Links κ) (item list c : κ) :
    (m.add item list).prev c =
      if c = m.next list then item else if c = item then list else m.prev c := by
  simp [add]

@[simp] theorem addtail_next (m : Links κ) (item list c : κ) :
    (m.addtail item list).next c =
      if c = m.prev list then item else if c = item then list else m.next c := by
  simp [addtail]

@[simp] theorem addtail_prev (m : Links κ) (item list c : κ) :
    (m.addtail item list).prev c =
      if c = list then item else if c = item then m.prev list else m.prev c := by
  simp [addtail]

@[simp] theorem del_next (m : Links κ) (item c : κ) :
    (m.del item).next c = if c = m.prev item then m.next item else m.next c := by
  simp [del]

@[simp] theorem del_prev (m : Links κ) (item c : κ) :
    (m.del item).prev c = if c = m.next item then m.prev item else m.prev c := by
  simp [del]

theorem Chain.addtail {m : Links κ} {a b x : κ} {xs : List κ} (h : m.Chain a xs b)
    (ha : (a :: xs).Nodup) (hb : b ∉ xs) (hx : x ∉ a :: xs) (hxb : x ≠ b) :
    (m.addtail x b).Chain a (xs ++ [x]) b := by
  induction xs generalizing a with
  | nil =>
    simp only [List.mem_singleton] at hx
    obtain ⟨hn, hp⟩ := h
    simp [Chain, hp, hx, hxb]
  | cons y ys ih =>
    obtain ⟨hn, hp, hc⟩ := h
    simp only [List.mem_cons, not_or] at hx hb
    obtain ⟨hna, hnd⟩ := List.nodup_cons.mp ha
    have hl : m.prev b ∈ y :: ys := hc.prev_mem
    have hal : a ≠ m.prev b := fun e => hna (e ▸ hl)
    refine ⟨?_, ?_, ih hc hnd hb.2 (by simp [hx.2])⟩
    · simp [Ne.symm hx.1, hal, hn]
    · simp [Ne.symm hx.2.1, Ne.symm hb.1, hp]

/-- Unlinking a member in the middle of a chain closes the gap. -/
theorem Chain.del {m : Links κ} {a b x : κ} {xs ys : List κ} (h : m.Chain a (xs ++ x :: ys) b)
    (ha : (a :: (xs ++ x :: ys)).Nodup) (hb : b ∉ xs ++ x :: ys) :
    (m.del x).Chain a (xs ++ ys) b := by
  induction xs generalizing a with
  | nil =>
    obtain ⟨hn, hp, hc⟩ := h
    obtain ⟨hna, hnd⟩ := List.nodup_cons.mp ha
    have hxa : x ≠ a := fun e => hna (by simp [e])
    cases ys with
    | nil => simp [Chain, hp, hc.1]
    | cons y ys =>
      obtain ⟨hxy, hyx, hcy⟩ := hc
      refine ⟨by simp [hp, hxy], by simp [hp, hxy], hcy.congr ?_ ?_⟩
      · intro c hcm
        have hca : c ≠ a := fun e => hna (by simp_all)
        simp [hp, hca]
      · intro c hcm
        have hcy : c ≠ y := by
          rintro rfl
          simp_all
        simp [hxy, hcy]
  | cons y xs ih =>
    simp only [List.cons_append, Chain] at h ⊢
    obtain ⟨hn, hp, hc⟩ := h
    obtain ⟨hna, hnd⟩ := List.nodup_cons.mp ha
    obtain ⟨hl, hr⟩ := (chain_append m y b x xs ys).mp hc
    have hpm : m.prev x ∈ y :: xs := hl.prev_mem
    have hnm : m.next x ∈ ys ++ [b] := hr.next_mem
    have hap : a ≠ m.prev x := fun e => hna (by rw [e]; simp at hpm ⊢; tauto)
    have hyn : y ≠ m.next x := fun e => by
      rw [← e] at hnm
      simp_all
    refine ⟨?_, ?_, ih hc hnd fun e => hb (List.mem_cons_of_mem _ e)⟩
    · simp [hap, hn]
    · simp [hyn, hp]

namespace Ring

variable {m m' : Links κ} {h g x : κ} {xs ys : List κ}

theorem isEmpty_iff (r : m.Ring h xs) : m.isEmpty h = true ↔ xs = [] := by
  simp [isEmpty, r.next_head_eq]

theorem addtail (r : m.Ring h xs) (hx : x ∉ h :: xs) : (m.addtail x h).Ring h (xs ++ [x]) := by
  simp only [List.mem_cons, not_or] at hx
  refine ⟨?_, r.chain.addtail r.nodup r.head_notMem (by simp [hx]) hx.1⟩
  have hn := r.nodup
  simp only [List.nodup_cons, List.mem_append, List.mem_singleton, List.nodup_append] at hn ⊢
  refine ⟨?_, hn.2, by simp, ?_⟩
  · rintro (hm | rfl)
    · exact hn.1 hm
    · exact hx.1 rfl
  · rintro a ha b rfl rfl
    exact hx.2 ha

theorem add (r : m.Ring h xs) (hx : x ∉ h :: xs) : (m.add x h).Ring h (x :: xs) := by
  simp only [List.mem_cons, not_or] at hx
  refine ⟨?_, ?_⟩
  · have hn := r.nodup
    simp only [List.nodup_cons, List.mem_cons, not_or] at hn ⊢
    exact ⟨⟨Ne.symm hx.1, hn.1⟩, hx.2, hn.2⟩
  · have hc := r.chain
    have hh := r.head_notMem
    cases xs with
    | nil => simp [Chain, hc.1, hx.1]
    | cons y ys =>
      obtain ⟨hn, hp, hc⟩ := hc
      simp only [List.mem_cons, not_or] at hx hh
      have hy : y ∉ ys := (List.nodup_cons.mp r.list_nodup).1
      refine ⟨by simp, by simp [hn, hx.2.1], by simp [hn, hx.1], by simp [hn], ?_⟩
      refine hc.congr ?_ ?_
      · intro c hcm
        have hch : c ≠ h := by
          rintro rfl
          simp only [List.mem_cons] at hcm
          tauto
        have hcx : c ≠ x := by
          rintro rfl
          simp only [List.mem_cons] at hcm
          tauto
        simp [hch, hcx]
      · intro c hcm
        have hcy : c ≠ y := by
          rintro rfl
          simp only [List.mem_append, List.mem_singleton] at hcm
          tauto
        have hcx : c ≠ x := by
          rintro rfl
          simp only [List.mem_append, List.mem_singleton] at hcm
          tauto
        simp [hn, hcy, hcx]

theorem del (r : m.Ring h (xs ++ x :: ys)) : (m.del x).Ring h (xs ++ ys) := by
  refine ⟨r.nodup.sublist ?_, r.chain.del r.nodup r.head_notMem⟩
  exact List.Sublist.cons_cons _ (List.Sublist.append_left (List.sublist_cons_self x ys) xs)

theorem del_erase (r : m.Ring h xs) (hx : x ∈ xs) : (m.del x).Ring h (xs.erase x) := by
  obtain ⟨as, bs, rfl⟩ := List.append_of_mem hx
  have hn : x ∉ as := fun ha => by
    have := r.list_nodup
    simp only [List.nodup_append, List.nodup_cons] at this
    exact this.2.2 x ha x (by simp) rfl
  rw [List.erase_append_right _ hn, List.erase_cons_head]
  exact r.del

/-- Linking a foreign cell at the tail of one ring leaves every disjoint ring alone. -/
theorem addtail_other (r : m.Ring h xs) (s : m.Ring g ys) (hd : List.Disjoint (h :: xs) (g :: ys))
    (hx : x ∉ g :: ys) : (m.addtail x h).Ring g ys := by
  have hp : m.prev h ∈ h :: xs := r.chain.prev_mem
  refine s.congr fun c hc => ?_
  have hcx : c ≠ x := fun e => hx (e ▸ hc)
  have hch : c ≠ h := fun e => hd List.mem_cons_self (e ▸ hc)
  have hcp : c ≠ m.prev h := fun e => hd hp (e ▸ hc)
  simp [hcx, hch, hcp]

/-- Unlinking a member of one ring leaves every disjoint ring alone. -/
theorem del_other (r : m.Ring h xs) (s : m.Ring g ys) (hd : List.Disjoint (h :: xs) (g :: ys))
    (hx : x ∈ xs) : (m.del x).Ring g ys := by
  obtain ⟨-, -, hp, hn⟩ := r.linked hx
  refine s.congr fun c hc => ?_
  have hcp : c ≠ m.prev x := fun e => hd hp (e ▸ hc)
  have hcn : c ≠ m.next x := fun e => hd hn (e ▸ hc)
  simp [hcp, hcn]

/-- The `LIST_DEL` of any cell leaves a ring with as many cells only if the neighbours the cell
names are linked to each other already, where they are in the ring. -/
theorem del_agrees {x : κ} (r : m.Ring h xs) (s : (m.del x).Ring h ys)
    (hlen : ys.length = xs.length) :
    (m.prev x ∈ h :: xs → m.next (m.prev x) = m.next x) ∧
      (m.next x ∈ h :: xs → m.prev (m.next x) = m.prev x) := by
  have hsub : ∀ c ∈ h :: ys, c ∈ h :: xs := by
    -- A cell that is left through the new link is entered through it from the other side.
    by_cases hp : m.prev x ∈ h :: xs
    · refine s.backward List.mem_cons_self fun c _ hc => ?_
      rw [del_prev]
      split_ifs
      · exact hp
      · exact (r.closed hc).2.1
    · refine s.forward List.mem_cons_self fun c _ hc => ?_
      have hne : c ≠ m.prev x := by
        rintro rfl
        exact hp hc
      rw [del_next, if_neg hne]
      exact (r.closed hc).1.1
  have hmem {c : κ} : c ∈ h :: ys ↔ c ∈ h :: xs := s.mem_iff hsub hlen
  constructor
  · intro hp
    obtain ⟨hn, hback⟩ := (r.closed hp).1
    by_contra hne
    have hs := (s.closed (hmem.mpr hn)).2.2
    rw [del_prev, if_neg hne, hback, del_next, if_pos rfl] at hs
    exact hne hs.symm
  · intro hn
    obtain ⟨hp, hback⟩ := (r.closed hn).2
    by_contra hne
    have hs := (s.closed (hmem.mpr hp)).1.2
    rw [del_next, if_neg hne, hback, del_prev, if_pos rfl] at hs
    exact hne hs.symm

/-- A cell of a ring that is linked at the tail of another head leads out of the ring. -/
theorem addtail_leaves {x g : κ} (r : m.Ring h xs) (hx : x ∈ xs) (hg : m.prev g ∉ h :: xs)
    (s : (m.addtail x g).Ring h ys) (hlen : ys.length = xs.length) : g ∈ h :: ys := by
  have hx' : x ∈ h :: xs := List.mem_cons_of_mem _ hx
  have hxt : x ∈ h :: ys := by
    by_contra hnot
    have hsub : ∀ c ∈ h :: ys, c ∈ h :: xs := by
      refine s.forward List.mem_cons_self fun c hc hin => ?_
      have hp : c ≠ m.prev g := by
        rintro rfl
        exact hg hin
      have hne : c ≠ x := by
        rintro rfl
        exact hnot hc
      rw [addtail_next, if_neg hp, if_neg hne]
      exact (r.closed hin).1.1
    exact hnot ((s.mem_iff hsub hlen).mpr hx')
  have hp : x ≠ m.prev g := by
    rintro rfl
    exact hg hx'
  have hn := (s.closed hxt).1.1
  rw [addtail_next, if_neg hp, if_pos rfl] at hn
  exact hn

end Ring

end Links

end Tbm
