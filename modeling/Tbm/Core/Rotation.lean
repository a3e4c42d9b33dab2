import Tbm.Core.Links
import Mathlib.Data.List.Induction
import Mathlib.Data.Nat.Notation

/-! Slots that are written in turn, round and round, and the cursor that walks the circular list of
their cells. The `n`th thing written goes to slot `n % c`. -/
namespace Tbm.Rotation

section Latest

variable {α : Type*} (c i : ℕ)

/-- The last of the things written that went to slot `i`. -/
def lastAt (l : List α) : Option α := (l.zipIdx.reverse.find? fun p => p.2 % c = i).map Prod.fst

@[simp] theorem lastAt_nil : lastAt c i ([] : List α) = none := rfl

theorem lastAt_concat (l : List α) (a : α) :
    lastAt c i (l ++ [a]) = if l.length % c = i then some a else lastAt c i l := by
  unfold lastAt
  rw [List.zipIdx_append, List.reverse_append, Nat.zero_add, List.zipIdx_singleton,
    List.reverse_singleton, List.singleton_append, List.find?_cons]
  by_cases hi : l.length % c = i
  · simp [hi]
  · simp [hi]

variable {c i}

/-- What is in a slot was written to it, and nothing after it was. -/
theorem lastAt_eq_some {l : List α} {a : α} : lastAt c i l = some a ↔
    ∃ n, l[n]? = some a ∧ n % c = i ∧ ∀ m, n < m → m < l.length → m % c ≠ i := by
  induction l using List.reverseRecOn with
  | nil => simp
  | append_singleton l b ih =>
    rw [lastAt_concat]
    by_cases hi : l.length % c = i
    · rw [if_pos hi]
      constructor
      · intro hb
        refine ⟨l.length, ?_, hi, fun m hm hlt => ?_⟩
        · rw [List.getElem?_concat_length]
          exact hb
        · rw [List.length_append, List.length_singleton] at hlt
          omega
      · rintro ⟨n, hn, -, hlast⟩
        have hlt : n < (l ++ [b]).length := (List.getElem?_eq_some_iff.mp hn).1
        rw [List.length_append, List.length_singleton] at hlt
        have heq : n = l.length := by
          by_contra hne
          exact hlast l.length (by omega) (by simp) hi
        rw [heq, List.getElem?_concat_length] at hn
        exact hn
    · rw [if_neg hi, ih]
      constructor
      · rintro ⟨n, hn, hni, hlast⟩
        have hlt : n < l.length := (List.getElem?_eq_some_iff.mp hn).1
        refine ⟨n, ?_, hni, fun m hm hlen => ?_⟩
        · rw [List.getElem?_append_left hlt]
          exact hn
        · rw [List.length_append, List.length_singleton] at hlen
          by_cases heq : m = l.length
          · rw [heq]
            exact hi
          · exact hlast m hm (by omega)
      · rintro ⟨n, hn, hni, hlast⟩
        have hlt : n < (l ++ [b]).length := (List.getElem?_eq_some_iff.mp hn).1
        rw [List.length_append, List.length_singleton] at hlt
        have hne : n ≠ l.length := fun heq => hi (heq ▸ hni)
        refine ⟨n, ?_, hni, fun m hm hlen => hlast m hm ?_⟩
        · rw [List.getElem?_append_left (by omega)] at hn
          exact hn
        · rw [List.length_append]
          omega

/-- A slot is as it was if nothing was written to it. -/
theorem lastAt_eq_none {l : List α} : lastAt c i l = none ↔ ∀ n < l.length, n % c ≠ i := by
  induction l using List.reverseRecOn with
  | nil => simp
  | append_singleton l b ih =>
    rw [lastAt_concat, List.length_append, List.length_singleton]
    by_cases hi : l.length % c = i
    · rw [if_pos hi]
      constructor
      · intro hb
        cases hb
      · intro h
        exact absurd hi (h l.length (Nat.lt_succ_self _))
    · rw [if_neg hi, ih]
      constructor
      · intro h n hn
        by_cases heq : n = l.length
        · rw [heq]
          exact hi
        · exact h n (by omega)
      · intro h n hn
        exact h n (by omega)

end Latest

section Cursor

variable {m : Links ℕ} {c : ℕ}

/-- The cell of the last slot written after `n` of them, and the head before the first. -/
def cursor (c n : ℕ) : ℕ := if n = 0 then 0 else (n - 1) % c + 1

theorem next_range (r : m.Ring 0 (List.range' 1 c)) {i : ℕ} (hi : i ≤ c) :
    m.next i = if i = c then 0 else i + 1 := by
  cases i with
  | zero =>
    rw [r.next_head]
    cases c with
    | zero => rfl
    | succ c => rfl
  | succ i =>
    have hsplit : List.range' 1 c =
        List.range' 1 i ++ (i + 1) :: List.range' (i + 2) (c - i - 1) := by
      have hc : c = i + ((c - i - 1) + 1) := by omega
      conv_lhs => rw [hc, ← List.range'_append_1, List.range'_succ]
      rw [Nat.add_comm 1 i]
    rw [hsplit] at r
    rw [r.next_split]
    by_cases hlast : i + 1 = c
    · have hnone : c - i - 1 = 0 := by omega
      rw [if_pos hlast, hnone]
      rfl
    · obtain ⟨k, hk⟩ : ∃ k, c - i - 1 = k + 1 := ⟨c - i - 2, by omega⟩
      rw [if_neg hlast, hk]
      rfl

/-- The cell after the cursor, past the head, is that of the slot whose turn it is. -/
theorem next_cursor (r : m.Ring 0 (List.range' 1 c)) (hc : 0 < c) (n : ℕ) :
    (if m.next (cursor c n) = 0 then m.next (m.next (cursor c n)) else m.next (cursor c n)) =
      n % c + 1 := by
  have hfirst : m.next 0 = 1 := by
    rw [next_range r (Nat.zero_le c), if_neg (by omega)]
  by_cases hn : n = 0
  · have hcur : cursor c n = 0 := by
      unfold cursor
      rw [if_pos hn]
    rw [hcur, hfirst, hn, Nat.zero_mod]
    rfl
  · have hcur : cursor c n = (n - 1) % c + 1 := by
      unfold cursor
      rw [if_neg hn]
    have hlt : (n - 1) % c < c := Nat.mod_lt _ hc
    have hstep : n % c = ((n - 1) % c + 1) % c := by
      have hsucc : n = n - 1 + 1 := by omega
      conv_lhs => rw [hsucc]
      rw [Nat.mod_add_mod]
    rw [hcur, next_range r hlt, hstep]
    by_cases hlast : (n - 1) % c + 1 = c
    · rw [if_pos hlast, if_pos rfl, hfirst, hlast, Nat.mod_self]
    · have hlt' : (n - 1) % c + 1 < c := by omega
      rw [if_neg hlast, if_neg (Nat.succ_ne_zero _), Nat.mod_eq_of_lt hlt']

end Cursor

end Tbm.Rotation
