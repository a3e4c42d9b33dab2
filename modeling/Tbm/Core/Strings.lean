import Mathlib.Algebra.Group.Nat.Defs
import Mathlib.Data.Int.Notation
import Mathlib.Data.List.Infix
import Mathlib.Data.List.TakeWhile
import Mathlib.Data.Nat.Notation

/-! Strings as the characters before the NUL: where one occurs in another, what a buffer holds of
one, and decimal numbers. -/
namespace Tbm

section Search

variable {α : Type*} [DecidableEq α] {p s t : List α}

/-- The string from the first place on where `p` occurs in it. -/
def strstr (p : List α) : List α → Option (List α)
  | [] => if p = [] then some [] else none
  | c :: s => if p <+: c :: s then some (c :: s) else strstr p s

theorem strstr_isSome : (strstr p s).isSome ↔ p <:+: s := by
  induction s with
  | nil =>
    rw [strstr]
    split_ifs with h <;> simp [h]
  | cons c s ih =>
    rw [strstr, List.infix_cons_iff]
    split_ifs with h
    · simp [h]
    · simp [h, ih]

/-- The first place is at the end. -/
theorem strstr_eq_self (hp : p ≠ []) : strstr p s = some p ↔ p <:+ s ∧ ¬p <:+: s.dropLast := by
  induction s with
  | nil =>
    rw [strstr, if_neg hp]
    simp [hp]
  | cons c s ih =>
    rw [strstr]
    split_ifs with h
    · rw [Option.some.injEq]
      constructor
      · rintro rfl
        refine ⟨List.suffix_rfl, fun hin => ?_⟩
        have hlen := hin.length_le
        rw [List.length_dropLast, List.length_cons] at hlen
        omega
      · rintro ⟨-, hout⟩
        by_contra hne
        -- A shorter prefix ends before the last character.
        apply hout
        have hlt : p.length < (c :: s).length :=
          Nat.lt_of_le_of_ne h.length_le fun e => hne (h.eq_of_length e).symm
        apply List.IsPrefix.isInfix
        rw [List.dropLast_eq_take, List.prefix_take_iff]
        exact ⟨h, by omega⟩
    · have hself : p ≠ c :: s := by
        rintro rfl
        exact h List.prefix_rfl
      rw [ih, List.suffix_cons_iff]
      cases s with
      | nil => simp [hp, hself]
      | cons d s =>
        have hpre : ¬p <+: c :: (d :: s).dropLast := fun hc =>
          h (hc.trans (List.cons_prefix_cons.mpr ⟨rfl, List.dropLast_prefix _⟩))
        simp only [List.dropLast_cons_cons, List.infix_cons_iff, hself, hpre, false_or]

/-- What `snprintf` leaves of a string in a buffer. -/
def snprintf (size : ℕ) (s : List α) : List α := s.take (size - 1)

omit [DecidableEq α] in
theorem snprintf_eq {size : ℕ} (h : s.length < size) : snprintf size s = s :=
  List.take_of_length_le (by omega)

omit [DecidableEq α] in
theorem length_snprintf {size : ℕ} (h : 0 < size) : (snprintf size s).length < size := by
  rw [snprintf, List.length_take]
  omega

end Search

section Buffers

variable {α : Type*} {size n : ℕ} {buf s : List α}

/-- `strncat` onto a buffer of `size` places, one of which the NUL takes. -/
def strncat (size : ℕ) (buf s : List α) (n : ℕ) : Option (List α) :=
  if (buf ++ s.take n).length < size then some (buf ++ s.take n) else none

theorem strncat_eq (h : s.length ≤ n) : strncat size buf s n =
    if buf.length + s.length < size then some (buf ++ s) else none := by
  rw [strncat, List.take_of_length_le h, List.length_append]

/-- A loop that appends one piece after the other comes to its end just if there is room for all. -/
theorem foldlM_append {β : Type*} {f : List α → β → Option (List α)} {g : β → List α} {l : List β}
    (hf : ∀ buf, ∀ e ∈ l, f buf e = if (buf ++ g e).length < size then some (buf ++ g e) else none)
    (hbuf : buf.length < size) : l.foldlM f buf =
      if (buf ++ l.flatMap g).length < size then some (buf ++ l.flatMap g) else none := by
  induction l generalizing buf with
  | nil =>
    rw [List.flatMap_nil, List.append_nil, if_pos hbuf]
    rfl
  | cons e l ih =>
    rw [List.foldlM_cons, hf buf e List.mem_cons_self, List.flatMap_cons, ← List.append_assoc]
    by_cases he : (buf ++ g e).length < size
    · rw [if_pos he]
      exact ih (fun buf e hm => hf buf e (List.mem_cons_of_mem _ hm)) he
    · have hall : ¬(buf ++ g e ++ l.flatMap g).length < size := by
        rw [List.length_append]
        omega
      rw [if_neg he, if_neg hall]
      rfl

/-- `fgets` with a buffer of `size` places: one line as far as it fits, and NULL at the end. -/
def fgets [DecidableEq α] (size : ℕ) (newline : α) (file : List α) : Option (List α) :=
  let line := file.takeWhile (· ≠ newline)
  if file = [] then none else some (((line ++ (file.drop line.length).take 1)).take (size - 1))

/-- What `strtok_r` gives out one after the other for one delimiter. -/
def tokens [DecidableEq α] (delim : α) (s : List α) : List (List α) :=
  (s.splitOn delim).filter (· ≠ [])

/-- A conversion of width `n` with the flag `-`. -/
def column (blank : α) (n : ℕ) (s : List α) : List α := s ++ List.replicate (n - s.length) blank

end Buffers

section Decimal

/-- `%d`. -/
def decimal (n : ℤ) : List Char :=
  if n < 0 then '-' :: Nat.toDigits 10 n.natAbs else Nat.toDigits 10 n.natAbs

def isSpace (c : Char) : Bool := c ∈ [' ', '\t', '\n', '\x0b', '\x0c', '\r']

def scanDigits (s : List Char) : Option ℕ :=
  match s.takeWhile Char.isDigit with
  | [] => none
  | ds => some (Nat.ofDigitChars 10 ds 0)

/-- `sscanf` with `%d`, before the number is converted. -/
def scanDecimal (s : List Char) : Option ℤ :=
  match s.dropWhile isSpace with
  | '-' :: s => (scanDigits s).map fun n : ℕ => -(n : ℤ)
  | '+' :: s => (scanDigits s).map fun n : ℕ => (n : ℤ)
  | s => (scanDigits s).map fun n : ℕ => (n : ℤ)

theorem isDigit_of_mem {c : Char} {n : ℕ} (h : c ∈ Nat.toDigits 10 n) : c.isDigit :=
  Nat.isDigit_of_mem_toDigits (by decide) (by decide) h

theorem scanDigits_toDigits (n : ℕ) : scanDigits (Nat.toDigits 10 n) = some n := by
  have hall : (Nat.toDigits 10 n).takeWhile Char.isDigit = Nat.toDigits 10 n :=
    List.takeWhile_eq_self_iff.mpr fun c hc => isDigit_of_mem hc
  unfold scanDigits
  rw [hall]
  split
  next h => exact absurd h Nat.toDigits_ne_nil
  next => rw [Nat.ofDigitChars_ten_toDigits]

theorem not_isDigit_of_isSpace {c : Char} (h : isSpace c) : c.isDigit = false := by
  have hc : c = ' ' ∨ c = '\t' ∨ c = '\n' ∨ c = '\x0b' ∨ c = '\x0c' ∨ c = '\r' := by
    simpa [isSpace] using h
  rcases hc with rfl | rfl | rfl | rfl | rfl | rfl <;> rfl

/-- What is printed is read back. -/
theorem scanDecimal_decimal (n : ℤ) : scanDecimal (decimal n) = some n := by
  unfold decimal scanDecimal
  split_ifs with hn
  · have hskip : ('-' :: Nat.toDigits 10 n.natAbs).dropWhile isSpace =
        '-' :: Nat.toDigits 10 n.natAbs := rfl
    rw [hskip]
    simp only [scanDigits_toDigits, Option.map_some, Option.some.injEq]
    omega
  · have hread := scanDigits_toDigits n.natAbs
    have hdigit : ∀ c ∈ Nat.toDigits 10 n.natAbs, c.isDigit = true := fun _ => isDigit_of_mem
    have hne := Nat.toDigits_ne_nil (n := n.natAbs) (b := 10)
    generalize Nat.toDigits 10 n.natAbs = ds at hread hdigit hne
    cases ds with
    | nil => exact absurd rfl hne
    | cons c ds =>
      have hc := hdigit c (.head _)
      have hspace : isSpace c = false := by
        by_contra hs
        have := not_isDigit_of_isSpace (by simpa using hs : isSpace c)
        simp [hc] at this
      rw [List.dropWhile_cons_of_neg (by simp [hspace])]
      split
      next heq =>
        obtain ⟨rfl, -⟩ := List.cons.inj heq
        exact absurd hc (by decide)
      next heq =>
        obtain ⟨rfl, -⟩ := List.cons.inj heq
        exact absurd hc (by decide)
      next =>
        rw [hread, Option.map_some, Option.some.injEq]
        omega

theorem length_decimal {n : ℤ} (h : n.natAbs < 10 ^ 10) : (decimal n).length ≤ 11 := by
  have hlen := (Nat.length_toDigits_le_iff (n := n.natAbs) (k := 10) (by decide : 1 < 10)
    (by decide)).mpr h
  unfold decimal
  split_ifs
  · rw [List.length_cons]
    omega
  · omega

end Decimal

end Tbm
