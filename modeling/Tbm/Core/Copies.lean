import Mathlib.Algebra.GroupWithZero.Nat
import Mathlib.Data.List.Basic
import Mathlib.Data.Nat.Notation

/-! Blocks of memory, copies between them, and copies that fill a block from its start. -/
namespace Tbm

variable {α : Type*}

/-- The first `n` cells of `src` are copied to `dst` from `pos` on. A copy that leaves one of the
blocks is undefined. -/
def memcpy (dst : List α) (pos : ℕ) (src : List α) (n : ℕ) : Option (List α) :=
  if n ≤ src.length ∧ pos + n ≤ dst.length then
    some (dst.take pos ++ src.take n ++ dst.drop (pos + n))
  else none

namespace Copies

/-- Copies to places next to each other, from `pos` on. -/
def gather (dst : List α) : ℕ → List (List α × ℕ) → Option (List α)
  | _, [] => some dst
  | pos, (src, n) :: cs => do
    let dst ← memcpy dst pos src n
    gather dst (pos + n) cs

/-- What the copies bring. -/
def joined (cs : List (List α × ℕ)) : List α := cs.flatMap fun p => p.1.take p.2

def total (cs : List (List α × ℕ)) : ℕ := (cs.map Prod.snd).sum

/-- Every source has as much as is copied from it. -/
def Sourced (cs : List (List α × ℕ)) : Prop := ∀ p ∈ cs, p.2 ≤ p.1.length

instance (cs : List (List α × ℕ)) : Decidable (Sourced cs) :=
  inferInstanceAs (Decidable (∀ p ∈ cs, p.2 ≤ p.1.length))

@[simp] theorem joined_cons (src : List α) (n : ℕ) (cs : List (List α × ℕ)) :
    joined ((src, n) :: cs) = src.take n ++ joined cs := rfl

@[simp] theorem total_cons (src : List α) (n : ℕ) (cs : List (List α × ℕ)) :
    total ((src, n) :: cs) = n + total cs := by
  simp [total]

/-- The first source is at the start of the block. -/
theorem take_joined {src : List α} {n : ℕ} (h : n ≤ src.length) (cs : List (List α × ℕ))
    (z : List α) : (joined ((src, n) :: cs) ++ z).take n = src.take n := by
  rw [joined_cons, List.append_assoc, List.take_left' (by rw [List.length_take]; omega)]

theorem drop_joined {src : List α} {n : ℕ} (h : n ≤ src.length) (cs : List (List α × ℕ))
    (z : List α) : (joined ((src, n) :: cs) ++ z).drop n = joined cs ++ z := by
  rw [joined_cons, List.append_assoc, List.drop_left' (by rw [List.length_take]; omega)]

theorem length_joined {cs : List (List α × ℕ)} (h : Sourced cs) :
    (joined cs).length = total cs := by
  induction cs with
  | nil => rfl
  | cons p cs ih =>
    obtain ⟨hp, hcs⟩ := List.forall_mem_cons.mp h
    rw [joined_cons, total_cons, List.length_append, List.length_take, Nat.min_eq_left hp, ih hcs]

theorem memcpy_eq_some {dst src l : List α} {pos n : ℕ} : memcpy dst pos src n = some l ↔
    n ≤ src.length ∧ pos + n ≤ dst.length ∧
      l = dst.take pos ++ src.take n ++ dst.drop (pos + n) := by
  unfold memcpy
  by_cases hfit : n ≤ src.length ∧ pos + n ≤ dst.length
  · rw [if_pos hfit, Option.some.injEq]
    tauto
  · rw [if_neg hfit]
    tauto

theorem memcpy_isSome {dst src : List α} {pos n : ℕ} :
    (memcpy dst pos src n).isSome ↔ n ≤ src.length ∧ pos + n ≤ dst.length := by
  unfold memcpy
  split_ifs with hfit
  · exact ⟨fun _ => hfit, fun _ => rfl⟩
  · simp [hfit]

/-- What a copy leaves for the next ones, which start at its end. -/
theorem memcpy_then {dst src l : List α} {pos n t : ℕ} (h : memcpy dst pos src n = some l)
    (ys : List α) : l.length = dst.length ∧ l.take (pos + n) ++ ys ++ l.drop (pos + n + t) =
      dst.take pos ++ (src.take n ++ ys) ++ dst.drop (pos + (n + t)) := by
  obtain ⟨hsrc, hdst, rfl⟩ := memcpy_eq_some.mp h
  have hhead : (dst.take pos ++ src.take n).length = pos + n := by
    simp only [List.length_append, List.length_take]
    omega
  constructor
  · rw [List.length_append, hhead, List.length_drop]
    omega
  · rw [List.take_left' hhead, ← List.drop_drop, List.drop_left' hhead, List.drop_drop,
      Nat.add_assoc]
    simp only [List.append_assoc]

/-- The copies are defined just if the sources and the rest of the block suffice, and then the block
holds what they bring. -/
theorem gather_eq_some {dst l : List α} {pos : ℕ} {cs : List (List α × ℕ)}
    (hpos : pos ≤ dst.length) : gather dst pos cs = some l ↔
      Sourced cs ∧ pos + total cs ≤ dst.length ∧
        l = dst.take pos ++ joined cs ++ dst.drop (pos + total cs) := by
  induction cs generalizing dst pos with
  | nil => simp [gather, Sourced, joined, total, hpos, eq_comm]
  | cons p cs ih =>
    obtain ⟨src, n⟩ := p
    have hcons : Sourced ((src, n) :: cs) ↔ n ≤ src.length ∧ Sourced cs := List.forall_mem_cons
    unfold gather
    rw [Option.bind_eq_bind, Option.bind_eq_some_iff, hcons, total_cons, joined_cons]
    constructor
    · rintro ⟨mid, hcopy, hrest⟩
      obtain ⟨hsrc, hdst, -⟩ := memcpy_eq_some.mp hcopy
      obtain ⟨hlen, hthen⟩ := memcpy_then (t := total cs) hcopy (joined cs)
      obtain ⟨hsrcs, hfit, hl⟩ := (ih (by omega)).mp hrest
      exact ⟨⟨hsrc, hsrcs⟩, by omega, hl.trans hthen⟩
    · rintro ⟨⟨hsrc, hsrcs⟩, hfit, hl⟩
      have hcopy := memcpy_eq_some.mpr ⟨hsrc, (by omega : pos + n ≤ dst.length), rfl⟩
      obtain ⟨hlen, hthen⟩ := memcpy_then (t := total cs) hcopy (joined cs)
      refine ⟨_, hcopy, (ih (by omega)).mpr ⟨hsrcs, by omega, hl.trans hthen.symm⟩⟩

theorem gather_replicate {a : α} {k : ℕ} {cs : List (List α × ℕ)} {l : List α} :
    gather (List.replicate k a) 0 cs = some l ↔
      Sourced cs ∧ total cs ≤ k ∧ l = joined cs ++ List.replicate (k - total cs) a := by
  rw [gather_eq_some (Nat.zero_le _), List.length_replicate, Nat.zero_add, List.take_zero,
    List.nil_append, List.drop_replicate]

end Copies

section Loops

variable {β : Type*} {f g : α → Option β} {l : List α}

theorem mapM_congr (h : ∀ a ∈ l, f a = g a) : l.mapM f = l.mapM g := by
  induction l with
  | nil => rfl
  | cons a l ih =>
    obtain ⟨ha, hl⟩ := List.forall_mem_cons.mp h
    rw [List.mapM_cons, List.mapM_cons, ha, ih hl]

theorem mapM_isSome (h : ∀ a ∈ l, (f a).isSome) : (l.mapM f).isSome := by
  induction l with
  | nil => rfl
  | cons a l ih =>
    obtain ⟨ha, hl⟩ := List.forall_mem_cons.mp h
    obtain ⟨b, hb⟩ := Option.isSome_iff_exists.mp ha
    obtain ⟨bs, hbs⟩ := Option.isSome_iff_exists.mp (ih hl)
    rw [List.mapM_cons, hb, hbs]
    rfl

theorem mapM_eq_none {a : α} (ha : a ∈ l) (hf : f a = none) : l.mapM f = none := by
  induction l with
  | nil => exact absurd ha List.not_mem_nil
  | cons b l ih =>
    rw [List.mapM_cons]
    rcases List.mem_cons.mp ha with rfl | ha
    · rw [hf]
      rfl
    · rw [ih ha]
      cases f b with
      | none => rfl
      | some c => rfl

theorem mapM_ite {p : α → Prop} [DecidablePred p] {g : α → β}
    (h : ∀ a ∈ l, f a = if p a then some (g a) else none) :
    l.mapM f = if ∀ a ∈ l, p a then some (l.map g) else none := by
  by_cases hp : ∀ a ∈ l, p a
  · have hsome : ∀ a ∈ l, f a = pure (g a) := fun a ha => (h a ha).trans (if_pos (hp a ha))
    rw [if_pos hp, mapM_congr hsome, List.mapM_pure]
    rfl
  · rw [if_neg hp]
    push Not at hp
    obtain ⟨a, ha, hna⟩ := hp
    exact mapM_eq_none ha ((h a ha).trans (if_neg hna))

end Loops

end Tbm
