import Tbm.Queue.Reachable

/-! A queue whose size is lowered without a flush: which nodes it gives up. -/
namespace Tbm.Queue

open Prog

namespace Lists

variable {L : Lists} {k n : ℕ} {w : Fifo}

theorem dropFree_free (L : Lists) (k : ℕ) : (L.dropFree k).on .free = (L.on .free).drop k := by
  induction k generalizing L with
  | zero => rfl
  | succ k ih =>
    unfold dropFree
    cases hf : L.on .free with
    | nil => exact hf
    | cons a as =>
      have hrest : (L.remove a).on .free = as := by simp [remove, hf]
      rw [ih, hrest, List.drop_succ_cons]

/-- The nodes of `free_queue` are on no other item list. -/
theorem dropFree_other (hd : ∀ n ∈ L.on .free, n ∉ L.on w) (k : ℕ) :
    (L.dropFree k).on w = L.on w := by
  induction k generalizing L with
  | zero => rfl
  | succ k ih =>
    unfold dropFree
    cases hf : L.on .free with
    | nil => rfl
    | cons a as =>
      have hw : (L.remove a).on w = L.on w := List.erase_of_not_mem (hd a (by simp [hf]))
      have hrest : (L.remove a).on .free = as := by simp [remove, hf]
      rw [ih fun n hn => ?_, hw]
      rw [hw]
      rw [hrest] at hn
      exact hd n (by simp [hf, hn])

theorem dropFree_list (hn : L.list.Nodup) (k : ℕ) :
    (L.dropFree k).list = L.list.filter (· ∉ (L.on .free).take k) := by
  induction k generalizing L with
  | zero => simp [dropFree]
  | succ k ih =>
    unfold dropFree
    cases hf : L.on .free with
    | nil => simp
    | cons a as =>
      have hrest : (L.remove a).on .free = as := by simp [remove, hf]
      have hlist : (L.remove a).list = L.list.filter (· != a) := hn.erase_eq_filter a
      rw [ih (by rw [hlist]; exact hn.filter _), hrest, hlist, List.filter_filter,
        List.take_succ_cons]
      refine List.filter_congr fun n _ => ?_
      by_cases hna : n = a
      · simp [hna]
      · simp [hna]

/-- The first nodes of `free_queue` are attached, so that there are as many fewer. -/
theorem length_dropFree (hn : (L.on .free).Nodup) (hs : ∀ n ∈ L.on .free, n ∈ L.list) (k : ℕ) :
    (L.dropFree k).list.length + min (L.on .free).length k = L.list.length := by
  induction k generalizing L with
  | zero => simp [dropFree]
  | succ k ih =>
    unfold dropFree
    cases hf : L.on .free with
    | nil => simp
    | cons a as =>
      rw [hf] at hn
      obtain ⟨hnot, hn'⟩ := List.nodup_cons.mp hn
      have hrest : (L.remove a).on .free = as := by simp [remove, hf]
      have hmem : a ∈ L.list := hs a (by simp [hf])
      have hlen : (L.remove a).list.length = L.list.length - 1 := List.length_erase_of_mem hmem
      have hpos : 0 < L.list.length := List.length_pos_of_mem hmem
      have hrec := ih (L := L.remove a) (by rw [hrest]; exact hn') fun n hmem => by
        rw [hrest] at hmem
        have hna : n ≠ a := fun h => hnot (h ▸ hmem)
        exact (List.mem_erase_of_ne hna).mpr (hs n (by simp [hf, hmem]))
      rw [hrest] at hrec
      rw [List.length_cons]
      change (dropFree k (L.remove a)).list.length + _ = _
      omega

end Lists

/-- `set_size` to a smaller size without a flush, from a state with the lists `L` to one with the
lists `M`. -/
structure Shrunk (kind : Kind) (q q' : SurfaceQueue) (n : ℤ) (L M : Lists) : Prop where
  represents : Represents kind q' M
  queueSize : q'.queueSize = n
  /-- The nodes that are left of `free_queue`, in their order. -/
  free : M.on .free = (L.on .free).drop (min (L.on .free).length (q.queueSize - n).toNat)
  dirty : M.on .dirty = L.on .dirty
  dequeue : M.on .dequeue = L.on .dequeue
  /-- Just the others are detached. -/
  list : M.list =
    L.list.filter (· ∉ (L.on .free).take (min (L.on .free).length (q.queueSize - n).toNat))
  handedOut : ∀ k, M.HandedOut k ↔ L.HandedOut k
  node : ∀ k ∈ M.list, q'.node k = q.node k
  numAttached : q'.numAttached = q.numAttached -
    min (L.on .free).length (q.queueSize - n).toNat
  enough : q'.numAttached ≤ n ∨ M.on .free = []

section SetSize

variable {kind : Kind} {q : SurfaceQueue} {L : Lists} {x : AllocResult} {n : ℤ}

theorem Represents.dropFree_handedOut (h : Represents kind q L) (k m : ℕ) :
    (L.dropFree k).HandedOut m ↔ L.HandedOut m := by
  have hother : ∀ w, w ≠ .free → (L.dropFree k).on w = L.on w := fun w hw =>
    Lists.dropFree_other (fun _ hf ho => hw (h.apart ho hf)) k
  have hlist := Lists.dropFree_list h.toRegistry.nodup k
  constructor
  · rintro ⟨hm, hout⟩
    rw [hlist, List.mem_filter] at hm
    refine ⟨hm.1, fun w hw => ?_⟩
    by_cases hfree : w = .free
    · subst hfree
      have hnot := hout .free
      rw [Lists.dropFree_free] at hnot
      rw [← List.take_append_drop k (L.on .free), List.mem_append] at hw
      rcases hw with hw | hw
      · simp [hw] at hm
      · exact hnot hw
    · have hnot := hout w
      rw [hother w hfree] at hnot
      exact hnot hw
  · rintro ⟨hm, hout⟩
    constructor
    · rw [hlist, List.mem_filter]
      refine ⟨hm, ?_⟩
      have hnot : m ∉ (L.on .free).take k := fun hf => hout .free (List.mem_of_mem_take hf)
      simpa using hnot
    · intro w hw
      by_cases hfree : w = .free
      · subst hfree
        rw [Lists.dropFree_free] at hw
        exact hout .free (List.mem_of_mem_drop hw)
      · rw [hother w hfree] at hw
        exact hout w hw

/-- Lowering the size without a flush detaches the first nodes of `free_queue`, as many as there
are too many places, and no others. -/
theorem set_size_detaches (h : Represents kind q L) (hv : q.valid = true)
    (hnum : q.numAttached ≤ q.queueSize) (hpos : 0 < n) (hlt : n < q.queueSize) :
    ∃ q' M, (tbmSurfaceQueueSetSize kind.impl n false).exec x q = some (.none, q') ∧
      Shrunk kind q q' n L M := by
  let k := (q.queueSize - n).toNat
  obtain ⟨p, hp, hrep, hnode, -, -⟩ := h.detachFree (show 0 < q.queueSize - n by omega)
  let q' : SurfaceQueue := { p with queueSize := n }
  have hexec : (tbmSurfaceQueueSetSize kind.impl n false).exec x q = some (.none, q') := by
    have hne : q.queueSize ≠ n := by omega
    simp [tbmSurfaceQueueSetSize, hv, hpos, hne, hlt, hp, q']
  have hrep' : Represents kind q' (L.dropFree k) := hrep.congr rfl (fun _ => rfl) rfl rfl
  have hother : ∀ w, w ≠ .free → (L.dropFree k).on w = L.on w := fun w hw =>
    Lists.dropFree_other (fun _ hf ho => hw (h.apart ho hf)) k
  have hlength := Lists.length_dropFree (h.toLayout.nodup .free) (fun _ hf => h.sub hf) k
  have hnum' : q'.numAttached = q.numAttached - min (L.on .free).length k := by
    have hbefore := h.num
    have hafter := hrep'.num
    omega
  refine ⟨q', L.dropFree k, hexec, hrep', rfl, ?_, hother .dirty (by simp),
    hother .dequeue (by simp), ?_, h.dropFree_handedOut k, hnode, hnum', ?_⟩
  · rw [Lists.dropFree_free]
    change _ = (L.on .free).drop (min (L.on .free).length k)
    by_cases hle : (L.on .free).length ≤ k
    · rw [min_eq_left hle, List.drop_length, List.drop_eq_nil_of_le hle]
    · rw [min_eq_right (by omega)]
  · rw [Lists.dropFree_list h.toRegistry.nodup]
    change _ = L.list.filter (· ∉ (L.on .free).take (min (L.on .free).length k))
    by_cases hle : (L.on .free).length ≤ k
    · rw [min_eq_left hle, List.take_length, List.take_of_length_le hle]
    · rw [min_eq_right (by omega)]
  · by_cases hle : (L.on .free).length ≤ k
    · right
      rw [Lists.dropFree_free]
      exact List.drop_eq_nil_of_le hle
    · left
      rw [hnum', min_eq_right (by omega)]
      omega

/-- A queue of three places with three surfaces on its `free_queue`. -/
private def fullFree : SurfaceQueue :=
  attachAnswer ⟨some 9, true⟩ (attachAnswer ⟨some 8, true⟩ (attachAnswer ⟨some 7, true⟩
    (surfaceQueueInit Kind.sequence.impl 3 4 4 1 0)))

theorem set_size_detaches_two : ∃ L q' M,
    L.on .free = [0, 1, 2] ∧ M.on .free = [2] ∧
      (tbmSurfaceQueueSetSize Kind.sequence.impl 1 false).exec ⟨none, false⟩ fullFree =
        some (.none, q') ∧ Shrunk .sequence fullFree q' 1 L M := by
  have h0 : Matches .sequence _ _ := create_matches (show Kind.sequence.create 3 4 4 1 0 =
    some (surfaceQueueInit Kind.sequence.impl 3 4 4 1 0) from rfl)
  have h3 := (((h0.attachAnswer (c := True) ⟨some 7, true⟩).follows.attachAnswer (c := True)
    ⟨some 8, true⟩).follows.attachAnswer (c := True) ⟨some 9, true⟩).follows
  obtain ⟨q', M, hexec, hs⟩ := set_size_detaches (x := ⟨none, false⟩) (n := 1) h3.toRepresents
    rfl (by decide) (by decide) (by decide)
  refine ⟨_, q', M, rfl, ?_, hexec, hs⟩
  rw [hs.free]
  rfl

end SetSize

end Tbm.Queue
