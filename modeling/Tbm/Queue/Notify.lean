import Tbm.Core.Walk
import Mathlib.Data.Int.Notation
import Mathlib.Data.List.Nodup
import Mathlib.Data.List.Perm.Subperm

/-! The lists of notify and trace items of a queue, and what an emission does while the callbacks
remove items. -/
namespace Tbm.Queue

/-- The address of a callback. -/
abbrev NotiCb := ℕ

/-- `queue_notify` or `queue_trace`; the client's data may be NULL. -/
structure Noti where
  cb : NotiCb
  data : Option ℕ
  deriving DecidableEq, Repr

inductive NotiCell
  | head
  | item (n : ℕ)
  deriving DecidableEq, Repr

/-- One list of a queue. An item that was freed, or never allocated, is `none`. -/
structure NotiList where
  links : Links NotiCell
  item : ℕ → Option Noti
  /-- Items allocated so far. -/
  items : ℕ

/-- What the callback that is called in each turn of an emission removes, in this order. -/
abbrev Client := ℕ → List (Option NotiCb × Option ℕ)

/-- An item with its number. -/
abbrev Registration := ℕ × Noti

def NotiList.empty : NotiList where
  links := Links.inithead ⟨fun _ => .head, fun _ => .head⟩ .head
  item := fun _ => none
  items := 0

namespace NotiList

variable (s : NotiList)

def fuel : ℕ := s.items + 1

/-- `container_of`. -/
def entry : NotiCell → Option Registration
  | .head => none
  | .item n => (s.item n).map (n, ·)

/-- The two functions that add an item have the same body; `ok` is the outcome of `calloc`. -/
def add (cb : Option NotiCb) (data : Option ℕ) (ok : Bool) : NotiList :=
  match cb with
  | none => s
  | some cb =>
    if ok then
      { links := (s.links.inithead (.item s.items)).addtail (.item s.items) .head
        item := Function.update s.item s.items (some ⟨cb, data⟩)
        items := s.items + 1 }
    else s

/-- `LIST_DEL` and `free`. -/
def free (n : ℕ) : NotiList :=
  { s with links := s.links.del (.item n), item := Function.update s.item n none }

@[simp] theorem free_item (n m : ℕ) : (s.free n).item m = if m = n then none else s.item m := by
  simp [free, Function.update_apply]

/-- The two functions that remove an item have the same body. -/
def remove (cb : Option NotiCb) (data : Option ℕ) : Option NotiList :=
  (Links.forEachSafe (fun s : NotiList => s.links.next) entry
    (fun r s => if some r.2.cb = cb ∧ r.2.data = data then some (true, s.free r.1)
      else some (false, s))
    .head s.fuel (s.links.next .head) (s.links.next (s.links.next .head)) s).map Prod.snd

def notifyAdd (cb : Option NotiCb) (data : Option ℕ) (ok : Bool) : NotiList := s.add cb data ok

def traceAdd (cb : Option NotiCb) (data : Option ℕ) (ok : Bool) : NotiList := s.add cb data ok

def notifyRemove (cb : Option NotiCb) (data : Option ℕ) : Option NotiList := s.remove cb data

def traceRemove (cb : Option NotiCb) (data : Option ℕ) : Option NotiList := s.remove cb data

/-- The removals of one callback. -/
def removals (rs : List (Option NotiCb × Option ℕ)) : Option NotiList :=
  rs.foldlM (fun s r => s.remove r.1 r.2) s

/-- The loop of the two emissions, with the items whose callbacks are called and the list that is
left. -/
def emit (client : Client) : Option (List Registration × NotiList) :=
  (Links.forEachSafe (fun r : ℕ × NotiList => r.2.links.next) (fun r => r.2.entry)
    (fun _ r => (r.2.removals (client r.1)).map fun s => (false, (r.1 + 1, s)))
    .head s.fuel (s.links.next .head) (s.links.next (s.links.next .head)) (0, s)).map
      fun r => (r.1, r.2.2)

def notifyEmit (client : Client) : Option (List Registration × NotiList) := s.emit client

/-- Each callback gets the surface and the kind of the trace too. -/
def traceEmit {T : Type} (client : Client) (surface : ℕ) (trace : T) :
    Option (List (Registration × ℕ × T) × NotiList) :=
  (s.emit client).map fun r => (r.1.map fun e => (e, surface, trace), r.2)

end NotiList

/-- The list links the items of `L`, and no others are allocated. -/
structure Registered (s : NotiList) (L : List Registration) : Prop where
  ring : s.links.Ring .head (L.map fun e => .item e.1)
  item : ∀ e ∈ L, s.item e.1 = some e.2
  only : ∀ n, (s.item n).isSome → ∃ e ∈ L, e.1 = n
  bound : ∀ e ∈ L, e.1 < s.items

def removeFirst (L : List Registration) (r : Option NotiCb × Option ℕ) : List Registration :=
  L.eraseP fun e => some e.2.cb = r.1 ∧ e.2.data = r.2

/-- What is called of the items ahead, and what is left of `L`: an item is called if it is still
registered when its turn comes. -/
def emission (client : Client) : ℕ → List Registration → List Registration →
    List Registration × List Registration
  | _, [], L => ([], L)
  | k, e :: ahead, L =>
    if e ∈ L then
      let r := emission client (k + 1) ahead ((client k).foldl removeFirst L)
      (e :: r.1, r.2)
    else emission client k ahead L

/-- No callback removes the item that is registered right after its own. -/
def SparesNext (client : Client) : ℕ → List Registration → List Registration → Prop
  | _, [], _ => True
  | k, e :: ahead, L =>
    if e ∈ L then
      (∀ b ∈ ahead.find? (· ∈ L), b ∈ (client k).foldl removeFirst L) ∧
        SparesNext client (k + 1) ahead ((client k).foldl removeFirst L)
    else SparesNext client k ahead L

instance (client : Client) : ∀ k ahead L, Decidable (SparesNext client k ahead L)
  | _, [], _ => isTrue trivial
  | k, e :: ahead, L =>
    have := instDecidableSparesNext client (k + 1) ahead ((client k).foldl removeFirst L)
    have := instDecidableSparesNext client k ahead L
    inferInstanceAs (Decidable (if e ∈ L then
      (∀ b ∈ ahead.find? (· ∈ L), b ∈ (client k).foldl removeFirst L) ∧
        SparesNext client (k + 1) ahead ((client k).foldl removeFirst L)
      else SparesNext client k ahead L))

section Registered

variable {s : NotiList} {L : List Registration} {r : Option NotiCb × Option ℕ} {e : Registration}

theorem Registered.keys_nodup (h : Registered s L) : (L.map Prod.fst).Nodup := by
  have hn : ((L.map Prod.fst).map NotiCell.item).Nodup := by
    have hring := h.ring.list_nodup
    rw [List.map_map]
    exact hring
  exact hn.of_map

theorem Registered.nodup (h : Registered s L) : L.Nodup := h.keys_nodup.of_map

theorem Registered.length_lt (h : Registered s L) : L.length < s.fuel := by
  have hsub : L.map Prod.fst ⊆ List.range s.items := by
    intro n hn
    obtain ⟨e, he, rfl⟩ := List.mem_map.mp hn
    exact List.mem_range.mpr (h.bound e he)
  have hle := (h.keys_nodup.subperm hsub).length_le
  rw [List.length_map, List.length_range] at hle
  exact Nat.lt_succ_of_le hle

theorem Registered.entry_eq (h : Registered s L) (he : e ∈ L) :
    s.entry (.item e.1) = some e := by
  simp [NotiList.entry, h.item e he]

theorem Registered.eq_of_key (h : Registered s L) {e' : Registration} (he : e ∈ L) (he' : e' ∈ L)
    (hk : e.1 = e'.1) : e = e' := List.inj_on_of_nodup_map h.keys_nodup he he' hk

theorem Registered.free {as bs : List Registration} (h : Registered s (as ++ e :: bs)) :
    Registered (s.free e.1) (as ++ bs) := by
  have hnodup := h.keys_nodup
  have hne : ∀ e' ∈ as ++ bs, e'.1 ≠ e.1 := by
    intro e' he' hk
    rw [List.map_append, List.map_cons, List.nodup_middle] at hnodup
    refine (List.nodup_cons.mp hnodup).1 ?_
    rw [← List.map_append]
    exact List.mem_map.mpr ⟨e', he', hk⟩
  have hmem : ∀ e' ∈ as ++ bs, e' ∈ as ++ e :: bs := by
    intro e' he'
    simp only [List.mem_append, List.mem_cons] at he' ⊢
    tauto
  constructor
  · have hring := h.ring
    rw [List.map_append, List.map_cons] at hring
    rw [List.map_append]
    exact hring.del
  · intro e' he'
    rw [NotiList.free_item, if_neg (hne e' he')]
    exact h.item e' (hmem e' he')
  · intro n hn
    rw [NotiList.free_item] at hn
    by_cases hne' : n = e.1
    · simp [hne'] at hn
    · rw [if_neg hne'] at hn
      obtain ⟨e', he', hk⟩ := h.only n hn
      refine ⟨e', ?_, hk⟩
      simp only [List.mem_append, List.mem_cons] at he' ⊢
      rcases he' with he' | rfl | he'
      · exact .inl he'
      · exact absurd hk.symm hne'
      · exact .inr he'
  · exact fun e' he' => h.bound e' (hmem e' he')

/-- The loop stops at the first item with the callback and the data. -/
theorem Registered.remove (h : Registered s L) (r : Option NotiCb × Option ℕ) :
    ∃ s', s.remove r.1 r.2 = some s' ∧ Registered s' (removeFirst L r) := by
  let p : Registration → Bool := fun e => some e.2.cb = r.1 ∧ e.2.data = r.2
  obtain ⟨hpos, hstor⟩ := h.ring.forEachSafe_start
  obtain ⟨vs, t, he, ht⟩ := Links.forEachSafe_spec
    (fun s : NotiList => s.links.next) NotiList.entry
    (fun e s => if some e.2.cb = r.1 ∧ e.2.data = r.2 then some (true, s.free e.1)
      else some (false, s)) (fun e : Registration => NotiCell.item e.1) .head
    (fun as t => t = s ∧ ∃ pre, L = pre ++ as ∧ ∀ e ∈ pre, p e = false)
    (fun _ t => Registered t (L.eraseP p))
    (fun a as t hI => by
      obtain ⟨rfl, pre, rfl, -⟩ := hI
      have hring := h.ring
      rw [List.map_append, List.map_cons] at hring
      exact ⟨by simp, h.entry_eq (by simp), hring.next_split⟩)
    (fun a as t hI => by
      obtain ⟨rfl, pre, rfl, hpre⟩ := hI
      by_cases hm : some a.2.cb = r.1 ∧ a.2.data = r.2
      · refine ⟨true, t.free a.1, if_pos hm, ?_⟩
        have hp : p a = true := by simpa [p] using hm
        rw [if_pos rfl, List.eraseP_append_right _ (by simpa using hpre),
          List.eraseP_cons_of_pos hp]
        exact h.free
      · refine ⟨false, t, if_neg hm, ?_⟩
        rw [if_neg Bool.false_ne_true]
        refine ⟨⟨rfl, pre ++ [a], by simp, fun e he => ?_⟩, fun _ _ hQ => hQ⟩
        rcases List.mem_append.mp he with he | he
        · exact hpre e he
        · rw [List.mem_singleton.mp he]
          simpa [p] using hm)
    (fun t hI => by
      obtain ⟨rfl, pre, hL, hpre⟩ := hI
      rw [List.append_nil] at hL
      rw [hL, List.eraseP_of_forall_not (by simpa using hpre), ← hL]
      exact h)
    h.length_lt (s := s) ⟨rfl, [], rfl, by simp⟩ hstor
  rw [← hpos] at he
  exact ⟨t, by rw [NotiList.remove, he]; rfl, ht⟩

theorem Registered.removals (h : Registered s L) (rs : List (Option NotiCb × Option ℕ)) :
    ∃ s', s.removals rs = some s' ∧ Registered s' (rs.foldl removeFirst L) := by
  induction rs generalizing s L with
  | nil => exact ⟨s, rfl, h⟩
  | cons r rs ih =>
    obtain ⟨t, hr, ht⟩ := h.remove r
    obtain ⟨s', hrs, hs'⟩ := ih ht
    refine ⟨s', ?_, hs'⟩
    rw [NotiList.removals, List.foldlM_cons, hr]
    exact hrs

theorem removals_sublist (rs : List (Option NotiCb × Option ℕ)) (L : List Registration) :
    (rs.foldl removeFirst L).Sublist L := by
  induction rs generalizing L with
  | nil => exact List.Sublist.refl L
  | cons r rs ih => exact (ih (removeFirst L r)).trans List.eraseP_sublist

theorem filter_sublist {as bs : List Registration} (h : as.Sublist bs) (hn : bs.Nodup) :
    bs.filter (· ∈ as) = as := by
  induction h with
  | slnil => rfl
  | cons b h ih =>
    rename_i as bs
    obtain ⟨hb, hn⟩ := List.nodup_cons.mp hn
    have hnot : b ∉ as := fun hm => hb (h.subset hm)
    rw [List.filter_cons_of_neg (by simpa using hnot)]
    exact ih hn
  | cons_cons b h ih =>
    rename_i as bs
    obtain ⟨hb, hn⟩ := List.nodup_cons.mp hn
    rw [List.filter_cons_of_pos (by simp)]
    have hsame : bs.filter (· ∈ b :: as) = bs.filter (· ∈ as) := by
      refine List.filter_congr fun a ha => ?_
      have hab : a ≠ b := fun h => hb (h ▸ ha)
      simp [hab]
    rw [hsame, ih hn]

variable {client : Client}

/-- Where the loop stands in a list: what is ahead of it, and that it is on the first of these that
is still registered. -/
structure Standing (s : NotiList) (L ahead : List Registration) (pos storage : NotiCell) : Prop
    extends Registered s L where
  tail : ∃ pre, L = pre ++ ahead.filter (· ∈ L)
  pos_eq : pos = ((ahead.filter (· ∈ L)).map fun e => NotiCell.item e.1).headD .head
  storage_eq : ∀ b bs, ahead.filter (· ∈ L) = b :: bs →
    storage = (bs.map fun e => NotiCell.item e.1).headD .head

/-- The loop of the emission. -/
def emitLoop (client : Client) (fuel : ℕ) (pos storage : NotiCell) (k : ℕ) (s : NotiList) :
    Option (List Registration × ℕ × NotiList) :=
  Links.forEachSafe (fun r : ℕ × NotiList => r.2.links.next) (fun r => r.2.entry)
    (fun _ r => (r.2.removals (client r.1)).map fun s => (false, (r.1 + 1, s)))
    .head fuel pos storage (k, s)

/-- The first turn of the loop where an item is ahead. -/
theorem emitLoop_turn {s s' : NotiList} {L : List Registration} {fuel k : ℕ} {storage : NotiCell}
    (h : Registered s L) (he : e ∈ L) (hs : s.removals (client k) = some s') :
    emitLoop client (fuel + 1) (.item e.1) storage k s =
      (emitLoop client fuel storage (s'.links.next storage) (k + 1) s').map fun r =>
        (e :: r.1, r.2) := by
  have hne : NotiCell.item e.1 ≠ .head := by simp
  unfold emitLoop
  rw [Links.forEachSafe, if_neg hne, h.entry_eq he]
  simp only [Option.bind_eq_bind, Option.bind_some, hs, Option.map_some]
  cases Links.forEachSafe (fun r : ℕ × NotiList => r.2.links.next) (fun r => r.2.entry)
    (fun _ r => (r.2.removals (client r.1)).map fun s => (false, (r.1 + 1, s)))
    .head fuel storage (s'.links.next storage) (k + 1, s') <;> rfl

/-- The loop does not get past an item that has been freed. -/
theorem emitLoop_freed {s : NotiList} {L : List Registration} {fuel k : ℕ} {storage : NotiCell}
    (h : Registered s L) (he : ∀ e' ∈ L, e'.1 ≠ e.1) :
    emitLoop client fuel (.item e.1) storage k s = none := by
  have hne : NotiCell.item e.1 ≠ .head := by simp
  have hentry : s.entry (.item e.1) = none := by
    cases hi : s.item e.1 with
    | none => simp [NotiList.entry, hi]
    | some i =>
      obtain ⟨e', he', hk⟩ := h.only e.1 (by simp [hi])
      exact absurd hk (he e' he')
  unfold emitLoop
  cases fuel with
  | zero => rfl
  | succ fuel =>
    rw [Links.forEachSafe, if_neg hne, hentry]
    rfl

theorem Standing.storage_first {s : NotiList} {L ahead : List Registration} {pos storage : NotiCell}
    (h : Standing s L (e :: ahead) pos storage) (he : e ∈ L) :
    storage = ((ahead.filter (· ∈ L)).map fun e => NotiCell.item e.1).headD .head :=
  h.storage_eq e _ (List.filter_cons_of_pos (by simpa using he))

/-- The next turn, where the item after this one has not been removed. -/
theorem Standing.next {s s' : NotiList} {L L' ahead : List Registration}
    {storage : NotiCell} (h : Standing s L (e :: ahead) (.item e.1) storage) (he : e ∈ L)
    (h' : Registered s' L') (hsub : L'.Sublist L)
    (hb : ∀ b ∈ ahead.find? (· ∈ L), b ∈ L') :
    Standing s' L' ahead storage (s'.links.next storage) := by
  have htwice : (ahead.filter (· ∈ L)).filter (· ∈ L') = ahead.filter (· ∈ L') := by
    rw [List.filter_filter]
    refine List.filter_congr fun a _ => ?_
    by_cases ha : a ∈ L'
    · simp [ha, hsub.subset ha]
    · simp [ha]
  have hpos : storage =
      ((ahead.filter (· ∈ L')).map fun e => NotiCell.item e.1).headD .head := by
    rw [h.storage_first he, ← htwice]
    rw [← List.head?_filter] at hb
    cases hahead : ahead.filter (· ∈ L) with
    | nil => rfl
    | cons b bs =>
      have hbL : b ∈ L' := hb b (by simp [hahead])
      rw [List.filter_cons_of_pos (by simpa using hbL)]
      rfl
  have htail : ∃ pre, L' = pre ++ ahead.filter (· ∈ L') := by
    obtain ⟨pre, hL⟩ := h.tail
    rw [List.filter_cons_of_pos (by simpa using he)] at hL
    refine ⟨(pre ++ [e]).filter (· ∈ L'), ?_⟩
    rw [← htwice, ← List.filter_append, List.append_assoc, List.singleton_append, ← hL]
    exact (filter_sublist hsub h.nodup).symm
  refine ⟨h', htail, hpos, fun b bs hahead => ?_⟩
  obtain ⟨pre, hL⟩ := htail
  rw [hahead] at hpos hL
  have hring := h'.ring
  rw [hL, List.map_append, List.map_cons] at hring
  rw [hpos]
  exact hring.next_split

/-- The loop comes to its end just if no callback removes the item after its own, and then it has
called what was registered in turn. -/
theorem emitLoop_iff {s : NotiList} {L ahead : List Registration} {pos storage : NotiCell}
    {fuel k : ℕ} (h : Standing s L ahead pos storage) (hf : ahead.length < fuel) :
    (SparesNext client k ahead L → ∃ m s', emitLoop client fuel pos storage k s =
      some ((emission client k ahead L).1, m, s') ∧ Registered s' (emission client k ahead L).2) ∧
    (¬SparesNext client k ahead L → emitLoop client fuel pos storage k s = none) := by
  induction ahead generalizing s L pos storage fuel k with
  | nil =>
    obtain ⟨fuel, rfl⟩ : ∃ n, fuel = n + 1 := ⟨fuel - 1, by simp at hf; omega⟩
    have hpos : pos = .head := h.pos_eq
    refine ⟨fun _ => ⟨k, s, ?_, h.toRegistered⟩, fun hnot => absurd trivial hnot⟩
    rw [hpos, emitLoop, Links.forEachSafe, if_pos rfl]
    rfl
  | cons e ahead ih =>
    rw [List.length_cons] at hf
    by_cases he : e ∈ L
    · obtain ⟨fuel, rfl⟩ : ∃ n, fuel = n + 1 := ⟨fuel - 1, by omega⟩
      have hpos : pos = .item e.1 := by
        have hp := h.pos_eq
        rw [List.filter_cons_of_pos (by simpa using he)] at hp
        exact hp
      subst hpos
      obtain ⟨s', hs, hs'⟩ := h.removals (client k)
      have hsub := removals_sublist (client k) L
      rw [emitLoop_turn h.toRegistered he hs]
      have hspares : SparesNext client k (e :: ahead) L ↔
          (∀ b ∈ ahead.find? (· ∈ L), b ∈ (client k).foldl removeFirst L) ∧
            SparesNext client (k + 1) ahead ((client k).foldl removeFirst L) := by
        rw [SparesNext, if_pos he]
      have hcalled : emission client k (e :: ahead) L =
          (e :: (emission client (k + 1) ahead ((client k).foldl removeFirst L)).1,
            (emission client (k + 1) ahead ((client k).foldl removeFirst L)).2) := by
        rw [emission, if_pos he]
      rw [hspares, hcalled]
      by_cases hb : ∀ b ∈ ahead.find? (· ∈ L), b ∈ (client k).foldl removeFirst L
      · obtain ⟨hyes, hno⟩ := ih (h.next he hs' hsub hb) (by omega : ahead.length < fuel)
          (k := k + 1)
        constructor
        · intro hp
          obtain ⟨m, t, hloop, ht⟩ := hyes hp.2
          exact ⟨m, t, by rw [hloop]; rfl, ht⟩
        · intro hp
          rw [hno fun hrest => hp ⟨hb, hrest⟩]
          rfl
      · -- the item the loop goes on with is gone
        refine ⟨fun hp => absurd hp.1 hb, fun _ => ?_⟩
        obtain ⟨b, hfind, hgone⟩ : ∃ b ∈ ahead.find? (· ∈ L),
            b ∉ (client k).foldl removeFirst L := by
          by_contra hall
          exact hb fun b hfind => by_contra fun hgone => hall ⟨b, hfind, hgone⟩
        have hbL : b ∈ L := by simpa using List.find?_some hfind
        have hstorage : storage = .item b.1 := by
          rw [h.storage_first he]
          rw [← List.head?_filter] at hfind
          cases hahead : ahead.filter (· ∈ L) with
          | nil => simp [hahead] at hfind
          | cons c cs =>
            obtain rfl : c = b := by simpa [hahead] using hfind
            rfl
        rw [hstorage, emitLoop_freed hs' fun e' he' hk => ?_]
        · rfl
        · have heq := h.eq_of_key (hsub.subset he') hbL hk
          exact hgone (heq ▸ he')
    · have hspares : SparesNext client k (e :: ahead) L ↔ SparesNext client k ahead L := by
        rw [SparesNext, if_neg he]
      have hcalled : emission client k (e :: ahead) L = emission client k ahead L := by
        rw [emission, if_neg he]
      have hskip : (e :: ahead).filter (· ∈ L) = ahead.filter (· ∈ L) :=
        List.filter_cons_of_neg (by simpa using he)
      rw [hspares, hcalled]
      refine ih ⟨h.toRegistered, ?_, ?_, ?_⟩ (by omega)
      · rw [← hskip]
        exact h.tail
      · rw [← hskip]
        exact h.pos_eq
      · rw [← hskip]
        exact h.storage_eq

theorem Registered.standing (h : Registered s L) :
    Standing s L L (s.links.next .head) (s.links.next (s.links.next .head)) := by
  have hall : L.filter (· ∈ L) = L := filter_sublist (List.Sublist.refl L) h.nodup
  obtain ⟨hpos, hstor⟩ := h.ring.forEachSafe_start
  refine ⟨h, ⟨[], by rw [hall]; rfl⟩, ?_, fun b bs hb => ?_⟩
  · rw [hall]
    exact hpos
  · rw [hall] at hb
    exact hstor b bs hb

theorem emit_spares (h : Registered s L) (hp : SparesNext client 0 L L) : ∃ s',
    s.emit client = some ((emission client 0 L L).1, s') ∧
      Registered s' (emission client 0 L L).2 := by
  obtain ⟨m, s', hloop, hs'⟩ := (emitLoop_iff h.standing h.length_lt).1 hp
  refine ⟨s', ?_, hs'⟩
  change (emitLoop client s.fuel _ _ 0 s).map (fun r => (r.1, r.2.2)) = _
  rw [hloop]
  rfl

theorem emit_stuck (h : Registered s L) (hp : ¬SparesNext client 0 L L) :
    s.emit client = none := by
  change (emitLoop client s.fuel _ _ 0 s).map (fun r => (r.1, r.2.2)) = _
  rw [(emitLoop_iff h.standing h.length_lt).2 hp]
  rfl

/-- An emission comes to its end, having called in order just the items that were registered when
their turn came, just if no callback removes the item registered right after its own. -/
theorem emit_tolerates {T : Type} {s : NotiList} {L : List Registration} (h : Registered s L)
    (client : Client) (surface : ℕ) (trace : T) :
    ((∃ s', s.notifyEmit client = some ((emission client 0 L L).1, s') ∧
      Registered s' (emission client 0 L L).2) ↔ SparesNext client 0 L L) ∧
    ((∃ s', s.traceEmit client surface trace =
        some ((emission client 0 L L).1.map fun e => (e, surface, trace), s') ∧
      Registered s' (emission client 0 L L).2) ↔ SparesNext client 0 L L) := by
  unfold NotiList.notifyEmit NotiList.traceEmit
  by_cases hp : SparesNext client 0 L L
  · obtain ⟨s', he, hs'⟩ := emit_spares h hp
    constructor
    · exact iff_of_true ⟨s', he, hs'⟩ hp
    · exact iff_of_true ⟨s', by rw [he]; rfl, hs'⟩ hp
  · have he := emit_stuck h hp
    constructor
    · refine iff_of_false ?_ hp
      rintro ⟨s', hs', -⟩
      rw [he] at hs'
      cases hs'
    · refine iff_of_false ?_ hp
      rintro ⟨s', hs', -⟩
      rw [he] at hs'
      cases hs'

theorem empty_registered : Registered .empty [] := by
  constructor
  · rw [List.map_nil, Links.ring_nil]
    exact ⟨rfl, rfl⟩
  · simp
  · simp [NotiList.empty]
  · simp

theorem Registered.add (h : Registered s L) (cb : NotiCb) (data : Option ℕ) :
    Registered (s.add (some cb) data true) (L ++ [(s.items, ⟨cb, data⟩)]) := by
  have hnew : NotiCell.item s.items ∉ NotiCell.head :: L.map fun e => .item e.1 := by
    intro hm
    rcases List.mem_cons.mp hm with hm | hm
    · cases hm
    · obtain ⟨e, he, hk⟩ := List.mem_map.mp hm
      have hlt := h.bound e he
      have heq : e.1 = s.items := NotiCell.item.inj hk
      omega
  constructor
  · rw [List.map_append]
    refine Links.Ring.addtail (h.ring.congr fun c hc => ?_) hnew
    have hne : c ≠ .item s.items := fun heq => hnew (heq ▸ hc)
    simp [hne]
  · intro e he
    rcases List.mem_append.mp he with he | he
    · have hlt := h.bound e he
      have hne : e.1 ≠ s.items := by omega
      simp only [NotiList.add, if_true, Function.update_of_ne hne]
      exact h.item e he
    · rw [List.mem_singleton.mp he]
      simp [NotiList.add]
  · intro n hn
    by_cases hne : n = s.items
    · exact ⟨(s.items, ⟨cb, data⟩), by simp, hne.symm⟩
    · simp only [NotiList.add, if_true, Function.update_of_ne hne] at hn
      obtain ⟨e, he, hk⟩ := h.only n hn
      exact ⟨e, List.mem_append_left _ he, hk⟩
  · intro e he
    change e.1 < s.items + 1
    rcases List.mem_append.mp he with he | he
    · have hlt := h.bound e he
      omega
    · rw [List.mem_singleton.mp he]
      exact Nat.lt_succ_self s.items

/-- Three items, two of them alike. -/
private def threeNotis : NotiList :=
  ((NotiList.empty.notifyAdd (some 1) (some 5) true).notifyAdd (some 2) none true).notifyAdd
    (some 1) (some 5) true

private theorem threeNotis_registered :
    Registered threeNotis [(0, ⟨1, some 5⟩), (1, ⟨2, none⟩), (2, ⟨1, some 5⟩)] :=
  ((empty_registered.add 1 (some 5)).add 2 none).add 1 (some 5)

/-- The first callback removes itself and the item like it. -/
theorem emit_tolerates_itself : (∃ s', threeNotis.notifyEmit (fun k =>
      if k = 0 then [(some 1, some 5), (some 1, some 5)] else []) =
        some ([(0, ⟨1, some 5⟩), (1, ⟨2, none⟩)], s') ∧ Registered s' [(1, ⟨2, none⟩)]) := by
  have h := emit_tolerates threeNotis_registered
    (fun k => if k = 0 then [(some 1, some 5), (some 1, some 5)] else []) 0 ()
  refine h.1.mpr ?_
  decide

/-- The first callback removes the item after its own. -/
theorem emit_follows_freed : ∃ s L client, Registered s L ∧
    (emission client 0 L L).1 = [(0, ⟨1, some 5⟩), (2, ⟨1, some 5⟩)] ∧
    ¬∃ s', s.notifyEmit client = some ((emission client 0 L L).1, s') := by
  refine ⟨threeNotis, _, fun k => if k = 0 then [(some 2, none)] else [],
    threeNotis_registered, rfl, ?_⟩
  rintro ⟨s', hs'⟩
  have hnone : threeNotis.notifyEmit (fun k => if k = 0 then [(some 2, none)] else []) = none := by
    decide
  rw [hnone] at hs'
  cases hs'

end Registered

end Tbm.Queue
