import Tbm.Core.Threads
import Tbm.Core.Parts
import Mathlib.Logic.Relation
import Mathlib.Order.Basic
import Mathlib.Order.RelClasses

/-! Programs that take their mutexes in a fixed order, and their threads: nobody asks for a mutex
it holds, and threads do not wait for each other in a circle. -/
namespace Tbm

/-- The program is at the start of `q`. -/
def Prog.Begins {M C E I S α β : Type} (p : Prog M C E I S α) (q : Prog M C E I S β) : Prop :=
  ∃ f, p = q >>= f

theorem Prog.Begins.bind {M C E I S α β γ : Type} {p : Prog M C E I S α} {q : Prog M C E I S β}
    (h : p.Begins q) (f : α → Prog M C E I S γ) : (p >>= f).Begins q := by
  obtain ⟨g, rfl⟩ := h
  exact ⟨fun b => g b >>= f, bind_bind ..⟩

theorem Prog.begins_self {M C E I S α : Type} (p : Prog M C E I S α) : p.Begins p :=
  ⟨pure, (bind_pure p).symm⟩

/-- What is known of the data where a thread that holds `H` comes to a program, whatever it does
afterwards. -/
structure Promise (M C E I S : Type) : Type 1 where
  holds : ∀ {α : Type}, (M → Bool) → Prog M C E I S α → S → Prop
  bind : ∀ {α β : Type} {H : M → Bool} {p : Prog M C E I S α} {f : α → Prog M C E I S β} {s : S},
    holds H (p >>= f) s → holds H p s

/-- Every mutex held comes before `m`. -/
def Below {M : Type} (rank : M → ℕ) (H : M → Bool) (m : M) : Prop :=
  ∀ n, H n = true → rank n < rank m

namespace Below

variable {M : Type} {rank : M → ℕ} {H : M → Bool} {m n : M}

theorem not_held (h : Below rank H m) : H m = false := by
  cases hm : H m with
  | false => rfl
  | true => exact absurd (h m hm) (lt_irrefl _)

theorem none (rank : M → ℕ) (m : M) : Below rank (fun _ => false) m := by
  intro n hn
  exact absurd hn Bool.false_ne_true

theorem mono (h : Below rank H m) (hr : rank m ≤ rank n) : Below rank H n :=
  fun k hk => lt_of_lt_of_le (h k hk) hr

variable [DecidableEq M]

theorem take (h : Below rank H m) (hr : rank m < rank n) :
    Below rank (Function.update H m true) n := by
  intro k hk
  by_cases e : k = m
  · rw [e]
    exact hr
  · rw [Function.update_of_ne e] at hk
    exact lt_trans (h k hk) hr

theorem give_take (h : Below rank H m) :
    Function.update (Function.update H m true) m false = H := by
  rw [Function.update_idem, ← h.not_held, Function.update_eq_self]

end Below

namespace Prog

variable {M C E I S T α β : Type} [DecidableEq M] (rank : M → ℕ) (L : Promise M C E I S)

/-- From the mutexes `H` on, every mutex the program takes comes after all that are held, where
the promise is kept, and it ends with `H'`. -/
def Sorted : Prog M C E I S α → (M → Bool) → (M → Bool) → Prop
  | ret _, H, H' => H = H'
  | lock m k, H, H' => Below rank H m ∧ k.Sorted (Function.update H m true) H'
  | unlock m k, H, H' => k.Sorted (Function.update H m false) H'
  | wait _ m k, H, H' => Below rank (Function.update H m false) m ∧
    k.Sorted (Function.update (Function.update H m false) m true) H'
  | signal _ k, H, H' => k.Sorted H H'
  | emit _ k, H, H' => k.Sorted H H'
  | input k, H, H' => ∀ x, (k x).Sorted H H'
  | act f k, H, H' => ∀ s b s', L.holds H (act f k) s → f s = some (b, s') → (k b).Sorted H H'

variable {rank L} {H H' H'' : M → Bool} {m : M}

namespace Sorted

theorem pure (a : α) : (pure a : Prog M C E I S α).Sorted rank L H H := rfl

theorem bind {p : Prog M C E I S α} {f : α → Prog M C E I S β} (hp : p.Sorted rank L H H')
    (hf : ∀ a, (f a).Sorted rank L H' H'') : (p >>= f).Sorted rank L H H'' := by
  change (p.bind f).Sorted rank L H H''
  induction p generalizing H with
  | ret a =>
    obtain rfl : H = H' := hp
    exact hf a
  | lock m k ih => exact ⟨hp.1, ih hp.2⟩
  | unlock m k ih => exact ih hp
  | wait c m k ih => exact ⟨hp.1, ih hp.2⟩
  | signal c k ih => exact ih hp
  | emit e k ih => exact ih hp
  | input k ih => exact fun x => ih x (hp x)
  | act g k ih => exact fun s b s' hL hg => ih b (hp s b s' (L.bind hL) hg)

theorem mutexLock (h : Below rank H m) :
    (mutexLock m : Prog M C E I S Unit).Sorted rank L H (Function.update H m true) := ⟨h, rfl⟩

theorem mutexUnlock :
    (mutexUnlock m : Prog M C E I S Unit).Sorted rank L H (Function.update H m false) := rfl

theorem access (f : S → Option (α × S)) :
    (access f : Prog M C E I S α).Sorted rank L H H := fun _ _ _ _ _ => rfl

theorem read (f : S → α) : (read f : Prog M C E I S α).Sorted rank L H H := access _

theorem modify (f : S → S) : (modify f : Prog M C E I S Unit).Sorted rank L H H := access _

theorem answer : (answer : Prog M C E I S I).Sorted rank L H H := fun _ => rfl

theorem read_bind {g : S → β} {f : β → Prog M C E I S α}
    (h : ∀ s, L.holds H (Prog.read g >>= f) s → (f (g s)).Sorted rank L H H') :
    (Prog.read g >>= f).Sorted rank L H H' := by
  intro s b s' hL hg
  obtain ⟨rfl, -⟩ := Prod.mk.inj (Option.some.inj hg)
  exact h s hL

theorem ite {c : Prop} [Decidable c] {p q : Prog M C E I S α}
    (hp : c → p.Sorted rank L H H') (hq : ¬c → q.Sorted rank L H H') :
    (if c then p else q).Sorted rank L H H' := by
  by_cases hc : c
  · rw [if_pos hc]
    exact hp hc
  · rw [if_neg hc]
    exact hq hc

/-- A critical section. -/
theorem inside {p : Prog M C E I S α} (hb : Below rank H m)
    (hp : p.Sorted rank L (Function.update H m true) (Function.update H m true)) :
    (do
      Prog.mutexLock m
      let a ← p
      Prog.mutexUnlock m
      return a).Sorted rank L H H := by
  refine (mutexLock hb).bind fun _ => hp.bind fun a => ?_
  have hu : (Prog.mutexUnlock m : Prog M C E I S Unit).Sorted rank L (Function.update H m true)
      (Function.update (Function.update H m true) m false) := mutexUnlock
  rw [hb.give_take] at hu
  exact hu.bind fun _ => pure a

/-- A critical section that is left for `p`. -/
theorem outside {p : Prog M C E I S α} {f : α → Prog M C E I S β} (hb : Below rank H m)
    (hp : p.Sorted rank L H H)
    (hf : ∀ a, (f a).Sorted rank L (Function.update H m true) H') :
    (do
      Prog.mutexUnlock m
      let a ← p
      Prog.mutexLock m
      f a).Sorted rank L (Function.update H m true) H' := by
  have hu : (Prog.mutexUnlock m : Prog M C E I S Unit).Sorted rank L (Function.update H m true)
      (Function.update (Function.update H m true) m false) := mutexUnlock
  rw [hb.give_take] at hu
  exact hu.bind fun _ => hp.bind fun a => (mutexLock hb).bind fun _ => hf a

/-- A program that works on a part of the data. -/
theorem zoom {L' : Promise M C E I T} {get : T → S} {set : T → S → T} {p : Prog M C E I S α}
    (hL : ∀ {α : Type} {H} {p : Prog M C E I S α} {t}, L'.holds H (p.zoom get set) t →
      L.holds H p (get t)) (h : p.Sorted rank L H H') :
    (p.zoom get set).Sorted rank L' H H' := by
  induction p generalizing H with
  | ret a => exact h
  | lock m k ih => exact ⟨h.1, ih h.2⟩
  | unlock m k ih => exact ih h
  | wait c m k ih => exact ⟨h.1, ih h.2⟩
  | signal c k ih => exact ih h
  | emit e k ih => exact ih h
  | input k ih => exact fun x => ih x (h x)
  | act g k ih =>
    intro t b t' hp hg
    obtain ⟨⟨b', s⟩, hs, he⟩ := Option.map_eq_some_iff.mp hg
    obtain ⟨rfl, -⟩ := Prod.mk.inj he
    exact ih b' (h (get t) b' s (hL hp) hs)

end Sorted

end Prog

section Threads

variable {T M C E I S Op R : Type} [DecidableEq M] (rank : M → ℕ) (L : Promise M C E I S)

/-- The rest of what a thread does is sorted, and in the end it holds nothing. -/
def Status.Sorted (H : M → Bool) : Status M C E I S Op R → Prop
  | .idle => ∀ m, H m = false
  | .run _ _ p => p.Sorted rank L H fun _ => false
  | .blocked _ _ m p | .woken _ _ m p =>
    Below rank H m ∧ p.Sorted rank L (Function.update H m true) fun _ => false

namespace Config

variable [DecidableEq T]

def Sorted (c : Config T M C E I S Op R) : Prop := ∀ t, (c.thread t).Sorted rank L (c.held t)

/-- The step is taken where the promise is kept. -/
def Keeps (c : Config T M C E I S Op R) : Action T I Op → Prop
  | .step t => ∀ r op p, c.thread t = .run r op p → L.holds (c.held t) p c.data
  | _ => True

variable {rank L} {c c' : Config T M C E I S Op R} {t : T} {m : M}
  {st : Status M C E I S Op R}

theorem Sorted.setThread {d : Config T M C E I S Op R} (h : c.Sorted rank L)
    (hd : d.thread = c.thread) (ho : ∀ u, u ≠ t → d.held u = c.held u)
    (hs : st.Sorted rank L (d.held t)) : (d.setThread t st).Sorted rank L := by
  intro u
  rw [setThread_held]
  by_cases e : u = t
  · subst e
    rw [setThread_self]
    exact hs
  · rw [setThread_of_ne d st e, hd, ho u e]
    exact h u

theorem Sorted.run (h : c.Sorted rank L) {r : Bool} {op : Op} {p : Prog M C E I S R}
    (hc : c.thread t = .run r op p) : p.Sorted rank L (c.held t) fun _ => false := by
  have ht := h t
  rw [hc] at ht
  exact ht

theorem Sorted.moved {code : T → Op → Prog M C E I S R}
    (hcode : ∀ t op, (code t op).Sorted rank L (fun _ => false) fun _ => false)
    (h : c.Sorted rank L) {a : Action T I Op} (hk : c.Keeps L a) (hm : c.Moved code a c') :
    c'.Sorted rank L := by
  cases hm with
  | @call t op hc =>
    refine h.setThread rfl (fun _ _ => rfl) ?_
    have ht := h t
    rw [hc] at ht
    have hH : c.held t = fun _ => false := funext ht
    rw [hH]
    exact hcode t op
  | @ret t r op a hc =>
    refine h.setThread rfl (fun _ _ => rfl) fun m => ?_
    have hH : c.held t = fun _ => false := h.run hc
    rw [hH]
  | lock hc hn =>
    refine h.setThread (d := c.setOwner _ _) rfl (fun u hu => held_take_of_ne hn hu) ?_
    rw [held_take]
    exact (h.run hc).2
  | unlock hc hn =>
    refine h.setThread (d := c.setOwner _ _) rfl (fun u hu => held_give_of_ne hn hu) ?_
    rw [held_give]
    exact h.run hc
  | wait hc hn =>
    refine h.setThread (d := c.setOwner _ _) rfl (fun u hu => held_give_of_ne hn hu) ?_
    rw [held_give]
    exact h.run hc
  | emit hc =>
    have hp := h.run hc
    exact h.setThread rfl (fun _ _ => rfl) hp
  | act hc hf =>
    exact h.setThread (d := c.setData _) rfl (fun _ _ => rfl) (h.run hc _ _ _ (hk _ _ _ hc) hf)
  | input hc => exact h.setThread rfl (fun _ _ => rfl) (h.run hc _)
  | noWaiter hc =>
    have hp := h.run hc
    exact h.setThread rfl (fun _ _ => rfl) hp
  | @signal t u r op d k o m p hc hu =>
    have hw := h u
    rw [hu] at hw
    have hset : (c.setThread u (.woken o d m p)).Sorted rank L :=
      h.setThread rfl (fun _ _ => rfl) hw
    have hp := h.run hc
    exact hset.setThread rfl (fun _ _ => rfl) hp
  | @spurious t op d m p hc =>
    have hw := h t
    rw [hc] at hw
    exact h.setThread rfl (fun _ _ => rfl) hw
  | @wake t op d m p hc hn =>
    have hw := h t
    rw [hc] at hw
    refine h.setThread (d := c.setOwner _ _) rfl (fun u hu => held_take_of_ne hn hu) ?_
    rw [held_take]
    exact hw.2

/-- Thread `t` asks for `n` while it holds `m`. -/
def Acquires (c : Config T M C E I S Op R) (t : T) (m n : M) : Prop :=
  c.owner m = some t ∧ (c.thread t).WaitsFor n

/-- Thread `t` asks for a mutex that `u` holds. -/
def WaitsOn (c : Config T M C E I S Op R) (t u : T) : Prop :=
  ∃ m, (c.thread t).WaitsFor m ∧ c.owner m = some u

theorem Sorted.acquires {n : M} (h : c.Sorted rank L) (ha : c.Acquires t m n) :
    rank m < rank n := by
  obtain ⟨hm, hn⟩ := ha
  have hheld : c.held t m = true := by simp [held, hm]
  have ht := h t
  rcases Status.waitsFor_iff.mp hn with ⟨r, op, k, hc⟩ | ⟨op, d, k, hc⟩
  · rw [hc] at ht
    exact ht.1 m hheld
  · rw [hc] at ht
    exact ht.1 m hheld

/-- Along a chain of waiting threads the mutexes they ask for go up. -/
private theorem Sorted.waits_up (h : c.Sorted rank L) {u : T}
    (hw : Relation.TransGen c.WaitsOn t u) :
    ∃ m, (c.thread t).WaitsFor m ∧ ∀ n, (c.thread u).WaitsFor n → rank m < rank n := by
  induction hw with
  | single hs =>
    obtain ⟨m, hm, ho⟩ := hs
    exact ⟨m, hm, fun n hn => h.acquires ⟨ho, hn⟩⟩
  | tail _ hs ih =>
    obtain ⟨m, hm, hup⟩ := ih
    obtain ⟨k, hk, ho⟩ := hs
    refine ⟨m, hm, fun n hn => ?_⟩
    have hlow := hup k hk
    have hhigh := h.acquires ⟨ho, hn⟩
    omega

theorem Sorted.no_circle (h : c.Sorted rank L) (t : T) : ¬Relation.TransGen c.WaitsOn t t := by
  intro hw
  obtain ⟨m, hm, hup⟩ := h.waits_up hw
  exact lt_irrefl _ (hup m hm)

end Config

omit [DecidableEq M] in
/-- A relation that goes up in rank has no cycles. -/
theorem acyclic_of_rank {rank : M → ℕ} {r : M → M → Prop} (h : ∀ m n, r m n → rank m < rank n)
    (m : M) : ¬Relation.TransGen r m m := by
  intro hm
  have hup : Relation.TransGen (· < ·) (rank m) (rank m) := hm.lift rank h
  rw [Relation.transGen_eq_self] at hup
  exact lt_irrefl _ hup

end Threads

end Tbm
