import Tbm.Core.Threads

/-! Programs seen through the local state of their thread: a relation on the shared data and one
local state contains every data step, so all schedules are interleavings of its steps. -/
namespace Tbm

namespace Prog

variable {M C E I S P α β : Type} (R : S → P → S → P → Prop) (rest : P)

/-- From the local state on, every data step of the program is a step of `R`, and the program ends
in the local state `rest`. -/
def Follows : Prog M C E I S α → P → Prop
  | ret _, p => p = rest
  | lock _ k, p => k.Follows p
  | unlock _ k, p => k.Follows p
  | wait _ _ k, p => k.Follows p
  | signal _ k, p => k.Follows p
  | emit _ k, p => k.Follows p
  | input k, p => ∀ x, (k x).Follows p
  | act f k, p => ∀ s b s', f s = some (b, s') → ∃ p', R s p s' p' ∧ (k b).Follows p'

variable {R rest} {p : P} {f : Unit → Prog M C E I S α}

@[simp] theorem follows_pure (a : α) :
    (pure a : Prog M C E I S α).Follows R rest p ↔ p = rest := Iff.rfl

@[simp] theorem follows_mutexLock (m : M) :
    (mutexLock m >>= f).Follows R rest p ↔ (f ()).Follows R rest p := Iff.rfl

@[simp] theorem follows_mutexUnlock (m : M) :
    (mutexUnlock m >>= f).Follows R rest p ↔ (f ()).Follows R rest p := Iff.rfl

@[simp] theorem follows_answer {f : I → Prog M C E I S α} :
    (answer >>= f).Follows R rest p ↔ ∀ x, (f x).Follows R rest p := Iff.rfl

theorem follows_access {g : S → Option (β × S)} {f : β → Prog M C E I S α} :
    (access g >>= f).Follows R rest p ↔
      ∀ s b s', g s = some (b, s') → ∃ p', R s p s' p' ∧ (f b).Follows R rest p' := Iff.rfl

theorem follows_modify {g : S → S} :
    (modify g >>= f).Follows R rest p ↔ ∀ s, ∃ p', R s p (g s) p' ∧ (f ()).Follows R rest p' := by
  constructor
  · intro h s
    exact h s () (g s) rfl
  · intro h s b s' he
    obtain ⟨-, rfl⟩ : () = b ∧ g s = s' := by simpa using he
    exact h s

end Prog

namespace Config

variable {T M C E I S Op R P : Type} (Rel : T → Op → S → P → S → P → Prop) (rest : P)
  (start : Op → P)

/-- The local state of a thread fits the program it is at. -/
def At (t : T) : Status M C E I S Op R → P → Prop
  | .idle, p => p = rest
  | .run _ op k, p | .blocked op _ _ k, p | .woken op _ _ k, p => k.Follows (Rel t op) rest p

def Tracks (c : Config T M C E I S Op R) (φ : T → P) : Prop :=
  ∀ t, At Rel rest t (c.thread t) (φ t)

variable [DecidableEq T]

/-- A step of a schedule on the data and the local states. -/
inductive Local (c : Config T M C E I S Op R) (φ : T → P) :
    Action T I Op → Config T M C E I S Op R → (T → P) → Prop
  | call {t op c'} (h : φ t = rest) (hd : c'.data = c.data) :
    Local c φ (.call t op) c' (Function.update φ t (start op))
  | quiet {a c'} (ha : ∀ t op, a ≠ .call t op) (hd : c'.data = c.data) : Local c φ a c' φ
  | act {t op r c' p} {β : Type} {f : S → Option (β × S)} {k : β → Prog M C E I S R}
    (h : c.thread t = .run r op (.act f k)) (hr : Rel t op c.data (φ t) c'.data p) :
    Local c φ (.step t) c' (Function.update φ t p)

variable {Rel rest start} {c c' d : Config T M C E I S Op R} {φ : T → P} {t : T}
  {st : Status M C E I S Op R}

/-- One thread and its local state change. -/
theorem Tracks.set (h : c.Tracks Rel rest φ) (hd : d.thread = c.thread) {p : P}
    (hst : At Rel rest t st p) :
    (d.setThread t st).Tracks Rel rest (Function.update φ t p) := by
  intro u
  by_cases e : u = t
  · subst e
    rw [setThread_self, Function.update_self]
    exact hst
  · rw [setThread_of_ne d st e, Function.update_of_ne e, hd]
    exact h u

theorem Tracks.keep (h : c.Tracks Rel rest φ) (hd : d.thread = c.thread)
    (hst : At Rel rest t st (φ t)) : (d.setThread t st).Tracks Rel rest φ := by
  have hset := h.set hd hst
  rw [Function.update_eq_self] at hset
  exact hset

variable [DecidableEq M] {code : T → Op → Prog M C E I S R} {a : Action T I Op}

/-- Where the code of every operation follows the relation, so does every schedule. -/
theorem Tracks.moved (hcode : ∀ t op, (code t op).Follows (Rel t op) rest (start op))
    (h : c.Tracks Rel rest φ) (hm : c.Moved code a c') :
    ∃ ψ, c'.Tracks Rel rest ψ ∧ Local Rel rest start c φ a c' ψ := by
  cases hm with
  | @call t op hc =>
    have ht : At Rel rest t .idle (φ t) := hc ▸ h t
    exact ⟨_, h.set rfl (hcode t op), .call ht rfl⟩
  | @act t r op β f k b s hc hf =>
    have ht : At Rel rest t (.run r op (.act f k)) (φ t) := hc ▸ h t
    obtain ⟨p, hr, hk⟩ := ht _ b s hf
    exact ⟨_, h.set (d := c.setData s) rfl hk, .act hc hr⟩
  | @signal t u r op e k o m q hc hu =>
    have ht : At Rel rest t (.run r op (.signal e k)) (φ t) := hc ▸ h t
    have hw : At Rel rest u (.blocked o e m q) (φ u) := hu ▸ h u
    have hset : (c.setThread u (.woken o e m q)).Tracks Rel rest φ := h.keep rfl hw
    exact ⟨φ, hset.keep rfl ht, .quiet (by simp) rfl⟩
  | @ret t r op x hc =>
    have ht : At Rel rest t (.run r op (.ret x)) (φ t) := hc ▸ h t
    exact ⟨φ, h.keep rfl ht, .quiet (by simp) rfl⟩
  | @lock t r op m k hc =>
    have ht : At Rel rest t (.run r op (.lock m k)) (φ t) := hc ▸ h t
    exact ⟨φ, h.keep (d := c.setOwner m (some t)) rfl ht, .quiet (by simp) rfl⟩
  | @unlock t r op m k hc =>
    have ht : At Rel rest t (.run r op (.unlock m k)) (φ t) := hc ▸ h t
    exact ⟨φ, h.keep (d := c.setOwner m none) rfl ht, .quiet (by simp) rfl⟩
  | @wait t r op e m k hc =>
    have ht : At Rel rest t (.run r op (.wait e m k)) (φ t) := hc ▸ h t
    exact ⟨φ, h.keep (d := c.setOwner m none) rfl ht, .quiet (by simp) rfl⟩
  | @emit t r op e k hc =>
    have ht : At Rel rest t (.run r op (.emit e k)) (φ t) := hc ▸ h t
    exact ⟨φ, h.keep rfl ht, .quiet (by simp) rfl⟩
  | @input t r op x k hc =>
    have ht : At Rel rest t (.run r op (.input k)) (φ t) := hc ▸ h t
    exact ⟨φ, h.keep rfl (ht x), .quiet (by simp) rfl⟩
  | @noWaiter t r op e k hc =>
    have ht : At Rel rest t (.run r op (.signal e k)) (φ t) := hc ▸ h t
    exact ⟨φ, h.keep rfl ht, .quiet (by simp) rfl⟩
  | @spurious t op e m q hc =>
    have ht : At Rel rest t (.blocked op e m q) (φ t) := hc ▸ h t
    exact ⟨φ, h.keep rfl ht, .quiet (by simp) rfl⟩
  | @wake t op e m q hc =>
    have ht : At Rel rest t (.woken op e m q) (φ t) := hc ▸ h t
    exact ⟨φ, h.keep (d := c.setOwner m (some t)) rfl ht, .quiet (by simp) rfl⟩

end Config

end Tbm
