import Tbm.Core.Threads

/-! Reasoning about one thread while others run: what it may rely on with the mutexes it holds,
what its own data steps do, and what holds at every point of its program. The rules of single
threads add up to an invariant of all schedules. -/
namespace Tbm

/-- What is promised about the schedules (`answer`, `allow`, `back`) and what the threads keep to.
`H` is always the set of mutexes the thread holds. -/
structure Rules (T M C E I S Op R : Type) where
  inv : S → Prop
  /-- What the other threads may do to the data meanwhile. -/
  rely : T → (M → Bool) → S → S → Prop
  /-- What a data step of the thread does; the program that is left is given too. -/
  effect : T → Op → (M → Bool) → S → S → Prog M C E I S R → Prop
  /-- What holds when the thread comes to a program; the `Bool` marks the end of a wait. -/
  point : T → Op → Bool → (M → Bool) → Prog M C E I S R → S → Prop
  /-- What holds for a thread between two calls. -/
  rest : T → (M → Bool) → S → Prop
  calls : T → Op → Prop
  allow : T → Op → S → S → Prop
  back : C → S → Prop
  answer : I → Prop

namespace Rules

variable {T M C E I S Op R : Type} [DecidableEq M] (L : Rules T M C E I S Op R)

/-- The program is reached, and `K` holds there whatever the other threads have done. -/
def Ensuing (t : T) (op : Op) (r : Bool) (H : M → Bool) (p : Prog M C E I S R)
    (K : (M → Bool) → S → Prop) (s : S) : Prop :=
  ∀ s', L.rely t H s s' → L.inv s' → L.point t op r H p s' ∧ K H s'

/-- The program keeps to the rules from here on. -/
def Onward (t : T) (op : Op) : Prog M C E I S R → (M → Bool) → S → Prop
  | .ret _, H, s => L.rest t H s
  | .lock m k, H, s =>
    L.Ensuing t op false (Function.update H m true) k (Onward t op k) s
  | .unlock m k, H, s =>
    L.Ensuing t op false (Function.update H m false) k (Onward t op k) s
  | .wait c m k, H, s =>
    ∀ s', L.rely t (Function.update H m false) s s' → L.inv s' → L.back c s' →
      L.Ensuing t op true (Function.update (Function.update H m false) m true) k (Onward t op k) s'
  | .signal _ k, H, s => L.Ensuing t op false H k (Onward t op k) s
  | .emit _ k, H, s => L.Ensuing t op false H k (Onward t op k) s
  | .input k, H, s => ∀ x, L.answer x → L.Ensuing t op false H (k x) (Onward t op (k x)) s
  | .act f k, H, s => ∀ b s', f s = some (b, s') → L.allow t op s s' →
    L.inv s' ∧ L.effect t op H s s' (k b) ∧ L.Ensuing t op false H (k b) (Onward t op (k b)) s'

def Safe (t : T) (op : Op) (r : Bool) (H : M → Bool) (p : Prog M C E I S R) (s : S) : Prop :=
  L.Ensuing t op r H p (L.Onward t op p) s

/-- The laws that make the rules of single threads fit together. -/
structure Lawful (code : T → Op → Prog M C E I S R) : Prop where
  refl : ∀ {t H s}, L.rely t H s s
  trans : ∀ {t H s s' s''}, L.rely t H s s' → L.rely t H s' s'' → L.rely t H s s''
  frame : ∀ {t u op H K s s' p}, t ≠ u → (∀ m, H m = true → K m = false) →
    L.effect u op K s s' p → L.rely t H s s'
  rest : ∀ {t H s s'}, L.rely t H s s' → L.inv s' → L.rest t H s → L.rest t H s'
  start : ∀ {t op H s}, L.calls t op → L.rest t H s → L.inv s → L.Safe t op false H (code t op) s

variable {L} {code : T → Op → Prog M C E I S R} {t : T} {op : Op} {r : Bool} {H : M → Bool}
  {p : Prog M C E I S R} {s s' : S}

theorem Safe.mono (hL : L.Lawful code) (h : L.Safe t op r H p s) (hs : L.rely t H s s') :
    L.Safe t op r H p s' :=
  fun s'' hr hi => h s'' (hL.trans hs hr) hi

theorem Safe.now (hL : L.Lawful code) (h : L.Safe t op r H p s) (hi : L.inv s) :
    L.point t op r H p s ∧ L.Onward t op p H s :=
  h s hL.refl hi

def Fits (L : Rules T M C E I S Op R) (t : T) (H : M → Bool) (s : S) :
    Status M C E I S Op R → Prop
  | .idle => L.rest t H s
  | .run r op p => L.Safe t op r H p s
  | .blocked op d m p | .woken op d m p => ∀ s', L.rely t H s s' → L.inv s' → L.back d s' →
    L.Safe t op true (Function.update H m true) p s'

theorem Fits.mono (hL : L.Lawful code) {st : Status M C E I S Op R} (h : L.Fits t H s st)
    (hs : L.rely t H s s') (hi : L.inv s') : L.Fits t H s' st := by
  cases st with
  | idle => exact hL.rest hs hi h
  | run r op p => exact Safe.mono hL h hs
  | blocked op d m p => exact fun s'' hr => h s'' (hL.trans hs hr)
  | woken op d m p => exact fun s'' hr => h s'' (hL.trans hs hr)

/-- Where nothing is promised, a preorder that contains every effect contains the execution by a
single thread. -/
theorem Onward.exec (hL : L.Lawful code) (hinv : ∀ s, L.inv s) (hallow : ∀ s s', L.allow t op s s')
    (hback : ∀ d s, L.back d s) (hans : ∀ x, L.answer x) {P : S → S → Prop} (hrefl : ∀ s, P s s)
    (htrans : ∀ {a b c}, P a b → P b c → P a c)
    (heffect : ∀ {H s s' p}, L.effect t op H s s' p → P s s') {x : I} {a : R}
    (h : L.Onward t op p H s) (he : p.exec x s = some (a, s')) : P s s' := by
  have hgo : ∀ {r H p s}, L.Safe t op r H p s → L.Onward t op p H s :=
    fun hs => (Safe.now hL hs (hinv _)).2
  induction p generalizing H s with
  | ret b =>
    obtain ⟨-, rfl⟩ : b = a ∧ s = s' := by simpa [Prog.exec] using he
    exact hrefl s
  | lock m k ih => exact ih (hgo h) he
  | unlock m k ih => exact ih (hgo h) he
  | wait d m k ih => exact ih (hgo (h s hL.refl (hinv s) (hback d s))) he
  | signal d k ih => exact ih (hgo h) he
  | emit e k ih => exact ih (hgo h) he
  | input k ih => exact ih x (hgo (h x (hans x))) he
  | act f k ih =>
    obtain ⟨⟨b, s₁⟩, hf, hk⟩ := Option.bind_eq_some_iff.mp he
    obtain ⟨-, hd, hn⟩ := h b s₁ hf (hallow s s₁)
    exact htrans (heffect hd) (ih b (hgo hn) hk)

variable [DecidableEq T]

/-- The invariant of all schedules that keep the promises. -/
structure Global (L : Rules T M C E I S Op R) (c : Config T M C E I S Op R) : Prop where
  inv : L.inv c.data
  fits : ∀ t, L.Fits t (c.held t) c.data (c.thread t)

def Obeys (L : Rules T M C E I S Op R) (c : Config T M C E I S Op R) : Action T I Op → Prop
  | .call t op => L.calls t op
  | .step t => ∀ r op p c', c.thread t = .run r op p → c.advance t op p = some c' →
    L.allow t op c.data c'.data
  | .input _ x => L.answer x
  | .signal _ _ | .spurious _ => True
  | .wake t => ∀ op d m p, c.thread t = .woken op d m p → L.back d c.data

variable {c c' : Config T M C E I S Op R} {m : M}

theorem Global.onward (hL : L.Lawful code) (h : L.Global c) (hc : c.thread t = .run r op p) :
    L.point t op r (c.held t) p c.data ∧ L.Onward t op p (c.held t) c.data := by
  have hf := h.fits t
  rw [hc] at hf
  exact Safe.now hL hf h.inv

theorem Global.setThread (h : L.Global c) {st : Status M C E I S Op R}
    (hf : L.Fits t (c.held t) c.data st) : L.Global (c.setThread t st) := by
  refine ⟨h.inv, fun u => ?_⟩
  by_cases e : u = t
  · subst e
    simpa using hf
  · rw [Config.setThread_of_ne c st e]
    exact h.fits u

theorem Global.take (h : L.Global c) (ho : c.owner m = none) {st : Status M C E I S Op R}
    (hf : L.Fits t (Function.update (c.held t) m true) c.data st) :
    L.Global ((c.setOwner m (some t)).setThread t st) := by
  refine ⟨h.inv, fun u => ?_⟩
  by_cases e : u = t
  · subst e
    rw [Config.setThread_self, Config.setThread_held, Config.held_take]
    exact hf
  · rw [Config.setThread_of_ne _ st e, Config.setThread_held, Config.held_take_of_ne ho e]
    exact h.fits u

theorem Global.give (h : L.Global c) (ho : c.owner m = some t) {st : Status M C E I S Op R}
    (hf : L.Fits t (Function.update (c.held t) m false) c.data st) :
    L.Global ((c.setOwner m none).setThread t st) := by
  refine ⟨h.inv, fun u => ?_⟩
  by_cases e : u = t
  · subst e
    rw [Config.setThread_self, Config.setThread_held, Config.held_give]
    exact hf
  · rw [Config.setThread_of_ne _ st e, Config.setThread_held, Config.held_give_of_ne ho e]
    exact h.fits u

/-- A data step of `t`; the other threads rely on its effect. -/
theorem Global.change (hL : L.Lawful code) (h : L.Global c) (hi : L.inv s)
    (he : L.effect t op (c.held t) c.data s p) {st : Status M C E I S Op R}
    (hf : L.Fits t (c.held t) s st) : L.Global ((c.setData s).setThread t st) := by
  refine ⟨hi, fun u => ?_⟩
  by_cases e : u = t
  · subst e
    rw [Config.setThread_self]
    exact hf
  · rw [Config.setThread_of_ne _ st e]
    have hr := hL.frame e (fun m hm => Config.held_disjoint e hm) he
    exact Fits.mono hL (h.fits u) hr hi

theorem Global.moved (hL : L.Lawful code) (h : L.Global c) {a : Action T I Op}
    (hm : c.Moved code a c') (ho : L.Obeys c a) : L.Global c' := by
  cases hm with
  | @call t op hc =>
    apply h.setThread
    have hr := h.fits t
    rw [hc] at hr
    exact hL.start ho hr h.inv
  | ret hc => exact h.setThread (h.onward hL hc).2
  | lock hc hn => exact h.take hn (h.onward hL hc).2
  | unlock hc hn => exact h.give hn (h.onward hL hc).2
  | wait hc hn => exact h.give hn (h.onward hL hc).2
  | emit hc => exact h.setThread (h.onward hL hc).2
  | @act t r op β f k b s hc hf =>
    have ha : c.advance t op (.act f k) =
        some ((c.setData s).setThread t (.run false op (k b))) := by
      simp [Config.advance, hf]
    obtain ⟨hi, he, hk⟩ := (h.onward hL hc).2 b s hf (ho _ _ _ _ hc ha)
    exact h.change hL hi he hk
  | @input t r op x k hc => exact h.setThread ((h.onward hL hc).2 x ho)
  | noWaiter hc hn => exact h.setThread (h.onward hL hc).2
  | @signal t u r op d k o m p hc hu =>
    have hw := h.fits u
    rw [hu] at hw
    have hg : L.Global (c.setThread u (.woken o d m p)) := h.setThread hw
    exact hg.setThread (h.onward hL hc).2
  | @spurious t op d m p hc =>
    have hw := h.fits t
    rw [hc] at hw
    have hg : L.Global (c.setThread t (.woken op d m p)) := h.setThread hw
    exact hg
  | @wake t op d m p hc hn =>
    have hw := h.fits t
    rw [hc] at hw
    exact h.take hn (hw c.data hL.refl h.inv (ho _ _ _ _ hc))

theorem Global.effect (hL : L.Lawful code) (h : L.Global c) {a : Action T I Op}
    (hm : c.Moved code a c') (ho : L.Obeys c a) : c'.data = c.data ∨ ∃ t op p,
      (c.thread t).op = some op ∧ a = .step t ∧ L.effect t op (c.held t) c.data c'.data p := by
  cases hm with
  | @act t r op β f k b s hc hf =>
    have ha : c.advance t op (.act f k) =
        some ((c.setData s).setThread t (.run false op (k b))) := by
      simp [Config.advance, hf]
    obtain ⟨-, he, -⟩ := (h.onward hL hc).2 b s hf (ho _ _ _ _ hc ha)
    exact .inr ⟨t, op, k b, by rw [hc]; rfl, rfl, he⟩
  | _ => exact .inl rfl

/-- The rules hold along a schedule, and so does what they help to keep of the log. -/
theorem run_global_log [DecidableEq C] [Fintype T] (hL : L.Lawful code)
    (J : List (Entry (Config T M C E I S Op R) (Action T I Op) Unit) →
      Config T M C E I S Op R → Prop)
    {ok : Config T M C E I S Op R → Action T I Op → Prop} {acts : List (Action T I Op)}
    {log : List (Entry (Config T M C E I S Op R) (Action T I Op) Unit)}
    (hg : L.Global c) (hJ : J [] c) (hobey : ∀ c a, ok c a → L.Obeys c a)
    (hstep : ∀ log c a c', L.Global c → J log c → ok c a → c.step code a = some ((), c') →
      J (log ++ [⟨c, a, (), c'⟩]) c')
    (hp : Runs.Permitted (fun a c => c.step code a) ok acts c)
    (hr : Runs.run (fun a c => c.step code a) acts c = some (log, c')) :
    L.Global c' ∧ J log c' := by
  refine Runs.run_safe (fun log c => L.Global c ∧ J log c) ⟨hg, hJ⟩
    (fun log c a _ c' h hok hs => ?_) hp hr
  constructor
  · exact h.1.moved hL (Config.moved_of_step hs) (hobey c a hok)
  · exact hstep log c a c' h.1 h.2 hok hs

theorem run_global [DecidableEq C] [Fintype T] (hL : L.Lawful code)
    (J : Config T M C E I S Op R → Prop) {ok : Config T M C E I S Op R → Action T I Op → Prop}
    {acts : List (Action T I Op)}
    {log : List (Entry (Config T M C E I S Op R) (Action T I Op) Unit)}
    (hg : L.Global c) (hJ : J c) (hobey : ∀ c a, ok c a → L.Obeys c a)
    (hstep : ∀ c a c', L.Global c → J c → ok c a → c.step code a = some ((), c') → J c')
    (hp : Runs.Permitted (fun a c => c.step code a) ok acts c)
    (hr : Runs.run (fun a c => c.step code a) acts c = some (log, c')) : L.Global c' ∧ J c' :=
  run_global_log hL (fun _ c => J c) hg hJ hobey (fun _ => hstep) hp hr

end Rules

end Tbm
