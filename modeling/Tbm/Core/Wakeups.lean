import Tbm.Core.Threads

/-! Waits on condition variables. What a parked thread waits for is not there, or the thread that
made it available is on its way to the signal. -/
namespace Tbm

section Signals

variable {M C E I S Op R : Type} [DecidableEq M] [DecidableEq C]

/-- The program comes to a signal of `d` by itself and without giving up `g`. -/
def Prog.signals (g : M) (d : C) : Prog M C E I S R → S → Bool
  | .signal e k, s => e = d || k.signals g d s
  | .unlock m k, s => m ≠ g && k.signals g d s
  | .emit _ k, s => k.signals g d s
  | .act f k, s =>
    match f s with
    | some r => (k r.1).signals g d r.2
    | none => false
  | .ret _, _ | .lock _ _, _ | .wait _ _ _, _ | .input _, _ => false

def Status.signals (g : M) (d : C) (s : S) : Status M C E I S Op R → Bool
  | .run _ _ p => p.signals g d s
  | _ => false

section Simp

variable {β : Type} (g : M) (d : C) (s : S) (f : Unit → Prog M C E I S R)

@[simp] theorem signals_read (h : S → β) (k : β → Prog M C E I S R) :
    (Prog.read h >>= k).signals g d s = (k (h s)).signals g d s := rfl

@[simp] theorem signals_modify (h : S → S) :
    (Prog.modify h >>= f).signals g d s = (f ()).signals g d (h s) := rfl

@[simp] theorem signals_mutexUnlock (m : M) : (Prog.mutexUnlock m >>= f).signals g d s =
    (decide (m ≠ g) && (f ()).signals g d s) := rfl

@[simp] theorem signals_condSignal (e : C) : (Prog.condSignal e >>= f).signals g d s =
    (decide (e = d) || (f ()).signals g d s) := rfl

end Simp

end Signals

namespace Config

variable {T M C E I S Op R : Type} [DecidableEq M] [DecidableEq C]

/-- The owner of `g` is about to signal `d`. -/
def pending (g : M) (d : C) (c : Config T M C E I S Op R) : Bool :=
  match c.owner g with
  | none => false
  | some t => (c.thread t).signals g d c.data

/-- A thread parked on `d` is the one waiter of `d`, and what it waits for is not there unless a
signal is pending. -/
def Attended (g : M) (waiter : C → T) (parks : C → S → Prop) (c : Config T M C E I S Op R) : Prop :=
  ∀ t d, (c.thread t).BlockedOn d → t = waiter d ∧ (c.pending g d = true ∨ parks d c.data)

variable {g m : M} {d : C} {c c' : Config T M C E I S Op R} {t : T} {r : Bool} {op : Op}
  {st : Status M C E I S Op R} {waiter : C → T} {parks : C → S → Prop}

theorem pending_iff : c.pending g d = true ↔
    ∃ t, c.owner g = some t ∧ (c.thread t).signals g d c.data = true := by
  unfold pending
  cases c.owner g <;> simp

/-- With a signal pending, `g` is neither free nor given up. -/
private theorem pending_setOwner (h : c.pending g d = true) {o : Option T}
    (hm : c.owner m = none ∨ ∃ t, c.owner m = some t ∧
      (m = g → (c.thread t).signals g d c.data = false)) :
    (c.setOwner m o).owner g = c.owner g := by
  obtain ⟨u, hu, hs⟩ := pending_iff.mp h
  have hne : g ≠ m := by
    rintro rfl
    rcases hm with hm | ⟨t, ht, hq⟩
    · simp [hm] at hu
    · obtain rfl := Option.some.inj (ht.symm.trans hu)
      simp [hq rfl] at hs
  simp [setOwner, hne]

variable [DecidableEq T]

/-- A signal stays pending while `t` moves on, if `t` still comes to it or was not on its way. -/
private theorem pending_setThread {e : Config T M C E I S Op R} (h : c.pending g d = true)
    (ht : e.thread = c.thread) (ho : e.owner g = c.owner g)
    (hd : c.owner g ≠ some t → e.data = c.data)
    (hp : c.owner g = some t → (c.thread t).signals g d c.data = true →
      st.signals g d e.data = true) :
    (e.setThread t st).pending g d = true := by
  obtain ⟨u, hu, hs⟩ := pending_iff.mp h
  refine pending_iff.mpr ⟨u, ho.trans hu, ?_⟩
  by_cases hut : u = t
  · subst hut
    rw [setThread_self]
    exact hp hu hs
  · have hdata : e.data = c.data := by
      apply hd
      rw [hu]
      simpa using hut
    rw [setThread_of_ne e st hut, setThread_data, ht, hdata]
    exact hs

namespace Attended

private theorem setThread {e : Config T M C E I S Op R} (h : Attended g waiter parks c)
    (ht : e.thread = c.thread) (hd : e.data = c.data)
    (ho : ∀ d, c.pending g d = true → e.owner g = c.owner g)
    (hst : ∀ d, st.BlockedOn d → t = waiter d ∧ parks d c.data)
    (hp : ∀ u d, (c.thread u).BlockedOn d → (c.thread t).signals g d c.data = true →
      st.signals g d c.data = true) :
    Attended g waiter parks (e.setThread t st) := by
  intro u d hu
  rw [setThread_data, hd]
  by_cases hut : u = t
  · subst hut
    rw [setThread_self] at hu
    obtain ⟨hw, hparks⟩ := hst d hu
    exact ⟨hw, .inr hparks⟩
  · rw [setThread_of_ne e st hut, ht] at hu
    obtain ⟨hw, hpend | hparks⟩ := h u d hu
    · refine ⟨hw, .inl (pending_setThread hpend ht (ho d hpend) (fun _ => hd) fun _ hs => ?_)⟩
      rw [hd]
      exact hp u d hu hs
    · exact ⟨hw, .inr hparks⟩

private theorem signalled {k : Prog M C E I S R} (h : Attended g waiter parks c)
    (hc : c.thread t = .run r op (.signal d k)) (hn : ∀ u, ¬(c.thread u).BlockedOn d) :
    Attended g waiter parks (c.setThread t (.run false op k)) := by
  refine h.setThread rfl rfl (fun _ _ => rfl) nofun fun u e hu hs => ?_
  have hde : d ≠ e := by
    rintro rfl
    exact hn u hu
  rw [hc] at hs
  simpa [Status.signals, Prog.signals, hde] using hs

private theorem woken {o : Op} {p : Prog M C E I S R} (h : Attended g waiter parks c)
    (hc : c.thread t = .blocked o d m p) :
    Attended g waiter parks (c.setThread t (.woken o d m p)) := by
  refine h.setThread rfl rfl (fun _ _ => rfl) nofun fun u e hu hs => ?_
  rw [hc] at hs
  nomatch hs

/-- A thread that is not on its way to a signal moves on, and is not parked then. -/
private theorem quiet {e : Config T M C E I S Op R} (h : Attended g waiter parks c)
    (ht : e.thread = c.thread) (hd : e.data = c.data)
    (ho : ∀ d, c.pending g d = true → e.owner g = c.owner g) (hst : ∀ d, ¬st.BlockedOn d)
    (hq : ∀ d, (c.thread t).signals g d c.data = false) :
    Attended g waiter parks (e.setThread t st) := by
  refine h.setThread ht hd ho (fun d hb => absurd hb (hst d)) fun u d _ hs => ?_
  rw [hq d] at hs
  cases hs

/-- The thread changes the data under `g` with a signal to follow, or leaves them as they are. -/
private theorem act {β : Type} {f : S → Option (β × S)} {k : β → Prog M C E I S R} {v : β} {s : S}
    (h : Attended g waiter parks c) (hc : c.thread t = .run r op (.act f k))
    (hf : f c.data = some (v, s))
    (hs : s = c.data ∨ c.owner g = some t ∧ ∀ u d, u ≠ t → (c.thread u).BlockedOn d →
      parks d c.data → (k v).signals g d s = true ∨ parks d s) :
    Attended g waiter parks ((c.setData s).setThread t (.run false op (k v))) := by
  intro u d hu
  have hut : u ≠ t := by
    rintro rfl
    rw [setThread_self] at hu
    nomatch hu
  rw [setThread_of_ne _ _ hut] at hu
  obtain ⟨hw, hpend | hparks⟩ := h u d hu
  · refine ⟨hw, .inl (pending_setThread hpend rfl rfl (fun hne => ?_) fun _ hsig => ?_)⟩
    · exact hs.resolve_right fun ho => hne ho.1
    · rw [hc] at hsig
      have hk : (k v).signals g d s = true := by
        simpa [Status.signals, Prog.signals, hf] using hsig
      exact hk
  · refine ⟨hw, ?_⟩
    rcases hs with rfl | ⟨ho, hkeep⟩
    · exact .inr hparks
    · rcases hkeep u d hut hu hparks with hsig | hp
      · refine .inl (pending_iff.mpr ⟨t, ho, ?_⟩)
        rw [setThread_self]
        exact hsig
      · exact .inr hp

private theorem signal {u : T} {k : Prog M C E I S R} {o : Op} {p : Prog M C E I S R}
    (h : Attended g waiter parks c) (hc : c.thread t = .run r op (.signal d k))
    (hu : c.thread u = .blocked o d m p) :
    Attended g waiter parks
      ((c.setThread u (.woken o d m p)).setThread t (.run false op k)) := by
  have hw := h.woken hu
  have htu : t ≠ u := by
    rintro rfl
    rw [hc] at hu
    nomatch hu
  have hc' : (c.setThread u (.woken o d m p)).thread t = .run r op (.signal d k) := by
    rw [setThread_of_ne _ _ htu, hc]
  refine hw.signalled hc' fun v hv => ?_
  -- Nobody else can be parked on `d`.
  have hvu : v = u := by
    have hud : (c.thread u).BlockedOn d := by
      rw [hu]
      rfl
    exact (hw v d hv).1.trans (h u d hud).1.symm
  subst hvu
  rw [setThread_self] at hv
  exact hv

/-- A step of any thread leaves everyone attended: a thread only parks when what it waits for is
not there, and data that others wait for only changes under `g` and with a signal to follow. -/
theorem moved {code : T → Op → Prog M C E I S R} {a : Action T I Op}
    (h : Attended g waiter parks c) (hm : c.Moved code a c')
    (hwait : ∀ t r op d m k, c.thread t = .run r op (.wait d m k) → t = waiter d ∧ parks d c.data)
    (hact : ∀ t r op (β : Type) (f : S → Option (β × S)) k b s, a = .step t →
      c.thread t = .run r op (.act f k) → f c.data = some (b, s) →
      s = c.data ∨ c.owner g = some t ∧ ∀ u d, u ≠ t →
        (c.thread u).BlockedOn d → parks d c.data → (k b).signals g d s = true ∨ parks d s) :
    Attended g waiter parks c' := by
  cases hm with
  | call hc => exact h.quiet rfl rfl (fun _ _ => rfl) nofun fun d => by rw [hc]; rfl
  | ret hc => exact h.quiet rfl rfl (fun _ _ => rfl) nofun fun d => by rw [hc]; rfl
  | lock hc ho =>
    refine h.quiet rfl rfl (fun d hd => ?_) nofun fun d => by rw [hc]; rfl
    exact pending_setOwner hd (.inl ho)
  | @unlock t r op m k hc ho =>
    refine h.setThread rfl rfl (fun d hd => ?_) nofun fun u d _ hs => ?_
    · refine pending_setOwner hd (.inr ⟨t, ho, fun e => ?_⟩)
      rw [hc, e]
      simp [Status.signals, Prog.signals]
    · rw [hc] at hs
      have hs' : m ≠ g ∧ k.signals g d c.data = true := by
        simpa [Status.signals, Prog.signals] using hs
      exact hs'.2
  | @wait t r op d m k hc ho =>
    refine h.setThread rfl rfl (fun e he => ?_) (fun e he => ?_) fun u e _ hs => ?_
    · refine pending_setOwner he (.inr ⟨t, ho, fun _ => ?_⟩)
      rw [hc]
      rfl
    · obtain rfl : d = e := he
      exact hwait t r op d m k hc
    · rw [hc] at hs
      nomatch hs
  | emit hc =>
    refine h.setThread rfl rfl (fun _ _ => rfl) nofun fun u d _ hs => ?_
    rw [hc] at hs
    exact hs
  | act hc hf => exact h.act hc hf (hact _ _ _ _ _ _ _ _ rfl hc hf)
  | input hc => exact h.quiet rfl rfl (fun _ _ => rfl) nofun fun d => by rw [hc]; rfl
  | noWaiter hc hn => exact h.signalled hc hn
  | signal hc hu => exact h.signal hc hu
  | spurious hc => exact h.woken hc
  | wake hc ho =>
    refine h.quiet rfl rfl (fun e he => ?_) nofun fun d => by rw [hc]; rfl
    exact pending_setOwner he (.inl ho)

end Attended

end Config

end Tbm
