import Mathlib.Data.List.Basic

/-! Runs of a deterministic object under a sequence of calls, with the log of what happened, and
the two induction rules over them. -/
namespace Tbm

/-- One call of a run. -/
structure Entry (S : Type*) (C R : Type) where
  before : S
  call : C
  reply : R
  after : S

namespace Runs

variable {S : Type*} {C R A : Type} (step : C → S → Option (R × S)) (ok : S → C → Prop)

/-- The log and the last state of a run; `none` if a call has no result. -/
def run : List C → S → Option (List (Entry S C R) × S)
  | [], s => some ([], s)
  | c :: cs, s => do
    let (r, s') ← step c s
    let (log, t) ← run cs s'
    some (⟨s, c, r, s'⟩ :: log, t)

/-- Every call of the run is made in a state that allows it. -/
def Permitted : List C → S → Prop
  | [], _ => True
  | c :: cs, s => ok s c ∧ ∀ r s', step c s = some (r, s') → Permitted cs s'

instance [∀ s c, Decidable (ok s c)] : ∀ cs s, Decidable (Permitted step ok cs s)
  | [], _ => isTrue trivial
  | c :: cs, s =>
    match h : step c s with
    | none => decidable_of_iff (ok s c) (by simp [Permitted, h])
    | some (r, s') =>
      have := instDecidablePermitted cs s'
      decidable_of_iff (ok s c ∧ Permitted step ok cs s') (by simp [Permitted, h])

variable {step ok}

theorem Permitted.mono {ok' : S → C → Prop} (h : ∀ s c, ok s c → ok' s c) {cs : List C} {s : S}
    (hp : Permitted step ok cs s) : Permitted step ok' cs s := by
  induction cs generalizing s with
  | nil => trivial
  | cons c cs ih => exact ⟨h s c hp.1, fun r s' hs => ih (hp.2 r s' hs)⟩

theorem Permitted.of_forall {cs : List C} (h : ∀ c ∈ cs, ∀ s, ok s c) {s : S} :
    Permitted step ok cs s := by
  induction cs generalizing s with
  | nil => trivial
  | cons c cs ih =>
    exact ⟨h c (.head _) s, fun _ _ _ => ih fun d hd => h d (.tail _ hd)⟩

theorem Permitted.and {P : C → Prop} {cs : List C} {s : S} (hp : Permitted step ok cs s)
    (h : ∀ c ∈ cs, P c) : Permitted step (fun s c => ok s c ∧ P c) cs s := by
  induction cs generalizing s with
  | nil => trivial
  | cons c cs ih =>
    exact ⟨⟨hp.1, h c (.head _)⟩, fun r s' hs => ih (hp.2 r s' hs) fun d hd => h d (.tail _ hd)⟩

private theorem run_total_from {I : List (Entry S C R) → S → Prop} {log : List (Entry S C R)}
    {s : S} {cs : List C} (h : I log s)
    (hstep : ∀ log s c, I log s → ok s c →
      ∃ r s', step c s = some (r, s') ∧ I (log ++ [⟨s, c, r, s'⟩]) s')
    (hp : Permitted step ok cs s) :
    ∃ log' t, run step cs s = some (log', t) ∧ I (log ++ log') t := by
  induction cs generalizing s log with
  | nil =>
    refine ⟨[], s, rfl, ?_⟩
    rw [List.append_nil]
    exact h
  | cons c cs ih =>
    obtain ⟨r, s', hs, hI⟩ := hstep log s c h hp.1
    obtain ⟨log', t, hr, ht⟩ := ih hI (hp.2 r s' hs)
    refine ⟨⟨s, c, r, s'⟩ :: log', t, by simp [run, hs, hr], ?_⟩
    rw [List.append_assoc] at ht
    exact ht

/-- An invariant of the log and the state, for calls that are shown to have a result. -/
theorem run_total (I : List (Entry S C R) → S → Prop) {s : S} {cs : List C} (h : I [] s)
    (hstep : ∀ log s c, I log s → ok s c →
      ∃ r s', step c s = some (r, s') ∧ I (log ++ [⟨s, c, r, s'⟩]) s')
    (hp : Permitted step ok cs s) : ∃ log t, run step cs s = some (log, t) ∧ I log t :=
  run_total_from h hstep hp

private theorem run_safe_from {I : List (Entry S C R) → S → Prop} {log log' : List (Entry S C R)}
    {s t : S} {cs : List C} (h : I log s)
    (hstep : ∀ log s c r s', I log s → ok s c → step c s = some (r, s') →
      I (log ++ [⟨s, c, r, s'⟩]) s')
    (hp : Permitted step ok cs s) (hr : run step cs s = some (log', t)) : I (log ++ log') t := by
  induction cs generalizing s log log' with
  | nil =>
    obtain ⟨rfl, rfl⟩ : [] = log' ∧ s = t := by simpa [run] using hr
    rw [List.append_nil]
    exact h
  | cons c cs ih =>
    obtain ⟨⟨r, s'⟩, hs, hr⟩ := Option.bind_eq_some_iff.mp hr
    obtain ⟨⟨log₁, t'⟩, hcs, hr⟩ := Option.bind_eq_some_iff.mp hr
    obtain ⟨rfl, rfl⟩ : ⟨s, c, r, s'⟩ :: log₁ = log' ∧ t' = t := by simpa using hr
    have ht := ih (hstep log s c r s' h hp.1 hs) (hp.2 r s' hs) hcs
    rw [List.append_assoc] at ht
    exact ht

/-- The same for calls that may fail to return. -/
theorem run_safe (I : List (Entry S C R) → S → Prop) {log : List (Entry S C R)} {s t : S}
    {cs : List C} (h : I [] s)
    (hstep : ∀ log s c r s', I log s → ok s c → step c s = some (r, s') →
      I (log ++ [⟨s, c, r, s'⟩]) s')
    (hp : Permitted step ok cs s) (hr : run step cs s = some (log, t)) : I log t :=
  run_safe_from h hstep hp hr

/-- Where a step from a good state leads to a good state just if it is allowed there, the states of
a run of calls in `P` are good just if all of its calls are allowed. -/
theorem run_iff_on {P : C → Prop} {I G : S → Prop} {s : S} {cs : List C} (hcs : ∀ c ∈ cs, P c)
    (hI : I s) (hG : G s) (hstep : ∀ s c, P c → I s →
      ∃ r s', step c s = some (r, s') ∧ I s' ∧ (G s → (G s' ↔ ok s c))) :
    ∃ log t, run step cs s = some (log, t) ∧
      ((∀ e ∈ log, G e.after) ↔ Permitted step ok cs s) := by
  have htotal : ∀ cs s, (∀ c ∈ cs, P c) → I s → ∃ log t, run step cs s = some (log, t) := by
    intro cs
    induction cs with
    | nil => exact fun s _ _ => ⟨[], s, rfl⟩
    | cons c cs ih =>
      intro s hcs hI
      obtain ⟨hc, hcs⟩ := List.forall_mem_cons.mp hcs
      obtain ⟨r, s', hs, hI', -⟩ := hstep s c hc hI
      obtain ⟨log, t, hr⟩ := ih s' hcs hI'
      exact ⟨⟨s, c, r, s'⟩ :: log, t, by simp [run, hs, hr]⟩
  induction cs generalizing s with
  | nil => exact ⟨[], s, rfl, by simp [Permitted]⟩
  | cons c cs ih =>
    obtain ⟨hc, hcs⟩ := List.forall_mem_cons.mp hcs
    obtain ⟨r, s', hs, hI', hiff⟩ := hstep s c hc hI
    have hp : Permitted step ok (c :: cs) s ↔ G s' ∧ Permitted step ok cs s' := by
      simp [Permitted, hs, hiff hG]
    by_cases hG' : G s'
    · obtain ⟨log, t, hr, hlog⟩ := ih hcs hI' hG'
      refine ⟨⟨s, c, r, s'⟩ :: log, t, by simp [run, hs, hr], ?_⟩
      rw [hp, ← hlog]
      simp
    · obtain ⟨log, t, hr⟩ := htotal cs s' hcs hI'
      refine ⟨⟨s, c, r, s'⟩ :: log, t, by simp [run, hs, hr], ?_⟩
      rw [hp]
      simp [hG']

/-- The same for all calls. -/
theorem run_iff {I G : S → Prop} {s : S} {cs : List C} (hI : I s) (hG : G s)
    (hstep : ∀ s c, I s → ∃ r s', step c s = some (r, s') ∧ I s' ∧ (G s → (G s' ↔ ok s c))) :
    ∃ log t, run step cs s = some (log, t) ∧
      ((∀ e ∈ log, G e.after) ↔ Permitted step ok cs s) :=
  run_iff_on (P := fun _ => True) (fun _ _ => trivial) hI hG fun s c _ => hstep s c

/-- Where an allowed step keeps an invariant and no other leads to a good state, a run comes to its
end through good states just if all of its calls are allowed. -/
theorem run_good_iff {I G : S → Prop} {s : S} {cs : List C} (hI : I s) (hgood : ∀ s, I s → G s)
    (hok : ∀ s c, I s → ok s c → ∃ r s', step c s = some (r, s') ∧ I s')
    (hbad : ∀ s c r s', I s → ¬ok s c → step c s = some (r, s') → ¬G s') :
    (∃ log t, run step cs s = some (log, t) ∧ ∀ e ∈ log, G e.after) ↔
      Permitted step ok cs s := by
  induction cs generalizing s with
  | nil => simp [run, Permitted]
  | cons c cs ih =>
    constructor
    · rintro ⟨log, t, hr, hlog⟩
      obtain ⟨⟨r, s'⟩, hs, hr⟩ := Option.bind_eq_some_iff.mp hr
      obtain ⟨⟨log', t'⟩, hcs, hr⟩ := Option.bind_eq_some_iff.mp hr
      obtain ⟨rfl, rfl⟩ : ⟨s, c, r, s'⟩ :: log' = log ∧ t' = t := by simpa using hr
      obtain ⟨hG, hlog⟩ := List.forall_mem_cons.mp hlog
      have hc : ok s c := by
        by_contra hno
        exact hbad s c r s' hI hno hs hG
      obtain ⟨r₁, s₁, hs₁, hI'⟩ := hok s c hI hc
      obtain ⟨rfl, rfl⟩ : r = r₁ ∧ s' = s₁ := by simpa [hs] using hs₁
      refine ⟨hc, fun r₂ s₂ hs₂ => ?_⟩
      obtain ⟨rfl, rfl⟩ : r = r₂ ∧ s' = s₂ := by simpa [hs] using hs₂
      exact (ih hI').mp ⟨log', t', hcs, hlog⟩
    · rintro ⟨hc, hcs⟩
      obtain ⟨r, s', hs, hI'⟩ := hok s c hI hc
      obtain ⟨log, t, hr, hlog⟩ := (ih hI').mpr (hcs r s' hs)
      refine ⟨⟨s, c, r, s'⟩ :: log, t, by simp [run, hs, hr], ?_⟩
      exact List.forall_mem_cons.mpr ⟨hgood s' hI', hlog⟩

theorem run_calls {log : List (Entry S C R)} {s t : S} {cs : List C}
    (hr : run step cs s = some (log, t)) : log.map Entry.call = cs := by
  induction cs generalizing s log with
  | nil =>
    obtain ⟨rfl, -⟩ : [] = log ∧ s = t := by simpa [run] using hr
    rfl
  | cons c cs ih =>
    obtain ⟨⟨r, s'⟩, hs, hr⟩ := Option.bind_eq_some_iff.mp hr
    obtain ⟨⟨log', t'⟩, hcs, hr⟩ := Option.bind_eq_some_iff.mp hr
    obtain ⟨rfl, rfl⟩ : ⟨s, c, r, s'⟩ :: log' = log ∧ t' = t := by simpa using hr
    rw [List.map_cons, ih hcs]

theorem run_concat {log : List (Entry S C R)} {s t t' : S} {cs : List C} {c : C} {r : R}
    (hr : run step cs s = some (log, t)) (hs : step c t = some (r, t')) :
    run step (cs ++ [c]) s = some (log ++ [⟨t, c, r, t'⟩], t') := by
  induction cs generalizing s log with
  | nil =>
    obtain ⟨rfl, rfl⟩ : [] = log ∧ s = t := by simpa [run] using hr
    simp [run, hs]
  | cons d cs ih =>
    obtain ⟨⟨a, s'⟩, hd, hr⟩ := Option.bind_eq_some_iff.mp hr
    obtain ⟨⟨log', t₁⟩, hcs, hr⟩ := Option.bind_eq_some_iff.mp hr
    obtain ⟨rfl, rfl⟩ : ⟨s, d, a, s'⟩ :: log' = log ∧ t₁ = t := by simpa using hr
    have hrest := ih hcs
    simp [run, hd, hrest]

/-- The last state of a run, without the log. -/
def last (step : C → S → Option (R × S)) : List C → S → Option S
  | [], s => some s
  | c :: cs, s =>
    match step c s with
    | some r => last step cs r.2
    | none => none

theorem run_of_last {cs : List C} {s t : S} (h : last step cs s = some t) :
    ∃ log, run step cs s = some (log, t) := by
  induction cs generalizing s with
  | nil =>
    obtain rfl : s = t := Option.some.inj h
    exact ⟨[], rfl⟩
  | cons c cs ih =>
    cases hs : step c s with
    | none => simp [last, hs] at h
    | some r =>
      have hl : last step cs r.2 = some t := by simpa [last, hs] using h
      obtain ⟨log, hr⟩ := ih hl
      exact ⟨⟨s, c, r.1, r.2⟩ :: log, by simp [run, hs, hr]⟩

/-- The replies and the last state of a machine all of whose calls have a result. -/
def replay (next : C → A → R × A) : List C → A → List R × A
  | [], a => ([], a)
  | c :: cs, a =>
    let r := next c a
    let p := replay next cs r.2
    (r.1 :: p.1, p.2)

theorem replay_concat (next : C → A → R × A) (cs : List C) (c : C) (a : A) :
    replay next (cs ++ [c]) a =
      ((replay next cs a).1 ++ [(next c (replay next cs a).2).1],
        (next c (replay next cs a).2).2) := by
  induction cs generalizing a with
  | nil => rfl
  | cons d cs ih => simp [replay, ih]

/-- What holds of each call and the log before it. -/
def Each (P : List (Entry S C R) → Entry S C R → Prop) (log : List (Entry S C R)) : Prop :=
  ∀ i e, log[i]? = some e → P (log.take i) e

variable {P : List (Entry S C R) → Entry S C R → Prop} {log : List (Entry S C R)} {e : Entry S C R}

theorem each_nil : Each P [] := by
  intro i e he
  simp at he

theorem Each.concat (h : Each P log) (he : P log e) : Each P (log ++ [e]) := by
  intro i e' hi
  rcases Nat.lt_trichotomy i log.length with hlt | rfl | hgt
  · rw [List.getElem?_append_left hlt] at hi
    rw [List.take_append_of_le_length (Nat.le_of_lt hlt)]
    exact h i e' hi
  · rw [List.getElem?_concat_length] at hi
    obtain rfl := Option.some.inj hi
    rwa [List.take_left]
  · rw [List.getElem?_eq_none (by rw [List.length_append, List.length_singleton]; omega)] at hi
    exact absurd hi (by simp)

end Runs

end Tbm
