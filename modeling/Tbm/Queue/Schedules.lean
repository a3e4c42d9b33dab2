import Tbm.Queue.Locking

/-! Any number of threads on one queue. -/
namespace Tbm.Queue

open Prog

abbrev QConfig (n : ℕ) := Config (Fin n) Mutex Cond Event AllocResult SurfaceQueue Op Reply

abbrev QAction (n : ℕ) := Action (Fin n) AllocResult Op

/-- The code of thread `t`. -/
def code (kind : Kind) (n : ℕ) (t : Fin n) (op : Op) : QProg Reply := program kind.impl t op

/-- One step of a schedule of `n` threads. -/
def move (kind : Kind) {n : ℕ} (a : QAction n) (c : QConfig n) : Option (Unit × QConfig n) :=
  c.step (code kind n) a

section Lawful

variable {kind : Kind} {n : ℕ} {W : Cond → SurfaceQueue → Prop} {t : Fin n} {op : Op}
  {H : Mutex → Bool} {q : SurfaceQueue}

theorem program_safe (h : H .queue = true → q.valid = false) :
    (rules kind n W).Safe t op false H (program kind.impl t op) q := by
  rw [eq_hold H]
  exact rules_keeps.program_safe trivial h trivial

theorem rules_lawful : (rules kind n W).Lawful (code kind n) where
  refl := .refl
  trans := .trans
  frame := relies_of_effect
  rest := fun hr _ h hb => hr.valid (h hb)
  start := fun _ h _ => program_safe h

theorem initial_global : (rules kind n W).Global (.initial q) where
  inv := trivial
  fits := by
    intro t hb
    simp [Config.held, Config.initial] at hb

end Lawful

section Runs

open Runs

variable {kind : Kind} {n : ℕ} {W : Cond → SurfaceQueue → Prop} {ok : QConfig n → QAction n → Prop}
  {acts : List (QAction n)} {q : SurfaceQueue} {c : QConfig n}
  {log : List (Entry (QConfig n) (QAction n) Unit)}

/-- The rules hold along a schedule, and so does what they help to keep. -/
theorem run_global (J : QConfig n → Prop) (hJ : J (.initial q))
    (hobey : ∀ c a, ok c a → (rules kind n W).Obeys c a)
    (hstep : ∀ c a c', (rules kind n W).Global c → J c → ok c a → move kind a c = some ((), c') →
      J c')
    (hp : Permitted (move kind) ok acts (.initial q))
    (hr : run (move kind) acts (.initial q) = some (log, c)) : (rules kind n W).Global c ∧ J c :=
  Rules.run_global rules_lawful J initial_global hJ hobey hstep hp hr

/-- Without a promise about waits every action keeps the rules. -/
theorem obeys_true (c : QConfig n) (a : QAction n) :
    (rules kind n fun _ _ => True).Obeys c a := by
  cases a <;> simp [Rules.Obeys, rules]

/-- `k` steps of one thread. -/
def steps (t : Fin n) (k : ℕ) : List (QAction n) := List.replicate k (.step t)

/-- Thread `t` dequeues the new surface `s` while no other thread runs. -/
def dequeueAlone (t : Fin n) (s : Surface) : List (QAction n) :=
  [.call t .dequeue] ++ steps t 5 ++ [.input t ⟨some s, true⟩] ++ steps t 10

def enqueueAlone (t : Fin n) (s : Surface) : List (QAction n) :=
  [.call t (.enqueue (some s))] ++ steps t 8 ++ [.signal t none] ++ steps t 4

def acquireAlone (t : Fin n) : List (QAction n) := [.call t .acquire] ++ steps t 10

/-- Thread `t` gives `s` back and wakes `u`. -/
def releaseAlone (t : Fin n) (s : Surface) (u : Option (Fin n)) : List (QAction n) :=
  [.call t (.release (some s))] ++ steps t 9 ++ [.signal t u] ++ steps t 4

/-- Thread `t` empties the queue and wakes `u`. -/
def flushAlone (t : Fin n) (u : Option (Fin n)) : List (QAction n) :=
  [.call t .flush] ++ steps t 6 ++ [.signal t u] ++ steps t 3

/-- The only surface of a queue of size 1 is with the consumer `u`, and the producer `t` is parked
in `can_dequeue`. -/
def park (t u : Fin n) : List (QAction n) :=
  dequeueAlone t 7 ++ enqueueAlone t 7 ++ acquireAlone u ++ [.call t (.canDequeue 1)] ++ steps t 14

def parked : List (QAction 2) := park 0 1

/-- The surfaces a wait is for are there. -/
def Served (q : SurfaceQueue) : Cond → Prop
  | .freeCond => q.queueIsEmpty .free = false
  | .dirtyCond => q.queueIsEmpty .dirty = false

/-- A wait only ends while there is a surface to take. -/
def WakesServed (c : QConfig n) : QAction n → Prop
  | .wake t =>
    match c.thread t with
    | .woken _ d _ _ => Served c.data d
    | _ => True
  | _ => True

instance (q : SurfaceQueue) : ∀ d, Decidable (Served q d)
  | .freeCond | .dirtyCond => inferInstanceAs (Decidable (_ = _))

instance (c : QConfig n) : ∀ a, Decidable (WakesServed c a)
  | .wake t =>
    match h : c.thread t with
    | .woken _ d _ _ => decidable_of_iff (Served c.data d) (by simp [WakesServed, h])
    | .idle | .run _ _ _ | .blocked _ _ _ _ => isTrue (by simp [WakesServed, h])
  | .call _ _ | .step _ | .input _ _ | .signal _ _ | .spurious _ => isTrue trivial

/-- Where `can_dequeue` or `can_acquire` gives the queue mutex back to return 1, there is a
surface, whatever the schedule, if waits only end while there is one. -/
theorem positive_answer_true (hp : Permitted (move kind) WakesServed acts (.initial q))
    (hr : run (move kind) acts (.initial q) = some (log, c)) (t : Fin n) (r : Bool) (w : ℤ) :
    (c.thread t = .run r (.canDequeue w) (leaving (.answer 1)) →
      c.data.queueIsEmpty .free = false) ∧
      (c.thread t = .run r (.canAcquire w) (leaving (.answer 1)) →
        c.data.queueIsEmpty .dirty = false) := by
  have hobey : ∀ c a, WakesServed c a →
      (rules kind n fun d q => Served q d).Obeys c a := by
    intro c a h
    cases a with
    | wake t =>
      intro op d m p hc
      have hs : Served c.data d := by simpa only [WakesServed, hc] using h
      exact hs
    | call t op => trivial
    | step t => exact fun _ _ _ _ _ _ => trivial
    | input t x => trivial
    | signal t u => trivial
    | spurious t => trivial
  obtain ⟨hg, -⟩ := run_global (fun _ => True) trivial hobey (fun _ _ _ _ _ _ _ => trivial) hp hr
  constructor
  · intro hc
    rcases (hg.onward rules_lawful hc).1.answer rfl with h | h
    · exact h
    · exact h
  · intro hc
    rcases (hg.onward rules_lawful hc).1.answer rfl with h | h
    · exact h
    · exact h

/-- Thread `t` is in call `op` and all that is left is to give the mutexes back and return `a`. -/
def Replies (c : QConfig n) (t : Fin n) (op : Op) (a : Reply) : Bool :=
  match c.thread t with
  | .run _ o (.unlock .queue (.unlock .global (.ret b))) => o = op && b = a
  | _ => false

theorem leaving_of_replies {t : Fin n} {op : Op} {a : Reply} (h : Replies c t op a = true) :
    ∃ r, c.thread t = .run r op (leaving a) := by
  unfold Replies at h
  split at h
  next r o b hc =>
    obtain ⟨rfl, rfl⟩ : o = op ∧ b = a := by simpa using h
    exact ⟨r, hc⟩
  next => simp at h

theorem positive_answer_true_released : ∃ q log c, Kind.default.create 1 4 4 1 0 = some q ∧
    run (move .default) (parked ++ releaseAlone 1 7 (some 0) ++ [.wake 0] ++ steps 0 2)
      (.initial q) = some (log, c) ∧
    ∃ r, c.thread 0 = .run r (.canDequeue 1) (leaving (.answer 1)) ∧
      c.data.queueIsEmpty .free = false := by
  have hrun : ((Kind.default.create 1 4 4 1 0).bind fun q => (run (move .default)
      (parked ++ releaseAlone 1 7 (some 0) ++ [.wake 0] ++ steps 0 2) (.initial q)).map fun p =>
        (decide (Permitted (move .default) WakesServed
          (parked ++ releaseAlone 1 7 (some 0) ++ [.wake 0] ++ steps 0 2) (.initial q)),
          Replies p.2 0 (.canDequeue 1) (.answer 1))) = some (true, true) := by decide +kernel
  obtain ⟨q, hq, hq'⟩ := Option.bind_eq_some_iff.mp hrun
  obtain ⟨⟨log, c⟩, hr, he⟩ := Option.map_eq_some_iff.mp hq'
  obtain ⟨hp, hc⟩ := Prod.mk.inj he
  obtain ⟨r, hc⟩ := leaving_of_replies hc
  exact ⟨q, log, c, hq, hr, r, hc, (positive_answer_true (of_decide_eq_true hp) hr 0 r 1).1 hc⟩

/-- A flush wakes the waiter, and it answers 1 over an empty `free_queue`. -/
theorem flush_wakes_to_yes : ∃ q log c, Kind.default.create 1 4 4 1 0 = some q ∧
    run (move .default) (parked ++ flushAlone 1 (some 0) ++ [.wake 0] ++ steps 0 2) (.initial q) =
      some (log, c) ∧
    ∃ r, c.thread 0 = .run r (.canDequeue 1) (leaving (.answer 1)) ∧
      c.data.queueIsEmpty .free = true := by
  have hrun : ((Kind.default.create 1 4 4 1 0).bind fun q => (run (move .default)
      (parked ++ flushAlone 1 (some 0) ++ [.wake 0] ++ steps 0 2) (.initial q)).map fun p =>
        (Replies p.2 0 (.canDequeue 1) (.answer 1), p.2.data.queueIsEmpty .free)) =
      some (true, true) := by decide +kernel
  obtain ⟨q, hq, hq'⟩ := Option.bind_eq_some_iff.mp hrun
  obtain ⟨⟨log, c⟩, hr, he⟩ := Option.map_eq_some_iff.mp hq'
  obtain ⟨hc, hf⟩ := Prod.mk.inj he
  obtain ⟨r, hc⟩ := leaving_of_replies hc
  exact ⟨q, log, c, hq, hr, r, hc, hf⟩

/-- One thread holds the queue mutex of a live queue and waits for the global one, and another
holds the global one and waits for the queue mutex. -/
def CircularWait (c : QConfig n) : Prop :=
  c.data.valid = true ∧ ∃ t u, c.owner .queue = some t ∧ (c.thread t).WaitsFor .global ∧
    c.owner .global = some u ∧ (c.thread u).WaitsFor .queue

instance (c : QConfig n) : Decidable (CircularWait c) :=
  inferInstanceAs (Decidable (_ ∧ ∃ t u, _ = some t ∧ _ ∧ _ = some u ∧ _))

/-- Some thread but `t` holds the queue mutex and waits for the global one. -/
def ReturnPending (c : QConfig n) (t : Fin n) : Prop :=
  ∃ u, u ≠ t ∧ c.owner .queue = some u ∧ (c.thread u).WaitsFor .global

/-- A wait only ends while the global mutex is free, and until the waiter has it no other thread
takes it. -/
def WakesFree (c : QConfig n) : QAction n → Prop
  | .wake _ => c.owner .global = none
  | .step t => (c.thread t).WaitsFor .global → ¬ReturnPending c t
  | _ => True

instance (c : QConfig n) : ∀ a, Decidable (WakesFree c a)
  | .wake _ => inferInstanceAs (Decidable (_ = _))
  | .step t => inferInstanceAs (Decidable (_ → ¬∃ u, u ≠ t ∧ _ = some u ∧ _))
  | .call _ _ | .input _ _ | .signal _ _ | .spurious _ => isTrue trivial

/-- A thread that has come back from a wait finds the global mutex free. -/
structure Returning (c : QConfig n) : Prop where
  parked : ∀ t m, (c.thread t).gaveUp = some m → m = .queue
  free : ∀ t op k, c.owner .queue = some t → c.thread t = .run true op (lock .global k) →
    c.owner .global = none

private theorem Returning.setThread {d : QConfig n} {u : Fin n}
    {st : Status Mutex Cond Event AllocResult SurfaceQueue Op Reply} (h : Returning c)
    (hd : d.thread = c.thread) (hm : ∀ m, st.gaveUp = some m → m = .queue)
    (hst : ∀ op p, st ≠ .run true op p)
    (ho : ∀ t, t ≠ u → d.owner .queue = some t → (c.thread t).WaitsFor .global →
      c.owner .queue = some t ∧ (c.owner .global = none → d.owner .global = none)) :
    Returning (d.setThread u st) := by
  constructor
  · intro t m ht
    by_cases htu : t = u
    · subst htu
      rw [Config.setThread_self] at ht
      exact hm m ht
    · rw [Config.setThread_of_ne d st htu, hd] at ht
      exact h.parked t m ht
  · intro t op k hq ht
    by_cases htu : t = u
    · subst htu
      rw [Config.setThread_self] at ht
      exact absurd ht (hst _ _)
    · rw [Config.setThread_of_ne d st htu, hd] at ht
      obtain ⟨hc, hg⟩ := ho t htu hq (by rw [ht]; rfl)
      exact hg (h.free t op k hc ht)

theorem Returning.moved {a : QAction n} {c' : QConfig n} (h : Returning c) (hok : WakesFree c a)
    (hg : (rules kind n W).Global c) (hm : c.Moved (code kind n) a c') : Returning c' := by
  have hsame : ∀ t, c.owner .queue = some t → (c.thread t).WaitsFor .global →
      c.owner .queue = some t ∧ (c.owner .global = none → c.owner .global = none) :=
    fun t ht _ => ⟨ht, id⟩
  cases hm with
  | call hc => exact h.setThread rfl nofun nofun fun t _ => hsame t
  | ret hc => exact h.setThread rfl nofun nofun fun t _ => hsame t
  | @lock u r op m k hc hn =>
    refine h.setThread rfl nofun nofun fun t ht hq hw => ?_
    cases m with
    | global => exact absurd ⟨t, ht, hq, hw⟩ (hok (by rw [hc]; rfl))
    | queue => exact absurd (Option.some.inj hq).symm ht
  | @unlock u r op m k hc hn =>
    refine h.setThread rfl nofun nofun fun t ht hq hw => ?_
    cases m with
    | global => exact ⟨hq, fun _ => rfl⟩
    | queue => nomatch hq
  | @wait u r op d m k hc hn =>
    obtain rfl := (hg.onward rules_lawful hc).1.wait d m k rfl
    exact h.setThread rfl (fun _ e => (Option.some.inj e).symm) nofun fun t ht hq hw => nomatch hq
  | emit hc => exact h.setThread rfl nofun nofun fun t _ => hsame t
  | act hc => exact h.setThread rfl nofun nofun fun t _ => hsame t
  | input hc => exact h.setThread rfl nofun nofun fun t _ => hsame t
  | noWaiter hc => exact h.setThread rfl nofun nofun fun t _ => hsame t
  | @signal t u r op d k o m p hc hu =>
    have hw : Returning (c.setThread u (.woken o d m p)) := by
      refine h.setThread rfl (fun m' e => ?_) nofun fun t _ => hsame t
      exact h.parked u m' (by rw [hu]; exact e)
    exact hw.setThread rfl nofun nofun fun v _ hv _ => ⟨hv, id⟩
  | @spurious t op d m p hc =>
    refine h.setThread rfl (fun m' e => ?_) nofun fun t _ => hsame t
    exact h.parked t m' (by rw [hc]; exact e)
  | @wake u op d m p hc hn =>
    obtain rfl := h.parked u m (by rw [hc]; rfl)
    constructor
    · intro t m' ht
      by_cases htu : t = u
      · subst htu
        rw [Config.setThread_self] at ht
        nomatch ht
      · rw [Config.setThread_of_ne _ _ htu] at ht
        exact h.parked t m' ht
    · intro t o k _ _
      exact hok

/-- There is no circular wait under any schedule in which waiters come back to a free global
mutex. -/
theorem no_circular_wait (hp : Permitted (move kind) WakesFree acts (.initial q))
    (hr : run (move kind) acts (.initial q) = some (log, c)) : ¬CircularWait c := by
  have hstart : Returning (.initial q : QConfig n) := by
    constructor
    · intro t m h
      cases h
    · intro t op k h
      cases h
  obtain ⟨hg, hb⟩ := run_global Returning hstart (fun c a _ => obeys_true c a)
    (fun c a c' hg hb hok hs => hb.moved hok hg (Config.moved_of_step hs)) hp hr
  rintro ⟨hv, t, u, ht, hwt, hu, -⟩
  rcases Status.waitsFor_iff.mp hwt with ⟨r, op, k, hc⟩ | ⟨op, d, k, hc⟩
  · cases r with
    | false =>
      have hH : c.held t .queue = true := by simp [Config.held, ht]
      have hf := (hg.onward rules_lawful hc).1.order rfl hH ⟨k, rfl⟩
      simp [hv] at hf
    | true =>
      have hn := hb.free t op k ht hc
      simp [hn] at hu
  · have hm := hb.parked t .global (by rw [hc]; rfl)
    cases hm

theorem no_circular_wait_released : ∃ q log c, Kind.default.create 1 4 4 1 0 = some q ∧
    run (move .default) (parked ++ releaseAlone 1 7 (some 0) ++ [.wake 0] ++ steps 0 1)
      (.initial q) = some (log, c) ∧ ¬CircularWait c := by
  have hrun : ((Kind.default.create 1 4 4 1 0).bind fun q => (run (move .default)
      (parked ++ releaseAlone 1 7 (some 0) ++ [.wake 0] ++ steps 0 1) (.initial q)).map fun _ =>
        decide (Permitted (move .default) WakesFree
          (parked ++ releaseAlone 1 7 (some 0) ++ [.wake 0] ++ steps 0 1) (.initial q))) =
      some true := by decide +kernel
  obtain ⟨q, hq, hq'⟩ := Option.bind_eq_some_iff.mp hrun
  obtain ⟨⟨log, c⟩, hr, he⟩ := Option.map_eq_some_iff.mp hq'
  exact ⟨q, log, c, hq, hr, no_circular_wait (of_decide_eq_true he) hr⟩

/-- The waiter comes back with the queue mutex while the consumer is between the two mutexes. -/
theorem wake_meets_flush : ∃ q log c, Kind.default.create 1 4 4 1 0 = some q ∧
    run (move .default) (parked ++ releaseAlone 1 7 (some 0) ++ [.call 1 .flush] ++ steps 1 3 ++
      [.wake 0]) (.initial q) = some (log, c) ∧ CircularWait c := by
  have hrun : ((Kind.default.create 1 4 4 1 0).bind fun q => (run (move .default)
      (parked ++ releaseAlone 1 7 (some 0) ++ [.call 1 .flush] ++ steps 1 3 ++ [.wake 0])
        (.initial q)).map fun p => decide (CircularWait p.2)) = some true := by decide +kernel
  obtain ⟨q, hq, hq'⟩ := Option.bind_eq_some_iff.mp hrun
  obtain ⟨⟨log, c⟩, hr, he⟩ := Option.map_eq_some_iff.mp hq'
  exact ⟨q, log, c, hq, hr, of_decide_eq_true he⟩

end Runs

end Tbm.Queue
