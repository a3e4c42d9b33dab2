import Tbm.Queue.Changes
import Tbm.Core.Rely

/-! The rules of the queue operations under any schedule. Data changes under both mutexes (a
queue that is being destroyed under the global one), and the queue mutex is not held when the
global one is asked for, except at the end of a wait. -/
namespace Tbm.Queue

open Prog

/-- The mutexes held, the global one first. -/
def hold (g b : Bool) : Mutex → Bool
  | .global => g
  | .queue => b

section Hold

variable (g b x : Bool)

@[simp] theorem hold_global : hold g b .global = g := rfl

@[simp] theorem hold_queue : hold g b .queue = b := rfl

@[simp] theorem update_global : Function.update (hold g b) .global x = hold x b := by
  funext m
  cases m <;> rfl

@[simp] theorem update_queue : Function.update (hold g b) .queue x = hold g x := by
  funext m
  cases m <;> rfl

theorem eq_hold (H : Mutex → Bool) : H = hold (H .global) (H .queue) := by
  funext m
  cases m <;> rfl

end Hold

abbrev QRules (k : ℕ) := Rules (Fin k) Mutex Cond Event AllocResult SurfaceQueue Op Reply

/-- Rules under which the global mutex protects the data and reading is free. -/
class Guarded {k : ℕ} {O : Type}
    (L : Rules (Fin k) Mutex Cond Event AllocResult SurfaceQueue O Reply) : Prop where
  refl : ∀ {t H q}, L.rely t H q q
  held : ∀ {t b q q'}, L.rely t (hold true b) q q' → q' = q
  allow : ∀ {t op q}, L.allow t op q q
  effect : ∀ {t op H q p}, L.effect t op H q q p

section Guarded

variable {k : ℕ} {O : Type} {L : Rules (Fin k) Mutex Cond Event AllocResult SurfaceQueue O Reply}
  [Guarded L] {t : Fin k} {op : O} {r b g : Bool} {H : Mutex → Bool} {q : SurfaceQueue}
  {f : Unit → QProg Reply}

/-- With the global mutex held nobody else changes the data. -/
theorem safe_held {p : QProg Reply} : L.Safe t op r (hold true b) p q ↔
    (L.inv q → L.point t op r (hold true b) p q ∧ L.Onward t op p (hold true b) q) := by
  constructor
  · intro h
    exact h q Guarded.refl
  · intro h q' hq'
    rw [Guarded.held hq']
    exact h

omit [Guarded L] in
@[simp] theorem safe_pure {a : Reply} : L.Safe t op r H (pure a) q ↔
    ∀ q', L.rely t H q q' → L.inv q' → L.point t op r H (pure a) q' ∧ L.rest t H q' := Iff.rfl

@[simp] theorem safe_lockQueue : L.Safe t op r (hold true b) (mutexLock .queue >>= f) q ↔
    (L.inv q → L.point t op r (hold true b) (lock .queue (f ())) q ∧
      L.Safe t op false (hold true true) (f ()) q) := by
  rw [← update_queue true b true]
  exact safe_held

@[simp] theorem safe_unlockQueue : L.Safe t op r (hold true b) (mutexUnlock .queue >>= f) q ↔
    (L.inv q → L.point t op r (hold true b) (unlock .queue (f ())) q ∧
      L.Safe t op false (hold true false) (f ()) q) := by
  rw [← update_queue true b false]
  exact safe_held

@[simp] theorem safe_unlockGlobal : L.Safe t op r (hold true b) (mutexUnlock .global >>= f) q ↔
    (L.inv q → L.point t op r (hold true b) (unlock .global (f ())) q ∧
      L.Safe t op false (hold false b) (f ()) q) := by
  rw [← update_global true b false]
  exact safe_held

@[simp] theorem safe_signal {c : Cond} : L.Safe t op r (hold true b) (condSignal c >>= f) q ↔
    (L.inv q → L.point t op r (hold true b) (signal c (f ())) q ∧
      L.Safe t op false (hold true b) (f ()) q) := safe_held

theorem safe_access {β : Type} {h : SurfaceQueue → Option (β × SurfaceQueue)}
    {f : β → QProg Reply} : L.Safe t op r (hold true b) (access h >>= f) q ↔
      (L.inv q → L.point t op r (hold true b) (act h f) q ∧ ∀ x q', h q = some (x, q') →
        L.allow t op q q' → L.inv q' ∧ L.effect t op (hold true b) q q' (f x) ∧
          L.Safe t op false (hold true b) (f x) q') := safe_held

@[simp] theorem safe_lookup {β : Type} {h : SurfaceQueue → Option β} {f : β → QProg Reply} :
    L.Safe t op r (hold true b) ((access fun q => (h q).bind fun x => some (x, q)) >>= f) q ↔
      (L.inv q → L.point t op r (hold true b) (act (fun q => (h q).bind fun x => some (x, q)) f) q ∧
        ∀ x, h q = some x → L.Safe t op false (hold true b) (f x) q) := by
  rw [safe_access]
  refine imp_congr_right fun hi => and_congr_right fun _ =>
    ⟨fun hs x hx => ?_, fun hs x q' hx _ => ?_⟩
  · exact (hs x q (by simp [hx]) Guarded.allow).2.2
  · obtain ⟨y, hy, e⟩ := Option.bind_eq_some_iff.mp hx
    obtain ⟨rfl, rfl⟩ : y = x ∧ q = q' := by simpa using e
    exact ⟨hi, Guarded.effect, hs y hy⟩

/-- An access that changes the data or is not defined. -/
@[simp] theorem safe_update {h : SurfaceQueue → Option SurfaceQueue} :
    L.Safe t op r (hold true b) ((access fun q => (h q).bind fun x => some ((), x)) >>= f) q ↔
      (L.inv q →
        L.point t op r (hold true b) (act (fun q => (h q).bind fun x => some ((), x)) f) q ∧
        ∀ q', h q = some q' → L.allow t op q q' → L.inv q' ∧
          L.effect t op (hold true b) q q' (f ()) ∧
          L.Safe t op false (hold true b) (f ()) q') := by
  rw [safe_access]
  refine imp_congr_right fun _ => and_congr_right fun _ =>
    ⟨fun hs q' hq => ?_, fun hs x q' hq => ?_⟩
  · exact hs () q' (by simp [hq])
  · obtain ⟨y, hy, e⟩ := Option.bind_eq_some_iff.mp hq
    obtain rfl : y = q' := by simpa using e
    exact hs y hy

@[simp] theorem safe_read {β : Type} {h : SurfaceQueue → β} {f : β → QProg Reply} :
    L.Safe t op r (hold true b) (Prog.read h >>= f) q ↔
      (L.inv q → L.point t op r (hold true b) (act (fun q => some (h q, q)) f) q ∧
        L.Safe t op false (hold true b) (f (h q)) q) := by
  refine (safe_access (h := fun q => some (h q, q))).trans ?_
  refine imp_congr_right fun hi => and_congr_right fun _ => ⟨fun hs => ?_, fun hs x q' hx _ => ?_⟩
  · exact (hs (h q) q rfl Guarded.allow).2.2
  · obtain ⟨rfl, rfl⟩ : h q = x ∧ q = q' := by simpa using hx
    exact ⟨hi, Guarded.effect, hs⟩

@[simp] theorem safe_modify {h : SurfaceQueue → SurfaceQueue} :
    L.Safe t op r (hold true b) (Prog.modify h >>= f) q ↔
      (L.inv q → L.point t op r (hold true b) (act (fun q => some ((), h q)) f) q ∧
        (L.allow t op q (h q) → L.inv (h q) ∧ L.effect t op (hold true b) q (h q) (f ()) ∧
          L.Safe t op false (hold true b) (f ()) (h q))) := by
  refine (safe_access (h := fun q => some ((), h q))).trans ?_
  refine imp_congr_right fun _ => and_congr_right fun _ => ⟨fun hs => ?_, fun hs x q' hq => ?_⟩
  · exact hs () (h q) rfl
  · obtain rfl : h q = q' := by simpa using hq
    exact hs

@[simp] theorem safe_returnValIfFail {β : Type} {c : Bool} {a : β} {p : QProg β}
    {f : β → QProg Reply} : L.Safe t op r (hold true b) (returnValIfFail c a p >>= f) q ↔
      (c = true → L.Safe t op r (hold true b) (p >>= f) q) ∧
        (c = false → L.Safe t op r (hold true b) (mutexUnlock .global >>= fun _ => f a) q) := by
  cases c <;> simp [returnValIfFail]

@[simp] theorem safe_unlockBoth : L.Safe t op r (hold true b) (unlockBoth >>= f) q ↔
    (L.inv q → L.point t op r (hold true b) (unlock .queue (unlock .global (f ()))) q ∧
      L.point t op false (hold true false) (unlock .global (f ())) q ∧
      L.Safe t op false (hold false false) (f ()) q) := by
  have e : (unlockBoth >>= f) = mutexUnlock .queue >>= fun _ => mutexUnlock .global >>= f := rfl
  rw [e, safe_unlockQueue, safe_unlockGlobal]
  exact imp_congr_right fun hi => and_congr_right fun _ => ⟨fun h => h hi, fun h _ => h⟩

omit [Guarded L] in
@[simp] theorem safe_ite_bind {β : Type} {c : Prop} [Decidable c] {p p' : QProg β}
    {f : β → QProg Reply} : L.Safe t op r H ((if c then p else p') >>= f) q ↔
      (c → L.Safe t op r H (p >>= f) q) ∧ (¬c → L.Safe t op r H (p' >>= f) q) := by
  by_cases hc : c <;> simp [hc]

omit [Guarded L] in
@[simp] theorem safe_notify {e : Event} : L.Safe t op r H (notify e >>= f) q ↔
    ∀ q', L.rely t H q q' → L.inv q' → L.point t op r H (emit e (f ())) q' ∧
      L.Safe t op false H (f ()) q' := Iff.rfl

omit [Guarded L] in
@[simp] theorem safe_answer {f : AllocResult → QProg Reply} : L.Safe t op r H (answer >>= f) q ↔
    ∀ q', L.rely t H q q' → L.inv q' → L.point t op r H (input f) q' ∧
      ∀ x, L.answer x → L.Safe t op false H (f x) q' := Iff.rfl

omit [Guarded L] in
@[simp] theorem safe_lockGlobal : L.Safe t op r (hold g b) (mutexLock .global >>= f) q ↔
    ∀ q', L.rely t (hold g b) q q' → L.inv q' → L.point t op r (hold g b) (lock .global (f ())) q' ∧
      L.Safe t op false (hold true b) (f ()) q' := by
  rw [← update_global g b true]
  exact Iff.rfl

omit [Guarded L] in
@[simp] theorem safe_condWait {c : Cond} :
    L.Safe t op r (hold g b) (condWait c .queue >>= f) q ↔
      ∀ q', L.rely t (hold g b) q q' → L.inv q' →
        L.point t op r (hold g b) (wait c .queue (f ())) q' ∧
          ∀ q'', L.rely t (hold g false) q' q'' → L.inv q'' → L.back c q'' →
            L.Safe t op true (hold g true) (f ()) q'' := by
  rw [← update_queue g false true, ← update_queue g b false]
  exact Iff.rfl

end Guarded

/-- The rest of an operation that gives both mutexes back and returns `a`. -/
def leaving (a : Reply) : QProg Reply := do
  unlockBoth
  pure a

/-- The answer is right where it is given; `W` is known of the state a wait ended in. -/
def Truthful (W : Cond → SurfaceQueue → Prop) (q : SurfaceQueue) : Op → Prop
  | .canDequeue _ => q.queueIsEmpty .free = false ∨ W .freeCond q
  | .canAcquire _ => q.queueIsEmpty .dirty = false ∨ W .dirtyCond q
  | _ => True

/-- What thread `t` relies on: the global mutex protects the data, the queue mutex protects a
queue that stays valid, and nobody else ends a request of `t`. -/
structure Relies (t : ℕ) (H : Mutex → Bool) (q q' : SurfaceQueue) : Prop where
  global : H .global = true → q' = q
  queue : H .queue = true → q' = q ∨ q'.valid = false
  valid : q.valid = false → q'.valid = false
  requests : q'.requests t = q.requests t

namespace Relies

variable {t : ℕ} {H : Mutex → Bool} {q q' q'' : SurfaceQueue}

theorem refl : Relies t H q q := ⟨fun _ => rfl, fun _ => .inl rfl, id, rfl⟩

theorem trans (h : Relies t H q q') (h' : Relies t H q' q'') : Relies t H q q'' where
  global := fun hg => (h'.global hg).trans (h.global hg)
  queue := by
    intro hb
    rcases h'.queue hb with rfl | hv
    · exact h.queue hb
    · exact .inr hv
  valid := fun hv => h'.valid (h.valid hv)
  requests := h'.requests.trans h.requests

end Relies

/-- What holds where a thread comes to program `p`: it only asks for the global mutex without the
queue mutex unless a wait has just ended, waits give up the queue mutex, and answers are right. -/
structure AtPoint (W : Cond → SurfaceQueue → Prop) (op : Op) (r : Bool) (H : Mutex → Bool)
    (p : QProg Reply) (q : SurfaceQueue) : Prop where
  order : r = false → H .queue = true → (∃ k, p = lock .global k) → q.valid = false
  wait : ∀ c m k, p = wait c m k → m = .queue
  answer : p = leaving (.answer 1) → Truthful W q op

/-- The rules of every operation; `W` is promised of the states in which waits end. -/
def rules (kind : Kind) (k : ℕ) (W : Cond → SurfaceQueue → Prop) : QRules k where
  inv := fun _ => True
  rely := fun t => Relies t
  effect := fun t op H q q' _ => q' = q ∨
    (H .global = true ∧ (H .queue = true ∨ q'.valid = false) ∧ Change kind t q op q')
  point := fun _ => AtPoint W
  rest := fun _ H q => H .queue = true → q.valid = false
  calls := fun _ _ => True
  allow := fun _ _ _ _ => True
  back := W
  answer := fun _ => True

section Rules

variable {kind : Kind} {n : ℕ} {W : Cond → SurfaceQueue → Prop} {t : Fin n} {op : Op} {r b g : Bool}
  {H K : Mutex → Bool} {q q' : SurfaceQueue}

instance : Guarded (rules kind n W) where
  refl := .refl
  held := fun h => h.global rfl
  allow := trivial
  effect := .inl rfl

theorem relies_of_effect {u : Fin n} {p : QProg Reply} (h : t ≠ u)
    (hd : ∀ m, H m = true → K m = false) (he : (rules kind n W).effect u op K q q' p) :
    Relies t H q q' := by
  rcases he with rfl | ⟨hg, hb, hc⟩
  · exact .refl
  · refine ⟨fun hH => ?_, fun hH => ?_, hc.valid, hc.requests fun e => h (Fin.ext e)⟩
    · rw [hd _ hH] at hg
      simp at hg
    · rw [hd _ hH] at hb
      exact .inr (hb.resolve_left (by simp))

section Simp

variable {p : QProg Reply}

theorem point_of_ne (hl : ∀ k, p ≠ lock .global k) (hw : ∀ c m k, p ≠ wait c m k)
    (ha : p ≠ leaving (.answer 1)) : (rules kind n W).point t op r H p q where
  order := by
    rintro - - ⟨k, e⟩
    exact absurd e (hl k)
  wait := fun c m k e => absurd e (hw c m k)
  answer := fun e => absurd e ha

@[simp] theorem point_pure {a : Reply} : (rules kind n W).point t op r H (pure a) q :=
  point_of_ne nofun nofun nofun

@[simp] theorem point_lockGlobal : (rules kind n W).point t op r H (lock .global p) q ↔
    (r = false → H .queue = true → q.valid = false) := by
  constructor
  · intro h hr hH
    exact h.order hr hH ⟨p, rfl⟩
  · intro h
    exact ⟨fun hr hH _ => h hr hH, nofun, nofun⟩

@[simp] theorem point_lockQueue : (rules kind n W).point t op r H (lock .queue p) q :=
  point_of_ne (fun _ e => by injection e; contradiction) nofun nofun

@[simp] theorem point_unlockGlobal : (rules kind n W).point t op r H (unlock .global p) q :=
  point_of_ne nofun nofun (fun e => by injection e; contradiction)

@[simp] theorem point_unlockQueue : (rules kind n W).point t op r H (unlock .queue p) q ↔
    (p = unlock .global (pure (.answer 1)) → Truthful W q op) := by
  constructor
  · intro h e
    exact h.answer (congrArg (unlock .queue) e)
  · intro h
    constructor
    · rintro - - ⟨_, e⟩
      exact nomatch e
    · nofun
    · intro e
      exact h (by injection e)

@[simp] theorem point_wait {c : Cond} : (rules kind n W).point t op r H (wait c .queue p) q where
  order := by
    rintro - - ⟨_, e⟩
    exact nomatch e
  wait := fun _ _ _ e => by
    injection e with _ e
    exact e.symm
  answer := nofun

@[simp] theorem point_signal {c : Cond} : (rules kind n W).point t op r H (signal c p) q :=
  point_of_ne nofun nofun nofun

@[simp] theorem point_emit {e : Event} : (rules kind n W).point t op r H (emit e p) q :=
  point_of_ne nofun nofun nofun

@[simp] theorem point_input {f : AllocResult → QProg Reply} :
    (rules kind n W).point t op r H (input f) q := point_of_ne nofun nofun nofun

@[simp] theorem point_act {β : Type} {h : SurfaceQueue → Option (β × SurfaceQueue)}
    {f : β → QProg Reply} : (rules kind n W).point t op r H (act h f) q :=
  point_of_ne nofun nofun nofun

end Simp

end Rules

end Tbm.Queue
