import Tbm.Queue.References

/-! What a queue tells about itself: its four settings, and the surfaces attached to it. -/
namespace Tbm.Queue

open Prog Runs

/-- The getters differ in the field. -/
def getField (field : SurfaceQueue → ℤ) : QProg ℤ := do
  mutexLock .global
  returnValIfFail (← surfaceQueueIsValid) 0 <| do
    let n ← read field
    mutexUnlock .global
    pure n

def tbmSurfaceQueueGetWidth : QProg ℤ := getField SurfaceQueue.width

def tbmSurfaceQueueGetHeight : QProg ℤ := getField SurfaceQueue.height

def tbmSurfaceQueueGetFormat : QProg ℤ := getField SurfaceQueue.format

def tbmSurfaceQueueGetSize : QProg ℤ := getField SurfaceQueue.queueSize

/-- One round of the loop of `tbm_surface_queue_get_surfaces`: what has been written to an array of
`room` entries, and `*num`. -/
def SurfaceQueue.writeSurface (q : SurfaceQueue) (room : Option ℕ) (r : List Surface × ℤ) (n : ℕ) :
    Option (List Surface × ℤ) :=
  match room with
  | none => some (r.1, r.2 + 1)
  | some k => if r.2 < k then some (r.1 ++ [(q.node n).surface], r.2 + 1) else none

/-- `*num` is written before `num` is looked at; the array may be NULL. -/
def tbmSurfaceQueueGetSurfaces (room : Option ℕ) (num : Bool) :
    QProg (Error × List Surface × ℤ) := do
  mutexLock .global
  access fun q => if num then some ((), q) else none
  returnValIfFail (← surfaceQueueIsValid) (.invalidQueue, [], 0) <|
    returnValIfFail num (.invalidParameter, [], 0) <| do
      mutexLock .queue
      let r ← access fun q => do
        some (← (← q.listNodes).foldlM (q.writeSurface room) ([], 0), q)
      unlockBoth
      pure (.none, r)

/-- The settings that can be asked for. -/
structure Dims where
  width : ℤ
  height : ℤ
  format : ℤ
  queueSize : ℤ
  deriving DecidableEq, Repr

def SurfaceQueue.dims (q : SurfaceQueue) : Dims := ⟨q.width, q.height, q.format, q.queueSize⟩

/-- A reset and a change of size that succeed set them. -/
def Dims.next (d : Dims) : Op → Reply → Dims
  | .reset width height format, .error .none => { d with width, height, format }
  | .setSize queueSize _, .error .none => { d with queueSize }
  | _, _ => d

section Settings

variable {kind : Kind} {op : Op} {q q' : SurfaceQueue} {x : AllocResult} {r : Reply}
  {width height format queueSize : ℤ} {flush : Bool}

theorem Narrows.dims (h : Narrows q q') : q'.dims = q.dims := by
  have hs := h.settings
  simp only [SurfaceQueue.settings, SurfaceQueue.Settings.mk.injEq] at hs
  obtain ⟨hw, hh, hf, -, hn, -⟩ := hs
  rw [SurfaceQueue.dims, SurfaceQueue.dims, hw, hh, hf, hn]

theorem clearNodes_dims (h : clearNodes kind.impl q = some q') : q'.dims = q.dims := by
  have hs := (clearNodes_settings h).1
  simp only [SurfaceQueue.settings, SurfaceQueue.Settings.mk.injEq] at hs
  obtain ⟨hw, hh, hf, -, hn, -⟩ := hs
  rw [SurfaceQueue.dims, SurfaceQueue.dims, hw, hh, hf, hn]

theorem endAttach_dims {me born : ℕ} {cb : Bool} :
    (endAttach me cb born x q).dims = q.dims := by
  unfold endAttach SurfaceQueue.surfaceQueueAttach
  cases x.surface with
  | none => rfl
  | some s => cases x.node <;> rfl

/-- Calls that have no new settings to give. -/
def Op.keepsDims : Op → Bool
  | .reset _ _ _ | .flush | .setSize _ _ => false
  | _ => true

theorem Op.Clearing.keepsDims (h : op.Clearing) : op.keepsDims = false := by
  cases op with
  | reset | flush | setSize => rfl
  | _ => exact False.elim h

theorem Change.dims {me : ℕ} (h : Change kind me q op q') (ho : op.keepsDims) :
    q'.dims = q.dims := by
  cases h with
  | narrow h => exact h.dims
  | callbacks => rfl
  | request => rfl
  | attach => exact endAttach_dims
  | resize => cases ho
  | clear hc => exact absurd ho (by simp [hc.keepsDims])
  | invalidate => rfl

theorem call_keepsDims (he : call kind op x q = some (r, q')) (ho : op.keepsDims) :
    q'.dims = q.dims := by
  have hs : (rules kind 1 fun _ _ => True).Safe 0 op false (hold false false)
      (program kind.impl 0 op) q := program_safe (by simp)
  refine Rules.Onward.exec rules_lawful (fun _ => trivial) (fun _ _ => trivial)
    (fun _ _ => trivial) (fun _ => trivial) (P := fun q q' => q'.dims = q.dims)
    (fun _ => rfl) (fun hab hbc => hbc.trans hab) (fun {H s s' p} heff => ?_)
    (hs.now rules_lawful trivial).2 he
  rcases heff with rfl | ⟨-, -, hc⟩
  · rfl
  · exact hc.dims ho

/-- How the three operations with a data step end. -/
theorem answered_none {o : Option (Unit × SurfaceQueue)}
    (h : ((o.bind fun r => some (Error.none, r.2)).bind fun r => some (Reply.error r.1, r.2)) =
      some (r, q')) : r = .error .none ∧ o = some ((), q') := by
  cases o with
  | none => cases h
  | some o =>
    obtain ⟨rfl, rfl⟩ := Prod.mk.inj (Option.some.inj h)
    exact ⟨rfl, rfl⟩

theorem reset_dims (hv : q.valid = true)
    (he : call kind (.reset width height format) x q = some (r, q')) :
    r = .error .none ∧ q'.dims = ⟨width, height, format, q.queueSize⟩ := by
  by_cases hsame : width = q.width ∧ height = q.height ∧ format = q.format
  · obtain ⟨rfl, rfl, rfl⟩ := hsame
    simp only [call, program, tbmSurfaceQueueReset, Bool.decide_and, Option.bind_eq_bind,
      bind_bind, exec_bind, exec_mutexLock, exec_surfaceQueueIsValid, exec_returnValIfFail,
      exec_read, Option.bind_some, Bool.and_eq_true, decide_eq_true_eq, exec_pure, hv, ↓reduceIte,
      and_self, exec_mutexUnlock, Option.some.injEq, Prod.mk.injEq] at he
    obtain ⟨rfl, rfl⟩ := he
    exact ⟨rfl, rfl⟩
  · simp only [call, program, tbmSurfaceQueueReset, Bool.decide_and, Option.bind_eq_bind,
      leaveCleared, bind_bind, exec_bind, exec_mutexLock, exec_surfaceQueueIsValid,
      exec_returnValIfFail, exec_read, Option.bind_some, Bool.and_eq_true, decide_eq_true_eq,
      exec_pure, hv, ↓reduceIte, hsame, exec_access, exec_mutexUnlock, exec_condSignal,
      exec_notify] at he
    obtain ⟨hr, he⟩ := answered_none he
    obtain ⟨d, hd, he⟩ := Option.bind_eq_some_iff.mp he
    obtain ⟨-, rfl⟩ := Prod.mk.inj (Option.some.inj he)
    exact ⟨hr, clearNodes_dims hd⟩

theorem flush_dims (hv : q.valid = true) (he : call kind .flush x q = some (r, q')) :
    q'.dims = q.dims := by
  by_cases hnone : q.numAttached = 0
  · simp only [call, program, tbmSurfaceQueueFlush, Option.bind_eq_bind, bind_bind, exec_bind,
      exec_mutexLock, exec_surfaceQueueIsValid, exec_returnValIfFail, exec_read, Option.bind_some,
      decide_eq_true_eq, exec_pure, hv, ↓reduceIte, hnone, exec_mutexUnlock, Option.some.injEq,
      Prod.mk.injEq] at he
    rw [← he.2]
  · simp only [call, program, tbmSurfaceQueueFlush, Option.bind_eq_bind, leaveCleared, bind_bind,
      exec_bind, exec_mutexLock, exec_surfaceQueueIsValid, exec_returnValIfFail, exec_read,
      Option.bind_some, decide_eq_true_eq, exec_pure, hv, ↓reduceIte, hnone, exec_access,
      exec_mutexUnlock, exec_condSignal, exec_notify] at he
    obtain ⟨-, he⟩ := answered_none he
    obtain ⟨d, hd, he⟩ := Option.bind_eq_some_iff.mp he
    obtain ⟨-, rfl⟩ := Prod.mk.inj (Option.some.inj he)
    exact clearNodes_dims hd

/-- Deleting the nodes that are too many leaves the settings alone. -/
theorem shrink_dims {p : SurfaceQueue} (he : (if queueSize < q.queueSize then
      (q.detachFree (detachNode kind.impl) (q.queueSize - queueSize)).bind fun q =>
        some ((), { q with queueSize })
    else some ((), { q with queueSize })) = some ((), p)) :
    p.dims = { q.dims with queueSize } := by
  by_cases hless : queueSize < q.queueSize
  · rw [if_pos hless] at he
    obtain ⟨d, hd, he⟩ := Option.bind_eq_some_iff.mp he
    obtain ⟨-, rfl⟩ := Prod.mk.inj (Option.some.inj he)
    rw [← (Narrows.detachFree hd).dims]
    rfl
  · rw [if_neg hless] at he
    obtain ⟨-, rfl⟩ := Prod.mk.inj (Option.some.inj he)
    rfl

theorem setSize_dims (hv : q.valid = true)
    (he : call kind (.setSize queueSize flush) x q = some (r, q')) :
    q'.dims = q.dims.next (.setSize queueSize flush) r := by
  by_cases hpos : 0 < queueSize
  · by_cases hsame : q.queueSize = queueSize ∧ flush = false
    · obtain ⟨rfl, rfl⟩ := hsame
      simp only [call, program, tbmSurfaceQueueSetSize, hpos, decide_true, Bool.not_false,
        Bool.and_true, Bool.false_eq_true, ↓reduceIte, Option.bind_eq_bind, Option.bind_some,
        bind_bind, exec_bind, exec_mutexLock, exec_surfaceQueueIsValid, exec_returnValIfFail,
        exec_read, decide_eq_true_eq, exec_pure, hv, exec_mutexUnlock, Option.some.injEq,
        Prod.mk.injEq] at he
      obtain ⟨rfl, rfl⟩ := he
      rfl
    · cases flush with
      | true =>
        simp only [call, program, tbmSurfaceQueueSetSize, hpos, decide_true, Bool.not_true,
          Bool.and_false, ↓reduceIte, Option.bind_eq_bind, leaveCleared, bind_bind, exec_bind,
          exec_mutexLock, exec_surfaceQueueIsValid, exec_returnValIfFail, exec_read,
          Option.bind_some, Bool.false_eq_true, exec_access, exec_mutexUnlock, exec_condSignal,
          exec_notify, exec_pure, hv] at he
        obtain ⟨rfl, hdone⟩ := answered_none he
        obtain ⟨d, hd, he⟩ := Option.bind_eq_some_iff.mp hdone
        obtain ⟨-, rfl⟩ := Prod.mk.inj (Option.some.inj he)
        rw [Dims.next, ← clearNodes_dims hd]
        rfl
      | false =>
        have hne : q.queueSize ≠ queueSize := fun h => hsame ⟨h, rfl⟩
        simp only [call, program, tbmSurfaceQueueSetSize, hpos, decide_true, Bool.not_false,
          Bool.and_true, Bool.false_eq_true, ↓reduceIte, Option.bind_eq_bind, Option.bind_some,
          unlockBoth, bind_bind, exec_bind, exec_mutexLock, exec_surfaceQueueIsValid,
          exec_returnValIfFail, exec_read, decide_eq_true_eq, exec_pure, hv, hne, exec_access,
          exec_mutexUnlock] at he
        obtain ⟨rfl, hdone⟩ := answered_none he
        rw [← hv] at hdone
        exact shrink_dims hdone
  · simp only [call, program, tbmSurfaceQueueSetSize, hpos, decide_false, Option.bind_eq_bind,
      Option.bind_some, bind_bind, exec_bind, exec_mutexLock, exec_surfaceQueueIsValid,
      exec_returnValIfFail, Bool.false_eq_true, ↓reduceIte, exec_pure, hv, Option.some.injEq,
      Prod.mk.injEq] at he
    obtain ⟨rfl, rfl⟩ := he
    rfl

theorem call_dims (he : call kind op x q = some (r, q')) : q'.dims = q.dims.next op r := by
  cases hv : q.valid with
  | false =>
    obtain ⟨rfl, rfl⟩ := Prod.mk.inj (Option.some.inj (he.symm.trans (Tracks.refused hv op x)))
    cases op <;> rfl
  | true =>
    cases op with
    | reset width height format =>
      obtain ⟨rfl, hd⟩ := reset_dims hv he
      exact hd
    | flush => exact flush_dims hv he
    | setSize queueSize flush => exact setSize_dims hv he
    | _ => exact call_keepsDims he rfl

end Settings

section Report

variable {q : SurfaceQueue} {x : AllocResult} {A : List ℕ}

theorem getField_exec (field : SurfaceQueue → ℤ) (hv : q.valid = true) :
    exec x (getField field) q = some (field q, q) := by
  simp [getField, hv]

theorem getField_refused (field : SurfaceQueue → ℤ) (hv : q.valid = false) :
    exec x (getField field) q = some (0, q) := by
  simp [getField, hv]

theorem foldlM_count (A : List ℕ) (k : ℤ) : A.foldlM (q.writeSurface none) ([], k) =
    some ([], k + A.length) := by
  induction A generalizing k with
  | nil => simp
  | cons n A ih =>
    have hone : k + 1 + (A.length : ℤ) = k + (A.length + 1 : ℕ) := by omega
    rw [List.foldlM_cons]
    exact (ih (k + 1)).trans (by rw [hone, List.length_cons])

/-- An array that is too short is written past its end. -/
theorem foldlM_written (A : List ℕ) (k : ℕ) (L : List Surface) (hL : L.length ≤ k) :
    A.foldlM (q.writeSurface (some k)) (L, (L.length : ℤ)) =
      if L.length + A.length ≤ k then
        some (L ++ A.map fun n => (q.node n).surface, (L.length + A.length : ℤ)) else none := by
  induction A generalizing L with
  | nil => simp [hL]
  | cons n A ih =>
    rw [List.foldlM_cons]
    by_cases hroom : L.length < k
    · have hstep : q.writeSurface (some k) (L, (L.length : ℤ)) n =
          some (L ++ [(q.node n).surface], ((L ++ [(q.node n).surface]).length : ℤ)) := by
        simp [SurfaceQueue.writeSurface, hroom]
      have hrec := ih (L ++ [(q.node n).surface]) (by rw [List.length_append]; exact hroom)
      have hlen : (L ++ [(q.node n).surface]).length + A.length = L.length + (n :: A).length := by
        simp only [List.length_append, List.length_cons, List.length_nil]
        omega
      rw [hstep, Option.bind_eq_bind, Option.bind_some, hrec, ← Int.natCast_add, ← Int.natCast_add,
        hlen, List.map_cons, List.append_assoc, List.singleton_append]
    · have hstep : q.writeSurface (some k) (L, (L.length : ℤ)) n = none := by
        simp [SurfaceQueue.writeSurface, hroom]
      have hall : ¬L.length + (n :: A).length ≤ k := by
        rw [List.length_cons]
        omega
      rw [hstep, if_neg hall]
      rfl

/-- What the queue answers: `e`, its settings, and the attached surfaces. -/
structure Tells (q : SurfaceQueue) (e : Error) (d : Dims) (L : List Surface) : Prop where
  width : ∀ x, exec x tbmSurfaceQueueGetWidth q = some (d.width, q)
  height : ∀ x, exec x tbmSurfaceQueueGetHeight q = some (d.height, q)
  format : ∀ x, exec x tbmSurfaceQueueGetFormat q = some (d.format, q)
  size : ∀ x, exec x tbmSurfaceQueueGetSize q = some (d.queueSize, q)
  number : ∀ x, exec x (tbmSurfaceQueueGetSurfaces none true) q =
    some ((e, [], (L.length : ℤ)), q)
  surfaces : ∀ x k, exec x (tbmSurfaceQueueGetSurfaces (some k) true) q =
    if L.length ≤ k then some ((e, L, (L.length : ℤ)), q) else none

theorem Registry.tells (h : Registry q A) (hv : q.valid = true) :
    Tells q .none q.dims (A.map fun n => (q.node n).surface) := by
  refine ⟨fun x => getField_exec _ hv, fun x => getField_exec _ hv, fun x => getField_exec _ hv,
    fun x => getField_exec _ hv, fun x => ?_, fun x k => ?_⟩
  · simp [tbmSurfaceQueueGetSurfaces, unlockBoth, hv, h.listNodes_eq, foldlM_count]
  · have hwritten : A.foldlM (q.writeSurface (some k)) ([], 0) = if A.length ≤ k then
        some (A.map fun n => (q.node n).surface, (A.length : ℤ)) else none := by
      simpa using foldlM_written (q := q) A k [] (Nat.zero_le k)
    simp only [tbmSurfaceQueueGetSurfaces, ↓reduceIte, Option.bind_eq_bind, unlockBoth, bind_bind,
      exec_bind, exec_mutexLock, exec_access, exec_surfaceQueueIsValid, exec_returnValIfFail,
      exec_mutexUnlock, exec_pure, Option.bind_some, hv, h.listNodes_eq, hwritten, List.length_map]
    by_cases hroom : A.length ≤ k
    · simp [hroom]
    · simp [hroom]

theorem tells_refused (hv : q.valid = false) : Tells q .invalidQueue ⟨0, 0, 0, 0⟩ [] := by
  refine ⟨fun x => getField_refused _ hv, fun x => getField_refused _ hv,
    fun x => getField_refused _ hv, fun x => getField_refused _ hv, fun x => ?_, fun x k => ?_⟩
  · simp [tbmSurfaceQueueGetSurfaces, hv]
  · simp [tbmSurfaceQueueGetSurfaces, hv]

end Report

section Runs

variable {kind : Kind} {q : SurfaceQueue} {w : World} {turns : List Turn} {held : Surface → ℕ}
  {log : List (Entry World Turn (Option Reply))} {queueSize width height format flags : ℤ}

def Dims.turn (d : Dims) (e : Entry World Turn (Option Reply)) : Dims :=
  match e.call, e.reply with
  | .call c, some r => d.next c.1 r
  | _, _ => d

/-- The settings after a run, from those the queue was made with. -/
def settingsAfter (d : Dims) (log : List (Entry World Turn (Option Reply))) : Dims :=
  log.foldl Dims.turn d

/-- At any point of a run the queue answers with the settings it was given last, and with the
surfaces it holds a reference on, each of them once; a destroyed queue answers with an error. -/
theorem queue_tells (hc : kind.create queueSize width height format flags = some q)
    (hp : Permitted (World.step kind) World.Fair turns (.start q held))
    (hr : run (World.step kind) turns (.start q held) = some (log, w)) :
    ∃ L : List Surface, L.Nodup ∧ (∀ s, w.refcnt s = w.held s + L.count s) ∧
      if w.queue.valid then
        Tells w.queue .none (settingsAfter ⟨width, height, format, queueSize⟩ log) L
      else Tells w.queue .invalidQueue ⟨0, 0, 0, 0⟩ L := by
  have hm := create_matches hc
  have hstart : (World.start q held).Audited [] := by
    refine ⟨hm.toRegistry, List.nodup_nil, fun s => ?_, fun _ => rfl⟩
    simp [World.start]
  have hdims : q.dims = ⟨width, height, format, queueSize⟩ := by
    rw [create_eq hc]
    cases kind <;> rfl
  obtain ⟨⟨A, hA⟩, hd⟩ := run_safe (fun log w => (∃ A, World.Audited w A) ∧
    w.queue.dims = settingsAfter ⟨width, height, format, queueSize⟩ log) ⟨⟨[], hstart⟩, hdims⟩ (by
    rintro log w t r w' ⟨⟨A, hA⟩, hd⟩ hok he
    refine ⟨(hA.step hok he).1, ?_⟩
    have hnext : settingsAfter ⟨width, height, format, queueSize⟩ (log ++ [⟨w, t, r, w'⟩]) =
        w.queue.dims.turn ⟨w, t, r, w'⟩ := by
      rw [hd, settingsAfter, List.foldl_append]
      rfl
    rw [hnext]
    cases t with
    | call c =>
      obtain ⟨⟨r', q'⟩, hs, hw⟩ := Option.bind_eq_some_iff.mp he
      obtain ⟨rfl, rfl⟩ := Prod.mk.inj (Option.some.inj hw)
      exact call_dims hs
    | ref s =>
      obtain ⟨rfl, rfl⟩ := Prod.mk.inj (Option.some.inj he)
      rfl
    | unref s =>
      obtain ⟨rfl, rfl⟩ := Prod.mk.inj (Option.some.inj he)
      rfl) hp hr
  refine ⟨_, hA.distinct, hA.refcnt, ?_⟩
  by_cases hv : w.queue.valid = true
  · rw [if_pos hv, ← hd]
    exact hA.registry.tells hv
  · have hgone := hA.gone (by simpa using hv)
    rw [if_neg hv, hgone]
    exact tells_refused (by simpa using hv)

/-- A reset, a size that is refused and one that is not, and a surface in between. -/
private def reshaped : List Turn :=
  [.call (allocating .dequeue 7), .call (quiet (.reset 8 6 1)), .ref 9,
    .call (quiet (.setSize 0 true)), .call (quiet (.setSize 3 false)),
    .call (allocating .dequeue 11), .unref 9]

theorem queue_tells_reshaped : ∃ q log w L, Kind.sequence.create 2 4 4 1 0 = some q ∧
    run (World.step .sequence) reshaped (.start q fun _ => 0) = some (log, w) ∧ L.Nodup ∧
    (∀ s, w.refcnt s = w.held s + L.count s) ∧ Tells w.queue .none ⟨8, 6, 1, 3⟩ L := by
  have hc : Kind.sequence.create 2 4 4 1 0 = some _ := rfl
  have hrun : ((run (World.step .sequence) reshaped (.start
      (surfaceQueueInit tbmQueueSequenceImpl 2 4 4 1 0) fun _ => 0)).map fun r =>
        (r.2.queue.valid, settingsAfter ⟨4, 4, 1, 2⟩ r.1)) = some (true, ⟨8, 6, 1, 3⟩) := by
    decide +kernel
  obtain ⟨⟨log, w⟩, hr, hw⟩ := Option.map_eq_some_iff.mp hrun
  obtain ⟨hv, hd⟩ := Prod.mk.inj hw
  obtain ⟨L, hL, href, htells⟩ := queue_tells hc (by decide +kernel) hr
  rw [if_pos hv, hd] at htells
  exact ⟨_, log, w, L, hc, hr, hL, href, htells⟩

end Runs

end Tbm.Queue
