import Tbm.Queue.Wakeups

/-! Calls that return an error. They leave the queue as it was, apart from an enqueue on a sequence
queue that finds an earlier surface still outstanding: its hook has cleared `priv_flags` by the time
the empty `dirty_queue` is taken for an error. -/
namespace Tbm.Queue

open Prog Runs

/-- The lists, `num_attached` and the `type` and `priv_flags` of every node are the same. -/
structure Untouched (q q' : SurfaceQueue) : Prop where
  links : q'.links = q.links
  count : q'.count = q.count
  num : q'.numAttached = q.numAttached
  type : ∀ n, (q'.node n).type = (q.node n).type
  privFlags : ∀ n, (q'.node n).privFlags = (q.node n).privFlags

/-- One of the four transfer operations returned an error. -/
def LogEntry.Failed (e : LogEntry) : Prop :=
  match e.call.1, e.reply with
  | .enqueue _, .error c | .release _, .error c => c ≠ .none
  | .dequeue, .surface c _ | .acquire, .surface c _ => c ≠ .none
  | _, _ => False

namespace SurfaceQueue

variable (q : SurfaceQueue)

/-- The enqueued node is marked as outstanding, and the front of `dequeue_list` stays outstanding
without it: the drain loop moves nothing onto the empty `dirty_queue`. -/
def Defers (kind : Kind) : Op → Prop
  | .enqueue (some s) => kind = .sequence ∧ q.queueIsEmpty .dirty = true ∧
    ∃ n, q.queueGetNode s = some (some (n, .nodeList)) ∧ (q.node n).privFlags ≠ 0 ∧
      ∀ k ∈ (q.nodesOn kind .dequeue).head?, k ≠ n ∧ (q.node k).privFlags ≠ 0
  | _ => False

def Survives (kind : Kind) : Op → Prop
  | .release (some s) => q.ReleaseKeeps kind s
  | _ => True

instance (kind : Kind) : DecidablePred (q.Survives kind)
  | .release (some s) => inferInstanceAs (Decidable (q.ReleaseKeeps kind s))
  | .release none | .dequeue | .enqueue _ | .acquire | .canDequeue _ | .canAcquire _
  | .reset _ _ _ | .flush | .setSize _ _ | .setAllocCb _ _ | .destroy => isTrue trivial

end SurfaceQueue

/-- On a live queue the call leaves the item lists in order. -/
def KeepsItems (kind : Kind) (q : SurfaceQueue) (c : Op × AllocResult) : Prop :=
  q.valid = true → q.Survives kind c.1

instance (kind : Kind) (q : SurfaceQueue) (c : Op × AllocResult) :
    Decidable (KeepsItems kind q c) := inferInstanceAs (Decidable (_ → _))

variable {kind : Kind} {q q' : SurfaceQueue} {L : Lists} {x : AllocResult} {op : Op} {r : Reply}

theorem Untouched.refl (q : SurfaceQueue) : Untouched q q :=
  ⟨rfl, rfl, rfl, fun _ => rfl, fun _ => rfl⟩

/-- A release that detaches a handed-out node has a stale item link to unlink. -/
private theorem Represents.call_stale {s : Surface} (h : Represents kind q L) (hv : q.valid = true)
    (hk : q.ReleaseKeeps kind s) (hs : ¬q.ReleaseSound kind (.release (some s)))
    (x : AllocResult) : ∃ r q', call kind (.release (some s)) x q = some (r, q') ∧
      (q'.valid = true → ∃ L', Represents kind q' L') := by
  unfold SurfaceQueue.ReleaseSound at hs
  push Not at hs
  obtain ⟨⟨n, f⟩, hf, rfl, hne⟩ := hs
  have hg : q.queueGetNode s = some (some (n, .nodeList)) := Option.join_eq_some_iff.mp hf
  have hkeep := hk _ hf rfl
  have hover : q.queueSize < q.numAttached := by
    by_contra hroom
    rw [if_neg hroom] at hkeep
    rcases hne with ⟨hin, -⟩ | ⟨-, hover⟩
    · exact hkeep hin
    · exact hroom hover
  have hl := h.found hg
  obtain ⟨-, hsurf, -, -⟩ := Lists.lookup_nodeList hl
  have hsn : (q.node n).surface = s := by simpa using hsurf
  rw [← hsn] at hl
  have hd := Matches.detachNode_eq h hl
  obtain ⟨-, -, hr⟩ := h.release hg hk hover hd
  refine ⟨.error .none, _, ?_, fun _ => ⟨_, hr⟩⟩
  simp [call, program, tbmSurfaceQueueRelease, hv, hg, hover, hd]

theorem Represents.call (h : Represents kind q L) (hv : q.valid = true)
    (hk : q.Survives kind op) (x : AllocResult) : ∃ r q', call kind op x q = some (r, q') ∧
      (q'.valid = true → ∃ L', Represents kind q' L') := by
  by_cases hs : q.ReleaseSound kind op
  · have ht : Tracks kind q ⟨L, q.node, q.settings⟩ := ⟨rfl, fun _ => h.matches⟩
    obtain ⟨q', he, ht', -⟩ := ht.call (fun _ => h.matches.sound_iff.mp hs) x
    refine ⟨_, q', he, fun hv' => ⟨_, (ht'.live ?_).toRepresents⟩⟩
    rw [← ht'.valid_eq]
    exact hv'
  · rcases op with _ | _ | _ | (_ | s) | _ | _ | _ | _ | _ | _ | _ <;>
      first | exact absurd trivial hs | exact h.call_stale hv hk hs x

section Found

variable {n : ℕ} {s : Surface} {f : Option (ℕ × Found)}

/-- A surface that is found on a queue, or nowhere, is not taken. -/
theorem enqueue_refused (hv : q.valid = true) (hg : q.queueGetNode s = some f)
    (hf : ∀ n, f ≠ some (n, .nodeList)) (x : AllocResult) :
    call kind (.enqueue (some s)) x q = some (.error .alreadyExist, q) := by
  rcases f with _ | ⟨n, _ | _ | _⟩
  · simp [call, program, tbmSurfaceQueueEnqueue, hv, hg]
  · simp [call, program, tbmSurfaceQueueEnqueue, hv, hg]
  · simp [call, program, tbmSurfaceQueueEnqueue, hv, hg]
  · exact absurd rfl (hf n)

theorem release_refused (hv : q.valid = true) (hg : q.queueGetNode s = some f)
    (hf : ∀ n, f ≠ some (n, .nodeList)) (x : AllocResult) :
    call kind (.release (some s)) x q = some (.error .invalidSurface, q) := by
  rcases f with _ | ⟨n, _ | _ | _⟩
  · simp [call, program, tbmSurfaceQueueRelease, hv, hg]
  · simp [call, program, tbmSurfaceQueueRelease, hv, hg]
  · simp [call, program, tbmSurfaceQueueRelease, hv, hg]
  · exact absurd rfl (hf n)

theorem release_kept (hv : q.valid = true) (hg : q.queueGetNode s = some (some (n, .nodeList)))
    (hroom : ¬q.queueSize < q.numAttached) (x : AllocResult) :
    call kind (.release (some s)) x q =
      if (q.queueNodePushBack .free n).queueIsEmpty .free then
        some (.error .invalidSurface, q.queueNodePushBack .free n)
      else some (.error .none, (q.queueNodePushBack .free n).setType n .release) := by
  by_cases he : (q.queueNodePushBack .free n).queueIsEmpty .free = true
  · simp [call, program, tbmSurfaceQueueRelease, hv, hg, hroom, kind.impl_release,
      SurfaceQueue.surfaceQueueRelease, he]
  · simp [call, program, tbmSurfaceQueueRelease, hv, hg, hroom, kind.impl_release,
      SurfaceQueue.surfaceQueueRelease, he]

end Found

section Failed

variable {v : View} {n : ℕ} {s : Surface}

/-- An allocation that leaves `free_queue` empty has attached nothing. -/
private theorem attachAnswer_untouched (h : Matches kind q v)
    (hf : (v.attach x).on .free = []) : Untouched q (attachAnswer x q) := by
  have hsize := h.queueSize
  have hnum := h.numAttached
  unfold attachAnswer
  unfold View.attach at hf
  rw [hsize, hnum]
  by_cases hfull : v.settings.queueSize = v.list.length
  · rw [if_pos hfull]
    exact .refl q
  · rw [if_neg hfull] at hf ⊢
    obtain ⟨_ | s, _ | _⟩ := x
    · exact .refl q
    · exact .refl q
    · exact ⟨rfl, rfl, rfl, fun _ => rfl, fun _ => rfl⟩
    · simp [View.addNode, View.on, Lists.push] at hf

theorem dequeue_failed (h : Matches kind q v) (hv : q.valid = true) {c : Error}
    {s : Option Surface} (he : call kind .dequeue x q = some (.surface c s, q')) (hc : c ≠ .none) :
    Untouched q q' := by
  have hfree : (v.grow x).on .free = [] := by
    by_contra hne
    obtain ⟨n, ns, hon⟩ := List.exists_cons_of_ne_nil hne
    obtain ⟨p, hp, -⟩ := h.dequeue (c := True) (x := x) hv 0
    have hreply : (v.dequeue kind x).1.1 = .none := by simp [View.dequeue, hon]
    have hcall : call kind .dequeue x q =
        some (.surface (v.dequeue kind x).1.1 (v.dequeue kind x).1.2, p) := by
      simp [call, program, hp]
    rw [he] at hcall
    simp only [Option.some.injEq, Prod.mk.injEq, Reply.surface.injEq] at hcall
    exact hc (hcall.1.1.trans hreply)
  have hf : v.on .free = [] := by
    by_contra hf
    simp [View.grow, hf] at hfree
  have hg := h.grow (c := True) x
  rw [if_pos hf] at hg
  have hempty : (attachAnswer x q).queueIsEmpty .free = true := by
    simp [hg.follows.isEmpty_free, hfree]
  have hd : (surfaceQueueDequeue (needAttach 0)).exec x q = some (none, attachAnswer x q) := by
    simp [surfaceQueueDequeue, h.isEmpty_free, hf, hempty]
  have hq' : attachAnswer x q = q' := by
    cases kind <;> simp [call, program, tbmSurfaceQueueDequeue, hv, Kind.impl, tbmQueueDefaultImpl,
      tbmQueueSequenceImpl, callNeedAttach, tbmQueueDefaultNeedAttach, tbmQueueSequenceDequeue,
      tbmQueueSequenceNeedAttach, hd] at he <;> exact he.2
  rw [← hq']
  apply attachAnswer_untouched h
  rw [View.grow, if_pos hf] at hfree
  exact hfree

theorem acquire_failed (h : Matches kind q v) (hv : q.valid = true) {c : Error}
    {s : Option Surface} (he : call kind .acquire x q = some (.surface c s, q')) (hc : c ≠ .none) :
    Untouched q q' := by
  cases hd : v.on .dirty with
  | nil =>
    have hq' : q = q' := by
      simp only [call, program, tbmSurfaceQueueAcquire, kind.impl_acquire,
        SurfaceQueue.surfaceQueueAcquire, Option.bind_eq_bind, bind_bind, exec_bind,
        exec_mutexLock, exec_surfaceQueueIsValid, exec_returnValIfFail, exec_access,
        Option.bind_some, exec_pure, hv, ↓reduceIte, h.isEmpty_dirty, hd, decide_true,
        exec_unlockBoth, Option.some.injEq, Prod.mk.injEq, Reply.surface.injEq] at he
      exact he.2
    rw [← hq']
    exact .refl q
  | cons n ns =>
    obtain ⟨p, hp, -⟩ := h.acquire (c := True) (x := x) hv
    have hreply : v.acquire.1.1 = .none := by simp [View.acquire, hd]
    have hcall : call kind .acquire x q = some (.surface v.acquire.1.1 v.acquire.1.2, p) := by
      simp [call, program, hp]
    rw [he] at hcall
    simp only [Option.some.injEq, Prod.mk.injEq, Reply.surface.injEq] at hcall
    exact absurd (hcall.1.1.trans hreply) hc

private theorem drain_stuck (h : Represents .sequence q L)
    (hk : ∀ k ∈ (L.on .dequeue).head?, k ≠ n ∧ (q.node k).privFlags ≠ 0) :
    ∃ vs, tbmQueueSequenceEnqueue n q = some (vs, q.setPrivFlags n 0) := by
  have hr : Layout .sequence (q.setPrivFlags n 0) L := h.toLayout.setNode rfl
  have hstart := (hr.rings .dequeue rfl).next_head
  unfold tbmQueueSequenceEnqueue SurfaceQueue.fuel
  cases hd : L.on .dequeue with
  | nil =>
    rw [hd] at hstart
    exact ⟨[], by simp [Links.forEachSafe, hstart]⟩
  | cons a as =>
    rw [hd] at hstart hk
    obtain ⟨hne, hflag⟩ := hk a rfl
    have hent := hr.itemEntry_eq (w := .dequeue) (n := a) (by simp [hd])
    have hnode : ((q.setPrivFlags n 0).node a).privFlags ≠ 0 := by
      simpa [SurfaceQueue.setPrivFlags, SurfaceQueue.setNode, hne] using hflag
    exact ⟨[a], by simp [Links.forEachSafe, hstart, hent, drainNode, hnode]⟩

/-- The drain loop leaves `dirty_queue` empty exactly if it was and nothing could move. -/
private theorem drain_dirty_nil (v : View) (n : ℕ) : (v.drain n).on .dirty = [] ↔
    v.on .dirty = [] ∧ ∀ k ∈ (v.on .dequeue).head?, k ≠ n ∧ (v.node k).privFlags ≠ 0 := by
  have hon : (v.drain n).on .dirty = v.on .dirty ++
      (v.on .dequeue).takeWhile fun k => ((v.setPrivFlags n 0).node k).privFlags = 0 := rfl
  rw [hon, List.append_eq_nil_iff]
  cases v.on .dequeue with
  | nil => simp
  | cons a as =>
    by_cases e : a = n
    · subst e
      simp [View.setPrivFlags, View.setNode]
    · by_cases hz : (v.node a).privFlags = 0
      · simp [View.setPrivFlags, View.setNode, e, hz]
      · simp [View.setPrivFlags, View.setNode, e, hz]

/-- A failed enqueue on a sequence queue has run its hook, which cleared `priv_flags`. -/
private theorem enqueue_sequence (h : Represents .sequence q L) (hv : q.valid = true)
    (hg : q.queueGetNode s = some (some (n, .nodeList)))
    (he : call .sequence (.enqueue (some s)) x q = some (r, q')) :
    (r ≠ .error .none → Untouched q q') ↔ ¬q.Defers .sequence (.enqueue (some s)) := by
  have hm := h.matches
  have hdirty := hm.isEmpty_dirty
  have hon := hm.nodesOn_eq .dequeue
  obtain ⟨hn, -⟩ := Lists.lookup_nodeList (h.found hg)
  by_cases hd : (View.drain ⟨L, q.node, q.settings⟩ n).on .dirty = []
  · obtain ⟨hnil, hk⟩ := (drain_dirty_nil _ n).mp hd
    obtain ⟨vs, hs⟩ := drain_stuck (n := n) h hk
    have hempty : (q.setPrivFlags n 0).queueIsEmpty .dirty = true := by
      show q.queueIsEmpty .dirty = true
      rw [hdirty]
      simpa using hnil
    obtain ⟨rfl, rfl⟩ : Reply.error .unknownSurface = r ∧ q.setPrivFlags n 0 = q' := by
      simpa [call, program, tbmSurfaceQueueEnqueue, hv, hg, Kind.impl, tbmQueueSequenceImpl, hs,
        hempty] using he
    constructor
    · rintro hkeep ⟨-, -, k, hg', hflag, -⟩
      obtain rfl : n = k := by simpa [hg] using hg'
      have hz := (hkeep (by decide)).privFlags n
      simp only [SurfaceQueue.setPrivFlags, SurfaceQueue.setNode, Function.update_self] at hz
      exact hflag hz.symm
    · intro hdef _
      have hz : (q.node n).privFlags = 0 := by
        by_contra hflag
        refine hdef ⟨rfl, ?_, n, hg, hflag, ?_⟩
        · exact hempty
        · rw [hon]
          exact hk
      have hq : q.setPrivFlags n 0 = q := by
        unfold SurfaceQueue.setPrivFlags SurfaceQueue.setNode
        rw [← hz, Function.update_eq_self]
      rw [hq]
      exact .refl q
  · have hdef : ¬q.Defers .sequence (.enqueue (some s)) := by
      rintro ⟨-, hnil, k, hg', -, hk⟩
      obtain rfl : n = k := by simpa [hg] using hg'
      rw [hdirty] at hnil
      rw [hon] at hk
      exact hd ((drain_dirty_nil _ n).mpr ⟨of_decide_eq_true hnil, hk⟩)
    obtain ⟨p, hp, -⟩ := hm.enqueue (c := True) (x := x) hv s
    have hl : View.lookup ⟨L, q.node, q.settings⟩ s = some (n, .nodeList) := h.found hg
    have hr : Reply.error .none = r := by
      simp only [call, program, exec_bind, hp, View.enqueue, hl, hd, ↓reduceIte, exec_pure,
        Option.bind_some, Option.some.injEq, Prod.mk.injEq] at he
      exact he.1
    simp [hdef, ← hr]

theorem enqueue_failed (h : Represents kind q L) (hv : q.valid = true) {s : Option Surface}
    (he : call kind (.enqueue s) x q = some (r, q')) :
    (r ≠ .error .none → Untouched q q') ↔ ¬q.Defers kind (.enqueue s) := by
  have hstay : ∀ {c : Error}, call kind (.enqueue s) x q = some (.error c, q) → Untouched q q' := by
    intro c hc
    obtain ⟨-, rfl⟩ : r = .error c ∧ q' = q := by simpa [he] using hc
    exact .refl q'
  cases s with
  | none =>
    have hu := hstay (c := .invalidSurface) (by simp [call, program, tbmSurfaceQueueEnqueue, hv])
    simp [SurfaceQueue.Defers, hu]
  | some s =>
    have hg := h.queueGetNode_eq s
    by_cases hl : ∃ n, L.lookup (fun n => (q.node n).surface = s) = some (n, .nodeList)
    · obtain ⟨n, hl⟩ := hl
      rw [hl] at hg
      cases kind with
      | sequence => exact enqueue_sequence h hv hg he
      | default =>
        obtain ⟨p, hp, -⟩ := h.matches.enqueue (c := True) (x := x) hv s
        have hlook : View.lookup ⟨L, q.node, q.settings⟩ s = some (n, .nodeList) := hl
        have hr : Reply.error .none = r := by
          simp only [call, program, exec_bind, hp, View.enqueue, hlook, exec_pure,
            Option.bind_some, Option.some.injEq, Prod.mk.injEq] at he
          exact he.1
        simp [SurfaceQueue.Defers, ← hr]
    · rw [not_exists] at hl
      have hu := hstay (enqueue_refused hv hg hl x)
      simp [SurfaceQueue.Defers, hg, hl, hu]

theorem release_failed (h : Represents kind q L) (hv : q.valid = true) {s : Option Surface}
    (hk : q.Survives kind (.release s)) (he : call kind (.release s) x q = some (r, q'))
    (hr : r ≠ .error .none) : Untouched q q' := by
  have hstay : call kind (.release s) x q = some (.error .invalidSurface, q) → Untouched q q' := by
    intro hc
    obtain ⟨-, rfl⟩ : r = .error .invalidSurface ∧ q' = q := by simpa [he] using hc
    exact .refl q'
  cases s with
  | none => exact hstay (by simp [call, program, tbmSurfaceQueueRelease, hv])
  | some s =>
    have hg := h.queueGetNode_eq s
    by_cases hl : ∃ n, L.lookup (fun n => (q.node n).surface = s) = some (n, .nodeList)
    · obtain ⟨n, hl⟩ := hl
      rw [hl] at hg
      -- the node is found only on `list`, so that the release succeeds
      refine absurd ?_ hr
      by_cases hover : q.queueSize < q.numAttached
      · cases hd : detachNode kind.impl n q with
        | none => simp [call, program, tbmSurfaceQueueRelease, hv, hg, hover, hd] at he
        | some p =>
          simp only [call, program, tbmSurfaceQueueRelease, Option.bind_eq_bind, bind_bind,
            exec_bind, exec_mutexLock, exec_surfaceQueueIsValid, exec_returnValIfFail, exec_access,
            Option.bind_some, exec_pure, hv, ↓reduceIte, hg, exec_read, hover, decide_true, hd,
            exec_unlockBoth, Option.some.injEq, Prod.mk.injEq] at he
          exact he.1.symm
      · have hout := (ReleaseKeeps.node h hg hk).2 (by omega)
        have hne := h.toLayout.not_isEmpty_pushBack kind.uses_free hout
        simp only [release_kept hv hg hover, hne, Bool.false_eq_true, ↓reduceIte,
          Option.some.injEq, Prod.mk.injEq] at he
        exact he.1.symm
    · exact hstay (release_refused hv hg (not_exists.mp hl) x)

/-- A failed call on a queue in order changes nothing unless it defers. -/
theorem call_failed (h : Represents kind q L) (hv : q.valid = true) (hk : q.Survives kind op)
    (he : call kind op x q = some (r, q')) :
    (LogEntry.Failed ⟨q, (op, x), r, q'⟩ → Untouched q q') ↔ ¬q.Defers kind op := by
  have hnone : ∀ {op}, (∀ s, op ≠ .enqueue s) → ¬q.Defers kind op := by
    intro op ho
    cases op with
    | enqueue s => exact absurd rfl (ho s)
    | _ => exact id
  have hother : (LogEntry.Failed ⟨q, (op, x), r, q'⟩ → Untouched q q') → ¬q.Defers kind op →
      ((LogEntry.Failed ⟨q, (op, x), r, q'⟩ → Untouched q q') ↔ ¬q.Defers kind op) :=
    fun hu hd => ⟨fun _ => hd, fun _ => hu⟩
  cases op with
  | enqueue s =>
    obtain ⟨⟨c, p⟩, -, hp⟩ := Option.bind_eq_some_iff.mp (by simpa [call, program] using he)
    obtain rfl : Reply.error c = r := by simpa using congrArg Prod.fst (Option.some.inj hp)
    rw [← enqueue_failed h hv he]
    simp [LogEntry.Failed]
  | release s =>
    refine hother (fun hf => ?_) (hnone (by simp))
    cases r with
    | error c => exact release_failed h hv hk he (by simpa [LogEntry.Failed] using hf)
    | surface c s => exact hf.elim
    | answer n => exact hf.elim
    | done => exact hf.elim
  | dequeue =>
    refine hother (fun hf => ?_) (hnone (by simp))
    cases r with
    | surface c s => exact dequeue_failed h.matches hv he hf
    | error c => exact hf.elim
    | answer n => exact hf.elim
    | done => exact hf.elim
  | acquire =>
    refine hother (fun hf => ?_) (hnone (by simp))
    cases r with
    | surface c s => exact acquire_failed h.matches hv he hf
    | error c => exact hf.elim
    | answer n => exact hf.elim
    | done => exact hf.elim
  | _ => exact hother (fun hf => by cases r <;> exact hf.elim) (hnone (by simp))

end Failed

section Runs

variable {queueSize width height format flags : ℤ} {cs : List (Op × AllocResult)}

/-- In a run that keeps the item lists in order, the failed calls that change something are the
enqueues that defer. -/
theorem failed_calls_change_nothing
    (hc : kind.create queueSize width height format flags = some q)
    (hp : Permitted (step kind) (KeepsItems kind) cs q) :
    ∃ log q', run (step kind) cs q = some (log, q') ∧
      ∀ e ∈ log, (LogEntry.Failed e → Untouched e.before e.after) ↔
        ¬(e.before.valid = true ∧ e.before.Defers kind e.call.1) := by
  have hstart : q.valid = true → ∃ L, Represents kind q L :=
    fun _ => ⟨_, (create_matches hc).toRepresents⟩
  obtain ⟨log, q', hr, -, hlog⟩ := run_total (fun log q =>
    (q.valid = true → ∃ L, Represents kind q L) ∧ ∀ e : LogEntry, e ∈ log →
      ((LogEntry.Failed e → Untouched e.before e.after) ↔
        ¬(e.before.valid = true ∧ e.before.Defers kind e.call.1))) ⟨hstart, by simp⟩ (by
    rintro log q ⟨op, x⟩ ⟨hq, hlog⟩ hok
    by_cases hv : q.valid = true
    · obtain ⟨L, hL⟩ := hq hv
      obtain ⟨r, q', he, hq'⟩ := hL.call hv (hok hv) x
      refine ⟨r, q', he, hq', fun e hm => ?_⟩
      rw [List.mem_append, List.mem_singleton] at hm
      rcases hm with hm | rfl
      · exact hlog e hm
      · have hfail := call_failed hL hv (hok hv) he
        simpa [hv] using hfail
    · have hf : q.valid = false := by simpa using hv
      refine ⟨_, q, Tracks.refused hf op x, hq, fun e hm => ?_⟩
      rw [List.mem_append, List.mem_singleton] at hm
      rcases hm with hm | rfl
      · exact hlog e hm
      · simp [hf, Untouched.refl]) hp
  exact ⟨log, q', hr, hlog⟩

theorem failed_calls_change_nothing_empty : ∃ q log q',
    Kind.sequence.create 2 4 4 1 0 = some q ∧
      run (step .sequence) [allocating .dequeue 7, quiet .acquire, quiet (.enqueue (some 7)),
        quiet .acquire, quiet (.release (some 7)), quiet (.release (some 7))] q =
          some (log, q') ∧
      ∀ e ∈ log, (LogEntry.Failed e → Untouched e.before e.after) ↔
        ¬(e.before.valid = true ∧ e.before.Defers .sequence e.call.1) := by
  have hc : Kind.sequence.create 2 4 4 1 0 = some _ := rfl
  obtain ⟨log, q', h⟩ := failed_calls_change_nothing hc (by decide +kernel : Permitted _ _
    [allocating .dequeue 7, quiet .acquire, quiet (.enqueue (some 7)), quiet .acquire,
      quiet (.release (some 7)), quiet (.release (some 7))] _)
  exact ⟨_, log, q', hc, h⟩

/-- The second surface is enqueued before the first: the error comes back with its `priv_flags`
cleared. -/
theorem enqueue_out_of_order_clears_flags : ∃ q log q',
    Kind.sequence.create 2 4 4 1 0 = some q ∧
      run (step .sequence) [allocating .dequeue 7, allocating .dequeue 8,
        quiet (.enqueue (some 8))] q = some (log, q') ∧
      ∃ e ∈ log, LogEntry.Failed e ∧ ¬Untouched e.before e.after := by
  have hrun : ((Kind.sequence.create 2 4 4 1 0).bind fun q => (run (step .sequence)
      [allocating .dequeue 7, allocating .dequeue 8, quiet (.enqueue (some 8))] q).map fun p =>
        decide (∃ e ∈ p.1, e.call.1 = .enqueue (some 8) ∧ e.reply = .error .unknownSurface ∧
          (e.before.node 1).privFlags = 1 ∧ (e.after.node 1).privFlags = 0)) = some true := by
    decide +kernel
  obtain ⟨q, hq, hq'⟩ := Option.bind_eq_some_iff.mp hrun
  obtain ⟨⟨log, q'⟩, hr, he⟩ := Option.map_eq_some_iff.mp hq'
  obtain ⟨e, hm, hop, hreply, hbefore, hafter⟩ := of_decide_eq_true he
  refine ⟨q, log, q', hq, hr, e, hm, ?_, fun hu => ?_⟩
  · unfold LogEntry.Failed
    rw [hop, hreply]
    exact nofun
  · have hsame := hu.privFlags 1
    omega

end Runs

end Tbm.Queue
