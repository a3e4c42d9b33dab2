import Tbm.Bufmgr.Calls
import Tbm.Core.Triples

/-! The calls that bring the manager up on their own, where no backend can be loaded. -/
namespace Tbm.Bufmgr

open Prog Runs

variable {backend : Backend} {x : Answers} {s s' : State}

/-- The failure value of such a call whose arguments pass the checks at its entry. -/
def Op.failure : Op → Option Reply
  | surfaceCreateWithFlags width height _ _ =>
    if 0 < width ∧ 0 < height then some (.surface none) else none
  | surfaceCreateWithBos (some info) (some _) num =>
    if num = 1 ∨ info.numPlanes = .ofInt num then some (.surface none) else none
  | querySupportedFormats => some (.flag false)
  | queueCreate queueSize width height format =>
    if 0 < queueSize ∧ 0 < width ∧ 0 < height ∧ 0 < format then some (.queue none) else none
  | queueSequenceCreate queueSize width height format =>
    if 0 < queueSize ∧ 0 < width ∧ 0 < height ∧ 0 < format then some (.queue none) else none
  | _ => none

/-- The call makes a queue and fails to allocate it. -/
def Op.turnedAway (x : Answers) : Op → Bool
  | queueCreate _ _ _ _ => !(x.calloc && x.node)
  | queueSequenceCreate _ _ _ _ => !(x.calloc && x.node)
  | _ => false

/-- The call runs to its end, returns `r` and holds no mutex any more. -/
def FailsCleanly (backend : Backend) (x : Answers) (op : Op) (r : Reply) (s : State) : Prop :=
  ∃ s', solo x (op.prog backend) (fun _ => false) s = some (r, fun _ => false, s')

/-- The surface code writes to the list of the manager it has not got. -/
theorem initSurfaceBufmgr_unloaded (hg : s.gBufMgr = none) (hs : s.surfaceBufmgr = none)
    (hx : x.load = false) : exec x initSurfaceBufmgr s = none := by
  unfold initSurfaceBufmgr tbmBufmgrInit
  simp [hs, hg, hx, State.bufmgrInit, State.deref]

theorem surfaceQueueInit_unloaded (hg : s.gBufMgr = none) (hs : s.surfQueueBufmgr = none)
    (hx : x.load = false) : exec x surfaceQueueInit s = none := by
  unfold surfaceQueueInit tbmBufmgrInit
  simp [hs, hg, hx, State.bufmgrInit, State.deref]

theorem createSurface_unloaded {body : Mgr → Surface → Answers → BProg (Option Surface)}
    (hg : s.gBufMgr = none) (hs : s.surfaceBufmgr = none) (hx : x.load = false) :
    exec x (createSurface backend body) s = none := by
  rw [createSurface, exec_locked, exec_bind, initSurfaceBufmgr_unloaded hg hs hx]
  rfl

theorem surfaceQueueCreate_unloaded {queueSize width height format : ℤ}
    (hg : s.gBufMgr = none) (hs : s.surfQueueBufmgr = none) (hx : x.load = false)
    (harg : 0 < queueSize ∧ 0 < width ∧ 0 < height ∧ 0 < format) (hq : x.calloc ∧ x.node) :
    exec x (surfaceQueueCreate queueSize width height format) s = none := by
  rw [surfaceQueueCreate, if_pos harg, exec_locked, exec_bind, exec_answer]
  simp only [Option.bind_some]
  rw [if_pos hq, exec_bind, surfaceQueueInit_unloaded hg hs hx]
  rfl

/-- A queue that is not allocated is not linked, and the mutex is given back. -/
theorem surfaceQueueCreate_turnedAway {queueSize width height format : ℤ}
    (harg : 0 < queueSize ∧ 0 < width ∧ 0 < height ∧ 0 < format) (hq : ¬(x.calloc ∧ x.node)) :
    solo x (surfaceQueueCreate queueSize width height format >>= fun q => pure (Reply.queue q))
      (fun _ => false) s = some (.queue none, fun _ => false, s) := by
  rw [surfaceQueueCreate, if_pos harg]
  simp [locked, hq]

theorem not_failsCleanly {op : Op} {r : Reply} (h : exec x (op.prog backend) s = none) :
    ¬FailsCleanly backend x op r s := by
  rintro ⟨s', hs⟩
  rw [exec_of_solo hs] at h
  exact absurd h (by simp)

theorem queueCreate_failsCleanly {op : Op} {queueSize width height format : ℤ}
    (hop : op.prog backend =
      surfaceQueueCreate queueSize width height format >>= fun q => pure (Reply.queue q))
    (hg : s.gBufMgr = none) (hs : s.surfQueueBufmgr = none) (hx : x.load = false)
    (harg : 0 < queueSize ∧ 0 < width ∧ 0 < height ∧ 0 < format) :
    FailsCleanly backend x op (.queue none) s ↔ (!(x.calloc && x.node)) = true := by
  by_cases hq : x.calloc ∧ x.node
  · have hnone : exec x (op.prog backend) s = none := by
      rw [hop, exec_bind, surfaceQueueCreate_unloaded hg hs hx harg hq]
      rfl
    simp [not_failsCleanly hnone, hq]
  · have hsome : FailsCleanly backend x op (.queue none) s :=
      ⟨s, by rw [hop]; exact surfaceQueueCreate_turnedAway harg hq⟩
    have hfalse : (x.calloc && x.node) = false := by simpa [← not_and_or] using hq
    simp [hsome, hfalse]

/-- Where there is no manager and none can be had, only a queue that is not allocated at all is
refused; the other calls use the manager before they look whether they have one. -/
theorem creation_without_backend {turns : List Turn} {log : List (Entry World Turn Reply)}
    {w : World} {op : Op} {r : Reply}
    (hp : Permitted (World.step backend) (fun w t => w.inited t) turns .initial)
    (hr : run (World.step backend) turns .initial = some (log, w))
    (hg : w.state.gBufMgr = none) (hx : x.load = false) (hop : op.failure = some r) :
    FailsCleanly backend x op r w.state ↔ op.turnedAway x = true := by
  obtain ⟨o, hl⟩ := run_life hp hr
  obtain ⟨-, -, hs, hq⟩ := hl.unloaded hg
  cases op with
  | surfaceCreateWithFlags width height format flags =>
    rw [Op.failure] at hop
    have harg : 0 < width ∧ 0 < height := by
      by_contra h
      rw [if_neg h] at hop
      exact absurd hop (by simp)
    have hnone : exec x ((Op.surfaceCreateWithFlags width height format flags).prog backend)
        w.state = none := by
      rw [Op.prog, exec_bind, tbmSurfaceInternalCreateWithFlags, if_pos harg,
        createSurface_unloaded hg hs hx]
      rfl
    simp [not_failsCleanly hnone, Op.turnedAway]
  | surfaceCreateWithBos info bos num =>
    cases info with
    | none => exact absurd hop (by simp [Op.failure])
    | some info =>
      cases bos with
      | none => exact absurd hop (by simp [Op.failure])
      | some bos =>
        rw [Op.failure] at hop
        have harg : num = 1 ∨ info.numPlanes = .ofInt num := by
          by_contra h
          rw [if_neg h] at hop
          exact absurd hop (by simp)
        have hnone : exec x ((Op.surfaceCreateWithBos (some info) (some bos) num).prog backend)
            w.state = none := by
          rw [Op.prog, exec_bind, tbmSurfaceInternalCreateWithBos, if_pos harg,
            createSurface_unloaded hg hs hx]
          rfl
        simp [not_failsCleanly hnone, Op.turnedAway]
  | querySupportedFormats =>
    have hnone : exec x (Op.querySupportedFormats.prog backend) w.state = none := by
      rw [Op.prog, exec_bind, tbmSurfaceInternalQuerySupportedFormats, exec_locked, exec_bind,
        initSurfaceBufmgr_unloaded hg hs hx]
      rfl
    simp [not_failsCleanly hnone, Op.turnedAway]
  | queueCreate queueSize width height format =>
    rw [Op.failure] at hop
    by_cases harg : 0 < queueSize ∧ 0 < width ∧ 0 < height ∧ 0 < format
    · rw [if_pos harg] at hop
      obtain rfl : Reply.queue none = r := Option.some.inj hop
      exact queueCreate_failsCleanly rfl hg hq hx harg
    · rw [if_neg harg] at hop
      exact absurd hop (by simp)
  | queueSequenceCreate queueSize width height format =>
    rw [Op.failure] at hop
    by_cases harg : 0 < queueSize ∧ 0 < width ∧ 0 < height ∧ 0 < format
    · rw [if_pos harg] at hop
      obtain rfl : Reply.queue none = r := Option.some.inj hop
      exact queueCreate_failsCleanly rfl hg hq hx harg
    · rw [if_neg harg] at hop
      exact absurd hop (by simp)
  | _ => exact absurd hop (by simp [Op.failure])

private def unloadable : Answers := { Answers.granted 7 with load := false }

/-- A manager that came and went before. -/
private def cameAndWent : List Turn :=
  [⟨.bufmgrInit, .granted 7⟩, ⟨.bufmgrDeinit (some 0), .granted 7⟩]

theorem creation_without_backend_again : ∃ log w,
    run (World.step .plain) cameAndWent .initial = some (log, w) ∧
    (FailsCleanly .plain { unloadable with node := false } (.queueSequenceCreate 2 4 4 1)
        (.queue none) w.state ↔
      (Op.queueSequenceCreate 2 4 4 1).turnedAway { unloadable with node := false } = true) := by
  have hrun : ((run (World.step .plain) cameAndWent .initial).map fun r => r.2.state.gBufMgr) =
      some none := by decide +kernel
  obtain ⟨⟨log, w⟩, hr, hw⟩ := Option.map_eq_some_iff.mp hrun
  exact ⟨log, w, hr, creation_without_backend (by decide +kernel) hr hw rfl rfl⟩

/-- The first surface of a process without a backend. -/
theorem create_surface_without_backend :
    ¬∀ (backend : Backend) (x : Answers) (turns : List Turn)
      (log : List (Entry World Turn Reply)) (w : World) (op : Op) (r : Reply),
      Permitted (World.step backend) (fun w t => w.inited t) turns .initial →
      run (World.step backend) turns .initial = some (log, w) →
      w.state.gBufMgr = none → x.load = false → op.failure = some r →
      FailsCleanly backend x op r w.state := by
  intro hall
  obtain ⟨s', hs⟩ := hall .plain unloadable [] [] .initial (.surfaceCreateWithFlags 4 4 .c8 0)
    (.surface none) (by decide +kernel) rfl rfl rfl rfl
  have hnone : (exec unloadable ((Op.surfaceCreateWithFlags 4 4 .c8 0).prog .plain)
      World.initial.state).isSome = false := by decide +kernel
  rw [exec_of_solo hs] at hnone
  exact absurd hnone (by simp)

end Tbm.Bufmgr
