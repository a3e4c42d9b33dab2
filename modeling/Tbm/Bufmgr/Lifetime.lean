import Tbm.Bufmgr.Calls

/-! The lifetime of the manager that clients, surfaces and queues share. -/
namespace Tbm.Bufmgr

open Prog Runs

variable {backend : Backend} {w : World} {turns : List Turn} {log : List (Entry World Turn Reply)}

/-- The manager of a world between two calls, without the ledger. -/
structure Lifetime (w : World) : Prop where
  alive : w.state.gBufMgr.isSome ↔ 0 < w.state.refCount
  count : w.state.refCount = w.inits.length + (if w.state.surfaceBufmgr.isSome then 1 else 0) +
    (if w.state.surfQueueBufmgr.isSome then 1 else 0)
  surface : w.state.surfaceBufmgr = none ∨ w.state.surfaceBufmgr = w.state.gBufMgr
  surfQueue : w.state.surfQueueBufmgr = none ∨ w.state.surfQueueBufmgr = w.state.gBufMgr
  /-- A linked surface is on the list of the live manager, which it refers to. -/
  surfaces : ∀ h ∈ w.state.surfList,
    w.state.gBufMgr.isSome ∧ (w.state.surface h).bufmgr = w.state.gBufMgr
  queues : ∀ q ∈ w.state.surfQueueList,
    w.state.gBufMgr.isSome ∧ w.state.surfQueueBufmgr = w.state.gBufMgr

theorem Life.lifetime {o : Bool} (hl : Life w.state (w.ledger o)) : Lifetime w := by
  refine ⟨hl.alive, hl.count, hl.surface, hl.surfQueue, ?_, ?_⟩
  · intro h hh
    have hsome : w.state.surfaceBufmgr ≠ none := by
      intro hn
      rw [hl.surfs hn] at hh
      exact absurd hh List.not_mem_nil
    have hg := hl.surface.resolve_left hsome
    rw [hg] at hsome
    exact ⟨Option.isSome_iff_ne_none.mpr hsome, hl.linked h hh⟩
  · intro q hq
    have hsome : w.state.surfQueueBufmgr ≠ none := by
      intro hn
      rw [hl.queues hn] at hq
      exact absurd hq List.not_mem_nil
    have hg := hl.surfQueue.resolve_left hsome
    rw [hg] at hsome
    exact ⟨Option.isSome_iff_ne_none.mpr hsome, hg⟩

/-- The manager lives as long as a client, the surface code or the queue code refers to it, and
nothing that is linked on it outlives it. -/
theorem bufmgr_lifetime
    (hp : Permitted (World.step backend) (fun w t => w.inited t) turns .initial)
    (hr : run (World.step backend) turns .initial = some (log, w)) : Lifetime w := by
  obtain ⟨o, hl⟩ := run_life hp hr
  exact hl.lifetime

/-- A queue with a surface of its own outlives the only client; the query takes the manager up
again after the queue is gone. -/
private def outlived : List Turn :=
  [⟨.bufmgrInit, .granted 7⟩, ⟨.queueCreate 2 4 4 1, .granted 7⟩,
    ⟨.queueAttach (some 0) 4 4 .c8 0, .granted 7⟩, ⟨.bufmgrDeinit (some 0), .granted 7⟩,
    ⟨.queueDestroy (some 0), .granted 7⟩, ⟨.querySupportedFormats, .granted 7⟩]

theorem bufmgr_lifetime_outlived : ∃ log w,
    run (World.step .plain) outlived .initial = some (log, w) ∧
    w.state.gBufMgr = some 1 ∧ Lifetime w := by
  have hrun : ((run (World.step .plain) outlived .initial).map fun r => r.2.state.gBufMgr) =
      some (some 1) := by decide +kernel
  obtain ⟨⟨log, w⟩, hr, hw⟩ := Option.map_eq_some_iff.mp hrun
  exact ⟨log, w, hr, hw, bufmgr_lifetime (by decide +kernel) hr⟩

/-- Where no query succeeds while no surface is linked, the surface code refers to the manager
just as long as there are surfaces. -/
theorem surface_bufmgr_held
    (hp : Permitted (World.step backend)
      (fun w t => w.inited t ∧ w.retains backend t = false) turns .initial)
    (hr : run (World.step backend) turns .initial = some (log, w)) :
    w.state.surfaceBufmgr.isSome ↔ w.state.surfList ≠ [] := by
  have hl := run_safe (fun _ w => Life w.state (w.ledger false)) life_initial (by
    rintro _ w t r w' hl ⟨hi, hq⟩ hs
    obtain ⟨o', ho', hmoves, -⟩ := step_moves (A := ⟨True, True, True⟩) hl hi (.inl trivial)
      (fun _ => trivial) (.inl trivial) hs
    have hfalse : o' = false := by
      by_contra hne
      rcases ho' (by simpa using hne) with h | h
      · exact Bool.false_ne_true h
      · rw [hq] at h
        exact Bool.false_ne_true h
    subst hfalse
    exact hmoves.life hl) hp hr
  constructor
  · intro hs hn
    exact Bool.false_ne_true (hl.owed.mpr ⟨hs, hn⟩)
  · intro hne
    exact Option.isSome_iff_ne_none.mpr fun hn => hne (hl.surfs hn)

/-- A query while there is a surface, and one that fails. -/
private def queried : List Turn :=
  [⟨.surfaceCreateWithFlags 4 4 .c8 0, .granted 7⟩, ⟨.querySupportedFormats, .granted 7⟩,
    ⟨.surfaceDestroy (some 0), .granted 7⟩,
    ⟨.querySupportedFormats, { Answers.granted 7 with formats := false }⟩]

theorem surface_bufmgr_held_queried : ∃ log w,
    run (World.step .plain) queried .initial = some (log, w) ∧
    (w.state.surfaceBufmgr.isSome ↔ w.state.surfList ≠ []) := by
  have hsome : (run (World.step .plain) queried .initial).isSome = true := by decide +kernel
  obtain ⟨⟨log, w⟩, hr⟩ := Option.isSome_iff_exists.mp hsome
  exact ⟨log, w, hr, surface_bufmgr_held (by decide +kernel) hr⟩

theorem surface_bufmgr_held_first_query :
    ¬∀ (backend : Backend) (turns : List Turn) (log : List (Entry World Turn Reply)) (w : World),
      Permitted (World.step backend) (fun w t => w.inited t) turns .initial →
      run (World.step backend) turns .initial = some (log, w) →
      (w.state.surfaceBufmgr.isSome ↔ w.state.surfList ≠ []) := by
  intro hall
  let turns : List Turn := [⟨.querySupportedFormats, .granted 7⟩]
  have hrun : ((run (World.step .plain) turns .initial).map fun r =>
      (r.2.state.surfaceBufmgr, r.2.state.surfList)) = some (some 0, []) := by decide +kernel
  obtain ⟨⟨log, w⟩, hr, hw⟩ := Option.map_eq_some_iff.mp hrun
  obtain ⟨hs, hn⟩ := Prod.mk.inj hw
  have hiff := hall .plain turns log w (by decide +kernel) hr
  simp only at hs hn
  rw [hs, hn] at hiff
  simp at hiff

end Tbm.Bufmgr
