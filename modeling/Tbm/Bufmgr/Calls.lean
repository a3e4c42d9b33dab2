import Tbm.Bufmgr.Paths
import Tbm.Core.Runs

/-! Runs of calls by clients that keep account of the references they own. -/
namespace Tbm.Bufmgr

open Prog

inductive Op
  | bufmgrInit
  | bufmgrDeinit (m : Option Mgr)
  | boAlloc (m : Option Mgr) (size flags : ℤ)
  | boImport (m : Option Mgr)
  | boImportFd (m : Option Mgr)
  | boRef (b : Option Bo)
  | boUnref (b : Option Bo)
  | boSwap (b c : Option Bo)
  | surfaceCreateWithFlags (width height : ℤ) (format : Format) (flags : ℤ)
  | surfaceCreateWithBos (info : Option SurfaceInfo) (bos : Option (ℕ → Option Bo)) (num : ℤ)
  | surfaceRef (h : Option Surface)
  | surfaceUnref (h : Option Surface)
  | surfaceDestroy (h : Option Surface)
  | querySupportedFormats
  | queueCreate (queueSize width height format : ℤ)
  | queueSequenceCreate (queueSize width height format : ℤ)
  /-- The queue gets a surface of its own, or one from its `alloc_cb`. -/
  | queueAttach (q : Option Queue) (width height : ℤ) (format : Format) (flags : ℤ)
  | queueAttachCb (q : Option Queue) (h : Surface)
  /-- The queue deletes one of its nodes. -/
  | queueDetach (q : Option Queue) (h : Surface)
  | queueDestroy (q : Option Queue)

inductive Reply
  | done
  | mgr (m : Option Mgr)
  | bo (b : Option Bo)
  | surface (h : Option Surface)
  | queue (q : Option Queue)
  | flag (ok : Bool)
  deriving DecidableEq, Repr

/-- A call with the answers it gets from outside. -/
structure Turn where
  op : Op
  answers : Answers

def Op.prog (backend : Backend) : Op → BProg Reply
  | bufmgrInit => return .mgr (← tbmBufmgrInit)
  | bufmgrDeinit m => do
    tbmBufmgrDeinit backend m
    return .done
  | boAlloc m size flags => return .bo (← tbmBoAlloc m size flags 0)
  | boImport m => return .bo (← tbmBoImport backend m)
  | boImportFd m => return .bo (← tbmBoImportFd backend m)
  | boRef b => return .bo (← tbmBoRef b)
  | boUnref b => do
    tbmBoUnref backend b
    return .done
  | boSwap b c => return .flag (← tbmBoSwap b c)
  | surfaceCreateWithFlags width height format flags =>
    return .surface (← tbmSurfaceInternalCreateWithFlags backend width height format flags)
  | surfaceCreateWithBos info bos num =>
    return .surface (← tbmSurfaceInternalCreateWithBos backend info bos num)
  | surfaceRef h => do
    tbmSurfaceInternalRef h
    return .done
  | surfaceUnref h => do
    tbmSurfaceInternalUnref backend h
    return .done
  | surfaceDestroy h => do
    tbmSurfaceInternalDestroy backend h
    return .done
  | querySupportedFormats => return .flag (← tbmSurfaceInternalQuerySupportedFormats backend)
  | queueCreate queueSize width height format =>
    return .queue (← tbmSurfaceQueueCreate queueSize width height format)
  | queueSequenceCreate queueSize width height format =>
    return .queue (← tbmSurfaceQueueSequenceCreate queueSize width height format)
  | queueAttach q width height format flags => do
    withQueue q (needAttach backend width height format flags)
    return .done
  | queueAttachCb q h => do
    withQueue q (needAttachCb backend h)
    return .done
  | queueDetach q h => do
    withQueue q (queueDeleteNode backend h)
    return .done
  | queueDestroy q => do
    tbmSurfaceQueueDestroy backend q
    return .done

/-- The data, and what the clients own: references on each buffer object, and the results of
`tbm_bufmgr_init` they have not given back. -/
structure World where
  state : State
  held : Bo → ℕ
  inits : List Mgr

namespace World

def initial : World where
  state := .initial
  held := fun _ => 0
  inits := []

/-- The clients own what the call has returned and no longer what they have passed to it. -/
def settle (w : World) (op : Op) (r : Reply) (s : State) : World where
  state := s
  held := match op, r with
    | .boUnref (some b), _ => Function.update w.held b (w.held b - 1)
    | _, .bo (some b) => Function.update w.held b (w.held b + 1)
    | _, _ => w.held
  inits := match op, r with
    | .bufmgrDeinit (some m), _ => w.inits.erase m
    | _, .mgr (some m) => m :: w.inits
    | _, _ => w.inits

def step (backend : Backend) (t : Turn) (w : World) : Option (Reply × World) := do
  let (r, s) ← exec t.answers (t.op.prog backend) w.state
  some (r, w.settle t.op r s)

end World

/-- A backend that provides everything but `surface_bo_alloc`. -/
def Backend.plain : Backend where
  boImport := true
  boImportFd := true
  boGetFlags := true
  boLock := true
  boUnlock := true
  surfaceGetPlaneData := true
  surfaceBoAlloc := false
  surfaceSupportedFormat := true

/-- Everything succeeds; the buffers get the private pointers from `p` on, a plane each. -/
def Answers.granted (p : Priv) : Answers where
  load := true
  env := none
  calloc := true
  bo := fun i => ⟨true, some (p + i)⟩
  plane := fun i => some ⟨⟨16, 0, 4⟩, i⟩
  boFlags := 0
  boSize := fun _ => 16
  formats := true
  lock := true
  map := true
  unmap := true
  node := true
  debug := .initial
  report :=
    { pid := 42
      cmdline := fun _ => none
      surfacePtr := fun h => if h.isSome then ascii "0x55d0" else ascii "(nil)"
      boPtr := fun _ => ascii "0x55c0"
      boSize := fun _ => 16
      debugPid := fun _ => 0 }

/-- A surface of one plane. -/
def SurfaceInfo.small : SurfaceInfo where
  width := 4
  height := 4
  format := .c8
  bpp := 8
  size := 16
  numPlanes := 1
  planes := fun _ => ⟨16, 0, 4⟩

section Conditions

variable (backend : Backend)

instance (x : Answers) (width height : ℤ) (format : Format) :
    Decidable (SurfaceAllocates backend x width height format) :=
  inferInstanceAs (Decidable (_ ∧ _))

instance (s : State) (bos : ℕ → Option Bo) (num : ℤ) : Decidable (Gapless s bos num) :=
  decidable_of_iff ((∃ i < num.toNat, bos i = none) ∨
    ∀ i < num.toNat, ∀ b ∈ bos i, b ∈ s.boList) <| by simp [Gapless, Option.mem_def]

/-- Clients give back only what `tbm_bufmgr_init` has returned to them. -/
def World.inited (w : World) (t : Turn) : Bool :=
  match t.op with
  | .bufmgrDeinit (some m) => decide (m ∈ w.inits)
  | _ => true

/-- Clients drop only references they own. -/
def World.owns (w : World) (t : Turn) : Bool :=
  match t.op with
  | .boUnref (some b) => decide (0 < w.held b)
  | _ => true

/-- The call comes to a `surface_bo_alloc` that succeeds. -/
def World.surfaceAllocates (w : World) (t : Turn) : Bool :=
  match t.op with
  | .surfaceCreateWithFlags width height format _ =>
    decide (SurfaceAllocates backend t.answers width height format)
  | .queueAttach q width height format _ =>
    (w.state.surfQueueIsValid q).join.isSome &&
      decide (SurfaceAllocates backend t.answers width height format)
  | _ => false

/-- The handles for a new surface contain a NULL, or they are all live. -/
def World.gapless (w : World) (t : Turn) : Bool :=
  match t.op with
  | .surfaceCreateWithBos _ (some bos) num => decide (Gapless w.state bos num)
  | _ => true

/-- A query succeeds while no surface is linked. -/
def World.retains (w : World) (t : Turn) : Bool :=
  match t.op with
  | .querySupportedFormats =>
    backend.surfaceSupportedFormat && t.answers.formats && w.state.surfList.isEmpty
  | _ => false

end Conditions

section Steps

variable {A : Allowed} {backend : Backend} {w w' : World} {t : Turn} {r : Reply}

/-- The ledger between two calls. -/
def World.ledger (w : World) (owed : Bool) : Ledger where
  mgrs := w.inits
  bos := w.held
  making := none
  dying := none
  owed := owed

private theorem pos_of_gained {held : Bo → ℕ} {l : List Bo} {b : Bo} (hb : b ∈ l) (c : Bo)
    (hc : 0 < Function.update held b (held b + 1) c) : 0 < held c ∨ c ∈ l := by
  by_cases e : c = b
  · subst e
    exact .inr hb
  · exact .inl (by simpa [e] using hc)

private theorem pos_of_lost {held : Bo → ℕ} {b : Bo} (c : Bo)
    (hc : 0 < Function.update held b (held b - 1) c) : 0 < held c := by
  by_cases e : c = b
  · subst e
    rw [Function.update_self] at hc
    omega
  · simpa [e] using hc

/-- The clients own the reference that a call has returned, if it has returned one. -/
private theorem settle_gets {op : Op} {s : State} {o : Bool} {v : Option Bo}
    (hw : w.settle op (.bo v) s =
      ⟨s, v.elim w.held fun b => Function.update w.held b (w.held b + 1), w.inits⟩)
    (h : Gets A w.state (w.ledger o) s v) :
    Moves A w.state (w.ledger o) s ((w.settle op (.bo v) s).ledger o) ∧
      ∀ b, 0 < (w.settle op (.bo v) s).held b → 0 < w.held b ∨ b ∈ s.boList := by
  rw [hw]
  cases v with
  | none => exact ⟨h, fun _ => .inl⟩
  | some b => exact ⟨h.1, pos_of_gained h.2⟩

/-- A call that returns is a sequence of moves, and a reference the clients have gained is on a
live buffer object. -/
theorem step_moves {o : Bool} (hl : Life w.state (w.ledger o)) (hi : w.inited t = true)
    (ho : A.stray ∨ w.owns t = true) (ha : w.surfaceAllocates backend t = true → A.uncounted)
    (hg : A.gaps ∨ w.gapless t = true) (hs : w.step backend t = some (r, w')) :
    ∃ o', (o' = true → o = true ∨ w.retains backend t = true) ∧
      Moves A w.state (w.ledger o) w'.state (w'.ledger o') ∧
      ∀ b, 0 < w'.held b → 0 < w.held b ∨ b ∈ w'.state.boList := by
  obtain ⟨op, x⟩ := t
  obtain ⟨⟨r', s⟩, he, hw⟩ := Option.bind_eq_some_iff.mp hs
  obtain ⟨rfl, rfl⟩ : r' = r ∧ w.settle op r' s = w' := by simpa using hw
  have keep (h : Keeps A w.state (w.ledger o) s) : ∃ o', (o' = true → o = true ∨
      w.retains backend ⟨op, x⟩ = true) ∧ Moves A w.state (w.ledger o) s (w.ledger o') ∧
      ∀ b, 0 < w.held b → 0 < w.held b ∨ b ∈ s.boList := by
    obtain ⟨o', ho', hm⟩ := h
    exact ⟨o', fun h => .inl (ho' h), hm, fun _ => .inl⟩
  cases op with
  | bufmgrInit =>
    obtain ⟨v, hx, rfl⟩ := exec_return he
    cases v with
    | none =>
      obtain rfl := bufmgrInit_none (tbmBufmgrInit_exec hx)
      exact ⟨o, .inl, .refl, fun _ => .inl⟩
    | some m => exact ⟨o, .inl, (Move.init (tbmBufmgrInit_exec hx)).moves, fun _ => .inl⟩
  | bufmgrDeinit m =>
    obtain ⟨v, hx, rfl⟩ := exec_return he
    cases m with
    | none =>
      obtain ⟨-, rfl⟩ : v = () ∧ w.state = s := by simpa [tbmBufmgrDeinit] using hx
      exact ⟨o, .inl, .refl, fun _ => .inl⟩
    | some m =>
      have hm : m ∈ w.inits := by simpa [World.inited] using hi
      exact ⟨o, .inl, tbmBufmgrDeinit_moves hl hm hx, fun _ => .inl⟩
  | boAlloc m size flags =>
    obtain ⟨v, hx, rfl⟩ := exec_return he
    exact ⟨o, .inl, settle_gets (by cases v <;> rfl) (tbmBoAlloc_gets hx)⟩
  | boImport m =>
    obtain ⟨v, hx, rfl⟩ := exec_return he
    exact ⟨o, .inl, settle_gets (by cases v <;> rfl) (boImport_gets hx)⟩
  | boImportFd m =>
    obtain ⟨v, hx, rfl⟩ := exec_return he
    exact ⟨o, .inl, settle_gets (by cases v <;> rfl) (boImport_gets hx)⟩
  | boRef b =>
    obtain ⟨v, hx, rfl⟩ := exec_return he
    cases b with
    | none =>
      obtain ⟨rfl, rfl⟩ : none = v ∧ w.state = s := by simpa [tbmBoRef, State.boIsValid] using hx
      exact ⟨o, .inl, .refl, fun _ => .inl⟩
    | some b =>
      exact ⟨o, .inl, settle_gets (by cases v <;> rfl) (tbmBoRef_gets hl hx).1⟩
  | boUnref b =>
    obtain ⟨v, hx, rfl⟩ := exec_return he
    cases b with
    | none =>
      obtain ⟨-, rfl⟩ : v = () ∧ w.state = s := by simpa [tbmBoUnref, State.boIsValid] using hx
      exact ⟨o, .inl, .refl, fun _ => .inl⟩
    | some b =>
      have hL : A.stray ∨ 0 < (w.ledger o).bos b := by simpa [World.owns, World.ledger] using ho
      exact ⟨o, .inl, tbmBoUnref_moves hl hL hx, fun c hc => .inl (pos_of_lost c hc)⟩
  | boSwap b c =>
    obtain ⟨v, hx, rfl⟩ := exec_return he
    exact ⟨o, .inl, tbmBoSwap_moves hx, fun _ => .inl⟩
  | surfaceCreateWithFlags width height format flags =>
    obtain ⟨v, hx, rfl⟩ := exec_return he
    have ha' : SurfaceAllocates backend x width height format → A.uncounted := by
      simpa [World.surfaceAllocates] using ha
    exact keep (tbmSurfaceInternalCreateWithFlags_keeps hl rfl ha' hx)
  | surfaceCreateWithBos info bos num =>
    obtain ⟨v, hx, rfl⟩ := exec_return he
    have hg' : A.gaps ∨ ∀ f, bos = some f → Gapless w.state f num := by
      refine hg.imp_right fun hg => ?_
      rintro f rfl
      simpa [World.gapless] using hg
    exact keep (tbmSurfaceInternalCreateWithBos_keeps hl rfl hg' hx)
  | surfaceRef h =>
    obtain ⟨v, hx, rfl⟩ := exec_return he
    exact keep (.of_moves (tbmSurfaceInternalRef_moves hl hx))
  | surfaceUnref h =>
    obtain ⟨v, hx, rfl⟩ := exec_return he
    exact keep (dropSurface_keeps hl rfl rfl hx)
  | surfaceDestroy h =>
    obtain ⟨v, hx, rfl⟩ := exec_return he
    exact keep (dropSurface_keeps hl rfl rfl hx)
  | querySupportedFormats =>
    obtain ⟨v, hx, rfl⟩ := exec_return he
    obtain ⟨o', ho', hm⟩ := tbmSurfaceInternalQuerySupportedFormats_moves (A := A) hl rfl hx
    refine ⟨o', fun h => (ho' h).imp_right fun hq => ?_, hm, fun _ => .inl⟩
    obtain ⟨hb, hf, hn⟩ := hq
    have hf' : x.formats = true := hf
    simp [World.retains, hb, hf', hn]
  | queueCreate queueSize width height format =>
    obtain ⟨v, hx, rfl⟩ := exec_return he
    exact keep (.of_moves (surfaceQueueCreate_moves hx))
  | queueSequenceCreate queueSize width height format =>
    obtain ⟨v, hx, rfl⟩ := exec_return he
    exact keep (.of_moves (surfaceQueueCreate_moves hx))
  | queueAttach q width height format flags =>
    obtain ⟨v, hx, rfl⟩ := exec_return he
    refine keep (withQueue_keeps (fun c _ hc hq => ?_) hx)
    have ha' : SurfaceAllocates backend x width height format → A.uncounted := by
      simpa [World.surfaceAllocates, hc] using ha
    exact needAttach_keeps hl rfl rfl ha' hq
  | queueAttachCb q h =>
    obtain ⟨v, hx, rfl⟩ := exec_return he
    exact keep (withQueue_keeps (fun q _ _ hq => needAttachCb_keeps hl rfl rfl hq) hx)
  | queueDetach q h =>
    obtain ⟨v, hx, rfl⟩ := exec_return he
    exact keep (withQueue_keeps (fun q _ _ hq => queueDeleteNode_keeps hl rfl rfl hq) hx)
  | queueDestroy q =>
    obtain ⟨v, hx, rfl⟩ := exec_return he
    exact keep (tbmSurfaceQueueDestroy_keeps hl rfl rfl hx)

theorem life_initial : Life World.initial.state (World.initial.ledger false) := by
  constructor <;> simp [World.initial, World.ledger, State.initial]

/-- Between two calls of a run the manager is sound. -/
theorem run_life {turns : List Turn} {log : List (Entry World Turn Reply)}
    (hp : Runs.Permitted (World.step backend) (fun w t => w.inited t) turns .initial)
    (hr : Runs.run (World.step backend) turns .initial = some (log, w)) :
    ∃ o, Life w.state (w.ledger o) := by
  apply Runs.run_safe (fun _ w => ∃ o, Life w.state (w.ledger o)) ⟨false, life_initial⟩ ?_ hp hr
  rintro _ w t r w' ⟨o, hl⟩ hi hs
  obtain ⟨o', -, hmoves, -⟩ := step_moves (A := ⟨True, True, True⟩) hl hi (.inl trivial)
    (fun _ => trivial) (.inl trivial) hs
  exact ⟨o', hmoves.life hl⟩

end Steps

end Tbm.Bufmgr
