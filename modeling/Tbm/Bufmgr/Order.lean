import Tbm.Bufmgr.Dumps
import Tbm.Core.Order

/-! The order in which the calls of the library take the static mutexes. -/
namespace Tbm.Bufmgr

open Prog

/-- Which of the two mutexes of the manager is taken after the other. -/
inductive Inner
  | bufmgr | gLock
  deriving DecidableEq, Repr

def Mutex.rank (inner : Inner) : Mutex → ℕ
  | .surfQueue => 0
  | .surface => 1
  | .gLock => if inner = .gLock then 3 else 2
  | .bufmgr => if inner = .gLock then 2 else 3
  | .lock => 4

/-- `_tbm_util_check_bo_cnt` once it has read `bo_cnt`. -/
def checkBoCntFrom (x : Answers) (m : Option Mgr) (cnt : UInt32) : BProg Unit := do
  let last ← read (·.lastChkBoCnt)
  if 500 ≤ cnt ∧ cnt % 20 = 0 ∧ last < cnt then do
    tbmBufmgrDebugShow x m
    modify fun s => { s with lastChkBoCnt := s.boCnt }
  else pure ()

/-- The last `tbm_bufmgr_deinit` from its loop over `surf_list` on. -/
def clearSurfaces (backend : Backend) : BProg Unit := do
  let surfs ← read (·.surfList)
  destroySurfaces backend surfs
  modify fun s => { s with gBufMgr := none }

/-- The last `tbm_bufmgr_deinit` from its loop over `bo_list` on. -/
def clearBos (backend : Backend) : BProg Unit := do
  let bos ← read (·.boList)
  destroyBos backend bos
  clearSurfaces backend

/-- The branches that take the mutexes the other way round are not taken: the last
`tbm_bufmgr_deinit` finds no surface, and `bo_cnt` asks for no report, or else the last
`tbm_bufmgr_deinit` finds no buffer object. -/
structure Calm (inner : Inner) {α : Type} (p : BProg α) (s : State) : Prop where
  counts : inner = .bufmgr → ∀ x m cnt, p.Begins (checkBoCntFrom x m cnt) →
    ¬(500 ≤ cnt ∧ cnt % 20 = 0 ∧ s.lastChkBoCnt < cnt)
  bos : inner = .gLock → ∀ backend, p.Begins (clearBos backend) → s.boList = []
  surfaces : ∀ backend, p.Begins (clearSurfaces backend) → s.surfList = []

def calm (inner : Inner) : Promise Mutex Empty Empty Answers State where
  holds := fun _ p s => Calm inner p s
  bind := by
    intro α β H p f s h
    constructor
    · intro hi x m cnt hp
      exact h.counts hi x m cnt (hp.bind f)
    · intro hi backend hp
      exact h.bos hi backend (hp.bind f)
    · intro backend hp
      exact h.surfaces backend (hp.bind f)

/-- The program takes its mutexes in order and gives them back. -/
abbrev Neat (inner : Inner) (H : Mutex → Bool) {α : Type} (p : BProg α) : Prop :=
  p.Sorted (Mutex.rank inner) (calm inner) H H

section Programs

variable {inner : Inner} {H : Mutex → Bool} {backend : Backend} {me : ℕ} {α : Type}

theorem neat_locked {m : Mutex} {p : BProg α} (hb : Below (Mutex.rank inner) H m)
    (hp : Neat inner (Function.update H m true) p) : Neat inner H (locked m p) :=
  Sorted.inside hb hp

theorem neat_stuck : Neat inner H (stuck : BProg α) := Sorted.access _

section Mutexes

variable {x : Answers} {m : Option Mgr} (hb : Below (Mutex.rank inner) H .gLock)

include hb

theorem tbmBufmgrInit_neat : Neat inner H tbmBufmgrInit :=
  neat_locked hb (Sorted.answer.bind fun _ => Sorted.access _)

theorem tbmBufmgrDebugShow_neat : Neat inner H (tbmBufmgrDebugShow x m) :=
  neat_locked hb (Sorted.access _)

end Mutexes

section Bos

variable (hb : Below (Mutex.rank inner) H .bufmgr) {b c : Option Bo}

include hb

/-- A report is only made where `gLock` comes after the mutex of the buffer objects. -/
theorem tbmUtilCheckBoCnt_neat (x : Answers) (m : Option Mgr) :
    Neat inner (Function.update H .bufmgr true) (tbmUtilCheckBoCnt x m) := by
  refine (Sorted.read _).bind fun cnt => ?_
  refine Sorted.read_bind fun s hs => ?_
  cases inner with
  | bufmgr =>
    have hcnt := hs.counts rfl x m cnt (begins_self _)
    rw [if_neg hcnt]
    exact Sorted.pure _
  | gLock =>
    have hg : Below (Mutex.rank .gLock) (Function.update H .bufmgr true) .gLock :=
      hb.take (by decide)
    exact .ite (fun _ => (tbmBufmgrDebugShow_neat hg).bind fun _ => Sorted.modify _)
      fun _ => Sorted.pure _

theorem tbmBoRef_neat : Neat inner H (tbmBoRef b) := neat_locked hb (Sorted.access _)

theorem tbmBoSetSurface_neat {h : Option Surface} : Neat inner H (tbmBoSetSurface b h) :=
  neat_locked hb (Sorted.modify _)

theorem tbmBoSwap_neat : Neat inner H (tbmBoSwap b c) :=
  neat_locked hb (Sorted.answer.bind fun _ => Sorted.access _)

theorem tbmBoUnref_neat : Neat inner H (tbmBoUnref backend b) := neat_locked hb (Sorted.modify _)

theorem tbmBoUnmap_neat : Neat inner H (tbmBoUnmap backend b) :=
  neat_locked hb (Sorted.answer.bind fun _ => Sorted.access _)

theorem tbmBoGetHandle_neat : Neat inner H (tbmBoGetHandle b) :=
  neat_locked hb (Sorted.answer.bind fun _ => Sorted.read _)

/-- The mutex is given up while the backend locks the buffer object. -/
theorem tbmBoMap_neat : Neat inner H (tbmBoMap backend me b) := by
  refine neat_locked hb (Sorted.answer.bind fun x => (Sorted.access _).bind fun r => ?_)
  obtain ⟨_ | b, ok⟩ := r
  · exact Sorted.pure _
  · have hlock : Neat inner H (do
        let x ← (answer : BProg Answers)
        access fun s => s.boLock backend me b x.lock) :=
      Sorted.answer.bind fun _ => Sorted.access _
    exact Sorted.outside hb hlock fun _ => Sorted.answer.bind fun _ => Sorted.access _

theorem tbmBoAlloc_neat {m : Option Mgr} {size flags : ℤ} {i : ℕ} :
    Neat inner H (tbmBoAlloc m size flags i) := by
  refine neat_locked hb ((Sorted.read _).bind fun g => ?_)
  refine .ite (fun _ => Sorted.answer.bind fun x => ?_) fun _ => Sorted.pure _
  refine .ite (fun _ => (tbmUtilCheckBoCnt_neat hb x m).bind fun _ => ?_) fun _ => Sorted.pure _
  cases (x.bo i).priv with
  | none => exact Sorted.pure _
  | some p => exact Sorted.access _

theorem boImport_neat {provided : Bool} {m : Option Mgr} :
    Neat inner H (boImport backend provided m) := by
  refine neat_locked hb ((Sorted.read _).bind fun g => ?_)
  refine .ite (fun _ => Sorted.answer.bind fun x => ?_) fun _ => Sorted.pure _
  refine (tbmUtilCheckBoCnt_neat hb x m).bind fun _ => ?_
  cases (if (x.bo 0).calloc then (x.bo 0).priv else none) with
  | none => exact Sorted.pure _
  | some p => exact Sorted.access _

theorem destroyBos_neat (bs : List Bo) : Neat inner H (destroyBos backend bs) := by
  induction bs with
  | nil => exact Sorted.pure _
  | cons b bs ih =>
    exact (Sorted.modify _).bind fun _ => (tbmBoUnref_neat hb).bind fun _ => ih

theorem destroySlots_neat (h : Surface) (n i : ℕ) : Neat inner H (destroySlots backend h n i) := by
  induction n generalizing i with
  | zero => exact Sorted.pure _
  | succ n ih =>
    refine (Sorted.access _).bind fun b => (tbmBoUnref_neat hb).bind fun _ => ?_
    exact (Sorted.modify _).bind fun _ => ih (i + 1)

theorem unrefSlots_neat (l : List (Option Bo)) : Neat inner H (unrefSlots backend l) := by
  induction l with
  | nil => exact Sorted.pure _
  | cons b l ih =>
    cases b with
    | none => exact ih
    | some b => exact (tbmBoUnref_neat hb).bind fun _ => ih

theorem refSlots_neat (h : Surface) (bos : ℕ → Option Bo) (n : ℕ) (l : List (Option Bo)) :
    Neat inner H (refSlots h bos n l) := by
  induction n generalizing l with
  | zero => exact Sorted.pure _
  | succ n ih =>
    refine .ite (fun _ => ?_) fun _ => neat_stuck
    cases bos l.length with
    | none => exact Sorted.pure _
    | some b =>
      refine (tbmBoRef_neat hb).bind fun r => (tbmBoSetSurface_neat hb).bind fun _ => ?_
      exact ih (l ++ [r])

theorem unmapSlots_neat (h : Surface) (n i : ℕ) : Neat inner H (unmapSlots backend h n i) := by
  induction n generalizing i with
  | zero => exact Sorted.pure _
  | succ n ih =>
    exact (Sorted.access _).bind fun b => (tbmBoUnmap_neat hb).bind fun _ => ih (i + 1)

theorem handleSlots_neat (h : Surface) (n i : ℕ) : Neat inner H (handleSlots h n i) := by
  induction n generalizing i with
  | zero => exact Sorted.pure _
  | succ n ih =>
    refine (Sorted.access _).bind fun b => (tbmBoGetHandle_neat hb).bind fun ok => ?_
    exact .ite (fun _ => ih (i + 1)) fun _ => Sorted.pure _

theorem finishSurface_neat {m : Mgr} {h : Surface} {data : List (Option Bo) → SurfaceData}
    {r : Bool × List (Option Bo)} : Neat inner H (finishSurface backend m h data r) := by
  refine .ite (fun _ => Sorted.access _) fun _ => ?_
  exact (unrefSlots_neat hb r.2).bind fun _ => Sorted.pure _

end Bos

section Deinit

variable (hb : Below (Mutex.rank inner) H .gLock)

include hb

/-- The last reference goes: no surface is left, and buffer objects only where their mutex comes
after `gLock`. -/
theorem clearBos_neat : Neat inner (Function.update H .gLock true) (clearBos backend) := by
  have hsurfs : Neat inner (Function.update H .gLock true) (clearSurfaces backend) := by
    refine Sorted.read_bind fun s hs => ?_
    rw [hs.surfaces backend (begins_self _)]
    exact (Sorted.pure _).bind fun _ => Sorted.modify _
  refine Sorted.read_bind fun s hs => ?_
  cases inner with
  | bufmgr =>
    have hg : Below (Mutex.rank .bufmgr) (Function.update H .gLock true) .bufmgr :=
      hb.take (by decide)
    exact (destroyBos_neat hg s.boList).bind fun _ => hsurfs
  | gLock =>
    rw [hs.bos rfl backend (begins_self _)]
    exact (Sorted.pure _).bind fun _ => hsurfs

theorem tbmBufmgrDeinit_neat (m : Option Mgr) : Neat inner H (tbmBufmgrDeinit backend m) := by
  refine .ite (fun _ => Sorted.pure _) fun _ => neat_locked hb ((Sorted.read _).bind fun g => ?_)
  refine .ite (fun _ => Sorted.pure _) fun _ => (Sorted.access _).bind fun last => ?_
  exact .ite (fun _ => clearBos_neat hb) fun _ => Sorted.pure _

theorem initSurfaceBufmgr_neat : Neat inner H initSurfaceBufmgr := by
  refine (Sorted.read _).bind fun m => ?_
  cases m with
  | none => exact (tbmBufmgrInit_neat hb).bind fun _ => Sorted.access _
  | some m => exact Sorted.pure _

theorem deinitSurfaceBufmgr_neat :
    Neat inner H (deinitSurfaceBufmgr (tbmBufmgrDeinit backend)) := by
  refine (Sorted.read _).bind fun m => ?_
  cases m with
  | none => exact Sorted.pure _
  | some m => exact (tbmBufmgrDeinit_neat hb (some m)).bind fun _ => Sorted.modify _

theorem giveBack_neat {initialized : Bool} : Neat inner H (giveBack backend initialized) := by
  refine .ite (fun _ => ?_) fun _ => Sorted.pure _
  exact (Sorted.modify _).bind fun _ => deinitSurfaceBufmgr_neat hb

end Deinit

section Surfaces

variable (hb : Below (Mutex.rank inner) H .surface) {h : Option Surface}

include hb

/-- Both mutexes of the manager come after that of the surfaces. -/
theorem below_surface : Below (Mutex.rank inner) (Function.update H .surface true) .gLock ∧
    Below (Mutex.rank inner) (Function.update H .surface true) .bufmgr := by
  cases inner with
  | bufmgr => exact ⟨hb.take (by decide), hb.take (by decide)⟩
  | gLock => exact ⟨hb.take (by decide), hb.take (by decide)⟩

theorem tbmSurfaceInternalRef_neat : Neat inner H (tbmSurfaceInternalRef h) :=
  neat_locked hb (Sorted.access _)

theorem dropSurface_neat : Neat inner H (dropSurface backend (tbmBufmgrDeinit backend) h) := by
  obtain ⟨hg, hbo⟩ := below_surface hb
  refine neat_locked hb ((Sorted.access _).bind fun r => ?_)
  cases r with
  | none => exact Sorted.pure _
  | some h =>
    refine (Sorted.read _).bind fun n => (Sorted.modify _).bind fun _ => ?_
    refine .ite (fun _ => (Sorted.read _).bind fun k => ?_) fun _ => Sorted.pure _
    refine (destroySlots_neat hbo h k 0).bind fun _ => (Sorted.access _).bind fun last => ?_
    exact .ite (fun _ => deinitSurfaceBufmgr_neat hg) fun _ => Sorted.pure _

theorem createSurface_neat {body : Mgr → Surface → Answers → BProg (Option Surface)}
    (hbody : ∀ m h x, Neat inner (Function.update H .surface true) (body m h x)) :
    Neat inner H (createSurface backend body) := by
  obtain ⟨hg, hbo⟩ := below_surface hb
  refine neat_locked hb ((initSurfaceBufmgr_neat hg).bind fun initialized => ?_)
  have hmake : Neat inner (Function.update H .surface true) (makeSurface body) := by
    refine (Sorted.read _).bind fun m => ?_
    cases m with
    | none => exact Sorted.pure _
    | some m =>
      refine Sorted.answer.bind fun x => .ite (fun _ => ?_) fun _ => Sorted.pure _
      exact (Sorted.access _).bind fun h => hbody m h x
  refine hmake.bind fun r => ?_
  cases r with
  | none => exact (giveBack_neat hg).bind fun _ => Sorted.pure _
  | some h => exact Sorted.pure _

theorem allocSlot_neat {m : Mgr} {size flags : ℤ} {i : ℕ} :
    Neat inner (Function.update H .surface true) (allocSlot backend m size flags i) := by
  obtain ⟨-, hbo⟩ := below_surface hb
  have hl : Below (Mutex.rank inner) (Function.update H .surface true) .lock :=
    hb.take (by decide : 1 < 4)
  refine .ite (fun _ => Sorted.answer.bind fun x => ?_) fun _ => tbmBoAlloc_neat hbo
  refine .ite (fun _ => neat_locked hl ?_) fun _ => Sorted.pure _
  cases (x.bo i).priv with
  | none => exact Sorted.pure _
  | some p => exact Sorted.access _

theorem allocSlots_neat {m : Mgr} {flags : ℤ} {ps : List PlaneAnswer} {h : Surface} (n : ℕ)
    (l : List (Option Bo)) :
    Neat inner (Function.update H .surface true) (allocSlots backend m flags ps h n l) := by
  obtain ⟨-, hbo⟩ := below_surface hb
  induction n generalizing l with
  | zero => exact Sorted.pure _
  | succ n ih =>
    refine (allocSlot_neat hb).bind fun r => ?_
    cases r with
    | none => exact .ite (fun _ => Sorted.pure _) fun _ => neat_stuck
    | some b =>
      exact .ite (fun _ => (tbmBoSetSurface_neat hbo).bind fun _ => ih (l ++ [some b]))
        fun _ => neat_stuck

theorem tbmSurfaceInternalCreateWithFlags_neat {width height flags : ℤ} {format : Format} :
    Neat inner H (tbmSurfaceInternalCreateWithFlags backend width height format flags) := by
  obtain ⟨-, hbo⟩ := below_surface hb
  refine .ite (fun _ => createSurface_neat hb fun m h x => ?_) fun _ => Sorted.pure _
  cases queryPlaneData backend x format.numPlanes.toNat with
  | none => exact Sorted.pure _
  | some ps => exact (allocSlots_neat hb _ _).bind fun r => finishSurface_neat hbo

theorem tbmSurfaceInternalCreateWithBos_neat {info : Option SurfaceInfo}
    {bos : Option (ℕ → Option Bo)} {num : ℤ} :
    Neat inner H (tbmSurfaceInternalCreateWithBos backend info bos num) := by
  obtain ⟨-, hbo⟩ := below_surface hb
  cases bos with
  | none => exact Sorted.pure _
  | some bos =>
    cases info with
    | none => exact Sorted.pure _
    | some info =>
      refine .ite (fun _ => createSurface_neat hb fun m h x => ?_) fun _ => Sorted.pure _
      refine .ite (fun _ => (refSlots_neat hbo h bos _ _).bind fun r => ?_) fun _ => neat_stuck
      exact finishSurface_neat hbo

theorem tbmSurfaceInternalQuerySupportedFormats_neat :
    Neat inner H (tbmSurfaceInternalQuerySupportedFormats backend) := by
  obtain ⟨hg, -⟩ := below_surface hb
  refine neat_locked hb ((initSurfaceBufmgr_neat hg).bind fun initialized => ?_)
  refine Sorted.answer.bind fun x => (Sorted.access _).bind fun _ => ?_
  exact .ite (fun _ => Sorted.pure _) fun _ => (giveBack_neat hg).bind fun _ => Sorted.pure _

/-- The surface mutex is given up for each map. -/
theorem mapSlots_neat (h : Surface) (n i : ℕ) :
    Neat inner (Function.update H .surface true) (mapSlots backend me h n i) := by
  obtain ⟨-, hbo⟩ := below_surface hb
  have hout : Below (Mutex.rank inner) H .bufmgr := hb.mono (by cases inner <;> decide)
  induction n generalizing i with
  | zero => exact Sorted.pure _
  | succ n ih =>
    have hmap : Neat inner H (do
        let b ← access fun s => (s.surfaceSlot h i).map (·, s)
        tbmBoMap backend me b) := (Sorted.access _).bind fun b => tbmBoMap_neat hout
    refine Sorted.outside hb hmap fun ok => .ite (fun _ => ih (i + 1)) fun _ => ?_
    exact (unmapSlots_neat hbo h i 0).bind fun _ => Sorted.pure _

theorem tbmSurfaceInternalGetInfo_neat {map : Bool} :
    Neat inner H (tbmSurfaceInternalGetInfo backend me h map) := by
  obtain ⟨-, hbo⟩ := below_surface hb
  refine neat_locked hb ((Sorted.access _).bind fun r => ?_)
  cases r with
  | none => exact Sorted.pure _
  | some h =>
    refine (Sorted.read _).bind fun n => ?_
    have hslots : Neat inner (Function.update H .surface true) (fetchSlots backend me h map n) :=
      .ite (fun _ => mapSlots_neat hb h n 0) fun _ => handleSlots_neat hbo h n 0
    refine hslots.bind fun ok => ?_
    exact .ite (fun _ => Sorted.access _) fun _ => Sorted.pure _

theorem tbmSurfaceInternalUnmap_neat : Neat inner H (tbmSurfaceInternalUnmap backend h) := by
  obtain ⟨-, hbo⟩ := below_surface hb
  refine neat_locked hb ((Sorted.access _).bind fun r => ?_)
  cases r with
  | none => exact Sorted.pure _
  | some h => exact (Sorted.read _).bind fun n => unmapSlots_neat hbo h n 0

theorem tbmSurfaceMap_neat : Neat inner H (tbmSurfaceMap backend me h) :=
  .ite (fun _ => tbmSurfaceInternalGetInfo_neat hb) fun _ => Sorted.pure _

theorem tbmSurfaceUnmap_neat : Neat inner H (tbmSurfaceUnmap backend h) :=
  .ite (fun _ => tbmSurfaceInternalUnmap_neat hb) fun _ => Sorted.pure _

theorem tbmSurfaceDestroy_neat : Neat inner H (tbmSurfaceDestroy backend h) :=
  .ite (fun _ => dropSurface_neat hb) fun _ => Sorted.pure _

theorem tbmSurfaceInternalCaptureBuffer_neat :
    Neat inner H (tbmSurfaceInternalCaptureBuffer backend me h) := by
  refine .ite (fun _ => (tbmSurfaceMap_neat hb).bind fun r => ?_) fun _ => Sorted.pure _
  cases r with
  | none => exact Sorted.pure _
  | some i => exact tbmSurfaceUnmap_neat hb

end Surfaces

section Queues

variable (hb : Below (Mutex.rank inner) H .surfQueue)

include hb

theorem below_surfQueue : Below (Mutex.rank inner) (Function.update H .surfQueue true) .gLock ∧
    Below (Mutex.rank inner) (Function.update H .surfQueue true) .surface := by
  cases inner with
  | bufmgr => exact ⟨hb.take (by decide), hb.take (by decide)⟩
  | gLock => exact ⟨hb.take (by decide), hb.take (by decide)⟩

theorem surfaceQueueCreate_neat {queueSize width height format : ℤ} :
    Neat inner H (surfaceQueueCreate queueSize width height format) := by
  obtain ⟨hg, -⟩ := below_surfQueue hb
  have hinit : Neat inner (Function.update H .surfQueue true) surfaceQueueInit := by
    refine (Sorted.read _).bind fun m => ?_
    cases m with
    | none =>
      refine (tbmBufmgrInit_neat hg).bind fun m => ?_
      exact (Sorted.modify _).bind fun _ => Sorted.access _
    | some m => exact Sorted.access _
  refine .ite (fun _ => neat_locked hb (Sorted.answer.bind fun x => ?_)) fun _ => Sorted.pure _
  exact .ite (fun _ => hinit.bind fun q => Sorted.pure _) fun _ => Sorted.pure _

theorem withQueue_neat {q : Option Queue} {k : Queue → BProg Unit}
    (hk : ∀ q, Neat inner (Function.update H .surfQueue true) (k q)) :
    Neat inner H (withQueue q k) := by
  refine neat_locked hb ((Sorted.access _).bind fun r => ?_)
  cases r with
  | none => exact Sorted.pure _
  | some q => exact hk q

theorem surfaceQueueAttach_neat (q : Queue) (h : Surface) :
    Neat inner (Function.update H .surfQueue true) (surfaceQueueAttach q h) := by
  obtain ⟨-, hs⟩ := below_surfQueue hb
  refine Sorted.answer.bind fun x => .ite (fun _ => ?_) fun _ => Sorted.pure _
  exact (tbmSurfaceInternalRef_neat hs).bind fun _ => Sorted.modify _

theorem needAttach_neat {width height flags : ℤ} {format : Format} (q : Queue) :
    Neat inner (Function.update H .surfQueue true)
      (needAttach backend width height format flags q) := by
  obtain ⟨-, hs⟩ := below_surfQueue hb
  refine (tbmSurfaceInternalCreateWithFlags_neat hs).bind fun r => ?_
  cases r with
  | none => exact Sorted.pure _
  | some h => exact (surfaceQueueAttach_neat hb q h).bind fun _ => dropSurface_neat hs

theorem needAttachCb_neat (h : Surface) (q : Queue) :
    Neat inner (Function.update H .surfQueue true) (needAttachCb backend h q) := by
  obtain ⟨-, hs⟩ := below_surfQueue hb
  refine (tbmSurfaceInternalRef_neat hs).bind fun _ => ?_
  exact (surfaceQueueAttach_neat hb q h).bind fun _ => dropSurface_neat hs

theorem queueDeleteNode_neat (h : Surface) (q : Queue) :
    Neat inner (Function.update H .surfQueue true) (queueDeleteNode backend h q) := by
  obtain ⟨-, hs⟩ := below_surfQueue hb
  refine (Sorted.read _).bind fun l => .ite (fun _ => ?_) fun _ => Sorted.pure _
  exact (dropSurface_neat hs).bind fun _ => Sorted.modify _

theorem tbmSurfaceQueueDestroy_neat {q : Option Queue} :
    Neat inner H (tbmSurfaceQueueDestroy backend q) := by
  obtain ⟨hg, hs⟩ := below_surfQueue hb
  have hnodes : ∀ hs',
      Neat inner (Function.update H .surfQueue true) (deleteNodes backend hs') := by
    intro l
    induction l with
    | nil => exact Sorted.pure _
    | cons h l ih => exact (dropSurface_neat hs).bind fun _ => ih
  have hlast : Neat inner (Function.update H .surfQueue true) (deinitSurfQueueBufmgr backend) := by
    refine (Sorted.read _).bind fun m => ?_
    cases m with
    | none => exact Sorted.pure _
    | some m => exact (tbmBufmgrDeinit_neat hg (some m)).bind fun _ => Sorted.modify _
  refine withQueue_neat hb fun q => (Sorted.modify _).bind fun _ => (Sorted.read _).bind fun l => ?_
  refine (hnodes l).bind fun _ => (Sorted.access _).bind fun last => ?_
  exact .ite (fun _ => hlast) fun _ => Sorted.pure _

end Queues

theorem below_none (m : Mutex) : Below (Mutex.rank inner) (fun _ => false) m := .none _ m

theorem Op.prog_neat (o : Op) : Neat inner (fun _ => false) (o.prog backend) := by
  cases o with
  | bufmgrInit => exact (tbmBufmgrInit_neat (below_none _)).bind fun _ => Sorted.pure _
  | bufmgrDeinit m => exact (tbmBufmgrDeinit_neat (below_none _) m).bind fun _ => Sorted.pure _
  | boAlloc m size flags => exact (tbmBoAlloc_neat (below_none _)).bind fun _ => Sorted.pure _
  | boImport m | boImportFd m => exact (boImport_neat (below_none _)).bind fun _ => Sorted.pure _
  | boRef b => exact (tbmBoRef_neat (below_none _)).bind fun _ => Sorted.pure _
  | boUnref b => exact (tbmBoUnref_neat (below_none _)).bind fun _ => Sorted.pure _
  | boSwap b c => exact (tbmBoSwap_neat (below_none _)).bind fun _ => Sorted.pure _
  | surfaceCreateWithFlags width height format flags =>
    exact (tbmSurfaceInternalCreateWithFlags_neat (below_none _)).bind fun _ => Sorted.pure _
  | surfaceCreateWithBos info bos num =>
    exact (tbmSurfaceInternalCreateWithBos_neat (below_none _)).bind fun _ => Sorted.pure _
  | surfaceRef h => exact (tbmSurfaceInternalRef_neat (below_none _)).bind fun _ => Sorted.pure _
  | surfaceUnref h | surfaceDestroy h =>
    exact (dropSurface_neat (below_none _)).bind fun _ => Sorted.pure _
  | querySupportedFormats =>
    exact (tbmSurfaceInternalQuerySupportedFormats_neat (below_none _)).bind fun _ => Sorted.pure _
  | queueCreate queueSize width height format | queueSequenceCreate queueSize width height format =>
    exact (surfaceQueueCreate_neat (below_none _)).bind fun _ => Sorted.pure _
  | queueAttach q width height format flags =>
    exact (withQueue_neat (below_none _) (needAttach_neat (below_none _))).bind
      fun _ => Sorted.pure _
  | queueAttachCb q h =>
    exact (withQueue_neat (below_none _) (needAttachCb_neat (below_none _) h)).bind fun _ =>
      Sorted.pure _
  | queueDetach q h =>
    exact (withQueue_neat (below_none _) (queueDeleteNode_neat (below_none _) h)).bind fun _ =>
      Sorted.pure _
  | queueDestroy q =>
    exact (tbmSurfaceQueueDestroy_neat (below_none _)).bind fun _ => Sorted.pure _

theorem MapOp.prog_neat (o : MapOp) : Neat inner (fun _ => false) (o.prog backend me) := by
  cases o with
  | map b => exact tbmBoMap_neat (below_none _)
  | unmap b => exact tbmBoUnmap_neat (below_none _)
  | unref b => exact (tbmBoUnref_neat (below_none _)).bind fun _ => Sorted.pure _

end Programs

/-- The same where a dump may be in progress: it is not started where there is a surface while
`gLock` is held, and it ends under `gLock` without buffers unless their mutex comes after it. -/
structure CalmAll (inner : Inner) (H : Mutex → Bool) {α : Type} (p : DProg α) (s : Store) :
    Prop where
  counts : inner = .bufmgr → ∀ x m cnt, p.Begins (onMgr (checkBoCntFrom x m cnt)) →
    ¬(500 ≤ cnt ∧ cnt % 20 = 0 ∧ s.mgr.lastChkBoCnt < cnt)
  bos : inner = .gLock → ∀ backend, p.Begins (onMgr (clearBos backend)) → s.mgr.boList = []
  surfaces : ∀ backend, p.Begins (onMgr (clearSurfaces backend)) → s.mgr.surfList = []
  sizes : ∀ backend me, p.Begins (onMgr (tbmUtilGetMaxSurfaceSize backend me)) →
    s.mgr.gBufMgr.isSome = true → s.mgr.surfList = []
  buffers : inner = .gLock → H .gLock = true → ∀ backend me,
    p.Begins (tbmSurfaceInternalDumpEnd backend me) → ∀ d ∈ s.dump, d.bufs = []

def calmAll (inner : Inner) : Promise Mutex Empty Empty Answers Store where
  holds := fun H p s => CalmAll inner H p s
  bind := by
    intro α β H p f s h
    constructor
    · intro hi x m cnt hp
      exact h.counts hi x m cnt (hp.bind f)
    · intro hi backend hp
      exact h.bos hi backend (hp.bind f)
    · intro backend hp
      exact h.surfaces backend (hp.bind f)
    · intro backend me hp
      exact h.sizes backend me (hp.bind f)
    · intro hi hH backend me hp
      exact h.buffers hi hH backend me (hp.bind f)

abbrev NeatAll (inner : Inner) (H : Mutex → Bool) {α : Type} (p : DProg α) : Prop :=
  p.Sorted (Mutex.rank inner) (calmAll inner) H H

section Programs

variable {inner : Inner} {H : Mutex → Bool} {backend : Backend} {me : ℕ} {α : Type}

theorem Neat.onMgr {p : BProg α} (h : Neat inner H p) : NeatAll inner H (onMgr p) := by
  refine Sorted.zoom (fun {α H p t} hp => ?_) h
  have hbegins : ∀ {β : Type} {q : BProg β}, p.Begins q →
      (Bufmgr.onMgr p).Begins (Bufmgr.onMgr q) := by
    rintro β q ⟨f, rfl⟩
    exact ⟨_, zoom_bind Store.mgr Store.setMgr q f⟩
  constructor
  · intro hi x m cnt hq
    exact hp.counts hi x m cnt (hbegins hq)
  · intro hi backend hq
    exact hp.bos hi backend (hbegins hq)
  · intro backend hq
    exact hp.surfaces backend (hbegins hq)

theorem tbmUtilGetMaxSurfaceSize_neat {f : ℕ × ℤ × ℤ → DProg α}
    (hf : NeatAll inner H (f (0, 0, 0))) :
    NeatAll inner H (onMgr (tbmUtilGetMaxSurfaceSize backend me) >>= f) := by
  intro s hs s' hL hg
  have hnone : s.mgr.gBufMgr.isSome = true → s.mgr.surfList = [] := hL.sizes backend me ⟨f, rfl⟩
  obtain ⟨rfl, -⟩ : (if s.mgr.gBufMgr.isSome = true then s.mgr.surfList else []) = hs ∧ _ := by
    simpa using hg
  by_cases hm : s.mgr.gBufMgr.isSome = true
  · rw [if_pos hm, hnone hm]
    exact hf
  · rw [if_neg hm]
    exact hf

theorem neatAll_locked {m : Mutex} {p : DProg α} (hb : Below (Mutex.rank inner) H m)
    (hp : NeatAll inner (Function.update H m true) p) : NeatAll inner H (locked m p) :=
  Sorted.inside hb hp

section Dumps

variable (hb : Below (Mutex.rank inner) H .bufmgr)

include hb

theorem endBufs_neat (l : List DumpBuf) : NeatAll inner H (endBufs backend me l) := by
  induction l with
  | nil => exact Sorted.pure _
  | cons b l ih =>
    refine (tbmBoMap_neat hb).onMgr.bind fun ok => .ite (fun _ => ?_) fun _ => ?_
    · refine (tbmBoUnmap_neat hb).onMgr.bind fun _ => ?_
      exact (tbmBoUnref_neat hb).onMgr.bind fun _ => ih
    · exact (tbmBoUnref_neat hb).onMgr.bind fun _ => ih

theorem unrefBufs_neat (l : List DumpBuf) : NeatAll inner H (unrefBufs backend l) := by
  induction l with
  | nil => exact Sorted.pure _
  | cons b l ih => exact (tbmBoUnref_neat hb).onMgr.bind fun _ => ih

theorem startBufs_neat (size : ℤ) (n : ℕ) : NeatAll inner H (startBufs size n) := by
  induction n with
  | zero => exact Sorted.pure _
  | succ n ih =>
    refine Sorted.answer.bind fun x => .ite (fun _ => ?_) fun _ => Sorted.pure _
    refine (Sorted.read _).bind fun m => (tbmBoAlloc_neat hb).onMgr.bind fun r => ?_
    cases r with
    | none => exact Sorted.pure _
    | some b => exact (Sorted.access _).bind fun _ => ih

theorem fillDump_neat (size : ℤ) (n : ℕ) : NeatAll inner H (fillDump backend size n) := by
  refine (startBufs_neat hb size n).bind fun ok => .ite (fun _ => Sorted.access _) fun _ => ?_
  refine (Sorted.access _).bind fun bufs => ?_
  exact (unrefBufs_neat hb bufs).bind fun _ => Sorted.modify _

end Dumps

/-- Under `gLock` the buffers are only reached where their mutex comes after it. -/
theorem tbmSurfaceInternalDumpEnd_neat
    (hb : Below (Mutex.rank inner) H .bufmgr ∨ inner = .gLock ∧ H .gLock = true) :
    NeatAll inner H (tbmSurfaceInternalDumpEnd backend me) := by
  refine Sorted.read_bind fun s hs => ?_
  cases hd : s.dump with
  | none => exact Sorted.pure _
  | some d =>
    refine Sorted.bind ?_ fun _ => Sorted.modify _
    rcases hb with hb | ⟨hi, hH⟩
    · exact endBufs_neat hb d.bufs
    · have hbufs : d.bufs = [] := hs.buffers hi hH backend me (begins_self _) d hd
      rw [hbufs]
      exact Sorted.pure _

theorem tbmSurfaceInternalDumpStart_neat {path : Bool} {w h count : ℤ} :
    NeatAll inner (fun _ => false) (tbmSurfaceInternalDumpStart backend me path w h count) := by
  refine .ite (fun _ => (Sorted.read _).bind fun d => ?_) fun _ => Sorted.pure _
  refine .ite (fun _ => Sorted.pure _) fun _ => Sorted.answer.bind fun x => ?_
  refine .ite (fun _ => (Sorted.modify _).bind fun _ => ?_) fun _ => Sorted.pure _
  have hcreate : Neat inner (fun _ => false) (tbmSurfaceCreate backend w h .argb8888) :=
    .ite (fun _ => tbmSurfaceInternalCreateWithFlags_neat (below_none _)) fun _ => Sorted.pure _
  refine hcreate.onMgr.bind fun t => ?_
  cases t with
  | none => exact Sorted.modify _
  | some t =>
    refine (tbmSurfaceMap_neat (below_none _)).onMgr.bind fun r => ?_
    cases r with
    | none =>
      exact (tbmSurfaceDestroy_neat (below_none _)).onMgr.bind fun _ => Sorted.modify _
    | some info =>
      refine (tbmSurfaceUnmap_neat (below_none _)).onMgr.bind fun _ => ?_
      refine (tbmSurfaceDestroy_neat (below_none _)).onMgr.bind fun _ => ?_
      exact fillDump_neat (below_none _) _ _

theorem tbmSurfaceInternalDumpBuffer_neat {h : Option Surface} {type : Bool} :
    NeatAll inner (fun _ => false) (tbmSurfaceInternalDumpBuffer backend me h type) := by
  have hunmap : NeatAll inner (fun _ => false) (onMgr (tbmSurfaceUnmap backend h)) :=
    (tbmSurfaceUnmap_neat (below_none _)).onMgr
  refine .ite (fun _ => (Sorted.access _).bind fun r => ?_) fun _ => Sorted.pure _
  cases r with
  | none => exact Sorted.pure _
  | some r =>
    refine (tbmSurfaceMap_neat (below_none _)).onMgr.bind fun info => ?_
    cases info with
    | none => exact Sorted.pure _
    | some info =>
      refine .ite (fun _ => hunmap) fun _ => ?_
      refine (tbmBoMap_neat (below_none _)).onMgr.bind fun ok => .ite (fun _ => ?_) fun _ => hunmap
      refine (tbmBoUnmap_neat (below_none _)).onMgr.bind fun _ => hunmap.bind fun _ => ?_
      exact .ite (fun _ => Sorted.access _) fun _ => Sorted.pure _

theorem tbmSurfaceInternalDumpShmBuffer_neat {ptr type : Bool} {w h stride : ℤ} :
    NeatAll inner (fun _ => false)
      (tbmSurfaceInternalDumpShmBuffer backend me ptr w h stride type) := by
  refine .ite (fun _ => (Sorted.access _).bind fun r => ?_) fun _ => Sorted.pure _
  cases r with
  | none => exact Sorted.pure _
  | some r =>
    refine .ite (fun _ => Sorted.pure _) fun _ => ?_
    refine (tbmBoMap_neat (below_none _)).onMgr.bind fun ok => ?_
    refine .ite (fun _ => ?_) fun _ => Sorted.pure _
    exact (tbmBoUnmap_neat (below_none _)).onMgr.bind fun _ => Sorted.access _

theorem tbmBufmgrDebugQueueDump_neat {path : Bool} {count onoff : ℤ} :
    NeatAll inner (fun _ => false) (tbmBufmgrDebugQueueDump backend me path count onoff) := by
  refine neatAll_locked (below_none _) (.ite (fun _ => ?_) fun _ => ?_)
  · refine Sorted.bind (tbmSurfaceInternalDumpEnd_neat ?_) fun _ => Sorted.pure _
    cases inner with
    | bufmgr => exact .inl ((below_none .gLock).take (by decide))
    | gLock => exact .inr ⟨rfl, Function.update_self ..⟩
  · refine .ite (fun _ => ?_) fun _ => Sorted.pure _
    exact tbmUtilGetMaxSurfaceSize_neat (Sorted.pure _)

theorem tbmBufmgrDebugDumpAll_neat {path : Bool} :
    NeatAll inner (fun _ => false) (tbmBufmgrDebugDumpAll backend me path) := by
  refine .ite (fun _ => neatAll_locked (below_none _) ?_) fun _ => Sorted.pure _
  exact tbmUtilGetMaxSurfaceSize_neat (Sorted.pure _)

theorem Request.prog_neat (o : Request) : NeatAll inner (fun _ => false) (o.prog backend me) := by
  cases o with
  | op o => exact o.prog_neat.onMgr
  | mapping o => exact o.prog_neat.onMgr.bind fun _ => Sorted.pure _
  | surfaceGetInfo h map =>
    exact (tbmSurfaceInternalGetInfo_neat (below_none _)).onMgr.bind fun _ => Sorted.pure _
  | surfaceUnmap h =>
    exact (tbmSurfaceInternalUnmap_neat (below_none _)).onMgr.bind fun _ => Sorted.pure _
  | surfaceCaptureBuffer h =>
    exact (tbmSurfaceInternalCaptureBuffer_neat (below_none _)).onMgr.bind fun _ => Sorted.pure _
  | debugShow m =>
    exact Sorted.answer.bind fun x =>
      (tbmBufmgrDebugShow_neat (below_none _)).onMgr.bind fun _ => Sorted.pure _
  | debugQueueDump path count onoff =>
    exact tbmBufmgrDebugQueueDump_neat.bind fun _ => Sorted.pure _
  | debugDumpAll path => exact tbmBufmgrDebugDumpAll_neat.bind fun _ => Sorted.pure _
  | dumpStart path w h count =>
    exact tbmSurfaceInternalDumpStart_neat.bind fun _ => Sorted.pure _
  | dumpEnd =>
    exact (tbmSurfaceInternalDumpEnd_neat (.inl (below_none _))).bind fun _ => Sorted.pure _
  | dumpBuffer h type =>
    exact tbmSurfaceInternalDumpBuffer_neat.bind fun _ => Sorted.pure _
  | dumpShmBuffer ptr w h stride type =>
    exact tbmSurfaceInternalDumpShmBuffer_neat.bind fun _ => Sorted.pure _
  | single m f =>
    exact neatAll_locked (below_none _) (Sorted.answer.bind fun x => Sorted.access _)

end Programs

section Schedules

open Runs

abbrev LibConfig (n : ℕ) := Config (Fin n) Mutex Empty Empty Answers Store Request Reply

abbrev LibAction (n : ℕ) := Action (Fin n) Answers Request

/-- One step of a schedule of `n` threads. -/
def dispatch (backend : Backend) {n : ℕ} (a : LibAction n) (c : LibConfig n) :
    Option (Unit × LibConfig n) := c.step (fun t o => o.prog backend t) a

/-- In some schedule whose steps are calm a thread asks for `m'` while it holds `m`. -/
def MayAcquire (inner : Inner) (m m' : Mutex) : Prop :=
  ∃ (n : ℕ) (backend : Backend) (s : Store) (acts : List (LibAction n))
    (log : List (Entry (LibConfig n) (LibAction n) Unit)) (c : LibConfig n) (t : Fin n),
    Permitted (dispatch backend) (Config.Keeps (calmAll inner)) acts (.initial s) ∧
      run (dispatch backend) acts (.initial s) = some (log, c) ∧ c.Acquires t m m'

variable {inner : Inner} {backend : Backend} {n : ℕ} {s : Store} {acts : List (LibAction n)}
  {c : LibConfig n} {log : List (Entry (LibConfig n) (LibAction n) Unit)}

theorem sorted_run
    (hp : Permitted (dispatch backend) (Config.Keeps (calmAll inner)) acts (.initial s))
    (hr : run (dispatch backend) acts (.initial s) = some (log, c)) :
    c.Sorted (Mutex.rank inner) (calmAll inner) := by
  have hstart : (.initial s : LibConfig n).Sorted (Mutex.rank inner) (calmAll inner) := by
    intro t m
    simp [Config.held, Config.initial]
  exact run_safe (fun _ c => c.Sorted (Mutex.rank inner) (calmAll inner)) hstart
    (fun _ _ _ _ _ h hk hs =>
      h.moved (fun _ o => o.prog_neat) hk (Config.moved_of_step hs)) hp hr

/-- In schedules whose steps are calm the mutexes are taken in an order without cycles: nobody asks
for a mutex it holds, and no threads wait for each other in a circle. -/
theorem mutexes_taken_in_order
    (hp : Permitted (dispatch backend) (Config.Keeps (calmAll inner)) acts (.initial s))
    (hr : run (dispatch backend) acts (.initial s) = some (log, c)) :
    (∀ m, ¬Relation.TransGen (MayAcquire inner) m m) ∧
      (∀ t m, c.owner m = some t → ¬(c.thread t).WaitsFor m) ∧
      ∀ t, ¬Relation.TransGen c.WaitsOn t t := by
  have hup : ∀ m m', MayAcquire inner m m' → m.rank inner < m'.rank inner := by
    intro m m' h
    obtain ⟨k, b, s', as, log', d, t, hp', hr', ha⟩ := h
    exact (sorted_run hp' hr').acquires ha
  constructor
  · exact acyclic_of_rank hup
  constructor
  · intro t m ho hw
    have hself : m.rank inner < m.rank inner := (sorted_run hp hr).acquires ⟨ho, hw⟩
    omega
  · exact (sorted_run hp hr).no_circle

/-- Nothing is left that a last `tbm_bufmgr_deinit` or the end of a dump would have to free. -/
def Store.Cleared (s : Store) : Prop := s.mgr.boList = [] ∧ s.mgr.surfList = [] ∧ s.dump = none

instance (s : Store) : Decidable s.Cleared := inferInstanceAs (Decidable (_ ∧ _))

theorem Store.Cleared.calmAll {s : Store} (hs : s.Cleared) {H : Mutex → Bool} {α : Type}
    (p : DProg α) : CalmAll .gLock H p s := by
  obtain ⟨hbos, hsurfs, hdump⟩ := hs
  constructor
  · exact nofun
  · exact fun _ _ _ => hbos
  · exact fun _ _ => hsurfs
  · exact fun _ _ _ _ => hsurfs
  · intro _ _ _ _ _ d hd
    rw [hdump] at hd
    cases hd

/-- A thread makes the manager and gives it back. Then it is about to drop a reference while another
one makes a surface, with a third one behind it. -/
private def queuedUp : List (LibAction 3) :=
  [.call 1 (.op .bufmgrInit), .step 1, .input 1 (.granted 0)] ++ List.replicate 3 (.step 1) ++
    [.call 1 (.op (.bufmgrDeinit (some 0)))] ++ List.replicate 8 (.step 1) ++
    [.call 1 (.op (.boUnref (some 0))), .step 1,
      .call 0 (.op (.surfaceCreateWithFlags 4 4 .c8 0)), .step 0, .step 0, .step 0,
      .input 0 (.granted 7), .step 0, .step 0, .step 0, .step 0, .input 0 (.granted 7), .step 0,
      .call 2 (.op (.surfaceRef (some 0)))]

theorem mutexes_taken_in_order_behind : ∃ log c,
    run (dispatch .plain) queuedUp (.initial ⟨.initial, none⟩) = some (log, c) ∧
      c.Acquires 0 .surface .bufmgr ∧ c.WaitsOn 2 0 ∧ c.WaitsOn 0 1 ∧
        ∀ t, ¬Relation.TransGen c.WaitsOn t t := by
  have hcleared : Permitted (dispatch .plain) (fun c _ => c.data.Cleared) queuedUp
      (.initial ⟨.initial, none⟩) := by decide +kernel
  have hkeeps : Permitted (dispatch .plain) (Config.Keeps (calmAll .gLock)) queuedUp
      (.initial ⟨.initial, none⟩) := hcleared.mono fun c a hc => by
    cases a with
    | step t => exact fun _ _ p _ => hc.calmAll p
    | _ => trivial
  have hrun : ((run (dispatch .plain) queuedUp (.initial ⟨.initial, none⟩)).map fun p =>
      decide ((p.2.owner .surface = some 0 ∧ (p.2.thread 0).WaitsFor .bufmgr) ∧
        p.2.owner .bufmgr = some 1 ∧ (p.2.thread 2).WaitsFor .surface)) = some true := by
    decide +kernel
  obtain ⟨⟨log, c⟩, hr, he⟩ := Option.map_eq_some_iff.mp hrun
  obtain ⟨⟨ho, hw⟩, hb, hs⟩ := of_decide_eq_true he
  have hcircle := (mutexes_taken_in_order hkeeps hr).2.2
  exact ⟨log, c, hr, ⟨ho, hw⟩, ⟨.surface, hs, ho⟩, ⟨.bufmgr, hw, hb⟩, hcircle⟩

/-- A thread makes the manager. -/
private def opened : List (LibAction 2) :=
  [.call 0 (.op .bufmgrInit), .step 0, .input 0 (.granted 0)] ++ List.replicate 3 (.step 0)

/-- It makes a buffer object. -/
private def filled (p : Priv) : List (LibAction 2) :=
  [.call 0 (.op (.boAlloc (some 0) 16 0)), .step 0, .step 0, .input 0 (.granted p)] ++
    List.replicate 5 (.step 0)

/-- Another thread comes to the report on 500 buffer objects, and the first gives the manager
back. -/
private def crossed : List (LibAction 2) :=
  [.call 1 (.op (.boAlloc (some 0) 16 0)), .step 1, .step 1, .input 1 (.granted 500), .step 1,
    .step 1, .call 0 (.op (.bufmgrDeinit (some 0)))] ++ List.replicate 5 (.step 0)

/-- The two wait for each other. -/
theorem alloc_meets_deinit : ∃ log c,
    run (dispatch .plain) (opened ++ (List.range 500).flatMap filled ++ crossed)
      (.initial ⟨.initial, none⟩) = some (log, c) ∧
    c.Acquires 0 .gLock .bufmgr ∧ c.Acquires 1 .bufmgr .gLock ∧
      Relation.TransGen c.WaitsOn 0 0 := by
  have hlast : ((last (dispatch .plain) (opened ++ (List.range 500).flatMap filled ++ crossed)
      (.initial ⟨.initial, none⟩)).map fun c =>
        decide ((c.owner .gLock = some 0 ∧ (c.thread 0).WaitsFor .bufmgr) ∧
          c.owner .bufmgr = some 1 ∧ (c.thread 1).WaitsFor .gLock)) = some true := by
    decide +kernel
  obtain ⟨c, hl, he⟩ := Option.map_eq_some_iff.mp hlast
  obtain ⟨log, hr⟩ := run_of_last hl
  obtain ⟨⟨hg, hwb⟩, hb, hwg⟩ := of_decide_eq_true he
  have h01 : c.WaitsOn 0 1 := ⟨.bufmgr, hwb, hb⟩
  have h10 : c.WaitsOn 1 0 := ⟨.gLock, hwg, hg⟩
  exact ⟨log, c, hr, ⟨hg, hwb⟩, ⟨hb, hwg⟩, (Relation.TransGen.single h01).tail h10⟩

end Schedules

end Tbm.Bufmgr
