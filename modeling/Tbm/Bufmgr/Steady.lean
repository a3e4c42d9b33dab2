import Tbm.Bufmgr.Paths
import Tbm.Core.Triples

/-! Properties of the buffer objects and surfaces that only a creation, an import or a swap can
break. -/
namespace Tbm.Bufmgr

open Prog

variable {backend : Backend} {x : Answers} {P : State → Prop}

theorem upholds_locked {α : Type} {m : Mutex} {p : BProg α} (h : Upholds x P p) :
    Upholds x P (locked m p) := by
  intro s a s' hs he
  rw [exec_locked] at he
  exact h s a s' hs he

theorem upholds_stuck {α : Type} : Upholds x P (stuck : BProg α) := by
  intro s a s' _ he
  simp at he

/-- What the other operations do to the buffer objects and surfaces keeps the property. -/
structure Steady (backend : Backend) (x : Answers) (P : State → Prop) : Prop where
  same : ∀ {s s' : State}, P s → s'.boList = s.boList → s'.bo = s.bo →
    s'.surfList = s.surfList → s'.surface = s.surface → P s'
  init : ∀ {s : State}, P s → P (s.bufmgrInit x).2
  setRefCnt : ∀ {s : State} {b : Bo} {n : ℤ}, P s → P (s.setRefCnt b n)
  boUnref : ∀ {s : State} {b : Bo}, P s → P (s.boUnref backend b)
  setSurfaceRefcnt : ∀ {s : State} {h : Surface} {n : ℤ}, P s → P (s.setSurfaceRefcnt h n)
  destroy : ∀ {s t : State} {h : Surface} {u : Unit}, P s →
    exec x (destroySlots backend h (s.surface h).numBos.toNat 0) s = some (u, t) →
    P { t with surfList := t.surfList.erase h }

namespace Steady

variable (hP : Steady backend x P)
include hP

/-- An access that changes neither buffer objects nor surfaces. -/
theorem access {α : Type} {f : State → Option (α × State)}
    (h : ∀ s a s', f s = some (a, s') → s'.boList = s.boList ∧ s'.bo = s.bo ∧
      s'.surfList = s.surfList ∧ s'.surface = s.surface) : Upholds x P (access f : BProg α) := by
  refine .access fun s a s' hs he => ?_
  obtain ⟨h1, h2, h3, h4⟩ := h s a s' he
  exact hP.same hs h1 h2 h3 h4

theorem tbmBufmgrInit : Upholds x P tbmBufmgrInit := by
  refine upholds_locked (.answer (.access fun s a s' hs he => ?_))
  have he' : s.bufmgrInit x = (a, s') := by simpa using he
  have hi := hP.init hs
  rw [he'] at hi
  exact hi

theorem tbmUtilCheckBoCnt (y : Answers) (m : Option Mgr) :
    Upholds x P (tbmUtilCheckBoCnt y m) := by
  intro s a s' hs he
  obtain ⟨n, rfl⟩ := tbmUtilCheckBoCnt_exec he
  exact hP.same hs rfl rfl rfl rfl

theorem tbmBoRef (b : Option Bo) : Upholds x P (tbmBoRef b) := by
  refine upholds_locked (.access fun s a s' hs he => ?_)
  cases hb : s.boIsValid b with
  | none =>
    obtain ⟨-, rfl⟩ : none = a ∧ s = s' := by simpa [hb] using he
    exact hs
  | some b =>
    obtain ⟨-, rfl⟩ : some b = a ∧ s.setRefCnt b ((s.bo b).refCnt + 1) = s' := by
      simpa [hb] using he
    exact hP.setRefCnt hs

theorem tbmBoUnref (b : Option Bo) : Upholds x P (tbmBoUnref backend b) := by
  refine upholds_locked (.modify fun s hs => ?_)
  cases s.boIsValid b with
  | none => exact hs
  | some b => exact hP.boUnref hs

theorem unrefSlots (l : List (Option Bo)) : Upholds x P (unrefSlots backend l) := by
  induction l with
  | nil => exact .pure _
  | cons b l ih =>
    cases b with
    | none => exact ih
    | some b => exact .bind (hP.tbmBoUnref _) fun _ => ih

theorem deinitSurfaceBufmgr {deinit : Option Mgr → BProg Unit} (hd : ∀ m, Upholds x P (deinit m)) :
    Upholds x P (deinitSurfaceBufmgr deinit) := by
  refine .bind (.read _) fun g => ?_
  cases g with
  | none => exact .pure _
  | some m => exact .bind (hd _) fun _ => .modify fun s hs => hP.same hs rfl rfl rfl rfl

/-- The loop over the slots and the removal from the list are one step. -/
theorem surfaceInternalDestroy {deinit : Option Mgr → BProg Unit}
    (hd : ∀ m, Upholds x P (deinit m)) (h : Surface) :
    Upholds x P (surfaceInternalDestroy backend deinit h) := by
  intro s a s' hs he
  simp only [Bufmgr.surfaceInternalDestroy, exec_bind, exec_read, Option.bind_some,
    exec_access] at he
  obtain ⟨⟨u, t⟩, hslots, he⟩ := Option.bind_eq_some_iff.mp he
  obtain ⟨⟨last, t'⟩, hdel, he⟩ := Option.bind_eq_some_iff.mp he
  obtain ⟨w, -, hw⟩ := Option.bind_eq_some_iff.mp hdel
  obtain ⟨rfl, rfl⟩ : (t.surfList.erase h).isEmpty = last ∧
      { t with surfList := t.surfList.erase h } = t' := by simpa using hw
  have ht := hP.destroy hs hslots
  split_ifs at he
  · exact hP.deinitSurfaceBufmgr hd _ _ _ ht he
  · obtain ⟨-, rfl⟩ : () = a ∧ { t with surfList := t.surfList.erase h } = s' := by simpa using he
    exact ht

theorem dropSurface {deinit : Option Mgr → BProg Unit} (hd : ∀ m, Upholds x P (deinit m))
    (h : Option Surface) : Upholds x P (dropSurface backend deinit h) := by
  refine upholds_locked (.bind (.lookup _) fun h => ?_)
  cases h with
  | none => exact .pure _
  | some h =>
    exact .bind (.read _) fun n => .bind (.modify fun s hs => hP.setSurfaceRefcnt hs) fun _ =>
      .ite (fun _ => hP.surfaceInternalDestroy hd h) fun _ => .pure _

theorem destroyBos (bs : List Bo) : Upholds x P (destroyBos backend bs) := by
  induction bs with
  | nil => exact .pure _
  | cons b bs ih =>
    exact .bind (.modify fun s hs => hP.setRefCnt hs) fun _ => .bind (hP.tbmBoUnref _) fun _ => ih

theorem destroySurfaces (hs : List Surface) : Upholds x P (destroySurfaces backend hs) := by
  induction hs with
  | nil => exact .pure _
  | cons h hs ih => exact .bind (hP.dropSurface (fun _ => upholds_stuck) _) fun _ => ih

theorem tbmBufmgrDeinit (m : Option Mgr) : Upholds x P (tbmBufmgrDeinit backend m) := by
  refine .ite (fun _ => .pure _) fun _ => upholds_locked (.bind (.read _) fun g => ?_)
  refine .ite (fun _ => .pure _) fun _ => .bind (hP.access fun s a s' he => ?_) fun last => ?_
  · obtain ⟨-, -, he⟩ := Option.bind_eq_some_iff.mp he
    obtain ⟨-, rfl⟩ := Prod.mk.inj (Option.some.inj he)
    exact ⟨rfl, rfl, rfl, rfl⟩
  · exact .ite (fun _ => .bind (.read _) fun bos => .bind (hP.destroyBos bos) fun _ =>
      .bind (.read _) fun surfs => .bind (hP.destroySurfaces surfs) fun _ =>
        .modify fun s hs => hP.same hs rfl rfl rfl rfl) fun _ => .pure _

theorem tbmSurfaceInternalUnref (h : Option Surface) :
    Upholds x P (tbmSurfaceInternalUnref backend h) := hP.dropSurface hP.tbmBufmgrDeinit h

theorem tbmSurfaceInternalRef (h : Option Surface) : Upholds x P (tbmSurfaceInternalRef h) := by
  refine upholds_locked (.access fun s a s' hs he => ?_)
  obtain ⟨v, -, he⟩ := Option.bind_eq_some_iff.mp he
  cases v with
  | none =>
    obtain ⟨-, rfl⟩ := Prod.mk.inj (Option.some.inj he)
    exact hs
  | some h =>
    obtain ⟨-, rfl⟩ := Prod.mk.inj (Option.some.inj he)
    exact hP.setSurfaceRefcnt hs

theorem surfaceQueueCreate (queueSize width height format : ℤ) :
    Upholds x P (surfaceQueueCreate queueSize width height format) := by
  have hlink : Upholds x P (Prog.access fun s => do
      s.deref s.surfQueueBufmgr
      some s.linkQueue : BProg Queue) := by
    refine hP.access fun s a s' he => ?_
    obtain ⟨-, -, he⟩ := Option.bind_eq_some_iff.mp he
    obtain ⟨-, rfl⟩ := Prod.mk.inj (Option.some.inj he)
    exact ⟨rfl, rfl, rfl, rfl⟩
  refine .ite (fun _ => upholds_locked (.answer (.ite (fun _ => ?_) fun _ => .pure _)))
    fun _ => .pure _
  refine .bind (.bind (.read _) fun g => ?_) fun q => .pure _
  cases g with
  | some m => exact hlink
  | none =>
    exact .bind hP.tbmBufmgrInit fun m =>
      .bind (.modify fun s hs => hP.same hs rfl rfl rfl rfl) fun _ => hlink

omit hP in
theorem withQueue {k : Queue → BProg Unit} (hk : ∀ q, Upholds x P (k q)) (q : Option Queue) :
    Upholds x P (withQueue q k) := by
  refine upholds_locked (.bind (.lookup _) fun q => ?_)
  cases q with
  | none => exact .pure _
  | some q => exact hk q

theorem surfaceQueueAttach (q : Queue) (h : Surface) : Upholds x P (surfaceQueueAttach q h) :=
  .answer (.ite (fun _ => .bind (hP.tbmSurfaceInternalRef _) fun _ =>
    .modify fun _ hs => hP.same hs rfl rfl rfl rfl) fun _ => .pure _)

theorem needAttachCb (h : Surface) (q : Queue) : Upholds x P (needAttachCb backend h q) :=
  .bind (hP.tbmSurfaceInternalRef _) fun _ => .bind (hP.surfaceQueueAttach q h) fun _ =>
    hP.tbmSurfaceInternalUnref _

theorem queueDeleteNode (h : Surface) (q : Queue) :
    Upholds x P (queueDeleteNode backend h q) := by
  refine .bind (.read _) fun l => .ite (fun _ => ?_) fun _ => .pure _
  exact .bind (hP.tbmSurfaceInternalUnref _) fun _ =>
    .modify fun _ hs => hP.same hs rfl rfl rfl rfl

theorem deleteNodes (hs : List Surface) : Upholds x P (deleteNodes backend hs) := by
  induction hs with
  | nil => exact .pure _
  | cons h hs ih => exact .bind (hP.tbmSurfaceInternalUnref _) fun _ => ih

theorem tbmSurfaceQueueDestroy (q : Option Queue) :
    Upholds x P (tbmSurfaceQueueDestroy backend q) := by
  refine withQueue (fun q => ?_) q
  refine .bind (.modify fun s hs => hP.same hs rfl rfl rfl rfl) fun _ => .bind (.read _) fun hs =>
    .bind (hP.deleteNodes hs) fun _ => .bind (hP.access fun s a s' he => ?_) fun last =>
      .ite (fun _ => .bind (.read _) fun g => ?_) fun _ => .pure _
  · obtain ⟨-, -, he⟩ := Option.bind_eq_some_iff.mp he
    obtain ⟨-, rfl⟩ := Prod.mk.inj (Option.some.inj he)
    exact ⟨rfl, rfl, rfl, rfl⟩
  · cases g with
    | none => exact .pure _
    | some m =>
      exact .bind (hP.tbmBufmgrDeinit _) fun _ =>
        .modify fun s hs => hP.same hs rfl rfl rfl rfl

end Steady

end Tbm.Bufmgr
