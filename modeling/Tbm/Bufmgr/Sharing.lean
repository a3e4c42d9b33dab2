import Tbm.Bufmgr.Show

/-! Buffers that are exported and imported again. The backend decides what a key or a descriptor
stands for. -/
namespace Tbm.Bufmgr

open Prog Runs

/-- What the functions that read a field of a buffer object have in common. -/
def boField {κ : Type} (b : Option Bo) (no : κ) (f : State → Bo → κ) : BProg κ :=
  locked .bufmgr do
    read fun s => (s.boIsValid b).elim no (f s)

/-- The two exports; the entry of the backend may be missing. -/
def boExport {κ : Type} (no : κ) (entry : Option (Option Priv → κ)) (b : Option Bo) : BProg κ :=
  boField b no fun s b => entry.elim no fun f => f (s.bo b).priv

def tbmBoExport (entry : Option (Option Priv → UInt32)) (b : Option Bo) : BProg UInt32 :=
  boExport 0 entry b

def tbmBoExportFd (entry : Option (Option Priv → ℤ)) (b : Option Bo) : BProg ℤ :=
  boExport (-1) entry b

def tbmBoLocked (b : Option Bo) : BProg Bool :=
  boField b false fun s b =>
    if s.lockType = .tryNever then false else decide (0 < (s.bo b).lockCnt)

/-- `bo_cnt` asks for a report. -/
def State.Reports (s : State) : Prop := 500 ≤ s.boCnt ∧ s.boCnt % 20 = 0 ∧ s.lastChkBoCnt < s.boCnt

/-- The debug data are those of the surfaces of the state, and a report on them can be printed. -/
structure Answers.Prints (x : Answers) (s : State) : Prop where
  keyed : x.debug.Keyed
  surfList : s.surfList = x.debug.surfList
  showable : x.debug.Showable x.report s

/-- What the backend gives out for a buffer, and what it takes it for. -/
structure Exchange (κ : Type) where
  give : Option Priv → κ
  take : κ → Option Priv

/-- What has been given out for a buffer leads back to it, unless `no` says that there is nothing to
give. -/
def Exchange.Honest {κ : Type} (K : Exchange κ) (no : κ → Prop) : Prop :=
  ∀ p, ¬no (K.give (some p)) → K.take (K.give (some p)) = some p

section Sharing

variable {s : State} {L : Ledger} {b : Bo} {p : Priv} {x : Answers}

theorem Life.boIsValid_live (hl : Life s L) (hb : b ∈ s.boList) :
    s.boIsValid (some b) = some b := by
  rw [hl.boIsValid b, if_pos hb]

theorem boField_exec {κ : Type} (hv : s.boIsValid (some b) = some b) (no : κ) (f : State → Bo → κ) :
    exec x (boField (some b) no f) s = some (f s b, s) := by
  simp [boField, hv]

theorem boExport_exec {κ : Type} (hl : Life s L) (hb : b ∈ s.boList) (no : κ)
    (give : Option Priv → κ) :
    exec x (boExport no (some give) (some b)) s = some (give (s.bo b).priv, s) :=
  boField_exec (hl.boIsValid_live hb) _ _

/-- An answer that does not depend on the references. -/
theorem boField_setRefCnt {κ : Type} (hl : Life s L) (hb : b ∈ s.boList) (n : ℤ) (no : κ)
    {f : State → Bo → κ} (hf : f (s.setRefCnt b n) b = f s b) :
    exec x (boField (some b) no f) (s.setRefCnt b n) = some (f s b, s.setRefCnt b n) := by
  have hv : (s.setRefCnt b n).boIsValid (some b) = some b := hl.boIsValid_live hb
  rw [boField_exec hv, hf]

/-- The counter is looked at without harm where a report that is due can be printed. -/
theorem tbmUtilCheckBoCnt_defined {y : Answers} (hs : s.shown) (hg : s.gBufMgr.isSome)
    (hy : s.Reports → y.Prints s) :
    ∃ n, exec x (tbmUtilCheckBoCnt y s.gBufMgr) s = some ((), { s with lastChkBoCnt := n }) := by
  simp only [tbmUtilCheckBoCnt, exec_bind, exec_read, Option.bind_some]
  split_ifs with hc
  · obtain ⟨hkeyed, hsurf, hroom⟩ := hy hc
    have hreport := tbmBufmgrDebugShow_eq (x := y.report) hkeyed hsurf hs hg
    rw [if_pos hroom] at hreport
    refine ⟨s.boCnt, ?_⟩
    simp only [tbmBufmgrDebugShow, exec_bind, exec_locked, exec_access, hreport, Option.map_some,
      Option.bind_some, exec_modify]
  · exact ⟨s.lastChkBoCnt, rfl⟩

/-- An import that is given the pointer of a live buffer object. -/
theorem boImport_live (backend : Backend) (hd : Distinct s) (hs : s.shown) (hg : s.gBufMgr.isSome)
    (hy : s.Reports → x.Prints s) (hb : b ∈ s.boList) (hp : (s.bo b).priv = some p)
    (hx : x.bo 0 = ⟨true, some p⟩) : ∃ n,
      exec x (boImport backend true s.gBufMgr) s = some (some b,
        State.setRefCnt { s with lastChkBoCnt := n } b ((s.bo b).refCnt + 1)) := by
  obtain ⟨n, hn⟩ := tbmUtilCheckBoCnt_defined (x := x) hs hg hy
  have hfind : s.boList.find? (fun c => decide ((s.bo c).priv = some p)) = some b := by
    have hsome : (s.boList.find? fun c => decide ((s.bo c).priv = some p)).isSome :=
      List.find?_isSome.mpr ⟨b, hb, decide_eq_true hp⟩
    obtain ⟨c, hc⟩ := Option.isSome_iff_exists.mp hsome
    have hpc : (s.bo c).priv = some p := by simpa using List.find?_some hc
    obtain rfl : c = b := hd.inj c (List.mem_of_find?_eq_some hc) b hb (hpc.trans hp.symm)
    exact hc
  refine ⟨n, ?_⟩
  simp only [boImport, exec_locked, exec_bind, exec_read, Option.bind_some, hg, and_self, if_true,
    exec_answer, hn, hx, exec_access, State.boImport, hfind]

theorem setRefCnt_setRefCnt (n : ℤ) :
    (s.setRefCnt b n).setRefCnt b (s.bo b).refCnt = s := by
  simp [State.setRefCnt, State.setBo]

theorem tbmBoUnref_live (backend : Backend) (hl : Life s L) (hb : b ∈ s.boList)
    (hpos : 0 < (s.bo b).refCnt) :
    exec x (tbmBoUnref backend (some b)) (s.setRefCnt b ((s.bo b).refCnt + 1)) = some ((), s) := by
  have hv : (s.setRefCnt b ((s.bo b).refCnt + 1)).boIsValid (some b) = some b :=
    hl.boIsValid_live hb
  have hcnt : ((s.setRefCnt b ((s.bo b).refCnt + 1)).bo b).refCnt = (s.bo b).refCnt + 1 := by
    simp [State.setRefCnt, State.setBo]
  have hback : (s.setRefCnt b ((s.bo b).refCnt + 1)).boUnref backend b = s := by
    have hne : ¬(s.bo b).refCnt + 1 ≤ 0 := by omega
    have hsub : (s.bo b).refCnt + 1 - 1 = (s.bo b).refCnt := by omega
    rw [State.boUnref, hcnt, if_neg hne, hsub, setRefCnt_setRefCnt]
    exact if_neg (by omega)
  simp [tbmBoUnref, hv, hback]

end Sharing

section Run

variable {backend : Backend} {w : World} {turns : List Turn}
  {log : List (Entry World Turn Reply)}

/-- The two imports. -/
def Op.Imports (backend : Backend) (m : Option Mgr) (op : Op) : Prop :=
  op = .boImport m ∧ backend.boImport ∨ op = .boImportFd m ∧ backend.boImportFd

/-- Wherever a run has come to, with a report that can be printed if one is due, a live buffer
object that is exported and imported again, by key or by descriptor, comes back as itself with one
more reference, can be exported and is locked as before, and is left as it was when the reference is
dropped. -/
theorem export_import
    (hp : Permitted (World.step backend) (fun w t => w.inited t ∧ w.owns t ∧ w.gapless t) turns
      .initial)
    (hr : run (World.step backend) turns .initial = some (log, w))
    (hfresh : w.state.freshAllocs = true) {b : Bo} (hb : b ∈ w.state.boList) {κ : Type}
    {K : Exchange κ} {no : κ → Prop} (hK : K.Honest no) {fail key : κ} {x : Answers}
    (hkey : exec x (boExport fail (some K.give) (some b)) w.state = some (key, w.state))
    (hno : ¬no key) (hx : x.bo 0 = ⟨true, K.take key⟩)
    (hy : w.state.Reports → x.Prints w.state) {op : Op}
    (hop : op.Imports backend w.state.gBufMgr) : ∃ w' n,
      w.step backend ⟨op, x⟩ = some (.bo (some b), w') ∧
      (w'.state.bo b).refCnt = (w.state.bo b).refCnt + 1 ∧ w'.state.boList = w.state.boList ∧
      exec x (boExport fail (some K.give) (some b)) w'.state = some (key, w'.state) ∧
      (∀ locked, exec x (tbmBoLocked (some b)) w.state = some (locked, w.state) →
        exec x (tbmBoLocked (some b)) w'.state = some (locked, w'.state)) ∧
      w'.step backend ⟨.boUnref (some b), x⟩ =
        some (.done, { w with state := { w.state with lastChkBoCnt := n } }) := by
  obtain ⟨o, hl, hbooks, hshown, hd⟩ := run_shown hp hr
  have hd := hd hfresh
  obtain ⟨p, hpriv⟩ := Option.isSome_iff_exists.mp (hd.some b hb)
  have hgive := boExport_exec (x := x) hl hb fail K.give
  rw [hkey, hpriv, Option.some.injEq, Prod.mk.injEq] at hgive
  obtain ⟨rfl, -⟩ := hgive
  rw [hK p hno] at hx
  have hg : w.state.gBufMgr.isSome := by
    by_contra hnone
    rw [hl.bos (by simpa using hnone)] at hb
    cases hb
  obtain ⟨n, himp⟩ := boImport_live backend hd hshown hg hy hb hpriv hx
  have hpos : 0 < (w.state.bo b).refCnt := by
    have hrefs := hbooks.refs b hb
    have howned := hbooks.owned b hb
    omega
  let s := { w.state with lastChkBoCnt := n }
  have hl' : Life s (w.ledger o) := { hl with }
  have hpriv' : (s.bo b).priv = some p := hpriv
  have hunref := tbmBoUnref_live (s := s) (x := x) backend hl' hb hpos
  have hstep : w.step backend ⟨op, x⟩ = some (.bo (some b),
      ⟨s.setRefCnt b ((s.bo b).refCnt + 1), Function.update w.held b (w.held b + 1), w.inits⟩) := by
    rcases hop with ⟨rfl, hprov⟩ | ⟨rfl, hprov⟩
    · simp [World.step, Op.prog, tbmBoImport, hprov, himp, World.settle, s]
    · simp [World.step, Op.prog, tbmBoImportFd, hprov, himp, World.settle, s]
  refine ⟨_, n, hstep, by simp [State.setRefCnt, State.setBo, s], rfl, ?_, fun locked h => ?_, ?_⟩
  · rw [boExport, boField_setRefCnt hl' hb _ _ (by simp [State.setRefCnt, State.setBo]), hpriv']
    rfl
  · have hold := boField_exec (x := x) (hl.boIsValid_live hb) false fun s b =>
      if s.lockType = .tryNever then false else decide (0 < (s.bo b).lockCnt)
    obtain ⟨hval, -⟩ := Prod.mk.inj (Option.some.inj (hold.symm.trans h))
    rw [tbmBoLocked, boField_setRefCnt hl' hb _ _ (by simp [State.setRefCnt, State.setBo])]
    exact congrArg (fun v => some (v, _)) hval
  · have hheld : Function.update (Function.update w.held b (w.held b + 1)) b
        (Function.update w.held b (w.held b + 1) b - 1) = w.held := by simp
    simp only [World.step, Op.prog, exec_bind, hunref, Option.bind_some, exec_pure, World.settle,
      hheld, Option.bind_eq_bind]
    rfl

/-- Descriptors are the private pointers. -/
private def plainFds : Exchange ℤ where
  give := fun p => p.elim (-1) fun p => (p : ℤ)
  take := fun fd => some fd.toNat

private theorem plainFds_honest : plainFds.Honest (· < 0) := by
  intro p _
  simp [plainFds]

/-- Two buffers have traded places. -/
private def swapped : List Turn :=
  [⟨.bufmgrInit, .granted 7⟩, ⟨.boAlloc (some 0) 16 0, .granted 7⟩,
    ⟨.boAlloc (some 0) 16 0, .granted 8⟩, ⟨.boSwap (some 0) (some 1), .granted 7⟩]

theorem export_import_swapped : ∃ log w, run (World.step .plain) swapped .initial = some (log, w) ∧
    ∃ w' n, w.step .plain ⟨.boImportFd (some 0), .granted 8⟩ = some (.bo (some 0), w') ∧
      (w'.state.bo 0).refCnt = (w.state.bo 0).refCnt + 1 ∧ w'.state.boList = w.state.boList ∧
      exec (.granted 8) (tbmBoExportFd (some plainFds.give) (some 0)) w'.state =
        some (8, w'.state) ∧
      (∀ locked, exec (.granted 8) (tbmBoLocked (some 0)) w.state = some (locked, w.state) →
        exec (.granted 8) (tbmBoLocked (some 0)) w'.state = some (locked, w'.state)) ∧
      w'.step .plain ⟨.boUnref (some 0), .granted 8⟩ =
        some (.done, { w with state := { w.state with lastChkBoCnt := n } }) := by
  have hrun : ((run (World.step .plain) swapped .initial).map fun r =>
      decide (r.2.state.boList = [1, 0] ∧ r.2.state.freshAllocs ∧ r.2.state.gBufMgr = some 0 ∧
        (r.2.state.bo 0).priv = some 8 ∧ r.2.state.surfList = [])) = some true := by
    decide +kernel
  obtain ⟨⟨log, w⟩, hr, hw⟩ := Option.map_eq_some_iff.mp hrun
  simp only [decide_eq_true_eq] at hw
  obtain ⟨hlist, hfresh, hg, hpriv, hsurf⟩ := hw
  have hprints : (Answers.granted 8).Prints w.state :=
    ⟨initial_keyed, hsurf, by decide +kernel, by simp [hsurf], by simp [hsurf]⟩
  have hkey : exec (.granted 8) (boExport (-1) (some plainFds.give) (some 0)) w.state =
      some (8, w.state) := by
    simp [boExport, boField, State.boIsValid, Option.filter, hlist, hg, hpriv, plainFds]
  have hback := export_import (by decide +kernel) hr hfresh (by simp [hlist]) plainFds_honest hkey
    (by decide) rfl (fun _ => hprints) (.inr ⟨congrArg Op.boImportFd hg.symm, rfl⟩)
  exact ⟨log, w, hr, hback⟩

end Run

end Tbm.Bufmgr
