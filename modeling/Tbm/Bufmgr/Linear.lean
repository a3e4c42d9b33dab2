import Tbm.Core.Linear
import Tbm.Bufmgr.Buffers
import Tbm.Bufmgr.Handles
import Tbm.Bufmgr.Locks

/-! The calls of any number of threads on buffer objects. Each holds the mutex of the manager from
its start to its end, so the references are accounted for in every schedule. -/
namespace Tbm.Bufmgr

open Prog Runs Contract

/-- The calls that make, share and drop buffer objects. -/
def Op.OnBo : Op → Prop
  | .boAlloc _ _ _ | .boImport _ | .boImportFd _ | .boRef _ | .boUnref _ | .boSwap _ _ => True
  | _ => False

instance : DecidablePred Op.OnBo
  | .boAlloc _ _ _ | .boImport _ | .boImportFd _ | .boRef _ | .boUnref _ | .boSwap _ _ =>
    isTrue trivial
  | .bufmgrInit | .bufmgrDeinit _ | .surfaceCreateWithFlags _ _ _ _ | .surfaceCreateWithBos _ _ _
  | .surfaceRef _ | .surfaceUnref _ | .surfaceDestroy _ | .querySupportedFormats
  | .queueCreate _ _ _ _ | .queueSequenceCreate _ _ _ _ | .queueAttach _ _ _ _ _
  | .queueAttachCb _ _ | .queueDetach _ _ | .queueDestroy _ => isFalse id

/-- A call takes effect at once, whatever it is answered. -/
def boContract (backend : Backend) : Contract Answers State Op Reply where
  inv _ := True
  calls := Op.OnBo
  enters _ _ := True
  answers _ _ _ := True
  skips _ _ _ := False
  commits op s r s' := op.OnBo ∧ ∃ x, exec x (op.prog backend) s = some (r, s')
  safe := False

section Sections

variable {backend : Backend} {op : Op} {b : Bool} {s₀ s : State} {A : Answers → Prop}
  {B : State → Answers → Prop} {f : Unit → BProg Reply} {L : Contract Answers State Op Reply}

@[simp] theorem closes_unlockGLock : L.Closes .bufmgr op s₀ A b (mutexUnlock .gLock >>= f) s ↔
    L.Closes .bufmgr op s₀ A b (f ()) s := closes_unlock (by decide)

/-- The report on the buffer objects only takes another mutex. -/
theorem closes_checkBoCnt {y : Answers} {m : Option Mgr}
    (h : ∀ s, L.Closes .bufmgr op s₀ A b (f ()) s) :
    L.Closes .bufmgr op s₀ A b (tbmUtilCheckBoCnt y m >>= f) s := by
  unfold tbmUtilCheckBoCnt tbmBufmgrDebugShow locked
  simp [closes_access, h]

theorem boImport_locked {provided : Bool} {m : Option Mgr} {g : Option Bo → Reply} :
    L.Locked .bufmgr op (fun _ _ => True)
      (boImport backend provided m >>= fun r => pure (g r)) := by
  unfold boImport locked
  simp only [bind_bind, pure_then, locked_lock, closes_read, closes_ite_bind, closes_answer,
    true_and, and_imp, not_and, Bool.not_eq_true, closes_unlock_self, quiet_pure, sections_pure,
    reduceCtorEq, and_false, or_false, implies_true, and_true]
  intro s _ _ _ _ _ x _
  apply closes_checkBoCnt
  intro t
  cases (if (x.bo 0).calloc then (x.bo 0).priv else none) <;> simp [closes_access]

theorem prog_locked (h : op.OnBo) : L.Locked .bufmgr op (fun _ _ => True) (op.prog backend) := by
  cases op with
  | boAlloc m size flags =>
    unfold Op.prog tbmBoAlloc locked
    simp only [bind_bind, pure_then, locked_lock, closes_read, closes_ite_bind, closes_answer,
      Bool.not_eq_true, closes_unlock_self, quiet_pure, sections_pure, reduceCtorEq, and_false,
      or_false, implies_true, and_true, true_and, and_imp, not_and, not_lt]
    intro s _ _ _ _ _ x _ _
    apply closes_checkBoCnt
    intro t
    cases (x.bo 0).priv <;> simp [closes_access]
  | boImport m => exact boImport_locked
  | boImportFd m => exact boImport_locked
  | boRef b =>
    unfold Op.prog tbmBoRef locked
    simp [closes_access]
  | boUnref b =>
    unfold Op.prog tbmBoUnref locked
    simp
  | boSwap b c =>
    unfold Op.prog tbmBoSwap locked
    simp [closes_access]
  | _ => exact h.elim

theorem prog_sections (h : op.OnBo) :
    (boContract backend).Sections .bufmgr op (op.prog backend) .before := by
  refine (prog_locked h).sections (fun _ => ⟨.granted 0, trivial⟩) ?_ fun hs => hs.elim
  intro s x r s' _ _ _ he
  exact ⟨trivial, h, x, he⟩

end Sections

section Accounts

variable {backend : Backend} {n : ℕ} {s s' : State} {x : Answers} {op : Op} {r : Reply} {b : Bo}

theorem boUnref_gBufMgr (s : State) (b : Bo) : (s.boUnref backend b).gBufMgr = s.gBufMgr := by
  unfold State.boUnref
  split_ifs
  · rfl
  · obtain ⟨bo, unlocks, -, he⟩ := boFree_eq backend (s.setRefCnt b ((s.bo b).refCnt - 1)) b
    simp only
    split_ifs
    · rw [he]
      rfl
    · rfl

/-- A call that drops a reference or swaps two buffers returns no buffer object. -/
def Op.Returns (op : Op) (r : Reply) : Prop :=
  match op with
  | .boUnref _ => r = .done
  | .boSwap _ _ => ∃ ok, r = .flag ok
  | _ => ∃ v, r = .bo v

theorem exec_onBo (h : op.OnBo) (he : exec x (op.prog backend) s = some (r, s')) :
    s'.gBufMgr = s.gBufMgr ∧ op.Returns r := by
  cases op with
  | boAlloc m size flags =>
    obtain ⟨v, hv, rfl⟩ := exec_return he
    refine ⟨?_, v, rfl⟩
    obtain ⟨k, hk⟩ := tbmBoAlloc_exec hv
    cases v with
    | none =>
      rw [hk]
    | some b =>
      obtain ⟨-, -, -, -, p, -, rfl⟩ := hk
      rfl
  | boImport m | boImportFd m =>
    obtain ⟨v, hv, rfl⟩ := exec_return he
    refine ⟨?_, v, rfl⟩
    obtain ⟨k, hk⟩ := boImport_exec hv
    split at hk
    · have hs : s' = _ := congrArg Prod.snd hk.2
      rw [hs]
      unfold State.boImport
      split <;> rfl
    · rw [hk.2]
  | boRef b =>
    obtain ⟨v, hv, rfl⟩ := exec_return he
    refine ⟨?_, v, rfl⟩
    simp only [tbmBoRef, exec_locked, exec_access, Option.some.injEq] at hv
    have hs : _ = s' := congrArg Prod.snd hv
    rw [← hs]
    split <;> rfl
  | boUnref b =>
    obtain ⟨v, hv, rfl⟩ := exec_return he
    refine ⟨?_, rfl⟩
    simp only [tbmBoUnref, exec_locked, exec_modify, Option.some.injEq, Prod.mk.injEq] at hv
    rw [← hv.2]
    split
    · exact boUnref_gBufMgr _ _
    · rfl
  | boSwap b c =>
    obtain ⟨v, hv, rfl⟩ := exec_return he
    refine ⟨?_, v, rfl⟩
    simp only [tbmBoSwap, exec_locked, exec_bind, exec_answer, Option.bind_some, exec_access,
      Option.some.injEq] at hv
    have hs : _ = s' := congrArg Prod.snd hv
    rw [← hs]
    split
    · split_ifs <;> rfl
    · rfl
  | _ => exact h.elim

/-- The references of a call on `b`: one it has been passed and has not dropped yet, or one it is
about to return. -/
def callRefs (b : Bo) : Stage Op Reply → ℕ
  | .called (.boUnref (some c)) | .done _ (.bo (some c)) => if c = b then 1 else 0
  | _ => 0

variable {T : Type}

/-- What the clients see changes the references they own. -/
def settleSeen (held : Bo → ℕ) : Happening T Op Reply → Bo → ℕ
  | .call _ (.boUnref (some b)) => Function.update held b (held b - 1)
  | .ret _ _ (.bo (some b)) => Function.update held b (held b + 1)
  | _ => held

def dropped : Happening T Op Reply → Option Bo
  | .call _ (.boUnref b) => b
  | _ => none

/-- The clients drop only references they own. -/
def OwnsSeen (held : Bo → ℕ) (e : Happening T Op Reply) : Prop := ∀ b ∈ dropped e, 0 < held b

def Owning (held : Bo → ℕ) : List (Happening T Op Reply) → Prop
  | [] => True
  | e :: l => OwnsSeen held e ∧ Owning (settleSeen held e) l

/-- The references the clients own after what they have seen. -/
def ownedAfter (held : Bo → ℕ) (l : List (Happening T Op Reply)) : Bo → ℕ := l.foldl settleSeen held

theorem Owning.concat {held : Bo → ℕ} {l : List (Happening T Op Reply)}
    {e : Happening T Op Reply} (h : Owning held (l ++ [e])) :
    Owning held l ∧ OwnsSeen (ownedAfter held l) e := by
  induction l generalizing held with
  | nil => exact ⟨trivial, h.1⟩
  | cons d l ih =>
    obtain ⟨hd, hl⟩ := h
    obtain ⟨hl, he⟩ := ih hl
    exact ⟨⟨hd, hl⟩, he⟩

attribute [ext] World

/-- The buffer objects with all references that no slot holds. -/
def worldOf (o : Object (Fin n) State Op Reply) (held : Bo → ℕ) (inits : List Mgr) : World where
  state := o.data
  held b := held b + ∑ t, callRefs b (o.stage t)
  inits := inits

variable {o : Object (Fin n) State Op Reply} {held : Bo → ℕ} {inits : List Mgr} {t : Fin n}
  {st : Stage Op Reply}

theorem callRefs_setStage (c : Bo) (st : Stage Op Reply) :
    ∑ u, callRefs c ((o.setStage t st).stage u) + callRefs c (o.stage t) =
      ∑ u, callRefs c (o.stage u) + callRefs c st := by
  have h := sum_change (f := fun u => callRefs c ((o.setStage t st).stage u))
    (g := fun u => callRefs c (o.stage u)) (t := t) fun u hu => by
      rw [Object.setStage_of_ne _ _ hu]
  rwa [Object.setStage_self] at h

/-- A reference that a call is passed stays accounted for. -/
theorem worldOf_call (ht : o.stage t = .idle) (h : OwnsSeen held (.call t op)) :
    worldOf (o.setStage t (.called op)) (settleSeen held (.call t op)) inits =
      worldOf o held inits := by
  refine World.ext rfl (funext fun c => ?_) rfl
  have hs := callRefs_setStage (o := o) (t := t) c (.called op)
  rw [ht] at hs
  cases op with
  | boUnref v =>
    cases v with
    | none => simpa [worldOf, settleSeen, callRefs] using hs
    | some b =>
      have hpos : 0 < held b := h b rfl
      by_cases e : c = b
      · subst e
        simp only [callRefs, add_zero, ↓reduceIte, worldOf, settleSeen,
          Function.update_self] at hs ⊢
        omega
      · simpa [worldOf, settleSeen, callRefs, e, Ne.symm e] using hs
  | _ => simpa [worldOf, settleSeen, callRefs] using hs

theorem worldOf_ret (ht : o.stage t = .done op r) :
    worldOf (o.setStage t .idle) (settleSeen held (.ret t op r)) inits = worldOf o held inits := by
  refine World.ext rfl (funext fun c => ?_) rfl
  have hs := callRefs_setStage (o := o) (t := t) c .idle
  rw [ht] at hs
  cases r with
  | bo v =>
    cases v with
    | none => simpa [worldOf, settleSeen, callRefs] using hs
    | some b =>
      by_cases e : c = b
      · subst e
        simp only [callRefs, ↓reduceIte, add_zero, worldOf, settleSeen,
          Function.update_self] at hs ⊢
        omega
      · simpa [worldOf, settleSeen, callRefs, e, Ne.symm e] using hs
  | _ => simpa [worldOf, settleSeen, callRefs] using hs

/-- Where a call takes effect the accounts change as in a run of calls. -/
theorem worldOf_commit (ht : o.stage t = .called op) (h : op.OnBo)
    (he : exec x (op.prog backend) o.data = some (r, s')) :
    worldOf ({ o with data := s' }.setStage t (.done op r)) held inits =
      (worldOf o held inits).settle op r s' := by
  have hr := (exec_onBo h he).2
  have hs (c : Bo) := callRefs_setStage (o := { o with data := s' }) (t := t) c (.done op r)
  simp only [ht] at hs
  cases op with
  | boUnref v =>
    obtain rfl : r = .done := hr
    refine World.ext rfl (funext fun c => ?_) rfl
    have hc := hs c
    cases v with
    | none => simpa [worldOf, World.settle, callRefs] using hc
    | some b =>
      by_cases e : c = b
      · subst e
        simp only [callRefs, ↓reduceIte, add_zero, worldOf, World.settle,
          Function.update_self] at hc ⊢
        omega
      · simpa [worldOf, World.settle, callRefs, e, Ne.symm e] using hc
  | boSwap v w =>
    obtain ⟨ok, rfl⟩ := hr
    refine World.ext rfl (funext fun c => ?_) rfl
    simpa [worldOf, World.settle, callRefs] using hs c
  | boAlloc | boImport | boImportFd | boRef =>
    obtain ⟨v, rfl⟩ := hr
    refine World.ext rfl (funext fun c => ?_) rfl
    have hc := hs c
    cases v with
    | none => simpa [worldOf, World.settle, callRefs] using hc
    | some b =>
      by_cases e : c = b
      · subst e
        simp only [callRefs, add_zero, ↓reduceIte, worldOf, World.settle,
          Function.update_self] at hc ⊢
        omega
      · simpa [worldOf, World.settle, callRefs, e, Ne.symm e] using hc
  | _ => exact h.elim

/-- The references are in order, and so are the private pointers if allocations return new ones. -/
structure Reconciled (w : World) : Prop where
  ordered : ∃ a, Ordered w a
  distinct : w.state.freshAllocs = true → Distinct w.state

theorem reconciled_initial : Reconciled .initial where
  ordered := ⟨false, ordered_initial⟩
  distinct _ := ⟨by simp [World.initial, State.initial], by simp [World.initial, State.initial]⟩

theorem Reconciled.step {w w' : World} {u : Turn} (h : Reconciled w) (hi : w.inited u = true)
    (ho : w.owns u = true) (hs : w.step backend u = some (r, w'))
    (hm : w.state.gBufMgr.isSome → w'.state.gBufMgr = w.state.gBufMgr) : Reconciled w' := by
  obtain ⟨a, ha⟩ := h.ordered
  refine ⟨(ha.step hi ho hs hm).1, fun hf => ?_⟩
  obtain ⟨a', -, hmoves, -⟩ := step_moves (A := ⟨True, True, True⟩) ha.life hi (.inl trivial)
    (fun _ => trivial) (.inl trivial) hs
  obtain ⟨-, hback⟩ := hmoves.keep
    (P := fun s _ => s.freshAllocs = true →
      w.state.freshAllocs = true ∧ (Distinct w.state → Distinct s))
    (fun hl hmv hP hf => by
      obtain ⟨hf', hd⟩ := hmv.distinct hl hf
      exact ⟨(hP hf').1, fun h => hd ((hP hf').2 h)⟩) ha.life (fun h => ⟨h, id⟩)
  obtain ⟨hf', hd⟩ := hback hf
  exact hd (h.distinct hf')

theorem Reconciled.run {turns : List Turn} {log : List (Entry World Turn Reply)} {w : World}
    (hp : Permitted (World.step backend) (fun w t => w.inited t ∧ w.owns t) turns .initial)
    (hr : run (World.step backend) turns .initial = some (log, w))
    (hm : ∀ e ∈ log, e.before.state.gBufMgr.isSome →
      e.after.state.gBufMgr = e.before.state.gBufMgr) : Reconciled w :=
  run_safe (fun log w => (∀ e ∈ log, e.before.state.gBufMgr.isSome →
      e.after.state.gBufMgr = e.before.state.gBufMgr) → Reconciled w)
    (fun _ => reconciled_initial) (by
      intro log w t r w' ih hok hs hm
      have hw := ih fun e he => hm e (List.mem_append_left _ he)
      exact hw.step hok.1 hok.2 hs (hm ⟨w, t, r, w'⟩ (by simp))) hp hr hm

/-- The call that takes effect owns what it drops. -/
theorem owns_called (ht : o.stage t = .called op) :
    (worldOf o held inits).owns ⟨op, x⟩ = true := by
  cases op with
  | boUnref v =>
    cases v with
    | none => rfl
    | some b =>
      have hle := Finset.single_le_sum (f := fun u => callRefs b (o.stage u))
        (fun _ _ => Nat.zero_le _) (Finset.mem_univ t)
      have hone : callRefs b (o.stage t) = 1 := by simp [ht, callRefs]
      have hpos : 0 < (worldOf o held inits).held b := by
        rw [hone] at hle
        exact Nat.lt_of_lt_of_le (Nat.zero_lt_of_lt hle) (Nat.le_add_left _ _)
      exact decide_eq_true hpos
  | _ => rfl

/-- Calls that take effect at once keep the accounts. -/
theorem Reconciled.steps {w : World} (hw : Reconciled w) {l : List (Happening (Fin n) Op Reply)}
    (h : (Object.initial w.state).Steps (boContract backend) l o) (hl : Owning w.held l) :
    Reconciled (worldOf o (ownedAfter w.held l) w.inits) := by
  induction h with
  | refl =>
    have hstart : worldOf (Object.initial w.state : Object (Fin n) State Op Reply) w.held
        w.inits = w :=
      World.ext rfl (funext fun c => by simp [worldOf, Object.initial, callRefs]) rfl
    exact hstart.symm ▸ hw
  | @tail l e o' o'' hs hstep ih =>
    cases hstep with
    | @call t op ht =>
      obtain ⟨hl, he⟩ := hl.concat
      rw [ownedAfter, List.foldl_append, ← ownedAfter]
      exact (worldOf_call ht he).symm ▸ ih hl
    | @ret t op a ht =>
      obtain ⟨hl, he⟩ := hl.concat
      rw [ownedAfter, List.foldl_append, ← ownedAfter]
      exact (worldOf_ret ht).symm ▸ ih hl
    | @commit t op a s' ht hc =>
      rw [Option.toList_none, List.append_nil] at hl ⊢
      obtain ⟨hop, x, hx⟩ := hc
      rw [worldOf_commit ht hop hx]
      have hturn : World.step backend ⟨op, x⟩ (worldOf o' (ownedAfter w.held l) w.inits) =
          some (a, (worldOf o' (ownedAfter w.held l) w.inits).settle op a s') := by
        unfold World.step
        rw [show exec x (op.prog backend) (worldOf o' _ _).state = _ from hx]
        rfl
      refine (ih hl).step ?_ (owns_called ht) hturn fun _ => (exec_onBo hop hx).1
      cases op <;> first | rfl | exact hop.elim
    | skip _ hk => exact hk.elim

/-- A buffer object, with `refs` references that no surface holds. -/
structure Account (s : State) (refs : ℕ) (b : Bo) : Prop where
  live : b ∈ s.boList ↔ 0 < refs + s.slots b
  count : b ∈ s.boList → (s.bo b).refCnt = refs + s.slots b
  freed : s.frees.count b = if b < s.bos ∧ b ∉ s.boList then 1 else 0

theorem Ordered.account {w : World} {a : Bool} (h : Ordered w a) (b : Bo) :
    Account w.state (w.held b) b := by
  have hlive : b ∈ w.state.boList → 0 < w.held b + w.state.slots b := by
    intro hb
    have hpos := h.books.owned b hb
    rwa [World.owners_eq] at hpos
  refine ⟨⟨hlive, fun hpos => ?_⟩, fun hb => ?_, h.books.freed b⟩
  · by_contra hout
    have hheld : w.held b = 0 := h.settled b hout
    have hslots := (h.books.absent hout).1
    omega
  · have href := h.books.refs b hb
    rw [World.owners_eq] at href
    exact_mod_cast href

abbrev BAction (n : ℕ) := Action (Fin n) Answers Op

def CallsOnBo : BAction n → Prop
  | .call _ op => op.OnBo
  | _ => True

instance : DecidablePred (@CallsOnBo n)
  | .call _ op => inferInstanceAs (Decidable op.OnBo)
  | .step _ | .input _ _ | .signal _ _ | .spurious _ | .wake _ => isTrue trivial

abbrev BConfig (n : ℕ) := Config (Fin n) Mutex Empty Empty Answers State Op Reply

/-- The threads make, share and drop buffer objects in any order: at any time nobody is in the
manager, the count of each is the references of the clients, of the calls that are to drop or return
one and of the slots, and it is freed once, when these are gone. -/
theorem bo_references_concurrent {turns : List Turn} {calls : List (Entry World Turn Reply)}
    {w : World} {c : BConfig n} {acts : List (BAction n)}
    {log : List (Entry (BConfig n) (BAction n) Unit)}
    (hp : Permitted (World.step backend) (fun w t => w.inited t ∧ w.owns t) turns .initial)
    (hr : run (World.step backend) turns .initial = some (calls, w))
    (hm : ∀ e ∈ calls, e.before.state.gBufMgr.isSome →
      e.after.state.gBufMgr = e.before.state.gBufMgr)
    (hbo : ∀ a ∈ acts, CallsOnBo a)
    (hs : run (fun a c => c.step (fun _ op => op.prog backend) a) acts
      (Config.initial w.state) = some (log, c))
    (hown : Owning w.held (Config.history log)) :
    ∃ o : Object (Fin n) State Op Reply,
      (Object.initial w.state).Steps (boContract backend) (Config.history log) o ∧
      (c.owner .bufmgr = none → ∀ b, Account c.data
        (ownedAfter w.held (Config.history log) b + ∑ t, callRefs b (o.stage t)) b) ∧
      (c.owner .bufmgr = none → c.data.freshAllocs = true → Distinct c.data) := by
  have hw := Reconciled.run hp hr hm
  obtain ⟨o, ho, hl⟩ := Config.Linear.run (L := boContract backend) (g := .bufmgr)
    (fun _ _ h => prog_sections h) (.initial trivial) (.of_forall fun a ha c => by
      have h := hbo a ha
      cases a with
      | call t op => exact h
      | step => exact fun _ _ _ _ => trivial
      | input => exact fun _ _ _ _ _ => trivial
      | _ => trivial) hs
  have ha := hw.steps ho hown
  obtain ⟨a, hord⟩ := ha.ordered
  refine ⟨o, ho, fun hfree b => ?_, fun hfree => ?_⟩
  · rw [hl.data hfree]
    exact hord.account b
  · rw [hl.data hfree]
    exact ha.distinct

instance (held : Bo → ℕ) (e : Happening T Op Reply) : Decidable (OwnsSeen held e) :=
  inferInstanceAs (Decidable (∀ b ∈ dropped e, 0 < held b))

instance (held : Bo → ℕ) : ∀ l : List (Happening T Op Reply), Decidable (Owning held l)
  | [] => isTrue trivial
  | e :: l =>
    have := instDecidableOwning (settleSeen held e) l
    inferInstanceAs (Decidable (_ ∧ _))

/-- The only reference. -/
private def single : List Turn :=
  [⟨.bufmgrInit, .granted 7⟩, ⟨.boAlloc (some 0) 16 0, .granted 7⟩]

/-- One thread takes up the reference that the other drops, and has not returned yet. -/
private def handOver : List (BAction 2) :=
  [.call 0 (.boRef (some 0)), .call 1 (.boUnref (some 0)), .step 0, .step 0, .step 0, .step 1,
    .step 1, .step 1]

theorem bo_references_concurrent_handOver : ∃ (calls : List (Entry World Turn Reply)) (w : World)
    (log : List (Entry (BConfig 2) (BAction 2) Unit)) (c : BConfig 2)
    (o : Object (Fin 2) State Op Reply),
    run (World.step .plain) single .initial = some (calls, w) ∧
    run (fun a c => c.step (fun _ op => op.prog .plain) a) handOver (Config.initial w.state) =
      some (log, c) ∧
    ownedAfter w.held (Config.history log) 0 = 0 ∧ (c.data.bo 0).refCnt = 1 ∧
    (Object.initial w.state).Steps (boContract .plain) (Config.history log) o ∧
    ∀ b, Account c.data
      (ownedAfter w.held (Config.history log) b + ∑ t, callRefs b (o.stage t)) b := by
  have hrun : ((run (World.step .plain) single .initial).bind fun p =>
      (run (fun a c => c.step (fun _ op => op.prog .plain) a) handOver
        (Config.initial p.2.state : BConfig 2)).map fun r =>
        decide (Owning p.2.held (Config.history r.1) ∧ r.2.owner .bufmgr = none ∧
          ownedAfter p.2.held (Config.history r.1) 0 = 0 ∧ (r.2.data.bo 0).refCnt = 1) &&
        p.1.all fun e => e.before.state.gBufMgr.isNone ||
          decide (e.after.state.gBufMgr = e.before.state.gBufMgr)) = some true := by
    decide +kernel
  obtain ⟨⟨calls, w⟩, hr, hw⟩ := Option.bind_eq_some_iff.mp hrun
  obtain ⟨⟨log, c⟩, hs, hc⟩ := Option.map_eq_some_iff.mp hw
  obtain ⟨hd, hall⟩ := Bool.and_eq_true_iff.mp hc
  obtain ⟨hown, hfree, hzero, hone⟩ := of_decide_eq_true hd
  have hm : ∀ e ∈ calls, e.before.state.gBufMgr.isSome →
      e.after.state.gBufMgr = e.before.state.gBufMgr := by
    intro e he hs
    have := List.all_eq_true.mp hall e he
    simpa [Option.isSome_iff_ne_none.mp hs] using this
  obtain ⟨o, ho, hacc, -⟩ := bo_references_concurrent (by decide +kernel) hr hm
    (by decide +kernel) hs hown
  exact ⟨calls, w, log, c, o, hr, hs, hzero, hone, ho, hacc hfree⟩

end Accounts

end Tbm.Bufmgr
