import Tbm.Bufmgr.Buffers
import Tbm.Bufmgr.Steady

/-! The flags a buffer object keeps, against those the backend reports for the buffer that is
attached to it. -/
namespace Tbm.Bufmgr

open Prog Runs

def tbmBoGetFlags (b : Option Bo) : BProg ℤ := locked .bufmgr do
  read fun s => match s.boIsValid b with
    | some b => (s.bo b).flags
    | none => 0

section Labelled

variable {flags : Priv → ℤ} {s s' : State}

/-- Every live buffer object keeps the flags of its buffer. -/
def Labelled (flags : Priv → ℤ) (s : State) : Prop :=
  ∀ b ∈ s.boList, ∀ p, (s.bo b).priv = some p → (s.bo b).flags = flags p

theorem Labelled.mono (h : Labelled flags s) (hsub : ∀ b ∈ s'.boList, b ∈ s.boList)
    (hf : ∀ b, (s'.bo b).flags = (s.bo b).flags)
    (hp : ∀ b, (s'.bo b).priv = (s.bo b).priv ∨ (s'.bo b).priv = none) : Labelled flags s' := by
  intro b hb p hbp
  rw [hf b]
  rcases hp b with hp | hp
  · exact h b (hsub b hb) p (hp ▸ hbp)
  · rw [hp] at hbp
    simp at hbp

/-- A buffer object changes in other fields than its flags and its buffer. -/
theorem Labelled.setBo (h : Labelled flags s) {b : Bo} {v : BoData}
    (hf : v.flags = (s.bo b).flags) (hp : v.priv = (s.bo b).priv ∨ v.priv = none) :
    Labelled flags (s.setBo b v) := by
  refine h.mono (fun _ => id) (fun c => ?_) fun c => ?_
  · by_cases e : c = b
    · subst e
      simpa [State.setBo] using hf
    · simp [State.setBo, e]
  · by_cases e : c = b
    · subst e
      simpa [State.setBo] using hp
    · simp [State.setBo, e]

theorem Labelled.linkBo (h : Labelled flags s) {f : ℤ} {p : Priv} (hp : flags p = f) :
    Labelled flags (s.linkBo f p) := by
  intro b hb q hbq
  by_cases e : b = s.bos
  · subst e
    obtain rfl : p = q := by simpa [State.linkBo] using hbq
    simp [State.linkBo, hp]
  · have hin : b ∈ s.boList := (List.mem_cons.mp hb).resolve_left e
    have hbq' : (s.bo b).priv = some q := by simpa [State.linkBo, e] using hbq
    have := h b hin q hbq'
    simpa [State.linkBo, e] using this

theorem Labelled.boImport (h : Labelled flags s) {f : ℤ} {p : Priv} (hp : flags p = f) :
    Labelled flags (s.boImport f p).2 := by
  unfold State.boImport
  split
  · exact h.setBo rfl (.inl rfl)
  · exact h.linkBo hp

theorem Labelled.boUnref (h : Labelled flags s) (backend : Backend) (b : Bo) :
    Labelled flags (s.boUnref backend b) := by
  have hcnt (n : ℤ) : Labelled flags (s.setRefCnt b n) := h.setBo rfl (.inl rfl)
  unfold State.boUnref
  split_ifs
  · exact h
  · dsimp only
    split_ifs
    · unfold State.boFree
      rw [drainLocks_eq]
      refine (hcnt ((s.bo b).refCnt - 1)).mono (fun c => List.mem_of_mem_erase) (fun c => ?_)
        fun c => ?_
      · by_cases e : c = b <;> simp [State.setPriv, State.setBo, State.setRefCnt, e]
      · by_cases e : c = b <;> simp [State.setPriv, State.setBo, State.setRefCnt, e]
    · exact hcnt _

theorem boSwap_flags (b c d : Bo) : ((s.boSwap b c).bo d).flags = (s.bo d).flags := by
  unfold State.boSwap State.setPriv State.setBo
  by_cases hc : d = c
  · subst hc
    by_cases hb : d = b
    · subst hb
      simp
    · simp [hb]
  · by_cases hb : d = b
    · subst hb
      simp [hc]
    · simp [hc, hb]

/-- Two buffers trade places under flags that are the same. -/
theorem Labelled.boSwap (h : Labelled flags s) {b c : Bo} (hb : b ∈ s.boList) (hc : c ∈ s.boList)
    (hf : (s.bo b).flags = (s.bo c).flags) : Labelled flags (s.boSwap b c) := by
  intro d hd p hp
  rw [boSwap_priv, Equiv.swap_apply_def] at hp
  rw [boSwap_flags]
  split_ifs at hp with hdb hdc
  · rw [hdb, hf]
    exact h c hc p hp
  · rw [hdc, ← hf]
    exact h b hb p hp
  · exact h d hd p hp

theorem Labelled.bufmgrInit (h : Labelled flags s) (x : Answers) :
    Labelled flags (s.bufmgrInit x).2 := by
  unfold State.bufmgrInit
  split
  · exact h
  · split_ifs
    · intro b hb
      simp at hb
    · exact h

theorem labelled_steady (backend : Backend) (x : Answers) :
    Steady backend x (Labelled flags) where
  same := by
    intro s s' hs hlist hbo _ _
    exact hs.mono (fun b hb => hlist ▸ hb) (fun b => by rw [hbo]) fun b => .inl (by rw [hbo])
  init := fun hs => hs.bufmgrInit x
  setRefCnt := fun hs => hs.setBo rfl (.inl rfl)
  boUnref := fun hs => hs.boUnref backend _
  setSurfaceRefcnt := id
  destroy := by
    intro s t h u hs he
    suffices ∀ n i, Upholds x (Labelled flags) (destroySlots backend h n i) from
      this _ _ s u t hs he
    intro n
    induction n with
    | zero => exact fun _ => .pure _
    | succ n ih =>
      intro i
      refine .bind (.access fun s a s' hs he => ?_) fun b => .bind ?_ fun _ =>
        .bind (.modify fun s hs => hs) fun _ => ih (i + 1)
      · obtain ⟨b, -, he⟩ := Option.bind_eq_some_iff.mp he
        obtain ⟨-, rfl⟩ := Prod.mk.inj (Option.some.inj he)
        exact hs.setBo rfl (.inl rfl)
      · refine upholds_locked (.modify fun s hs => ?_)
        cases s.boIsValid (some b) with
        | none => exact hs
        | some c => exact hs.boUnref backend c

end Labelled

section Programs

variable {flags : Priv → ℤ} {backend : Backend} {x : Answers}

theorem tbmBoSetSurface_labelled (b : Option Bo) (h : Option Surface) :
    Upholds x (Labelled flags) (tbmBoSetSurface b h) := by
  refine upholds_locked (.modify fun s hs => ?_)
  cases s.boIsValid b with
  | none => exact hs
  | some b => exact hs.setBo rfl (.inl rfl)

/-- The flags of the call are those of the buffer it gets. -/
theorem tbmBoAlloc_labelled {i : ℕ} {f : ℤ} (hx : ∀ p, (x.bo i).priv = some p → flags p = f)
    (m : Option Mgr) (size : ℤ) : Upholds x (Labelled flags) (tbmBoAlloc m size f i) := by
  refine upholds_locked (.bind (.read _) fun g => .ite (fun _ => .answer ?_) fun _ => .pure _)
  refine .ite (fun _ => .bind ((labelled_steady .plain x).tbmUtilCheckBoCnt x m) fun _ => ?_)
    fun _ => .pure _
  cases hp : (x.bo i).priv with
  | none => exact .pure _
  | some p =>
    refine .access fun s a s' hs he => ?_
    obtain ⟨-, rfl⟩ : some s.bos = a ∧ s.boAlloc size f p = s' := by simpa using he
    exact hs.linkBo (hx p hp)

theorem boImport_labelled (hb : backend.boGetFlags = true)
    (hx : ∀ p, (x.bo 0).priv = some p → x.boFlags = flags p) (provided : Bool) (m : Option Mgr) :
    Upholds x (Labelled flags) (boImport backend provided m) := by
  intro s a s' hs he
  obtain ⟨n, hn⟩ := boImport_exec he
  cases hp : importedPriv x s provided m with
  | none =>
    rw [hp] at hn
    obtain ⟨-, rfl⟩ := hn
    exact hs
  | some p =>
    rw [hp] at hn
    have hxp : flags p = x.boFlags := by
      unfold importedPriv at hp
      split_ifs at hp
      exact (hx p hp).symm
    have hl : Labelled flags { s with lastChkBoCnt := n } := hs
    rw [if_pos hb] at hn
    have hs' : s' = (State.boImport { s with lastChkBoCnt := n } x.boFlags p).2 :=
      congrArg Prod.snd hn.2
    rw [hs']
    exact hl.boImport hxp

theorem tbmBoSwap_labelled {s s' : State} {b c : Option Bo} {r : Bool} (hs : Labelled flags s)
    (hf : ∀ b' c', s.boIsValid b = some b' → s.boIsValid c = some c' →
      x.boSize b' = x.boSize c' → (s.bo b').flags = (s.bo c').flags)
    (he : exec x (tbmBoSwap b c) s = some (r, s')) : Labelled flags s' := by
  simp only [tbmBoSwap, exec_locked, exec_bind, exec_answer, Option.bind_some, exec_access,
    Option.some.injEq] at he
  cases hb : s.boIsValid b with
  | none =>
    obtain ⟨-, rfl⟩ : false = r ∧ s = s' := by simpa [hb] using he
    exact hs
  | some b' =>
    cases hc : s.boIsValid c with
    | none =>
      obtain ⟨-, rfl⟩ : false = r ∧ s = s' := by simpa [hb, hc] using he
      exact hs
    | some c' =>
      simp only [hb, hc] at he
      split_ifs at he with hz
      · obtain ⟨-, rfl⟩ := Prod.mk.inj he
        have hb' : b' ∈ s.boList := (boIsValid_eq_some hb).2
        have hc' : c' ∈ s.boList := (boIsValid_eq_some hc).2
        exact hs.boSwap hb' hc' (hf b' c' hb hc hz)
      · obtain ⟨-, rfl⟩ := Prod.mk.inj he
        exact hs

theorem initSurfaceBufmgr_labelled : Upholds x (Labelled flags) initSurfaceBufmgr := by
  refine .bind (.read _) fun g => ?_
  cases g with
  | some _ => exact .pure _
  | none =>
    refine .bind (labelled_steady .plain x).tbmBufmgrInit fun m => .access fun s a s' hs he => ?_
    obtain ⟨-, -, he⟩ := Option.bind_eq_some_iff.mp he
    obtain ⟨-, rfl⟩ := Prod.mk.inj (Option.some.inj he)
    exact hs

theorem giveBack_labelled (initialized : Bool) :
    Upholds x (Labelled flags) (giveBack backend initialized) :=
  .ite (fun _ => .bind (.modify fun _ hs => hs) fun _ =>
    (labelled_steady backend x).deinitSurfaceBufmgr (labelled_steady backend x).tbmBufmgrDeinit)
    fun _ => .pure _

theorem refSlots_labelled (h : Surface) (bos : ℕ → Option Bo) (n : ℕ) (l : List (Option Bo)) :
    Upholds x (Labelled flags) (refSlots h bos n l) := by
  induction n generalizing l with
  | zero => exact .pure _
  | succ n ih =>
    refine .ite (fun _ => ?_) fun _ => upholds_stuck
    cases bos l.length with
    | none => exact .pure _
    | some b =>
      exact .bind ((labelled_steady .plain x).tbmBoRef _) fun r =>
        .bind (tbmBoSetSurface_labelled _ _) fun _ => ih _

theorem allocSlot_labelled {f : ℤ} {i : ℕ} (hx : ∀ p, (x.bo i).priv = some p → flags p = f)
    (m : Mgr) (size : ℤ) : Upholds x (Labelled flags) (allocSlot backend m size f i) := by
  refine .ite (fun _ => .answer (.ite (fun _ => upholds_locked ?_) fun _ => .pure _))
    fun _ => tbmBoAlloc_labelled hx _ _
  cases hp : (x.bo i).priv with
  | none => exact .pure _
  | some p =>
    refine .access fun s a s' hs he => ?_
    obtain ⟨-, -, he⟩ := Option.bind_eq_some_iff.mp he
    obtain ⟨-, rfl⟩ := Prod.mk.inj (Option.some.inj he)
    exact hs.linkBo (hx p hp)

theorem allocSlots_labelled {f : ℤ} (hx : ∀ i < 4, ∀ p, (x.bo i).priv = some p → flags p = f)
    (m : Mgr) (ps : List PlaneAnswer) (h : Surface) (n : ℕ) (l : List (Option Bo)) :
    Upholds x (Labelled flags) (allocSlots backend m f ps h n l) := by
  induction n generalizing l with
  | zero => exact .pure _
  | succ n ih =>
    by_cases hl : l.length < 4
    · refine .bind (allocSlot_labelled (hx _ hl) m _) fun b => ?_
      cases b with
      | none => exact .ite (fun _ => .pure _) fun _ => upholds_stuck
      | some b =>
        exact .ite (fun _ => .bind (tbmBoSetSurface_labelled _ _) fun _ => ih _)
          fun _ => upholds_stuck
    · -- Behind the table the loop only comes to its end without a buffer.
      intro s a s' hs he
      simp only [allocSlots, exec_bind] at he
      obtain ⟨⟨b, t⟩, hb, he⟩ := Option.bind_eq_some_iff.mp he
      have hslot := allocSlot_exec hb
      cases b with
      | none =>
        obtain ⟨k, rfl⟩ := hslot
        have hend : Upholds x (Labelled flags)
            (if l.length < 4 ∨ backend.surfaceBoAlloc then pure (false, l) else stuck) :=
          .ite (fun _ => .pure _) fun _ => upholds_stuck
        have hchk : Labelled flags { s with lastChkBoCnt := k } := hs
        exact hend _ _ _ hchk he
      | some b => simp [hl] at he

theorem finishSurface_labelled (m : Mgr) (h : Surface) (data : List (Option Bo) → SurfaceData)
    (r : Bool × List (Option Bo)) :
    Upholds x (Labelled flags) (finishSurface backend m h data r) := by
  refine .ite (fun _ => .access fun s a s' hs he => ?_) fun _ =>
    .bind ((labelled_steady backend x).unrefSlots _) fun _ => .pure _
  obtain ⟨-, -, he⟩ := Option.bind_eq_some_iff.mp he
  obtain ⟨-, rfl⟩ := Prod.mk.inj (Option.some.inj he)
  exact hs

theorem createSurface_labelled {body : Mgr → Surface → Answers → BProg (Option Surface)}
    (hb : ∀ m h, Upholds x (Labelled flags) (body m h x)) :
    Upholds x (Labelled flags) (createSurface backend body) := by
  refine upholds_locked (.bind initSurfaceBufmgr_labelled fun initialized => .bind ?_ fun r => ?_)
  · refine .bind (.read _) fun g => ?_
    cases g with
    | none => exact .pure _
    | some m =>
      refine .answer (.ite (fun _ => .bind (.access fun s a s' hs he => ?_) fun h => hb m h)
        fun _ => .pure _)
      obtain ⟨-, rfl⟩ := Prod.mk.inj (Option.some.inj he)
      exact hs
  · cases r with
    | some h => exact .pure _
    | none => exact .bind (giveBack_labelled _) fun _ => .pure _

theorem tbmSurfaceInternalCreateWithFlags_labelled {f : ℤ}
    (hx : ∀ i < 4, ∀ p, (x.bo i).priv = some p → flags p = f) (width height : ℤ)
    (format : Format) : Upholds x (Labelled flags)
      (tbmSurfaceInternalCreateWithFlags backend width height format f) := by
  refine .ite (fun _ => createSurface_labelled fun m h => ?_) fun _ => .pure _
  cases queryPlaneData backend x format.numPlanes.toNat with
  | none => exact .pure _
  | some ps =>
    exact .bind (allocSlots_labelled hx _ _ _ _ _) fun r => finishSurface_labelled _ _ _ _

theorem tbmSurfaceInternalCreateWithBos_labelled (info : Option SurfaceInfo)
    (bos : Option (ℕ → Option Bo)) (num : ℤ) :
    Upholds x (Labelled flags) (tbmSurfaceInternalCreateWithBos backend info bos num) := by
  cases bos with
  | none => exact .pure _
  | some bos =>
    cases info with
    | none => exact .pure _
    | some info =>
      exact .ite (fun _ => createSurface_labelled fun m h => .ite (fun _ =>
        .bind (refSlots_labelled _ _ _ _) fun r => finishSurface_labelled _ _ _ _)
        fun _ => upholds_stuck) fun _ => .pure _

theorem tbmSurfaceInternalQuerySupportedFormats_labelled :
    Upholds x (Labelled flags) (tbmSurfaceInternalQuerySupportedFormats backend) := by
  refine upholds_locked (.bind initSurfaceBufmgr_labelled fun initialized => .answer
    (.bind (.access fun s a s' hs he => ?_) fun _ => .ite (fun _ => .pure _) fun _ =>
      .bind (giveBack_labelled _) fun _ => .pure _))
  obtain ⟨-, -, he⟩ := Option.bind_eq_some_iff.mp he
  obtain ⟨-, rfl⟩ := Prod.mk.inj (Option.some.inj he)
  exact hs

theorem needAttach_labelled {f : ℤ} (hx : ∀ i < 4, ∀ p, (x.bo i).priv = some p → flags p = f)
    (width height : ℤ) (format : Format) (q : Queue) :
    Upholds x (Labelled flags) (needAttach backend width height format f q) := by
  refine .bind (tbmSurfaceInternalCreateWithFlags_labelled hx _ _ _) fun h => ?_
  cases h with
  | none => exact .pure _
  | some h =>
    exact .bind ((labelled_steady backend x).surfaceQueueAttach q h) fun _ =>
      (labelled_steady backend x).tbmSurfaceInternalUnref _

end Programs

section Reports

variable {backend : Backend} {w w' : World} {t : Turn} {flags flags' : Priv → ℤ}

/-- What the backend tells of its buffers before a call agrees with what it tells afterwards for
the buffers in use, and those it has allocated in the call have the flags of the call. -/
def Truthful (flags flags' : Priv → ℤ) (w : World) (t : Turn) : Prop :=
  (∀ b ∈ w.state.boList, ∀ p ∈ (w.state.bo b).priv, flags' p = flags p) ∧
    match t.op with
    | .boAlloc _ _ f => ∀ p ∈ (t.answers.bo 0).priv, flags' p = f
    | .surfaceCreateWithFlags _ _ _ f => ∀ i < 4, ∀ p ∈ (t.answers.bo i).priv, flags' p = f
    | .queueAttach _ _ _ _ f => ∀ i < 4, ∀ p ∈ (t.answers.bo i).priv, flags' p = f
    | .boImport _ => ∀ p ∈ (t.answers.bo 0).priv, t.answers.boFlags = flags' p
    | .boImportFd _ => ∀ p ∈ (t.answers.bo 0).priv, t.answers.boFlags = flags' p
    | _ => True

/-- Buffers of one size trade places only under the same flags. -/
def World.swapsAlike (w : World) (t : Turn) : Prop :=
  match t.op with
  | .boSwap b c => ∀ b' ∈ w.state.boIsValid b, ∀ c' ∈ w.state.boIsValid c,
    t.answers.boSize b' = t.answers.boSize c' → (w.state.bo b').flags = (w.state.bo c').flags
  | _ => True

instance : Decidable (Truthful flags flags' w t) := by
  unfold Truthful
  cases t with
  | mk op x => cases op <;> infer_instance

instance : Decidable (w.swapsAlike t) := by
  unfold World.swapsAlike
  cases t with
  | mk op x => cases op <;> infer_instance

/-- A call with what `bo_get_flags` reports for each private pointer from the call on. -/
structure Report where
  turn : Turn
  flags : Priv → ℤ

structure Reported where
  world : World
  flags : Priv → ℤ

def Reported.initial : Reported where
  world := .initial
  flags := fun _ => 0

def Reported.step (backend : Backend) (t : Report) (w : Reported) : Option (Reply × Reported) :=
  (w.world.step backend t.turn).map fun r => (r.1, ⟨r.2, t.flags⟩)

theorem Truthful.labelled (ht : Truthful flags flags' w t) (hl : Labelled flags w.state) :
    Labelled flags' w.state := by
  intro b hb p hp
  rw [ht.1 b hb p hp]
  exact hl b hb p hp

theorem step_labelled {r : Reply} (hb : backend.boGetFlags = true)
    (ht : Truthful flags flags' w t) (ha : w.swapsAlike t) (hl : Labelled flags w.state)
    (hs : w.step backend t = some (r, w')) : Labelled flags' w'.state := by
  have hl' := ht.labelled hl
  obtain ⟨op, x⟩ := t
  obtain ⟨⟨r', s⟩, he, hw⟩ := Option.bind_eq_some_iff.mp hs
  obtain ⟨rfl, rfl⟩ : r' = r ∧ w.settle op r' s = w' := by simpa using hw
  have keep {α : Type} {p : BProg α} {f : α → Reply} (hp : Upholds x (Labelled flags') p)
      (he : exec x (p >>= fun a => pure (f a)) w.state = some (r', s)) : Labelled flags' s := by
    obtain ⟨v, hx, -⟩ := exec_return he
    exact hp _ _ _ hl' hx
  have hst : Steady backend x (Labelled flags') := labelled_steady backend x
  cases op with
  | bufmgrInit => exact keep hst.tbmBufmgrInit he
  | bufmgrDeinit m => exact keep (hst.tbmBufmgrDeinit m) he
  | boAlloc m size f => exact keep (tbmBoAlloc_labelled ht.2 m size) he
  | boImport m => exact keep (boImport_labelled hb ht.2 _ m) he
  | boImportFd m => exact keep (boImport_labelled hb ht.2 _ m) he
  | boRef b => exact keep (hst.tbmBoRef b) he
  | boUnref b => exact keep (hst.tbmBoUnref b) he
  | boSwap b c =>
    obtain ⟨v, hx, -⟩ := exec_return he
    exact tbmBoSwap_labelled hl' (fun b' c' hb hc => ha b' hb c' hc) hx
  | surfaceCreateWithFlags width height format f =>
    exact keep (tbmSurfaceInternalCreateWithFlags_labelled ht.2 _ _ _) he
  | surfaceCreateWithBos info bos num =>
    exact keep (tbmSurfaceInternalCreateWithBos_labelled _ _ _) he
  | surfaceRef h => exact keep (hst.tbmSurfaceInternalRef h) he
  | surfaceUnref h => exact keep (hst.tbmSurfaceInternalUnref h) he
  | surfaceDestroy h => exact keep (hst.tbmSurfaceInternalUnref h) he
  | querySupportedFormats => exact keep tbmSurfaceInternalQuerySupportedFormats_labelled he
  | queueCreate queueSize width height format => exact keep (hst.surfaceQueueCreate _ _ _ _) he
  | queueSequenceCreate queueSize width height format =>
    exact keep (hst.surfaceQueueCreate _ _ _ _) he
  | queueAttach q width height format f =>
    exact keep (Steady.withQueue (needAttach_labelled ht.2 _ _ _) q) he
  | queueAttachCb q h => exact keep (Steady.withQueue (hst.needAttachCb h) q) he
  | queueDetach q h => exact keep (Steady.withQueue (hst.queueDeleteNode h) q) he
  | queueDestroy q => exact keep (hst.tbmSurfaceQueueDestroy q) he

end Reports

section Attached

variable {A : Allowed} {s s' : State} {L L' : Ledger}

/-- Every live buffer object has a buffer. -/
def Attached (s : State) : Prop := ∀ b ∈ s.boList, (s.bo b).priv.isSome

theorem Attached.linkBo (ha : Attached s) (flags : ℤ) (p : Priv) : Attached (s.linkBo flags p) := by
  intro b hb
  by_cases e : b = s.bos
  · simp [State.linkBo, e]
  · have hin : b ∈ s.boList := (List.mem_cons.mp hb).resolve_left e
    have := ha b hin
    simpa [State.linkBo, e] using this

theorem Attached.setBo (ha : Attached s) {b : Bo} {v : BoData} (hv : v.priv = (s.bo b).priv) :
    Attached (s.setBo b v) := by
  intro c hc
  have := ha c hc
  by_cases e : c = b
  · subst e
    simpa [State.setBo, hv] using this
  · simpa [State.setBo, e] using this

theorem Move.attached (h : Move A s L s' L') (hl : Life s L) (ha : Attached s) : Attached s' := by
  cases h with
  | init hx =>
    unfold State.bufmgrInit at hx
    split at hx
    · obtain ⟨-, rfl⟩ := Prod.mk.inj hx
      exact ha
    · split_ifs at hx
      · obtain ⟨-, rfl⟩ := Prod.mk.inj hx
        intro b hb
        simp at hb
      · simp at hx
  | teardown =>
    intro b hb
    simp at hb
  | boAlloc => exact ha.linkBo _ _
  | surfaceBoAlloc => exact ha.linkBo _ _
  | boImport => exact ha.linkBo _ _
  | ref => exact ha.setBo rfl
  | unref => exact ha.setBo rfl
  | free _ _ _ hbo =>
    intro c hc
    obtain ⟨hne, hin⟩ := hl.nodup.mem_erase_iff.mp hc
    have hc' := ha c hin
    rw [← hbo c hne] at hc'
    exact hc'
  | swap hb hc =>
    intro d hd
    rw [boSwap_priv, Equiv.swap_apply_def]
    split_ifs
    · exact ha _ hc
    · exact ha _ hb
    · exact ha d hd
  | setBoSurface => exact ha.setBo rfl
  | _ => exact ha

end Attached

section Runs

variable {backend : Backend} {w : Reported} {reports : List Report}
  {log : List (Entry Reported Report Reply)}

/-- `tbm_bo_get_flags` answers for each live buffer object what the backend reports for the buffer
that is attached to it. -/
def Reported.Describes (w : Reported) : Prop :=
  ∀ b ∈ w.world.state.boList, ∀ x, ∃ p, (w.world.state.bo b).priv = some p ∧
    exec x (tbmBoGetFlags (some b)) w.world.state = some (w.flags p, w.world.state)

theorem Labelled.describes {o : Bool} (hl : Life w.world.state (w.world.ledger o))
    (ha : Attached w.world.state) (hf : Labelled w.flags w.world.state) : w.Describes := by
  intro b hb x
  obtain ⟨p, hp⟩ := Option.isSome_iff_exists.mp (ha b hb)
  refine ⟨p, hp, ?_⟩
  have hv : w.world.state.boIsValid (some b) = some b := by rw [hl.boIsValid, if_pos hb]
  simp [tbmBoGetFlags, hv, hf b hb p hp]

/-- While buffers trade places only under the same flags, the flags describe the buffers. -/
theorem bo_flags_describe_buffer (hb : backend.boGetFlags = true)
    (hp : Permitted (Reported.step backend) (fun w t => w.world.inited t.turn = true ∧
      Truthful w.flags t.flags w.world t.turn ∧ w.world.swapsAlike t.turn) reports .initial)
    (hr : run (Reported.step backend) reports .initial = some (log, w)) : w.Describes := by
  have hinit : Labelled Reported.initial.flags Reported.initial.world.state :=
    fun b hb => absurd hb List.not_mem_nil
  obtain ⟨o, hl, ha, hf⟩ := run_safe (fun _ w => ∃ o, Life w.world.state (w.world.ledger o) ∧
      Attached w.world.state ∧ Labelled w.flags w.world.state)
    ⟨false, life_initial, fun b hb => absurd hb List.not_mem_nil, hinit⟩ (by
      rintro _ w t r w' ⟨o, hl, ha, hf⟩ ⟨hi, ht, hswap⟩ hs
      obtain ⟨⟨r', v⟩, hv, he⟩ := Option.map_eq_some_iff.mp hs
      obtain ⟨rfl, rfl⟩ := Prod.mk.inj he
      obtain ⟨o', -, hmoves, -⟩ := step_moves (A := ⟨True, True, True⟩) hl hi (.inl trivial)
        (fun _ => trivial) (.inl trivial) hv
      obtain ⟨hl', ha'⟩ := hmoves.keep (P := fun s _ => Attached s)
        (fun hl hm ha => hm.attached hl ha) hl ha
      exact ⟨o', hl', ha', step_labelled hb ht hswap hf hv⟩) hp hr
  exact hf.describes hl ha

/-- The buffer `8` has other flags than the rest. -/
private def oneFlagged (p : Priv) : ℤ := if p = 8 then 1 else 0

/-- Buffers of equal flags trade places, a third with other flags is imported. -/
private def alikeSwapped : List Report :=
  [⟨⟨.bufmgrInit, .granted 7⟩, oneFlagged⟩, ⟨⟨.boAlloc (some 0) 16 0, .granted 7⟩, oneFlagged⟩,
    ⟨⟨.surfaceCreateWithFlags 4 4 .c8 0, .granted 10⟩, oneFlagged⟩,
    ⟨⟨.boImport (some 0), { Answers.granted 8 with boFlags := 1 }⟩, oneFlagged⟩,
    ⟨⟨.boSwap (some 0) (some 1), .granted 7⟩, oneFlagged⟩]

theorem bo_flags_describe_buffer_alike : ∃ log w,
    run (Reported.step .plain) alikeSwapped .initial = some (log, w) ∧
    w.world.state.boList = [2, 1, 0] ∧ w.Describes := by
  have hrun : ((run (Reported.step .plain) alikeSwapped .initial).map fun r =>
      r.2.world.state.boList) = some [2, 1, 0] := by decide +kernel
  obtain ⟨⟨log, w⟩, hr, hw⟩ := Option.map_eq_some_iff.mp hrun
  exact ⟨log, w, hr, hw, bo_flags_describe_buffer rfl (by decide +kernel) hr⟩

/-- Two buffers of one size and different flags trade places. -/
private def unlikeSwapped : List Report :=
  [⟨⟨.bufmgrInit, .granted 7⟩, oneFlagged⟩, ⟨⟨.boAlloc (some 0) 16 0, .granted 7⟩, oneFlagged⟩,
    ⟨⟨.boAlloc (some 0) 16 1, .granted 8⟩, oneFlagged⟩,
    ⟨⟨.boSwap (some 0) (some 1), .granted 7⟩, oneFlagged⟩]

/-- The flags stay behind when the buffers trade places. -/
theorem bo_swap_keeps_flags :
    ¬∀ (backend : Backend) (reports : List Report) (log : List (Entry Reported Report Reply))
      (w : Reported), backend.boGetFlags = true →
      Permitted (Reported.step backend) (fun w t => w.world.inited t.turn = true ∧
        Truthful w.flags t.flags w.world t.turn) reports .initial →
      run (Reported.step backend) reports .initial = some (log, w) → w.Describes := by
  intro hall
  have hrun : ((run (Reported.step .plain) unlikeSwapped .initial).map fun r =>
      (r.2.world.state.boList, (r.2.world.state.bo 0).priv, r.2.flags 8,
        (exec (.granted 7) (tbmBoGetFlags (some 0)) r.2.world.state).map (·.1))) =
      some ([1, 0], some 8, 1, some 0) := by decide +kernel
  obtain ⟨⟨log, w⟩, hr, hw⟩ := Option.map_eq_some_iff.mp hrun
  simp only [Prod.mk.injEq] at hw
  obtain ⟨hlist, hpriv, hflags, hget⟩ := hw
  have hd := hall .plain unlikeSwapped log w rfl (by decide +kernel) hr
  obtain ⟨p, hp, he⟩ := hd 0 (by simp [hlist]) (.granted 7)
  obtain rfl : 8 = p := by simpa [hpriv] using hp
  rw [he, hflags] at hget
  simp at hget

end Runs

end Tbm.Bufmgr
