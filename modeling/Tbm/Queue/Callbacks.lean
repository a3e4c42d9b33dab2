import Tbm.Queue.Schedules

/-! The mutexes a thread holds when it calls the client back. -/
namespace Tbm.Queue

open Prog Runs

/-- The operations that call the client back: those of `Op` and `notify_reset`. -/
inductive Request
  | op (o : Op)
  | notifyReset
  deriving DecidableEq, Repr

def tbmSurfaceQueueNotifyReset : QProg Error := do
  mutexLock .global
  returnValIfFail (← surfaceQueueIsValid) .invalidQueue <| do
    mutexUnlock .global
    notify .resetNoti
    pure .none

/-- The code of thread `t`. -/
def serve (kind : Kind) (n : ℕ) (t : Fin n) : Request → QProg Reply
  | .op o => program kind.impl t o
  | .notifyReset => do pure (.error (← tbmSurfaceQueueNotifyReset))

/-- `need_attach` from the call of `alloc_cb` on. -/
def callAllocCb (me born : ℕ) : QProg Unit := do
  let r ← answer
  mutexLock .global
  mutexLock .queue
  modify (endAttach me true born r)

def Call.isFreeCb : Call → Bool
  | .freeCb _ => true
  | _ => false

/-- How often `free_cb` has been called. -/
def SurfaceQueue.freeCbCalls (q : SurfaceQueue) : ℕ := q.calls.countP Call.isFreeCb

/-- The operation comes to delete a node of the queue. -/
def SurfaceQueue.Deletes (q : SurfaceQueue) : Request → Prop
  | .op (.release (some s)) => q.queueSize < q.numAttached ∧
    (q.queueGetNode s).any (fun r => r.any fun p => p.2 = .nodeList) = true
  | .op (.setSize k false) => 0 < k ∧ k < q.queueSize ∧ q.queueIsEmpty .free = false
  | .op (.setSize k true) => 0 < k ∧ q.links.isEmpty .list = false
  | .op (.reset w h f) => ¬(w = q.width ∧ h = q.height ∧ f = q.format) ∧
    q.links.isEmpty .list = false
  | .op .flush => q.numAttached ≠ 0 ∧ q.links.isEmpty .list = false
  | .op .destroy => q.links.isEmpty .list = false
  | _ => False

instance (q : SurfaceQueue) : DecidablePred q.Deletes
  | .op (.release (some _)) => inferInstanceAs (Decidable (_ < _ ∧ _ = true))
  | .op (.setSize _ false) => inferInstanceAs (Decidable (_ < _ ∧ _ < _ ∧ _ = _))
  | .op (.setSize _ true) => inferInstanceAs (Decidable (_ < _ ∧ _ = _))
  | .op (.reset _ _ _) => inferInstanceAs (Decidable (¬(_ = _ ∧ _ = _ ∧ _ = _) ∧ _ = _))
  | .op .flush => inferInstanceAs (Decidable (_ ≠ _ ∧ _ = _))
  | .op .destroy => inferInstanceAs (Decidable (_ = _))
  | .op (.release none) | .op .dequeue | .op (.enqueue _) | .op .acquire | .op (.canDequeue _)
  | .op (.canAcquire _) | .op (.setAllocCb _ _) | .notifyReset => isFalse id

/-- No node is handed to `free_cb`, and a queue that is not valid stays so. -/
structure Tame (q q' : SurfaceQueue) : Prop where
  valid : q.valid = false → q'.valid = false
  calls : q'.freeCbCalls = q.freeCbCalls

namespace Tame

variable {kind : Kind} {q q' q'' : SurfaceQueue} {n : ℕ}

theorem refl (q : SurfaceQueue) : Tame q q := ⟨id, rfl⟩

theorem trans (h : Tame q q') (h' : Tame q' q'') : Tame q q'' :=
  ⟨fun hv => h'.valid (h.valid hv), h'.calls.trans h.calls⟩

theorem of_shuffles (h : Shuffles q q') : Tame q q' := by
  induction h with
  | refl => exact refl q
  | pushBack _ _ _ ih | pop _ _ _ ih | setType _ _ _ ih | setPrivFlags _ _ _ ih =>
    exact ih.trans ⟨id, rfl⟩

@[simp] theorem pushBack (w : Fifo) : Tame q (q.queueNodePushBack w n) :=
  of_shuffles (Shuffles.refl.pushBack w n)

@[simp] theorem setType (c : NodeType) : Tame q (q.setType n c) :=
  of_shuffles (Shuffles.refl.setType n c)

@[simp] theorem endAttach (me : ℕ) (cb : Bool) (born : ℕ) (x : AllocResult) (q : SurfaceQueue) :
    Tame q (endAttach me cb born x q) := by
  constructor
  · intro hv
    rw [endAttach_valid, hv]
  · unfold Queue.endAttach SurfaceQueue.surfaceQueueAttach SurfaceQueue.freeCbCalls
    cases x.surface with
    | none => rfl
    | some s =>
      cases cb <;> cases x.node <;> simp [SurfaceQueue.record, SurfaceQueue.linkNewNode,
        SurfaceQueue.queueNodePushBack, Call.isFreeCb]

theorem deleteNode (hf : q.freeCb = false) : Tame q (q.queueDeleteNode n) := by
  constructor
  · exact id
  · simp [SurfaceQueue.freeCbCalls, SurfaceQueue.queueDeleteNode, SurfaceQueue.queueNodeDelete,
      SurfaceQueue.record, SurfaceQueue.listDel, SurfaceQueue.setNode, hf, Call.isFreeCb]

private theorem unset_of_settings (hf : q.freeCb = false) (h : q'.settings = q.settings) :
    q'.freeCb = false := by
  rw [← hf]
  exact congrArg SurfaceQueue.Settings.freeCb h

theorem deleteNodes (hf : q.freeCb = true → q.links.isEmpty .list = true)
    (h : q.deleteNodes = some q') : Tame q q' := by
  cases hcb : q.freeCb with
  | false =>
    have hp := SurfaceQueue.deleteNodes_preserves (fun s => Tame q s ∧ s.freeCb = false)
      (fun _ hs => ⟨hs.1.trans (deleteNode hs.2), hs.2⟩) ⟨refl q, hcb⟩ h
    exact hp.1
  | true =>
    have he : q.links.next .list = .list := by simpa [Links.isEmpty] using hf hcb
    have hq' : q = q' := by
      simpa [SurfaceQueue.deleteNodes, Links.forEachSafe, SurfaceQueue.fuel, he] using h
    rw [hq']
    exact refl q'

theorem clearNodes (hf : q.freeCb = true → q.links.isEmpty .list = true)
    (h : clearNodes kind.impl q = some q') : Tame q q' := by
  obtain ⟨d, hd, h⟩ := Option.bind_eq_some_iff.mp h
  obtain rfl := Option.some.inj h
  refine (deleteNodes hf hd).trans ?_
  cases kind <;> exact ⟨id, rfl⟩

private theorem setNumAttached (q : SurfaceQueue) (k : ℤ) : Tame q { q with numAttached := k } :=
  ⟨id, rfl⟩

theorem detachNode (hf : q.freeCb = false) (h : detachNode kind.impl n q = some q') :
    Tame q q' ∧ q'.freeCb = false := by
  refine ⟨?_, unset_of_settings hf (Narrows.detachNode h).settings⟩
  rcases SurfaceQueue.detachNode_cases h with rfl | ⟨m, -, rfl⟩
  · exact refl q'
  · exact (deleteNode hf).trans (setNumAttached _ _)

theorem detachFree {k : ℤ} (hf : q.freeCb = true → q.queueIsEmpty .free = true)
    (h : q.detachFree (Queue.detachNode kind.impl) k = some q') : Tame q q' := by
  cases hcb : q.freeCb with
  | false =>
    have hp := SurfaceQueue.detachFree_preserves (fun s => Tame q s ∧ s.freeCb = false)
      (fun hd hs => ⟨hs.1.trans (detachNode hs.2 hd).1, (detachNode hs.2 hd).2⟩) ⟨refl q, hcb⟩ h
    exact hp.1
  | true =>
    rw [SurfaceQueue.detachFree_empty _ _ (hf hcb)] at h
    obtain rfl := Option.some.inj h
    exact refl q

end Tame

/-- What holds where a thread comes to program `p`: a notification, but for that of `destroy`, and
`alloc_cb` find no mutex held. -/
structure Unburdened (H : Mutex → Bool) (p : QProg Reply) : Prop where
  noti : ∀ e k, p = emit e k → e ≠ .destroyNoti → ∀ m, H m = false
  alloc : ∀ me born f, p = callAllocCb me born >>= f → ∀ m, H m = false

/-- The rules behind the callbacks. -/
def callbackRules (n : ℕ) :
    Rules (Fin n) Mutex Cond Event AllocResult SurfaceQueue Request Reply where
  inv := fun _ => True
  rely := fun _ H q q' => (H .global = true → q' = q) ∧ (q.valid = false → q'.valid = false)
  effect := fun _ _ H q q' _ => q' = q ∨ (H .global = true ∧ Tame q q')
  point := fun _ _ _ H p _ => Unburdened H p
  rest := fun _ H q => H .global = false ∧ (H .queue = true → q.valid = false)
  calls := fun _ _ => True
  allow := fun _ o q q' => q' = q ∨ (q.freeCb = true → ¬q.Deletes o)
  back := fun _ _ => True
  answer := fun _ => True

section Rules

variable {kind : Kind} {n : ℕ} {t : Fin n} {o : Request} {r b g : Bool} {H K : Mutex → Bool}
  {q q' : SurfaceQueue}

instance : Guarded (callbackRules n) where
  refl := ⟨fun _ => rfl, id⟩
  held := fun h => h.1 rfl
  allow := .inl rfl
  effect := .inl rfl

instance : Points (callbackRules n) o where
  pure := ⟨nofun, nofun⟩
  lockGlobal := fun _ => ⟨nofun, nofun⟩
  lockQueue := ⟨nofun, nofun⟩
  unlockGlobal := ⟨nofun, nofun⟩
  unlockQueue := fun _ => ⟨nofun, nofun⟩
  signal := ⟨nofun, nofun⟩
  act := ⟨nofun, nofun⟩
  emit := by
    intro t r H e p q hH
    refine ⟨fun e' k hk he m => ?_, nofun⟩
    obtain rfl : e = e' := by injection hk
    rw [hH he]
    cases m <;> rfl
  allocCb := by
    intro t r f q
    refine ⟨nofun, fun _ _ _ _ m => ?_⟩
    cases m <;> rfl
  create := by
    -- Without `alloc_cb` the surface is created under both mutexes.
    intro t r H me born f q
    refine ⟨nofun, fun me' born' k hk => ?_⟩
    injection hk with hk
    nomatch congrFun hk ⟨none, false⟩
  rest := fun hb => ⟨rfl, hb⟩
  valid := fun hr _ _ => hr.2

/-- A data step that spares the nodes while `free_cb` is set calls nobody back. -/
theorem DataStep.tame {op : Op} {p : QProg Reply}
    (h : DataStep (callbackRules n) kind t op b q q' p)
    (ha : q.freeCb = true → ¬q.Deletes (.op op)) : Tame q q' := by
  -- A list whose nodes would be deleted is empty if `free_cb` is set.
  have hempty : ∀ {x : Bool}, (x = false → q.Deletes (.op op)) → q.freeCb = true → x = true := by
    intro x hd hcb
    cases x with
    | false => exact absurd (hd rfl) (ha hcb)
    | true => rfl
  have hclear : ∀ {w h f m : ℤ} {q₁}, (q.links.isEmpty .list = false → q.Deletes (.op op)) →
      clearNodes kind.impl { q with width := w, height := h, format := f } = some q₁ →
        Tame q { q₁ with queueSize := m } := by
    intro w h f m q₁ hd hc
    have hlist := hempty hd
    obtain ⟨hv, hcalls⟩ := Tame.clearNodes
      (q := { q with width := w, height := h, format := f }) hlist hc
    exact ⟨hv, hcalls⟩
  cases h with
  | setType => exact .setType _
  | setAllocCb => exact ⟨id, rfl⟩
  | enqueue hn h hs =>
    cases kind with
    | default =>
      obtain rfl : q.queueNodePushBack .dirty _ = q' := Option.some.inj h
      exact .pushBack .dirty
    | sequence =>
      obtain ⟨⟨vs, s⟩, hd, rfl⟩ := Option.map_eq_some_iff.mp h
      exact .of_shuffles (.drain hd)
  | @detach s k q q' p hn hover h =>
    have hdel : q.Deletes (.op (.release (some s))) := by
      simp [SurfaceQueue.Deletes, hover, hn]
    have hf : q.freeCb = false := by
      by_contra hcb
      exact ha (by simpa using hcb) hdel
    exact (Tame.detachNode hf h).1
  | giveBack => exact .pushBack .free
  | acquire he h => exact .of_shuffles (Shuffles.refl.popFront h)
  | dequeue he h => exact .of_shuffles (Shuffles.refl.popFront h)
  | handOut => exact .of_shuffles ((Shuffles.refl.pushBack .dequeue _).setPrivFlags _ 1)
  | request => exact ⟨id, rfl⟩
  | attach => exact .endAttach _ _ _ _ _
  | reset hne hc hs => exact hclear (m := q'.queueSize) (fun hl => ⟨hne, hl⟩) hc
  | flush hne hc hs => exact hclear (m := q'.queueSize) (fun hl => ⟨hne, hl⟩) hc
  | flushSize hm hc hs => exact hclear (fun hl => ⟨hm, hl⟩) hc
  | shrink hm hlt h =>
    have hfree := hempty fun hl => ⟨hm, hlt, hl⟩
    obtain ⟨hv, hcalls⟩ := Tame.detachFree hfree h
    exact ⟨hv, hcalls⟩
  | grow => exact ⟨id, rfl⟩
  | invalidate => exact ⟨fun _ => rfl, rfl⟩
  | deleteNodes hv h => exact .deleteNodes (hempty id) h

theorem callbackRules_keeps : Keeps (callbackRules n) kind Request.op where
  points := fun _ => inferInstance
  step := by
    intro t op b q q' p h _ _ ha
    refine ⟨trivial, ?_⟩
    rcases ha with rfl | ha
    · exact .inl rfl
    · exact .inr ⟨rfl, h.tame ha⟩
  queryPoint := by
    intro t op g p q h _ _
    cases h with
    | yes => exact ⟨nofun, nofun⟩
    | woken => exact ⟨nofun, nofun⟩
    | wait => exact ⟨nofun, nofun⟩

theorem notifyReset_safe (hb : b = true → q.valid = false) :
    (callbackRules n).Safe t .notifyReset r (hold g b) (serve kind n t .notifyReset) q := by
  unfold serve tbmSurfaceQueueNotifyReset
  simp only [bind_bind]
  apply pass_valid hb trivial
  intro q hi
  simp only [bind_bind]
  apply pass_unlockGlobal
  apply pass_notify
  intro q hi
  exact pass_done hi

theorem callbackRules_lawful : (callbackRules n).Lawful (serve kind n) where
  refl := ⟨fun _ => rfl, id⟩
  trans := by
    rintro t H q q' q'' ⟨hg, hv⟩ ⟨hg', hv'⟩
    exact ⟨fun hH => (hg' hH).trans (hg hH), fun h => hv' (hv h)⟩
  frame := by
    intro t u o H K q q' p _ hd he
    rcases he with rfl | ⟨hg, ht⟩
    · exact ⟨fun _ => rfl, id⟩
    · refine ⟨fun hH => ?_, ht.valid⟩
      simp [hd _ hH] at hg
  rest := fun hr _ h => ⟨h.1, fun hb => hr.2 (h.2 hb)⟩
  start := by
    intro t o H q _ hr _
    obtain ⟨-, hb⟩ := hr
    rw [eq_hold H]
    cases o with
    | notifyReset => exact notifyReset_safe hb
    | op o => exact callbackRules_keeps.program_safe trivial hb trivial

end Rules

section Schedules

abbrev RConfig (n : ℕ) := Config (Fin n) Mutex Cond Event AllocResult SurfaceQueue Request Reply

abbrev RAction (n : ℕ) := Action (Fin n) AllocResult Request

/-- One step of a schedule of `n` threads. -/
def play (kind : Kind) {n : ℕ} (a : RAction n) (c : RConfig n) : Option (Unit × RConfig n) :=
  c.step (serve kind n) a

/-- The request of a thread that is about to take a data step. -/
def acting : Status Mutex Cond Event AllocResult SurfaceQueue Request Reply → Option Request
  | .run _ o (.act _ _) => some o
  | _ => none

/-- The notification a thread is about to send. -/
def announcing : Status Mutex Cond Event AllocResult SurfaceQueue Request Reply → Option Event
  | .run _ _ (.emit e _) => some e
  | _ => none

variable {kind : Kind} {n : ℕ} {heard : RConfig n → Event → Bool} {acts : List (RAction n)}
  {q : SurfaceQueue} {c c' : RConfig n} {a : RAction n}
  {log : List (Entry (RConfig n) (RAction n) Unit)}

/-- The step of thread `t` calls the client back; `heard` tells the notification lists that have
a callback. -/
inductive CallsBack (heard : RConfig n → Event → Bool) (t : Fin n) :
    Entry (RConfig n) (RAction n) Unit → Prop
  | noti {c r c' e} (h : announcing (c.thread t) = some e) (hh : heard c e = true) :
    CallsBack heard t ⟨c, .step t, r, c'⟩
  | alloc {c x r c' w o me born f} (h : c.thread t = .run w o (callAllocCb me born >>= f)) :
    CallsBack heard t ⟨c, .input t x, r, c'⟩
  | free {c r c'} (h : c.data.freeCbCalls < c'.data.freeCbCalls) :
    CallsBack heard t ⟨c, .step t, r, c'⟩

/-- No node is deleted while `free_cb` is set, and nobody hears that the queue is destroyed. -/
def Spares (heard : RConfig n → Event → Bool) (c : RConfig n) : RAction n → Prop
  | .step t => (∀ o ∈ acting (c.thread t), c.data.freeCb = true → ¬c.data.Deletes o) ∧
    (announcing (c.thread t) = some .destroyNoti → heard c .destroyNoti = false)
  | _ => True

instance : DecidablePred (Spares heard c)
  | .step t => inferInstanceAs (Decidable ((∀ o ∈ acting (c.thread t), _) ∧ (_ = _ → _ = _)))
  | .call _ _ | .input _ _ | .signal _ _ | .spurious _ | .wake _ => isTrue trivial

private theorem callbackRules_obeys (h : Spares heard c a) : (callbackRules n).Obeys c a := by
  cases a with
  | step t =>
    intro r o p c' ht ha
    rcases Config.advance_data ha with ⟨β, f, k, rfl⟩ | he
    · refine .inr (h.1 o ?_)
      simp [acting, ht]
    · exact .inl he
  | call t o => trivial
  | input t x => trivial
  | signal t u => trivial
  | spurious t => trivial
  | wake t => exact fun _ _ _ _ _ => trivial

private theorem callsBack_free {t : Fin n} (hg : (callbackRules n).Global c) (ho : Spares heard c a)
    (hm : c.Moved (serve kind n) a c') (hcb : CallsBack heard t ⟨c, a, (), c'⟩) :
    ∀ m, c.owner m ≠ some t := by
  have hL : (callbackRules n).Lawful (serve kind n) := callbackRules_lawful
  have hheld : ∀ {m}, c.held t m = false → c.owner m ≠ some t := by
    intro m h
    simpa [Config.held] using h
  cases hcb with
  | @noti _ _ _ e h hh =>
    unfold announcing at h
    split at h
    next r o e' k hc =>
      obtain rfl := Option.some.inj h
      intro m
      have hne : e' ≠ .destroyNoti := by
        rintro rfl
        have hq := ho.2 (by simp [announcing, hc])
        simp [hq] at hh
      exact hheld ((hg.onward hL hc).1.noti e' k rfl hne m)
    next => simp at h
  | alloc h =>
    intro m
    exact hheld ((hg.onward hL h).1.alloc _ _ _ rfl m)
  | free h =>
    rcases hg.effect hL hm (callbackRules_obeys ho) with he | ⟨_, _, _, _, _, he⟩
    · rw [he] at h
      omega
    · rcases he with he | ⟨_, he⟩
      · rw [he] at h
        omega
      · have hcalls := he.calls
        omega

/-- In every schedule in which no node is deleted while `free_cb` is set and no callback hears that
the queue is destroyed, a thread that calls the client back holds none of the mutexes. -/
theorem callbacks_unlocked (hp : Permitted (play kind) (Spares heard) acts (.initial q))
    (hr : run (play kind) acts (.initial q) = some (log, c)) :
    ∀ e ∈ log, ∀ t, CallsBack heard t e → ∀ m, e.before.owner m ≠ some t := by
  have hinit : (callbackRules n).Global (.initial q) := by
    refine ⟨trivial, fun t => ⟨?_, fun hb => ?_⟩⟩
    · simp [Config.held, Config.initial]
    · simp [Config.held, Config.initial] at hb
  have hall := run_safe (fun log c => (callbackRules n).Global c ∧
    ∀ e ∈ log, ∀ t, CallsBack heard t e → ∀ m, e.before.owner m ≠ some t)
    ⟨hinit, by simp⟩ (fun log c a _ c' h ho hs => ?_) hp hr
  · exact hall.2
  · have hm := Config.moved_of_step hs
    refine ⟨h.1.moved callbackRules_lawful hm (callbackRules_obeys ho), fun e he t hcb => ?_⟩
    rcases List.mem_append.mp he with he | he
    · exact h.2 e he t hcb
    · obtain rfl := List.mem_singleton.mp he
      exact callsBack_free h.1 ho hm hcb

/-- The client sets both callbacks and dequeues a surface, which `alloc_cb` supplies. -/
private def supplied : List (RAction 1) :=
  [.call 0 (.op (.setAllocCb true true))] ++ List.replicate 7 (.step 0) ++
    [.call 0 (.op .dequeue)] ++ List.replicate 7 (.step 0) ++ [.input 0 ⟨some 7, true⟩] ++
    List.replicate 12 (.step 0)

theorem callbacks_unlocked_supplied : ∃ q log c, Kind.default.create 1 4 4 1 0 = some q ∧
    run (play .default) supplied (.initial q) = some (log, c) ∧
    ∃ e ∈ log, CallsBack (fun _ _ => true) 0 e ∧ ∀ m, e.before.owner m ≠ some 0 := by
  have hrun : ((Kind.default.create 1 4 4 1 0).bind fun q => (run (play .default) supplied
      (.initial q)).map fun p => (decide (Permitted (play .default) (Spares fun _ _ => true)
        supplied (.initial q)),
        p.1.any fun e => e.call = .step 0 ∧ announcing (e.before.thread 0) = some .dequeueNoti)) =
      some (true, true) := by decide +kernel
  obtain ⟨q, hq, hq'⟩ := Option.bind_eq_some_iff.mp hrun
  obtain ⟨⟨log, c⟩, hr, he⟩ := Option.map_eq_some_iff.mp hq'
  obtain ⟨hp, hany⟩ := Prod.mk.inj he
  obtain ⟨⟨c₁, a, r, c₂⟩, hmem, hd⟩ := List.any_eq_true.mp hany
  obtain ⟨rfl, hann⟩ := of_decide_eq_true hd
  have hcb : CallsBack (fun _ _ => true) 0 ⟨c₁, .step 0, r, c₂⟩ := .noti hann rfl
  exact ⟨q, log, c, hq, hr, _, hmem, hcb, callbacks_unlocked (of_decide_eq_true hp) hr _ hmem 0 hcb⟩

/-- A `destroy` calls `free_cb` and the destroy notification while it holds the global mutex. -/
theorem destroy_calls_locked : ∃ q log c, Kind.default.create 1 4 4 1 0 = some q ∧
    run (play .default) (supplied ++ [.call 0 (.op .destroy)] ++ List.replicate 6 (.step 0))
      (.initial q) = some (log, c) ∧
    (∃ e ∈ log, CallsBack (fun _ _ => true) 0 e ∧
      announcing (e.before.thread 0) = some .destroyNoti ∧ e.before.owner .global = some 0) ∧
    ∃ e ∈ log, CallsBack (fun _ _ => true) 0 e ∧
      e.before.data.freeCbCalls < e.after.data.freeCbCalls ∧ e.before.owner .global = some 0 := by
  have hrun : ((Kind.default.create 1 4 4 1 0).bind fun q => (run (play .default)
      (supplied ++ [.call 0 (.op .destroy)] ++ List.replicate 6 (.step 0)) (.initial q)).map
      fun p => ((p.1.any fun e => e.call = .step 0 ∧
          announcing (e.before.thread 0) = some .destroyNoti ∧ e.before.owner .global = some 0),
        p.1.any fun e => e.call = .step 0 ∧
          e.before.data.freeCbCalls < e.after.data.freeCbCalls ∧
            e.before.owner .global = some 0)) = some (true, true) := by decide +kernel
  obtain ⟨q, hq, hq'⟩ := Option.bind_eq_some_iff.mp hrun
  obtain ⟨⟨log, c⟩, hr, he⟩ := Option.map_eq_some_iff.mp hq'
  obtain ⟨hnoti, hfree⟩ := Prod.mk.inj he
  refine ⟨q, log, c, hq, hr, ?_, ?_⟩
  · obtain ⟨⟨c₁, a, r, c₂⟩, hmem, hd⟩ := List.any_eq_true.mp hnoti
    obtain ⟨rfl, hann, ho⟩ := of_decide_eq_true hd
    exact ⟨_, hmem, .noti hann rfl, hann, ho⟩
  · obtain ⟨⟨c₁, a, r, c₂⟩, hmem, hd⟩ := List.any_eq_true.mp hfree
    obtain ⟨rfl, hlt, ho⟩ := of_decide_eq_true hd
    exact ⟨_, hmem, .free hlt, hlt, ho⟩

end Schedules

end Tbm.Queue
