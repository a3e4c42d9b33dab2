import Tbm.Queue.Schedules
import Tbm.Queue.Reachable

/-! Resets against allocations that are under way: the surfaces on the queue were requested after
the last reset, flush or flushing size change. -/
namespace Tbm.Queue

open Prog Runs

section Data

variable {kind : Kind} {me : ℕ} {op : Op} {q q' : SurfaceQueue}

/-- Every attached surface and every request belongs to the current epoch. -/
structure Current (q : SurfaceQueue) : Prop where
  nodes : ∃ A, Registry q A ∧ ∀ n ∈ A, (q.node n).born = q.epoch
  requests : ∀ e ∈ q.allocating, e.2 = q.epoch

private theorem Current.congr (h : Current q) (hl : q'.links = q.links) (hn : q'.node = q.node)
    (hk : q'.nodes = q.nodes) (he : q'.epoch = q.epoch)
    (ha : ∀ e ∈ q'.allocating, e ∈ q.allocating) :
    Current q' := by
  obtain ⟨A, hA, hb⟩ := h.nodes
  have hA' : Registry q' A := by
    refine hA.congr ?_ (fun c _ => ?_) (fun k => ?_) hk
    · rw [hl]
      exact hA.kinded
    · rw [hl]
      exact ⟨rfl, rfl⟩
    · rw [hn]
  refine ⟨⟨A, hA', fun n hm => ?_⟩, fun e hm => ?_⟩
  · rw [hn, he]
    exact hb n hm
  · rw [he]
    exact h.requests e (ha e hm)

private theorem Current.narrow (h : Current q) (hq : Narrows q q') : Current q' := by
  obtain ⟨A, hA, hb⟩ := h.nodes
  obtain ⟨A', hA', hsub⟩ := hq.registry A hA
  have he : q'.epoch = q.epoch := congrArg SurfaceQueue.Settings.epoch hq.settings
  have ha : q'.allocating = q.allocating := congrArg SurfaceQueue.Settings.allocating hq.settings
  refine ⟨⟨A', hA', fun n hm => ?_⟩, fun e hm => ?_⟩
  · rw [(hsub n hm).2, he]
    exact hb n (hsub n hm).1
  · rw [he]
    exact h.requests e (ha ▸ hm)

private theorem Current.record (h : Current q) (cs : List Call) : Current (q.record cs) :=
  h.congr rfl rfl rfl rfl fun _ he => he

private theorem Current.attach (h : Current q) (ok : Bool) (s : Surface) :
    Current (q.surfaceQueueAttach ok s q.epoch) := by
  obtain ⟨A, hA, hb⟩ := h.nodes
  unfold SurfaceQueue.surfaceQueueAttach
  cases ok with
  | false => exact h
  | true =>
    have hlink := (hA.linkNewNode s q.epoch).pushBack .free q.nodes
    refine ⟨⟨A ++ [q.nodes], hlink, fun n hm => ?_⟩, h.requests⟩
    rcases List.mem_append.mp hm with hm | hm
    · have hne : n ≠ q.nodes := fun e => absurd (e ▸ hA.bound n hm) (lt_irrefl _)
      have hnode :
          ((q.linkNewNode s q.epoch).queueNodePushBack .free q.nodes).node n = q.node n := by
        simp [SurfaceQueue.queueNodePushBack, SurfaceQueue.linkNewNode, hne]
      rw [if_pos rfl, hnode]
      exact hb n hm
    · rw [List.mem_singleton.mp hm]
      simp [SurfaceQueue.queueNodePushBack, SurfaceQueue.linkNewNode]

theorem Change.current (h : Change kind me q op q') (hc : Current q)
    (hclear : q.epoch < q'.epoch → q.allocating = []) : Current q' := by
  cases h with
  | narrow h => exact hc.narrow h
  | callbacks => exact hc.congr rfl rfl rfl rfl fun _ he => he
  | request =>
    obtain ⟨A, hA, hb⟩ := hc.nodes
    refine ⟨⟨A, hA.congr hA.kinded (fun _ _ => ⟨rfl, rfl⟩) (fun _ => rfl) rfl, hb⟩, fun e he => ?_⟩
    rcases List.mem_cons.mp he with rfl | he
    · rfl
    · exact hc.requests e he
  | @attach _ cb born x _ hmem =>
    obtain rfl : born = q.epoch := hc.requests _ hmem
    have hq : Current { q with allocating := q.allocating.erase (me, q.epoch) } :=
      hc.congr rfl rfl rfl rfl fun _ he => List.mem_of_mem_erase he
    unfold endAttach
    cases x.surface with
    | none => exact hq
    | some s =>
      exact ((hq.record _).attach x.node s).record _
  | @resize p _ _ h => exact (hc.narrow h).congr rfl rfl rfl rfl fun _ he => he
  | @clear _ p width height format _ _ h =>
    obtain ⟨hs, -⟩ := clearNodes_settings h
    have he : p.epoch = q.epoch + 1 := congrArg SurfaceQueue.Settings.epoch hs
    have ha : p.allocating = q.allocating := congrArg SurfaceQueue.Settings.allocating hs
    have hnone : q.allocating = [] := hclear (by simp only [he]; omega)
    obtain ⟨A, hA, -⟩ := hc.nodes
    have hA' : Registry { q with width, height, format } A :=
      hA.congr hA.kinded (fun _ _ => ⟨rfl, rfl⟩) (fun _ => rfl) rfl
    obtain ⟨p', hp', hrep, -⟩ := hA'.clearNodes kind
    obtain rfl : p' = p := Option.some.inj (hp'.symm.trans h)
    have hempty : Registry p' [] := hrep.toRegistry
    refine ⟨⟨[], hempty.congr hempty.kinded (fun _ _ => ⟨rfl, rfl⟩) (fun _ => rfl) rfl, nofun⟩, ?_⟩
    intro e hm
    rw [ha, hnone] at hm
    nomatch hm
  | invalidate => exact hc.congr rfl rfl rfl rfl fun _ he => he

end Data

section Threads

variable {kind : Kind} {n : ℕ} {q : SurfaceQueue} {acts : List (QAction n)} {c : QConfig n}
  {log : List (Entry (QConfig n) (QAction n) Unit)}

/-- A reset to the same geometry or a flush of an empty queue is about to return. -/
def FindsNothing (c : QConfig n) (t : Fin n) : Bool :=
  match c.thread t with
  | .run _ op (.unlock .global (.ret (.error .none))) => decide op.Clearing
  | _ => false

/-- In this step of `t` a reset, flush or flushing size change takes effect or finds nothing to
do. -/
def Clears (t : Fin n) (c c' : QConfig n) : Prop :=
  c.data.epoch < c'.data.epoch ∨ FindsNothing c t = true

instance (t : Fin n) (c c' : QConfig n) : Decidable (Clears t c c') :=
  inferInstanceAs (Decidable (_ ∨ _))

/-- This only happens while no surface is being allocated. -/
def ClearsQuietly (kind : Kind) (c : QConfig n) : QAction n → Prop
  | .step t => ∀ r ∈ move kind (.step t) c, Clears t c r.2 → c.data.allocating = []
  | _ => True

instance (c : QConfig n) : ∀ a, Decidable (ClearsQuietly kind c a)
  | .step t => inferInstanceAs (Decidable (∀ r ∈ move kind (.step t) c, _))
  | .call _ _ | .input _ _ | .signal _ _ | .spurious _ | .wake _ => isTrue trivial

/-- What is read off a run: the clearances so far, and how many there had been when a thread last
passed the size check of `need_attach`, when the surface of a node was requested, and when the node
was attached. -/
structure Watch where
  clears : ℕ
  asked : ℕ → ℕ
  requested : ℕ → ℕ
  attached : ℕ → ℕ

def Watch.ask (w : Watch) (t : ℕ) : Watch :=
  { w with asked := Function.update w.asked t w.clears }

/-- Thread `t` attaches node `k`. -/
def Watch.attach (w : Watch) (t k : ℕ) : Watch :=
  { w with
    requested := Function.update w.requested k (w.asked t)
    attached := Function.update w.attached k w.clears }

def Watch.see (w : Watch) (e : Entry (QConfig n) (QAction n) Unit) : Watch :=
  match e.call with
  | .step t =>
    if Clears t e.before e.after then { w with clears := w.clears + 1 }
    else if e.before.data.allocating.length < e.after.data.allocating.length then w.ask t
    else if e.before.data.nodes < e.after.data.nodes then w.attach t e.before.data.nodes
    else w
  | _ => w

def watch (log : List (Entry (QConfig n) (QAction n) Unit)) : Watch :=
  log.foldl Watch.see ⟨0, fun _ => 0, fun _ => 0, fun _ => 0⟩

theorem watch_append (e : Entry (QConfig n) (QAction n) Unit) :
    watch (log ++ [e]) = (watch log).see e := by
  simp only [watch, List.foldl_append, List.foldl_cons, List.foldl_nil]

/-- Node `k` has been requested after the last clearance that emptied the queue, and after the last
one of any sort before it was attached. -/
structure Recent (log : List (Entry (QConfig n) (QAction n) Unit)) (c : QConfig n) (k : ℕ) :
    Prop where
  born : (c.data.node k).born = c.data.epoch
  same : (watch log).requested k = (watch log).attached k

/-- No request is older than the last clearance, and no node was requested before one and attached
after it. -/
structure Timely (w : Watch) (q : SurfaceQueue) : Prop where
  asked : ∀ e ∈ q.allocating, w.asked e.1 = w.clears
  same : ∀ k, w.requested k = w.attached k

theorem FindsNothing.data {t : Fin n} {c' : QConfig n} (h : FindsNothing c t = true)
    (hm : c.Moved (code kind n) (.step t) c') : c'.data = c.data := by
  cases hm with
  | act hc => simp [FindsNothing, hc] at h
  | _ => rfl

/-- What one data step changes of the requests, the nodes and the epoch. -/
theorem Change.traffic {me : ℕ} {op : Op} {q q' : SurfaceQueue} (h : Change kind me q op q') :
    (q'.allocating = q.allocating ∧ q'.nodes = q.nodes) ∨
      q'.epoch = q.epoch ∧
        ((q'.allocating = (me, q.epoch) :: q.allocating ∧ q'.nodes = q.nodes) ∨
          ∃ born, (me, born) ∈ q.allocating ∧ q'.allocating = q.allocating.erase (me, born)) := by
  have keep {p : SurfaceQueue} (hp : p.settings = q.settings) :
      p.allocating = q.allocating ∧ p.nodes = q.nodes :=
    ⟨congrArg SurfaceQueue.Settings.allocating hp, congrArg SurfaceQueue.Settings.nodes hp⟩
  cases h with
  | narrow h => exact .inl (keep h.settings)
  | callbacks => exact .inl ⟨rfl, rfl⟩
  | request => exact .inr ⟨rfl, .inl ⟨rfl, rfl⟩⟩
  | attach _ hmem => exact .inr ⟨endAttach_epoch, .inr ⟨_, hmem, endAttach_allocating⟩⟩
  | resize _ h =>
    obtain ⟨ha, hn⟩ := keep h.settings
    exact .inl ⟨ha, hn⟩
  | clear _ h =>
    obtain ⟨hs, -⟩ := clearNodes_settings h
    exact .inl ⟨congrArg SurfaceQueue.Settings.allocating hs,
      congrArg SurfaceQueue.Settings.nodes hs⟩
  | invalidate => exact .inl ⟨rfl, rfl⟩

section Timely

variable {w : Watch} {q' : SurfaceQueue} {me born : ℕ}

theorem Timely.narrow (h : Timely w q) (ha : ∀ e ∈ q'.allocating, e ∈ q.allocating) :
    Timely w q' :=
  ⟨fun e he => h.asked e (ha e he), h.same⟩

theorem Timely.ask (h : Timely w q) (ha : q'.allocating = (me, born) :: q.allocating) :
    Timely (w.ask me) q' := by
  refine ⟨fun e he => ?_, h.same⟩
  show Function.update w.asked me w.clears e.1 = w.clears
  by_cases ht : e.1 = me
  · rw [ht, Function.update_self]
  · rw [Function.update_of_ne ht]
    rw [ha] at he
    rcases List.mem_cons.mp he with rfl | he
    · exact absurd rfl ht
    · exact h.asked e he

theorem Timely.attach (h : Timely w q) (hmem : (me, born) ∈ q.allocating)
    (ha : q'.allocating = q.allocating.erase (me, born)) (k : ℕ) :
    Timely (w.attach me k) q' := by
  refine ⟨fun e he => ?_, fun j => ?_⟩
  · rw [ha] at he
    exact h.asked e (List.mem_of_mem_erase he)
  · show Function.update w.requested k (w.asked me) j = Function.update w.attached k w.clears j
    by_cases hj : j = k
    · rw [hj, Function.update_self, Function.update_self]
      exact h.asked _ hmem
    · rw [Function.update_of_ne hj, Function.update_of_ne hj]
      exact h.same j

theorem Timely.see {t : Fin n} {c' : QConfig n} (h : Timely w c.data)
    (hm : c.Moved (code kind n) (.step t) c')
    (hd : c'.data = c.data ∨ ∃ op, Change kind t c.data op c'.data)
    (hquiet : Clears t c c' → c.data.allocating = []) :
    Timely (w.see ⟨c, .step t, (), c'⟩) c'.data := by
  have hkinds : (c'.data.allocating = c.data.allocating ∧ c'.data.nodes = c.data.nodes) ∨
      c'.data.epoch = c.data.epoch ∧
        ((c'.data.allocating = (t.val, c.data.epoch) :: c.data.allocating ∧
            c'.data.nodes = c.data.nodes) ∨
          ∃ born, (t.val, born) ∈ c.data.allocating ∧
            c'.data.allocating = c.data.allocating.erase (t.val, born)) := by
    rcases hd with hd | ⟨op, hd⟩
    · rw [hd]
      exact .inl ⟨rfl, rfl⟩
    · exact hd.traffic
  simp only [Watch.see]
  split_ifs with hc ha hn
  · -- Nothing is pending, and the step asks for nothing.
    have hnone : c'.data.allocating = [] := by
      rw [← hquiet hc]
      rcases hc with hepoch | hidle
      · rcases hkinds with ⟨he, -⟩ | ⟨he, -⟩
        · exact he
        · omega
      · rw [FindsNothing.data hidle hm]
    refine ⟨fun e he => ?_, h.same⟩
    rw [hnone] at he
    nomatch he
  · rcases hkinds with ⟨he, -⟩ | ⟨-, ⟨he, -⟩ | ⟨born, hmem, he⟩⟩
    · rw [he] at ha
      omega
    · exact h.ask he
    · rw [he, List.length_erase_of_mem hmem] at ha
      omega
  · rcases hkinds with ⟨-, he⟩ | ⟨-, ⟨-, he⟩ | ⟨born, hmem, he⟩⟩
    · omega
    · omega
    · exact h.attach hmem he _
  · rcases hkinds with ⟨he, -⟩ | ⟨-, ⟨he, -⟩ | ⟨born, -, he⟩⟩
    · exact h.narrow fun e hin => he ▸ hin
    · rw [he, List.length_cons] at ha
      omega
    · exact h.narrow fun e hin => List.mem_of_mem_erase (he ▸ hin)

end Timely

theorem step_current {a : QAction n} {c' : QConfig n}
    (hg : (rules kind n fun _ _ => True).Global c) (hc : Current c.data)
    (ht : Timely (watch log) c.data) (hquiet : ClearsQuietly kind c a)
    (hs : move kind a c = some ((), c')) :
    Current c'.data ∧ Timely (watch (log ++ [⟨c, a, (), c'⟩])) c'.data := by
  have hm := Config.moved_of_step hs
  rw [watch_append]
  rcases hg.effect rules_lawful hm (obeys_true c a) with hd | ⟨t, op, p, ho, rfl, he⟩
  · rw [hd]
    refine ⟨hc, ?_⟩
    cases a with
    | step t =>
      rw [← hd]
      exact ht.see hm (.inl hd) (hquiet _ hs)
    | _ => exact ht
  · rcases he with hd | ⟨-, -, hch⟩
    · refine ⟨?_, ht.see hm (.inl hd) (hquiet _ hs)⟩
      rw [hd]
      exact hc
    · constructor
      · exact hch.current hc fun hlt => hquiet _ hs (.inl hlt)
      · exact ht.see hm (.inr ⟨op, hch⟩) (hquiet _ hs)

/-- Every surface on the queue was requested after the last reset, flush or flushing size change
that emptied the queue, and after the last one of any sort before it was attached; so was the one a
`dequeue` would take. This holds if none of them returns while a surface is being allocated. -/
theorem surfaces_current {queueSize width height format flags : ℤ}
    (hc : kind.create queueSize width height format flags = some q)
    (hp : Permitted (move kind) (ClearsQuietly kind) acts (.initial q))
    (hr : run (move kind) acts (.initial q) = some (log, c)) :
    (∃ ns, c.data.listNodes = some ns ∧ ∀ k ∈ ns, Recent log c k) ∧
      ∀ k q', c.data.queueNodePopFront .free = some (k, q') → Recent log c k := by
  have hm : Matches kind q _ := create_matches hc
  obtain ⟨-, -, hall, -⟩ := create_room hc
  have hstart : Current (.initial q : QConfig n).data := by
    refine ⟨⟨[], hm.toRegistry, nofun⟩, fun e he => ?_⟩
    simp [Config.initial, hall] at he
  have htimely : Timely (watch ([] : List (Entry (QConfig n) (QAction n) Unit)))
      (.initial q : QConfig n).data := by
    refine ⟨fun e he => ?_, fun _ => rfl⟩
    simp [Config.initial, hall] at he
  obtain ⟨-, h, ht⟩ := Rules.run_global_log rules_lawful
    (fun log c => Current c.data ∧ Timely (watch log) c.data) initial_global ⟨hstart, htimely⟩
    (fun c a _ => obeys_true c a)
    (fun log c a c' hg h hquiet hs => step_current hg h.1 h.2 hquiet hs) hp hr
  obtain ⟨A, hA, hb⟩ := h.nodes
  refine ⟨⟨A, hA.listNodes_eq, fun k hk => ⟨hb k hk, ht.same k⟩⟩, fun k q' hpop => ?_⟩
  obtain ⟨k', hk, e⟩ := Option.bind_eq_some_iff.mp hpop
  obtain ⟨rfl, -⟩ : k' = k ∧ _ := by simpa using e
  exact ⟨hb k' ((hA.live k').mp (SurfaceQueue.live_of_item hk)), ht.same k'⟩

/-- Thread 0 has set its callbacks and its `alloc_cb` has returned a surface. -/
def answered : List (QAction 2) :=
  [.call 0 (.setAllocCb true false)] ++ steps 0 7 ++ [.call 0 .dequeue] ++ steps 0 7 ++
    [.input 0 ⟨some 7, true⟩]

/-- Thread 1 resets the queue to another geometry. -/
def resetAlone : List (QAction 2) :=
  [.call 1 (.reset 8 8 1)] ++ steps 1 6 ++ [.signal 1 none] ++ steps 1 3

/-- It does so once more and finds nothing to do. -/
def resetTwice : List (QAction 2) := resetAlone ++ [.call 1 (.reset 8 8 1)] ++ steps 1 5

theorem surfaces_current_reset_first : ∃ q log c, Kind.default.create 1 4 4 1 0 = some q ∧
    run (move .default) (resetTwice ++ answered ++ steps 0 3) (.initial q) = some (log, c) ∧
    (watch log).clears = 2 ∧ c.data.listNodes = some [0] ∧
    (∃ ns, c.data.listNodes = some ns ∧ ∀ k ∈ ns, Recent log c k) ∧
      ∀ k q', c.data.queueNodePopFront .free = some (k, q') → Recent log c k := by
  have hrun : ((Kind.default.create 1 4 4 1 0).bind fun q =>
      (run (move .default) (resetTwice ++ answered ++ steps 0 3) (.initial q)).map fun p =>
        decide (((watch p.1).clears = 2 ∧ p.2.data.listNodes = some [0]) ∧
          Permitted (move .default) (ClearsQuietly .default)
            (resetTwice ++ answered ++ steps 0 3) (.initial q))) = some true := by decide +kernel
  obtain ⟨q, hq, hq'⟩ := Option.bind_eq_some_iff.mp hrun
  obtain ⟨⟨log, c⟩, hr, he⟩ := Option.map_eq_some_iff.mp hq'
  obtain ⟨⟨hclears, hlist⟩, hp⟩ := of_decide_eq_true he
  exact ⟨q, log, c, hq, hr, hclears, hlist, surfaces_current hq hp hr⟩

/-- The reset returns while thread 0 holds a surface of the old geometry, which is attached
afterwards and is the next one to be dequeued. -/
theorem reset_misses_allocation : ∃ q log c, Kind.default.create 1 4 4 1 0 = some q ∧
    run (move .default) (answered ++ resetAlone ++ steps 0 3) (.initial q) = some (log, c) ∧
    (c.data.width, c.data.height) = (8, 8) ∧ c.data.listNodes = some [0] ∧
    (c.data.queueNodePopFront .free).map Prod.fst = some 0 ∧
    (c.data.node 0).born < c.data.epoch ∧
    (watch log).requested 0 < (watch log).attached 0 := by
  have hrun : ((Kind.default.create 1 4 4 1 0).bind fun q =>
      (run (move .default) (answered ++ resetAlone ++ steps 0 3) (.initial q)).map fun p =>
        decide ((p.2.data.width, p.2.data.height) = (8, 8) ∧ p.2.data.listNodes = some [0] ∧
          (p.2.data.queueNodePopFront .free).map Prod.fst = some 0 ∧
          (p.2.data.node 0).born < p.2.data.epoch ∧
          (watch p.1).requested 0 < (watch p.1).attached 0)) = some true := by decide +kernel
  obtain ⟨q, hq, hq'⟩ := Option.bind_eq_some_iff.mp hrun
  obtain ⟨⟨log, c⟩, hr, he⟩ := Option.map_eq_some_iff.mp hq'
  exact ⟨q, log, c, hq, hr, of_decide_eq_true he⟩

end Threads

end Tbm.Queue
