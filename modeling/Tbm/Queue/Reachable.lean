import Tbm.Queue.Refinement
import Tbm.Core.Runs

/-! Runs of calls on one queue. The lists stay well formed and every unlink finds a linked node
as long as a release or a clearing call does not touch the item link of a node that is handed
out. -/
namespace Tbm.Queue

open Runs

/-- One call of a run; the allocator's answer comes with it. -/
def step (kind : Kind) (c : Op × AllocResult) (q : SurfaceQueue) : Option (Reply × SurfaceQueue) :=
  call kind c.1 c.2 q

/-- A call for which the allocator has no surface. -/
def quiet (op : Op) : Op × AllocResult := (op, ⟨none, false⟩)

/-- A call for which the allocator has the surface `s`. -/
def allocating (op : Op) (s : Surface) : Op × AllocResult := (op, ⟨some s, true⟩)

namespace SurfaceQueue

variable (q : SurfaceQueue)

/-- The nodes on `list`. -/
def attached : List ℕ := q.listNodes.getD []

/-- The nodes on an item list; the default queue has no `dequeue_list`. -/
def nodesOn (kind : Kind) (w : Fifo) : List ℕ := if kind.uses w then (q.itemNodes w).getD [] else []

/-- A surface that is only found on `list` may be released if its node is on `dequeue_list`
exactly when the node is to be detached. -/
def ReleaseSound (kind : Kind) : Op → Prop
  | .release (some s) => ∀ f ∈ (q.queueGetNode s).join, f.2 = .nodeList →
    (f.1 ∈ q.nodesOn kind .dequeue ↔ q.queueSize < q.numAttached)
  | _ => True

instance (kind : Kind) : ∀ op, Decidable (q.ReleaseSound kind op)
  | .release (some s) => inferInstanceAs (Decidable (∀ f ∈ (q.queueGetNode s).join, _))
  | .release none | .dequeue | .enqueue _ | .acquire | .canDequeue _ | .canAcquire _
  | .reset _ _ _ | .flush | .setSize _ _ | .setAllocCb _ _ | .destroy => isTrue trivial

/-- The call deletes every attached node. -/
def Clears : Op → Prop
  | .reset width height format => ¬(width = q.width ∧ height = q.height ∧ format = q.format)
  | .flush => q.numAttached ≠ 0
  | .setSize n flush => 0 < n ∧ flush = true
  | .destroy => True
  | _ => False

instance : DecidablePred q.Clears
  | .reset _ _ _ => inferInstanceAs (Decidable (¬_))
  | .flush => inferInstanceAs (Decidable (_ ≠ _))
  | .setSize _ _ => inferInstanceAs (Decidable (_ ∧ _))
  | .destroy => isTrue trivial
  | .dequeue | .enqueue _ | .acquire | .release _ | .canDequeue _ | .canAcquire _
  | .setAllocCb _ _ => isFalse id

/-- Every attached node is on an item list, so none is handed out. -/
def NoneOut (kind : Kind) : Prop := ∀ n ∈ q.attached,
  n ∈ q.nodesOn kind .free ∨ n ∈ q.nodesOn kind .dirty ∨ n ∈ q.nodesOn kind .dequeue

instance (kind : Kind) : Decidable (q.NoneOut kind) := inferInstanceAs (Decidable (∀ n ∈ _, _))

end SurfaceQueue

/-- One call of a run with the states around it. -/
abbrev LogEntry := Entry SurfaceQueue (Op × AllocResult) Reply

abbrev Log := List LogEntry

/-- The call deleted every node. -/
def LogEntry.Cleared (e : LogEntry) : Prop := e.before.valid = true ∧ e.before.Clears e.call.1

instance (e : LogEntry) : Decidable e.Cleared := inferInstanceAs (Decidable (_ ∧ _))

/-- The surface a successful enqueue handed over. -/
def LogEntry.enqueued (e : LogEntry) : Option Surface :=
  match e.call.1, e.reply with
  | .enqueue (some s), .error .none => some s
  | _, _ => none

def LogEntry.acquired (e : LogEntry) : Option Surface :=
  match e.call.1, e.reply with
  | .acquire, .surface .none s => s
  | _, _ => none

/-- The calls since the last one that deleted every node. -/
def Log.sinceClear (log : Log) : Log :=
  log.foldl (fun l e => if LogEntry.Cleared e then [] else l ++ [e]) []

def Log.enqueued (log : Log) : List Surface := log.sinceClear.filterMap LogEntry.enqueued

def Log.acquired (log : Log) : List Surface := log.sinceClear.filterMap LogEntry.acquired

theorem Log.filterMap_concat {α : Type} (f : LogEntry → Option α) (log : Log) (e : LogEntry) :
    (Log.sinceClear (log ++ [e])).filterMap f =
      if e.Cleared then [] else log.sinceClear.filterMap f ++ (f e).toList := by
  rw [sinceClear, List.foldl_append]
  by_cases hc : e.Cleared
  · simp [hc]
  · cases hf : f e <;> simp [hc, hf, sinceClear]

/-- A call that the item lists survive. -/
def KeepsLists (kind : Kind) (q : SurfaceQueue) (c : Op × AllocResult) : Prop :=
  q.valid = true → q.ReleaseSound kind c.1

instance (kind : Kind) (q : SurfaceQueue) (c : Op × AllocResult) :
    Decidable (KeepsLists kind q c) := inferInstanceAs (Decidable (_ → _))

/-- A call that only unlinks linked nodes. -/
def KeepsLinks (kind : Kind) (q : SurfaceQueue) (c : Op × AllocResult) : Prop :=
  q.valid = true → q.ReleaseSound kind c.1 ∧ (q.Clears c.1 → q.NoneOut kind)

instance (kind : Kind) (q : SurfaceQueue) (c : Op × AllocResult) :
    Decidable (KeepsLinks kind q c) := inferInstanceAs (Decidable (_ → _))

namespace Matches

variable {kind : Kind} {q : SurfaceQueue} {v : View} {op : Op}

theorem attached_eq (h : Matches kind q v) : q.attached = v.list := by
  rw [SurfaceQueue.attached, h.toRegistry.listNodes_eq]
  rfl

theorem nodesOn_eq (h : Matches kind q v) (w : Fifo) : q.nodesOn kind w = v.on w := by
  unfold SurfaceQueue.nodesOn
  by_cases hu : kind.uses w
  · rw [if_pos hu, h.toLayout.itemNodes_eq hu]
    rfl
  · rw [if_neg hu]
    exact (h.unused w (by simpa using hu)).symm

theorem sound_iff (h : Matches kind q v) : q.ReleaseSound kind op ↔ v.Sound op := by
  unfold SurfaceQueue.ReleaseSound View.Sound
  rw [h.queueSize, h.numAttached]
  rcases op with _ | _ | _ | (_ | s) | _ | _ | _ | _ | _ | _ | _ <;> try rfl
  simp only [h.queueGetNode_eq, h.nodesOn_eq, Option.join_some, Option.mem_def, Prod.forall]
  exact ⟨fun hs n hn => hs n _ hn rfl, fun hs n f hn hf => hs n (hf ▸ hn)⟩

theorem clears_iff (h : Matches kind q v) : q.Clears op ↔ v.Clears op := by
  have hw : q.width = v.settings.width := congrArg SurfaceQueue.Settings.width h.settings
  have hh : q.height = v.settings.height := congrArg SurfaceQueue.Settings.height h.settings
  have hf : q.format = v.settings.format := congrArg SurfaceQueue.Settings.format h.settings
  unfold SurfaceQueue.Clears View.Clears
  cases op <;> simp [hw, hh, hf, h.numAttached]

theorem noneOut_iff (h : Matches kind q v) : q.NoneOut kind ↔ v.NoneOut := by
  unfold SurfaceQueue.NoneOut View.NoneOut
  rw [h.attached_eq]
  simp only [h.nodesOn_eq]
  refine forall₂_congr fun n _ => ⟨?_, ?_⟩
  · rintro (hf | hd | hq)
    · exact ⟨.free, hf⟩
    · exact ⟨.dirty, hd⟩
    · exact ⟨.dequeue, hq⟩
  · rintro ⟨w, hw⟩
    cases w with
    | free => exact .inl hw
    | dirty => exact .inr (.inl hw)
    | dequeue => exact .inr (.inr hw)

end Matches

/-- A new queue: no node, and settings from the arguments. -/
def View.init (queueSize width height format flags : ℤ) : View where
  lists := .empty
  node := fun _ => { surface := 0, type := .none, privFlags := 0, freed := true, born := 0 }
  settings :=
    { width, height, format, flags, queueSize
      valid := true, allocCb := false, freeCb := false, nodes := 0, epoch := 0, allocating := [] }

private theorem surfaceQueueInit_matches (kind : Kind) (queueSize width height format flags : ℤ) :
    Matches kind (surfaceQueueInit kind.impl queueSize width height format flags)
      (.init queueSize width height format flags) := by
  have hl : ∀ c, (surfaceQueueInit kind.impl queueSize width height format flags).links.next c = c ∧
      (surfaceQueueInit kind.impl queueSize width height format flags).links.prev c = c := by
    intro c
    cases kind <;> simp only [surfaceQueueInit, Kind.impl, tbmQueueDefaultImpl,
      tbmQueueSequenceImpl, tbmQueueSequenceInit, SurfaceQueue.queueInit, Links.inithead_next,
      Links.inithead_prev, id_eq, and_self] <;> split_ifs <;> simp_all
  have hk : Kinded (surfaceQueueInit kind.impl queueSize width height format flags).links := by
    intro c
    rw [(hl c).1, (hl c).2]
    exact ⟨rfl, rfl⟩
  have hn : ∀ n, (surfaceQueueInit kind.impl queueSize width height format flags).node n =
      { surface := 0, type := .none, privFlags := 0, freed := true, born := 0 } := by
    intro n
    cases kind <;> rfl
  have hnil (n : ℕ) : n ∉ ([] : List ℕ) := List.not_mem_nil
  constructor
  · refine ⟨⟨⟨hk, Links.ring_nil.mpr (hl _), fun n => ?_, fun n hm => absurd hm (hnil n)⟩,
      fun w _ => ?_, fun _ _ => rfl, fun hm => absurd hm (hnil _),
      fun hm => absurd hm (hnil _)⟩, ?_⟩
    · simp [hn, View.init, Lists.empty]
    · exact Links.ring_nil.mpr (hl _)
    · cases kind <;> rfl
  · exact fun n hm => absurd hm (hnil n)
  · cases kind <;> rfl

variable {kind : Kind} {queueSize width height format flags : ℤ} {q : SurfaceQueue}

theorem create_eq (h : kind.create queueSize width height format flags = some q) :
    q = surfaceQueueInit kind.impl queueSize width height format flags := by
  have h' : surfaceQueueNew kind.impl queueSize width height format flags = some q := by
    cases kind <;> exact h
  unfold surfaceQueueNew at h'
  split at h'
  · exact (Option.some.inj h').symm
  · simp at h'

theorem create_room
    (hc : kind.create queueSize width height format flags = some q) :
    0 < q.queueSize ∧ q.numAttached = 0 ∧ q.allocating = [] ∧ q.valid = true := by
  have hn : surfaceQueueNew kind.impl queueSize width height format flags = some q := by
    cases kind <;> exact hc
  unfold surfaceQueueNew at hn
  split_ifs at hn with hpos
  obtain rfl := Option.some.inj hn
  cases kind <;> exact ⟨hpos.1, rfl, rfl, rfl⟩

theorem create_matches (h : kind.create queueSize width height format flags = some q) :
    Matches kind q (.init queueSize width height format flags) := by
  rw [create_eq h]
  exact surfaceQueueInit_matches kind queueSize width height format flags

theorem create_linked (h : kind.create queueSize width height format flags = some q) :
    AllLinked q := by
  have hu : (surfaceQueueInit kind.impl queueSize width height format flags).unlinks = [] := by
    cases kind <;> rfl
  unfold AllLinked
  rw [create_eq h, hu]
  exact nofun

/-- The three item lists of a sequence queue are circular and share no node, and the drain loop
returns after visiting nodes of `dequeue_list` only. -/
structure ListsSound (q : SurfaceQueue) : Prop where
  circular : ∀ w, ∃ ns, q.itemNodes w = some ns ∧ q.links.Ring (.head w) (ns.map .item)
  apart : ∀ n ∈ q.attached, ∀ w w', n ∈ q.nodesOn .sequence w → n ∈ q.nodesOn .sequence w' → w = w'
  drain : ∀ n ∈ q.attached, ∃ vs q', tbmQueueSequenceEnqueue n q = some (vs, q') ∧
    ∀ k ∈ vs, k ∈ q.nodesOn .sequence .dequeue

private theorem Matches.listsSound {v : View} (h : Matches .sequence q v) : ListsSound q where
  circular := by
    intro w
    have hu : Kind.sequence.uses w = true := by cases w <;> rfl
    exact ⟨v.on w, h.toLayout.itemNodes_eq hu, h.rings w hu⟩
  apart := by
    intro n _ w w' hw hw'
    rw [h.nodesOn_eq] at hw hw'
    exact h.apart hw hw'
  drain := by
    intro n hn
    obtain ⟨vs, q', he, hvs, -⟩ := h.toLayout.tbmQueueSequenceEnqueue n
    refine ⟨vs, q', he, ?_⟩
    rw [h.nodesOn_eq]
    exact hvs

theorem Tracks.valid_eq {v : View} (h : Tracks kind q v) : q.valid = v.settings.valid :=
  congrArg SurfaceQueue.Settings.valid h.settings

theorem Tracks.allows {v : View} {op : Op} (h : Tracks kind q v)
    (hok : q.valid = true → q.ReleaseSound kind op) : Tracks.Allows v op := by
  intro hval
  exact (h.live hval).sound_iff.mp (hok (h.valid_eq.trans hval))

/-- A sequence queue whose releases are sound keeps its three lists disjoint and circular. -/
theorem sequence_lists_sound {cs : List (Op × AllocResult)}
    (hc : tbmSurfaceQueueSequenceCreate queueSize width height format flags = some q)
    (hp : Permitted (step .sequence) (KeepsLists .sequence) cs q) :
    ∃ log q', run (step .sequence) cs q = some (log, q') ∧ (q'.valid = true → ListsSound q') := by
  have hm : Matches .sequence q _ := create_matches hc
  have hstart : ∃ v, Tracks .sequence q v := ⟨_, hm.settings, fun _ => hm⟩
  obtain ⟨log, q', hr, v, hv⟩ := run_total (fun _ q => ∃ v, Tracks .sequence q v) hstart (by
    rintro log q c ⟨v, hv⟩ hok
    obtain ⟨q', he, ht, -⟩ := hv.call (hv.allows hok) c.2
    exact ⟨_, q', he, _, ht⟩) hp
  refine ⟨log, q', hr, fun hval => ?_⟩
  rw [hv.valid_eq] at hval
  exact (hv.live hval).listsSound

theorem sequence_lists_sound_roundTrip : ∃ q log q',
    tbmSurfaceQueueSequenceCreate 2 4 4 1 0 = some q ∧
      run (step .sequence) [allocating .dequeue 7, quiet (.enqueue (some 7)),
        quiet .acquire, quiet (.release (some 7))] q = some (log, q') ∧
      (q'.valid = true → ListsSound q') := by
  have hc : tbmSurfaceQueueSequenceCreate 2 4 4 1 0 = some _ := rfl
  obtain ⟨log, q', h⟩ := sequence_lists_sound hc (by decide +kernel : Permitted _ _
    [allocating .dequeue 7, quiet (.enqueue (some 7)), quiet .acquire,
      quiet (.release (some 7))] _)
  exact ⟨_, log, q', hc, h⟩

/-- A surface that was dequeued and is released without an enqueue is put on `free_queue` while
its item link is still on `dequeue_list`. -/
theorem release_of_dequeued_breaks_lists : ∃ q log q',
    tbmSurfaceQueueSequenceCreate 2 4 4 1 0 = some q ∧
      run (step .sequence) [allocating .dequeue 7, quiet (.release (some 7))] q =
        some (log, q') ∧
      log.map Entry.reply = [.surface .none (some 7), .error .none] ∧
      q'.valid = true ∧ ¬ListsSound q' := by
  have hrun : ((tbmSurfaceQueueSequenceCreate 2 4 4 1 0).bind fun q => (run (step .sequence)
      [allocating .dequeue 7, quiet (.release (some 7))] q).map fun p =>
        (p.1.map Entry.reply, p.2.valid, p.2.itemNodes .dequeue)) =
      some ([.surface .none (some 7), .error .none], true, none) := by decide +kernel
  obtain ⟨q, hq, hq'⟩ := Option.bind_eq_some_iff.mp hrun
  obtain ⟨⟨log, q'⟩, hr, he⟩ := Option.map_eq_some_iff.mp hq'
  simp only [Prod.mk.injEq] at he
  refine ⟨q, log, q', hq, hr, he.1, he.2.1, fun hs => ?_⟩
  obtain ⟨ns, hns, -⟩ := hs.circular .dequeue
  rw [he.2.2] at hns
  simp at hns

/-- Every unlink of a run is of a linked node with live neighbours, if no call deletes or
relinks a node that is handed out. -/
theorem unlinks_linked {cs : List (Op × AllocResult)}
    (hc : kind.create queueSize width height format flags = some q)
    (hp : Permitted (step kind) (KeepsLinks kind) cs q) :
    ∃ log q', run (step kind) cs q = some (log, q') ∧ ∀ u ∈ q'.unlinks, u.Linked := by
  have hm : Matches kind q _ := create_matches hc
  have hstart : AllLinked q ∧ ∃ v, Tracks kind q v :=
    ⟨create_linked hc, _, hm.settings, fun _ => hm⟩
  obtain ⟨log, q', hr, hl, -⟩ := run_total
    (fun _ q => AllLinked q ∧ ∃ v, Tracks kind q v) hstart (by
    rintro log q c ⟨hl, v, hv⟩ hok
    obtain ⟨q', he, ht, hlink⟩ := hv.call (hv.allows fun hval => (hok hval).1) c.2
    have hu : Tracks.Unlinks v c.1 := by
      intro hval hclear
      have hlive := hv.live hval
      have hall := (hok (hv.valid_eq.trans hval)).2 (hlive.clears_iff.mpr hclear)
      exact hlive.noneOut_iff.mp hall
    exact ⟨_, q', he, hlink hu hl, _, ht⟩) hp
  exact ⟨log, q', hr, hl⟩

theorem unlinks_linked_flush : ∃ q log q', Kind.default.create 2 4 4 1 0 = some q ∧
    run (step .default) [allocating .dequeue 7, quiet (.enqueue (some 7)),
      quiet .flush] q = some (log, q') ∧ ∀ u ∈ q'.unlinks, u.Linked := by
  have hc : Kind.default.create 2 4 4 1 0 = some _ := rfl
  obtain ⟨log, q', h⟩ := unlinks_linked hc (by decide +kernel : Permitted _ _
    [allocating .dequeue 7, quiet (.enqueue (some 7)), quiet .flush] _)
  exact ⟨_, log, q', hc, h⟩

/-- The buffers come back in the other order; the second node that `flush` deletes still points
at the one it freed before. -/
theorem flush_unlinks_into_freed : ∃ q log q', Kind.default.create 2 4 4 1 0 = some q ∧
    run (step .default) [allocating .dequeue 7, allocating .dequeue 8,
      quiet (.enqueue (some 8)), quiet (.enqueue (some 7)),
      quiet .acquire, quiet .acquire, quiet (.release (some 8)),
      quiet (.release (some 7)), quiet .dequeue, quiet .dequeue,
      quiet .flush] q = some (log, q') ∧
    ∃ u ∈ q'.unlinks, ¬u.Linked ∧ ¬u.Alive (u.links.next u.cell) := by
  have hrun : ((Kind.default.create 2 4 4 1 0).bind fun q => (run (step .default)
      [allocating .dequeue 7, allocating .dequeue 8,
      quiet (.enqueue (some 8)), quiet (.enqueue (some 7)),
      quiet .acquire, quiet .acquire, quiet (.release (some 8)),
      quiet (.release (some 7)), quiet .dequeue, quiet .dequeue,
      quiet .flush] q).map fun p =>
        decide (∃ u ∈ p.2.unlinks, ¬u.Linked ∧ ¬u.Alive (u.links.next u.cell))) = some true := by
    decide +kernel
  obtain ⟨q, hq, hq'⟩ := Option.bind_eq_some_iff.mp hrun
  obtain ⟨⟨log, q'⟩, hr, he⟩ := Option.map_eq_some_iff.mp hq'
  exact ⟨q, log, q', hq, hr, of_decide_eq_true he⟩

end Tbm.Queue
