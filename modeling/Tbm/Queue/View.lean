import Tbm.Queue.Loops
import Mathlib.Data.List.Find

/-! The queue over plain lists of nodes: what each operation does to the lists, with no links.
The link-level operations are shown to follow it. -/
namespace Tbm.Queue

structure View where
  lists : Lists
  node : ℕ → Node
  settings : SurfaceQueue.Settings

namespace View

variable (v : View)

def on (w : Fifo) : List ℕ := v.lists.on w

def list : List ℕ := v.lists.list

def setNode (n : ℕ) (d : Node) : View := { v with node := Function.update v.node n d }

def setType (n : ℕ) (t : NodeType) : View := v.setNode n { v.node n with type := t }

def setPrivFlags (n : ℕ) (k : ℕ) : View := v.setNode n { v.node n with privFlags := k }

def push (w : Fifo) (n : ℕ) : View := { v with lists := v.lists.push w n }

def pop (w : Fifo) (n : ℕ) : View := { v with lists := v.lists.pop w n }

def lookup (surface : Surface) : Option (ℕ × Found) :=
  v.lists.lookup fun n => (v.node n).surface = surface

/-- A new node at the back of `free_queue`. -/
def addNode (surface : Surface) : View :=
  { lists := (v.lists.attach v.settings.nodes).push .free v.settings.nodes
    node := Function.update v.node v.settings.nodes
      { surface := surface, type := .none, privFlags := 0, freed := false,
        born := v.settings.epoch }
    settings := { v.settings with nodes := v.settings.nodes + 1 } }

def attach (x : AllocResult) : View :=
  if v.settings.queueSize = v.list.length then v
  else
    match x with
    | ⟨some surface, true⟩ => v.addNode surface
    | _ => v

/-- `need_attach` only runs on an empty `free_queue`. -/
def grow (x : AllocResult) : View := if v.on .free = [] then v.attach x else v

def clear : View :=
  { v with lists := .empty, settings := { v.settings with epoch := v.settings.epoch + 1 } }

/-- The released front of `dequeue_list` moves to `dirty_queue`. -/
def drain (n : ℕ) : View :=
  let v := v.setPrivFlags n 0
  { v with lists := v.lists.drain fun k => (v.node k).privFlags = 0 }

def enqueue (kind : Kind) (surface : Surface) : Error × View :=
  match v.lookup surface with
  | some (n, .nodeList) =>
    match kind with
    | .default => (.none, (v.push .dirty n).setType n .enqueue)
    | .sequence =>
      let v := v.drain n
      if v.on .dirty = [] then (.unknownSurface, v) else (.none, v.setType n .enqueue)
  | _ => (.alreadyExist, v)

def dequeue (kind : Kind) (x : AllocResult) : (Error × Option Surface) × View :=
  let v := v.grow x
  match v.on .free with
  | [] => ((.invalidQueue, none), v)
  | n :: _ =>
    let v := match kind with
      | .default => v.pop .free n
      | .sequence => ((v.pop .free n).push .dequeue n).setPrivFlags n 1
    ((.none, some (v.node n).surface), v.setType n .dequeue)

def acquire : (Error × Option Surface) × View :=
  match v.on .dirty with
  | [] => ((.invalidQueue, none), v)
  | n :: _ => ((.none, some (v.node n).surface), (v.pop .dirty n).setType n .acquire)

def release (surface : Surface) : Error × View :=
  match v.lookup surface with
  | some (n, .nodeList) =>
    if v.settings.queueSize < v.list.length then (.none, { v with lists := v.lists.remove n })
    else (.none, (v.push .free n).setType n .release)
  | _ => (.invalidSurface, v)

/-- A waiting call that finds surfaces outstanding returns after a wake-up. -/
def canDequeue (wait : ℤ) (x : AllocResult) : ℤ × View :=
  let v := v.grow x
  if v.on .free ≠ [] then (1, v)
  else if wait ≠ 0 ∧ v.list.countP (fun n => (v.node n).type = .acquire) ≠ 0 then (1, v)
  else (0, v)

def canAcquire (wait : ℤ) : ℤ :=
  if v.on .dirty ≠ [] then 1
  else if wait ≠ 0 ∧ v.list.countP (fun n => (v.node n).type = .dequeue) ≠ 0 then 1
  else 0

def reset (width height format : ℤ) : View :=
  if width = v.settings.width ∧ height = v.settings.height ∧ format = v.settings.format then v
  else { v.clear with
    settings := { v.clear.settings with width := width, height := height, format := format } }

def flush : View := if v.list = [] then v else v.clear

def setSize (queueSize : ℤ) (flush : Bool) : Error × View :=
  if queueSize ≤ 0 then (.invalidParameter, v)
  else if v.settings.queueSize = queueSize ∧ flush = false then (.none, v)
  else if flush then
    (.none, { v.clear with settings := { v.clear.settings with queueSize := queueSize } })
  else (.none,
    { v with
      lists := v.lists.dropFree (v.settings.queueSize - queueSize).toNat
      settings := { v.settings with queueSize := queueSize } })

/-- The replies of a call on a queue that has been destroyed. -/
def refuse : Op → Reply
  | .dequeue | .acquire => .surface .invalidQueue none
  | .canDequeue _ | .canAcquire _ => .answer 0
  | .destroy => .done
  | _ => .error .invalidQueue

/-- One call on a live queue. -/
def liveStep (kind : Kind) (op : Op) (x : AllocResult) : Reply × View :=
  match op with
  | .dequeue => let r := v.dequeue kind x; (.surface r.1.1 r.1.2, r.2)
  | .enqueue none => (.error .invalidSurface, v)
  | .enqueue (some s) => let r := v.enqueue kind s; (.error r.1, r.2)
  | .acquire => let r := v.acquire; (.surface r.1.1 r.1.2, r.2)
  | .release none => (.error .invalidSurface, v)
  | .release (some s) => let r := v.release s; (.error r.1, r.2)
  | .canDequeue wait => let r := v.canDequeue wait x; (.answer r.1, r.2)
  | .canAcquire wait => (.answer (v.canAcquire wait), v)
  | .reset width height format => (.error .none, v.reset width height format)
  | .flush => (.error .none, v.flush)
  | .setSize n flush => let r := v.setSize n flush; (.error r.1, r.2)
  | .setAllocCb allocCb freeCb =>
    (.error .none, { v with
      settings := { v.settings with allocCb := allocCb, freeCb := freeCb } })
  | .destroy => (.done, { v with settings := { v.settings with valid := false } })

def step (kind : Kind) (op : Op) (x : AllocResult) : Reply × View :=
  if v.settings.valid then v.liveStep kind op x else (refuse op, v)

end View

/-- The link-level state `q` holds the lists, nodes and settings of `v`. -/
structure Matches (kind : Kind) (q : SurfaceQueue) (v : View) : Prop
    extends Represents kind q v.lists where
  node : ∀ n ∈ v.list, q.node n = v.node n
  settings : q.settings = v.settings

namespace Matches

variable {kind : Kind} {q : SurfaceQueue} {v : View} {w : Fifo} {n : ℕ}

theorem on_sub (h : Matches kind q v) : v.on w ⊆ v.list := fun _ hn => h.sub hn

theorem queueSize (h : Matches kind q v) : q.queueSize = v.settings.queueSize :=
  congrArg SurfaceQueue.Settings.queueSize h.settings

theorem isEmpty_iff (h : Matches kind q v) (hu : kind.uses w) :
    q.queueIsEmpty w = true ↔ v.on w = [] := h.queueIsEmpty_iff hu

theorem queueGetNode_eq (h : Matches kind q v) (surface : Surface) :
    q.queueGetNode surface = some (v.lookup surface) := by
  have hp : ∀ ns, ns ⊆ v.list →
      ns.find? (fun n => decide ((q.node n).surface = surface)) =
        ns.find? (fun n => decide ((v.node n).surface = surface)) :=
    fun ns hs => List.find?_congr fun n hn => by rw [h.node n (hs hn)]
  rw [h.toLayout.queueGetNode_eq]
  unfold View.lookup Lists.lookup
  rw [hp (v.lists.on .free) h.on_sub, hp (v.lists.on .dirty) h.on_sub,
    hp v.lists.list fun _ hn => hn]

theorem getNodeCount_eq (h : Matches kind q v) (t : NodeType) :
    q.surfaceQueueGetNodeCount t = some (v.list.countP fun n => (v.node n).type = t) := by
  unfold SurfaceQueue.surfaceQueueGetNodeCount
  rw [h.toRegistry.listNodes_eq]
  have hc : v.list.countP (fun n => decide ((q.node n).type = t)) =
      v.list.countP fun n => decide ((v.node n).type = t) :=
    List.countP_congr fun n hn => by rw [h.node n hn]
  exact congrArg some hc

theorem pushBack (h : Matches kind q v) (hu : kind.uses w) (hn : v.lists.HandedOut n) :
    Matches kind (q.queueNodePushBack w n) (v.push w n) :=
  ⟨⟨h.toLayout.pushBack hu hn, h.num⟩, h.node, h.settings⟩

theorem pop (h : Matches kind q v) (hn : n ∈ v.on w) :
    Matches kind (q.queueNodePop w n) (v.pop w n) :=
  ⟨⟨h.toLayout.pop hn, h.num⟩, h.node, h.settings⟩

private theorem setNode (h : Matches kind q v) (hn : n ∈ v.list) {f : Node → Node}
    (hf : ∀ d, (f d).freed = d.freed) :
    Matches kind (q.setNode n (f (q.node n))) (v.setNode n (f (v.node n))) := by
  refine ⟨⟨h.toLayout.setNode (hf _), h.num⟩, fun k hk => ?_, h.settings⟩
  by_cases e : k = n
  · subst e
    simp [SurfaceQueue.setNode, View.setNode, h.node k hn]
  · simp [SurfaceQueue.setNode, View.setNode, e, h.node k hk]

theorem setType (h : Matches kind q v) (hn : n ∈ v.list) (t : NodeType) :
    Matches kind (q.setType n t) (v.setType n t) :=
  h.setNode hn (f := fun d => { d with type := t }) fun _ => rfl

theorem setPrivFlags (h : Matches kind q v) (hn : n ∈ v.list) (k : ℕ) :
    Matches kind (q.setPrivFlags n k) (v.setPrivFlags n k) :=
  h.setNode hn (f := fun d => { d with privFlags := k }) fun _ => rfl

theorem numAttached (h : Matches kind q v) : q.numAttached = v.list.length := h.num

/-- Fields outside the lists, the nodes and the settings do not matter. -/
theorem congr {q' : SurfaceQueue} (h : Matches kind q v) (hl : q'.links = q.links)
    (hn : q'.node = q.node) (ha : q'.numAttached = q.numAttached)
    (hs : q'.settings = q.settings) : Matches kind q' v := by
  have hk : q'.nodes = q.nodes := congrArg SurfaceQueue.Settings.nodes hs
  refine ⟨h.toRepresents.congr hl (fun n => by rw [hn]) hk ha, fun n hm => ?_, hs.trans h.settings⟩
  rw [hn]
  exact h.node n hm

theorem addNode (h : Matches kind q v) (surface : Surface) :
    Matches kind (q.surfaceQueueAttach true surface q.epoch) (v.addNode surface) := by
  have hk : q.nodes = v.settings.nodes := congrArg SurfaceQueue.Settings.nodes h.settings
  have he : q.epoch = v.settings.epoch := congrArg SurfaceQueue.Settings.epoch h.settings
  have hlay := h.toLayout.attach surface q.epoch
  rw [hk] at hlay
  refine ⟨⟨hlay, ?_⟩, fun n hn => ?_, ?_⟩
  · have hnum := h.num
    simp [SurfaceQueue.surfaceQueueAttach, SurfaceQueue.queueNodePushBack,
      SurfaceQueue.linkNewNode, View.addNode, Lists.push, Lists.attach, hnum]
  · by_cases e : n = v.settings.nodes
    · subst e
      simp [SurfaceQueue.surfaceQueueAttach, SurfaceQueue.queueNodePushBack,
        SurfaceQueue.linkNewNode, View.addNode, hk, he]
    · have hm : n ∈ v.list := by
        simpa [View.addNode, View.list, Lists.push, Lists.attach, e] using hn
      simp [SurfaceQueue.surfaceQueueAttach, SurfaceQueue.queueNodePushBack,
        SurfaceQueue.linkNewNode, View.addNode, hk, e, h.node n hm]
  · have hs : (q.surfaceQueueAttach true surface q.epoch).settings =
        { q.settings with nodes := q.nodes + 1 } := rfl
    rw [hs, h.settings, hk]
    rfl

end Matches

end Tbm.Queue
