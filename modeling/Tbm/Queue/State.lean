import Tbm.Core.Walk
import Tbm.Core.Program
import Mathlib.Data.Int.Notation

/-! The data of a surface queue at link level, and the list helpers of the queue code.
Nodes are numbered in allocation order and a number is never given out twice; the storage of
a freed node stays behind, so that a late write into it touches no live cell. -/
namespace Tbm.Queue

/-- A surface handle; a handle that may be NULL is an `Option Surface`. -/
abbrev Surface := ℕ

inductive Error
  | none | invalidSurface | invalidQueue | empty | invalidParameter | surfaceAllocFailed
  | alreadyExist | unknownSurface
  deriving DecidableEq, Repr

inductive NodeType
  | none | dequeue | enqueue | acquire | release
  deriving DecidableEq, Repr

/-- The three `queue` objects: `free_queue`, `dirty_queue` and the `dequeue_list` of the
sequence implementation. -/
inductive Fifo
  | free | dirty | dequeue
  deriving DecidableEq, Repr

/-- The `list_head` objects reachable from one surface queue. -/
inductive Cell
  | head (w : Fifo)
  | list
  | item (n : ℕ)
  | link (n : ℕ)
  deriving DecidableEq, Repr

/-- `born` is an observer: the epoch in which the allocation of the surface was requested. -/
structure Node where
  surface : Surface
  type : NodeType
  privFlags : ℕ
  freed : Bool
  born : ℕ

/-- Calls out of the queue code made inside a critical section. -/
inductive Call
  | create (width height format flags : ℤ) (surface : Surface)
  | ref (surface : Surface)
  | unref (surface : Surface)
  | freeCb (surface : Surface)
  | destroy (surface : Surface)
  deriving DecidableEq, Repr

/-- One execution of `LIST_DEL` on a node, with the memory it found. -/
structure Unlink where
  cell : Cell
  links : Links Cell
  freed : ℕ → Bool

/-- The cell belongs to a queue head or to a node that has not been freed. -/
def Unlink.Alive (u : Unlink) : Cell → Prop
  | .head _ | .list => True
  | .item n | .link n => u.freed n = false

instance (u : Unlink) : DecidablePred u.Alive := fun c =>
  match c with
  | .head _ | .list => inferInstanceAs (Decidable True)
  | .item n | .link n => inferInstanceAs (Decidable (u.freed n = false))

/-- Both neighbours point back at the cell, and neither belongs to a freed node. -/
def Unlink.Linked (u : Unlink) : Prop :=
  u.links.next (u.links.prev u.cell) = u.cell ∧ u.links.prev (u.links.next u.cell) = u.cell ∧
    u.Alive (u.links.prev u.cell) ∧ u.Alive (u.links.next u.cell)

instance (u : Unlink) : Decidable u.Linked := inferInstanceAs (Decidable (_ ∧ _))

/-- `struct _tbm_surface_queue` without its notification lists, with the `dequeue_list` and the
flags of `impl_data`. The last five fields are observers the code never reads. -/
structure SurfaceQueue where
  width : ℤ
  height : ℤ
  format : ℤ
  flags : ℤ
  queueSize : ℤ
  numAttached : ℤ
  links : Links Cell
  count : Fifo → ℤ
  node : ℕ → Node
  /-- The queue is on `surf_queue_list`. -/
  valid : Bool
  allocCb : Bool
  freeCb : Bool
  /-- Nodes allocated so far. -/
  nodes : ℕ
  calls : List Call
  unlinks : List Unlink
  /-- Resets, flushes and flushing size changes so far. -/
  epoch : ℕ
  /-- Threads between the size check and the end of `need_attach`, with the epoch of the check. -/
  allocating : List (ℕ × ℕ)

/-- What the surface allocator and the `calloc` of the node answer. -/
structure AllocResult where
  surface : Option Surface
  node : Bool
  deriving DecidableEq, Repr

/-- Where `_queue_get_node` found a node. -/
inductive Found
  | freeQueue | dirtyQueue | nodeList
  deriving DecidableEq, Repr

namespace SurfaceQueue

variable (q : SurfaceQueue)

/-- `container_of` for `item_link`. -/
def itemEntry : Cell → Option ℕ
  | .item n => if (q.node n).freed then none else some n
  | _ => none

/-- `container_of` for `link`. -/
def linkEntry : Cell → Option ℕ
  | .link n => if (q.node n).freed then none else some n
  | _ => none

def setNode (n : ℕ) (v : Node) : SurfaceQueue := { q with node := Function.update q.node n v }

def setType (n : ℕ) (t : NodeType) : SurfaceQueue := q.setNode n { q.node n with type := t }

def setPrivFlags (n : ℕ) (v : ℕ) : SurfaceQueue := q.setNode n { q.node n with privFlags := v }

def record (cs : List Call) : SurfaceQueue := { q with calls := q.calls ++ cs }

def listDel (c : Cell) : SurfaceQueue :=
  { q with
    links := q.links.del c
    unlinks := q.unlinks ++ [⟨c, q.links, fun n => (q.node n).freed⟩] }

def queueIsEmpty (w : Fifo) : Bool := q.links.isEmpty (.head w)

def queueInit (w : Fifo) : SurfaceQueue :=
  { q with links := q.links.inithead (.head w), count := Function.update q.count w 0 }

def queueNodePushBack (w : Fifo) (n : ℕ) : SurfaceQueue :=
  { q with
    links := q.links.addtail (.item n) (.head w)
    count := Function.update q.count w (q.count w + 1) }

def queueNodePushFront (w : Fifo) (n : ℕ) : SurfaceQueue :=
  { q with
    links := q.links.add (.item n) (.head w)
    count := Function.update q.count w (q.count w + 1) }

def queueNodePop (w : Fifo) (n : ℕ) : SurfaceQueue :=
  { q.listDel (.item n) with count := Function.update q.count w (q.count w - 1) }

def queueNodePopFront (w : Fifo) : Option (ℕ × SurfaceQueue) := do
  let n ← q.itemEntry (q.links.next (.head w))
  some (n, q.queueNodePop w n)

/-- Enough for every walk over distinct live nodes. -/
def fuel : ℕ := q.nodes + 1

/-- The nodes met by walking `item_link` from the head of a queue. -/
def itemNodes (w : Fifo) : Option (List ℕ) :=
  q.links.entries q.itemEntry (.head w) q.fuel (q.links.next (.head w))

/-- The nodes met by walking `link` from the head of `list`. -/
def listNodes : Option (List ℕ) := q.links.entries q.linkEntry .list q.fuel (q.links.next .list)

def searchItem (w : Fifo) (surface : Surface) : Option (Option ℕ) :=
  q.links.search q.itemEntry (fun n => (q.node n).surface = surface) (.head w) q.fuel
    (q.links.next (.head w))

/-- Every caller passes type 0, which selects all three lists. -/
def queueGetNode (surface : Surface) : Option (Option (ℕ × Found)) := do
  match ← q.searchItem .free surface with
  | some n => some (some (n, .freeQueue))
  | none =>
    match ← q.searchItem .dirty surface with
    | some n => some (some (n, .dirtyQueue))
    | none =>
      match ← q.links.search q.linkEntry (fun n => (q.node n).surface = surface) .list q.fuel
          (q.links.next .list) with
      | some n => some (some (n, .nodeList))
      | none => some none

def queueNodeDelete (n : ℕ) : SurfaceQueue :=
  let q := q.listDel (.item n)
  let q := q.listDel (.link n)
  q.setNode n { q.node n with freed := true }

def queueDeleteNode (n : ℕ) : SurfaceQueue :=
  let surface := (q.node n).surface
  let q := q.record (if q.freeCb then [.freeCb surface, .destroy surface] else [.destroy surface])
  q.queueNodeDelete n

def surfaceQueueGetNodeCount (type : NodeType) : Option ℕ := do
  let ns ← q.listNodes
  some (ns.countP fun n => (q.node n).type = type)

/-- The first half of `_tbm_surface_queue_attach`: the zeroed node gets its surface and is
linked on `list`. -/
def linkNewNode (surface : Surface) (born : ℕ) : SurfaceQueue :=
  { q with
    nodes := q.nodes + 1
    calls := q.calls ++ [.ref surface]
    node := Function.update q.node q.nodes
      { surface := surface, type := .none, privFlags := 0, freed := false, born := born }
    links := q.links.addtail (.link q.nodes) .list
    numAttached := q.numAttached + 1 }

/-- `ok` is the outcome of `_queue_node_create`. -/
def surfaceQueueAttach (ok : Bool) (surface : Surface) (born : ℕ) : SurfaceQueue :=
  if ok then (q.linkNewNode surface born).queueNodePushBack .free q.nodes else q

def surfaceQueueDetach (surface : Surface) : Option SurfaceQueue := do
  match ← q.queueGetNode surface with
  | some (n, _) =>
    let q := q.queueDeleteNode n
    some { q with numAttached := q.numAttached - 1 }
  | none => some q

def surfaceQueueEnqueue (n : ℕ) (pushBack : Bool) : SurfaceQueue :=
  if pushBack then q.queueNodePushBack .dirty n else q.queueNodePushFront .dirty n

def surfaceQueueRelease (n : ℕ) (pushBack : Bool) : SurfaceQueue :=
  if pushBack then q.queueNodePushBack .free n else q.queueNodePushFront .free n

def surfaceQueueAcquire : Option (Option ℕ × SurfaceQueue) :=
  if q.queueIsEmpty .dirty then some (none, q)
  else do
    let (n, q) ← q.queueNodePopFront .dirty
    some (some n, q)

/-- The loop that deletes every node on `list`. -/
def deleteNodes : Option SurfaceQueue := do
  let pos := q.links.next .list
  let (_, q) ← Links.forEachSafe (fun q => q.links.next) linkEntry
    (fun n q => some (false, q.queueDeleteNode n)) .list q.fuel pos (q.links.next pos) q
  some q

/-- The body of the shrinking loop; the state carries `need_del`. -/
def detachOne (detach : ℕ → SurfaceQueue → Option SurfaceQueue) (n : ℕ)
    (r : ℤ × SurfaceQueue) : Option (Bool × ℤ × SurfaceQueue) := do
  let q ← detach n r.2
  some (decide (r.1 - 1 = 0), r.1 - 1, q)

/-- The shrinking loop of `tbm_surface_queue_set_size` over `free_queue`. -/
def detachFree (detach : ℕ → SurfaceQueue → Option SurfaceQueue) (needDel : ℤ) :
    Option SurfaceQueue := do
  let pos := q.links.next (.head .free)
  let (_, _, q) ← Links.forEachSafe (fun r => r.2.links.next) (fun r => r.2.itemEntry)
    (detachOne detach) (.head .free) q.fuel pos (q.links.next pos) (needDel, q)
  some q

/-- The fields no list helper changes. -/
structure Settings where
  width : ℤ
  height : ℤ
  format : ℤ
  flags : ℤ
  queueSize : ℤ
  valid : Bool
  allocCb : Bool
  freeCb : Bool
  nodes : ℕ
  epoch : ℕ
  allocating : List (ℕ × ℕ)

def settings : Settings :=
  { width := q.width, height := q.height, format := q.format, flags := q.flags,
    queueSize := q.queueSize, valid := q.valid, allocCb := q.allocCb, freeCb := q.freeCb,
    nodes := q.nodes, epoch := q.epoch, allocating := q.allocating }

section Fields

variable (n : ℕ)

theorem setNumAttached_settings (k : ℤ) :
    { q with numAttached := k }.settings = q.settings := rfl

@[simp] theorem queueDeleteNode_links :
    (q.queueDeleteNode n).links = (q.links.del (.item n)).del (.link n) := rfl

@[simp] theorem queueDeleteNode_node : (q.queueDeleteNode n).node =
    Function.update q.node n { q.node n with freed := true } := rfl

@[simp] theorem queueDeleteNode_settings : (q.queueDeleteNode n).settings = q.settings := rfl

@[simp] theorem queueDeleteNode_numAttached :
    (q.queueDeleteNode n).numAttached = q.numAttached := rfl

theorem queueDeleteNode_unlinks : (q.queueDeleteNode n).unlinks =
    ((q.listDel (.item n)).listDel (.link n)).unlinks := rfl

end Fields

end SurfaceQueue

end Tbm.Queue
