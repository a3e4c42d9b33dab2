import Tbm.Queue.Operations
import Mathlib.Data.Finset.Card
import Mathlib.Data.Finset.Union

/-! What a default queue is for: surfaces circulate between a FIFO of free ones, the producer, a
FIFO of dirty ones and the consumer. No nodes and no links. -/
namespace Tbm.Queue

structure Machine where
  free : List Surface
  dirty : List Surface
  producer : Finset Surface
  consumer : Finset Surface
  size : ℤ
  width : ℤ
  height : ℤ
  format : ℤ

/-- Where an attached surface can be. -/
inductive Place
  | free | dirty | producer | consumer
  deriving DecidableEq, Repr

/-- The node types that agree with a place; a surface that was never dequeued has no type yet. -/
def Place.agrees : Place → NodeType → Prop
  | .free, t => t = .none ∨ t = .release
  | .dirty, t => t = .enqueue
  | .producer, t => t = .dequeue
  | .consumer, t => t = .acquire

namespace Machine

variable (m : Machine)

def init (size width height format : ℤ) : Machine where
  free := []
  dirty := []
  producer := ∅
  consumer := ∅
  size := size
  width := width
  height := height
  format := format

/-- The surfaces in a place. -/
def place : Place → Finset Surface
  | .free => m.free.toFinset
  | .dirty => m.dirty.toFinset
  | .producer => m.producer
  | .consumer => m.consumer

def attached : Finset Surface := m.free.toFinset ∪ m.dirty.toFinset ∪ m.producer ∪ m.consumer

/-- The surfaces in the hands of the clients. -/
def held : Finset Surface := m.producer ∪ m.consumer

/-- A new surface is allocated if no surface is free and the queue is not full. -/
def grow (x : AllocResult) : Machine :=
  if m.free = [] ∧ m.size ≠ m.attached.card then
    match x with
    | ⟨some s, true⟩ => { m with free := [s] }
    | _ => m
  else m

/-- The clients give `s` back. -/
def giveBack (s : Surface) : Machine :=
  { m with producer := m.producer.erase s, consumer := m.consumer.erase s }

def clear : Machine := { m with free := [], dirty := [], producer := ∅, consumer := ∅ }

def dequeue (x : AllocResult) : Reply × Machine :=
  let m := m.grow x
  match m.free with
  | [] => (.surface .invalidQueue none, m)
  | s :: rest => (.surface .none (some s), { m with free := rest, producer := insert s m.producer })

def acquire : Reply × Machine :=
  match m.dirty with
  | [] => (.surface .invalidQueue none, m)
  | s :: rest =>
    (.surface .none (some s), { m with dirty := rest, consumer := insert s m.consumer })

def enqueue (s : Surface) : Reply × Machine :=
  if s ∈ m.held then (.error .none, { m.giveBack s with dirty := m.dirty ++ [s] })
  else (.error .alreadyExist, m)

def release (s : Surface) : Reply × Machine :=
  if s ∈ m.held then (.error .none, { m.giveBack s with free := m.free ++ [s] })
  else (.error .invalidSurface, m)

def setSize (n : ℤ) (flush : Bool) : Reply × Machine :=
  if n ≤ 0 then (.error .invalidParameter, m)
  else if flush then (.error .none, { m.clear with size := n })
  else (.error .none, { m with size := n })

/-- Only the calls a simulated run makes have a meaning. -/
def step (c : Op × AllocResult) : Reply × Machine :=
  match c.1 with
  | .dequeue => m.dequeue c.2
  | .enqueue none => (.error .invalidSurface, m)
  | .enqueue (some s) => m.enqueue s
  | .acquire => m.acquire
  | .release none => (.error .invalidSurface, m)
  | .release (some s) => m.release s
  | .canDequeue _ => (.answer (if (m.grow c.2).free = [] then 0 else 1), m.grow c.2)
  | .canAcquire _ => (.answer (if m.dirty = [] then 0 else 1), m)
  | .reset width height format =>
    if width = m.width ∧ height = m.height ∧ format = m.format then (.error .none, m)
    else (.error .none, { m.clear with width := width, height := height, format := format })
  | .flush => (.error .none, m.clear)
  | .setSize n flush => m.setSize n flush
  | .setAllocCb _ _ => (.error .none, m)
  | .destroy => (.done, m)

end Machine

end Tbm.Queue
