import Crossbow.Kernel.Machine
import Crossbow.Kernel.Word

/-! The ring buffer between any number of producers and one consumer. A producer
takes a ticket from `_insert_place`, waits for room and fills the slot of its
ticket; the consumer follows the per-slot flag. Each load, store and increment
is one step, and constructing a value takes two. -/
namespace Crossbow.Concurrent.SingleConsumerQueue
open Kernel

/-- The storage of a slot: nothing queued (the value of a fresh array, or what
the destructor leaves), an object whose constructor is running, a finished
object, or one whose value has been moved out. -/
inductive Cell (T : Type) where
  | raw
  | building
  | full (value : T)
  | moved
  deriving DecidableEq, Repr

structure Item (T : Type) where
  value : Cell T
  isValid : Bool
  deriving DecidableEq, Repr

inductive ProducerPc (T : Type) where
  | idle
  | checkFull (value : T) (pos : Nat)
  | construct (value : T) (pos : Nat)
  | finish (value : T) (pos : Nat)
  | validate (value : T) (pos : Nat)
  deriving DecidableEq, Repr

/-- The consumer inside `read` or `readMultiple`; `room` is `end - out`. -/
inductive ConsumerPc where
  | idle
  | readLoad
  | readPlace (consume : Nat)
  | readFlag (consume : Nat)
  | readClear (consume : Nat)
  | readMove (consume : Nat)
  | readDestroy (consume : Nat)
  | readStore (consume : Nat)
  | multiLoad (room : Nat)
  | multiFlag (consumed i room : Nat)
  | multiClear (consumed i room : Nat)
  | multiMove (consumed i room : Nat)
  | multiDestroy (consumed i room : Nat)
  | multiStore (consumed count : Nat)
  deriving DecidableEq, Repr

/-- `tickets` lists the values by ticket number and `received` what the consumer
moved out, in order; both are history. -/
structure State (Thread T : Type) where
  data : Nat → Item T
  consumed : Nat
  insertPlace : Nat
  producer : Thread → ProducerPc T
  consumer : ConsumerPc
  tickets : List T
  received : List (Cell T)

inductive Label (Thread T : Type) where
  | write (thread : Thread) (value : T)
  | read
  | readMultiple (room : Nat)
  | producer (thread : Thread)
  | consumer
  deriving DecidableEq, Repr

variable {Thread T : Type} [DecidableEq Thread]

def State.produce (state : State Thread T) (thread : Thread) (pc : ProducerPc T) :
    State Thread T :=
  { state with producer := Function.update state.producer thread pc }

def State.consume (state : State Thread T) (pc : ConsumerPc) : State Thread T :=
  { state with consumer := pc }

def State.setItem (state : State Thread T) (index : Nat) (item : Item T) : State Thread T :=
  { state with data := Function.update state.data index item }

def isFull (queueSize : Nat) (state : State Thread T) (pos : Nat) : Bool :=
  decide (queueSize ≤ wrapSub pos state.consumed)

def slot (queueSize pos : Nat) : Option Nat :=
  if queueSize = 0 then none else some (pos % queueSize)

def stepProducer (queueSize : Nat) (state : State Thread T) (thread : Thread) :
    Option (State Thread T) :=
  match state.producer thread with
  | .idle => none
  | .checkFull value pos =>
      if isFull queueSize state pos then some state
      else some (state.produce thread (.construct value pos))
  | .construct value pos => do
      let index ← slot queueSize pos
      some ((state.setItem index { state.data index with value := .building }).produce thread
        (.finish value pos))
  | .finish value pos => do
      let index ← slot queueSize pos
      some ((state.setItem index { state.data index with value := .full value }).produce thread
        (.validate value pos))
  | .validate _ pos => do
      let index ← slot queueSize pos
      some ((state.setItem index { state.data index with isValid := true }).produce thread .idle)

/-- Moving a value out leaves an object behind that is destroyed next. -/
def State.moveOut (state : State Thread T) (index : Nat) : State Thread T :=
  { state.setItem index { state.data index with value := .moved } with
    received := state.received ++ [(state.data index).value] }

def stepConsumer (queueSize : Nat) (state : State Thread T) : Option (State Thread T) :=
  match state.consumer with
  | .idle => none
  | .readLoad => some (state.consume (.readPlace state.consumed))
  | .readPlace consume =>
      if wrap (consume + 1) ≥ state.insertPlace then some (state.consume .idle)
      else some (state.consume (.readFlag consume))
  | .readFlag consume => do
      let index ← slot queueSize (wrap (consume + 1))
      if (state.data index).isValid then some (state.consume (.readClear (wrap (consume + 1))))
      else some (state.consume .idle)
  | .readClear consume => do
      let index ← slot queueSize consume
      some ((state.setItem index { state.data index with isValid := false }).consume
        (.readMove consume))
  | .readMove consume => do
      let index ← slot queueSize consume
      some ((state.moveOut index).consume (.readDestroy consume))
  | .readDestroy consume => do
      let index ← slot queueSize consume
      some ((state.setItem index { state.data index with value := .raw }).consume
        (.readStore consume))
  | .readStore consume => some ({ state with consumed := consume }.consume .idle)
  | .multiLoad room => some (state.consume (.multiFlag state.consumed 0 room))
  | .multiFlag consumed i room => do
      let index ← slot queueSize (wrap (consumed + 1 + i))
      if (state.data index).isValid = false ∨ room = 0 then
        some (state.consume (.multiStore consumed i))
      else some (state.consume (.multiClear consumed i room))
  | .multiClear consumed i room => do
      let index ← slot queueSize (wrap (consumed + 1 + i))
      some ((state.setItem index { state.data index with isValid := false }).consume
        (.multiMove consumed i room))
  | .multiMove consumed i room => do
      let index ← slot queueSize (wrap (consumed + 1 + i))
      some ((state.moveOut index).consume (.multiDestroy consumed i room))
  | .multiDestroy consumed i room => do
      let index ← slot queueSize (wrap (consumed + 1 + i))
      some ((state.setItem index { state.data index with value := .raw }).consume
        (.multiFlag consumed (i + 1) (room - 1)))
  | .multiStore consumed count =>
      some ({ state with consumed := wrap (consumed + count) }.consume .idle)

def next (queueSize : Nat) (state : State Thread T) : Label Thread T → Option (State Thread T)
  | .write thread value =>
      match state.producer thread with
      | .idle => some { state.produce thread (.checkFull value state.insertPlace) with
          insertPlace := wrap (state.insertPlace + 1)
          tickets := state.tickets ++ [value] }
      | _ => none
  | .read =>
      match state.consumer with
      | .idle => some (state.consume .readLoad)
      | _ => none
  | .readMultiple room =>
      match state.consumer with
      | .idle => some (state.consume (.multiLoad room))
      | _ => none
  | .producer thread => stepProducer queueSize state thread
  | .consumer => stepConsumer queueSize state

/-- `_consumed` starts at the largest `size_t`, one before ticket zero. -/
def start : State Thread T where
  data := fun _ => ⟨.raw, false⟩
  consumed := wordRange - 1
  insertPlace := 0
  producer := fun _ => .idle
  consumer := .idle
  tickets := []
  received := []

def machine (queueSize : Nat) : Machine (State Thread T) (Label Thread T) where
  initial := fun state => state = start
  next := next queueSize

end Crossbow.Concurrent.SingleConsumerQueue
