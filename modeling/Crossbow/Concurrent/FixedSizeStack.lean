import Crossbow.Kernel.Machine
import Mathlib.Data.Multiset.AddSub

/-! The bounded stack shared by pushing and popping threads. Both heads live in
one atomic word. Every load, element access and compare-exchange is a step of
its own, so a thread keeps the head it read while the others move on. -/
namespace Crossbow.Concurrent.FixedSizeStack
open Kernel

/-- `readHead` and `writeHead` are `unsigned`, so they count modulo this. -/
def unsignedRange : Nat := 2 ^ 32

structure Head where
  readHead : Nat
  writeHead : Nat
  deriving DecidableEq, Repr

/-- Where a thread stands inside `push` or `pop`, with its local variables. -/
inductive Pc (T : Type) where
  | idle
  | popLoad
  | popRead (head : Head)
  | popExchange (head : Head) (result : T)
  | pushLoad (element : T)
  | pushReserve (element : T) (head : Head)
  | pushStore (element : T) (wHead : Nat) (head : Head)
  | pushWait (element : T) (wHead : Nat) (head : Head)
  | pushPublish (element : T) (wHead : Nat) (head : Head)
  deriving DecidableEq, Repr

/-- `pushed` and `popped` record the elements of the calls that returned `true`. -/
structure State (Thread T : Type) where
  vec : List T
  head : Head
  pc : Thread → Pc T
  pushed : List T
  popped : List T

inductive Label (Thread T : Type) where
  | push (thread : Thread) (element : T)
  | pop (thread : Thread)
  | step (thread : Thread)
  deriving DecidableEq, Repr

variable {Thread T : Type} [DecidableEq Thread]

def State.goto (state : State Thread T) (thread : Thread) (pc : Pc T) : State Thread T :=
  { state with pc := Function.update state.pc thread pc }

/-- One atomic action of a running thread. An access outside `mVec` is undefined. -/
def advance (state : State Thread T) (thread : Thread) : Option (State Thread T) :=
  match state.pc thread with
  | .idle => none
  | .popLoad =>
      let head := state.head
      if head.writeHead ≠ head.readHead then some state
      else if head.readHead = 0 then some (state.goto thread .idle)
      else some (state.goto thread (.popRead head))
  | .popRead head =>
      match state.vec[head.readHead - 1]? with
      | some result => some (state.goto thread (.popExchange head result))
      | none => none
  | .popExchange head result =>
      if state.head = head then
        some { state.goto thread .idle with
          head := ⟨head.readHead - 1, head.writeHead - 1⟩
          popped := state.popped ++ [result] }
      else some (state.goto thread .popLoad)
  | .pushLoad element => some (state.goto thread (.pushReserve element state.head))
  | .pushReserve element head =>
      if head.writeHead = state.vec.length then some (state.goto thread .idle)
      else if state.head = head then
        some { state.goto thread (.pushStore element head.writeHead head) with
          head := ⟨head.readHead, (head.writeHead + 1) % unsignedRange⟩ }
      else some (state.goto thread (.pushReserve element state.head))
  | .pushStore element wHead head =>
      if wHead < state.vec.length then
        some { state.goto thread (.pushWait element wHead head) with
          vec := state.vec.set wHead element }
      else none
  | .pushWait element wHead head =>
      if head.readHead = wHead then some (state.goto thread (.pushPublish element wHead head))
      else some (state.goto thread (.pushWait element wHead state.head))
  | .pushPublish element wHead head =>
      if state.head = head then
        some { state.goto thread .idle with
          head := ⟨(wHead + 1) % unsignedRange, head.writeHead⟩
          pushed := state.pushed ++ [element] }
      else some (state.goto thread (.pushPublish element wHead state.head))

def next (state : State Thread T) : Label Thread T → Option (State Thread T)
  | .push thread element =>
      match state.pc thread with
      | .idle => some (state.goto thread (.pushLoad element))
      | _ => none
  | .pop thread =>
      match state.pc thread with
      | .idle => some (state.goto thread .popLoad)
      | _ => none
  | .step thread => advance state thread

def start (size : Nat) (nullValue : T) : State Thread T where
  vec := List.replicate size nullValue
  head := ⟨0, 0⟩
  pc := fun _ => .idle
  pushed := []
  popped := []

def machine (size : Nat) (nullValue : T) : Machine (State Thread T) (Label Thread T) where
  initial := fun state => state = start size nullValue
  next := next

end Crossbow.Concurrent.FixedSizeStack
