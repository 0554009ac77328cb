import Mathlib.Logic.Equiv.Basic
import Mathlib.Data.Option.Basic
import Crossbow.Kernel.Machine
import Crossbow.BasicString.Calls

/-! Any number of strings that share one heap. A run constructs, changes and
destroys them in any order; beside it, each string is a list that the same calls
change as operations on lists. -/
namespace Crossbow.BasicString
open Kernel

/-- `strings` are the arrays of the live objects; `lists` is what they stand for. -/
structure State where
  strings : Nat → Option Memory
  heap : Heap
  released : List (Nat × Nat)
  lists : Nat → Option (List UInt8)

/-- The characters a call reads: some in memory that no string owns, or those of
a live string. -/
inductive Source where
  | chars (text : List UInt8)
  | string (id : Nat)
  deriving DecidableEq, Repr

def State.mem (state : State) (arr : Memory) (supply : Option (Nat × Memory)) : Mem :=
  ⟨arr, state.heap, supply, state.released⟩

def State.contents (state : State) (arr : Memory) : Option (List UInt8) :=
  match readChars (getPtr arr) 0 (getSize arr) (state.mem arr none) with
  | some (.ok text, _) => some text
  | _ => none

def State.read (state : State) : Source → Option (List UInt8)
  | .chars text => some text
  | .string id => (state.strings id).bind state.contents

def State.listOf (state : State) : Source → Option (List UInt8)
  | .chars text => some text
  | .string id => state.lists id

inductive Label where
  | construct (id : Nat) (ctor : Ctor) (source : Source) (raw : Memory)
      (supply : Option (Nat × Memory))
  | constructCopy (id other : Nat) (raw : Memory) (supply : Option (Nat × Memory))
  | constructMove (id other : Nat)
  | call (id : Nat) (call : Call) (source : Source) (supply : Option (Nat × Memory))
  | assignMove (id other : Nat)
  | swap (id other : Nat)
  | destroy (id : Nat)

def outcomeOr (outcome : Except Exn (List UInt8)) (otherwise : Option (List UInt8)) :
    Option (List UInt8) :=
  match outcome with
  | .ok text => some text
  | .error _ => otherwise

def listNext (state : State) : Label → Nat → Option (List UInt8)
  | .construct id ctor source _ _ =>
      match state.listOf source with
      | some arg => Function.update state.lists id (outcomeOr (ctor.onList arg) none)
      | none => state.lists
  | .constructCopy id other _ _ => Function.update state.lists id (state.lists other)
  | .constructMove id other | .assignMove id other =>
      Function.update (Function.update state.lists id (state.lists other)) other (some [])
  | .call id call source _ =>
      match state.listOf source, state.lists id with
      | some arg, some list =>
          Function.update state.lists id (outcomeOr (call.onList arg list) (some list))
      | _, _ => state.lists
  | .swap id other =>
      Function.update (Function.update state.lists id (state.lists other)) other (state.lists id)
  | .destroy id => Function.update state.lists id none

def State.constructed (state : State) (id : Nat) (lists : Nat → Option (List UInt8)) :
    Option (Except Exn Unit × Mem) → Option State
  | none => none
  | some (.ok (), mem) =>
      some ⟨Function.update state.strings id (some mem.arr), mem.heap, mem.released, lists⟩
  | some (.error _, mem) => some ⟨state.strings, mem.heap, mem.released, lists⟩

def State.changed (state : State) (id : Nat) (lists : Nat → Option (List UInt8)) :
    Option (Except Exn Unit × Mem) → Option State
  | none => none
  | some (_, mem) =>
      some ⟨Function.update state.strings id (some mem.arr), mem.heap, mem.released, lists⟩

def next (maxSize : Nat) (state : State) (label : Label) : Option State :=
  match label with
  | .construct id ctor source raw supply => do
      let arg ← state.read source
      state.constructed id (listNext state label) (ctor.run arg (state.mem raw supply))
  | .constructCopy id other raw supply => do
      let arr ← state.strings other
      let arg ← state.contents arr
      state.constructed id (listNext state label) (constructCopy arr arg (state.mem raw supply))
  | .constructMove id other => do
      let arr ← state.strings other
      some ⟨Function.update (Function.update state.strings id (some arr)) other (some zeroArr),
        state.heap, state.released, listNext state label⟩
  | .call id call source supply => do
      let arr ← state.strings id
      let arg ← state.read source
      state.changed id (listNext state label) (call.run maxSize arg (state.mem arr supply))
  | .assignMove id other => do
      let arr ← state.strings id
      let moved ← state.strings other
      let (_, mem) ← moveRelease (state.mem arr none)
      some ⟨Function.update (Function.update state.strings id (some moved)) other (some zeroArr),
        mem.heap, mem.released, listNext state label⟩
  | .swap id other => do
      let arr ← state.strings id
      let swapped ← state.strings other
      some ⟨Function.update (Function.update state.strings id (some swapped)) other (some arr),
        state.heap, state.released, listNext state label⟩
  | .destroy id => do
      let arr ← state.strings id
      let (_, mem) ← destruct (state.mem arr none)
      some ⟨Function.update state.strings id none, mem.heap, mem.released, listNext state label⟩

def start : State where
  strings := fun _ => none
  heap := fun _ => none
  released := []
  lists := fun _ => none

def machine (maxSize : Nat) : Machine State Label where
  initial := fun state => state = start
  next := next maxSize

/-- Objects are constructed once and used while they live, no argument is the
string that is changed, sizes do not overflow, and the allocator has a block that
is not in use. -/
def Permitted (maxSize : Nat) (state : State) : Label → Prop
  | .construct id ctor source _ supply =>
      (state.lists id).isNone ∧ Supplied supply state.heap ∧
        ∃ arg ∈ state.listOf source, ctor.Allowed arg
  | .constructCopy id other _ supply =>
      (state.lists id).isNone ∧ Supplied supply state.heap ∧
        ∃ arg ∈ state.lists other, 2 * arg.length < wordRange
  | .constructMove id other => (state.lists id).isNone ∧ (state.lists other).isSome
  | .call id call source supply =>
      source ≠ .string id ∧ Supplied supply state.heap ∧
        ∃ arg ∈ state.listOf source, ∃ list ∈ state.lists id, call.Allowed maxSize arg list
  | .assignMove id other | .swap id other =>
      id ≠ other ∧ (state.lists id).isSome ∧ (state.lists other).isSome
  | .destroy id => (state.lists id).isSome

instance (maxSize : Nat) (state : State) (label : Label) :
    Decidable (Permitted maxSize state label) := by
  unfold Permitted
  split <;> infer_instance

end Crossbow.BasicString
