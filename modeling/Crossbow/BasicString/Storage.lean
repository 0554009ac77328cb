import Crossbow.Kernel.Bytes
import Crossbow.Kernel.Command
import Crossbow.Kernel.Word

/-! The storage of a string of `char`. An object is one array of 32 bytes. With
a first byte other than `nullchar` that byte is the size and the text follows it;
with `nullchar` the array holds size, capacity and the address of a heap block. -/
namespace Crossbow.BasicString
open Kernel

def arrSize : Nat := 32

def sizeOffset : Nat := 8
def capacityOffset : Nat := 8 + 8
def pointerOffset : Nat := 8 + 2 * 8

/-- The largest value of a signed `char`. -/
def nullchar : UInt8 := 127

def maxInBufferSize : Nat := (arrSize - 1) / 1 - 1

def npos : Nat := wordRange - 1

def setCapacity (arr : Memory) (count : Nat) : Memory := store arr capacityOffset (natLE 8 count)

def getCapacity (arr : Memory) : Nat :=
  if arr 0 ≠ nullchar then maxInBufferSize else decodeLE (load arr capacityOffset 8)

def setSize (arr : Memory) (count : Nat) : Memory :=
  if arr 0 ≠ nullchar then store arr 0 [UInt8.ofNat count]
  else store arr sizeOffset (natLE 8 count)

def getSize (arr : Memory) : Nat :=
  if arr 0 ≠ nullchar then (arr 0).toNat else decodeLE (load arr sizeOffset 8)

/-- Where the characters are: in the array itself, behind its first byte, or in
the heap block that starts at an address. -/
inductive Ptr where
  | buffer
  | block (address : Nat)
  deriving DecidableEq, Repr

def setPtr (arr : Memory) (address : Nat) : Memory := store arr pointerOffset (natLE 8 address)

def getPtr (arr : Memory) : Ptr :=
  if arr 0 ≠ nullchar then .buffer else .block (decodeLE (load arr pointerOffset 8))

/-- An allocated block; `length` is the number of characters asked for. -/
structure Block where
  length : Nat
  bytes : Memory

abbrev Heap := Nat → Option Block

inductive Exn where
  | outOfRange
  | lengthError
  | badAlloc
  deriving DecidableEq, Repr

/-- What one member function sees. `supply` is the block that the allocator hands
out, with the bytes that happen to be in it, or nothing if it throws; `released`
records, for each released block, its length and the count passed with it. -/
structure Mem where
  arr : Memory
  heap : Heap
  supply : Option (Nat × Memory)
  released : List (Nat × Nat)

abbrev Op := Command Mem Exn

/-- `ptr[index]`; outside of the array or of a live block it is undefined. -/
def read (ptr : Ptr) (index : Nat) : Op UInt8 := fun mem =>
  match ptr with
  | .buffer => if 1 + index < arrSize then some (.ok (mem.arr (1 + index)), mem) else none
  | .block address =>
      match mem.heap address with
      | some block => if index < block.length then some (.ok (block.bytes index), mem) else none
      | none => none

def write (ptr : Ptr) (index : Nat) (ch : UInt8) : Op Unit := fun mem =>
  match ptr with
  | .buffer =>
      if 1 + index < arrSize then
        some (.ok (), { mem with arr := store mem.arr (1 + index) [ch] })
      else none
  | .block address =>
      match mem.heap address with
      | some block =>
          if index < block.length then
            some (.ok (), { mem with
              heap := Function.update mem.heap address
                (some { block with bytes := store block.bytes index [ch] }) })
          else none
      | none => none

/-- The block handed out may not be in use. -/
def allocate (count : Nat) : Op Nat := fun mem =>
  match mem.supply with
  | none => some (.error .badAlloc, mem)
  | some (address, bytes) =>
      match mem.heap address with
      | none => some (.ok address, { mem with
          heap := Function.update mem.heap address (some ⟨count, bytes⟩) })
      | some _ => none

def deallocate (ptr : Ptr) (count : Nat) : Op Unit := fun mem =>
  match ptr with
  | .buffer => none
  | .block address =>
      match mem.heap address with
      | some block => some (.ok (), { mem with
          heap := Function.update mem.heap address none
          released := mem.released ++ [(block.length, count)] })
      | none => none

def editArr (change : Memory → Memory) : Op Unit :=
  Command.modify fun mem => { mem with arr := change mem.arr }

def terminate : Op Unit := do
  let mem ← Command.get
  write (getPtr mem.arr) (getSize mem.arr) 0

def putChars (target : Ptr) (index : Nat) : List UInt8 → Op Unit
  | [] => pure ()
  | ch :: rest => do
      write target index ch
      putChars target (index + 1) rest

/-- `std::copy` of `count` characters, first to last. -/
def copyChars (source : Ptr) (start : Nat) (target : Ptr) (index : Nat) : Nat → Op Unit
  | 0 => pure ()
  | count + 1 => do
      let ch ← read source start
      write target index ch
      copyChars source (start + 1) target (index + 1) count

/-- The loop of `insert` that makes room, last character first:
`ptr[nsize - 1 - i] = ptr[sz - 1 - i]`. -/
def moveTail (ptr : Ptr) (size newSize i : Nat) : Nat → Op Unit
  | 0 => pure ()
  | count + 1 => do
      let ch ← read ptr (wrapSub (wrapSub size 1) i)
      write ptr (wrapSub (wrapSub newSize 1) i) ch
      moveTail ptr size newSize (i + 1) count

/-- The characters of `[begin(), end())`, as another string's member reads them. -/
def readChars (ptr : Ptr) (index : Nat) : Nat → Op (List UInt8)
  | 0 => pure []
  | count + 1 => do
      let ch ← read ptr index
      let rest ← readChars ptr (index + 1) count
      pure (ch :: rest)

end Crossbow.BasicString
