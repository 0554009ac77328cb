import Crossbow.BasicString.Members

/-! The characters of a string seen through `get_ptr()`, in the same way for both
kinds of storage. `Edited` says what a sequence of character writes and size
updates has done since some earlier state. -/
namespace Crossbow.BasicString
open Kernel

/-! ### The fields of the array -/

theorem mark_setCapacity (arr : Memory) (count : Nat) : setCapacity arr count 0 = arr 0 :=
  store_of_lt arr _ (by decide)

theorem mark_setPtr (arr : Memory) (address : Nat) : setPtr arr address 0 = arr 0 :=
  store_of_lt arr _ (by decide)

variable {arr : Memory} {count index : Nat} {heap : Heap}

theorem mark_setSize_heap (hmark : arr 0 = nullchar) (count : Nat) :
    setSize arr count 0 = nullchar := by
  unfold setSize
  rw [if_neg (by simp [hmark]), store_of_lt arr _ (by decide), hmark]

theorem small_ne_nullchar (hcount : count ≤ maxInBufferSize) :
    UInt8.ofNat count ≠ nullchar := by
  have hsmall : count ≤ 30 := hcount
  intro heq
  have hvalue := congrArg UInt8.toNat heq
  rw [UInt8.toNat_ofNat'] at hvalue
  change count % 256 = 127 at hvalue
  omega

section Heap

variable (hmark : arr 0 = nullchar)
include hmark

theorem getPtr_heap : getPtr arr = .block (decodeLE (load arr pointerOffset 8)) := by
  unfold getPtr
  rw [if_neg (by simp [hmark])]

theorem getSize_heap : getSize arr = decodeLE (load arr sizeOffset 8) := by
  unfold getSize
  rw [if_neg (by simp [hmark])]

theorem getCapacity_heap : getCapacity arr = decodeLE (load arr capacityOffset 8) := by
  unfold getCapacity
  rw [if_neg (by simp [hmark])]

end Heap

section Inline

variable (hmark : arr 0 ≠ nullchar)
include hmark

theorem getPtr_inline : getPtr arr = .buffer := by
  unfold getPtr
  rw [if_pos hmark]

theorem getSize_inline : getSize arr = (arr 0).toNat := by
  unfold getSize
  rw [if_pos hmark]

theorem getCapacity_inline : getCapacity arr = maxInBufferSize := by
  unfold getCapacity
  rw [if_pos hmark]

end Inline

theorem getSize_lt (arr : Memory) : getSize arr < wordRange := by
  unfold getSize
  split
  · exact Nat.lt_of_lt_of_le (UInt8.toNat_lt _) (by decide)
  · have hlt := decodeLE_lt (load arr sizeOffset 8)
    rwa [length_load] at hlt

theorem decodeLE_load_store (arr : Memory) (offset : Nat) {value : Nat}
    (hvalue : value < wordRange) :
    decodeLE (load (store arr offset (natLE 8 value)) offset 8) = value := by
  have hload := load_store arr offset (natLE 8 value)
  rw [length_natLE] at hload
  rw [hload]
  exact decodeLE_natLE_of_lt hvalue

theorem decodeLE_load_store_apart (arr : Memory) {offset start : Nat} {bytes : List UInt8}
    (hapart : start + 8 ≤ offset ∨ offset + bytes.length ≤ start) :
    decodeLE (load (store arr offset bytes) start 8) = decodeLE (load arr start 8) := by
  rw [load_store_disjoint arr hapart]

section Fields

variable {value : Nat} (hmark : arr 0 = nullchar)
include hmark

theorem getSize_setCapacity : getSize (setCapacity arr value) = getSize arr := by
  rw [getSize_heap hmark, getSize_heap ((mark_setCapacity arr value).trans hmark)]
  unfold setCapacity
  rw [decodeLE_load_store_apart arr (Or.inl (by simp [capacityOffset, sizeOffset]))]

theorem getSize_setPtr : getSize (setPtr arr value) = getSize arr := by
  rw [getSize_heap hmark, getSize_heap ((mark_setPtr arr value).trans hmark)]
  unfold setPtr
  rw [decodeLE_load_store_apart arr (Or.inl (by simp [pointerOffset, sizeOffset]))]

theorem getCapacity_setPtr : getCapacity (setPtr arr value) = getCapacity arr := by
  rw [getCapacity_heap hmark, getCapacity_heap ((mark_setPtr arr value).trans hmark)]
  unfold setPtr
  rw [decodeLE_load_store_apart arr (Or.inl (by simp [pointerOffset, capacityOffset]))]

theorem getPtr_setSize : getPtr (setSize arr value) = getPtr arr := by
  rw [getPtr_heap hmark, getPtr_heap (mark_setSize_heap hmark value)]
  unfold setSize
  rw [if_neg (by simp [hmark]),
    decodeLE_load_store_apart arr (Or.inr (by simp [sizeOffset, pointerOffset]))]

theorem getCapacity_setSize : getCapacity (setSize arr value) = getCapacity arr := by
  rw [getCapacity_heap hmark, getCapacity_heap (mark_setSize_heap hmark value)]
  unfold setSize
  rw [if_neg (by simp [hmark]),
    decodeLE_load_store_apart arr (Or.inr (by simp [sizeOffset, capacityOffset]))]

variable (hvalue : value < wordRange)
include hvalue

theorem getCapacity_setCapacity : getCapacity (setCapacity arr value) = value := by
  rw [getCapacity_heap ((mark_setCapacity arr value).trans hmark)]
  exact decodeLE_load_store arr capacityOffset hvalue

theorem getPtr_setPtr : getPtr (setPtr arr value) = .block value := by
  rw [getPtr_heap ((mark_setPtr arr value).trans hmark)]
  exact congrArg Ptr.block (decodeLE_load_store arr pointerOffset hvalue)

theorem getSize_setSize : getSize (setSize arr value) = value := by
  rw [getSize_heap (mark_setSize_heap hmark value)]
  unfold setSize
  rw [if_neg (by simp [hmark])]
  exact decodeLE_load_store arr sizeOffset hvalue

end Fields

/-! ### The characters -/

def chars (arr : Memory) (heap : Heap) : Memory :=
  match getPtr arr with
  | .buffer => fun index => arr (1 + index)
  | .block address =>
      match heap address with
      | some block => block.bytes
      | none => zeroArr

theorem chars_inline (hmark : arr 0 ≠ nullchar) (heap : Heap) :
    chars arr heap = fun index => arr (1 + index) := by
  unfold chars
  rw [getPtr_inline hmark]

theorem chars_block {address : Nat} {block : Block} (hptr : getPtr arr = .block address)
    (hblock : heap address = some block) :
    chars arr heap = block.bytes := by
  unfold chars
  rw [hptr]
  simp only [hblock]

/-- A string with storage for `room` characters and a terminator: its own array,
or a heap block that it points to. -/
inductive Shaped (arr : Memory) (heap : Heap) (room : Nat) : Prop where
  | inline (hmark : arr 0 ≠ nullchar) (hroom : room = maxInBufferSize)
  | onHeap (address : Nat) (block : Block) (hmark : arr 0 = nullchar)
      (hptr : getPtr arr = .block address) (hblock : heap address = some block)
      (hcapacity : getCapacity arr = room) (hroom : maxInBufferSize < room)
      (hlength : room < block.length)

theorem Shaped.capacity {room : Nat} (hshaped : Shaped arr heap room) : getCapacity arr = room := by
  cases hshaped with
  | inline hmark hroom => rw [getCapacity_inline hmark, hroom]
  | onHeap _ _ _ _ _ hcapacity _ _ => exact hcapacity

theorem Shaped.room_lt {room : Nat} (hshaped : Shaped arr heap room) : room < wordRange := by
  cases hshaped with
  | inline _ hroom => rw [hroom]; decide
  | onHeap _ _ hmark _ _ hcapacity _ _ =>
      rw [← hcapacity, getCapacity_heap hmark]
      have hbound := decodeLE_lt (load arr capacityOffset 8)
      rwa [length_load] at hbound

theorem Shaped.heap_congr {other : Heap} {room : Nat} (hshaped : Shaped arr heap room)
    (hsame : ∀ address, getPtr arr = .block address → other address = heap address) :
    Shaped arr other room := by
  cases hshaped with
  | inline hmark hroom => exact .inline hmark hroom
  | onHeap address block hmark hptr hblock hcapacity hroom hlength =>
      exact .onHeap address block hmark hptr ((hsame address hptr).trans hblock) hcapacity hroom
        hlength

theorem chars_heap_congr {other : Heap}
    (hsame : ∀ address, getPtr arr = .block address → other address = heap address) :
    chars arr other = chars arr heap := by
  unfold chars
  cases hptr : getPtr arr with
  | buffer => rfl
  | block address => simp only [hsame address hptr]

/-- Since `before`, characters of the string and its size were changed in place;
`text` and `size` are what they are now. -/
structure Edited (before after : Mem) (room size : Nat) (text : Memory) : Prop where
  shaped : Shaped after.arr after.heap room
  ptr : getPtr after.arr = getPtr before.arr
  size : getSize after.arr = size
  text : chars after.arr after.heap = text
  others : ∀ address, getPtr before.arr ≠ .block address →
    after.heap address = before.heap address
  supply : after.supply = before.supply

theorem Edited.refl {mem : Mem} {room : Nat} (hshaped : Shaped mem.arr mem.heap room) :
    Edited mem mem room (getSize mem.arr) (chars mem.arr mem.heap) :=
  ⟨hshaped, rfl, rfl, rfl, fun _ _ => rfl, rfl⟩

variable {before mem : Mem} {room size : Nat} {text : Memory}

theorem Edited.read (hedited : Edited before mem room size text) (hindex : index ≤ room) :
    Command.Returns (read (getPtr before.arr) index) mem
      fun ch after => ch = text index ∧ after = mem := by
  rw [← hedited.ptr, ← hedited.text]
  cases hedited.shaped with
  | inline hmark hroom =>
      have hbound : 1 + index < arrSize := by
        have hsmall : room = 30 := hroom
        show 1 + index < 32
        omega
      rw [getPtr_inline hmark, chars_inline hmark]
      exact ⟨_, _, if_pos hbound, rfl, rfl⟩
  | onHeap address block _ hptr hblock _ _ hlength =>
      rw [hptr, chars_block hptr hblock]
      refine ⟨block.bytes index, mem, ?_, rfl, rfl⟩
      simp only [BasicString.read, hblock]
      rw [if_pos (by omega)]

theorem store_behind (arr : Memory) (index : Nat) (bytes : List UInt8) :
    (fun place => store arr (1 + index) bytes (1 + place)) =
      store (fun place => arr (1 + place)) index bytes := by
  funext place
  unfold store
  simp only [Nat.add_le_add_iff_left, Nat.add_sub_add_left]

theorem write_block {address : Nat} {block : Block} (hblock : mem.heap address = some block)
    (hindex : index < block.length) (ch : UInt8) :
    write (.block address) index ch mem = some (.ok (), { mem with
      heap := Function.update mem.heap address
        (some { block with bytes := store block.bytes index [ch] }) }) := by
  simp only [write, hblock]
  rw [if_pos hindex]

theorem Edited.write (hedited : Edited before mem room size text) (hindex : index ≤ room)
    (ch : UInt8) :
    Command.Returns (write (getPtr before.arr) index ch) mem
      fun _ after => Edited before after room size (store text index [ch]) := by
  obtain ⟨hshaped, hptr, hsize, htext, hothers, hsupply⟩ := hedited
  subst htext hsize
  rw [← hptr]
  cases hshaped with
  | inline hmark hroom =>
      have hbound : 1 + index < arrSize := by
        have hsmall : room = 30 := hroom
        show 1 + index < 32
        omega
      have hkeep : store mem.arr (1 + index) [ch] 0 = mem.arr 0 :=
        store_of_lt mem.arr _ (by omega)
      have hmark' : store mem.arr (1 + index) [ch] 0 ≠ nullchar := hkeep ▸ hmark
      rw [getPtr_inline hmark]
      refine ⟨(), _, if_pos hbound, .inline hmark' hroom, ?_, ?_, ?_, hothers, hsupply⟩
      · rw [← hptr, getPtr_inline hmark, getPtr_inline hmark']
      · rw [getSize_inline hmark, getSize_inline hmark', hkeep]
      · rw [chars_inline hmark, chars_inline hmark', store_behind]
  | onHeap address block hmark hown hblock hcapacity hroom hlength =>
      rw [hown]
      have hnew := Function.update_self address
        (some { block with bytes := store block.bytes index [ch] }) mem.heap
      refine ⟨(), _, write_block hblock (by omega) ch,
        .onHeap address _ hmark hown hnew hcapacity hroom hlength, hptr, rfl, ?_, ?_, hsupply⟩
      · rw [chars_block hown hblock]
        exact chars_block hown hnew
      · intro other hother
        have hne : other ≠ address := fun heq => hother (hptr ▸ heq ▸ hown)
        exact (Function.update_of_ne hne _ _).trans (hothers other hother)

theorem Shaped.withSize (hshaped : Shaped arr heap room) (hcount : count ≤ room) :
    Shaped (setSize arr count) heap room ∧ getPtr (setSize arr count) = getPtr arr ∧
      getSize (setSize arr count) = count ∧ chars (setSize arr count) heap = chars arr heap := by
  have hword : count < wordRange := Nat.lt_of_le_of_lt hcount hshaped.room_lt
  cases hshaped with
  | inline hmark hroom =>
      have hset : setSize arr count = store arr 0 [UInt8.ofNat count] := if_pos hmark
      have hsmall : count ≤ maxInBufferSize := hroom ▸ hcount
      have hthirty : maxInBufferSize = 30 := rfl
      have hmark' : store arr 0 [UInt8.ofNat count] 0 ≠ nullchar := by
        rw [store_self]
        exact small_ne_nullchar hsmall
      rw [hset]
      refine ⟨.inline hmark' hroom, ?_, ?_, ?_⟩
      · rw [getPtr_inline hmark, getPtr_inline hmark']
      · rw [getSize_inline hmark', store_self, UInt8.toNat_ofNat']
        exact Nat.mod_eq_of_lt (by omega)
      · rw [chars_inline hmark, chars_inline hmark']
        funext place
        exact store_of_ge arr (by simp)
  | onHeap address block hmark hptr hblock hcapacity hroom hlength =>
      have hptr' : getPtr (setSize arr count) = .block address :=
        (getPtr_setSize hmark).trans hptr
      refine ⟨.onHeap address block (mark_setSize_heap hmark count) hptr' hblock
        ((getCapacity_setSize hmark).trans hcapacity) hroom hlength, getPtr_setSize hmark,
        getSize_setSize hmark hword, ?_⟩
      rw [chars_block hptr hblock, chars_block hptr' hblock]

section Accesses

variable (hedited : Edited before mem room size text)
include hedited

theorem Edited.setSize (hcount : count ≤ room) :
    Command.Returns (editArr (setSize · count)) mem
      fun _ after => Edited before after room count text := by
  obtain ⟨hshaped, hptr, hsize, htext⟩ := hedited.shaped.withSize hcount
  exact .modify ⟨hshaped, hptr.trans hedited.ptr, hsize, htext.trans hedited.text,
    hedited.others, hedited.supply⟩

theorem Edited.terminate (hsize : size ≤ room) :
    Command.Returns terminate mem
      fun _ after => Edited before after room size (store text size [0]) := by
  unfold BasicString.terminate
  apply Command.Returns.ofGet
  rw [hedited.size, hedited.ptr]
  exact hedited.write hsize 0

theorem Edited.putChars {list : List UInt8} (hlist : index + list.length ≤ room + 1) :
    Command.Returns (putChars (getPtr before.arr) index list) mem
      fun _ after => Edited before after room size (store text index list) := by
  induction list generalizing mem index text with
  | nil =>
      rw [store_nil]
      exact .pure hedited
  | cons ch rest ih =>
      rw [List.length_cons] at hlist
      unfold BasicString.putChars
      refine (hedited.write (by omega) ch).seq fun _ after hafter => ?_
      have hstore := store_append text index [ch] rest
      rw [List.length_singleton, List.singleton_append] at hstore
      rw [← hstore]
      exact ih hafter (by omega)

theorem Edited.moveTail {oldSize newSize i : Nat} (hcount : i + count ≤ oldSize)
    (horder : oldSize ≤ newSize) (hroom : newSize ≤ room) :
    Command.Returns (moveTail (getPtr before.arr) oldSize newSize i count) mem
      fun _ after => Edited before after room size
        (store text (newSize - i - count) (load text (oldSize - i - count) count)) := by
  have hword := hedited.shaped.room_lt
  induction count generalizing mem i text with
  | zero => exact .pure (by simpa [load] using hedited)
  | succ count ih =>
      have hread : wrapSub (wrapSub oldSize 1) i = oldSize - i - (count + 1) + count := by
        rw [wrapSub_wrapSub_of_lt (by omega) (by omega)]
        omega
      have hwrite : wrapSub (wrapSub newSize 1) i = newSize - i - (count + 1) + count := by
        rw [wrapSub_wrapSub_of_lt (by omega) (by omega)]
        omega
      unfold BasicString.moveTail
      rw [hread, hwrite]
      apply (hedited.read (by omega)).seq
      rintro _ _ ⟨rfl, rfl⟩
      refine (hedited.write (by omega) _).seq fun _ after hafter => ?_
      have hrest := ih hafter (show i + 1 + count ≤ oldSize by omega)
      have hapart : oldSize - i - (count + 1) + count ≤ newSize - i - (count + 1) + count := by
        omega
      rw [show newSize - (i + 1) - count = newSize - i - (count + 1) by omega,
        show oldSize - (i + 1) - count = oldSize - i - (count + 1) by omega,
        load_store_disjoint text (Or.inl hapart)] at hrest
      refine hrest.mono fun _ _ hdone => ?_
      have hjoin := store_append_above text (newSize - i - (count + 1))
        (load text (oldSize - i - (count + 1)) count)
        [text (oldSize - i - (count + 1) + count)]
      rw [length_load] at hjoin
      rw [load_append, load_one, ← hjoin]
      exact hdone

theorem Edited.copyDown {start : Nat} (horder : index ≤ start) (hcount : start + count ≤ room + 1) :
    Command.Returns (copyChars (getPtr before.arr) start (getPtr before.arr) index count) mem
      fun _ after => Edited before after room size (store text index (load text start count)) := by
  induction count generalizing mem start index text with
  | zero => exact .pure (by simpa [load] using hedited)
  | succ count ih =>
      unfold copyChars
      apply (hedited.read (by omega)).seq
      rintro _ _ ⟨rfl, rfl⟩
      refine (hedited.write (by omega) _).seq fun _ after hafter => ?_
      refine (ih hafter (by omega) (by omega)).mono fun _ _ hdone => ?_
      have hjoin := store_append text index [text start] (load text (start + 1) count)
      rw [List.length_singleton] at hjoin
      rw [Nat.add_comm count 1, load_append, load_one, ← hjoin]
      rw [load_store_disjoint text (Or.inr (by simp; omega))] at hdone
      exact hdone

theorem Edited.readChars (hcount : index + count ≤ room + 1) :
    Command.Returns (readChars (getPtr before.arr) index count) mem
      fun list after => list = load text index count ∧ after = mem := by
  induction count generalizing index with
  | zero => exact .pure ⟨by simp [load], rfl⟩
  | succ count ih =>
      unfold BasicString.readChars
      apply (hedited.read (by omega)).seq
      rintro _ _ ⟨rfl, rfl⟩
      apply (ih (by omega)).seq
      rintro _ _ ⟨rfl, rfl⟩
      refine .pure ⟨?_, rfl⟩
      rw [Nat.add_comm count 1, load_append, load_one, List.singleton_append]

end Accesses

end Crossbow.BasicString
