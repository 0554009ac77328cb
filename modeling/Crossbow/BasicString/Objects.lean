import Crossbow.BasicString.Growth

/-! Strings as an implementation can have them, and what a `const` member may read
of one: the characters, the terminator and whatever stands behind it in the same
storage. -/
namespace Crossbow.BasicString
open Kernel

/-- `PTRDIFF_MAX`; no object is larger. -/
def ptrdiffMax : Nat := 2 ^ 63 - 1

/-- A string whose block was allocated for `capacity()` characters and the
terminator, and is no larger than an object can be. -/
structure Valid (arr : Memory) (heap : Heap) (text : List UInt8) : Prop extends
    Holds arr heap text where
  allocated : ∀ address block, getPtr arr = .block address → heap address = some block →
    block.length = getCapacity arr + 1
  bounded : getCapacity arr < ptrdiffMax

theorem Valid.length_lt {arr : Memory} {heap : Heap} {text : List UInt8}
    (hvalid : Valid arr heap text) : text.length < ptrdiffMax :=
  Nat.lt_of_le_of_lt hvalid.fits hvalid.bounded

def peek (arr : Memory) (heap : Heap) (index : Nat) : Option UInt8 :=
  match read (getPtr arr) index ⟨arr, heap, none, []⟩ with
  | some (.ok ch, _) => some ch
  | _ => none

section Reading

variable {arr : Memory} {heap : Heap} {text : List UInt8} {index : Nat}

theorem Holds.peek_eq (hholds : Holds arr heap text) (hindex : index ≤ getCapacity arr) :
    peek arr heap index = some (chars arr heap index) := by
  unfold peek
  cases hholds.shaped with
  | inline hmark hroom =>
      have hbound : 1 + index < arrSize := by
        rw [hroom] at hindex
        simp only [arrSize, maxInBufferSize] at *
        omega
      rw [getPtr_inline hmark, chars_inline hmark]
      simp only [read, hbound, if_true]
  | onHeap address block hmark hptr hblock hcapacity hroom hlength =>
      have hbound : index < block.length := by omega
      rw [hptr, chars_block hptr hblock]
      simp only [read, hblock, hbound, if_true]

theorem Valid.peek_eq (hvalid : Valid arr heap text) (index : Nat) :
    peek arr heap index =
      if index ≤ getCapacity arr then some (chars arr heap index) else none := by
  split
  · rename_i hindex
    exact hvalid.toHolds.peek_eq hindex
  · rename_i hindex
    unfold peek
    cases hvalid.shaped with
    | inline hmark hroom =>
        have hbound : ¬ 1 + index < arrSize := by
          rw [hroom] at hindex
          simp only [arrSize, maxInBufferSize] at *
          omega
        rw [getPtr_inline hmark]
        simp only [read, hbound, if_false]
    | onHeap address block hmark hptr hblock hcapacity hroom hlength =>
        have hbound : ¬ index < block.length := by
          rw [hvalid.allocated address block hptr hblock]
          omega
        rw [hptr]
        simp only [read, hblock, hbound, if_false]

theorem Holds.peek_text (hholds : Holds arr heap text) (hindex : index < text.length) :
    peek arr heap index = text[index]? := by
  have hfits := hholds.fits
  have hcontent := hholds.content
  rw [hholds.peek_eq (by omega), List.getElem?_eq_getElem hindex, Option.some.injEq]
  have hload : (load (chars arr heap) 0 text.length)[index]? = text[index]? := by rw [hcontent]
  rw [List.getElem?_eq_getElem (by simpa using hindex), List.getElem?_eq_getElem hindex,
    Option.some.injEq, getElem_load, Nat.zero_add] at hload
  exact hload

end Reading

/-- The array of a short string, over the bytes that stood there before. -/
def inlineArr (bytes : Memory) (text : List UInt8) : Memory :=
  store (store bytes 0 [UInt8.ofNat text.length]) 1 (text ++ [0])

theorem valid_inlineArr (bytes : Memory) (heap : Heap) {text : List UInt8}
    (hsmall : text.length ≤ maxInBufferSize) : Valid (inlineArr bytes text) heap text := by
  have hthirty : maxInBufferSize = 30 := rfl
  have hfirst : inlineArr bytes text 0 = UInt8.ofNat text.length := by
    unfold inlineArr
    rw [store_of_lt _ _ (by omega), store_self]
  have hmark : inlineArr bytes text 0 ≠ nullchar := hfirst ▸ small_ne_nullchar hsmall
  have hcapacity := getCapacity_inline hmark
  have hchars : chars (inlineArr bytes text) heap =
      store (fun place => store bytes 0 [UInt8.ofNat text.length] (1 + place)) 0 (text ++ [0]) := by
    rw [chars_inline hmark]
    exact store_behind _ 0 _
  refine ⟨⟨?_, ?_, ?_, ?_, ?_⟩, ?_, ?_⟩
  · rw [hcapacity]
    exact .inline hmark rfl
  · rw [getSize_inline hmark, hfirst, UInt8.toNat_ofNat']
    exact Nat.mod_eq_of_lt (by omega)
  · rw [hcapacity]
    exact hsmall
  · rw [hchars, ← store_append, load_store_disjoint _ (Or.inl (by omega)), load_store]
  · rw [hchars, ← store_append, Nat.zero_add, store_self]
  · intro address block hptr
    rw [getPtr_inline hmark] at hptr
    contradiction
  · rw [hcapacity]
    decide

/-- A member's view of a short string, with no block in use and one to be had. -/
def shortMem (text : List UInt8) : Mem where
  arr := inlineArr zeroArr text
  heap := fun _ => none
  supply := some (1, zeroArr)
  released := []

theorem valid_shortMem {text : List UInt8} (hsmall : text.length ≤ maxInBufferSize) :
    Valid (shortMem text).arr (shortMem text).heap text :=
  valid_inlineArr zeroArr _ hsmall

theorem supplied_shortMem (text : List UInt8) :
    Supplied (shortMem text).supply (shortMem text).heap :=
  ⟨by decide, by decide, rfl⟩

end Crossbow.BasicString
