import Crossbow.BasicString.Buffer

/-! What it means that a string holds a text, and how a member may change the
heap: it releases the block it gives up, takes over a free one, and leaves the
blocks of other strings alone. -/
namespace Crossbow.BasicString
open Kernel

/-- The representation invariant, with the text it stands for. -/
structure Holds (arr : Memory) (heap : Heap) (text : List UInt8) : Prop where
  shaped : Shaped arr heap (getCapacity arr)
  size : getSize arr = text.length
  fits : text.length ≤ getCapacity arr
  content : load (chars arr heap) 0 text.length = text
  terminated : chars arr heap text.length = 0

variable {heap : Heap} {before : Option Memory}

theorem Holds.heap_congr {arr : Memory} {other : Heap} {text : List UInt8}
    (hholds : Holds arr heap text)
    (hsame : ∀ address, getPtr arr = .block address → other address = heap address) :
    Holds arr other text := by
  have hchars := chars_heap_congr hsame
  exact ⟨hholds.shaped.heap_congr hsame, hholds.size, hholds.fits, hchars ▸ hholds.content,
    hchars ▸ hholds.terminated⟩

theorem holds_zeroArr (heap : Heap) : Holds zeroArr heap [] := by
  have hmark : zeroArr 0 ≠ nullchar := by decide
  refine ⟨.inline hmark (getCapacity_inline hmark), ?_, Nat.zero_le _, by simp [load], ?_⟩
  · rw [getSize_inline hmark]; rfl
  · rw [chars_inline hmark]; rfl

def Owns (string : Option Memory) (address : Nat) : Prop :=
  string.map getPtr = some (.block address)

@[simp] theorem owns_none (address : Nat) : ¬ Owns none address := nofun

@[simp] theorem owns_some (arr : Memory) (address : Nat) :
    Owns (some arr) address ↔ getPtr arr = .block address := by
  simp [Owns]

structure Transfer (before : Option Memory) (heap : Heap) (after : Option Memory)
    (newHeap : Heap) : Prop where
  others : ∀ address, ¬ Owns before address → ¬ Owns after address →
    newHeap address = heap address
  released : ∀ address, Owns before address → ¬ Owns after address → newHeap address = none
  fresh : ∀ address, Owns after address → Owns before address ∨ heap address = none

theorem Transfer.keep {after : Option Memory}
    (hsame : ∀ address, Owns after address ↔ Owns before address) :
    Transfer before heap after heap := by
  constructor
  · intro address _ _; rfl
  · intro address hbefore hafter
    exact absurd ((hsame address).mpr hbefore) hafter
  · intro address hafter
    exact Or.inl ((hsame address).mp hafter)

theorem Transfer.acquire {arr : Memory} {address : Nat} (hnone : ∀ other, ¬ Owns before other)
    (hptr : getPtr arr = .block address) (hfree : heap address = none) (block : Block) :
    Transfer before heap (some arr) (Function.update heap address (some block)) := by
  constructor
  · intro other _ hother
    have hne : other ≠ address := fun heq => hother (by rw [owns_some, hptr, heq])
    exact Function.update_of_ne hne _ _
  · intro other hbefore
    exact absurd hbefore (hnone other)
  · intro other hother
    rw [owns_some, hptr, Ptr.block.injEq] at hother
    exact Or.inr (hother ▸ hfree)

theorem Transfer.exchange {arr : Memory} {address old : Nat} (hold : Owns before old)
    (hptr : getPtr arr = .block address) (hfree : heap address = none) (block : Block) :
    Transfer before heap (some arr)
      (Function.update (Function.update heap address (some block)) old none) := by
  constructor
  · intro other hbefore hother
    have hne : other ≠ address := fun heq => hother (by rw [owns_some, hptr, heq])
    have hold' : other ≠ old := fun heq => hbefore (heq ▸ hold)
    rw [Function.update_of_ne hold', Function.update_of_ne hne]
  · intro other hbefore _
    have hsame : old = other := by simpa using hold.symm.trans hbefore
    rw [← hsame, Function.update_self]
  · intro other hother
    rw [owns_some, hptr, Ptr.block.injEq] at hother
    exact Or.inr (hother ▸ hfree)

theorem Transfer.release {after : Option Memory} {old : Nat} (hold : Owns before old)
    (hnone : ∀ other, ¬ Owns after other) :
    Transfer before heap after (Function.update heap old none) := by
  constructor
  · intro other hbefore _
    have hne : other ≠ old := fun heq => hbefore (heq ▸ hold)
    exact Function.update_of_ne hne _ _
  · intro other hbefore _
    have hsame : old = other := by simpa using hold.symm.trans hbefore
    rw [← hsame, Function.update_self]
  · intro other hafter
    exact absurd hafter (hnone other)

theorem Transfer.trans {first second third : Option Memory} {middle last : Heap}
    (hleft : Transfer first heap second middle) (hright : Transfer second middle third last) :
    Transfer first heap third last := by
  constructor
  · intro address hfirst hthird
    by_cases hsecond : Owns second address
    · -- taken over and given up again
      have hfree := (hleft.fresh address hsecond).resolve_left hfirst
      rw [hright.released address hsecond hthird, hfree]
    · rw [hright.others address hsecond hthird, hleft.others address hfirst hsecond]
  · intro address hfirst hthird
    by_cases hsecond : Owns second address
    · exact hright.released address hsecond hthird
    · rw [hright.others address hsecond hthird, hleft.released address hfirst hsecond]
  · intro address hthird
    by_cases hfirst : Owns first address
    · exact Or.inl hfirst
    refine Or.inr ?_
    by_cases hsecond : Owns second address
    · exact (hleft.fresh address hsecond).resolve_left hfirst
    · rw [← hleft.others address hfirst hsecond]
      exact (hright.fresh address hthird).resolve_left hsecond

theorem Transfer.edit {mem after : Mem} {room size : Nat} {text : Memory}
    (htransfer : Transfer before heap (some mem.arr) mem.heap)
    (hedited : Edited mem after room size text) :
    Transfer before heap (some after.arr) after.heap := by
  have howns : ∀ address, Owns (some after.arr) address ↔ Owns (some mem.arr) address := by
    intro address
    rw [owns_some, owns_some, hedited.ptr]
  constructor
  · intro address hbefore hafter
    rw [howns] at hafter
    exact (hedited.others address (by simpa using hafter)).trans
      (htransfer.others address hbefore hafter)
  · intro address hbefore hafter
    rw [howns] at hafter
    exact (hedited.others address (by simpa using hafter)).trans
      (htransfer.released address hbefore hafter)
  · intro address hafter
    exact htransfer.fresh address ((howns address).mp hafter)

/-- What a member that starts from a live string, or from raw memory, establishes. -/
def Becomes (before : Option Memory) (heap : Heap) (text : List UInt8) (after : Mem) : Prop :=
  Holds after.arr after.heap text ∧ Transfer before heap (some after.arr) after.heap

theorem Becomes.ofEdited {mem after : Mem} {room size : Nat} {list : List UInt8} {text : Memory}
    (htransfer : Transfer before heap (some mem.arr) mem.heap)
    (hedited : Edited mem after room size text) (hfits : size ≤ room)
    (htext : load text 0 size = list) (hterminated : text size = 0) :
    Becomes before heap list after := by
  have hcapacity := hedited.shaped.capacity
  have hsize : list.length = size := by rw [← htext, length_load]
  refine ⟨⟨?_, ?_, ?_, ?_, ?_⟩, htransfer.edit hedited⟩
  · rw [hcapacity]; exact hedited.shaped
  · rw [hsize]; exact hedited.size
  · rw [hcapacity, hsize]; exact hfits
  · rw [hedited.text, hsize]; exact htext
  · rw [hedited.text, hsize]; exact hterminated

end Crossbow.BasicString
