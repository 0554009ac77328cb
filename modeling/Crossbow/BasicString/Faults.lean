import Crossbow.BasicString.Contents

/-! What a member can throw. Moving characters throws nothing; `reserve` throws
before it has touched the string. -/
namespace Crossbow.BasicString
open Kernel

abbrev Silent {Value : Type} (command : Op Value) : Prop := Command.Faults (fun _ => False) command

def OutOfRoom (fault : Exn) : Prop := fault = .lengthError ∨ fault = .badAlloc

theorem Silent.faults {Value : Type} {command : Op Value} {allowed : Exn → Prop}
    (hsilent : Silent command) : Command.Faults allowed command :=
  hsilent.mono fun _ => False.elim

theorem read_cases (ptr : Ptr) (index : Nat) (mem : Mem) :
    (∃ ch, read ptr index mem = some (.ok ch, mem)) ∨ read ptr index mem = none := by
  unfold read
  split
  · split
    · exact Or.inl ⟨_, rfl⟩
    · exact Or.inr rfl
  · split
    · split
      · exact Or.inl ⟨_, rfl⟩
      · exact Or.inr rfl
    · exact Or.inr rfl

theorem read_silent (ptr : Ptr) (index : Nat) : Silent (read ptr index) := by
  constructor
  intro mem fault after hrun
  rcases read_cases ptr index mem with ⟨ch, hread⟩ | hnone
  · cases hread.symm.trans hrun
  · cases hnone.symm.trans hrun

theorem read_state {ptr : Ptr} {index : Nat} {mem : Mem} {ch : UInt8} {after : Mem}
    (hrun : read ptr index mem = some (.ok ch, after)) : after = mem := by
  rcases read_cases ptr index mem with ⟨other, hread⟩ | hnone
  · cases hread.symm.trans hrun
    rfl
  · cases hnone.symm.trans hrun

theorem write_silent (ptr : Ptr) (index : Nat) (ch : UInt8) : Silent (write ptr index ch) := by
  constructor
  intro mem fault after hrun
  unfold write at hrun
  split at hrun
  · split at hrun <;> simp at hrun
  · split at hrun
    · split at hrun <;> simp at hrun
    · simp at hrun

theorem deallocate_silent (ptr : Ptr) (count : Nat) : Silent (deallocate ptr count) := by
  constructor
  intro mem fault after hrun
  unfold deallocate at hrun
  split at hrun
  · simp at hrun
  · split at hrun <;> simp at hrun

theorem editArr_silent (change : Memory → Memory) : Silent (editArr change) := .modify _

theorem terminate_silent : Silent terminate :=
  .bind .get fun mem => write_silent (getPtr mem.arr) (getSize mem.arr) 0

theorem putChars_silent (ptr : Ptr) (index : Nat) (text : List UInt8) :
    Silent (putChars ptr index text) := by
  induction text generalizing index with
  | nil => exact .pure ()
  | cons ch rest ih => exact .bind (write_silent ptr index ch) fun _ => ih (index + 1)

theorem copyChars_silent (source target : Ptr) (start index count : Nat) :
    Silent (copyChars source start target index count) := by
  induction count generalizing start index with
  | zero => exact .pure ()
  | succ count ih =>
      exact .bind (read_silent source start) fun ch =>
        .bind (write_silent target index ch) fun _ => ih (start + 1) (index + 1)

theorem moveTail_silent (ptr : Ptr) (size newSize i count : Nat) :
    Silent (moveTail ptr size newSize i count) := by
  induction count generalizing i with
  | zero => exact .pure ()
  | succ count ih =>
      exact .bind (read_silent ptr _) fun ch => .bind (write_silent ptr _ ch) fun _ => ih (i + 1)

theorem erase_silent (first last : Nat) : Silent (erase first last) := by
  refine .bind .get fun mem => .ite ?_ .undefined
  exact .bind (copyChars_silent ..) fun _ => .bind (editArr_silent _) fun _ => terminate_silent

/-! ### `reserve` -/

def Refused (mem : Mem) : Prop :=
  mem.supply = none ∨ ∃ bytes, mem.supply = some (0, bytes) ∧ mem.heap 0 = none

def RoomDenied (maxSize newCap : Nat) (mem : Mem) : Prop :=
  getCapacity mem.arr < newCap ∧ (maxSize < newCap ∨ Refused mem)

/-- The string is as it was: its array, and every block that was in use. -/
structure Untouched (before after : Mem) : Prop where
  arr : after.arr = before.arr
  heap : ∀ address, before.heap address ≠ none → after.heap address = before.heap address

theorem Untouched.refl (mem : Mem) : Untouched mem mem := ⟨rfl, fun _ _ => rfl⟩

theorem Untouched.holds {before after : Mem} {text : List UInt8}
    (huntouched : Untouched before after) (hholds : Holds before.arr before.heap text) :
    Holds after.arr after.heap text := by
  rw [huntouched.arr]
  refine hholds.heap_congr fun address hptr => huntouched.heap address ?_
  intro hfree
  exact hholds.shaped.ptr_ne_free hfree hptr

variable {mem after : Mem} {fault : Exn}

theorem allocate_error {count : Nat} (hrun : allocate count mem = some (.error fault, after)) :
    fault = .badAlloc ∧ mem.supply = none ∧ after = mem := by
  unfold allocate at hrun
  split at hrun
  · rename_i hsupply
    simp only [Option.some.injEq, Prod.mk.injEq, Except.error.injEq] at hrun
    exact ⟨hrun.1.symm, hsupply, hrun.2.symm⟩
  · split at hrun <;> simp at hrun

theorem allocate_ok {count address : Nat} (hrun : allocate count mem = some (.ok address, after)) :
    ∃ bytes, mem.supply = some (address, bytes) ∧ mem.heap address = none ∧
      after = { mem with heap := Function.update mem.heap address (some ⟨count, bytes⟩) } := by
  unfold allocate at hrun
  split at hrun
  · simp at hrun
  · rename_i given bytes hsupply
    split at hrun
    · rename_i hfree
      simp only [Option.some.injEq, Prod.mk.injEq, Except.ok.injEq] at hrun
      obtain ⟨rfl, rfl⟩ := hrun
      exact ⟨bytes, hsupply, hfree, rfl⟩
    · simp at hrun

theorem grow_rest_silent (ptr : Ptr) (sz nptr newCap count : Nat) (inline : Prop)
    [Decidable inline] :
    Silent (do
      copyChars ptr 0 (.block nptr) 0 (sz + 1)
      if inline then do
        editArr (store · 0 [nullchar])
        editArr (setSize · sz)
      else deallocate ptr count
      editArr (setCapacity · newCap)
      editArr (setPtr · nptr)) := by
  have hfields : Silent (do
      editArr (setCapacity · newCap)
      editArr (setPtr · nptr)) := .bind (editArr_silent _) fun _ => editArr_silent _
  refine .bind (copyChars_silent ..) fun _ => .ite ?_ ?_
  · exact .bind (editArr_silent _) fun _ => .bind (editArr_silent _) fun _ => hfields
  · exact .bind (deallocate_silent ..) fun _ => hfields

theorem grow_error {newCap : Nat} (hrun : grow newCap mem = some (.error fault, after)) :
    fault = .badAlloc ∧ Refused mem ∧ Untouched mem after := by
  rw [grow, Command.get_bind] at hrun
  rcases Command.bind_eq_error.mp hrun with hallocate | ⟨address, middle, hallocate, hcopy⟩
  · obtain ⟨rfl, hnone, rfl⟩ := allocate_error hallocate
    exact ⟨rfl, Or.inl hnone, .refl _⟩
  · obtain ⟨bytes, hsupply, hfree, rfl⟩ := allocate_ok hallocate
    by_cases hnull : address = 0
    · rw [if_pos hnull] at hcopy
      subst hnull
      obtain ⟨rfl, rfl⟩ : Exn.badAlloc = fault ∧ _ = after := by
        simpa [Command.throw] using hcopy
      refine ⟨rfl, Or.inr ⟨bytes, hsupply, hfree⟩, rfl, fun address hused => ?_⟩
      have hne : address ≠ 0 := fun heq => hused (heq ▸ hfree)
      exact Function.update_of_ne hne _ _
    · rw [if_neg hnull] at hcopy
      exact ((grow_rest_silent ..).only hcopy).elim

theorem reserve_error {maxSize newCap : Nat}
    (hrun : reserve maxSize newCap mem = some (.error fault, after)) :
    OutOfRoom fault ∧ RoomDenied maxSize newCap mem ∧ Untouched mem after := by
  rw [reserve, Command.get_bind] at hrun
  split at hrun
  · cases hrun
  · rename_i hsmall
    split at hrun
    · rename_i hlarge
      cases hrun
      exact ⟨Or.inl rfl, ⟨by omega, Or.inl hlarge⟩, .refl _⟩
    · obtain ⟨rfl, hrefused, huntouched⟩ := grow_error hrun
      exact ⟨Or.inr rfl, ⟨by omega, Or.inr hrefused⟩, huntouched⟩

theorem reserve_throws {maxSize newCap : Nat} (hdenied : RoomDenied maxSize newCap mem) :
    Command.Throws (reserve maxSize newCap) mem fun _ after => Untouched mem after := by
  obtain ⟨hsmall, hreason⟩ := hdenied
  unfold reserve
  apply Command.Throws.later
  apply Command.Returns.get
  rw [if_neg (by omega)]
  by_cases hlarge : newCap > maxSize
  · rw [if_pos hlarge]
    exact .throw (.refl mem)
  · rw [if_neg hlarge]
    unfold grow
    apply Command.Throws.later
    apply Command.Returns.get
    rcases hreason.resolve_left hlarge with hnone | ⟨bytes, hsupply, hfree⟩
    · refine ⟨.badAlloc, mem, ?_, .refl mem⟩
      simp only [Bind.bind, allocate, hnone]
    · apply Command.Throws.later
      refine ⟨0, _, by simp only [allocate, hsupply, hfree]; rfl, ?_⟩
      dsimp only
      rw [if_pos rfl]
      refine .throw ⟨rfl, fun address hused => ?_⟩
      have hne : address ≠ 0 := fun heq => hused (heq ▸ hfree)
      exact Function.update_of_ne hne _ _

theorem reserve_faults (maxSize newCap : Nat) :
    Command.Faults OutOfRoom (reserve maxSize newCap) :=
  ⟨fun hrun => (reserve_error hrun).1⟩

theorem insertText_faults (maxSize index : Nat) (text : List UInt8) :
    Command.Faults OutOfRoom (insertText maxSize index text) := by
  refine .bind .get fun mem => .bind (reserve_faults ..) fun _ => .bind .get fun mem => ?_
  exact .bind (write_silent ..).faults fun _ => .bind (moveTail_silent ..).faults fun _ =>
    .bind (putChars_silent ..).faults fun _ => (editArr_silent _).faults

theorem insertRange_faults (maxSize pos : Nat) (text : List UInt8) :
    Command.Faults OutOfRoom (insertRange maxSize pos text) :=
  .bind .get fun _ => .ite (insertText_faults ..) .undefined

end Crossbow.BasicString
