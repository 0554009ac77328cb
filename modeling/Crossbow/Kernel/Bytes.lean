import Mathlib.Algebra.Ring.Nat
import Mathlib.Logic.Function.Basic

/-! Byte-addressed memory and little-endian numbers. -/
namespace Crossbow.Kernel

abbrev Memory := Nat → UInt8

def store (memory : Memory) (address : Nat) (bytes : List UInt8) : Memory :=
  fun other => if address ≤ other then (bytes[other - address]?).getD (memory other)
    else memory other

def load (memory : Memory) (address size : Nat) : List UInt8 :=
  List.ofFn fun index : Fin size => memory (address + index)

@[simp] theorem length_load (memory : Memory) (address size : Nat) :
    (load memory address size).length = size :=
  List.length_ofFn

variable {count address index size : Nat} {memory : Memory} {bytes : List UInt8}

theorem getElem_load (hindex : index < (load memory address size).length) :
    (load memory address size)[index] = memory (address + index) := by
  simp [load]

theorem load_append (memory : Memory) (address left right : Nat) :
    load memory address (left + right) =
      load memory address left ++ load memory (address + left) right := by
  unfold load
  rw [List.ofFn_add]
  simp [Nat.add_assoc]

theorem load_eq_append {left right : List UInt8}
    (hload : load memory address (left ++ right).length = left ++ right) :
    load memory address left.length = left ∧
      load memory (address + left.length) right.length = right := by
  rw [List.length_append, load_append] at hload
  exact List.append_inj hload (length_load ..)

theorem load_one (memory : Memory) (address : Nat) : load memory address 1 = [memory address] := by
  simp [load]

theorem load_congr {other : Memory}
    (hsame : ∀ place, address ≤ place → place < address + size → memory place = other place) :
    load memory address size = load other address size := by
  unfold load
  apply congrArg
  funext index
  exact hsame _ (by omega) (by omega)

@[simp] theorem store_nil (memory : Memory) (address : Nat) :
    store memory address [] = memory := by
  funext other
  simp [store]

theorem store_append (memory : Memory) (address : Nat) (left right : List UInt8) :
    store (store memory address left) (address + left.length) right =
      store memory address (left ++ right) := by
  funext other
  unfold store
  by_cases hlow : address ≤ other
  · by_cases hhigh : address + left.length ≤ other
    · rw [if_pos hhigh, if_pos hlow, if_pos hlow, List.getElem?_append_right (by omega),
        List.getElem?_eq_none (show left.length ≤ other - address by omega),
        show other - (address + left.length) = other - address - left.length by omega]
      rfl
    · rw [if_neg hhigh, if_pos hlow, if_pos hlow, List.getElem?_append_left (by omega)]
  · rw [if_neg hlow, if_neg hlow, if_neg (by omega)]

theorem store_of_lt (memory : Memory) {other : Nat} (bytes : List UInt8)
    (hlow : other < address) : store memory address bytes other = memory other := by
  unfold store
  rw [if_neg (by omega)]

theorem store_of_ge (memory : Memory) {other : Nat} (hhigh : address + bytes.length ≤ other) :
    store memory address bytes other = memory other := by
  unfold store
  rw [List.getElem?_eq_none (show bytes.length ≤ other - address by omega)]
  split <;> rfl

theorem store_self (memory : Memory) (address : Nat) (byte : UInt8) :
    store memory address [byte] address = byte := by
  simp [store]

theorem store_inside (memory : Memory) (address : Nat) {bytes : List UInt8} {offset : Nat}
    (hoffset : offset < bytes.length) :
    store memory address bytes (address + offset) = bytes[offset] := by
  unfold store
  rw [if_pos (Nat.le_add_right ..), Nat.add_sub_cancel_left, List.getElem?_eq_getElem hoffset]
  rfl

theorem store_comm (memory : Memory) {low high : Nat} {lower upper : List UInt8}
    (hapart : low + lower.length ≤ high) :
    store (store memory high upper) low lower = store (store memory low lower) high upper := by
  funext place
  by_cases hhigh : high ≤ place
  · rw [store_of_ge _ (by omega)]
    unfold store
    rw [if_pos hhigh, if_pos hhigh]
    exact congrArg _ (store_of_ge memory (by omega)).symm
  · rw [store_of_lt (store memory low lower) upper (by omega)]
    unfold store
    rw [if_neg hhigh]

theorem store_append_above (memory : Memory) (address : Nat) (left right : List UInt8) :
    store (store memory (address + left.length) right) address left =
      store memory address (left ++ right) := by
  rw [← store_append, store_comm memory (Nat.le_refl _)]

@[simp] theorem load_store (memory : Memory) (address : Nat) (bytes : List UInt8) :
    load (store memory address bytes) address bytes.length = bytes := by
  apply List.ext_getElem (by simp)
  intro index hleft hright
  rw [getElem_load, store_inside memory address hright]

theorem take_load (memory : Memory) (address : Nat) (hcount : count ≤ size) :
    (load memory address size).take count = load memory address count := by
  rw [show size = count + (size - count) by omega, load_append]
  exact List.take_left' (length_load ..)

theorem load_store_take (memory : Memory) (address : Nat) (hcount : count ≤ bytes.length) :
    load (store memory address bytes) address count = bytes.take count := by
  rw [← take_load _ _ hcount, load_store]

theorem load_store_disjoint (memory : Memory) {start : Nat}
    (hapart : start + size ≤ address ∨ address + bytes.length ≤ start) :
    load (store memory address bytes) start size = load memory start size := by
  apply load_congr
  intro place hlow hhigh
  rcases hapart with hbefore | hafter
  · exact store_of_lt memory bytes (by omega)
  · exact store_of_ge memory (by omega)

theorem load_store_end (memory : Memory) (count : Nat) (bytes : List UInt8) :
    load (store memory count bytes) 0 (count + bytes.length) = load memory 0 count ++ bytes := by
  rw [load_append, load_store_disjoint memory (.inl (by omega)), Nat.zero_add, load_store]

theorem store_load {memory other : Memory} {address size : Nat}
    (hsame : ∀ place, place < address ∨ address + size ≤ place → other place = memory place) :
    store memory address (load other address size) = other := by
  funext place
  by_cases hinside : address ≤ place ∧ place < address + size
  · obtain ⟨offset, rfl⟩ := Nat.exists_eq_add_of_le hinside.1
    rw [store_inside memory address (by simp; omega), getElem_load]
  · rw [hsame place (by omega)]
    rcases Nat.lt_or_ge place address with hbefore | hbehind
    · exact store_of_lt memory _ hbefore
    · exact store_of_ge memory (by simp; omega)

/-- The memory after `count` bytes were copied within it, first to last. -/
def copyForward (memory : Memory) (start index : Nat) : Nat → Memory
  | 0 => memory
  | count + 1 =>
      store (copyForward memory start index count) (index + count)
        [copyForward memory start index count (start + count)]

theorem copyForward_succ (memory : Memory) (start index count : Nat) :
    copyForward (store memory index [memory start]) (start + 1) (index + 1) count =
      copyForward memory start index (count + 1) := by
  induction count with
  | zero => rfl
  | succ count ih =>
      rw [copyForward, ih, Nat.add_assoc start, Nat.add_assoc index, Nat.add_comm 1 count,
        ← copyForward]

theorem copyForward_outside (memory : Memory) {start place : Nat}
    (houtside : place < index ∨ index + count ≤ place) :
    copyForward memory start index count place = memory place := by
  induction count with
  | zero => rfl
  | succ count ih =>
      rw [copyForward]
      rcases houtside with hbefore | hafter
      · rw [store_of_lt _ _ (by omega), ih (Or.inl hbefore)]
      · rw [store_of_ge _ (by simp; omega), ih (Or.inr (by omega))]

theorem copyForward_echo (memory : Memory) {start offset : Nat} (horder : start < index)
    (hoffset : offset < count) :
    copyForward memory start index count (index + offset) =
      copyForward memory start index count (start + offset) := by
  induction count with
  | zero => omega
  | succ count ih =>
      rw [copyForward, store_of_lt _ _ (show start + offset < index + count by omega)]
      rcases Nat.lt_succ_iff_lt_or_eq.mp hoffset with hbefore | rfl
      · rw [store_of_lt _ _ (by omega), ih hbefore]
      · rw [store_self]

/-- The bytes that such a copy leaves are those that are read from where they came
from once they are stored. -/
theorem load_copyForward_eq_iff (memory : Memory) {start : Nat} (horder : start < index) :
    load (copyForward memory start index count) index count = bytes ↔
      load (store memory index bytes) start count = bytes := by
  constructor
  · rintro rfl
    rw [store_load fun place houtside => copyForward_outside memory houtside]
    apply List.ext_getElem (by simp)
    intro offset hleft hright
    rw [getElem_load, getElem_load, copyForward_echo memory horder (by simpa using hleft)]
  · intro hload
    have hlength : bytes.length = count := by rw [← hload, length_load]
    have hbyte : ∀ offset (hoffset : offset < bytes.length),
        bytes[offset] = store memory index bytes (start + offset) := by
      intro offset hoffset
      have hsame : (load (store memory index bytes) start count)[offset]? = bytes[offset]? := by
        rw [hload]
      rw [List.getElem?_eq_getElem (by simp; omega), List.getElem?_eq_getElem hoffset,
        Option.some.injEq, getElem_load] at hsame
      exact hsame.symm
    have hequal : ∀ offset, ∀ hoffset : offset < bytes.length,
        copyForward memory start index count (index + offset) = bytes[offset] := by
      intro offset
      induction offset using Nat.strong_induction_on with
      | h offset ih =>
          intro hoffset
          rw [copyForward_echo memory horder (by omega), hbyte offset hoffset]
          by_cases hbefore : start + offset < index
          · rw [copyForward_outside memory (Or.inl hbefore), store_of_lt _ _ hbefore]
          · have hearlier := ih (start + offset - index) (by omega) (by omega)
            rw [show index + (start + offset - index) = start + offset by omega] at hearlier
            have hinside := @store_inside memory index bytes (start + offset - index) (by omega)
            rw [show index + (start + offset - index) = start + offset by omega] at hinside
            rw [hearlier, hinside]
    apply List.ext_getElem (by simp [hlength])
    intro offset hleft hright
    rw [getElem_load, hequal offset hright]

theorem copyForward_congr {other : Memory} {start : Nat} (horder : start ≤ index)
    (hsame : ∀ place < index + count, memory place = other place) {place : Nat}
    (hplace : place < index + count) :
    copyForward memory start index count place = copyForward other start index count place := by
  induction count generalizing place with
  | zero => exact hsame place hplace
  | succ count ih =>
      have hbelow : ∀ place < index + count, copyForward memory start index count place =
          copyForward other start index count place := fun place hlt =>
        ih (fun place hlt => hsame place (by omega)) hlt
      rw [copyForward, copyForward]
      by_cases hlast : place = index + count
      · rw [hlast, store_self, store_self]
        by_cases hread : start + count < index + count
        · exact hbelow _ hread
        · rw [copyForward_outside memory (Or.inr (by omega)),
            copyForward_outside other (Or.inr (by omega))]
          exact hsame _ (by omega)
      · rw [store_of_lt _ _ (by omega), store_of_lt _ _ (by omega)]
        exact hbelow place (by omega)

theorem copyForward_self (memory : Memory) (start count : Nat) :
    copyForward memory start start count = memory := by
  induction count with
  | zero => rfl
  | succ count ih =>
      have hbyte := @store_load memory memory (start + count) 1 fun _ _ => rfl
      rw [load_one] at hbyte
      rw [copyForward, ih, hbyte]

theorem load_copyForward_iff (memory : Memory) {start : Nat} (horder : start ≤ index) :
    load (copyForward memory start index count) index count = bytes ↔
      load (if start < index then store memory index bytes else memory) start count = bytes := by
  rcases Nat.lt_or_eq_of_le horder with hlt | rfl
  · rw [if_pos hlt, load_copyForward_eq_iff memory hlt]
  · rw [if_neg (Nat.lt_irrefl _), copyForward_self]

def natLE : Nat → Nat → List UInt8
  | 0, _ => []
  | width + 1, value => UInt8.ofNat value :: natLE width (value / 256)

def decodeLE : List UInt8 → Nat
  | [] => 0
  | byte :: rest => byte.toNat + 256 * decodeLE rest

@[simp] theorem length_natLE (width value : Nat) : (natLE width value).length = width := by
  induction width generalizing value with
  | zero => rfl
  | succ width ih => rw [natLE, List.length_cons, ih]

theorem decodeLE_natLE (width value : Nat) :
    decodeLE (natLE width value) = value % 256 ^ width := by
  induction width generalizing value with
  | zero => rw [Nat.pow_zero, Nat.mod_one]; rfl
  | succ width ih =>
      rw [natLE, decodeLE, ih, Nat.pow_succ, Nat.mul_comm (256 ^ width), Nat.mod_mul,
        UInt8.toNat_ofNat']

theorem decodeLE_natLE_of_lt {width value : Nat} (hvalue : value < 256 ^ width) :
    decodeLE (natLE width value) = value := by
  rw [decodeLE_natLE, Nat.mod_eq_of_lt hvalue]

theorem decodeLE_lt (bytes : List UInt8) : decodeLE bytes < 256 ^ bytes.length := by
  induction bytes with
  | nil => exact Nat.one_pos
  | cons byte rest ih =>
      have hbyte : byte.toNat < 256 := byte.toNat_lt
      rw [decodeLE, List.length_cons, Nat.pow_succ]
      omega

/-- A frame that starts with its own length in eight bytes. -/
structure SizeFramed (frame : List UInt8) : Prop where
  size_le : 8 ≤ frame.length
  size_lt : frame.length < 256 ^ 8
  leading : frame.take 8 = natLE 8 frame.length

instance (frame : List UInt8) : Decidable (SizeFramed frame) :=
  decidable_of_iff (8 ≤ frame.length ∧ frame.length < 256 ^ 8 ∧
      frame.take 8 = natLE 8 frame.length)
    ⟨fun ⟨hle, hlt, hleading⟩ => ⟨hle, hlt, hleading⟩,
      fun hframed => ⟨hframed.size_le, hframed.size_lt, hframed.leading⟩⟩

theorem SizeFramed.decode {frame stream : List UInt8} (hframed : SizeFramed frame)
    (hcount : 8 ≤ count) (hreceived : load memory address count ++ stream = frame) :
    decodeLE (load memory address 8) = frame.length := by
  have hleading := hframed.leading
  rw [show count = 8 + (count - 8) by omega, load_append, List.append_assoc] at hreceived
  rw [← decodeLE_natLE_of_lt hframed.size_lt, ← hleading, ← hreceived,
    List.take_left' (length_load memory address 8)]

end Crossbow.Kernel
