import Crossbow.Kernel.Bytes
import Crossbow.Kernel.Word
import Mathlib.Order.Bounds.Basic

/-! `crossbow::align` and the buffer cursors. Pointers are addresses of 64 bits, and all
sums with them wrap around. -/
namespace Crossbow.Infinio
open Kernel

/-- `(value - 1u + alignment) & -alignment` -/
def align (value alignment : Nat) : Nat :=
  wrap (wrapSub value 1 + alignment) &&& wrapSub 0 alignment

/-- `buffer_reader` and `buffer_writer`: `mPos` and `mEnd`. -/
@[ext]
structure Cursor where
  pos : Nat
  stop : Nat
  deriving DecidableEq, Repr

def Cursor.ofLength (pos length : Nat) : Cursor := ⟨pos, wrap (pos + length)⟩

def Cursor.canAccess (cursor : Cursor) (length : Nat) : Bool :=
  decide (wrap (cursor.pos + length) ≤ cursor.stop)

def Cursor.advance (cursor : Cursor) (length : Nat) : Cursor :=
  { cursor with pos := wrap (cursor.pos + length) }

def Cursor.align (cursor : Cursor) (alignment : Nat) : Cursor :=
  { cursor with pos := Infinio.align cursor.pos alignment }

/-- `write<T>` of an unsigned value of the given width. -/
def Cursor.write (memory : Memory) (cursor : Cursor) (width value : Nat) : Memory × Cursor :=
  (store memory cursor.pos (natLE width value), cursor.advance width)

/-- `read<T>` of an unsigned value of the given width. -/
def Cursor.read (memory : Memory) (cursor : Cursor) (width : Nat) : Nat × Cursor :=
  (decodeLE (load memory cursor.pos width), cursor.advance width)

variable {value exponent length : Nat}

theorem Cursor.ofLength_eq {pos : Nat} (hrange : pos + length < wordRange) :
    Cursor.ofLength pos length = ⟨pos, pos + length⟩ := by
  rw [Cursor.ofLength, wrap_of_lt hrange]

theorem Cursor.canAccess_iff {cursor : Cursor} {length : Nat}
    (hrange : cursor.pos + length < wordRange) :
    cursor.canAccess length = true ↔ cursor.pos + length ≤ cursor.stop := by
  rw [Cursor.canAccess, decide_eq_true_iff, wrap_of_lt hrange]

theorem Cursor.canAccess_null (hrange : length < wordRange) :
    (Cursor.ofLength 0 0).canAccess length = true ↔ length = 0 := by
  rw [Cursor.ofLength_eq wordRange_pos, Cursor.canAccess_iff (by simpa using hrange)]
  simp

theorem Cursor.advance_eq {cursor : Cursor} (hrange : cursor.pos + length < wordRange) :
    cursor.advance length = ⟨cursor.pos + length, cursor.stop⟩ := by
  rw [Cursor.advance, wrap_of_lt hrange]

theorem Cursor.advance_advance (cursor : Cursor) (first second : Nat) :
    (cursor.advance first).advance second = cursor.advance (first + second) := by
  unfold Cursor.advance
  rw [wrap_wrap_add, Nat.add_assoc]

theorem Cursor.align_stop (cursor : Cursor) (alignment : Nat) :
    (cursor.align alignment).stop = cursor.stop := by
  unfold Cursor.align
  -- by `rfl` alone the kernel would compare the two positions first
  generalize Infinio.align cursor.pos alignment = pos
  rfl

theorem Cursor.align_pos (cursor : Cursor) (alignment : Nat) :
    (cursor.align alignment).pos = Infinio.align cursor.pos alignment := rfl

/-- The offset of the cursor and the bytes left behind it are kept in 32 bits, which is
enough for a buffer that is shorter. -/
theorem Cursor.ofLength_rewind {cursor : Cursor} {addr : Nat} (haddr : addr ≤ cursor.pos)
    (hpos : cursor.pos ≤ cursor.stop) (hstop : cursor.stop = addr + length)
    (hshort : length < 2 ^ 32) (hrange : addr + length < wordRange) :
    Cursor.ofLength (wrap (addr + wrapSub cursor.pos addr % 2 ^ 32))
      ((length + 2 ^ 32 - wrapSub cursor.pos addr % 2 ^ 32) % 2 ^ 32) = cursor := by
  have hoffset : wrapSub cursor.pos addr % 2 ^ 32 = cursor.pos - addr := by
    rw [wrapSub_of_le haddr (by omega), Nat.mod_eq_of_lt (by omega)]
  have hpos' : addr + (cursor.pos - addr) = cursor.pos := by omega
  rw [hoffset, hpos', wrap_of_lt (by omega)]
  by_cases hempty : cursor.pos = addr
  · rw [hempty, Nat.sub_self, Nat.sub_zero, Nat.add_mod_right, Nat.mod_eq_of_lt hshort,
      Cursor.ofLength_eq hrange, ← hstop, ← hempty]
  · rw [show length + 2 ^ 32 - (cursor.pos - addr) =
      length - (cursor.pos - addr) + 2 ^ 32 by omega, Nat.add_mod_right,
      Nat.mod_eq_of_lt (by omega), Cursor.ofLength_eq (by omega),
      show cursor.pos + (length - (cursor.pos - addr)) = cursor.stop by omega]

theorem align_eq (hexponent : exponent ≤ 64) (hvalue : value + 2 ^ exponent ≤ wordRange) :
    align value (2 ^ exponent) =
      (value + 2 ^ exponent - 1) / 2 ^ exponent * 2 ^ exponent := by
  have hpos : 0 < 2 ^ exponent := Nat.two_pow_pos exponent
  have hround : wrap (wrapSub value 1 + 2 ^ exponent) = value + 2 ^ exponent - 1 := by
    have hadd := wrap_wrapSub_one_add (show value + (2 ^ exponent - 1) < wordRange by omega)
    rwa [Nat.add_assoc, show 1 + (2 ^ exponent - 1) = 2 ^ exponent by omega,
      ← Nat.add_sub_assoc hpos] at hadd
  have hmask : wrapSub 0 (2 ^ exponent) = wordRange - 2 ^ exponent := by
    unfold wrapSub
    rw [Nat.zero_add, Nat.mod_eq_of_lt (by omega)]
  unfold align
  rw [hround, hmask]
  exact and_mask (by omega) hexponent

theorem align_isLeast (hexponent : exponent ≤ 64) (hvalue : value + 2 ^ exponent ≤ wordRange) :
    IsLeast {multiple | 2 ^ exponent ∣ multiple ∧ value ≤ multiple}
      (align value (2 ^ exponent)) := by
  have hpos : 0 < 2 ^ exponent := Nat.two_pow_pos exponent
  have hdivision := Nat.div_add_mod (value + 2 ^ exponent - 1) (2 ^ exponent)
  have hrest := Nat.mod_lt (value + 2 ^ exponent - 1) hpos
  rw [Nat.mul_comm] at hdivision
  rw [align_eq hexponent hvalue]
  refine ⟨⟨Nat.dvd_mul_left _ _, by omega⟩, ?_⟩
  rintro _ ⟨⟨factor, rfl⟩, hfactor⟩
  rw [Nat.mul_comm]
  apply Nat.mul_le_mul_left
  apply Nat.le_of_lt_succ
  apply Nat.div_lt_of_lt_mul
  rw [Nat.mul_succ]
  omega

theorem align_of_dvd (hexponent : exponent ≤ 64) (hvalue : value + 2 ^ exponent ≤ wordRange)
    (hmultiple : 2 ^ exponent ∣ value) :
    align value (2 ^ exponent) = value := by
  have hleast := align_isLeast hexponent hvalue
  exact Nat.le_antisymm (hleast.2 ⟨hmultiple, Nat.le_refl _⟩) hleast.1.2

theorem align_le (hexponent : exponent < 64) (hvalue : value + 2 ^ exponent ≤ wordRange) :
    align value (2 ^ exponent) + 2 ^ exponent ≤ wordRange := by
  have hrange : 2 ^ exponent ∣ wordRange := Nat.pow_dvd_pow 2 (Nat.le_of_lt hexponent)
  have hlast : 2 ^ exponent ∣ wordRange - 2 ^ exponent := Nat.dvd_sub hrange (Nat.dvd_refl _)
  have hle := (align_isLeast (Nat.le_of_lt hexponent) hvalue).2 ⟨hlast, by omega⟩
  omega

/-- `align` with the operations of the machine, for integers and for pointers. -/
def alignWord (value alignment : UInt64) : UInt64 := (value - 1 + alignment) &&& -alignment

theorem toNat_alignWord (value alignment : UInt64) :
    (alignWord value alignment).toNat = align value.toNat alignment.toNat := by
  have hvalue : value.toNat < wordRange := value.toNat_lt
  have hsub : (value - 1).toNat = wrapSub value.toNat 1 := by
    rw [UInt64.toNat_sub, wrapSub]
    congr 1
    show 2 ^ 64 - 1 + value.toNat = value.toNat + 2 ^ 64 - 1
    omega
  have hneg : (-alignment).toNat = wrapSub 0 alignment.toNat := by
    rw [UInt64.toNat_neg, wrapSub, Nat.zero_add]
    rfl
  unfold alignWord align wrap
  rw [UInt64.toNat_and, UInt64.toNat_add, hsub, hneg]
  rfl

/-- Both overloads of `align`, for every power of two and every value up to the last
multiple. -/
theorem align_rounds_up {value alignment : UInt64} {exponent : Nat}
    (halignment : alignment.toNat = 2 ^ exponent)
    (hvalue : value.toNat ≤ 2 ^ 64 - alignment.toNat) :
    IsLeast {multiple | alignment.toNat ∣ multiple ∧ value.toNat ≤ multiple}
        (alignWord value alignment).toNat ∧
      alignWord (alignWord value alignment) alignment = alignWord value alignment ∧
      (∀ smaller ≤ value, alignWord smaller alignment ≤ alignWord value alignment) ∧
      value ≤ alignWord value alignment ∧
      (alignWord value alignment).toNat < value.toNat + alignment.toNat := by
  have hword : alignment.toNat < 2 ^ 64 := alignment.toNat_lt
  have hexponent : exponent < 64 := by
    rw [halignment] at hword
    exact (Nat.pow_lt_pow_iff_right (by decide)).mp hword
  have hfits : value.toNat + 2 ^ exponent ≤ wordRange := by
    show value.toNat + 2 ^ exponent ≤ 2 ^ 64
    omega
  have hleast := align_isLeast (Nat.le_of_lt hexponent) hfits
  rw [← halignment, ← toNat_alignWord] at hleast
  refine ⟨hleast, ?_, ?_, ?_, ?_⟩
  · have hlast := align_le hexponent hfits
    rw [← halignment, ← toNat_alignWord] at hlast
    rw [← UInt64.toNat_inj, toNat_alignWord, halignment]
    rw [halignment] at hlast hleast
    exact align_of_dvd (Nat.le_of_lt hexponent) hlast hleast.1.1
  · intro smaller hsmaller
    have hbelow : smaller.toNat ≤ value.toNat := hsmaller
    have hother := align_isLeast (Nat.le_of_lt hexponent)
      (show smaller.toNat + 2 ^ exponent ≤ wordRange by omega)
    rw [← halignment, ← toNat_alignWord] at hother
    exact hother.2 ⟨hleast.1.1, hbelow.trans hleast.1.2⟩
  · exact hleast.1.2
  · rw [toNat_alignWord, halignment, align_eq (Nat.le_of_lt hexponent) hfits]
    have hpos : 0 < 2 ^ exponent := Nat.two_pow_pos exponent
    have hbound := Nat.div_mul_le_self (value.toNat + 2 ^ exponent - 1) (2 ^ exponent)
    omega

/-- Zero, where the decrement wraps, and the value behind it. -/
theorem align_rounds_up_page :
    alignWord 0 4096 = 0 ∧ alignWord 1 4096 = 4096 ∧
      IsLeast {multiple | (4096 : UInt64).toNat ∣ multiple ∧ (1 : UInt64).toNat ≤ multiple}
        (alignWord 1 4096).toNat :=
  ⟨by decide, by decide, (align_rounds_up (show (4096 : UInt64).toNat = 2 ^ 12 by decide)
    (by decide)).1⟩

theorem align_eight (hvalue : value + 8 ≤ wordRange) :
    align value 8 = (value + 7) / 8 * 8 :=
  align_eq (show 3 ≤ 64 by decide) hvalue

theorem align_eight_wrap (value : Nat) : align value 8 = wrap (value + 7) / 8 * 8 := by
  have hround : wrap (wrapSub value 1 + 8) = wrap (value + 7) := by
    unfold wrap wrapSub
    have hrange := wordRange_pos
    rw [Nat.mod_add_mod, show value + wordRange - 1 + 8 = value + 7 + wordRange by omega,
      Nat.add_mod_right]
  have hmask : wrapSub 0 8 = wordRange - 2 ^ 3 := by
    unfold wrapSub
    decide
  unfold align
  rw [hround, hmask]
  exact and_mask (wrap_lt _) (by decide)

end Crossbow.Infinio
