import Mathlib.Data.Nat.ModEq

/-! Unsigned 64-bit arithmetic on natural numbers, and residues in a window of
consecutive numbers. The two operations are irreducible: unification must not
start to compute modulo `2 ^ 64`. -/
namespace Crossbow.Kernel

def wordRange : Nat := 2 ^ 64

/-- The value stored when `value` is assigned to a 64-bit unsigned variable. -/
@[irreducible] def wrap (value : Nat) : Nat := value % wordRange

@[irreducible] def wrapSub (left right : Nat) : Nat := (left + wordRange - right) % wordRange

theorem wordRange_pos : 0 < wordRange := by decide

theorem wrap_of_lt {value : Nat} (h : value < wordRange) : wrap value = value := by
  unfold wrap
  exact Nat.mod_eq_of_lt h

theorem wrap_lt (value : Nat) : wrap value < wordRange := by
  unfold wrap
  exact Nat.mod_lt value wordRange_pos

theorem wrap_le (value : Nat) : wrap value ≤ value := by
  unfold wrap
  exact Nat.mod_le value wordRange

theorem wrap_wrap_add (left right : Nat) : wrap (wrap left + right) = wrap (left + right) := by
  unfold wrap
  exact Nat.mod_add_mod left wordRange right

theorem wrap_wrap_mul (left right : Nat) : wrap (wrap left * right) = wrap (left * right) := by
  unfold wrap
  exact Nat.mod_mul_mod left right wordRange

theorem wrap_lt_of_overflow {pos count : Nat} (hpos : pos < wordRange) (hcount : count < wordRange)
    (hsum : wordRange ≤ pos + count) : wrap (pos + count) < pos := by
  unfold wrap
  rw [Nat.mod_eq_sub_mod hsum, Nat.mod_eq_of_lt (by omega)]
  omega

theorem wrapSub_wrap_succ (value : Nat) : wrapSub (wrap (value + 1)) 1 = wrap value := by
  unfold wrapSub wrap
  have hrange := wordRange_pos
  rw [Nat.add_sub_assoc hrange, Nat.mod_add_mod,
    show value + 1 + (wordRange - 1) = value + wordRange by omega, Nat.add_mod_right]

theorem wrapSub_of_le {left right : Nat} (horder : right ≤ left) (hleft : left < wordRange) :
    wrapSub left right = left - right := by
  unfold wrapSub
  rw [show left + wordRange - right = left - right + wordRange by omega, Nat.add_mod_right,
    Nat.mod_eq_of_lt (by omega)]

theorem wrapSub_wrapSub_of_lt {value offset : Nat} (horder : offset < value)
    (hvalue : value < wordRange) : wrapSub (wrapSub value 1) offset = value - 1 - offset := by
  rw [wrapSub_of_le (show 1 ≤ value by omega) hvalue, wrapSub_of_le (by omega) (by omega)]

theorem wrap_wrapSub_one_add {base offset : Nat} (h : base + offset < wordRange) :
    wrap (wrapSub base 1 + 1 + offset) = base + offset := by
  unfold wrap wrapSub
  have hrange := wordRange_pos
  rw [Nat.add_assoc, Nat.mod_add_mod,
    show base + wordRange - 1 + (1 + offset) = base + offset + wordRange by omega,
    Nat.add_mod_right, Nat.mod_eq_of_lt h]

theorem wrap_wrapSub_one_succ {base : Nat} (h : base < wordRange) :
    wrap (wrapSub base 1 + 1) = base :=
  @wrap_wrapSub_one_add base 0 h

theorem wrap_wrapSub_add {base offset : Nat} (h : base + offset < wordRange) :
    wrap (wrapSub base 1 + offset) = wrapSub (base + offset) 1 := by
  unfold wrap wrapSub
  have hrange := wordRange_pos
  rw [Nat.mod_add_mod, show base + wordRange - 1 + offset = base + offset + wordRange - 1 by omega]

theorem wrapSub_wrapSub_one {base position : Nat} (horder : base ≤ position)
    (h : position + 1 < wordRange) :
    wrapSub position (wrapSub base 1) = position - base + 1 := by
  have hrange := wordRange_pos
  unfold wrapSub
  by_cases hzero : base = 0
  · subst hzero
    have hmax : (0 + wordRange - 1) % wordRange = wordRange - 1 := by
      rw [Nat.zero_add, Nat.mod_eq_of_lt (by omega)]
    rw [hmax, show position + wordRange - (wordRange - 1) = position + 1 by omega,
      Nat.mod_eq_of_lt h]
    omega
  · have hdec : (base + wordRange - 1) % wordRange = base - 1 := by
      rw [show base + wordRange - 1 = base - 1 + wordRange by omega, Nat.add_mod_right,
        Nat.mod_eq_of_lt (by omega)]
    rw [hdec, show position + wordRange - (base - 1) = position - base + 1 + wordRange by omega,
      Nat.add_mod_right, Nat.mod_eq_of_lt (by omega)]

theorem wrapSub_wrapSub_one_self {base : Nat} (h : base < wordRange) :
    wrapSub base (wrapSub base 1) = 1 := by
  rcases Nat.eq_zero_or_pos base with hzero | hpos
  · subst hzero
    exact wrapSub_wrapSub_one (Nat.le_refl 0) (by decide)
  · rw [wrapSub_of_le hpos h, wrapSub_of_le (Nat.sub_le base 1) h]
    omega

theorem and_mask {value exponent : Nat} (hvalue : value < wordRange) (hexponent : exponent ≤ 64) :
    value &&& (wordRange - 2 ^ exponent) = value / 2 ^ exponent * 2 ^ exponent := by
  have hmask : wordRange - 2 ^ exponent = (2 ^ (64 - exponent) - 1) <<< exponent := by
    rw [Nat.shiftLeft_eq, Nat.sub_mul, Nat.one_mul, ← Nat.pow_add, Nat.sub_add_cancel hexponent]
    rfl
  rw [hmask, ← Nat.shiftRight_eq_div_pow, ← Nat.shiftLeft_eq]
  apply Nat.eq_of_testBit_eq
  intro bit
  simp only [Nat.testBit_and, Nat.testBit_shiftLeft, Nat.testBit_two_pow_sub_one,
    Nat.testBit_shiftRight]
  by_cases hlow : exponent ≤ bit
  · rw [show exponent + (bit - exponent) = bit by omega]
    by_cases hhigh : bit - exponent < 64 - exponent
    · simp [hlow, hhigh]
    · have hzero : value.testBit bit = false := by
        apply Nat.testBit_lt_two_pow
        exact Nat.lt_of_lt_of_le hvalue (Nat.pow_le_pow_right (by decide) (by omega))
      simp [hhigh, hzero]
  · simp [hlow]

theorem eq_of_mod_eq_of_window {base size left right : Nat}
    (hleft : base ≤ left ∧ left < base + size) (hright : base ≤ right ∧ right < base + size)
    (h : left % size = right % size) : left = right := by
  have hequal : ∀ low high, low ≤ high → high - low < size → low % size = high % size →
      low = high := by
    intro low high horder hclose hmod
    have hdvd : size ∣ high - low := (Nat.modEq_iff_dvd' horder).mp hmod
    have := Nat.eq_zero_of_dvd_of_lt hdvd hclose
    omega
  rcases Nat.le_total left right with horder | horder
  · exact hequal left right horder (by omega) h
  · exact (hequal right left horder (by omega) h.symm).symm

theorem wrap_mod_two (value : Nat) : wrap value % 2 = value % 2 := by
  unfold wrap
  exact Nat.mod_mod_of_dvd value ⟨2 ^ 63, rfl⟩

theorem wrapSub_two_mod_two (value : Nat) : wrapSub value 2 % 2 = value % 2 := by
  have heven : wordRange = 2 * 2 ^ 63 := rfl
  unfold wrapSub
  rw [Nat.mod_mod_of_dvd _ ⟨2 ^ 63, heven⟩]
  omega

end Crossbow.Kernel
