import Mathlib.Algebra.Ring.Int.Defs
import Mathlib.Algebra.Ring.Nat
import Mathlib.Data.List.TakeWhile

/-! Numerals in bytes: the integer constants of C, a scanner that takes the longest
numeral a text begins with and leaves what follows it, and the conversions of the
standard library on top of the scanner. -/
namespace Crossbow.Kernel

def digitValue (char : UInt8) : Option Nat :=
  if 48 ≤ char ∧ char ≤ 57 then some (char.toNat - 48)
  else if 97 ≤ char ∧ char ≤ 102 then some (char.toNat - 97 + 10)
  else if 65 ≤ char ∧ char ≤ 70 then some (char.toNat - 65 + 10)
  else none

def isDigit (base : Nat) (char : UInt8) : Bool := (digitValue char).any (· < base)

theorem isDigit_mono {base other : Nat} (hbase : base ≤ other) {char : UInt8}
    (hdigit : isDigit base char = true) : isDigit other char = true := by
  unfold isDigit at *
  cases hvalue : digitValue char with
  | none => simp [hvalue] at hdigit
  | some digit =>
      simp only [hvalue, Option.any_some, decide_eq_true_eq] at hdigit ⊢
      exact Nat.lt_of_lt_of_le hdigit hbase

def cLocale (char : UInt8) : Bool := (9 ≤ char && char ≤ 13) || char == 32

theorem forall_byte {holds : UInt8 → Prop} (hall : ∀ code : Fin 256, holds ⟨⟨code⟩⟩)
    (char : UInt8) : holds char :=
  hall char.toBitVec.toFin

/-- The digits from the most significant one on. -/
def numeralValue (base : Nat) (digits : List UInt8) : Nat :=
  digits.foldl (fun value char => value * base + (digitValue char).getD 0) 0

/-! ### Grammar -/

/-- An integer constant without a suffix. -/
inductive Constant : List UInt8 → Nat → Prop where
  | decimal {first : UInt8} {rest : List UInt8} (hfirst : first ≠ 48)
      (hdigits : ∀ char ∈ first :: rest, isDigit 10 char = true) :
      Constant (first :: rest) (numeralValue 10 (first :: rest))
  | octal {rest : List UInt8} (hdigits : ∀ char ∈ rest, isDigit 8 char = true) :
      Constant (48 :: rest) (numeralValue 8 (48 :: rest))
  | hexadecimal {mark : UInt8} {digits : List UInt8} (hmark : mark = 120 ∨ mark = 88)
      (hsome : digits ≠ []) (hdigits : ∀ char ∈ digits, isDigit 16 char = true) :
      Constant (48 :: mark :: digits) (numeralValue 16 digits)

inductive Sign : List UInt8 → Bool → Prop where
  | none : Sign [] false
  | plus : Sign [43] false
  | minus : Sign [45] true

/-- White space, a sign, and a constant. -/
inductive Numeral (isspace : UInt8 → Bool) : List UInt8 → Bool → Nat → Prop where
  | intro {spaces sign constant : List UInt8} {negative : Bool} {magnitude : Nat}
      (hspaces : ∀ char ∈ spaces, isspace char = true) (hsign : Sign sign negative)
      (hconstant : Constant constant magnitude) :
      Numeral isspace (spaces ++ (sign ++ constant)) negative magnitude

def signedValue (negative : Bool) (magnitude : Nat) : Int :=
  if negative then -(magnitude : Int) else magnitude

/-! ### Scanner -/

/-- The digits that a text begins with, of which there has to be one. -/
def scanDigits (base : Nat) (chars : List UInt8) : Option (Nat × List UInt8) :=
  if chars.takeWhile (isDigit base) = [] then none
  else some (numeralValue base (chars.takeWhile (isDigit base)), chars.dropWhile (isDigit base))

/-- The base by the first characters; `0x` counts only before a digit. -/
def scanConstant (chars : List UInt8) : Option (Nat × List UInt8) :=
  if chars.head? = some 48 then
    if (chars[1]? = some 120 ∨ chars[1]? = some 88) ∧ chars[2]?.any (isDigit 16) = true then
      scanDigits 16 (chars.drop 2)
    else scanDigits 8 chars
  else scanDigits 10 chars

def scanSign : List UInt8 → Bool × List UInt8
  | [] => (false, [])
  | char :: rest =>
      if char = 45 then (true, rest) else if char = 43 then (false, rest)
      else (false, char :: rest)

def scanNumeral (isspace : UInt8 → Bool) (scan : List UInt8 → Option (Nat × List UInt8))
    (str : List UInt8) : Option (Bool × Nat × List UInt8) :=
  (scan (scanSign (str.dropWhile isspace)).2).map
    (Prod.mk (scanSign (str.dropWhile isspace)).1)

/-! ### The scanner takes whole numerals -/

theorem scanDigits_whole {base : Nat} {chars : List UInt8} {value : Nat} :
    scanDigits base chars = some (value, []) ↔
      chars ≠ [] ∧ (∀ char ∈ chars, isDigit base char = true) ∧
        value = numeralValue base chars := by
  unfold scanDigits
  by_cases hall : ∀ char ∈ chars, isDigit base char = true
  · rw [List.takeWhile_eq_self_iff.mpr hall, List.dropWhile_eq_nil_iff.mpr hall]
    by_cases hnil : chars = []
    · simp [hnil]
    · rw [if_neg hnil, Option.some.injEq, Prod.mk.injEq, eq_comm]
      exact ⟨fun hvalue => ⟨hnil, hall, hvalue.1⟩, fun hwhole => ⟨hwhole.2.2, rfl⟩⟩
  · have hrest : chars.dropWhile (isDigit base) ≠ [] := by
      rwa [ne_eq, List.dropWhile_eq_nil_iff]
    refine iff_of_false ?_ (fun hwhole => hall hwhole.2.1)
    split
    · simp
    · simp [hrest]

theorem digit_octal_hexadecimal {char : UInt8} (hmark : char = 120 ∨ char = 88) :
    isDigit 8 char = false := by
  rcases hmark with rfl | rfl <;> decide

theorem scanConstant_whole {chars : List UInt8} {value : Nat} :
    scanConstant chars = some (value, []) ↔ Constant chars value := by
  constructor
  · intro hscan
    unfold scanConstant at hscan
    split at hscan
    · rename_i hzero
      obtain ⟨rest, rfl⟩ : ∃ rest, chars = 48 :: rest := by
        cases chars with
        | nil => cases hzero
        | cons first rest => exact ⟨rest, by rw [Option.some.inj hzero]⟩
      split at hscan
      · rename_i hhex
        obtain ⟨hsome, hdigits, rfl⟩ := scanDigits_whole.mp hscan
        rcases rest with _ | ⟨mark, digits⟩
        · exact absurd rfl hsome
        · exact .hexadecimal (by simpa using hhex.1) hsome hdigits
      · obtain ⟨_, hdigits, rfl⟩ := scanDigits_whole.mp hscan
        exact .octal fun char hchar => hdigits char (List.mem_cons_of_mem _ hchar)
    · rename_i hzero
      obtain ⟨hsome, hdigits, rfl⟩ := scanDigits_whole.mp hscan
      cases chars with
      | nil => exact absurd rfl hsome
      | cons first rest => exact .decimal (fun hfirst => hzero (by rw [hfirst]; rfl)) hdigits
  · intro hconstant
    unfold scanConstant
    cases hconstant with
    | @decimal first rest hfirst hdigits =>
        rw [if_neg (by simpa using hfirst)]
        exact scanDigits_whole.mpr ⟨List.cons_ne_nil _ _, hdigits, rfl⟩
    | @octal rest hdigits =>
        rw [List.head?_cons, if_pos rfl, if_neg ?_]
        · exact scanDigits_whole.mpr ⟨List.cons_ne_nil _ _,
            List.forall_mem_cons.mpr ⟨by decide, hdigits⟩, rfl⟩
        · rintro ⟨hmark, _⟩
          cases rest with
          | nil => simp at hmark
          | cons mark rest =>
              have hdigit := hdigits mark List.mem_cons_self
              rw [digit_octal_hexadecimal (by simpa using hmark)] at hdigit
              contradiction
    | @hexadecimal mark digits hmark hsome hdigits =>
        obtain ⟨first, rest, rfl⟩ := List.exists_cons_of_ne_nil hsome
        rw [List.head?_cons, if_pos rfl,
          if_pos ⟨by simpa using hmark, by simpa using hdigits first (by simp)⟩]
        exact scanDigits_whole.mpr ⟨hsome, hdigits, rfl⟩

/-- White space is neither a digit nor a sign. -/
def Spaces (isspace : UInt8 → Bool) : Prop :=
  ∀ char, isspace char = true → char ≠ 43 ∧ char ≠ 45 ∧ digitValue char = none

theorem Constant.head {constant : List UInt8} {value : Nat} (hconstant : Constant constant value) :
    ∃ first rest, constant = first :: rest ∧ digitValue first ≠ none := by
  cases hconstant with
  | @decimal first rest _ hdigits =>
      refine ⟨first, rest, rfl, fun hnone => ?_⟩
      have hdigit := hdigits first List.mem_cons_self
      simp [isDigit, hnone] at hdigit
  | @octal rest _ => exact ⟨48, rest, rfl, by decide⟩
  | @hexadecimal mark digits _ _ _ => exact ⟨48, mark :: digits, rfl, by decide⟩

theorem scanSign_append {sign constant : List UInt8} {negative : Bool} {value : Nat}
    (hsign : Sign sign negative) (hconstant : Constant constant value) :
    scanSign (sign ++ constant) = (negative, constant) := by
  cases hsign with
  | plus | minus => rfl
  | none =>
      obtain ⟨first, rest, rfl, hdigit⟩ := hconstant.head
      have hminus : first ≠ 45 := fun heq => hdigit (by rw [heq]; decide)
      have hplus : first ≠ 43 := fun heq => hdigit (by rw [heq]; decide)
      rw [List.nil_append, scanSign, if_neg hminus, if_neg hplus]

theorem sign_of_scanSign (chars : List UInt8) :
    ∃ sign, Sign sign (scanSign chars).1 ∧ chars = sign ++ (scanSign chars).2 := by
  cases chars with
  | nil => exact ⟨[], .none, rfl⟩
  | cons char rest =>
      rw [scanSign]
      by_cases hminus : char = 45
      · rw [if_pos hminus, hminus]
        exact ⟨[45], .minus, rfl⟩
      · rw [if_neg hminus]
        by_cases hplus : char = 43
        · rw [if_pos hplus, hplus]
          exact ⟨[43], .plus, rfl⟩
        · rw [if_neg hplus]
          exact ⟨[], .none, rfl⟩

theorem scanNumeral_whole {isspace : UInt8 → Bool} (hspaces : Spaces isspace) {str : List UInt8}
    {negative : Bool} {magnitude : Nat} :
    scanNumeral isspace scanConstant str = some (negative, magnitude, []) ↔
      Numeral isspace str negative magnitude := by
  constructor
  · intro hscan
    obtain ⟨⟨value, rest⟩, hconstant, hpair⟩ := Option.map_eq_some_iff.mp hscan
    cases hpair
    obtain ⟨sign, hsign, hbody⟩ := sign_of_scanSign (str.dropWhile isspace)
    have hnumeral : Numeral isspace (str.takeWhile isspace ++ (sign ++ _)) _ _ :=
      .intro (fun char => List.mem_takeWhile_imp) hsign (scanConstant_whole.mp hconstant)
    rwa [← hbody, List.takeWhile_append_dropWhile] at hnumeral
  · rintro ⟨hblank, hsign, hconstant⟩
    rename_i spaces sign constant
    have hbody : (sign ++ constant).dropWhile isspace = sign ++ constant := by
      obtain ⟨first, rest, rfl, hdigit⟩ := hconstant.head
      have hfirst : isspace first ≠ true := fun hspace => hdigit (hspaces first hspace).2.2
      cases hsign with
      | none => rw [List.nil_append, List.dropWhile_cons_of_neg hfirst]
      | plus => exact List.dropWhile_cons_of_neg fun hspace => (hspaces 43 hspace).1 rfl
      | minus => exact List.dropWhile_cons_of_neg fun hspace => (hspaces 45 hspace).2.1 rfl
    rw [scanNumeral, List.dropWhile_append_of_pos hblank, hbody, scanSign_append hsign hconstant,
      scanConstant_whole.mpr hconstant]
    rfl

/-! ### Conversions to integers of a fixed width -/

inductive ConversionError where
  | invalidArgument
  | outOfRange
  deriving DecidableEq, Repr

section Conversions

variable (bits : Nat) (scan : List UInt8 → Option (Nat × List UInt8)) (isspace : UInt8 → Bool)
  (str : List UInt8)

/-- What follows the numeral is left unread. -/
def stoSigned : Except ConversionError Int :=
  match scanNumeral isspace scan str with
  | none => .error .invalidArgument
  | some (negative, magnitude, _) =>
      if -2 ^ (bits - 1) ≤ signedValue negative magnitude ∧
          signedValue negative magnitude < 2 ^ (bits - 1) then
        .ok (signedValue negative magnitude)
      else .error .outOfRange

/-- The magnitude has to fit, and a minus sign negates it in the unsigned type. -/
def stoUnsigned : Except ConversionError Int :=
  match scanNumeral isspace scan str with
  | none => .error .invalidArgument
  | some (negative, magnitude, _) =>
      if magnitude < 2 ^ bits then .ok (signedValue negative magnitude % 2 ^ bits)
      else .error .outOfRange

end Conversions

section Unsigned

variable {isspace : UInt8 → Bool} {str : List UInt8}
  (hhead : ∀ char ∈ str.head?, isspace char = false ∧ char ≠ 43 ∧ char ≠ 45)
include hhead

theorem scanNumeral_of_head (scan : List UInt8 → Option (Nat × List UInt8)) :
    scanNumeral isspace scan str = (scan str).map (Prod.mk false) := by
  cases str with
  | nil => rfl
  | cons first rest =>
      obtain ⟨hspace, hplus, hminus⟩ := hhead first rfl
      rw [scanNumeral, List.dropWhile_cons_of_neg (by simp [hspace]), scanSign, if_neg hminus,
        if_neg hplus]

theorem stoUnsigned_digits (bits base : Nat) :
    stoUnsigned bits (scanDigits base) isspace str =
      if str.takeWhile (isDigit base) = [] then .error .invalidArgument
      else if numeralValue base (str.takeWhile (isDigit base)) < 2 ^ bits then
        .ok (numeralValue base (str.takeWhile (isDigit base)))
      else .error .outOfRange := by
  rw [stoUnsigned, scanNumeral_of_head hhead, scanDigits]
  by_cases hnone : str.takeWhile (isDigit base) = []
  · rw [if_pos hnone, if_pos hnone]
    rfl
  · rw [if_neg hnone, if_neg hnone, Option.map_some]
    by_cases hfits : numeralValue base (str.takeWhile (isDigit base)) < 2 ^ bits
    · have hvalue : (numeralValue base (str.takeWhile (isDigit base)) : Int) < 2 ^ bits := by
        exact_mod_cast hfits
      simp only [if_pos hfits, signedValue, Bool.false_eq_true, if_false,
        Int.emod_eq_of_lt (Int.natCast_nonneg _) hvalue]
    · simp only [if_neg hfits]

end Unsigned

/-! ### Decimal digits of a number -/

def decimalDigits (value : Nat) : List UInt8 :=
  if value < 10 then [UInt8.ofNat (48 + value)]
  else decimalDigits (value / 10) ++ [UInt8.ofNat (48 + value % 10)]

theorem digitValue_ofNat {digit : Nat} (hdigit : digit < 10) :
    digitValue (UInt8.ofNat (48 + digit)) = some digit := by
  have hall : ∀ digit < 10, digitValue (UInt8.ofNat (48 + digit)) = some digit := by decide
  exact hall digit hdigit

theorem numeralValue_concat (base : Nat) (digits : List UInt8) (char : UInt8) :
    numeralValue base (digits ++ [char]) =
      numeralValue base digits * base + (digitValue char).getD 0 := by
  rw [numeralValue, List.foldl_append]
  rfl

theorem numeralValue_decimalDigits (value : Nat) :
    numeralValue 10 (decimalDigits value) = value := by
  fun_induction decimalDigits value with
  | case1 value hsmall =>
      rw [numeralValue, List.foldl_cons, List.foldl_nil, digitValue_ofNat hsmall]
      simp
  | case2 value hlarge ih =>
      rw [numeralValue_concat, ih, digitValue_ofNat (Nat.mod_lt _ (by decide)), Option.getD_some]
      omega

theorem decimalDigits_ne_nil (value : Nat) : decimalDigits value ≠ [] := by
  unfold decimalDigits
  split
  · exact List.cons_ne_nil _ _
  · exact List.append_ne_nil_of_right_ne_nil _ (List.cons_ne_nil _ _)

theorem length_decimalDigits_le (value : Nat) : (decimalDigits value).length ≤ value + 1 := by
  fun_induction decimalDigits value with
  | case1 value hsmall => exact Nat.le_add_left 1 value
  | case2 value hlarge ih =>
      rw [List.length_append, List.length_singleton]
      omega

theorem decimalDigits_digits {value : Nat} {char : UInt8} (hchar : char ∈ decimalDigits value) :
    isDigit 10 char = true := by
  fun_induction decimalDigits value with
  | case1 value hsmall =>
      rw [List.mem_singleton.mp hchar, isDigit, digitValue_ofNat hsmall]
      simpa using hsmall
  | case2 value hlarge ih =>
      rcases List.mem_append.mp hchar with hfront | hlast
      · exact ih hfront
      · have hdigit : value % 10 < 10 := Nat.mod_lt _ (by decide)
        rw [List.mem_singleton.mp hlast, isDigit, digitValue_ofNat hdigit]
        simpa using hdigit

end Crossbow.Kernel
