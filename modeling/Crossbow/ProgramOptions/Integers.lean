import Crossbow.Kernel.Numeral
import Crossbow.ProgramOptions.CommandLine

/-! The parsers of integers. Each of them hands its argument to a conversion of the
standard library, which stops at the first character that is not part of the
numeral and takes negative numbers modulo `2 ^ 64` for the unsigned types. -/
namespace Crossbow.ProgramOptions
open Kernel

/-! ### Conversions with base 0 -/

def stoi := stoSigned 32 scanConstant
def stol := stoSigned 64 scanConstant
def stoll := stoSigned 64 scanConstant
def stoul := stoUnsigned 64 scanConstant
def stoull := stoUnsigned 64 scanConstant

/-! ### The parsers -/

def Word.text (str : Word) : String :=
  String.ofList (str.chars.map fun char => Char.ofNat char.toNat)

/-- `catch (...)`, with what follows the argument in the message. -/
def catching (str : Word) (message : String) (run : Except ConversionError Int) :
    Except Failure Int :=
  match run with
  | .ok value => .ok value
  | .error _ => .error (.parseError (str.text ++ message))

section Parsers

variable (isspace : UInt8 → Bool) (str : Word)

def parserShort : Except Failure Int := catching str " is not a valid short" do
  let val ← stoi isspace str.chars
  if val < -2 ^ 15 ∨ val > 2 ^ 15 - 1 then throw .outOfRange
  return Int.bmod val (2 ^ 16)

def parserInt : Except Failure Int := catching str "is not a valid int" (stoi isspace str.chars)

def parserLong : Except Failure Int := catching str "is not a valid long" (stol isspace str.chars)

def parserLongLong : Except Failure Int :=
  catching str "is not a valid long long" (stoll isspace str.chars)

def parserUnsignedShort : Except Failure Int := catching str " is not a valid unsigned short" do
  let val ← stoul isspace str.chars
  if val > 2 ^ 16 - 1 then throw .outOfRange
  return val % 2 ^ 16

def parserUnsigned : Except Failure Int := catching str " is not a valid unsigned" do
  let val ← stoul isspace str.chars
  if val > 2 ^ 32 - 1 then throw .outOfRange
  return val % 2 ^ 32

def parserUnsignedLong : Except Failure Int :=
  catching str "is not a valid unsigned long" (stoul isspace str.chars)

def parserUnsignedLongLong : Except Failure Int :=
  catching str "is not a valid unsigned long long" (stoull isspace str.chars)

end Parsers

inductive IntegerType where
  | short
  | int
  | long
  | longLong
  | unsignedShort
  | unsigned
  | unsignedLong
  | unsignedLongLong
  deriving DecidableEq, Repr

namespace IntegerType

def parser (isspace : UInt8 → Bool) (str : Word) : IntegerType → Except Failure Int
  | short => parserShort isspace str
  | int => parserInt isspace str
  | long => parserLong isspace str
  | longLong => parserLongLong isspace str
  | unsignedShort => parserUnsignedShort isspace str
  | unsigned => parserUnsigned isspace str
  | unsignedLong => parserUnsignedLong isspace str
  | unsignedLongLong => parserUnsignedLongLong isspace str

/-- What follows the argument in the message of each parser. -/
def message : IntegerType → String
  | short => " is not a valid short"
  | int => "is not a valid int"
  | long => "is not a valid long"
  | longLong => "is not a valid long long"
  | unsignedShort => " is not a valid unsigned short"
  | unsigned => " is not a valid unsigned"
  | unsignedLong => "is not a valid unsigned long"
  | unsignedLongLong => "is not a valid unsigned long long"

def isSigned : IntegerType → Bool
  | short | int | long | longLong => true
  | unsignedShort | unsigned | unsignedLong | unsignedLongLong => false

def bits : IntegerType → Nat
  | short | unsignedShort => 16
  | int | unsigned => 32
  | long | longLong | unsignedLong | unsignedLongLong => 64

def min (type : IntegerType) : Int := if type.isSigned then -2 ^ (type.bits - 1) else 0

def max (type : IntegerType) : Int :=
  if type.isSigned then 2 ^ (type.bits - 1) - 1 else 2 ^ type.bits - 1

/-- The number that the library hands back passes the tests of the library and of
the parser. -/
def Accepts (type : IntegerType) (negative : Bool) (magnitude : Nat) : Prop :=
  if type.isSigned then
    type.min ≤ signedValue negative magnitude ∧ signedValue negative magnitude ≤ type.max
  else magnitude < 2 ^ 64 ∧ signedValue negative magnitude % 2 ^ 64 ≤ type.max

instance (type : IntegerType) (negative : Bool) (magnitude : Nat) :
    Decidable (type.Accepts negative magnitude) := by
  unfold Accepts
  infer_instance

end IntegerType

def Denotes (isspace : UInt8 → Bool) (chars : List UInt8) (value : Int) : Prop :=
  ∃ negative magnitude, Numeral isspace chars negative magnitude ∧
    value = signedValue negative magnitude

/-- If the numeral that the text begins with is one that the type accepts, then
nothing follows it, and it is not negative for an unsigned type. -/
def PlainNumeral (isspace : UInt8 → Bool) (type : IntegerType) (chars : List UInt8) : Prop :=
  ∀ negative magnitude rest,
    scanNumeral isspace scanConstant chars = some (negative, magnitude, rest) →
    type.Accepts negative magnitude →
    rest = [] ∧ (type.isSigned = false → negative = true → magnitude = 0)

/-! ### What the parsers return -/

section Catching

variable {str : Word} {message : String} {passes accepted : Prop} [Decidable passes]
  [Decidable accepted] {value result : Int} {error : ConversionError}

theorem catching_ite (hiff : accepted ↔ passes) :
    catching str message (if passes then .ok value else .error error) =
      if accepted then .ok value else .error (.parseError (str.text ++ message)) := by
  by_cases hpasses : passes
  · rw [if_pos hpasses, if_pos (hiff.mpr hpasses)]
    rfl
  · rw [if_neg hpasses, if_neg (hiff.not.mpr hpasses)]
    rfl

theorem catching_narrow {run : Except ConversionError Int}
    (hrun : run = if passes then .ok value else .error error) (refused : Int → Prop)
    [∀ val, Decidable (refused val)] (narrowed : Int → Int)
    (hiff : accepted ↔ passes ∧ ¬ refused value) (hresult : accepted → narrowed value = value) :
    (catching str message do
      let val ← run
      if refused val then throw .outOfRange
      return narrowed val) =
      if accepted then .ok value else .error (.parseError (str.text ++ message)) := by
  subst hrun
  by_cases hpasses : passes
  · by_cases hrefused : refused value
    · rw [if_pos hpasses, if_neg (fun haccepted => (hiff.mp haccepted).2 hrefused)]
      simp only [bind, Except.bind, if_pos hrefused]
      rfl
    · have haccepted := hiff.mpr ⟨hpasses, hrefused⟩
      rw [if_pos hpasses, if_pos haccepted]
      simp only [bind, Except.bind, if_neg hrefused, hresult haccepted]
      rfl
  · rw [if_neg hpasses, if_neg (fun haccepted => hpasses (hiff.mp haccepted).1)]
    rfl

end Catching

theorem parser_eq (isspace : UInt8 → Bool) (type : IntegerType) (str : Word) :
    type.parser isspace str =
      match scanNumeral isspace scanConstant str.chars with
      | none => .error (.parseError (str.text ++ type.message))
      | some (negative, magnitude, _) =>
          if type.Accepts negative magnitude then
            .ok (if type.isSigned then signedValue negative magnitude
              else signedValue negative magnitude % 2 ^ 64)
          else .error (.parseError (str.text ++ type.message)) := by
  rcases hscan : scanNumeral isspace scanConstant str.chars with _ | ⟨negative, magnitude, rest⟩
  · cases type <;>
      simp only [IntegerType.parser, parserShort, parserInt, parserLong, parserLongLong,
        parserUnsignedShort, parserUnsigned, parserUnsignedLong, parserUnsignedLongLong, stoi, stol,
        stoll, stoul, stoull, stoSigned, stoUnsigned, hscan, catching, bind, Except.bind,
        IntegerType.message]
  · generalize hvalue : signedValue negative magnitude = value
    cases type <;>
      simp only [IntegerType.parser, parserShort, parserInt, parserLong, parserLongLong,
        parserUnsignedShort, parserUnsigned, parserUnsignedLong, parserUnsignedLongLong, stoi, stol,
        stoll, stoul, stoull, stoSigned, stoUnsigned, hscan, hvalue, IntegerType.Accepts,
        IntegerType.isSigned, IntegerType.min, IntegerType.max, IntegerType.bits,
        IntegerType.message, if_true, Bool.false_eq_true, if_false]
    case short =>
      have hiff : -2 ^ (16 - 1) ≤ value ∧ value ≤ 2 ^ (16 - 1) - 1 ↔
          (-2 ^ (32 - 1) ≤ value ∧ value < 2 ^ (32 - 1)) ∧
            ¬ (value < -2 ^ 15 ∨ value > 2 ^ 15 - 1) := by
        omega
      refine catching_narrow rfl (fun val => val < -2 ^ 15 ∨ val > 2 ^ 15 - 1)
        (fun val => Int.bmod val (2 ^ 16)) hiff fun haccepted => ?_
      rw [Int.bmod_def]
      omega
    case unsignedShort =>
      have hiff : magnitude < 2 ^ 64 ∧ value % 2 ^ 64 ≤ 2 ^ 16 - 1 ↔
          magnitude < 2 ^ 64 ∧ ¬ value % 2 ^ 64 > 2 ^ 16 - 1 := by
        omega
      exact catching_narrow rfl (fun val => val > 2 ^ 16 - 1) (fun val => val % 2 ^ 16) hiff
        fun haccepted => by omega
    case unsigned =>
      have hiff : magnitude < 2 ^ 64 ∧ value % 2 ^ 64 ≤ 2 ^ 32 - 1 ↔
          magnitude < 2 ^ 64 ∧ ¬ value % 2 ^ 64 > 2 ^ 32 - 1 := by
        omega
      exact catching_narrow rfl (fun val => val > 2 ^ 32 - 1) (fun val => val % 2 ^ 32) hiff
        fun haccepted => by omega
    case int | long | longLong | unsignedLong | unsignedLongLong =>
      exact catching_ite (by omega)

theorem signedValue_mod {negative : Bool} {magnitude : Nat} (hword : magnitude < 2 ^ 64) :
    signedValue negative magnitude % 2 ^ 64 = signedValue negative magnitude ↔
      (negative = true → magnitude = 0) := by
  unfold signedValue
  split
  · rename_i hnegative
    rw [forall_prop_of_true hnegative]
    omega
  · rename_i hpositive
    refine iff_of_true (by omega) fun hnegative => absurd hnegative hpositive

theorem accepts_of_range {type : IntegerType} {negative : Bool} {magnitude : Nat}
    (hmin : type.min ≤ signedValue negative magnitude)
    (hmax : signedValue negative magnitude ≤ type.max) : type.Accepts negative magnitude := by
  unfold IntegerType.Accepts
  split
  · exact ⟨hmin, hmax⟩
  · rename_i hunsigned
    have hbound : type.max < 2 ^ 64 := by cases type <;> decide
    have hzero : type.min = 0 := by rw [IntegerType.min, if_neg hunsigned]
    rw [hzero] at hmin
    have hmagnitude : magnitude < 2 ^ 64 := by
      cases negative <;> simp only [signedValue, if_true, Bool.false_eq_true, if_false] at * <;>
        omega
    exact ⟨hmagnitude, by omega⟩

theorem range_of_accepts {type : IntegerType} {negative : Bool} {magnitude : Nat}
    (haccepts : type.Accepts negative magnitude)
    (hsign : type.isSigned = false → negative = true → magnitude = 0) :
    type.min ≤ signedValue negative magnitude ∧ signedValue negative magnitude ≤ type.max := by
  unfold IntegerType.Accepts at haccepts
  split at haccepts
  · exact haccepts
  · rename_i hunsigned
    obtain ⟨hmagnitude, hmax⟩ := haccepts
    have hsame := (signedValue_mod hmagnitude).mpr (hsign (by simpa using hunsigned))
    have hnonneg := Int.emod_nonneg (signedValue negative magnitude)
      (show (2 ^ 64 : Int) ≠ 0 by decide)
    rw [hsame] at hmax hnonneg
    rw [IntegerType.min, if_neg hunsigned]
    exact ⟨hnonneg, hmax⟩

/-- A parser returns the value of exactly the numerals that denote one of the type,
and throws `parse_error` for all other arguments, if and only if its argument
is a plain numeral. -/
theorem integer_parser_iff {isspace : UInt8 → Bool} (hspaces : Spaces isspace)
    (type : IntegerType) (str : Word) :
    ((∀ value, type.parser isspace str = .ok value ↔
        Denotes isspace str.chars value ∧ type.min ≤ value ∧ value ≤ type.max) ∧
      ∀ failure, type.parser isspace str = .error failure →
        ∃ message, failure = .parseError message) ↔
    PlainNumeral isspace type str.chars := by
  have hparser := parser_eq isspace type str
  have hdenotes : ∀ value, Denotes isspace str.chars value ↔ ∃ negative magnitude,
      scanNumeral isspace scanConstant str.chars = some (negative, magnitude, []) ∧
        value = signedValue negative magnitude := by
    intro value
    simp only [Denotes, scanNumeral_whole hspaces]
  unfold PlainNumeral
  rcases hscan : scanNumeral isspace scanConstant str.chars with _ | ⟨negative, magnitude, rest⟩
  · simp only [hscan] at hparser hdenotes
    simp [hparser, hdenotes]
  simp only [hscan, Option.some.injEq, Prod.mk.injEq] at hparser hdenotes
  by_cases haccepts : type.Accepts negative magnitude
  · rw [if_pos haccepts] at hparser
    have hvalue : (if type.isSigned = true then signedValue negative magnitude
        else signedValue negative magnitude % 2 ^ 64) = signedValue negative magnitude ↔
        (type.isSigned = false → negative = true → magnitude = 0) := by
      cases hsigned : type.isSigned with
      | true => simp
      | false =>
          rw [IntegerType.Accepts, hsigned, if_neg Bool.false_ne_true] at haccepts
          simpa using signedValue_mod haccepts.1
    constructor
    · rintro ⟨hiff, _⟩ _ _ _ ⟨⟩ _
      obtain ⟨⟨_, _, ⟨rfl, rfl, hrest⟩, hsame⟩, _⟩ := hiff _ |>.mp hparser |>.imp_left
        (hdenotes _).mp
      exact ⟨hrest, hvalue.mp hsame⟩
    · intro hplain
      obtain ⟨hrest, hsign⟩ := hplain negative magnitude rest rfl haccepts
      rw [hvalue.mpr hsign] at hparser
      refine ⟨fun value => ?_, fun failure hfailure => ?_⟩
      · rw [hparser, hdenotes, Except.ok.injEq]
        constructor
        · rintro rfl
          exact ⟨⟨negative, magnitude, ⟨rfl, rfl, hrest⟩, rfl⟩, range_of_accepts haccepts hsign⟩
        · rintro ⟨⟨_, _, ⟨rfl, rfl, _⟩, rfl⟩, _⟩
          rfl
      · cases hparser.symm.trans hfailure
  · rw [if_neg haccepts] at hparser
    refine iff_of_true ⟨fun value => ?_, ?_⟩ ?_
    · rw [hparser, hdenotes]
      refine iff_of_false nofun ?_
      rintro ⟨⟨_, _, ⟨rfl, rfl, _⟩, rfl⟩, hmin, hmax⟩
      exact haccepts (accepts_of_range hmin hmax)
    · intro failure hfailure
      cases hparser.symm.trans hfailure
      exact ⟨_, rfl⟩
    · rintro _ _ _ ⟨⟩ hother
      exact absurd hother haccepts

theorem spaces_cLocale : Spaces cLocale := forall_byte (by decide +kernel)

/-- The argument " -0x1F" is -31. -/
theorem integer_parser_hexadecimal :
    IntegerType.short.parser cLocale ⟨[32, 45, 48, 120, 49, 70], by decide⟩ = .ok (-31) ∧
      Denotes cLocale [32, 45, 48, 120, 49, 70] (-31) := by
  have hparser : IntegerType.short.parser cLocale ⟨[32, 45, 48, 120, 49, 70], by decide⟩ =
      .ok (-31) := by
    decide +kernel
  have hplain : PlainNumeral cLocale .short [32, 45, 48, 120, 49, 70] := by
    rintro negative magnitude rest hscan _
    cases (show scanNumeral cLocale scanConstant [32, 45, 48, 120, 49, 70] =
      some (true, 31, []) by decide +kernel).symm.trans hscan
    exact ⟨rfl, nofun⟩
  have hiff := (integer_parser_iff spaces_cLocale .short
    ⟨[32, 45, 48, 120, 49, 70], by decide⟩).mpr hplain
  exact ⟨hparser, ((hiff.1 (-31)).mp hparser).1⟩

/-- The argument "12abc" is taken for 12, and "-1" for the largest `unsigned long`. -/
theorem trailing_and_negative_accepted :
    parserInt cLocale ⟨[49, 50, 97, 98, 99], by decide⟩ = .ok 12 ∧
      (∀ value, ¬ Denotes cLocale [49, 50, 97, 98, 99] value) ∧
      parserUnsignedLong cLocale ⟨[45, 49], by decide⟩ = .ok (2 ^ 64 - 1) ∧
      ∀ value, Denotes cLocale [45, 49] value → value = -1 := by
  refine ⟨by decide +kernel, ?_, by decide +kernel, ?_⟩
  · rintro _ ⟨negative, magnitude, hnumeral, _⟩
    have hwhole := (scanNumeral_whole spaces_cLocale).mpr hnumeral
    cases (show scanNumeral cLocale scanConstant [49, 50, 97, 98, 99] =
      some (false, 12, [97, 98, 99]) by decide +kernel).symm.trans hwhole
  · rintro _ ⟨negative, magnitude, hnumeral, rfl⟩
    have hwhole := (scanNumeral_whole spaces_cLocale).mpr hnumeral
    cases (show scanNumeral cLocale scanConstant [45, 49] = some (true, 1, [])
      by decide +kernel).symm.trans hwhole
    rfl

end Crossbow.ProgramOptions
