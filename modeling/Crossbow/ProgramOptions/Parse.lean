import Mathlib.Data.List.Infix
import Mathlib.Data.List.Nodup
import Mathlib.Logic.Function.Basic
import Crossbow.BasicString.Order

/-! `program_options::parse`. The options of a program are a chain of templates,
modelled as a list; each of them stores its value and writes it to a target of
the caller as well. The scan advances its index in the loop and again inside of
an option that takes a value. -/
namespace Crossbow.ProgramOptions
open Kernel

/-- An argument: a C string in memory, without its terminator. -/
structure Word where
  chars : List UInt8
  proper : 0 ∉ chars ∧ chars.length < wordRange

def dash : UInt8 := 45

/-- The exceptions, and reads behind the terminator of an argument or behind `argv`. -/
inductive Failure where
  | argumentNotFound (argName : List UInt8)
  | parseError (message : String)
  | inexpectedValue (value : List UInt8)
  | outOfBounds
  deriving DecidableEq, Repr

def Word.at (str : Word) (k : Nat) : Except Failure UInt8 :=
  match str.chars[k]? with
  | some char => .ok char
  | none => if k = str.chars.length then .ok 0 else .error .outOfBounds

/-- `arg != longoption`, on the text of the string. -/
def differs (longoption arg : List UInt8) : Bool :=
  match BasicString.compareChars BasicString.charTraits (fun index => longoption[index]?)
      longoption.length 0 BasicString.npos (fun index => arg[index]?) arg.length with
  | some (.ok 0) => false
  | _ => true

/-! ### Options -/

variable {T : Type}

/-- The value of a `bool` option or what the parser of another option returned. -/
inductive Value (T : Type) where
  | flag (set : Bool)
  | parsed (value : T)
  deriving DecidableEq, Repr

/-- What is fixed about an option. A `bool` option has no parser; `valuePtr` is where the
value is copied to, if anywhere. -/
structure Declaration (T : Type) where
  name : UInt8
  longoption : List UInt8
  ignoreShort : Bool
  ignoreLong : Bool
  parser : Option (Word → Except Failure T)
  valuePtr : Option Nat
  fits : longoption.length < BasicString.ptrdiffMax := by decide

structure Opt (T : Type) extends Declaration T where
  value : Value T

abbrev Targets (T : Type) := Nat → Value T

abbrev Options (T : Type) := List (Opt T) × Targets T

/-- `set_value` without a callback. -/
def Opt.setValue (option : Opt T) (targets : Targets T) (value : Value T) : Opt T × Targets T :=
  ({ option with value := value },
    match option.valuePtr with
    | some address => Function.update targets address value
    | none => targets)

/-- The options after a call, and the index that the call left or its exception. -/
abbrev Result (T : Type) := Options T × Except Failure Nat

/-- `parse_impl`: a `bool` option is set, any other one takes the next argument. -/
def parseImpl (args : List Word) (i : Nat) (option : Opt T) (targets : Targets T) :
    (Opt T × Targets T) × Except Failure Nat :=
  match option.parser with
  | none => (option.setValue targets (.flag true), .ok i)
  | some parser =>
      match args[i + 1]? with
      | none => ((option, targets), .error .outOfBounds)
      | some word =>
          match parser word with
          | .ok value => (option.setValue targets (.parsed value), .ok (i + 1))
          | .error failure => ((option, targets), .error failure)

/-- The chain of templates: the first option that matches parses its value. -/
def dispatch (args : List Word) (i : Nat) (isThis : Opt T → Bool) (missing : Failure)
    (targets : Targets T) : List (Opt T) → Result T
  | [] => (([], targets), .error missing)
  | option :: rest =>
      if isThis option then
        let ((parsed, after), index) := parseImpl args i option targets
        ((parsed :: rest, after), index)
      else
        let ((others, after), index) := dispatch args i isThis missing targets rest
        ((option :: others, after), index)

def parseLong (args : List Word) (i : Nat) (str : Word) (options : Options T) : Result T :=
  let arg := str.chars.dropWhile fun char => char == dash
  dispatch args i (fun option => !(option.ignoreLong || differs option.longoption arg))
    (.argumentNotFound (dash :: dash :: str.chars)) options.2 options.1

def parseShort (args : List Word) (i : Nat) (n : UInt8) (options : Options T) : Result T :=
  dispatch args i (fun option => option.name == n && !option.ignoreShort)
    (.argumentNotFound (if n = 0 then [dash] else [dash, n])) options.2 options.1

/-! ### The scan -/

inductive Branch where
  | stop
  | long
  | short (n : UInt8)
  | operand
  deriving DecidableEq, Repr

def branch (isspace : UInt8 → Bool) (str : Word) : Except Failure Branch := do
  if (← str.at 0) = dash then
    if (← str.at 1) = dash then
      let third ← str.at 2
      return if isspace third || third == 0 then .stop else .long
    else
      if (← str.at 2) ≠ 0 then throw (.parseError "Long options must start with '--'")
      return .short (← str.at 1)
  else return .operand

/-- The inner loop, which looks for an option among the remaining arguments. -/
def scanOperands (i : Nat) (str : Word) : List Word → Except Failure Nat
  | [] => .ok i
  | word :: rest =>
      if word.chars = [dash, dash] then .ok i
      else if word.chars.head? = some dash then .error (.inexpectedValue str.chars)
      else scanOperands i str rest

/-- The loop of `parse`. It ends after at most `argc` rounds, which is the fuel. -/
def parseLoop (isspace : UInt8 → Bool) (args : List Word) : Nat → Options T → Nat → Result T
  | 0, options, i => (options, .ok i)
  | fuel + 1, options, i =>
      match args[i]? with
      | none => (options, .ok i)
      | some str =>
          match branch isspace str with
          | .error failure => (options, .error failure)
          | .ok .stop => (options, .ok (i + 1))
          | .ok .long =>
              match parseLong args i str options with
              | (after, .ok j) => parseLoop isspace args fuel after (j + 1)
              | (after, .error failure) => (after, .error failure)
          | .ok (.short n) =>
              match parseShort args i n options with
              | (after, .ok j) => parseLoop isspace args fuel after (j + 1)
              | (after, .error failure) => (after, .error failure)
          | .ok .operand => (options, scanOperands i str (args.drop i))

def parse (isspace : UInt8 → Bool) (options : Options T) (args : List Word) : Result T :=
  parseLoop isspace args args.length options 1

/-! ### One call of each function -/

/-- One text starts with the other, and `2 ^ 32` divides the difference of their lengths. -/
def Alike (left right : List UInt8) : Prop :=
  (left <+: right ∨ right <+: left) ∧ (2 ^ 32 : Int) ∣ (left.length : Int) - right.length

theorem differs_eq_false_iff {longoption arg : List UInt8} (hlong : longoption.length < wordRange)
    (harg : arg.length < wordRange) : differs longoption arg = false ↔ Alike longoption arg := by
  obtain ⟨value, hrun, hsign⟩ := BasicString.compare_texts BasicString.charTraits
    (fun offset _ => rfl) (fun offset _ => rfl) hlong harg
  unfold differs Alike
  rw [← BasicString.compared_zero_iff BasicString.orderedCharTraits hsign, hrun]
  constructor
  · intro hsame
    split at hsame
    · simp_all
    · contradiction
  · rintro rfl
    rfl

theorem Declaration.length_lt (option : Declaration T) : option.longoption.length < wordRange :=
  option.fits.trans (by decide)

theorem Alike.refl (text : List UInt8) : Alike text text :=
  ⟨.inl (List.prefix_refl text), by simp⟩

end Crossbow.ProgramOptions
