import Crossbow.ProgramOptions.CommandLine

/-! Which characters and arguments `parse` reads. A character behind the terminator
is read for a lone `-`, and an argument behind the last one for an option that
waits for its value. -/
namespace Crossbow.ProgramOptions
open Kernel

variable {T : Type}

/-! ### Loops over the characters of one argument -/

def skipDashes (str : Word) : Nat → Nat → Except Failure Nat
  | 0, k => .ok k
  | fuel + 1, k => do
      if (← str.at k) = dash then skipDashes str fuel (k + 1) else return k

/-- `parse_long` with the characters that it reads. -/
def parseLongReading (args : List Word) (i : Nat) (str : Word) (options : Options T) :
    Result T :=
  match skipDashes str (str.chars.length + 1) 0 with
  | .error failure => (options, .error failure)
  | .ok k =>
      dispatch args i
        (fun option => !(option.ignoreLong || differs option.longoption (str.chars.drop k)))
        (.argumentNotFound (dash :: dash :: str.chars)) options.2 options.1

/-- `argv[j][0] == '-' && argv[j][1] == '-' && argv[j][2] == '\0'` -/
def endsOptions (word : Word) : Except Failure Bool := do
  if (← word.at 0) = dash then
    if (← word.at 1) = dash then return (← word.at 2) == 0 else return false
  else return false

/-- The inner loop with the characters that it reads. -/
def scanOperandsReading (i : Nat) (str : Word) : List Word → Except Failure Nat
  | [] => .ok i
  | word :: rest => do
      if (← endsOptions word) then return i
      else if (← word.at 0) = dash then throw (.inexpectedValue str.chars)
      else scanOperandsReading i str rest

theorem Word.at_of_lt (str : Word) {k : Nat} (hk : k < str.chars.length) :
    str.at k = .ok str.chars[k] := by
  rw [Word.at, List.getElem?_eq_getElem hk]

theorem Word.at_end (str : Word) : str.at str.chars.length = .ok 0 := by
  rw [Word.at, List.getElem?_eq_none (Nat.le_refl _)]
  exact if_pos rfl

theorem skipDashes_eq (str : Word) {fuel k : Nat} (hk : k ≤ str.chars.length)
    (hfuel : str.chars.length < fuel + k) :
    ∃ stop, skipDashes str fuel k = .ok stop ∧
      str.chars.drop stop = (str.chars.drop k).dropWhile fun char => char == dash := by
  induction fuel generalizing k with
  | zero => omega
  | succ fuel ih =>
      rcases Nat.lt_or_eq_of_le hk with hlt | rfl
      · rw [skipDashes, str.at_of_lt hlt, List.drop_eq_getElem_cons hlt]
        by_cases hdash : str.chars[k] = dash
        · obtain ⟨stop, hstop, hdrop⟩ := ih hlt (by omega)
          refine ⟨stop, ?_, ?_⟩
          · simp only [bind, Except.bind, if_pos hdash, hstop]
          · rw [hdrop, List.dropWhile_cons_of_pos (by simp [hdash])]
        · refine ⟨k, ?_, ?_⟩
          · simp only [bind, Except.bind, if_neg hdash, pure, Except.pure]
          · rw [List.dropWhile_cons_of_neg (by simpa using hdash), ← List.drop_eq_getElem_cons hlt]
      · refine ⟨str.chars.length, ?_, ?_⟩
        · rw [skipDashes, str.at_end]
          rfl
        · simp

theorem parseLongReading_eq (args : List Word) (i : Nat) (str : Word) (options : Options T) :
    parseLongReading args i str options = parseLong args i str options := by
  obtain ⟨stop, hstop, hdrop⟩ := skipDashes_eq str (Nat.zero_le _)
    (show str.chars.length < str.chars.length + 1 + 0 by omega)
  simp only [parseLongReading, hstop, hdrop, List.drop_zero, parseLong]

theorem endsOptions_eq (word : Word) :
    endsOptions word = .ok (decide (word.chars = [dash, dash])) := by
  have hproper := word.proper.1
  rcases hchars : word.chars with _ | ⟨first, _ | ⟨second, _ | ⟨third, rest⟩⟩⟩
  all_goals
    rw [hchars] at hproper
    simp [endsOptions, Word.at, hchars, dash, bind, Except.bind, pure, Except.pure]
  · split <;> simp_all
    split <;> simp_all
  · rintro _ _ rfl
    simp at hproper

theorem at_zero (word : Word) :
    ∃ char, word.at 0 = .ok char ∧ (char = dash ↔ word.chars.head? = some dash) := by
  rcases hchars : word.chars with _ | ⟨first, rest⟩
  · exact ⟨0, by simp [Word.at, hchars], by simp [dash]⟩
  · exact ⟨first, by simp [Word.at, hchars], by simp⟩

theorem scanOperandsReading_eq (i : Nat) (str : Word) (words : List Word) :
    scanOperandsReading i str words = scanOperands i str words := by
  induction words with
  | nil => rfl
  | cons word rest ih =>
      obtain ⟨char, hchar, hhead⟩ := at_zero word
      simp only [scanOperandsReading, scanOperands, endsOptions_eq, hchar, hhead, ih, bind,
        Except.bind, pure, Except.pure, throw, throwThe, MonadExceptOf.throw, decide_eq_true_eq]

/-! ### The option that a word selects -/

def matchesWord (isspace : UInt8 → Bool) (str : Word) (option : Declaration T) : Bool :=
  match branch isspace str with
  | .ok .long =>
      !(option.ignoreLong ||
        differs option.longoption (str.chars.dropWhile fun char => char == dash))
  | .ok (.short n) => option.name == n && !option.ignoreShort
  | _ => false

def selected (isspace : UInt8 → Bool) (declarations : List (Declaration T)) (str : Word) :
    Option (Declaration T) :=
  declarations.find? (matchesWord isspace str)

/-- The positions at which the scan looks for an option: behind flags, and behind
options with a value that their parser accepts. -/
inductive Reaches (isspace : UInt8 → Bool) (declarations : List (Declaration T))
    (args : List Word) : Nat → Prop where
  | start : Reaches isspace declarations args 1
  | flag {i : Nat} {str : Word} {option : Declaration T}
      (hbefore : Reaches isspace declarations args i) (hword : args[i]? = some str)
      (hselected : selected isspace declarations str = some option)
      (hparser : option.parser = none) : Reaches isspace declarations args (i + 1)
  | valued {i : Nat} {str text : Word} {option : Declaration T}
      {parser : Word → Except Failure T} {value : T}
      (hbefore : Reaches isspace declarations args i) (hword : args[i]? = some str)
      (hselected : selected isspace declarations str = some option)
      (hparser : option.parser = some parser) (htext : args[i + 1]? = some text)
      (haccept : parser text = .ok value) : Reaches isspace declarations args (i + 2)

/-- No argument that is looked at is a lone `-`, and each option that takes a value
has an argument behind it. -/
def WellFormed (isspace : UInt8 → Bool) (declarations : List (Declaration T))
    (args : List Word) : Prop :=
  ∀ i str, Reaches isspace declarations args i → args[i]? = some str →
    str.chars ≠ [dash] ∧
      ∀ option, selected isspace declarations str = some option → option.parser ≠ none →
        i + 1 < args.length

def Guarded (declarations : List (Declaration T)) : Prop :=
  ∀ option ∈ declarations, ∀ parser ∈ option.parser, ∀ word, parser word ≠ .error .outOfBounds

/-! ### A round of the loop -/

theorem branch_error (isspace : UInt8 → Bool) (str : Word) :
    branch isspace str = .error .outOfBounds ↔ str.chars = [dash] := by
  rcases hchars : str.chars with _ | ⟨first, _ | ⟨second, _ | ⟨third, rest⟩⟩⟩
  · simp [branch, Word.at, hchars, dash, bind, Except.bind, pure, Except.pure]
  · by_cases hfirst : first = dash
    · simp [branch, Word.at, hchars, hfirst, dash, bind, Except.bind]
    · simp [branch, Word.at, hchars, hfirst, bind, Except.bind, pure, Except.pure]
  all_goals
    refine iff_of_false ?_ (by simp)
    simp only [branch, Word.at, hchars, List.getElem?_cons_zero, List.getElem?_cons_succ,
      List.getElem?_nil, bind, Except.bind, pure, Except.pure, throw, throwThe,
      MonadExceptOf.throw, List.length_cons, List.length_nil]
    repeat' split
    all_goals simp_all

section Rounds

variable {isspace : UInt8 → Bool} {args : List Word} {i : Nat} {options : Options T}

theorem parseImpl_declaration (args : List Word) (i : Nat) (option : Opt T)
    (targets : Targets T) :
    (parseImpl args i option targets).1.1.toDeclaration = option.toDeclaration := by
  unfold parseImpl
  split
  · rfl
  · split
    · rfl
    · split <;> rfl

theorem dispatch_find (args : List Word) (i : Nat) (isThis : Declaration T → Bool)
    (missing : Failure) (targets : Targets T) (options : List (Opt T)) :
    declarations
          (dispatch args i (fun option => isThis option.toDeclaration) missing targets options).1 =
        options.map Opt.toDeclaration ∧
      (dispatch args i (fun option => isThis option.toDeclaration) missing targets options).2 =
        match options.find? fun option => isThis option.toDeclaration with
        | none => .error missing
        | some option => (parseImpl args i option targets).2 := by
  induction options with
  | nil => exact ⟨rfl, rfl⟩
  | cons option rest ih =>
      unfold dispatch
      by_cases hthis : isThis option.toDeclaration = true
      · rw [if_pos hthis, List.find?_cons_of_pos (by exact hthis)]
        refine ⟨?_, rfl⟩
        simp only [declarations, List.map_cons, parseImpl_declaration]
      · rw [if_neg hthis, List.find?_cons_of_neg (by exact hthis)]
        refine ⟨?_, ih.2⟩
        have hsame := ih.1
        simp only [declarations, List.map_cons, List.cons.injEq, true_and] at hsame ⊢
        exact hsame

/-- A round of the loop at a word: it fails for a lone `-`, ends the loop, or goes
through the option that the word selects. -/
inductive Round (isspace : UInt8 → Bool) (args : List Word) (i : Nat) (options : Options T)
    (str : Word) : Prop where
  | lone (hchars : str.chars = [dash])
      (hselected : selected isspace (declarations options) str = none)
      (hround : ∀ fuel,
        parseLoop isspace args (fuel + 1) options i = (options, .error .outOfBounds))
  | ends (hchars : str.chars ≠ [dash])
      (hselected : selected isspace (declarations options) str = none) (result : Result T)
      (hresult : result.2 ≠ .error .outOfBounds)
      (hround : ∀ fuel, parseLoop isspace args (fuel + 1) options i = result)
  | takes (hchars : str.chars ≠ [dash]) (option : Opt T) (after : Options T)
      (hselected : selected isspace (declarations options) str = some option.toDeclaration)
      (hafter : declarations after = declarations options)
      (hround : ∀ fuel, parseLoop isspace args (fuel + 1) options i =
        match (parseImpl args i option options.2).2 with
        | .ok j => parseLoop isspace args fuel after (j + 1)
        | .error failure => (after, .error failure))

theorem scanOperands_ne (i : Nat) (str : Word) (words : List Word) :
    scanOperands i str words ≠ .error .outOfBounds := by
  induction words with
  | nil => simp [scanOperands]
  | cons word rest ih =>
      unfold scanOperands
      split
      · simp
      · split
        · simp
        · exact ih

def proceed (isspace : UInt8 → Bool) (args : List Word) (fuel : Nat) : Result T → Result T
  | (after, .ok j) => parseLoop isspace args fuel after (j + 1)
  | (after, .error failure) => (after, .error failure)

theorem round_dispatch {str : Word} (missing : Failure) (hmissing : missing ≠ .outOfBounds)
    (hchars : str.chars ≠ [dash])
    (hloop : ∀ fuel, parseLoop isspace args (fuel + 1) options i = proceed isspace args fuel
      (dispatch args i (fun option => matchesWord isspace str option.toDeclaration) missing
        options.2 options.1)) :
    Round isspace args i options str := by
  obtain ⟨hafter, houtcome⟩ := dispatch_find args i (matchesWord isspace str) missing options.2
    options.1
  generalize dispatch args i (fun option => matchesWord isspace str option.toDeclaration) missing
    options.2 options.1 = result at *
  obtain ⟨after, outcome⟩ := result
  have hselected : selected isspace (declarations options) str =
      (options.1.find? fun option => matchesWord isspace str option.toDeclaration).map
        Opt.toDeclaration := List.find?_map
  cases hfind : options.1.find? fun option => matchesWord isspace str option.toDeclaration with
  | none =>
      rw [hfind] at hselected houtcome
      dsimp only at houtcome
      subst houtcome
      exact .ends hchars hselected (after, .error missing) (by simpa using hmissing) hloop
  | some option =>
      rw [hfind] at hselected houtcome
      dsimp only at houtcome hafter
      subst houtcome
      refine .takes hchars option after hselected hafter fun fuel => (hloop fuel).trans ?_
      cases (parseImpl args i option options.2).2 <;> rfl

theorem selected_eq_none {str : Word} (decls : List (Declaration T))
    (hmatches : ∀ option : Declaration T, matchesWord isspace str option = false) :
    selected isspace decls str = none := by
  rw [selected, List.find?_eq_none]
  intro option _
  rw [hmatches option]
  exact Bool.false_ne_true

theorem round_of_word (isspace : UInt8 → Bool) (options : Options T) {str : Word}
    (hword : args[i]? = some str) : Round isspace args i options str := by
  by_cases hchars : str.chars = [dash]
  · have hbranch := (branch_error isspace str).mpr hchars
    refine .lone hchars (selected_eq_none _ fun option => ?_) fun fuel => ?_
    · simp only [matchesWord, hbranch]
    · simp only [parseLoop, hword, hbranch]
  rcases hbranch : branch isspace str with failure | found
  · have hfailure : failure ≠ .outOfBounds := by
      rintro rfl
      exact hchars ((branch_error isspace str).mp hbranch)
    refine .ends hchars (selected_eq_none _ fun option => ?_) (options, .error failure)
      (by simpa using hfailure) fun fuel => ?_
    · simp only [matchesWord, hbranch]
    · simp only [parseLoop, hword, hbranch]
  cases found with
  | stop =>
      refine .ends hchars (selected_eq_none _ fun option => ?_) (options, .ok (i + 1)) (by simp)
        fun fuel => ?_
      · simp only [matchesWord, hbranch]
      · simp only [parseLoop, hword, hbranch]
  | operand =>
      refine .ends hchars (selected_eq_none _ fun option => ?_)
        (options, scanOperands i str (args.drop i)) (scanOperands_ne i str _) fun fuel => ?_
      · simp only [matchesWord, hbranch]
      · simp only [parseLoop, hword, hbranch]
  | long =>
      refine round_dispatch (.argumentNotFound (dash :: dash :: str.chars)) (by simp) hchars
        fun fuel => ?_
      simp only [parseLoop, hword, hbranch, parseLong, matchesWord]
      rfl
  | short n =>
      refine round_dispatch (.argumentNotFound (if n = 0 then [dash] else [dash, n])) (by simp)
        hchars fun fuel => ?_
      simp only [parseLoop, hword, hbranch, parseShort, matchesWord]
      rfl

theorem parseImpl_cases (args : List Word) (i : Nat) (option : Opt T) (targets : Targets T) :
    (option.parser = none ∧ (parseImpl args i option targets).2 = .ok i) ∨
      ∃ parser, option.parser = some parser ∧
        match args[i + 1]? with
        | none => (parseImpl args i option targets).2 = .error .outOfBounds
        | some text =>
            (∃ value, parser text = .ok value ∧ (parseImpl args i option targets).2 = .ok (i + 1)) ∨
              ∃ failure, parser text = .error failure ∧
                (parseImpl args i option targets).2 = .error failure := by
  unfold parseImpl
  cases option.parser with
  | none => exact Or.inl ⟨rfl, rfl⟩
  | some parser =>
      refine Or.inr ⟨parser, rfl, ?_⟩
      cases args[i + 1]? with
      | none => rfl
      | some text =>
          dsimp only
          cases parser text with
          | ok value => exact Or.inl ⟨value, rfl, rfl⟩
          | error failure => exact Or.inr ⟨failure, rfl, rfl⟩

/-! ### Runs -/

theorem parseLoop_fuel {fuel more : Nat} (hfuel : args.length ≤ fuel + i)
    (hmore : args.length ≤ more + i) :
    parseLoop isspace args fuel options i = parseLoop isspace args more options i := by
  induction fuel generalizing more options i with
  | zero =>
      have hend : args[i]? = none := List.getElem?_eq_none (by omega)
      rw [parseLoop_end hend, parseLoop_end hend]
  | succ fuel ih =>
      cases hword : args[i]? with
      | none => rw [parseLoop_end hword, parseLoop_end hword]
      | some str =>
          obtain ⟨hlt, _⟩ := List.getElem?_eq_some_iff.mp hword
          obtain ⟨more, rfl⟩ : ∃ rest, more = rest + 1 := ⟨more - 1, by omega⟩
          rcases round_of_word isspace options hword with
            ⟨_, _, hround⟩ | ⟨_, _, _, _, hround⟩ | ⟨_, option, after, _, _, hround⟩
          · rw [hround, hround]
          · rw [hround, hround]
          · rw [hround, hround]
            cases himpl : (parseImpl args i option options.2).2 with
            | error failure => rfl
            | ok j =>
                have hj := parseImpl_index himpl
                exact ih (by omega) (by omega)

variable {decls : List (Declaration T)}

theorem parseLoop_in_bounds (hguarded : Guarded decls) (hformed : WellFormed isspace decls args)
    {fuel : Nat} (hreach : Reaches isspace decls args i) (hoptions : declarations options = decls) :
    (parseLoop isspace args fuel options i).2 ≠ .error .outOfBounds := by
  induction fuel generalizing options i with
  | zero => simp [parseLoop]
  | succ fuel ih =>
      cases hword : args[i]? with
      | none => simp [parseLoop_end hword]
      | some str =>
          obtain ⟨hnotLone, hfollowed⟩ := hformed i str hreach hword
          rcases round_of_word isspace options hword with
            ⟨hlone, _, _⟩ | ⟨_, _, _, hresult, hround⟩ |
              ⟨_, option, after, hselected, hafter, hround⟩
          · exact absurd hlone hnotLone
          · rwa [hround]
          · rw [hoptions] at hselected hafter
            rw [hround]
            rcases parseImpl_cases args i option options.2 with
              ⟨hparser, himpl⟩ | ⟨parser, hparser, hvalued⟩
            · rw [himpl]
              exact ih (.flag hreach hword hselected hparser) hafter
            · have hlt := hfollowed _ hselected (by rw [hparser]; simp)
              rw [List.getElem?_eq_getElem hlt] at hvalued
              rcases hvalued with ⟨value, haccept, himpl⟩ | ⟨failure, herror, himpl⟩
              · rw [himpl]
                exact ih (.valued hreach hword hselected hparser
                  (List.getElem?_eq_getElem hlt) haccept) hafter
              · rw [himpl]
                have hmem := List.mem_of_find?_eq_some hselected
                have hfailure := hguarded _ hmem parser hparser args[i + 1]
                simpa [herror] using hfailure

theorem parseLoop_takes {str : Word} {option : Declaration T} (hword : args[i]? = some str)
    (hselected : selected isspace (declarations options) str = some option) :
    ∃ (taken : Opt T) (after : Options T), taken.toDeclaration = option ∧
      declarations after = declarations options ∧
      ∀ fuel, parseLoop isspace args (fuel + 1) options i =
        match (parseImpl args i taken options.2).2 with
        | .ok j => parseLoop isspace args fuel after (j + 1)
        | .error failure => (after, .error failure) := by
  rcases round_of_word isspace options hword with
    ⟨_, hnone, _⟩ | ⟨_, hnone, _⟩ | ⟨_, taken, after, htaken, hafter, hround⟩
  · cases hselected.symm.trans hnone
  · cases hselected.symm.trans hnone
  · exact ⟨taken, after, Option.some.inj (htaken.symm.trans hselected), hafter, hround⟩

/-- The loop of `parse` gets to the argument `i`, with fuel for the rest. -/
def Arrives (isspace : UInt8 → Bool) (options : Options T) (args : List Word) (i : Nat) : Prop :=
  ∃ fuel after, parse isspace options args = parseLoop isspace args fuel after i ∧
    declarations after = declarations options ∧ args.length < fuel + i

theorem Arrives.take (harrives : Arrives isspace options args i) {str : Word}
    {option : Declaration T} (hword : args[i]? = some str)
    (hselected : selected isspace (declarations options) str = some option) {j : Nat}
    (hlater : i ≤ j) (htakes : ∀ taken : Opt T, taken.toDeclaration = option → ∀ targets,
      (parseImpl args i taken targets).2 = .ok j) : Arrives isspace options args (j + 1) := by
  obtain ⟨fuel, before, hparse, hbefore, hfuel⟩ := harrives
  obtain ⟨hlt, _⟩ := List.getElem?_eq_some_iff.mp hword
  obtain ⟨rest, rfl⟩ : ∃ rest, fuel = rest + 1 := ⟨fuel - 1, by omega⟩
  rw [← hbefore] at hselected
  obtain ⟨taken, after, htaken, hafter, hround⟩ := parseLoop_takes hword hselected
  refine ⟨rest, after, ?_, hafter.trans hbefore, by omega⟩
  rw [hparse, hround, htakes taken htaken]

theorem parse_reaches (isspace : UInt8 → Bool) (options : Options T)
    (hreach : Reaches isspace (declarations options) args i) :
    Arrives isspace options args i := by
  induction hreach with
  | start => exact ⟨args.length, options, rfl, rfl, Nat.lt_succ_self _⟩
  | flag _ hword hselected hparser harrives =>
      refine harrives.take hword hselected (Nat.le_refl _) ?_
      rintro taken rfl targets
      simp only [parseImpl, hparser]
  | valued _ hword hselected hparser htext haccept harrives =>
      refine harrives.take hword hselected (Nat.le_succ _) ?_
      rintro taken rfl targets
      simp only [parseImpl, hparser, htext, haccept]

theorem wellFormed_of_in_bounds
    (hparse : (parse isspace options args).2 ≠ .error .outOfBounds) :
    WellFormed isspace (declarations options) args := by
  intro i str hreach hword
  obtain ⟨fuel, after, hloop, hafter, hfuel⟩ := parse_reaches isspace options hreach
  obtain ⟨hlt, _⟩ := List.getElem?_eq_some_iff.mp hword
  obtain ⟨rest, rfl⟩ : ∃ rest, fuel = rest + 1 := ⟨fuel - 1, by omega⟩
  rw [hloop] at hparse
  refine ⟨fun hchars => hparse ?_, fun option hselected hparser => ?_⟩
  · simp only [parseLoop, hword, (branch_error isspace str).mpr hchars]
  · by_contra hlast
    rw [← hafter] at hselected
    obtain ⟨taken, left, rfl, _, hround⟩ := parseLoop_takes hword hselected
    obtain ⟨parser, hsome⟩ := Option.ne_none_iff_exists'.mp hparser
    apply hparse
    rw [hround]
    simp only [parseImpl, hsome, List.getElem?_eq_none (Nat.le_of_not_lt hlast)]

end Rounds

/-- Every read of `parse` is in bounds exactly for the command lines that are well
formed. The loops over the characters of an argument are in bounds for all of
them, and the rounds of the scan are enough. -/
theorem parse_in_bounds_iff (isspace : UInt8 → Bool) (options : Options T) (args : List Word)
    (hguarded : Guarded (declarations options)) :
    ((parse isspace options args).2 ≠ .error .outOfBounds ↔
      WellFormed isspace (declarations options) args) ∧
    (∀ fuel, args.length ≤ fuel →
      parseLoop isspace args fuel options 1 = parse isspace options args) ∧
    (∀ i str, parseLongReading args i str options = parseLong args i str options) ∧
    (∀ i str words, scanOperandsReading i str words = scanOperands i str words) := by
  refine ⟨⟨wellFormed_of_in_bounds, fun hformed => ?_⟩, fun fuel hfuel => ?_, ?_, ?_⟩
  · exact parseLoop_in_bounds hguarded hformed .start rfl
  · exact parseLoop_fuel (by omega) (by omega)
  · exact fun i str => parseLongReading_eq args i str options
  · exact scanOperandsReading_eq

theorem sampleOptions_guarded : Guarded (declarations sampleOptions) := by
  simp [Guarded, declarations, sampleOptions]

/-- `-v --num -5` -/
theorem parse_in_bounds_num :
    WellFormed cLocale (declarations sampleOptions) [⟨[112], by decide⟩, ⟨[45, 118], by decide⟩,
      ⟨[45, 45, 110, 117, 109], by decide⟩, ⟨[45, 53], by decide⟩] :=
  (parse_in_bounds_iff cLocale sampleOptions _ sampleOptions_guarded).1.mp (by decide +kernel)

/-- A lone `-` is read behind its terminator, and `-n` as the last argument takes the
one behind it. -/
theorem lone_dash_and_missing_value :
    (parse cLocale sampleOptions [⟨[112], by decide⟩, ⟨[45], by decide⟩]).2 =
        .error .outOfBounds ∧
      (parse cLocale sampleOptions [⟨[112], by decide⟩, ⟨[45, 110], by decide⟩]).2 =
        .error .outOfBounds := by
  decide +kernel

end Crossbow.ProgramOptions
