import Mathlib.Data.List.Forall2
import Crossbow.Kernel.Numeral
import Crossbow.ProgramOptions.Parse

/-! Command lines that mention options, and that `parse` recovers the mentions from
them: the values of the options, and where the remaining arguments start. -/
namespace Crossbow.ProgramOptions
open Kernel

variable {T : Type}

/-! ### Rendering -/

/-- A word that selects the option, in a form that the option does not ignore. -/
def Names (option : Declaration T) (word : Word) : Prop :=
  option.ignoreShort = false ∧ word.chars = [dash, option.name] ∨
    option.ignoreLong = false ∧ word.chars = dash :: dash :: option.longoption

/-- The words that mention an option, given by its position, with a value. -/
inductive Spells (declarations : List (Declaration T)) : Nat × Value T → List Word → Prop where
  | flag {k : Nat} {option : Declaration T} {word : Word} (hoption : declarations[k]? = some option)
      (hparser : option.parser = none) (hword : Names option word) :
      Spells declarations (k, .flag true) [word]
  | valued {k : Nat} {option : Declaration T} {word text : Word}
      {parser : Word → Except Failure T} {value : T} (hoption : declarations[k]? = some option)
      (hparser : option.parser = some parser) (hword : Names option word)
      (haccept : parser text = .ok value) :
      Spells declarations (k, .parsed value) [word, text]

/-- The end of a command line, and how many words of it are not remaining arguments. -/
inductive Tail : List Word → Nat → Prop where
  | none : Tail [] 0
  | dashes {word : Word} {rest : List Word} (hword : word.chars = [dash, dash]) :
      Tail (word :: rest) 1
  | operands {word : Word} {rest : List Word}
      (hwords : ∀ operand ∈ word :: rest, operand.chars.head? ≠ some dash) :
      Tail (word :: rest) 0

def lastValue (mentions : List (Nat × Value T)) (k : Nat) : Option (Value T) :=
  ((mentions.filter fun mention => mention.1 == k).getLast?).map Prod.snd

/-- What a command line may assume about the options. -/
structure Distinguished (isspace : UInt8 → Bool) (declarations : List (Declaration T)) :
    Prop where
  short : (declarations.map Declaration.name).Nodup
  shortChar : ∀ option ∈ declarations, option.name ≠ dash ∧ option.name ≠ 0
  long : (declarations.map Declaration.longoption).Nodup
  longChar : ∀ option ∈ declarations, ∃ char rest, option.longoption = char :: rest ∧
    char ≠ dash ∧ isspace char = false
  targets : (declarations.filterMap Declaration.valuePtr).Nodup

def Long (line : List Word) : Prop := ∃ word ∈ line.head?, [dash, dash] <+: word.chars

/-- In front of the option at `k` there is one that does not ignore long names, and that
`parse_long` takes for it. This is not excluded by the long names being different. -/
def Shadowed (declarations : List (Declaration T)) (k : Nat) : Prop :=
  ∃ option ∈ declarations[k]?, ∃ j < k, ∃ other ∈ declarations[j]?,
    other.ignoreLong = false ∧ Alike other.longoption option.longoption

def Unshadowed (declarations : List (Declaration T)) (mention : Nat × Value T)
    (line : List Word) : Prop :=
  Spells declarations mention line ∧ (Long line → ¬ Shadowed declarations mention.1)

def declarations (options : Options T) : List (Declaration T) :=
  options.1.map Opt.toDeclaration

/-- `parse` on a command line with the given mentions and end: it returns where the
remaining arguments start, every mentioned option and its target hold the value of its last
mention, and everything else is as it was. -/
def Recovers (isspace : UInt8 → Bool) (options : Options T) (program : Word)
    (mentions : List (Nat × Value T)) (lines : List (List Word)) (tail : List Word)
    (skipped : Nat) : Prop :=
  ∃ final, parse isspace options (program :: lines.flatten ++ tail) =
      (final, .ok (1 + lines.flatten.length + skipped)) ∧
    final.1.length = options.1.length ∧
    (∀ (k : Nat) (option : Opt T), options.1[k]? = some option →
      final.1[k]? = some { option with value := (lastValue mentions k).getD option.value } ∧
      ∀ address ∈ option.valuePtr,
        final.2 address = (lastValue mentions k).getD (options.2 address)) ∧
    ∀ address, (∀ option ∈ declarations options, option.valuePtr ≠ some address) →
      final.2 address = options.2 address

/-! ### Mentions set values -/

def mention (options : Options T) (setting : Nat × Value T) : Options T :=
  match options.1[setting.1]? with
  | none => options
  | some option =>
      let (after, targets) := option.setValue options.2 setting.2
      (options.1.set setting.1 after, targets)

theorem mention_eq {options : Options T} {option : Opt T} {k : Nat}
    (hoption : options.1[k]? = some option) (value : Value T) :
    mention options (k, value) =
      (options.1.set k { option with value := value }, (option.setValue options.2 value).2) := by
  simp only [mention, hoption, Opt.setValue]

theorem getElem?_mention (options : Options T) (j k : Nat) (value : Value T) :
    (mention options (j, value)).1[k]? =
      options.1[k]?.map fun option => if j = k then { option with value := value } else option := by
  cases hoption : options.1[j]? with
  | none =>
      simp only [mention, hoption]
      cases hother : options.1[k]? with
      | none => rfl
      | some other =>
          have hne : j ≠ k := by
            rintro rfl
            cases hoption.symm.trans hother
          rw [Option.map_some, if_neg hne]
  | some option =>
      rw [mention_eq hoption, List.getElem?_set]
      by_cases hk : j = k
      · subst hk
        obtain ⟨hlt, rfl⟩ := List.getElem?_eq_some_iff.mp hoption
        simp [hlt]
      · simp [hk]

theorem declarations_mention (options : Options T) (setting : Nat × Value T) :
    declarations (mention options setting) = declarations options := by
  unfold declarations
  apply List.ext_getElem?
  intro k
  rw [List.getElem?_map, List.getElem?_map, getElem?_mention]
  cases options.1[k]? with
  | none => rfl
  | some option =>
      simp only [Option.map_some]
      split <;> rfl

theorem declarations_foldl (mentions : List (Nat × Value T)) (options : Options T) :
    declarations (mentions.foldl mention options) = declarations options := by
  induction mentions generalizing options with
  | nil => rfl
  | cons setting mentions ih => rw [List.foldl_cons, ih, declarations_mention]

theorem lastValue_cons (setting : Nat × Value T) (mentions : List (Nat × Value T)) (k : Nat) :
    lastValue (setting :: mentions) k =
      (lastValue mentions k).or (if setting.1 = k then some setting.2 else none) := by
  unfold lastValue
  by_cases hk : setting.1 = k
  · rw [List.filter_cons_of_pos (by simpa using hk), List.getLast?_cons]
    cases (mentions.filter fun mention => mention.1 == k).getLast? <;> simp [hk]
  · rw [List.filter_cons_of_neg (by simpa using hk), if_neg hk]
    simp

theorem lastValue_append (mentions : List (Nat × Value T)) (k : Nat) (value : Value T) :
    lastValue (mentions ++ [(k, value)]) k = some value := by
  unfold lastValue
  rw [List.filter_append, List.filter_cons_of_pos (by simp), List.filter_nil,
    List.getLast?_concat, Option.map_some]

theorem getElem?_foldl_mention (mentions : List (Nat × Value T)) (options : Options T) (k : Nat) :
    (mentions.foldl mention options).1[k]? =
      options.1[k]?.map fun option =>
        { option with value := (lastValue mentions k).getD option.value } := by
  induction mentions generalizing options with
  | nil => simp [lastValue]
  | cons setting mentions ih =>
      rw [List.foldl_cons, ih, lastValue_cons, getElem?_mention]
      cases options.1[k]? with
      | none => rfl
      | some option =>
          by_cases hk : setting.1 = k
          · cases lastValue mentions k <;> simp [hk]
          · cases lastValue mentions k <;> simp [hk]

theorem declarations_getElem? {options : Options T} {option : Opt T} {k : Nat}
    (hoption : options.1[k]? = some option) :
    (declarations options)[k]? = some option.toDeclaration := by
  unfold declarations
  rw [List.getElem?_map, hoption]
  rfl

theorem position_eq {A : Type} {declarations : List (Declaration T)}
    {field : Declaration T → A} (hnodup : (declarations.map field).Nodup) {j k : Nat}
    {first second : Declaration T} (hfirst : declarations[j]? = some first)
    (hsecond : declarations[k]? = some second) (heq : field first = field second) :
    j = k := by
  obtain ⟨hlt, _⟩ := List.getElem?_eq_some_iff.mp hfirst
  apply (List.getElem?_inj (by simpa using hlt) hnodup).mp
  rw [List.getElem?_map, List.getElem?_map, hfirst, hsecond]
  exact congrArg some heq

theorem target_position {declarations : List (Declaration T)}
    (hnodup : (declarations.filterMap Declaration.valuePtr).Nodup) {j k address : Nat}
    {first second : Declaration T} (hfirst : declarations[j]? = some first)
    (hsecond : declarations[k]? = some second) (hptr : first.valuePtr = some address)
    (hptr' : second.valuePtr = some address) : j = k := by
  have hpairs := List.pairwise_filterMap.mp hnodup
  rw [List.pairwise_iff_getElem] at hpairs
  obtain ⟨hj, rfl⟩ := List.getElem?_eq_some_iff.mp hfirst
  obtain ⟨hk, rfl⟩ := List.getElem?_eq_some_iff.mp hsecond
  rcases Nat.lt_trichotomy j k with hlt | heq | hlt
  · exact absurd rfl (hpairs j k hj hk hlt address hptr address hptr')
  · exact heq
  · exact absurd rfl (hpairs k j hk hj hlt address hptr' address hptr)

theorem setValue_elsewhere {option : Opt T} {address : Nat} (hptr : option.valuePtr ≠ some address)
    (targets : Targets T) (value : Value T) :
    (option.setValue targets value).2 address = targets address := by
  unfold Opt.setValue
  cases hother : option.valuePtr with
  | none => rfl
  | some other =>
      have hne : address ≠ other := by
        rintro rfl
        exact hptr hother
      exact Function.update_of_ne hne value targets

section Targets

variable {options : Options T} {k address : Nat} {option : Opt T}

theorem mention_target (hnodup : ((declarations options).filterMap Declaration.valuePtr).Nodup)
    (hoption : options.1[k]? = some option) (hptr : option.valuePtr = some address)
    (j : Nat) (value : Value T) :
    (mention options (j, value)).2 address = if j = k then value else options.2 address := by
  cases hother : options.1[j]? with
  | none =>
      have hne : j ≠ k := by
        rintro rfl
        cases hother.symm.trans hoption
      simp only [mention, hother, if_neg hne]
  | some other =>
      rw [mention_eq hother]
      by_cases hk : j = k
      · subst hk
        obtain rfl : other = option := Option.some.inj (hother.symm.trans hoption)
        rw [if_pos rfl, Opt.setValue, hptr]
        exact Function.update_self address value options.2
      · rw [if_neg hk]
        refine setValue_elsewhere (fun hptr' => hk ?_) _ _
        exact target_position hnodup (declarations_getElem? hother)
          (declarations_getElem? hoption) hptr' hptr

theorem foldl_target (mentions : List (Nat × Value T))
    (hnodup : ((declarations options).filterMap Declaration.valuePtr).Nodup)
    (hoption : options.1[k]? = some option) (hptr : option.valuePtr = some address) :
    (mentions.foldl mention options).2 address =
      (lastValue mentions k).getD (options.2 address) := by
  induction mentions generalizing options option with
  | nil => rfl
  | cons setting mentions ih =>
      have hafter : (mention options setting).1[k]? = _ := getElem?_mention options _ k _
      rw [hoption, Option.map_some] at hafter
      rw [List.foldl_cons, lastValue_cons, ih (by rwa [declarations_mention]) hafter
        (by split <;> exact hptr), mention_target hnodup hoption hptr]
      cases lastValue mentions k with
      | none => split <;> rfl
      | some value => rfl

theorem foldl_elsewhere (mentions : List (Nat × Value T))
    (hnone : ∀ option ∈ declarations options, option.valuePtr ≠ some address) :
    (mentions.foldl mention options).2 address = options.2 address := by
  induction mentions generalizing options with
  | nil => rfl
  | cons setting mentions ih =>
      rw [List.foldl_cons, ih (by rwa [declarations_mention])]
      cases hoption : options.1[setting.1]? with
      | none => simp only [mention, hoption]
      | some option =>
          rw [mention_eq hoption]
          exact setValue_elsewhere
            (hnone _ (List.mem_of_getElem? (declarations_getElem? hoption))) _ _

end Targets

/-! ### The option that a word reaches -/

section Chain

variable {args : List Word} {i k : Nat} {isThis : Opt T → Bool} {missing : Failure}
  {targets : Targets T} {options : List (Opt T)} {option : Opt T}

theorem dispatch_eq (hoption : options[k]? = some option) (hthis : isThis option = true)
    (hfirst : ∀ j < k, ∀ other, options[j]? = some other → isThis other = false) :
    dispatch args i isThis missing targets options =
      ((options.set k (parseImpl args i option targets).1.1,
        (parseImpl args i option targets).1.2), (parseImpl args i option targets).2) := by
  induction options generalizing k with
  | nil => simp at hoption
  | cons head rest ih =>
      cases k with
      | zero =>
          obtain rfl : head = option := by simpa using hoption
          simp [dispatch, hthis]
      | succ k =>
          have hmiss : isThis head ≠ true := by
            rw [hfirst 0 (Nat.succ_pos k) head rfl]
            exact Bool.false_ne_true
          rw [dispatch, if_neg hmiss, ih (by simpa using hoption)
            fun j hj other hother => hfirst (j + 1) (Nat.succ_lt_succ hj) other hother]
          rfl

/-- An option with another one in front of it that matches is left alone. -/
theorem dispatch_behind (hoption : options[k]? = some option)
    (hbehind : ∃ j < k, ∃ other, options[j]? = some other ∧ isThis other = true) :
    (dispatch args i isThis missing targets options).1.1[k]? = some option := by
  induction options generalizing k with
  | nil => simp at hoption
  | cons head rest ih =>
      obtain ⟨j, hj, other, hother, hthis⟩ := hbehind
      obtain ⟨k, rfl⟩ := Nat.exists_eq_succ_of_ne_zero (Nat.ne_zero_of_lt hj)
      unfold dispatch
      split
      · exact hoption
      · rename_i hmiss
        cases j with
        | zero =>
            obtain rfl : head = other := by simpa using hother
            contradiction
        | succ j => exact ih hoption ⟨j, Nat.lt_of_succ_lt_succ hj, other, hother, hthis⟩

/-- An option that takes a value is left alone if there is no further argument. -/
theorem dispatch_starved (hend : args[i + 1]? = none) (hoption : options[k]? = some option)
    (hparser : option.parser ≠ none) :
    (dispatch args i isThis missing targets options).1.1[k]? = some option := by
  induction options generalizing k with
  | nil => simp at hoption
  | cons head rest ih =>
      unfold dispatch
      cases k with
      | zero =>
          obtain rfl : head = option := by simpa using hoption
          obtain ⟨parser, hsome⟩ := Option.ne_none_iff_exists'.mp hparser
          simp only [parseImpl, hsome, hend, apply_ite]
          split <;> rfl
      | succ k =>
          split
          · exact hoption
          · exact ih hoption

theorem parseImpl_index {j : Nat} (hindex : (parseImpl args i option targets).2 = .ok j) :
    i ≤ j := by
  unfold parseImpl at hindex
  split at hindex
  · cases hindex
    exact Nat.le_refl i
  · split at hindex
    · contradiction
    · split at hindex
      · cases hindex
        exact Nat.le_succ i
      · contradiction

theorem dispatch_index {j : Nat}
    (hindex : (dispatch args i isThis missing targets options).2 = .ok j) : i ≤ j := by
  induction options with
  | nil => contradiction
  | cons head rest ih =>
      unfold dispatch at hindex
      split at hindex
      · exact parseImpl_index hindex
      · exact ih hindex

end Chain

section Scan

variable {isspace : UInt8 → Bool} {args : List Word} {options : Options T} {i k : Nat}
  {option : Opt T} {word : Word}

theorem branch_short {n : UInt8} (hword : word.chars = [dash, n]) (hdash : n ≠ dash) :
    branch isspace word = .ok (.short n) := by
  simp [branch, Word.at, hword, hdash, bind, Except.bind, pure, Except.pure]

theorem branch_long {char : UInt8} {rest : List UInt8}
    (hword : word.chars = dash :: dash :: char :: rest) (hspace : isspace char = false) :
    branch isspace word = .ok .long := by
  have hchar : char ≠ 0 := by
    have hproper := word.proper.1
    rw [hword] at hproper
    grind
  simp [branch, Word.at, hword, hspace, hchar, bind, Except.bind, pure, Except.pure]

theorem parseShort_eq (args : List Word) (i : Nat)
    (hvalid : Distinguished isspace (declarations options))
    (hoption : options.1[k]? = some option) (hused : option.ignoreShort = false) :
    parseShort args i option.name options =
      ((options.1.set k (parseImpl args i option options.2).1.1,
        (parseImpl args i option options.2).1.2), (parseImpl args i option options.2).2) := by
  apply dispatch_eq hoption
  · simp [hused]
  · intro j hj other hother
    have hname : other.name ≠ option.name := fun hname => Nat.ne_of_lt hj
      (position_eq hvalid.short (declarations_getElem? hother) (declarations_getElem? hoption)
        hname)
    simp [hname]

/-- The long name that is left of a word without its dashes. -/
theorem long_arg (hvalid : Distinguished isspace (declarations options))
    (hoption : options.1[k]? = some option)
    (hword : word.chars = dash :: dash :: option.longoption) :
    (word.chars.dropWhile fun char => char == dash) = option.longoption ∧
      branch isspace word = .ok .long := by
  obtain ⟨char, rest, hlong, hchar, hspace⟩ :=
    hvalid.longChar _ (List.mem_of_getElem? (declarations_getElem? hoption))
  change option.longoption = char :: rest at hlong
  refine ⟨by rw [hword]; simp [hlong, hchar], ?_⟩
  rw [hlong] at hword
  exact branch_long hword hspace

theorem parseLong_eq (args : List Word) (i : Nat)
    (hvalid : Distinguished isspace (declarations options))
    (hfree : ¬ Shadowed (declarations options) k)
    (hoption : options.1[k]? = some option) (hused : option.ignoreLong = false)
    (hword : word.chars = dash :: dash :: option.longoption) :
    parseLong args i word options =
      ((options.1.set k (parseImpl args i option options.2).1.1,
        (parseImpl args i option options.2).1.2), (parseImpl args i option options.2).2) := by
  unfold parseLong
  rw [(long_arg hvalid hoption hword).1]
  apply dispatch_eq hoption
  · simp [hused, (differs_eq_false_iff option.length_lt option.length_lt).mpr (.refl _)]
  · intro j hj other hother
    by_contra hthis
    simp only [Bool.not_eq_false, Bool.not_eq_true', Bool.or_eq_false_iff] at hthis
    exact hfree ⟨_, declarations_getElem? hoption, j, hj, _, declarations_getElem? hother,
      hthis.1, (differs_eq_false_iff other.length_lt option.length_lt).mp hthis.2⟩

theorem parseLoop_names (hvalid : Distinguished isspace (declarations options))
    (hoption : options.1[k]? = some option) (hword : args[i]? = some word)
    (hnames : Names option.toDeclaration word)
    (hfree : [dash, dash] <+: word.chars → ¬ Shadowed (declarations options) k)
    {value : Value T} {j : Nat}
    (hparse : parseImpl args i option options.2 = (option.setValue options.2 value, .ok j))
    (fuel : Nat) :
    parseLoop isspace args (fuel + 1) options i =
      parseLoop isspace args fuel (mention options (k, value)) (j + 1) := by
  have hmem := List.mem_of_getElem? (declarations_getElem? hoption)
  rcases hnames with ⟨hused, hchars⟩ | ⟨hused, hchars⟩
  · have hshort := parseShort_eq args i hvalid hoption hused
    rw [hparse] at hshort
    simp only [parseLoop, hword, branch_short hchars (hvalid.shortChar _ hmem).1, hshort,
      mention_eq hoption, Opt.setValue]
  · have hlong := parseLong_eq args i hvalid (hfree (by rw [hchars]; simp)) hoption hused hchars
    rw [hparse] at hlong
    simp only [parseLoop, hword, (long_arg hvalid hoption hchars).2, hlong,
      mention_eq hoption, Opt.setValue]

theorem parseLoop_spells (hvalid : Distinguished isspace (declarations options))
    {setting : Nat × Value T} {line rest : List Word} (hdrop : args.drop i = line ++ rest)
    (hspells : Unshadowed (declarations options) setting line) (fuel : Nat) :
    parseLoop isspace args (fuel + 1) options i =
      parseLoop isspace args fuel (mention options setting) (i + line.length) := by
  have hword : ∀ j, args[i + j]? = (line ++ rest)[j]? := by
    intro j
    rw [← hdrop, List.getElem?_drop]
  obtain ⟨hspells, hfree⟩ := hspells
  cases hspells with
  | @flag k declaration word hdeclaration hparser hnames =>
      obtain ⟨option, hoption, rfl⟩ := Option.map_eq_some_iff.mp
        (List.getElem?_map ▸ hdeclaration)
      apply parseLoop_names hvalid hoption (hword 0) hnames (fun hlong => hfree ⟨word, rfl, hlong⟩)
      simp [parseImpl, hparser]
  | @valued k declaration word text parser value hdeclaration hparser hnames haccept =>
      obtain ⟨option, hoption, rfl⟩ := Option.map_eq_some_iff.mp
        (List.getElem?_map ▸ hdeclaration)
      apply parseLoop_names hvalid hoption (hword 0) hnames (fun hlong => hfree ⟨word, rfl, hlong⟩)
      have htext : args[i + 1]? = some text := hword 1
      simp [parseImpl, hparser, htext, haccept]

theorem parseLoop_lines {mentions : List (Nat × Value T)} {lines : List (List Word)}
    {rest : List Word} (hvalid : Distinguished isspace (declarations options))
    (hlines : List.Forall₂ (Unshadowed (declarations options)) mentions lines)
    (hdrop : args.drop i = lines.flatten ++ rest) (fuel : Nat) :
    parseLoop isspace args (mentions.length + fuel) options i =
      parseLoop isspace args fuel (mentions.foldl mention options)
        (i + lines.flatten.length) := by
  induction mentions generalizing lines options i with
  | nil =>
      cases hlines
      simp
  | cons setting mentions ih =>
      obtain ⟨line, others, hspells, hothers, rfl⟩ := List.forall₂_cons_left_iff.mp hlines
      rw [List.flatten_cons, List.append_assoc] at hdrop
      rw [List.length_cons, Nat.add_right_comm, parseLoop_spells hvalid hdrop hspells]
      rw [← declarations_mention options setting] at hvalid hothers
      rw [ih hvalid hothers, List.foldl_cons, List.flatten_cons, List.length_append,
        Nat.add_assoc]
      rw [← List.drop_drop, hdrop, List.drop_left]

theorem scanOperands_eq {str : Word} {words : List Word}
    (hwords : ∀ operand ∈ words, operand.chars.head? ≠ some dash) :
    scanOperands i str words = .ok i := by
  induction words with
  | nil => rfl
  | cons word words ih =>
      have hhead := hwords word List.mem_cons_self
      have hne : word.chars ≠ [dash, dash] := by
        intro heq
        rw [heq] at hhead
        contradiction
      rw [scanOperands, if_neg hne, if_neg hhead]
      exact ih fun operand hmem => hwords operand (List.mem_cons_of_mem _ hmem)

theorem parseLoop_tail {tail : List Word} {skipped : Nat} (hdrop : args.drop i = tail)
    (htail : Tail tail skipped) (fuel : Nat) :
    parseLoop isspace args (fuel + 1) options i = (options, .ok (i + skipped)) := by
  have hword : args[i]? = tail[0]? := by
    rw [← hdrop, List.getElem?_drop, Nat.add_zero]
  cases htail with
  | none => simp [parseLoop, hword]
  | @dashes word rest hchars =>
      have hbranch : branch isspace word = .ok .stop := by
        simp [branch, Word.at, hchars, bind, Except.bind, pure, Except.pure]
      have hword : args[i]? = some word := hword
      simp only [parseLoop, hword, hbranch]
  | @operands word rest hwords =>
      have hhead := hwords word List.mem_cons_self
      have hbranch : branch isspace word = .ok .operand := by
        cases hchars : word.chars with
        | nil => simp [branch, Word.at, hchars, dash, bind, Except.bind, pure, Except.pure]
        | cons char chars =>
            have hchar : char ≠ dash := by simpa [hchars] using hhead
            simp [branch, Word.at, hchars, hchar, bind, Except.bind, pure, Except.pure]
      have hword : args[i]? = some word := hword
      simp only [parseLoop, hword, hbranch, hdrop, scanOperands_eq hwords, Nat.add_zero]

theorem lines_length_le {mentions : List (Nat × Value T)} {lines : List (List Word)}
    (hlines : List.Forall₂ (Unshadowed (declarations options)) mentions lines) :
    mentions.length ≤ lines.flatten.length := by
  induction hlines with
  | nil => simp
  | cons hspells _ ih =>
      rw [List.flatten_cons, List.length_append]
      cases hspells.1 <;> simp only [List.length_cons, List.length_nil] <;> omega

theorem parseLoop_end (hend : args[i]? = none) (fuel : Nat) :
    parseLoop isspace args fuel options i = (options, .ok i) := by
  cases fuel with
  | zero => rfl
  | succ fuel => simp only [parseLoop, hend]

/-! ### Mentions of a shadowed option -/

/-- The last argument does not set an option that takes a value. -/
theorem parseLoop_last (hlast : args.length ≤ i + 1) (hoption : options.1[k]? = some option)
    (hparser : option.parser ≠ none) (fuel : Nat) :
    (parseLoop isspace args fuel options i).1.1[k]? = some option := by
  have hend : args[i + 1]? = none := List.getElem?_eq_none hlast
  have hkept : ∀ isThis missing after result,
      dispatch args i isThis missing options.2 options.1 = (after, result) →
        after.1[k]? = some option := by
    intro isThis missing after result heq
    have hstarved := @dispatch_starved T args i k isThis missing options.2 _ _ hend hoption hparser
    rwa [heq] at hstarved
  have hnext : ∀ fuel isThis missing after j,
      dispatch args i isThis missing options.2 options.1 = (after, .ok j) →
        (parseLoop isspace args fuel after (j + 1)).1.1[k]? = some option := by
    intro fuel isThis missing after j heq
    have hindex := dispatch_index (congrArg Prod.snd heq)
    rw [parseLoop_end (List.getElem?_eq_none (by omega))]
    exact hkept _ _ _ _ heq
  cases fuel with
  | zero => exact hoption
  | succ fuel =>
      unfold parseLoop
      split
      · exact hoption
      · split
        · exact hoption
        · exact hoption
        · split
          · rename_i heq
            exact hnext _ _ _ _ _ heq
          · rename_i heq
            exact hkept _ _ _ _ heq
        · split
          · rename_i heq
            exact hnext _ _ _ _ _ heq
          · rename_i heq
            exact hkept _ _ _ _ heq
        · exact hoption

theorem parseLong_shadowed (args : List Word) (i : Nat)
    (hvalid : Distinguished isspace (declarations options))
    (hshadowed : Shadowed (declarations options) k) (hoption : options.1[k]? = some option)
    (hword : word.chars = dash :: dash :: option.longoption) :
    (parseLong args i word options).1.1[k]? = some option := by
  obtain ⟨declared, hdeclared, j, hj, first, hfirst, hused, halike⟩ := hshadowed
  obtain rfl : option.toDeclaration = declared :=
    Option.some.inj ((declarations_getElem? hoption).symm.trans hdeclared)
  obtain ⟨other, hother, rfl⟩ := Option.map_eq_some_iff.mp (List.getElem?_map ▸ hfirst)
  unfold parseLong
  rw [(long_arg hvalid hoption hword).1]
  refine dispatch_behind hoption ⟨j, hj, other, hother, ?_⟩
  simp [hused, (differs_eq_false_iff other.length_lt option.length_lt).mpr halike]

theorem spells_words {value : Value T} {line : List Word}
    (hspells : Spells (declarations options) (k, value) line)
    (hoption : options.1[k]? = some option) :
    ∃ word ∈ line.head?, Names option.toDeclaration word ∧
      (line.length = 1 ∨ line.length = 2 ∧ option.parser ≠ none) := by
  have hdeclared := declarations_getElem? hoption
  cases hspells with
  | @flag _ declaration word hdeclaration hparser hnames =>
      obtain rfl := Option.some.inj (hdeclared.symm.trans hdeclaration)
      exact ⟨word, rfl, hnames, .inl rfl⟩
  | @valued _ declaration word text parser value hdeclaration hparser hnames haccept =>
      obtain rfl := Option.some.inj (hdeclared.symm.trans hdeclaration)
      exact ⟨word, rfl, hnames, .inr ⟨rfl, by rw [hparser]; nofun⟩⟩

/-- A mention of a shadowed option at the end of a command line does not set it: another
option is reached, and the value that is left behind a flag is no mention by itself. -/
theorem parseLoop_shadowed (hvalid : Distinguished isspace (declarations options))
    {value : Value T} {line : List Word} (hdrop : args.drop i = line)
    (hspells : Spells (declarations options) (k, value) line) (hlong : Long line)
    (hshadowed : Shadowed (declarations options) k) (hoption : options.1[k]? = some option)
    (fuel : Nat) : (parseLoop isspace args fuel options i).1.1[k]? = some option := by
  cases fuel with
  | zero => exact hoption
  | succ fuel =>
      obtain ⟨word, hhead, hnames, hlength⟩ := spells_words hspells hoption
      obtain ⟨long, hlongHead, hlong⟩ := hlong
      obtain rfl : word = long := Option.some.inj (hhead.symm.trans hlongHead)
      have hword : args[i]? = some word := by
        rw [← hhead, ← hdrop, List.head?_drop]
      have hchars : word.chars = dash :: dash :: option.longoption := by
        rcases hnames with ⟨_, hchars⟩ | ⟨_, hchars⟩
        · have hmem := List.mem_of_getElem? (declarations_getElem? hoption)
          rw [hchars] at hlong
          exact absurd (by simpa using hlong) (hvalid.shortChar _ hmem).1.symm
        · exact hchars
      have hcount := congrArg List.length hdrop
      rw [List.length_drop] at hcount
      have hkept := parseLong_shadowed args i hvalid hshadowed hoption hchars
      simp only [parseLoop, hword, (long_arg hvalid hoption hchars).2]
      split
      · rename_i after j heq
        rw [heq] at hkept
        have hindex := dispatch_index (congrArg Prod.snd heq)
        rcases hlength with hone | ⟨htwo, hparser⟩
        · rw [parseLoop_end (List.getElem?_eq_none (by omega))]
          exact hkept
        · exact parseLoop_last (by omega) hkept hparser fuel
      · rename_i after failure heq
        rw [heq] at hkept
        exact hkept

end Scan

/-- A command line whose long names are not shadowed is recovered. A further mention of a
shadowed option by its long name is not, if it has another value than the option. -/
theorem parse_inverts_rendering (isspace : UInt8 → Bool) (options : Options T) (program : Word)
    (mentions : List (Nat × Value T)) (lines : List (List Word))
    (hvalid : Distinguished isspace (declarations options))
    (hlines : List.Forall₂ (Unshadowed (declarations options)) mentions lines) :
    (∀ tail skipped, Tail tail skipped →
      Recovers isspace options program mentions lines tail skipped) ∧
    ∀ k value line option, Spells (declarations options) (k, value) line → Long line →
      Shadowed (declarations options) k → options.1[k]? = some option →
      (lastValue mentions k).getD option.value ≠ value →
      ¬ Recovers isspace options program (mentions ++ [(k, value)]) (lines ++ [line]) [] 0 := by
  have hcount := lines_length_le hlines
  refine ⟨fun tail skipped htail => ?_, ?_⟩
  · -- the fuel covers all mentions and the round that returns
    have hfuel : (program :: lines.flatten ++ tail).length =
        mentions.length + (lines.flatten.length - mentions.length + tail.length + 1) := by
      simp only [List.cons_append, List.length_cons, List.length_append]
      omega
    refine ⟨mentions.foldl mention options, ?_, ?_, ?_, fun address hnone => ?_⟩
    · unfold parse
      rw [hfuel, parseLoop_lines hvalid hlines rfl]
      apply parseLoop_tail ?_ htail
      rw [Nat.add_comm, ← List.drop_drop]
      simp
    · have hsame := congrArg List.length (declarations_foldl mentions options)
      simpa [declarations] using hsame
    · intro k option hoption
      refine ⟨by rw [getElem?_foldl_mention, hoption, Option.map_some], ?_⟩
      intro address hptr
      exact foldl_target mentions hvalid.targets hoption hptr
    · exact foldl_elsewhere mentions hnone
  · intro k value line option hspells hlong hshadowed hoption hnew
    rintro ⟨final, hparse, _, hfinal, _⟩
    have hflat : (lines ++ [line]).flatten ++ [] = lines.flatten ++ line := by simp
    have hfuel : (program :: (lines.flatten ++ line)).length =
        mentions.length + (lines.flatten.length - mentions.length + line.length + 1) := by
      simp only [List.length_cons, List.length_append]
      omega
    have hafter : (mentions.foldl mention options).1[k]? = _ :=
      getElem?_foldl_mention mentions options k
    rw [hoption, Option.map_some] at hafter
    rw [List.cons_append, hflat, parse, hfuel, parseLoop_lines hvalid hlines rfl] at hparse
    have hdrop : (program :: (lines.flatten ++ line)).drop (1 + lines.flatten.length) = line := by
      rw [Nat.add_comm, ← List.drop_drop]
      simp
    rw [← declarations_foldl mentions options] at hvalid hspells hshadowed
    have hkept := parseLoop_shadowed hvalid hdrop hspells hlong hshadowed hafter
      (lines.flatten.length - mentions.length + line.length + 1)
    rw [hparse, (hfinal k option hoption).1, lastValue_append] at hkept
    have hvalue := congrArg Opt.value (Option.some.inj hkept)
    exact hnew hvalue.symm

/-- A `bool` option `-v`, `--verbose` and a string option `-n`, `--num` with a target. -/
def sampleOptions : Options (List UInt8) :=
  ([{ name := 118, longoption := [118, 101, 114, 98, 111, 115, 101], ignoreShort := false
      ignoreLong := false, parser := none, valuePtr := none, value := .flag false },
    { name := 110, longoption := [110, 117, 109], ignoreShort := false, ignoreLong := false
      parser := some fun word => .ok word.chars, valuePtr := some 64, value := .parsed [] }],
    fun _ => .parsed [])

theorem sampleOptions_distinguished : Distinguished cLocale (declarations sampleOptions) where
  short := by decide
  shortChar := by simp [declarations, sampleOptions, dash]
  long := by decide
  longChar := by simp [declarations, sampleOptions, dash, cLocale]
  targets := by decide

theorem sampleOptions_unshadowed (k : Nat) : ¬ Shadowed (declarations sampleOptions) k := by
  rintro ⟨option, hoption, j, hj, other, hother, _, hprefix, _⟩
  obtain ⟨hk, rfl⟩ := List.getElem?_eq_some_iff.mp hoption
  have hlength : (declarations sampleOptions).length = 2 := rfl
  obtain ⟨rfl, rfl⟩ : j = 0 ∧ k = 1 := by omega
  cases hother
  have hdiffer : ¬ (([118, 101, 114, 98, 111, 115, 101] : List UInt8) <+: [110, 117, 109] ∨
      ([110, 117, 109] : List UInt8) <+: [118, 101, 114, 98, 111, 115, 101]) := by
    decide
  exact hdiffer hprefix

/-- `-v --num -5 -n 7 -- x` -/
theorem last_value_kept :
    ∃ final, parse cLocale sampleOptions [⟨[112], by decide⟩, ⟨[45, 118], by decide⟩,
        ⟨[45, 45, 110, 117, 109], by decide⟩, ⟨[45, 53], by decide⟩, ⟨[45, 110], by decide⟩,
        ⟨[55], by decide⟩, ⟨[45, 45], by decide⟩, ⟨[120], by decide⟩] = (final, .ok 7) ∧
      final.1.map Opt.value = [.flag true, .parsed [55]] ∧ final.2 64 = .parsed [55] := by
  obtain ⟨final, hparse, hlength, hfinal, _⟩ := (parse_inverts_rendering cLocale sampleOptions
    ⟨[112], by decide⟩ [(0, .flag true), (1, .parsed [45, 53]), (1, .parsed [55])]
    [[⟨[45, 118], by decide⟩], [⟨[45, 45, 110, 117, 109], by decide⟩, ⟨[45, 53], by decide⟩],
      [⟨[45, 110], by decide⟩, ⟨[55], by decide⟩]] sampleOptions_distinguished
    (.cons ⟨.flag rfl rfl (.inl ⟨rfl, rfl⟩), fun _ => sampleOptions_unshadowed 0⟩
      (.cons ⟨.valued rfl rfl (.inr ⟨rfl, rfl⟩) rfl, fun _ => sampleOptions_unshadowed 1⟩
        (.cons ⟨.valued rfl rfl (.inl ⟨rfl, rfl⟩) rfl, fun _ => sampleOptions_unshadowed 1⟩
          .nil)))).1 [⟨[45, 45], by decide⟩, ⟨[120], by decide⟩] 1 (.dashes rfl)
  obtain ⟨chain, targets⟩ := final
  obtain ⟨verbose, num, rfl⟩ := List.length_eq_two.mp hlength
  have hverbose := Option.some.inj (hfinal 0 _ rfl).1
  have hnum := Option.some.inj (hfinal 1 _ rfl).1
  refine ⟨_, hparse, ?_, (hfinal 1 _ rfl).2 64 rfl⟩
  simp only [List.map_cons, List.map_nil]
  rw [hverbose, hnum]
  rfl

/-- Two `bool` options `-x` and `-y`; the long name of the second is `a`. -/
def shadowing (name : List UInt8) (hfits : name.length < BasicString.ptrdiffMax) : Options Unit :=
  ([{ name := 120, longoption := name, ignoreShort := false, ignoreLong := false, parser := none
      valuePtr := none, value := .flag false, fits := hfits },
    { name := 121, longoption := [97], ignoreShort := false, ignoreLong := false
      parser := none, valuePtr := none, value := .flag false }], fun _ => .flag false)

theorem parse_shadowing {name : List UInt8} (hfits : name.length < BasicString.ptrdiffMax)
    (halike : Alike name [97]) :
    parse cLocale (shadowing name hfits) [⟨[112], by decide⟩, ⟨[45, 45, 97], by decide⟩] =
      (mention (shadowing name hfits) (0, .flag true), .ok 2) := by
  have hsame : differs name [97] = false :=
    (differs_eq_false_iff (hfits.trans (by decide)) (by decide)).mpr halike
  have hbranch : branch cLocale ⟨[45, 45, 97], by decide⟩ = .ok .long :=
    branch_long rfl (by decide)
  have hlong : ∀ args, parseLong args 1 ⟨[45, 45, 97], by decide⟩ (shadowing name hfits) =
      (mention (shadowing name hfits) (0, .flag true), .ok 1) := by
    intro args
    have harg : ([45, 45, 97] : List UInt8).dropWhile (fun char => char == dash) = [97] := by
      decide
    simp only [parseLong, harg]
    simp [shadowing, dispatch, hsame, parseImpl, mention, Opt.setValue]
  simp [parse, parseLoop, hbranch, hlong]

theorem long_fits : (List.replicate (2 ^ 32 + 1) (97 : UInt8)).length < BasicString.ptrdiffMax := by
  rw [List.length_replicate]
  decide

/-- All names are different, but `--a` sets the other option. -/
theorem long_name_shadows :
    ((declarations (shadowing _ long_fits)).map Declaration.name).Nodup ∧
      ((declarations (shadowing _ long_fits)).map Declaration.longoption).Nodup ∧
      Spells (declarations (shadowing _ long_fits)) (1, .flag true)
        [⟨[45, 45, 97], by decide⟩] ∧
      ∃ final, parse cLocale (shadowing _ long_fits)
          [⟨[112], by decide⟩, ⟨[45, 45, 97], by decide⟩] = (final, .ok 2) ∧
        final.1.map Opt.value = [.flag true, .flag false] := by
  have halike : Alike (List.replicate (2 ^ 32 + 1) 97) [97] := by
    refine ⟨.inr ?_, ?_⟩
    · rw [List.replicate_succ]
      exact List.cons_prefix_cons.mpr ⟨rfl, List.nil_prefix⟩
    · rw [List.length_replicate]
      decide
  refine ⟨by decide, ?_, .flag rfl rfl (.inr ⟨rfl, rfl⟩), _, parse_shadowing long_fits halike, rfl⟩
  change [List.replicate (2 ^ 32 + 1) 97, [97]].Nodup
  rw [List.nodup_cons, List.mem_singleton]
  refine ⟨?_, List.nodup_singleton _⟩
  intro heq
  have hlength := congrArg List.length heq
  rw [List.length_replicate] at hlength
  contradiction

end Crossbow.ProgramOptions
