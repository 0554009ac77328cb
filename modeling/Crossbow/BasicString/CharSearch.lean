import Crossbow.BasicString.Search

/-! The members that look for one character or for any character of a set, from a
position on. The set is read through a function as well, and only as far as the
loop over it goes. -/
namespace Crossbow.BasicString
open Kernel

/-- The inner loop of `find_first_of` and `find_first_not_of`. -/
def inSet (s : Nat → Option UInt8) (count : Nat) (ch : UInt8) : Option Bool :=
  (scanUp (fun i => (s i).map (ch == ·)) 0 count).map Option.isSome

/-- The loop from `begin() + pos` up to `end()`. -/
def findFirst (test : UInt8 → Option Bool) (peek : Nat → Option UInt8) (size pos : Nat) :
    Option Nat :=
  if pos ≥ size then some npos
  else (scanUp (fun index => (peek index).bind test) pos (size - pos)).map orNpos

def findFirstOf (peek : Nat → Option UInt8) (size : Nat) (s : Nat → Option UInt8)
    (pos count : Nat) : Option Nat :=
  findFirst (inSet s count) peek size pos

def findFirstOfString (peek : Nat → Option UInt8) (size : Nat) (str : Nat → Option UInt8)
    (strSize pos : Nat) : Option Nat :=
  findFirstOf peek size str pos strSize

def findFirstOfChar (peek : Nat → Option UInt8) (size : Nat) (ch : UInt8) (pos : Nat) :
    Option Nat :=
  findFirst (fun other => some (other == ch)) peek size pos

def findFirstNotOf (peek : Nat → Option UInt8) (size : Nat) (s : Nat → Option UInt8)
    (pos count : Nat) : Option Nat :=
  findFirst (fun ch => (inSet s count ch).map not) peek size pos

def findFirstNotOfString (peek : Nat → Option UInt8) (size : Nat) (str : Nat → Option UInt8)
    (strSize pos : Nat) : Option Nat :=
  findFirstNotOf peek size str pos strSize

def findFirstNotOfChar (peek : Nat → Option UInt8) (size : Nat) (ch : UInt8) (pos : Nat) :
    Option Nat :=
  findFirst (fun other => some (other != ch)) peek size pos

def traitsFind (peek : Nat → Option UInt8) (start count : Nat) (ch : UInt8) :
    Option (Option Nat) :=
  scanUp (fun index => (peek index).map (· == ch)) start count

def findChar (peek : Nat → Option UInt8) (size : Nat) (ch : UInt8) (pos : Nat) : Option Nat :=
  if pos ≥ size then some npos else (traitsFind peek pos (size - pos) ch).map orNpos

/-! ### Membership -/

theorem inSet_eq {s : Nat → Option UInt8} {set : List UInt8}
    (hset : ∀ i < set.length, s i = set[i]?) (ch : UInt8) :
    inSet s set.length ch = some (decide (ch ∈ set)) := by
  have htest : ∀ place, 0 ≤ place → place < 0 + set.length →
      (s place).map (ch == ·) = some (decide (set[place]? = some ch)) := by
    intro place _ hplace
    have hindex : place < set.length := by omega
    rw [hset place hindex, List.getElem?_eq_getElem hindex]
    by_cases hsame : ch = set[place]
    · simp [hsame]
    · simp [hsame, Ne.symm hsame]
  obtain ⟨result, hscan, hbest⟩ := scanUp_best htest
  unfold inSet
  rw [hscan]
  cases result with
  | none =>
      have habsent : ch ∉ set := by
        intro hmem
        obtain ⟨place, hplace, hch⟩ := List.getElem_of_mem hmem
        exact hbest.notMem place ⟨Nat.zero_le _, by omega, by
          rw [List.getElem?_eq_getElem hplace, hch]⟩
      simp [habsent]
  | some found =>
      have hpresent : ch ∈ set := List.mem_of_getElem? hbest.1.2.2
      simp [hpresent]

theorem inSet_singleton (ch : UInt8) :
    inSet (fun i => [ch][i]?) 1 = fun other => some (other == ch) := by
  funext other
  have hset := @inSet_eq (fun i => [ch][i]?) [ch] (fun _ _ => rfl) other
  rw [List.length_singleton] at hset
  rw [hset, Option.some.injEq]
  by_cases hsame : other = ch <;> simp [hsame]

/-! ### What the members answer -/

variable {arr : Memory} {heap : Heap} {list : List UInt8}

theorem findFirst_answers {peek : Nat → Option UInt8}
    (hpeek : ∀ index < list.length, peek index = list[index]?) (hsmall : list.length < ptrdiffMax)
    (wanted : UInt8 → Prop) [DecidablePred wanted] {test : UInt8 → Option Bool}
    (htest : ∀ ch, test ch = some (decide (wanted ch))) (pos : Nat) :
    ∃ value, findFirst test peek list.length pos = some value ∧
      Answers IsLeast {index | pos ≤ index ∧ ∃ ch ∈ list[index]?, wanted ch} value := by
  have hinside : ∀ {index}, (∃ ch ∈ list[index]?, wanted ch) → index < list.length := by
    rintro index ⟨ch, hch, _⟩
    exact (List.getElem?_eq_some_iff.mp hch).1
  unfold findFirst
  by_cases hpos : pos ≥ list.length
  · rw [if_pos hpos]
    refine ⟨npos, rfl, Or.inr ⟨Set.eq_empty_iff_forall_notMem.mpr fun place hplace => ?_, rfl⟩⟩
    have hlow : pos ≤ place := hplace.1
    have hhigh := hinside hplace.2
    omega
  rw [if_neg hpos]
  have hscanned : ∀ place, pos ≤ place → place < pos + (list.length - pos) →
      (peek place).bind test = some (decide (∃ ch ∈ list[place]?, wanted ch)) := by
    intro place _ hhigh
    have hindex : place < list.length := by omega
    rw [hpeek place hindex, List.getElem?_eq_getElem hindex, Option.bind_some, htest]
    simp
  obtain ⟨result, hscan, hbest⟩ := scanUp_best hscanned
  have hsame : {index | pos ≤ index ∧ ∃ ch ∈ list[index]?, wanted ch} =
      {index | pos ≤ index ∧ index < pos + (list.length - pos) ∧
        ∃ ch ∈ list[index]?, wanted ch} := by
    ext index
    refine and_congr_right fun hlow => ?_
    rw [iff_and_self]
    intro hplace
    have hhigh := hinside hplace
    omega
  refine ⟨orNpos result, by rw [hscan]; rfl, ?_⟩
  rw [hsame]
  refine (answers_orNpos (fun _ hleast => hleast.1) (fun place hplace => ?_) ?_).mpr hbest
  · have hhigh : place < pos + (list.length - pos) := hplace.2.1
    simp only [ptrdiffMax, npos, wordRange] at *
    omega
  · rintro found hfound
    obtain rfl : result = some found := hfound
    have hhigh : found < pos + (list.length - pos) := hbest.1.2.1
    simp only [ptrdiffMax, npos, wordRange] at *
    omega

theorem findChar_eq (peek : Nat → Option UInt8) (size : Nat) (ch : UInt8) (pos : Nat) :
    findChar peek size ch pos = findFirstOfChar peek size ch pos := by
  unfold findChar findFirstOfChar findFirst traitsFind
  simp only [Option.map_eq_bind, Function.comp_def]

section Members

variable (hvalid : Valid arr heap list)
include hvalid

theorem Valid.findFirst_answers (wanted : UInt8 → Prop) [DecidablePred wanted]
    {test : UInt8 → Option Bool} (htest : ∀ ch, test ch = some (decide (wanted ch))) (pos : Nat) :
    ∃ value, findFirst test (peek arr heap) (getSize arr) pos = some value ∧
      Answers IsLeast {index | pos ≤ index ∧ ∃ ch ∈ list[index]?, wanted ch} value := by
  rw [hvalid.size]
  exact BasicString.findFirst_answers (fun _ => hvalid.peek_text) hvalid.length_lt wanted htest pos

theorem findFirstOf_answers {s : Nat → Option UInt8} {set : List UInt8}
    (hset : ∀ i < set.length, s i = set[i]?) (pos : Nat) :
    ∃ value, findFirstOf (peek arr heap) (getSize arr) s pos set.length = some value ∧
      Answers IsLeast {index | pos ≤ index ∧ ∃ ch ∈ list[index]?, ch ∈ set} value :=
  hvalid.findFirst_answers (· ∈ set) (inSet_eq hset) pos

theorem findFirstNotOf_answers {s : Nat → Option UInt8} {set : List UInt8}
    (hset : ∀ i < set.length, s i = set[i]?) (pos : Nat) :
    ∃ value, findFirstNotOf (peek arr heap) (getSize arr) s pos set.length = some value ∧
      Answers IsLeast {index | pos ≤ index ∧ ∃ ch ∈ list[index]?, ch ∉ set} value := by
  refine hvalid.findFirst_answers (· ∉ set) (fun ch => ?_) pos
  rw [inSet_eq hset ch, Option.map_some, decide_not]

end Members

/-- All forms of the three members, for every position and every set. -/
theorem forward_search_answers (hvalid : Valid arr heap list) {otherArr : Memory}
    {str : List UInt8} (hstr : Valid otherArr heap str) (s : List UInt8) (ch : UInt8) (pos : Nat) :
    (∃ value, findFirstOf (peek arr heap) (getSize arr) (fun i => s[i]?) pos s.length =
        some value ∧
      Answers IsLeast {index | pos ≤ index ∧ ∃ other ∈ list[index]?, other ∈ s} value) ∧
    (∃ value, findFirstNotOf (peek arr heap) (getSize arr) (fun i => s[i]?) pos s.length =
        some value ∧
      Answers IsLeast {index | pos ≤ index ∧ ∃ other ∈ list[index]?, other ∉ s} value) ∧
    (∃ value, findFirstOfString (peek arr heap) (getSize arr) (peek otherArr heap)
        (getSize otherArr) pos = some value ∧
      Answers IsLeast {index | pos ≤ index ∧ ∃ other ∈ list[index]?, other ∈ str} value) ∧
    (∃ value, findFirstNotOfString (peek arr heap) (getSize arr) (peek otherArr heap)
        (getSize otherArr) pos = some value ∧
      Answers IsLeast {index | pos ≤ index ∧ ∃ other ∈ list[index]?, other ∉ str} value) ∧
    (∃ value, findFirstOfChar (peek arr heap) (getSize arr) ch pos = some value ∧
      findChar (peek arr heap) (getSize arr) ch pos = some value ∧
      findFirstOf (peek arr heap) (getSize arr) (fun i => [ch][i]?) pos 1 = some value ∧
      Answers IsLeast {index | pos ≤ index ∧ ∃ other ∈ list[index]?, other = ch} value) ∧
    ∃ value, findFirstNotOfChar (peek arr heap) (getSize arr) ch pos = some value ∧
      findFirstNotOf (peek arr heap) (getSize arr) (fun i => [ch][i]?) pos 1 = some value ∧
      Answers IsLeast {index | pos ≤ index ∧ ∃ other ∈ list[index]?, other ≠ ch} value := by
  refine ⟨findFirstOf_answers hvalid (fun _ _ => rfl) pos,
    findFirstNotOf_answers hvalid (fun _ _ => rfl) pos, ?_, ?_, ?_, ?_⟩
  · have hof := findFirstOf_answers hvalid (fun _ => hstr.peek_text) pos
    rwa [← hstr.size] at hof
  · have hnot := findFirstNotOf_answers hvalid (fun _ => hstr.peek_text) pos
    rwa [← hstr.size] at hnot
  · obtain ⟨value, hvalue, hanswers⟩ := hvalid.findFirst_answers (· = ch)
      (fun other => congrArg some (beq_eq_decide other ch)) pos
    refine ⟨value, hvalue, (findChar_eq ..).trans hvalue, ?_, hanswers⟩
    unfold findFirstOf
    rwa [inSet_singleton]
  · obtain ⟨value, hvalue, hanswers⟩ := hvalid.findFirst_answers (· ≠ ch)
      (fun other => by rw [decide_not, ← beq_eq_decide]) pos
    refine ⟨value, hvalue, ?_, hanswers⟩
    unfold findFirstNotOf
    rw [inSet_singleton]
    exact hvalue

/-- From 1 on, the first 'a' or 'c' of "abca" stands at 2 and the first character
other than 'b' as well; with a NUL inside, what stands behind it is found. -/
theorem forward_search_abca :
    Valid (inlineArr zeroArr [97, 98, 99, 97]) (fun _ => none) [97, 98, 99, 97] ∧
      (∃ value, findFirstOf (peek (inlineArr zeroArr [97, 98, 99, 97]) fun _ => none)
          (getSize (inlineArr zeroArr [97, 98, 99, 97])) (fun i => [97, 99][i]?) 1 2 = some value ∧
        Answers IsLeast {index | 1 ≤ index ∧
          ∃ other ∈ [97, 98, 99, 97][index]?, other ∈ ([97, 99] : List UInt8)} value) ∧
      findFirstOf (peek (inlineArr zeroArr [97, 98, 99, 97]) fun _ => none)
        (getSize (inlineArr zeroArr [97, 98, 99, 97])) (fun i => [97, 99][i]?) 1 2 = some 2 ∧
      findFirstNotOfChar (peek (inlineArr zeroArr [97, 98, 99, 97]) fun _ => none)
        (getSize (inlineArr zeroArr [97, 98, 99, 97])) 98 1 = some 2 ∧
      findChar (peek (inlineArr zeroArr [97, 0, 98]) fun _ => none)
        (getSize (inlineArr zeroArr [97, 0, 98])) 98 0 = some 2 := by
  have hvalid := valid_inlineArr zeroArr (fun _ => none)
    (show [97, 98, 99, 97].length ≤ maxInBufferSize by decide)
  exact ⟨hvalid, (forward_search_answers hvalid hvalid [97, 99] 98 1).1, by decide +kernel,
    by decide +kernel, by decide +kernel⟩

end Crossbow.BasicString
