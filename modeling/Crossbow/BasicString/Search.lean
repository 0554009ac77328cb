import Crossbow.BasicString.Objects
import Crossbow.Kernel.Scan

/-! The members that search in a string. They see its characters through `peek`
alone, so that a run with a `peek` that knows only the characters in front of
`end()` is a run that reads nothing else. -/
namespace Crossbow.BasicString
open Kernel

/-- The comparing loop of `find` and `rfind`, which stops at the first difference. -/
def matchesAt (peek : Nat → Option UInt8) (index : Nat) : List UInt8 → Option Bool
  | [] => some true
  | ch :: rest => do
      let other ← peek index
      if ch = other then matchesAt peek (index + 1) rest else some false

def orNpos (found : Option Nat) : Nat := found.getD npos

/-- The loop runs until `_begin + count` is equal to `_end`. -/
def find (peek : Nat → Option UInt8) (size : Nat) (s : List UInt8) (pos : Nat) : Option Nat :=
  if pos ≥ size then some npos
  else (scanUp (matchesAt peek · s) pos (wrapSub size (wrap (pos + s.length)))).map orNpos

def rfind (peek : Nat → Option UInt8) (size : Nat) (s : List UInt8) (pos : Nat) : Option Nat :=
  let pos := if pos ≥ size then size else pos
  if s.length > size then some npos
  else (scanDown (matchesAt peek · s) (pos + 1)).map orNpos

/-- The loop from `end() - 1 - (pos >= size() ? 0 : pos)` down to `begin()`. -/
def findLast (wanted : UInt8 → Bool) (peek : Nat → Option UInt8) (size pos : Nat) : Option Nat :=
  (scanDown (fun index => (peek index).map wanted) (size - if pos ≥ size then 0 else pos)).map
    orNpos

def findLastOf (peek : Nat → Option UInt8) (size : Nat) (s : List UInt8) (pos : Nat) :
    Option Nat :=
  findLast (s.contains ·) peek size pos

def findLastNotOf (peek : Nat → Option UInt8) (size : Nat) (s : List UInt8) (pos : Nat) :
    Option Nat :=
  findLast (fun ch => !s.contains ch) peek size pos

/-! ### What a search should answer -/

def occurrences (list s : List UInt8) : Set Nat :=
  {index | index + s.length ≤ list.length ∧ (list.drop index).take s.length = s}

instance (list s : List UInt8) (index : Nat) : Decidable (index ∈ occurrences list s) :=
  inferInstanceAs
    (Decidable (index + s.length ≤ list.length ∧ (list.drop index).take s.length = s))

def Answers (extremal : Set Nat → Nat → Prop) (places : Set Nat) (value : Nat) : Prop :=
  extremal places value ∨ places = ∅ ∧ value = npos

theorem answers_orNpos {extremal : Set Nat → Nat → Prop} {places : Set Nat} {result : Option Nat}
    (hmem : ∀ place, extremal places place → place ∈ places)
    (hplaces : ∀ place ∈ places, place < npos) (hresult : ∀ found ∈ result, found < npos) :
    Answers extremal places (orNpos result) ↔ Best extremal places result := by
  cases result with
  | none =>
      constructor
      · rintro (hnpos | hempty)
        · exact absurd (hplaces npos (hmem npos hnpos)) (Nat.lt_irrefl npos)
        · exact hempty.1
      · exact fun hempty => Or.inr ⟨hempty, rfl⟩
  | some found =>
      have hsmall := hresult found rfl
      constructor
      · rintro (hbest | ⟨_, hnpos⟩)
        · exact hbest
        · exact absurd hnpos (Nat.ne_of_lt hsmall)
      · exact Or.inl

section Matching

variable {list : List UInt8} {reader : Nat → Option UInt8}
  (hreader : ∀ index < list.length, reader index = list[index]?)
include hreader

theorem matchesAt_text {s : List UInt8} {index : Nat} (hend : index + s.length ≤ list.length) :
    matchesAt reader index s = some (decide ((list.drop index).take s.length = s)) := by
  induction s generalizing index with
  | nil => simp [matchesAt]
  | cons ch rest ih =>
      rw [List.length_cons] at hend
      have hindex : index < list.length := by omega
      unfold matchesAt
      rw [hreader index hindex, List.getElem?_eq_getElem hindex, List.drop_eq_getElem_cons hindex,
        List.length_cons, List.take_succ_cons]
      simp only [Option.bind_eq_bind, Option.bind_some, List.cons.injEq]
      by_cases hsame : ch = list[index]
      · rw [if_pos hsame, ih (by omega)]
        simp [hsame]
      · rw [if_neg hsame]
        simp [Ne.symm hsame]

end Matching

variable {s : List UInt8}

theorem matchesAt_readable {reader : Nat → Option UInt8} {index place : Nat}
    (hmatch : matchesAt reader index s = some true) (hlow : index ≤ place)
    (hhigh : place < index + s.length) : ∃ ch, reader place = some ch := by
  induction s generalizing index with
  | nil => exact absurd hhigh (by simpa using hlow)
  | cons ch rest ih =>
      unfold matchesAt at hmatch
      cases hread : reader index with
      | none => simp [hread] at hmatch
      | some other =>
          by_cases heq : place = index
          · exact ⟨other, heq ▸ hread⟩
          · by_cases hsame : ch = other
            · simp only [hread, Option.bind_eq_bind, Option.bind_some, if_pos hsame] at hmatch
              rw [List.length_cons] at hhigh
              exact ih hmatch (by omega) (by omega)
            · simp [hread, if_neg hsame] at hmatch

variable {arr : Memory} {heap : Heap} {list : List UInt8}

theorem occurrences_lt (hlength : list.length < ptrdiffMax) {place : Nat}
    (hplace : place ∈ occurrences list s) : place < npos := by
  have hend := hplace.1
  simp only [ptrdiffMax, npos, wordRange] at *
  omega

/-! ### `rfind` -/

/-- Behind the last position at which the pattern fits, the loop compares with
the terminator and with what stands behind it. -/
theorem rfind_answers_iff (hvalid : Valid arr heap list) (s : List UInt8) (pos : Nat) :
    (∃ value, rfind (peek arr heap) (getSize arr) s pos = some value ∧
      Answers IsGreatest {index | index ≤ pos ∧ index ∈ occurrences list s} value) ↔
    list.length < s.length ∨
      ∀ index ≤ min pos list.length, list.length < index + s.length →
        matchesAt (peek arr heap) index s = some false := by
  have hmem : ∀ place, IsGreatest {index | index ≤ pos ∧ index ∈ occurrences list s} place →
      place ∈ {index | index ≤ pos ∧ index ∈ occurrences list s} := fun _ hgreatest => hgreatest.1
  have hplaces : ∀ place ∈ {index | index ≤ pos ∧ index ∈ occurrences list s}, place < npos :=
    fun _ hplace => occurrences_lt hvalid.length_lt hplace.2
  have hstart : (if pos ≥ list.length then list.length else pos) = min pos list.length := by
    split <;> omega
  unfold rfind
  rw [hvalid.size, hstart]
  by_cases hlong : s.length > list.length
  · rw [if_pos hlong]
    refine iff_of_true ⟨npos, rfl, Or.inr ⟨?_, rfl⟩⟩ (Or.inl hlong)
    exact Set.eq_empty_iff_forall_notMem.mpr fun place hplace => by have := hplace.2.1; omega
  rw [if_neg hlong]
  have hfits := hvalid.length_lt
  have hresult : ∀ {result}, scanDown (matchesAt (peek arr heap) · s) (min pos list.length + 1) =
      some result → ∀ found ∈ result, found < npos := by
    intro result hscan found hfound
    have := ((scanDown_sound hscan).1 found hfound).1
    simp only [ptrdiffMax, npos, wordRange] at *
    omega
  constructor
  · rintro ⟨value, hfind, hanswers⟩
    refine Or.inr fun index hindex hbehind => ?_
    obtain ⟨result, hscan, rfl⟩ := Option.map_eq_some_iff.mp hfind
    rw [answers_orNpos hmem hplaces (hresult hscan)] at hanswers
    refine (scanDown_sound hscan).2 index (by omega) fun found hfound => ?_
    obtain rfl : result = some found := hfound
    have hend : found + s.length ≤ list.length := hanswers.1.2.1
    omega
  · rintro (hshort | hbehind)
    · exact absurd hshort hlong
    have htest : ∀ place < min pos list.length + 1, matchesAt (peek arr heap) place s =
        some (decide (place ∈ occurrences list s)) := by
      intro place hplace
      by_cases hend : place + s.length ≤ list.length
      · rw [matchesAt_text (fun index => hvalid.peek_text) hend]
        simp [occurrences, hend]
      · rw [hbehind place (by omega) (by omega)]
        simp [occurrences, hend]
    obtain ⟨result, hscan, hbest⟩ := scanDown_best htest
    refine ⟨orNpos result, by rw [hscan]; rfl, ?_⟩
    rw [answers_orNpos hmem hplaces (hresult hscan)]
    have hsame : {index | index ≤ pos ∧ index ∈ occurrences list s} =
        {index | index < min pos list.length + 1 ∧ index ∈ occurrences list s} := by
      ext index
      refine and_congr_left fun hoccurs => ?_
      have := hoccurs.1
      omega
    rwa [hsame]

/-- In "abcb" the last "b" stands at 3. -/
theorem rfind_answers_abcb :
    Valid (inlineArr zeroArr [97, 98, 99, 98]) (fun _ => none) [97, 98, 99, 98] ∧
      ∃ value, rfind (peek (inlineArr zeroArr [97, 98, 99, 98]) fun _ => none)
          (getSize (inlineArr zeroArr [97, 98, 99, 98])) [98] npos = some value ∧
        Answers IsGreatest
          {index | index ≤ npos ∧ index ∈ occurrences [97, 98, 99, 98] [98]} value := by
  have hvalid := valid_inlineArr zeroArr (fun _ => none)
    (show [97, 98, 99, 98].length ≤ maxInBufferSize by decide)
  refine ⟨hvalid, (rfind_answers_iff hvalid [98] npos).mpr (Or.inr fun index hlow hhigh => ?_)⟩
  have hfour : index ≤ 4 := Nat.le_trans hlow (by decide)
  have hfit : 4 < index + 1 := hhigh
  obtain rfl : index = 4 := by omega
  decide +kernel

/-- "b" and a NUL are found in "ab" at 1, where the NUL is the terminator. -/
theorem rfind_matches_terminator :
    Valid (inlineArr zeroArr [97, 98]) (fun _ => none) [97, 98] ∧
      ¬ ∃ value, rfind (peek (inlineArr zeroArr [97, 98]) fun _ => none)
          (getSize (inlineArr zeroArr [97, 98])) [98, 0] npos = some value ∧
        Answers IsGreatest {index | index ≤ npos ∧ index ∈ occurrences [97, 98] [98, 0]} value := by
  have hrun : rfind (peek (inlineArr zeroArr [97, 98]) fun _ => none)
      (getSize (inlineArr zeroArr [97, 98])) [98, 0] npos = some 1 := by decide +kernel
  refine ⟨valid_inlineArr zeroArr _ (by decide), ?_⟩
  rintro ⟨value, hvalue, hanswers⟩
  obtain rfl : 1 = value := Option.some.inj (hrun.symm.trans hvalue)
  rcases hanswers with hgreatest | ⟨_, hnpos⟩
  · exact absurd hgreatest.1.2.1 (by decide)
  · exact absurd hnpos (by decide)

/-! ### `find` -/

theorem find_text_undefined {pos : Nat} (hlength : list.length < wordRange)
    (hcount : s.length < wordRange) (hpos : pos < list.length)
    (hlong : list.length < pos + s.length) :
    find (fun index => list[index]?) list.length s pos = none := by
  have hiterations : wrapSub list.length (wrap (pos + s.length)) =
      wordRange + list.length - (pos + s.length) := by
    unfold wrapSub wrap
    by_cases hwraps : pos + s.length < wordRange
    · rw [Nat.mod_eq_of_lt hwraps, Nat.mod_eq_of_lt (by omega)]
      omega
    · have hdiff : (pos + s.length) % wordRange = pos + s.length - wordRange := by
        rw [Nat.mod_eq_sub_mod (by omega), Nat.mod_eq_of_lt (by omega)]
      rw [hdiff, Nat.mod_eq_sub_mod (by omega), Nat.mod_eq_of_lt (by omega)]
      omega
  have houtside : list[list.length]? = none := List.getElem?_eq_none (Nat.le_refl _)
  unfold find
  rw [if_neg (by omega), hiterations]
  rw [scanUp_undefined (Nat.le_of_lt hpos) (by omega)]
  · rfl
  · cases s with
    | nil => exact absurd hlong (by simp; omega)
    | cons ch rest =>
        unfold matchesAt
        simp
  · intro place hlow hhigh hmatch
    obtain ⟨ch, hread⟩ := matchesAt_readable hmatch (Nat.le_of_lt hhigh) (by omega)
    rw [houtside] at hread
    contradiction

theorem find_text {reader : Nat → Option UInt8} {pos : Nat}
    (hreader : ∀ index < list.length, reader index = list[index]?)
    (hlength : list.length < wordRange) (hpos : pos < list.length)
    (hend : pos + s.length ≤ list.length) :
    ∃ result, find reader list.length s pos = some (orNpos result) ∧
      Best IsLeast {index | pos ≤ index ∧ index < list.length - s.length ∧
        index ∈ occurrences list s} result := by
  have htest : ∀ place, pos ≤ place → place < pos + (list.length - (pos + s.length)) →
      matchesAt reader place s = some (decide (place ∈ occurrences list s)) := by
    intro place _ hhigh
    rw [matchesAt_text hreader (by omega)]
    simp [occurrences, show place + s.length ≤ list.length by omega]
  obtain ⟨result, hscan, hbest⟩ := scanUp_best htest
  refine ⟨result, ?_, ?_⟩
  · unfold find
    rw [if_neg (by omega), wrap_of_lt (by omega), wrapSub_of_le hend hlength, hscan]
    rfl
  · rwa [show pos + (list.length - (pos + s.length)) = list.length - s.length by omega] at hbest

theorem find_congr {reader other : Nat → Option UInt8} {pos : Nat}
    (hreader : ∀ index < list.length, reader index = list[index]?)
    (hother : ∀ index < list.length, other index = list[index]?) (hlength : list.length < wordRange)
    (hend : pos + s.length ≤ list.length) :
    find reader list.length s pos = find other list.length s pos := by
  unfold find
  split
  · rfl
  · rw [wrap_of_lt (by omega), wrapSub_of_le hend hlength]
    refine congrArg _ (scanUp_congr fun place _ hhigh => ?_)
    rw [matchesAt_text hreader (by omega), matchesAt_text hother (by omega)]

/-- Right where the pattern is looked for at least once, and is not only to be
found at the very end. -/
theorem find_answers_iff (hvalid : Valid arr heap list) {s : List UInt8}
    (hcount : s.length < wordRange) (pos : Nat) :
    (∃ value, find (fun index => list[index]?) (getSize arr) s pos = some value ∧
      find (peek arr heap) (getSize arr) s pos = some value ∧
      Answers IsLeast {index | pos ≤ index ∧ index ∈ occurrences list s} value) ↔
    list.length < pos ∨ (pos = list.length ∧ s ≠ []) ∨
      (pos < list.length ∧ pos + s.length ≤ list.length ∧
        ((∃ index, pos ≤ index ∧ index < list.length - s.length ∧ index ∈ occurrences list s) ∨
          list.length - s.length ∉ occurrences list s)) := by
  have hsmall := hvalid.length_lt
  have hlength : list.length < wordRange := by
    simp only [ptrdiffMax, wordRange] at *
    omega
  have hmem : ∀ place, IsLeast {index | pos ≤ index ∧ index ∈ occurrences list s} place →
      place ∈ {index | pos ≤ index ∧ index ∈ occurrences list s} := fun _ hleast => hleast.1
  have hplaces : ∀ place ∈ {index | pos ≤ index ∧ index ∈ occurrences list s}, place < npos :=
    fun _ hplace => occurrences_lt hsmall hplace.2
  rw [hvalid.size]
  rcases Nat.lt_or_ge pos list.length with hpos | hpos
  · by_cases hend : pos + s.length ≤ list.length
    · obtain ⟨result, hfind, hbest⟩ :=
        find_text (fun index _ => (rfl : list[index]? = list[index]?)) hlength hpos hend
      have hpeek : find (peek arr heap) list.length s pos = some (orNpos result) :=
        (find_congr (fun index => hvalid.peek_text) (fun _ _ => rfl) hlength hend).trans hfind
      have hresult : ∀ found ∈ result, found < npos := by
        rintro found hfound
        obtain rfl : result = some found := hfound
        exact occurrences_lt hsmall hbest.1.2.2
      have hsame : {index | pos ≤ index ∧ index ∈ occurrences list s} = {index | pos ≤ index ∧
          index < list.length - s.length + 1 ∧ index ∈ occurrences list s} := by
        ext index
        constructor
        · rintro ⟨hlow, hoccurs⟩
          have := hoccurs.1
          exact ⟨hlow, by omega, hoccurs⟩
        · rintro ⟨hlow, _, hoccurs⟩
          exact ⟨hlow, hoccurs⟩
      have hiff := best_least_succ_iff (by omega) hbest
      rw [← hsame, ← answers_orNpos hmem hplaces hresult] at hiff
      constructor
      · rintro ⟨value, hvalue, _, hanswers⟩
        obtain rfl : orNpos result = value := Option.some.inj (hfind.symm.trans hvalue)
        exact Or.inr (Or.inr ⟨hpos, hend, hiff.mp hanswers⟩)
      · rintro (hbehind | ⟨hequal, _⟩ | ⟨_, _, hright⟩)
        · omega
        · omega
        · exact ⟨_, hfind, hpeek, hiff.mpr hright⟩
    · rw [find_text_undefined hlength hcount hpos (by omega)]
      refine iff_of_false (fun ⟨_, hnone, _⟩ => nomatch hnone) ?_
      rintro (hbehind | ⟨hequal, _⟩ | ⟨_, hfits, _⟩) <;> omega
  · -- nothing is looked for
    have hnpos : ∀ reader, find reader list.length s pos = some npos := fun reader => if_pos hpos
    simp only [hnpos, Option.some.injEq, exists_eq_left', true_and]
    constructor
    · intro hanswers
      rcases Nat.lt_or_eq_of_le hpos with hbehind | hequal
      · exact Or.inl hbehind
      · refine Or.inr (Or.inl ⟨hequal.symm, ?_⟩)
        rintro rfl
        have hpresent : pos ∈ {index | pos ≤ index ∧ index ∈ occurrences list []} :=
          ⟨Nat.le_refl _, Nat.le_of_eq hequal.symm, by simp⟩
        rcases hanswers with hleast | ⟨hempty, _⟩
        · exact absurd (hplaces npos hleast.1) (Nat.lt_irrefl _)
        · exact (hempty ▸ Set.notMem_empty pos) hpresent
    · intro hcondition
      refine Or.inr ⟨Set.eq_empty_iff_forall_notMem.mpr fun place ⟨hlow, hend, _⟩ => ?_, rfl⟩
      rcases hcondition with hbehind | ⟨hequal, hne⟩ | ⟨hbefore, _⟩
      · omega
      · have := List.length_pos_iff.mpr hne
        omega
      · omega

/-- In "abcbc" the first "bc" stands at 1. -/
theorem find_answers_abcbc :
    Valid (inlineArr zeroArr [97, 98, 99, 98, 99]) (fun _ => none) [97, 98, 99, 98, 99] ∧
      ∃ value, find (fun index => [97, 98, 99, 98, 99][index]?)
          (getSize (inlineArr zeroArr [97, 98, 99, 98, 99])) [98, 99] 0 = some value ∧
        find (peek (inlineArr zeroArr [97, 98, 99, 98, 99]) fun _ => none)
          (getSize (inlineArr zeroArr [97, 98, 99, 98, 99])) [98, 99] 0 = some value ∧
        Answers IsLeast
          {index | 0 ≤ index ∧ index ∈ occurrences [97, 98, 99, 98, 99] [98, 99]} value := by
  have hvalid := valid_inlineArr zeroArr (fun _ => none)
    (show [97, 98, 99, 98, 99].length ≤ maxInBufferSize by decide)
  refine ⟨hvalid, (find_answers_iff hvalid (by decide) 0).mpr ?_⟩
  exact Or.inr (Or.inr ⟨by decide, by decide, Or.inl ⟨1, by decide, by decide, by decide⟩⟩)

/-- The "c" at the end of "abc" is not found. -/
theorem find_misses_end :
    Valid (inlineArr zeroArr [97, 98, 99]) (fun _ => none) [97, 98, 99] ∧
      ¬ ∃ value, find (fun index => [97, 98, 99][index]?)
          (getSize (inlineArr zeroArr [97, 98, 99])) [99] 0 = some value ∧
        find (peek (inlineArr zeroArr [97, 98, 99]) fun _ => none)
          (getSize (inlineArr zeroArr [97, 98, 99])) [99] 0 = some value ∧
        Answers IsLeast {index | 0 ≤ index ∧ index ∈ occurrences [97, 98, 99] [99]} value := by
  have hrun : find (fun index => [97, 98, 99][index]?)
      (getSize (inlineArr zeroArr [97, 98, 99])) [99] 0 = some npos := by decide +kernel
  refine ⟨valid_inlineArr zeroArr _ (by decide), ?_⟩
  rintro ⟨value, hvalue, _, hanswers⟩
  obtain rfl : npos = value := Option.some.inj (hrun.symm.trans hvalue)
  rcases hanswers with hleast | ⟨hempty, _⟩
  · exact absurd hleast.1.2.1 (by decide)
  · have hlast : 2 ∈ {index | 0 ≤ index ∧ index ∈ occurrences [97, 98, 99] [99]} :=
      ⟨Nat.zero_le _, by decide⟩
    exact (hempty ▸ Set.notMem_empty 2) hlast

/-! ### `find_last_of` and `find_last_not_of` -/

theorem findLast_iff (hvalid : Valid arr heap list) (wanted : UInt8 → Bool) (pos : Nat) :
    (∃ value, findLast wanted (peek arr heap) (getSize arr) pos = some value ∧
      Answers IsGreatest {index | index ≤ pos ∧ ∃ ch ∈ list[index]?, wanted ch = true} value) ↔
    list.length ≤ pos ∨
      ∀ index, min pos (list.length - 1 - pos) < index → index ≤ max pos (list.length - 1 - pos) →
        ∀ ch ∈ list[index]?, ¬ wanted ch = true := by
  have hsmall := hvalid.length_lt
  have hinside : ∀ {index}, (∃ ch ∈ list[index]?, wanted ch = true) → index < list.length := by
    rintro index ⟨ch, hch, _⟩
    exact (List.getElem?_eq_some_iff.mp hch).1
  generalize hplaces : {index | index ≤ pos ∧ ∃ ch ∈ list[index]?, wanted ch = true} = places
  have hbound : ∀ place ∈ places, place < npos := by
    intro place hplace
    rw [← hplaces] at hplace
    have := hinside hplace.2
    simp only [ptrdiffMax, npos, wordRange] at *
    omega
  have htest : ∀ place < list.length - (if pos ≥ list.length then 0 else pos),
      (peek arr heap place).map wanted =
        some (decide (∃ ch ∈ list[place]?, wanted ch = true)) := by
    intro place hplace
    have hindex : place < list.length := by omega
    rw [hvalid.peek_text hindex, List.getElem?_eq_getElem hindex]
    simp
  obtain ⟨result, hscan, hbest⟩ := scanDown_best htest
  have hresult : ∀ found ∈ result, found < npos := by
    intro found hfound
    have := ((scanDown_sound hscan).1 found hfound).1
    simp only [ptrdiffMax, npos, wordRange] at *
    omega
  have hrun : findLast wanted (peek arr heap) (getSize arr) pos = some (orNpos result) := by
    unfold findLast
    rw [hvalid.size, hscan]
    rfl
  have hiff := @best_greatest_iff _ _ (pos + 1) _ hbest
  simp only [Nat.lt_succ_iff] at hiff
  rw [hplaces, ← answers_orNpos (fun _ hgreatest => hgreatest.1) hbound hresult] at hiff
  rw [hrun]
  simp only [Option.some.injEq, exists_eq_left', hiff]
  by_cases hpos : list.length ≤ pos
  · refine iff_of_true (fun place hlow _ hplace => ?_) (Or.inl hpos)
    have := hinside hplace
    rw [if_pos hpos] at hlow
    omega
  · rw [if_neg hpos, or_iff_right hpos]
    simp only [not_exists, not_and]
    refine forall_congr' fun place => ?_
    rw [show min (list.length - pos) (pos + 1) ≤ place ↔
        min pos (list.length - 1 - pos) < place by omega,
      show place < max (list.length - pos) (pos + 1) ↔
        place ≤ max pos (list.length - 1 - pos) by omega]

/-- The scan starts `pos` characters in front of the last one instead of at `pos`. -/
theorem findLastOf_answers_iff (hvalid : Valid arr heap list) (s : List UInt8) (pos : Nat) :
    ((∃ value, findLastOf (peek arr heap) (getSize arr) s pos = some value ∧
      Answers IsGreatest {index | index ≤ pos ∧ ∃ ch ∈ list[index]?, ch ∈ s} value) ↔
      list.length ≤ pos ∨
        ∀ index, min pos (list.length - 1 - pos) < index →
          index ≤ max pos (list.length - 1 - pos) → ∀ ch ∈ list[index]?, ch ∉ s) ∧
    ((∃ value, findLastNotOf (peek arr heap) (getSize arr) s pos = some value ∧
      Answers IsGreatest {index | index ≤ pos ∧ ∃ ch ∈ list[index]?, ch ∉ s} value) ↔
      list.length ≤ pos ∨
        ∀ index, min pos (list.length - 1 - pos) < index →
          index ≤ max pos (list.length - 1 - pos) → ∀ ch ∈ list[index]?, ¬ ch ∉ s) := by
  have hof := findLast_iff hvalid (s.contains ·) pos
  have hnot := findLast_iff hvalid (fun ch => !s.contains ch) pos
  simp only [List.contains_iff_mem, Bool.not_eq_true', Bool.eq_false_iff, ne_eq] at hof hnot
  exact ⟨hof, hnot⟩

/-- With the default position the last "a" of "aba" is found. -/
theorem findLastOf_answers_default :
    Valid (inlineArr zeroArr [97, 98, 97]) (fun _ => none) [97, 98, 97] ∧
      ∃ value, findLastOf (peek (inlineArr zeroArr [97, 98, 97]) fun _ => none)
          (getSize (inlineArr zeroArr [97, 98, 97])) [97] npos = some value ∧
        Answers IsGreatest
          {index | index ≤ npos ∧ ∃ ch ∈ [97, 98, 97][index]?, ch ∈ ([97] : List UInt8)} value := by
  have hvalid := valid_inlineArr zeroArr (fun _ => none)
    (show [97, 98, 97].length ≤ maxInBufferSize by decide)
  exact ⟨hvalid, (findLastOf_answers_iff hvalid [97] npos).1.mpr (Or.inl (by decide))⟩

/-- From position 0 the "a" at 2 is found, and so is the character other than "b". -/
theorem findLastOf_behind_position :
    Valid (inlineArr zeroArr [97, 98, 97]) (fun _ => none) [97, 98, 97] ∧
      (¬ ∃ value, findLastOf (peek (inlineArr zeroArr [97, 98, 97]) fun _ => none)
          (getSize (inlineArr zeroArr [97, 98, 97])) [97] 0 = some value ∧
        Answers IsGreatest
          {index | index ≤ 0 ∧ ∃ ch ∈ [97, 98, 97][index]?, ch ∈ ([97] : List UInt8)} value) ∧
      ¬ ∃ value, findLastNotOf (peek (inlineArr zeroArr [97, 98, 97]) fun _ => none)
          (getSize (inlineArr zeroArr [97, 98, 97])) [98] 0 = some value ∧
        Answers IsGreatest
          {index | index ≤ 0 ∧ ∃ ch ∈ [97, 98, 97][index]?, ch ∉ ([98] : List UInt8)} value := by
  have hof : findLastOf (peek (inlineArr zeroArr [97, 98, 97]) fun _ => none)
      (getSize (inlineArr zeroArr [97, 98, 97])) [97] 0 = some 2 := by decide +kernel
  have hnot : findLastNotOf (peek (inlineArr zeroArr [97, 98, 97]) fun _ => none)
      (getSize (inlineArr zeroArr [97, 98, 97])) [98] 0 = some 2 := by decide +kernel
  refine ⟨valid_inlineArr zeroArr _ (by decide), ?_, ?_⟩
  · rintro ⟨value, hvalue, hanswers⟩
    obtain rfl : 2 = value := Option.some.inj (hof.symm.trans hvalue)
    rcases hanswers with hgreatest | ⟨_, hnpos⟩
    · exact absurd hgreatest.1.1 (by decide)
    · exact absurd hnpos (by decide)
  · rintro ⟨value, hvalue, hanswers⟩
    obtain rfl : 2 = value := Option.some.inj (hnot.symm.trans hvalue)
    rcases hanswers with hgreatest | ⟨_, hnpos⟩
    · exact absurd hgreatest.1.1 (by decide)
    · exact absurd hnpos (by decide)

end Crossbow.BasicString
