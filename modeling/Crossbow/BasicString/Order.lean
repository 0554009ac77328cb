import Mathlib.Data.List.Lex
import Mathlib.Order.RelClasses
import Crossbow.BasicString.Calls
import Crossbow.BasicString.Compare

/-! The comparison operators and `hash_value`. Each operator tests the sign of one
comparison of whole strings; with a `CharT*` on the left the string is on the
other side of it. -/
namespace Crossbow.BasicString
open Kernel

/-- Traits that put the characters in a strict total order. -/
structure OrderedTraits extends CharTraits where
  order : IsStrictTotalOrder UInt8 fun left right => lt left right = true

def OrderedTraits.Before (traits : OrderedTraits) : List UInt8 → List UInt8 → Prop :=
  List.Lex fun left right => traits.lt left right = true

def compareString (traits : CharTraits) (heap : Heap) (arr str : Memory) :
    Option (Except Exn Int) :=
  compareChars traits (peek arr heap) (getSize arr) 0 npos (peek str heap) (getSize str)

def compareCString (traits : CharTraits) (heap : Heap) (arr : Memory) (s : List UInt8) :
    Option (Except Exn Int) :=
  compareChars traits (peek arr heap) (getSize arr) 0 npos (fun index => s[index]?) (cText s).length

def testing (run : Option (Except Exn Int)) (test : Int → Bool) : Option (Except Exn Bool) :=
  run.map (Except.map test)

section Operators

variable (traits : CharTraits) (heap : Heap)

def operatorEqual (lhs rhs : Memory) := testing (compareString traits heap lhs rhs) (· == 0)

def operatorNotEqual (lhs rhs : Memory) := testing (compareString traits heap lhs rhs) (· != 0)

def operatorLess (lhs rhs : Memory) := testing (compareString traits heap lhs rhs) (· < 0)

def operatorLessEqual (lhs rhs : Memory) := testing (compareString traits heap lhs rhs) (· ≤ 0)

def operatorGreater (lhs rhs : Memory) := testing (compareString traits heap lhs rhs) (· > 0)

def operatorGreaterEqual (lhs rhs : Memory) := testing (compareString traits heap lhs rhs) (· ≥ 0)

def operatorEqualCString (lhs : Memory) (rhs : List UInt8) :=
  testing (compareCString traits heap lhs rhs) (· == 0)

def operatorNotEqualCString (lhs : Memory) (rhs : List UInt8) :=
  testing (compareCString traits heap lhs rhs) (· != 0)

def operatorLessCString (lhs : Memory) (rhs : List UInt8) :=
  testing (compareCString traits heap lhs rhs) (· < 0)

def operatorLessEqualCString (lhs : Memory) (rhs : List UInt8) :=
  testing (compareCString traits heap lhs rhs) (· ≤ 0)

def operatorGreaterCString (lhs : Memory) (rhs : List UInt8) :=
  testing (compareCString traits heap lhs rhs) (· > 0)

def operatorGreaterEqualCString (lhs : Memory) (rhs : List UInt8) :=
  testing (compareCString traits heap lhs rhs) (· ≥ 0)

def cStringOperatorEqual (lhs : List UInt8) (rhs : Memory) :=
  testing (compareCString traits heap rhs lhs) (· == 0)

def cStringOperatorNotEqual (lhs : List UInt8) (rhs : Memory) :=
  testing (compareCString traits heap rhs lhs) (· != 0)

def cStringOperatorLess (lhs : List UInt8) (rhs : Memory) :=
  testing (compareCString traits heap rhs lhs) (· > 0)

def cStringOperatorLessEqual (lhs : List UInt8) (rhs : Memory) :=
  testing (compareCString traits heap rhs lhs) (· ≥ 0)

def cStringOperatorGreater (lhs : List UInt8) (rhs : Memory) :=
  testing (compareCString traits heap rhs lhs) (· < 0)

def cStringOperatorGreaterEqual (lhs : List UInt8) (rhs : Memory) :=
  testing (compareCString traits heap rhs lhs) (· ≤ 0)

end Operators

def fnvOffsetBasis : UInt64 := 14695981039346656037

/-- One character; `size_t(*i)` extends the sign of a `char`. -/
def hashStep (hash : UInt64) (ch : UInt8) : UInt64 :=
  hash * fnvOffsetBasis ^^^ ch.toInt8.toInt64.toUInt64

def hashLoop (peek : Nat → Option UInt8) (hash : UInt64) (i : Nat) : Nat → Option UInt64
  | 0 => some hash
  | count + 1 => do
      let ch ← peek i
      hashLoop peek (hashStep hash ch) (i + 1) count

def hashValue (heap : Heap) (str : Memory) : Option UInt64 :=
  hashLoop (peek str heap) fnvOffsetBasis 0 (getSize str)

/-! ### The sign and the order -/

section Sign

variable {traits : OrderedTraits}

theorem OrderedTraits.lexSign_cases (traits : OrderedTraits) (left right : List UInt8) :
    (lexSign traits.lt left right = -1 ∧ traits.Before left right) ∨
      (lexSign traits.lt left right = 0 ∧ left = right) ∨
      (lexSign traits.lt left right = 1 ∧ traits.Before right left) := by
  have := traits.order
  induction left generalizing right with
  | nil =>
      cases right with
      | nil => exact Or.inr (Or.inl ⟨rfl, rfl⟩)
      | cons other others => exact Or.inl ⟨rfl, .nil⟩
  | cons ch rest ih =>
      cases right with
      | nil => exact Or.inr (Or.inr ⟨rfl, .nil⟩)
      | cons other others =>
          unfold lexSign
          by_cases hless : traits.lt ch other = true
          · rw [if_pos hless]
            exact Or.inl ⟨rfl, .rel hless⟩
          rw [if_neg hless]
          by_cases hgreater : traits.lt other ch = true
          · rw [if_pos hgreater]
            exact Or.inr (Or.inr ⟨rfl, .rel hgreater⟩)
          rw [if_neg hgreater]
          obtain rfl : ch = other := traits.order.trichotomous ch other hless hgreater
          rcases ih others with ⟨hsign, hlex⟩ | ⟨hsign, rfl⟩ | ⟨hsign, hlex⟩
          · exact Or.inl ⟨hsign, .cons hlex⟩
          · exact Or.inr (Or.inl ⟨hsign, rfl⟩)
          · exact Or.inr (Or.inr ⟨hsign, .cons hlex⟩)

theorem OrderedTraits.before_order (traits : OrderedTraits) :
    IsStrictTotalOrder (List UInt8) traits.Before := by
  have := traits.order
  have hweak : IsStrictWeakOrder (List UInt8) traits.Before :=
    isStrictWeakOrder_of_isOrderConnected
      (r := List.Lex fun left right => traits.lt left right = true)
  exact { List.Lex.trichotomous (fun left right => traits.lt left right = true), hweak with }

theorem OrderedTraits.lexSign_iff (traits : OrderedTraits) (left right : List UInt8) :
    (lexSign traits.lt left right = 0 ↔ left = right) ∧
      (lexSign traits.lt left right < 0 ↔ traits.Before left right) ∧
      (0 < lexSign traits.lt left right ↔ traits.Before right left) := by
  have := traits.before_order
  rcases traits.lexSign_cases left right with ⟨hsign, hless⟩ | ⟨hsign, rfl⟩ | ⟨hsign, hgreater⟩
  · exact ⟨iff_of_false (by omega) (ne_of_irrefl hless), iff_of_true (by omega) hless,
      iff_of_false (by omega) (asymm hless)⟩
  · exact ⟨iff_of_true hsign rfl, iff_of_false (by omega) (irrefl left),
      iff_of_false (by omega) (irrefl left)⟩
  · exact ⟨iff_of_false (by omega) (ne_of_irrefl' hgreater),
      iff_of_false (by omega) (asymm hgreater), iff_of_true (by omega) hgreater⟩

theorem OrderedTraits.lexSign_zero (traits : OrderedTraits) (left right : List UInt8) :
    lexSign traits.lt left right = 0 ↔ left = right :=
  (traits.lexSign_iff left right).1

/-! ### Whole strings -/

variable {arr : Memory} {heap : Heap} {list : List UInt8}

/-- What `compare` makes of two whole texts: their common part decides, and after it
the difference of the lengths as an `int`. -/
theorem compare_texts (traits : CharTraits) {first second : Nat → Option UInt8}
    {left right : List UInt8} (hfirst : ∀ offset < left.length, first offset = left[offset]?)
    (hsecond : ∀ offset < right.length, second offset = right[offset]?)
    (hleft : left.length < wordRange) (hright : right.length < wordRange) :
    ∃ value, compareChars traits first left.length 0 npos second right.length =
        some (.ok value) ∧
      value.sign = if lexSign traits.lt (left.take (min left.length right.length))
          (right.take (min left.length right.length)) = 0 then
        (Int.bmod ((left.length : Int) - right.length) (2 ^ 32)).sign
      else lexSign traits.lt (left.take (min left.length right.length))
        (right.take (min left.length right.length)) := by
  have hclamp : clamp left.length 0 npos = left.length := by
    rw [clamp_of_lt (Nat.zero_le _) (by decide), List.drop_zero, List.length_take]
    simp only [npos]
    omega
  have hlefts := @readFrom_text first 0 (min left.length right.length) left (by simpa using hfirst)
    (Nat.min_le_left ..)
  have hrights := @readFrom_text second 0 (min left.length right.length) right
    (by simpa using hsecond) (Nat.min_le_right ..)
  have hsign := @sign_compared traits (left.take (min left.length right.length))
    (right.take (min left.length right.length)) (by simp only [List.length_take]; omega)
    left.length right.length (min left.length right.length)
  rw [List.take_take, List.take_take, Nat.min_self, List.drop_of_length_le (List.length_take_le ..),
    List.drop_of_length_le (List.length_take_le ..), tieBreak, lexSign, if_pos rfl,
    narrow_wrapSub (Nat.le_of_lt hright)] at hsign
  refine ⟨_, ?_, hsign⟩
  simp only [compareChars, hclamp, gt_iff_lt, Nat.not_lt_zero, if_false, hlefts, hrights,
    Option.bind_eq_bind, Option.bind_some]

theorem compare_whole (traits : CharTraits) (hholds : Holds arr heap list) {s : Nat → Option UInt8}
    {right : List UInt8} (hs : ∀ offset < right.length, s offset = right[offset]?)
    (hright : right.length < wordRange) :
    ∃ value, compareChars traits (peek arr heap) (getSize arr) 0 npos s right.length =
        some (.ok value) ∧
      value.sign = if lexSign traits.lt (list.take (min list.length right.length))
          (right.take (min list.length right.length)) = 0 then
        (Int.bmod ((list.length : Int) - right.length) (2 ^ 32)).sign
      else lexSign traits.lt (list.take (min list.length right.length))
        (right.take (min list.length right.length)) := by
  rw [hholds.size]
  exact compare_texts traits (fun _ => hholds.peek_text) hs (hholds.size ▸ getSize_lt arr) hright

theorem compare_short (traits : CharTraits) (hholds : Holds arr heap list)
    {s : Nat → Option UInt8} {right : List UInt8}
    (hs : ∀ offset < right.length, s offset = right[offset]?) (hlist : list.length < 2 ^ 31)
    (hright : right.length < 2 ^ 31) :
    ComparesAs traits (compareChars traits (peek arr heap) (getSize arr) 0 npos s right.length)
      (.ok (list, right)) := by
  have hword : 2 ^ 31 < wordRange := by decide
  obtain ⟨value, hrun, hsign⟩ := compare_whole traits hholds hs (by omega)
  refine ⟨value, hrun, hsign.trans ?_⟩
  rw [Int.bmod_eq_of_le (by omega) (by omega), ← lexSign_eq]

theorem take_common_iff (left right : List UInt8) :
    left.take (min left.length right.length) = right.take (min left.length right.length) ↔
      left <+: right ∨ right <+: left := by
  rcases Nat.le_total left.length right.length with hle | hle
  · rw [Nat.min_eq_left hle, List.take_length, ← List.prefix_iff_eq_take]
    exact ⟨Or.inl, fun heither => heither.elim id fun hright =>
      (hright.eq_of_length_le hle) ▸ List.prefix_refl right⟩
  · rw [Nat.min_eq_right hle, List.take_length, eq_comm, ← List.prefix_iff_eq_take]
    exact ⟨Or.inr, fun heither => heither.elim (fun hleft =>
      (hleft.eq_of_length_le hle) ▸ List.prefix_refl left) id⟩

/-- Two texts compare as equal if one starts with the other and the difference of their
lengths is a multiple of `2 ^ 32`, which is narrowed to zero. -/
theorem compared_zero_iff (traits : OrderedTraits) {left right : List UInt8} {value : Int}
    (hsign : value.sign = if lexSign traits.lt (left.take (min left.length right.length))
        (right.take (min left.length right.length)) = 0 then
      (Int.bmod ((left.length : Int) - right.length) (2 ^ 32)).sign
    else lexSign traits.lt (left.take (min left.length right.length))
      (right.take (min left.length right.length))) :
    value = 0 ↔ (left <+: right ∨ right <+: left) ∧
      (2 ^ 32 : Int) ∣ (left.length : Int) - right.length := by
  have hbmod : Int.bmod ((left.length : Int) - right.length) (2 ^ 32) = 0 ↔
      (2 ^ 32 : Int) ∣ (left.length : Int) - right.length := by
    rw [Int.bmod_def]
    omega
  rw [← Int.sign_eq_zero_iff_zero, hsign, ← take_common_iff, ← hbmod]
  split
  · rename_i hsame
    rw [and_iff_right ((traits.lexSign_zero ..).mp hsame), Int.sign_eq_zero_iff_zero]
  · rename_i hdiffer
    refine iff_of_false hdiffer fun hboth => hdiffer ?_
    exact (traits.lexSign_zero ..).mpr hboth.1

/-! ### The operators -/

def Decides (run : Option (Except Exn Bool)) (question : Prop) : Prop :=
  ∃ answer, run = some (.ok answer) ∧ (answer = true ↔ question)

structure OrderedAs (traits : OrderedTraits) (left right : List UInt8)
    (equal notEqual less lessEqual greater greaterEqual : Option (Except Exn Bool)) : Prop where
  equal : Decides equal (left = right)
  notEqual : Decides notEqual (left ≠ right)
  less : Decides less (traits.Before left right)
  lessEqual : Decides lessEqual (traits.Before left right ∨ left = right)
  greater : Decides greater (traits.Before right left)
  greaterEqual : Decides greaterEqual (traits.Before right left ∨ left = right)

section Operators

variable {traits : OrderedTraits} {run : Option (Except Exn Int)} {left right : List UInt8}

theorem decides_testing {question : Prop} {test : Int → Bool}
    (hrun : ComparesAs traits.toCharTraits run (.ok (left, right)))
    (htest : ∀ value : Int, value.sign = lexSign traits.lt left right →
      (test value = true ↔ question)) : Decides (testing run test) question := by
  obtain ⟨value, rfl, hsign⟩ := hrun
  exact ⟨test value, rfl, htest value hsign⟩

theorem sign_says {value : Int} (hsign : value.sign = lexSign traits.lt left right) :
    (value = 0 ↔ left = right) ∧ (value < 0 ↔ traits.Before left right) ∧
      (0 < value ↔ traits.Before right left) := by
  obtain ⟨hzero, hneg, hpos⟩ := traits.lexSign_iff left right
  rw [← hzero, ← hneg, ← hpos, ← hsign, Int.sign_eq_zero_iff_zero, Int.sign_neg_iff,
    Int.sign_pos_iff]
  exact ⟨Iff.rfl, Iff.rfl, Iff.rfl⟩

theorem ordered_testing (hrun : ComparesAs traits.toCharTraits run (.ok (left, right))) :
    OrderedAs traits left right (testing run (· == 0)) (testing run (· != 0))
      (testing run (· < 0)) (testing run (· ≤ 0)) (testing run (· > 0)) (testing run (· ≥ 0)) := by
  constructor
  all_goals
    refine decides_testing hrun fun value hsign => ?_
    obtain ⟨hzero, hneg, hpos⟩ := sign_says hsign
    simp only [ne_eq, ← hzero, ← hneg, ← hpos, beq_iff_eq, bne_iff_ne, decide_eq_true_eq] <;>
      omega

theorem ordered_mirrored (hrun : ComparesAs traits.toCharTraits run (.ok (right, left))) :
    OrderedAs traits left right (testing run (· == 0)) (testing run (· != 0))
      (testing run (· > 0)) (testing run (· ≥ 0)) (testing run (· < 0)) (testing run (· ≤ 0)) := by
  obtain ⟨hequal, hnotEqual, hless, hlessEqual, hgreater, hgreaterEqual⟩ := ordered_testing hrun
  rw [eq_comm] at hequal hlessEqual hgreaterEqual
  exact ⟨hequal, by rwa [ne_comm] at hnotEqual, hgreater, hgreaterEqual, hless, hlessEqual⟩

end Operators

theorem hashLoop_eq {peek : Nat → Option UInt8} {text : List UInt8} (hash : UInt64) {i : Nat}
    (hpeek : ∀ offset < text.length, peek (i + offset) = text[offset]?) :
    hashLoop peek hash i text.length = some (text.foldl hashStep hash) := by
  induction text generalizing hash i with
  | nil => rfl
  | cons ch rest ih =>
      have hfirst := hpeek 0 (Nat.zero_lt_succ _)
      rw [Nat.add_zero, List.getElem?_cons_zero] at hfirst
      have hrest := @ih (hashStep hash ch) (i + 1) fun offset hoffset => by
        rw [show i + 1 + offset = i + (offset + 1) by omega,
          hpeek (offset + 1) (Nat.succ_lt_succ hoffset), List.getElem?_cons_succ]
      simp only [List.length_cons, hashLoop, hfirst, Option.bind_eq_bind, Option.bind_some, hrest,
        List.foldl_cons]

theorem hashValue_eq (hholds : Holds arr heap list) :
    hashValue heap arr = some (list.foldl hashStep fnvOffsetBasis) := by
  rw [hashValue, hholds.size]
  exact hashLoop_eq _ fun offset hoffset => by rw [Nat.zero_add]; exact hholds.peek_text hoffset

theorem cText_prefix (s : List UInt8) {offset : Nat} (hoffset : offset < (cText s).length) :
    s[offset]? = (cText s)[offset]? := by
  obtain ⟨rest, hrest⟩ := List.takeWhile_prefix (l := s) (· ≠ (0 : UInt8))
  have hget : (cText s ++ rest)[offset]? = (cText s)[offset]? :=
    List.getElem?_append_left hoffset
  rwa [show cText s ++ rest = s from hrest] at hget

/-- The eighteen operators decide the lexicographic order of the contents, inline or
on the heap; it is a strict total order, and equal strings have the same hash. -/
theorem operators_decide_order (traits : OrderedTraits) {otherArr : Memory} {other s : List UInt8}
    (hholds : Holds arr heap list) (hother : Holds otherArr heap other)
    (hlist : list.length < 2 ^ 31) (hlength : other.length < 2 ^ 31)
    (hs : (cText s).length < 2 ^ 31) :
    OrderedAs traits list other (operatorEqual traits.toCharTraits heap arr otherArr)
      (operatorNotEqual traits.toCharTraits heap arr otherArr)
      (operatorLess traits.toCharTraits heap arr otherArr)
      (operatorLessEqual traits.toCharTraits heap arr otherArr)
      (operatorGreater traits.toCharTraits heap arr otherArr)
      (operatorGreaterEqual traits.toCharTraits heap arr otherArr) ∧
    OrderedAs traits list (cText s) (operatorEqualCString traits.toCharTraits heap arr s)
      (operatorNotEqualCString traits.toCharTraits heap arr s)
      (operatorLessCString traits.toCharTraits heap arr s)
      (operatorLessEqualCString traits.toCharTraits heap arr s)
      (operatorGreaterCString traits.toCharTraits heap arr s)
      (operatorGreaterEqualCString traits.toCharTraits heap arr s) ∧
    OrderedAs traits (cText s) list (cStringOperatorEqual traits.toCharTraits heap s arr)
      (cStringOperatorNotEqual traits.toCharTraits heap s arr)
      (cStringOperatorLess traits.toCharTraits heap s arr)
      (cStringOperatorLessEqual traits.toCharTraits heap s arr)
      (cStringOperatorGreater traits.toCharTraits heap s arr)
      (cStringOperatorGreaterEqual traits.toCharTraits heap s arr) ∧
    IsStrictTotalOrder (List UInt8) traits.Before ∧
    (operatorEqual traits.toCharTraits heap arr otherArr = some (.ok true) →
      ∃ hash, hashValue heap arr = some hash ∧ hashValue heap otherArr = some hash) := by
  have hstring : ComparesAs traits.toCharTraits
      (compareString traits.toCharTraits heap arr otherArr) (.ok (list, other)) := by
    unfold compareString
    rw [hother.size]
    exact compare_short _ hholds (fun _ => hother.peek_text) hlist hlength
  have hcString : ComparesAs traits.toCharTraits (compareCString traits.toCharTraits heap arr s)
      (.ok (list, cText s)) :=
    compare_short _ hholds (fun _ => cText_prefix s) hlist hs
  have hordered := ordered_testing hstring
  refine ⟨hordered, ordered_testing hcString, ordered_mirrored hcString, traits.before_order, ?_⟩
  intro hequal
  obtain ⟨answer, hanswer, hiff⟩ := hordered.equal
  obtain rfl : true = answer := by
    cases hequal.symm.trans hanswer
    rfl
  exact ⟨_, hashValue_eq hholds, (hiff.mp rfl) ▸ hashValue_eq hother⟩

def orderedCharTraits : OrderedTraits where
  toCharTraits := charTraits
  order := by
    simp only [charTraits, decide_eq_true_eq]
    exact {
      trichotomous := fun left right hless hgreater =>
        UInt8.le_antisymm (UInt8.not_lt.mp hgreater) (UInt8.not_lt.mp hless)
      irrefl := fun ch => UInt8.lt_irrefl ch
      trans := fun _ _ _ hfirst hsecond => UInt8.lt_trans hfirst hsecond }

/-- The string "ab" comes before "abc". -/
theorem operators_decide_order_ab :
    operatorLess charTraits (fun _ => none) (inlineArr zeroArr [97, 98])
        (inlineArr zeroArr [97, 98, 99]) = some (.ok true) ∧
      OrderedAs orderedCharTraits [97, 98] [97, 98, 99]
        (operatorEqual charTraits (fun _ => none) (inlineArr zeroArr [97, 98])
          (inlineArr zeroArr [97, 98, 99]))
        (operatorNotEqual charTraits (fun _ => none) (inlineArr zeroArr [97, 98])
          (inlineArr zeroArr [97, 98, 99]))
        (operatorLess charTraits (fun _ => none) (inlineArr zeroArr [97, 98])
          (inlineArr zeroArr [97, 98, 99]))
        (operatorLessEqual charTraits (fun _ => none) (inlineArr zeroArr [97, 98])
          (inlineArr zeroArr [97, 98, 99]))
        (operatorGreater charTraits (fun _ => none) (inlineArr zeroArr [97, 98])
          (inlineArr zeroArr [97, 98, 99]))
        (operatorGreaterEqual charTraits (fun _ => none) (inlineArr zeroArr [97, 98])
          (inlineArr zeroArr [97, 98, 99])) :=
  ⟨by decide +kernel, (operators_decide_order orderedCharTraits
    (valid_inlineArr zeroArr _ (show [97, 98].length ≤ maxInBufferSize by decide)).toHolds
    (valid_inlineArr zeroArr _ (show [97, 98, 99].length ≤ maxInBufferSize by decide)).toHolds
    (by decide) (by decide) (show (cText [98, 0]).length < 2 ^ 31 by decide)).1⟩

/-! ### `std::string` on the left -/

/-- `std::basic_string::compare(pos1, count1, s, count2)`: the substring is clamped,
and if the common part is equal the lengths decide. -/
def stdCompare (traits : CharTraits) (text : List UInt8) (pos1 count1 : Nat)
    (s : Nat → Option UInt8) (count2 : Nat) : Option (Except Exn Int) :=
  if pos1 > text.length then some (.error .outOfRange)
  else do
    let left := (text.drop pos1).take count1
    let rlen := min left.length count2
    let right ← readFrom s 0 rlen
    let res := traits.compare (left.take rlen) right
    some (.ok (if res = 0 then ((left.length : Int) - count2).sign else res))

def stdOperatorEqual (traits : CharTraits) (heap : Heap) (lhs : List UInt8) (rhs : Memory) :
    Option (Except Exn Bool) :=
  testing (stdCompare traits lhs 0 (getSize rhs) (peek rhs heap) (getSize rhs)) (· == 0)

theorem stdOperatorEqual_decides (traits : OrderedTraits) (hholds : Holds arr heap list)
    (text : List UInt8) :
    Decides (stdOperatorEqual traits.toCharTraits heap text arr) (list <+: text) := by
  have hread := @readFrom_text (peek arr heap) 0 (min (text.take list.length).length list.length)
    list (fun offset hoffset => by rw [Nat.zero_add]; exact hholds.peek_text hoffset)
    (Nat.min_le_right ..)
  have hlength : (text.take list.length).length ≤ list.length := List.length_take_le ..
  rw [Nat.min_eq_left hlength] at hread
  have hsign := traits.compare_sign (text.take list.length)
    (list.take (text.take list.length).length) (List.length_take_of_le hlength).symm
  unfold stdOperatorEqual stdCompare
  rw [hholds.size, if_neg (Nat.not_lt_zero _)]
  simp only [List.drop_zero, Nat.min_eq_left hlength, hread, Option.bind_eq_bind,
    Option.bind_some, testing, Option.map_some, Except.map]
  refine ⟨_, rfl, ?_⟩
  rw [List.take_length, beq_iff_eq, List.prefix_iff_eq_take, eq_comm (a := list)]
  generalize text.take list.length = left at *
  by_cases hzero : traits.compare left (list.take left.length) = 0
  · rw [hzero, Int.sign_zero, eq_comm, traits.lexSign_zero] at hsign
    rw [if_pos hzero, Int.sign_eq_zero_iff_zero]
    constructor
    · intro hlengths
      rw [hsign, List.take_of_length_le (by omega)]
    · rintro rfl
      omega
  · rw [if_neg hzero]
    refine iff_of_false hzero fun hsame => hzero ?_
    rw [hsame, List.take_length] at hsign ⊢
    rwa [(traits.lexSign_zero list list).mpr rfl, Int.sign_eq_zero_iff_zero] at hsign

/-- Between crossbow strings the whole contents are compared, but a difference of
the lengths that is a multiple of `2 ^ 32` is taken for none. -/
theorem operatorEqual_decides (traits : OrderedTraits) {otherArr : Memory} {other : List UInt8}
    (hholds : Holds arr heap list) (hother : Holds otherArr heap other) :
    Decides (operatorEqual traits.toCharTraits heap arr otherArr)
      ((list <+: other ∨ other <+: list) ∧
        (2 ^ 32 : Int) ∣ (list.length : Int) - other.length) := by
  have hword := hother.size ▸ getSize_lt otherArr
  obtain ⟨value, hrun, hsign⟩ := compare_whole traits.toCharTraits hholds
    (fun _ => hother.peek_text) hword
  refine ⟨value == 0, ?_, ?_⟩
  · rw [operatorEqual, compareString, hother.size, hrun]
    rfl
  · rw [beq_iff_eq]
    exact compared_zero_iff traits hsign

theorem constructStd_beside {mem : Mem} {other text : List UInt8}
    (hholds : Holds arr mem.heap other) (hsupplied : Supplied mem.supply mem.heap)
    (htext : text.length < ptrdiffMax) :
    Command.Returns (constructStd text) mem fun _ after =>
      Holds after.arr after.heap text ∧ Holds arr after.heap other := by
  have hword : 2 * ptrdiffMax < wordRange := by decide
  refine (initWith_returns hsupplied (by omega)).mono fun _ after ⟨hafter, htransfer⟩ => ?_
  refine ⟨hafter, hholds.heap_congr fun address hptr => ?_⟩
  refine htransfer.others address (owns_none address) fun howns => ?_
  rcases htransfer.fresh address howns with hnone | hfree
  · exact owns_none address hnone
  · exact hholds.shaped.ptr_ne_free hfree hptr

/-- The two equalities answer as they should unless one of the texts is a proper
initial part of the other: the `std::string` compares equal to every initial part
of it, and the converted string to those that are shorter by a multiple of `2 ^ 32`. -/
theorem mixed_equality_iff (traits : OrderedTraits) {mem : Mem} {other text : List UInt8}
    (hholds : Holds arr mem.heap other) (hsupplied : Supplied mem.supply mem.heap)
    (htext : text.length < ptrdiffMax) :
    (Decides (stdOperatorEqual traits.toCharTraits mem.heap text arr) (text = other) ∧
      Command.Returns (constructStd text) mem fun _ after =>
        operatorEqual traits.toCharTraits after.heap after.arr arr =
          stdOperatorEqual traits.toCharTraits mem.heap text arr) ↔
    ¬ (other <+: text ∧ other ≠ text) ∧
      ¬ (text <+: other ∧ text ≠ other ∧ 2 ^ 32 ∣ other.length - text.length) := by
  obtain ⟨_, after, hrun, hafter, hkept⟩ := constructStd_beside hholds hsupplied htext
  obtain ⟨answer, hanswer, hstd⟩ := stdOperatorEqual_decides traits hholds text
  obtain ⟨answer', hanswer', hown⟩ := operatorEqual_decides traits hafter hkept
  have hdecides : Decides (stdOperatorEqual traits.toCharTraits mem.heap text arr) (text = other) ↔
      (other <+: text ↔ text = other) := by
    rw [← hstd, hanswer]
    simp [Decides]
  have hreturns : (Command.Returns (constructStd text) mem fun _ after =>
      operatorEqual traits.toCharTraits after.heap after.arr arr =
        stdOperatorEqual traits.toCharTraits mem.heap text arr) ↔
      (answer' = true ↔ answer = true) := by
    rw [hanswer]
    simp [Command.Returns, hrun, hanswer']
  rw [hdecides, hreturns, hstd, hown]
  by_cases hsame : text = other
  · subst hsame
    simp
  · have hlengths : text <+: other → ((2 ^ 32 : Int) ∣ (text.length : Int) - other.length ↔
        2 ^ 32 ∣ other.length - text.length) := by
      intro hinitial
      have hle := hinitial.length_le
      omega
    constructor
    · rintro ⟨hfirst, hagree⟩
      refine ⟨fun hproper => hsame (hfirst.mp hproper.1), fun hproper => hsame (hfirst.mp ?_)⟩
      exact hagree.mp ⟨Or.inl hproper.1, (hlengths hproper.1).mpr hproper.2.2⟩
    · rintro ⟨hshorter, hlonger⟩
      have hno : ¬ other <+: text := fun hinitial => hshorter ⟨hinitial, Ne.symm hsame⟩
      refine ⟨iff_of_false hno hsame, iff_of_false ?_ hno⟩
      rintro ⟨hinitial | hinitial, hdvd⟩
      · exact hlonger ⟨hinitial, hsame, (hlengths hinitial).mp hdvd⟩
      · exact hno hinitial

/-- The strings "ab" and "b" differ, and so do the converted ones. -/
theorem mixed_equality_ab :
    Decides (stdOperatorEqual charTraits (shortMem [98]).heap [97, 98] (shortMem [98]).arr)
        (([97, 98] : List UInt8) = [98]) ∧
      Command.Returns (constructStd [97, 98]) (shortMem [98]) fun _ after =>
        operatorEqual charTraits after.heap after.arr (shortMem [98]).arr =
          stdOperatorEqual charTraits (shortMem [98]).heap [97, 98] (shortMem [98]).arr :=
  (mixed_equality_iff orderedCharTraits
    (valid_shortMem (show [98].length ≤ maxInBufferSize by decide)).toHolds
    (supplied_shortMem [98]) (show [97, 98].length < ptrdiffMax by decide)).mpr
    ⟨by decide, by decide⟩

/-- As a `std::string`, "abc" is equal to "ab", and not once it is converted. -/
theorem std_string_equals_initial_part :
    Holds (shortMem [97, 98]).arr (shortMem [97, 98]).heap [97, 98] ∧
      stdOperatorEqual charTraits (shortMem [97, 98]).heap [97, 98, 99] (shortMem [97, 98]).arr =
        some (.ok true) ∧
      Command.Returns (constructStd [97, 98, 99]) (shortMem [97, 98]) fun _ after =>
        operatorEqual charTraits after.heap after.arr (shortMem [97, 98]).arr =
          some (.ok false) := by
  refine ⟨(valid_shortMem (by decide)).toHolds, by decide +kernel, ?_⟩
  obtain ⟨_, after, hrun, hafter, hkept⟩ := constructStd_beside
    (valid_shortMem (show [97, 98].length ≤ maxInBufferSize by decide)).toHolds
    (supplied_shortMem [97, 98]) (show [97, 98, 99].length < ptrdiffMax by decide)
  refine ⟨_, after, hrun, ?_⟩
  obtain ⟨answer, hanswer, hdecides⟩ := operatorEqual_decides orderedCharTraits hafter hkept
  have hfalse : answer = false := by
    rw [← Bool.not_eq_true, hdecides]
    decide
  rw [hfalse] at hanswer
  exact hanswer

end Sign

end Crossbow.BasicString
