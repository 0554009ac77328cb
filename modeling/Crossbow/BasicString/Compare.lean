import Crossbow.BasicString.Objects

/-! `compare` of substrings. Both ends of the comparison are seen through a
function that gives the characters that may be read; the traits are a parameter,
with the documented behaviour of their `compare`. -/
namespace Crossbow.BasicString
open Kernel

/-- The sign of a lexicographic comparison; a proper initial part comes first. -/
def lexSign (lt : UInt8 → UInt8 → Bool) : List UInt8 → List UInt8 → Int
  | [], [] => 0
  | [], _ :: _ => -1
  | _ :: _, [] => 1
  | left :: lefts, right :: rights =>
      if lt left right then -1 else if lt right left then 1 else lexSign lt lefts rights

/-- `traits_type::compare` of two ranges of the same length gives an `int` with
the sign of their comparison under `lt`. -/
structure CharTraits where
  lt : UInt8 → UInt8 → Bool
  compare : List UInt8 → List UInt8 → Int
  compare_int : ∀ left right, -2 ^ 31 ≤ compare left right ∧ compare left right < 2 ^ 31
  compare_sign : ∀ left right, left.length = right.length →
    (compare left right).sign = lexSign lt left right

/-- A `size_t` returned as `int`. -/
def narrow (value : Nat) : Int := Int.bmod value (2 ^ 32)

/-- An `int` converted to `size_t`. -/
def widen (value : Int) : Nat := (value % 2 ^ 64).toNat

def readFrom (peek : Nat → Option UInt8) (index : Nat) : Nat → Option (List UInt8)
  | 0 => some []
  | count + 1 => do
      let ch ← peek index
      let rest ← readFrom peek (index + 1) count
      some (ch :: rest)

/-- `pos + count > size ? size - pos : count`. -/
def clamp (size pos count : Nat) : Nat := if wrap (pos + count) > size then size - pos else count

/-- `compare(pos1, count1, s, count2)`; the common type of the two results is
`size_t`. -/
def compareChars (traits : CharTraits) (peek : Nat → Option UInt8) (size pos1 count1 : Nat)
    (s : Nat → Option UInt8) (count2 : Nat) : Option (Except Exn Int) :=
  if pos1 > size then some (.error .outOfRange)
  else do
    let rlen := min (clamp size pos1 count1) count2
    let left ← readFrom peek pos1 rlen
    let right ← readFrom s 0 rlen
    let res := traits.compare left right
    some (.ok (narrow
      (if res = 0 then wrapSub (clamp size pos1 count1) count2 else widen res)))

def compareSubstring (traits : CharTraits) (peek : Nat → Option UInt8) (size pos1 count1 : Nat)
    (str : Nat → Option UInt8) (sz pos2 count2 : Nat) : Option (Except Exn Int) :=
  if pos2 > sz then some (.error .outOfRange)
  else compareChars traits peek size pos1 count1 (fun index => str (pos2 + index))
    (clamp sz pos2 count2)

/-! ### The lexicographic order -/

section Order

variable {lt : UInt8 → UInt8 → Bool}

theorem lexSign_append {left right : List UInt8} (hlength : left.length = right.length)
    (lefts rights : List UInt8) :
    lexSign lt (left ++ lefts) (right ++ rights) =
      if lexSign lt left right = 0 then lexSign lt lefts rights else lexSign lt left right := by
  induction left generalizing right with
  | nil =>
      rw [List.length_nil, eq_comm, List.length_eq_zero_iff] at hlength
      subst hlength
      rfl
  | cons ch rest ih =>
      cases right with
      | nil => contradiction
      | cons other others =>
          rw [List.length_cons, List.length_cons, Nat.add_right_cancel_iff] at hlength
          simp only [List.cons_append, lexSign, ih hlength]
          split
          · rfl
          · split <;> rfl

theorem lexSign_bounds (left right : List UInt8) :
    -1 ≤ lexSign lt left right ∧ lexSign lt left right ≤ 1 := by
  fun_induction lexSign <;> simp_all

theorem lexSign_of_nil {left right : List UInt8} (hend : left = [] ∨ right = []) :
    lexSign lt left right = ((left.length : Int) - right.length).sign := by
  rcases hend with rfl | rfl
  · cases right with
    | nil => rfl
    | cons other others =>
        rw [lexSign, eq_comm, Int.sign_eq_neg_one_iff_neg]
        simp
        omega
  · cases left with
    | nil => rfl
    | cons ch rest =>
        rw [lexSign, eq_comm, Int.sign_eq_one_iff_pos]
        simp

theorem lexSign_eq (left right : List UInt8) :
    lexSign lt left right =
      if lexSign lt (left.take (min left.length right.length))
          (right.take (min left.length right.length)) = 0 then
        ((left.length : Int) - right.length).sign
      else lexSign lt (left.take (min left.length right.length))
        (right.take (min left.length right.length)) := by
  generalize hcommon : min left.length right.length = common
  have hsplit := @lexSign_append lt (left.take common) (right.take common)
    (by simp; omega) (left.drop common) (right.drop common)
  rw [List.take_append_drop, List.take_append_drop] at hsplit
  have hend : left.drop common = [] ∨ right.drop common = [] := by
    rcases Nat.le_total left.length right.length with hle | hle
    · exact Or.inl (List.drop_of_length_le (by omega))
    · exact Or.inr (List.drop_of_length_le (by omega))
  rw [hsplit, lexSign_of_nil hend, List.length_drop, List.length_drop,
    show ((left.length - common : Nat) : Int) - ((right.length - common : Nat) : Int) =
      (left.length : Int) - right.length by omega]

end Order

theorem narrow_widen {value : Int} (hlow : -2 ^ 31 ≤ value) (hhigh : value < 2 ^ 31) :
    narrow (widen value) = value := by
  unfold narrow widen
  rw [Int.toNat_of_nonneg (Int.emod_nonneg _ (by decide)), Int.bmod_def]
  omega

theorem narrow_wrapSub {left right : Nat} (hright : right ≤ wordRange) :
    narrow (wrapSub left right) = Int.bmod ((left : Int) - right) (2 ^ 32) := by
  unfold narrow wrapSub
  rw [Int.bmod_def, Int.bmod_def]
  simp only [wordRange] at *
  omega

/-! ### What `compare` returns -/

section Reading

variable {peek : Nat → Option UInt8} {index count : Nat} {text : List UInt8}

theorem readFrom_sound (hread : readFrom peek index count = some text) :
    text.length = count ∧ ∀ offset < count, peek (index + offset) = text[offset]? := by
  induction count generalizing index text with
  | zero =>
      cases hread
      exact ⟨rfl, fun offset hoffset => absurd hoffset (Nat.not_lt_zero offset)⟩
  | succ count ih =>
      unfold readFrom at hread
      cases hfirst : peek index with
      | none => simp [hfirst] at hread
      | some ch =>
          cases hrest : readFrom peek (index + 1) count with
          | none => simp [hfirst, hrest] at hread
          | some rest =>
              obtain rfl : ch :: rest = text := by simpa [hfirst, hrest] using hread
              obtain ⟨hlength, hchars⟩ := ih hrest
              refine ⟨by rw [List.length_cons, hlength], fun offset hoffset => ?_⟩
              cases offset with
              | zero => exact hfirst
              | succ offset =>
                  rw [List.getElem?_cons_succ, ← hchars offset (by omega),
                    show index + (offset + 1) = index + 1 + offset by omega]

theorem readFrom_text (hpeek : ∀ offset < text.length, peek (index + offset) = text[offset]?)
    (hcount : count ≤ text.length) : readFrom peek index count = some (text.take count) := by
  induction count generalizing index text with
  | zero => rfl
  | succ count ih =>
      cases text with
      | nil => exact absurd hcount (Nat.not_succ_le_zero count)
      | cons ch rest =>
          have hrest := @ih (index + 1) rest (fun offset hoffset => by
            rw [show index + 1 + offset = index + (offset + 1) by omega,
              hpeek (offset + 1) (Nat.succ_lt_succ hoffset), List.getElem?_cons_succ])
            (Nat.le_of_succ_le_succ hcount)
          have hfirst := hpeek 0 (Nat.zero_lt_succ _)
          rw [Nat.add_zero, List.getElem?_cons_zero] at hfirst
          simp only [readFrom, hfirst, hrest, Option.bind_eq_bind, Option.bind_some,
            List.take_succ_cons]

theorem readFrom_take {common : Nat} {expected : List UInt8}
    (hread : readFrom peek index count = some text)
    (hpeek : ∀ offset < expected.length, peek (index + offset) = expected[offset]?)
    (hcount : common ≤ count) (hcommon : common ≤ expected.length) :
    text.take common = expected.take common := by
  obtain ⟨hlength, hchars⟩ := readFrom_sound hread
  apply List.ext_getElem?
  intro offset
  by_cases hoffset : offset < common
  · rw [List.getElem?_take_of_lt hoffset, List.getElem?_take_of_lt hoffset,
      ← hchars offset (by omega), hpeek offset (by omega)]
  · rw [List.getElem?_eq_none (by simp; omega), List.getElem?_eq_none (by simp; omega)]

end Reading

/-- What decides after the common part: the characters stored behind it, if the
comparison goes on to them, and then the counts. -/
def tieBreak (traits : CharTraits) (left right : List UInt8) (count1 count2 : Nat) : Int :=
  if lexSign traits.lt left right = 0 then (narrow (wrapSub count1 count2)).sign
  else lexSign traits.lt left right

/-- All characters compared can be read, and the substrings differ where both have
characters or the tie is broken in favour of the longer one. -/
def Settles (traits : CharTraits) (first second : Nat → Option UInt8) (count1 count2 : Nat)
    (left right : List UInt8) : Prop :=
  ∃ lefts rights, readFrom first 0 (min count1 count2) = some lefts ∧
    readFrom second 0 (min count1 count2) = some rights ∧
    (lexSign traits.lt (left.take (min left.length right.length))
        (right.take (min left.length right.length)) ≠ 0 ∨
      tieBreak traits (lefts.drop (min left.length right.length))
          (rights.drop (min left.length right.length)) count1 count2 =
        ((left.length : Int) - right.length).sign)

/-- The substrings differ where both have characters, or the difference of their
lengths has the right sign as an `int`. -/
def Decided (traits : CharTraits) (left right : List UInt8) : Prop :=
  lexSign traits.lt (left.take (min left.length right.length))
      (right.take (min left.length right.length)) ≠ 0 ∨
    (Int.bmod ((left.length : Int) - right.length) (2 ^ 32)).sign =
      ((left.length : Int) - right.length).sign

def ComparesAs (traits : CharTraits) (run : Option (Except Exn Int)) :
    Except Exn (List UInt8 × List UInt8) → Prop
  | .error fault => run = some (.error fault)
  | .ok (left, right) => ∃ value, run = some (.ok value) ∧ value.sign = lexSign traits.lt left right

theorem readFrom_shift (peek : Nat → Option UInt8) (index count : Nat) :
    readFrom peek index count = readFrom (fun offset => peek (index + offset)) 0 count := by
  suffices hshift : ∀ start, readFrom peek (index + start) count =
      readFrom (fun offset => peek (index + offset)) start count from hshift 0
  intro start
  induction count generalizing start with
  | zero => rfl
  | succ count ih =>
      unfold readFrom
      rw [← ih (start + 1), Nat.add_assoc]

variable {traits : CharTraits} {arr : Memory} {heap : Heap} {list : List UInt8} {pos count : Nat}
  {right : List UInt8}

theorem sign_compared {lefts rights : List UInt8} (hlength : lefts.length = rights.length)
    (count1 count2 common : Nat) :
    (narrow (if traits.compare lefts rights = 0 then wrapSub count1 count2
        else widen (traits.compare lefts rights))).sign =
      if lexSign traits.lt (lefts.take common) (rights.take common) = 0 then
        tieBreak traits (lefts.drop common) (rights.drop common) count1 count2
      else lexSign traits.lt (lefts.take common) (rights.take common) := by
  have hsign := traits.compare_sign lefts rights hlength
  have hsplit := @lexSign_append traits.lt (lefts.take common) (rights.take common)
    (by simp [hlength]) (lefts.drop common) (rights.drop common)
  rw [List.take_append_drop, List.take_append_drop, ← hsign] at hsplit
  by_cases hzero : traits.compare lefts rights = 0
  · rw [hzero, Int.sign_zero] at hsplit
    rw [if_pos hzero]
    unfold tieBreak
    split
    · rename_i hcommon
      rw [if_pos hcommon] at hsplit
      rw [if_pos hsplit.symm]
    · rename_i hcommon
      rw [if_neg hcommon] at hsplit
      exact absurd hsplit.symm hcommon
  · obtain ⟨hlow, hhigh⟩ := traits.compare_int lefts rights
    have hne : (traits.compare lefts rights).sign ≠ 0 := fun hsign =>
      hzero (Int.sign_eq_zero_iff_zero.mp hsign)
    rw [if_neg hzero, narrow_widen hlow hhigh, hsplit]
    rw [hsplit] at hne
    unfold tieBreak
    split
    · rename_i hcommon
      rw [if_pos hcommon] at hne
      rw [if_neg hne]
    · rfl

theorem Valid.peek_part (hvalid : Valid arr heap list) {offset : Nat}
    (hoffset : offset < ((list.drop pos).take count).length) :
    peek arr heap (pos + offset) = ((list.drop pos).take count)[offset]? := by
  rw [List.length_take, List.length_drop] at hoffset
  rw [hvalid.peek_text (by omega), List.getElem?_take_of_lt (by omega), List.getElem?_drop]

theorem length_le_clamp (text : List UInt8) (pos count : Nat) :
    ((text.drop pos).take count).length ≤ clamp text.length pos count := by
  unfold clamp
  split <;> simp

theorem compareChars_iff (hvalid : Valid arr heap list) {s : Nat → Option UInt8}
    {pos1 count1 count2 : Nat} (hs : ∀ offset < right.length, s offset = right[offset]?)
    (hcount : right.length ≤ count2) (hpos : pos1 ≤ list.length) :
    ComparesAs traits (compareChars traits (peek arr heap) (getSize arr) pos1 count1 s count2)
      (.ok ((list.drop pos1).take count1, right)) ↔
    Settles traits (fun offset => peek arr heap (pos1 + offset)) s
      (clamp list.length pos1 count1) count2 ((list.drop pos1).take count1) right := by
  have hclamp := length_le_clamp list pos1 count1
  have hpeek : ∀ offset < ((list.drop pos1).take count1).length,
      (fun offset => peek arr heap (pos1 + offset)) (0 + offset) =
        ((list.drop pos1).take count1)[offset]? := by
    intro offset hoffset
    rw [Nat.zero_add]
    exact hvalid.peek_part hoffset
  generalize (list.drop pos1).take count1 = left at *
  unfold compareChars Settles ComparesAs
  rw [hvalid.size, if_neg (by omega)]
  dsimp only
  rw [readFrom_shift (peek arr heap)]
  generalize clamp list.length pos1 count1 = clamped at *
  cases hlefts : readFrom (fun offset => peek arr heap (pos1 + offset)) 0 (min clamped count2) with
  | none => simp
  | some lefts =>
      cases hrights : readFrom s 0 (min clamped count2) with
      | none => simp
      | some rights =>
          have htake : lefts.take (min left.length right.length) =
              left.take (min left.length right.length) :=
            readFrom_take hlefts hpeek (by omega) (by omega)
          have htake' : rights.take (min left.length right.length) =
              right.take (min left.length right.length) :=
            readFrom_take hrights (by simpa using hs) (by omega) (by omega)
          have hsame : lefts.length = rights.length :=
            (readFrom_sound hlefts).1.trans (readFrom_sound hrights).1.symm
          have hvalue := @sign_compared traits lefts rights hsame clamped count2
            (min left.length right.length)
          rw [htake, htake'] at hvalue
          simp only [Option.bind_eq_bind, Option.bind_some, Option.some.injEq, Except.ok.injEq,
            exists_eq_left', exists_and_left]
          rw [hvalue, lexSign_eq left right]
          by_cases hzero : lexSign traits.lt (left.take (min left.length right.length))
              (right.take (min left.length right.length)) = 0
          · rw [if_pos hzero, if_pos hzero]
            simp [hzero]
          · rw [if_neg hzero, if_neg hzero]
            simp [hzero]

theorem clamp_of_lt {text : List UInt8} {pos count : Nat} (hpos : pos ≤ text.length)
    (hsum : pos + count < wordRange) :
    clamp text.length pos count = ((text.drop pos).take count).length := by
  rw [clamp, wrap_of_lt hsum, List.length_take, List.length_drop]
  split <;> omega

/-- With the right counts nothing behind the substrings takes part, and the narrowed
difference of the lengths breaks the tie. -/
theorem settles_iff_of_lengths {first second : Nat → Option UInt8} {left : List UInt8}
    (hfirst : ∀ offset < left.length, first offset = left[offset]?)
    (hsecond : ∀ offset < right.length, second offset = right[offset]?)
    (hright : right.length ≤ wordRange) :
    Settles traits first second left.length right.length left right ↔
      Decided traits left right := by
  have hlefts := @readFrom_text first 0 (min left.length right.length) left (by simpa using hfirst)
    (Nat.min_le_left ..)
  have hrights := @readFrom_text second 0 (min left.length right.length) right
    (by simpa using hsecond) (Nat.min_le_right ..)
  have hnil : (left.take (min left.length right.length)).drop (min left.length right.length) = [] :=
    List.drop_of_length_le (List.length_take_le _ _)
  have hnil' : (right.take (min left.length right.length)).drop (min left.length right.length) =
      [] :=
    List.drop_of_length_le (List.length_take_le _ _)
  unfold Settles Decided
  simp only [hlefts, hrights, Option.some.injEq, exists_and_left, exists_eq_left', hnil, hnil',
    tieBreak, lexSign, if_true, narrow_wrapSub hright]

/-! ### Counts that are not clamped -/

/-- Where a position and its count overflow, their sum is below the position, and the count
stays as it is. -/
theorem clamp_of_wrap {size : Nat} (hpos : pos ≤ size) (hcount : count < wordRange)
    (hwraps : wordRange ≤ pos + count) (hsize : size < ptrdiffMax) :
    wrap (pos + count) < pos ∧ clamp size pos count = count := by
  have hword : ptrdiffMax < wordRange := by decide
  have hbelow := wrap_lt_of_overflow (by omega) hcount hwraps
  exact ⟨hbelow, if_neg (by omega)⟩

theorem readFrom_eq_none {peek : Nat → Option UInt8} {offset count : Nat} (hoffset : offset < count)
    (hnone : peek offset = none) : readFrom peek 0 count = none := by
  rw [Option.eq_none_iff_forall_ne_some]
  intro text hread
  obtain ⟨hlength, hchars⟩ := readFrom_sound hread
  have hchar := hchars offset hoffset
  rw [Nat.zero_add, hnone, List.getElem?_eq_getElem (by omega)] at hchar
  contradiction

theorem Valid.readFrom_peek (hvalid : Valid arr heap list)
    (hroom : pos + count ≤ getCapacity arr + 1) :
    readFrom (fun offset => peek arr heap (pos + offset)) 0 count =
      some (load (chars arr heap) pos count) := by
  have hread := @readFrom_text (fun offset => peek arr heap (pos + offset)) 0 count
    (load (chars arr heap) pos count)
    (fun offset hoffset => by
      rw [length_load] at hoffset
      rw [Nat.zero_add, hvalid.peek_eq, if_pos (by omega),
        List.getElem?_eq_getElem (by simpa using hoffset), getElem_load])
    (by simp)
  rwa [List.take_of_length_le (by simp)] at hread

theorem Valid.readFrom_outside (hvalid : Valid arr heap list) (hpos : pos ≤ list.length)
    (hroom : getCapacity arr + 1 < pos + count) :
    readFrom (fun offset => peek arr heap (pos + offset)) 0 count = none := by
  have hfits := hvalid.fits
  refine @readFrom_eq_none _ (count - 1) count (by omega) ?_
  rw [hvalid.peek_eq, if_neg (by omega)]

theorem drop_load (memory : Memory) (address count size : Nat) :
    (load memory address size).drop count = load memory (address + count) (size - count) := by
  apply List.ext_getElem
  · simp
  · intro index _ _
    rw [List.getElem_drop, getElem_load, getElem_load, Nat.add_assoc]

/-- A comparison that goes on behind the texts, with `behind` and `others`: the texts differ
where both have characters, or what is compared behind them, and then the difference of the
counts as an `int`, is in favour of the longer one. -/
def Overruns (traits : CharTraits) (left right behind others : List UInt8) (difference : Int) :
    Prop :=
  lexSign traits.lt (left.take (min left.length right.length))
      (right.take (min left.length right.length)) ≠ 0 ∨
    (if lexSign traits.lt behind others = 0 then (Int.bmod difference (2 ^ 32)).sign
      else lexSign traits.lt behind others) = ((left.length : Int) - right.length).sign

/-- The first count is not clamped: as many characters as the second text has are taken from
the buffer, which may be more than the first text has. -/
def OverrunsLeft (traits : CharTraits) (arr : Memory) (heap : Heap) (list : List UInt8)
    (pos1 count1 : Nat) (right : List UInt8) : Prop :=
  pos1 + right.length ≤ getCapacity arr + 1 ∧
    Overruns traits (list.drop pos1) right
      (load (chars arr heap) list.length (right.length - (list.length - pos1)))
      (right.drop (list.length - pos1)) ((count1 : Int) - right.length)

def OverrunsRight (traits : CharTraits) (arr : Memory) (heap : Heap) (list : List UInt8)
    (pos2 count2 : Nat) (left : List UInt8) : Prop :=
  pos2 + left.length ≤ getCapacity arr + 1 ∧
    Overruns traits left (list.drop pos2) (left.drop (list.length - pos2))
      (load (chars arr heap) list.length (left.length - (list.length - pos2)))
      ((left.length : Int) - count2)

theorem settles_iff_of_reads {first second : Nat → Option UInt8} {count1 count2 : Nat}
    {lefts rights left : List UInt8} (hcount : count2 ≤ wordRange)
    (hlefts : readFrom first 0 (min count1 count2) = some lefts)
    (hrights : readFrom second 0 (min count1 count2) = some rights) :
    Settles traits first second count1 count2 left right ↔
      Overruns traits left right (lefts.drop (min left.length right.length))
        (rights.drop (min left.length right.length)) ((count1 : Int) - count2) := by
  unfold Settles Overruns tieBreak
  rw [hlefts, hrights, narrow_wrapSub hcount]
  simp only [Option.some.injEq, exists_eq_left', exists_and_left]

section Overruns

theorem count_of_wrap (hvalid : Valid arr heap list) (hpos : pos ≤ list.length)
    (hwraps : wordRange ≤ pos + count) : getCapacity arr + 1 < count := by
  have hword : 2 * ptrdiffMax < wordRange := by decide
  have hbounded := hvalid.bounded
  have hfits := hvalid.fits
  omega

/-- What is behind a text in its buffer, of the characters that are compared. -/
theorem drop_buffer (hpos : pos ≤ list.length) (size : Nat) :
    (load (chars arr heap) pos size).drop (min (list.drop pos).length size) =
      load (chars arr heap) list.length (size - (list.length - pos)) := by
  rw [drop_load, List.length_drop]
  rcases Nat.le_total size (list.length - pos) with hle | hle
  · rw [Nat.min_eq_right hle, Nat.sub_self, Nat.sub_eq_zero_of_le hle]
    rfl
  · rw [Nat.min_eq_left hle, Nat.add_sub_cancel' hpos]

theorem drop_common (text : List UInt8) (size : Nat) :
    text.drop (min size text.length) = text.drop size := by
  rcases Nat.le_total size text.length with hle | hle
  · rw [Nat.min_eq_left hle]
  · rw [Nat.min_eq_right hle, List.drop_length, List.drop_of_length_le hle]

theorem settles_left_iff (hvalid : Valid arr heap list) {second : Nat → Option UInt8}
    {right : List UInt8} (hsecond : ∀ offset < right.length, second offset = right[offset]?)
    (hright : right.length ≤ wordRange) (hpos : pos ≤ list.length)
    (hwraps : wordRange ≤ pos + count) :
    Settles traits (fun offset => peek arr heap (pos + offset)) second count right.length
      (list.drop pos) right ↔ OverrunsLeft traits arr heap list pos count right := by
  have hlong := count_of_wrap hvalid hpos hwraps
  have hmin : getCapacity arr + 1 < pos + right.length →
      getCapacity arr + 1 < pos + min count right.length := by
    omega
  unfold OverrunsLeft
  by_cases hroom : pos + right.length ≤ getCapacity arr + 1
  · have hcount : min count right.length = right.length := by omega
    have hlefts := hvalid.readFrom_peek hroom
    have hrights := @readFrom_text second 0 right.length right (by simpa using hsecond)
      (Nat.le_refl _)
    rw [List.take_length] at hrights
    rw [← hcount] at hlefts hrights
    rw [settles_iff_of_reads hright hlefts hrights, hcount, drop_buffer hpos, drop_common,
      List.length_drop, and_iff_right hroom]
  · refine iff_of_false ?_ (fun hleft => hroom hleft.1)
    rintro ⟨lefts, _, hlefts, _⟩
    rw [hvalid.readFrom_outside hpos (hmin (by omega))] at hlefts
    contradiction

theorem settles_right_iff (hvalid : Valid arr heap list) {first : Nat → Option UInt8}
    {left : List UInt8} (hfirst : ∀ offset < left.length, first offset = left[offset]?)
    (hcount : count ≤ wordRange) (hpos : pos ≤ list.length) (hwraps : wordRange ≤ pos + count) :
    Settles traits first (fun offset => peek arr heap (pos + offset)) left.length count left
      (list.drop pos) ↔ OverrunsRight traits arr heap list pos count left := by
  have hlong := count_of_wrap hvalid hpos hwraps
  have hmin : getCapacity arr + 1 < pos + left.length →
      getCapacity arr + 1 < pos + min left.length count := by
    omega
  unfold OverrunsRight
  by_cases hroom : pos + left.length ≤ getCapacity arr + 1
  · have hcommon : min left.length count = left.length := by omega
    have hrights := hvalid.readFrom_peek hroom
    have hlefts := @readFrom_text first 0 left.length left (by simpa using hfirst) (Nat.le_refl _)
    rw [List.take_length] at hlefts
    rw [← hcommon] at hlefts hrights
    rw [settles_iff_of_reads hcount hlefts hrights, hcommon,
      Nat.min_comm left.length (list.drop pos).length, drop_buffer hpos, drop_common,
      List.length_drop, and_iff_right hroom]
  · refine iff_of_false ?_ (fun hright => hroom hright.1)
    rintro ⟨_, rights, _, hrights, _⟩
    rw [hvalid.readFrom_outside hpos (hmin (by omega))] at hrights
    contradiction

theorem not_settles_of_wraps (hvalid : Valid arr heap list) {second : Nat → Option UInt8}
    {left right : List UInt8} {count2 : Nat} (hpos : pos ≤ list.length)
    (hwraps : wordRange ≤ pos + count) (hcount2 : getCapacity arr + 1 < count2) :
    ¬ Settles traits (fun offset => peek arr heap (pos + offset)) second count count2 left
      right := by
  have hlong := count_of_wrap hvalid hpos hwraps
  rintro ⟨lefts, _, hlefts, _⟩
  rw [hvalid.readFrom_outside hpos (by omega)] at hlefts
  contradiction

theorem take_of_wrap (hvalid : Valid arr heap list) (hpos : pos ≤ list.length)
    (hwraps : wordRange ≤ pos + count) : (list.drop pos).take count = list.drop pos := by
  have hlong := count_of_wrap hvalid hpos hwraps
  have hfits := hvalid.fits
  rw [List.take_of_length_le (by rw [List.length_drop]; omega)]

end Overruns

/-- `compare(pos1, count1, s, count2)` for all positions and counts. -/
theorem compareChars_sign_iff (traits : CharTraits) (hvalid : Valid arr heap list)
    {s : Nat → Option UInt8} (hs : ∀ offset < right.length, s offset = right[offset]?)
    (hright : right.length ≤ wordRange) {pos1 count1 : Nat} (hcount : count1 < wordRange)
    (hpos : pos1 ≤ list.length) :
    ComparesAs traits
        (compareChars traits (peek arr heap) (getSize arr) pos1 count1 s right.length)
        (.ok ((list.drop pos1).take count1, right)) ↔
      if pos1 + count1 < wordRange then Decided traits ((list.drop pos1).take count1) right
      else OverrunsLeft traits arr heap list pos1 count1 right := by
  refine (compareChars_iff hvalid hs (Nat.le_refl _) hpos).trans ?_
  split
  · rename_i hsum
    rw [clamp_of_lt hpos hsum]
    exact settles_iff_of_lengths (fun _ => hvalid.peek_part) hs hright
  · rename_i hsum
    have hwraps := Nat.le_of_not_lt hsum
    rw [(clamp_of_wrap hpos hcount hwraps hvalid.length_lt).2, take_of_wrap hvalid hpos hwraps]
    exact settles_left_iff hvalid hs hright hpos hwraps

/-- Both overloads, for all positions and counts. Where a position and its count overflow, the
count is not clamped: it is enough if the other text ends in front of the end of the buffer
and what is behind the string there does not decide otherwise. If both overflow, more
characters are asked for than any buffer has. -/
theorem compare_sign_iff (traits : CharTraits) (hvalid : Valid arr heap list) {otherArr : Memory}
    {other : List UInt8} (hother : Valid otherArr heap other) {s : List UInt8}
    (hs : s.length < wordRange) {pos1 count1 pos2 count2 : Nat} (hcount1 : count1 < wordRange)
    (hcount2 : count2 < wordRange) :
    (ComparesAs traits
        (compareChars traits (peek arr heap) (getSize arr) pos1 count1 (fun index => s[index]?)
          s.length)
        (if list.length < pos1 then .error .outOfRange
          else .ok ((list.drop pos1).take count1, s)) ↔
      list.length < pos1 ∨
        if pos1 + count1 < wordRange then Decided traits ((list.drop pos1).take count1) s
        else OverrunsLeft traits arr heap list pos1 count1 s) ∧
    (ComparesAs traits
        (compareSubstring traits (peek arr heap) (getSize arr) pos1 count1 (peek otherArr heap)
          (getSize otherArr) pos2 count2)
        (if list.length < pos1 ∨ other.length < pos2 then .error .outOfRange
          else .ok ((list.drop pos1).take count1, (other.drop pos2).take count2)) ↔
      list.length < pos1 ∨ other.length < pos2 ∨
        if pos2 + count2 < wordRange then
          if pos1 + count1 < wordRange then
            Decided traits ((list.drop pos1).take count1) ((other.drop pos2).take count2)
          else OverrunsLeft traits arr heap list pos1 count1 ((other.drop pos2).take count2)
        else pos1 + count1 < wordRange ∧
          OverrunsRight traits otherArr heap other pos2 count2 ((list.drop pos1).take count1)) := by
  have hword : ptrdiffMax < wordRange := by decide
  have hthrows : ∀ s count, list.length < pos1 → ComparesAs traits
      (compareChars traits (peek arr heap) (getSize arr) pos1 count1 s count)
      (.error .outOfRange) := by
    intro s count hpos
    unfold compareChars ComparesAs
    rw [hvalid.size, if_pos hpos]
  constructor
  · by_cases hpos : list.length < pos1
    · rw [if_pos hpos]
      exact iff_of_true (hthrows _ _ hpos) (Or.inl hpos)
    · rw [if_neg hpos, or_iff_right hpos]
      exact compareChars_sign_iff traits hvalid (fun _ _ => rfl) (by omega) hcount1 (by omega)
  · unfold compareSubstring
    rw [hother.size]
    by_cases hpos2 : other.length < pos2
    · rw [if_pos (Or.inr hpos2), if_pos hpos2]
      exact iff_of_true rfl (Or.inr (Or.inl hpos2))
    rw [if_neg hpos2]
    by_cases hpos : list.length < pos1
    · rw [if_pos (Or.inl hpos)]
      exact iff_of_true (hthrows _ _ hpos) (Or.inl hpos)
    rw [if_neg (by tauto), or_iff_right hpos, or_iff_right hpos2]
    have hbound := hother.length_lt
    split
    · rename_i hsum2
      have hlength := @clamp_of_lt other pos2 count2 (Nat.le_of_not_lt hpos2) hsum2
      rw [hlength]
      refine compareChars_sign_iff traits hvalid (fun _ => hother.peek_part) ?_ hcount1 (by omega)
      rw [List.length_take, List.length_drop]
      omega
    · rename_i hsum2
      have hpos2 := Nat.le_of_not_lt hpos2
      have hwraps2 := Nat.le_of_not_lt hsum2
      rw [(clamp_of_wrap hpos2 hcount2 hwraps2 hbound).2]
      refine (compareChars_iff hvalid (fun _ => hother.peek_part) ?_ (by omega)).trans ?_
      · exact List.length_take_le _ _
      rw [take_of_wrap hother hpos2 hwraps2]
      by_cases hsum : pos1 + count1 < wordRange
      · rw [and_iff_right hsum, clamp_of_lt (by omega) hsum]
        exact settles_right_iff hother (fun _ => hvalid.peek_part) (by omega) hpos2 hwraps2
      · have hwraps := Nat.le_of_not_lt hsum
        rw [(clamp_of_wrap (Nat.le_of_not_lt hpos) hcount1 hwraps hvalid.length_lt).2]
        refine iff_of_false (not_settles_of_wraps hvalid (by omega) hwraps ?_) fun hboth =>
          hsum hboth.1
        have hdouble : 2 * ptrdiffMax < wordRange := by decide
        have hbounded := hvalid.bounded
        omega

/-- `std::char_traits<char>`, which compares characters as `unsigned char`. -/
def charTraits : CharTraits where
  lt := fun left right => left < right
  compare := lexSign fun left right => left < right
  compare_int := fun left right => by
    have hbounds := @lexSign_bounds (fun left right => left < right) left right
    omega
  compare_sign := fun left right _ => by
    have hbounds := @lexSign_bounds (fun left right => left < right) left right
    generalize lexSign (fun left right => left < right) left right = sign at hbounds
    obtain rfl | rfl | rfl : sign = -1 ∨ sign = 0 ∨ sign = 1 := by omega
    all_goals rfl

/-- The "bc" of "abc" comes before "bd", and is equal to the "bc" of "bcd". -/
theorem compare_sign_abc :
    Valid (inlineArr zeroArr [97, 98, 99]) (fun _ => none) [97, 98, 99] ∧
      Valid (inlineArr zeroArr [98, 99, 100]) (fun _ => none) [98, 99, 100] ∧
      ComparesAs charTraits
        (compareChars charTraits (peek (inlineArr zeroArr [97, 98, 99]) fun _ => none)
          (getSize (inlineArr zeroArr [97, 98, 99])) 1 2 (fun index => [98, 100][index]?) 2)
        (.ok ([98, 99], [98, 100])) ∧
      ComparesAs charTraits
        (compareSubstring charTraits (peek (inlineArr zeroArr [97, 98, 99]) fun _ => none)
          (getSize (inlineArr zeroArr [97, 98, 99])) 1 2
          (peek (inlineArr zeroArr [98, 99, 100]) fun _ => none)
          (getSize (inlineArr zeroArr [98, 99, 100])) 0 2)
        (.ok ([98, 99], [98, 99])) := by
  have hvalid := valid_inlineArr zeroArr (fun _ => none)
    (show [97, 98, 99].length ≤ maxInBufferSize by decide)
  have hother := valid_inlineArr zeroArr (fun _ => none)
    (show [98, 99, 100].length ≤ maxInBufferSize by decide)
  have hiff := @compare_sign_iff _ _ _ charTraits hvalid _ _ hother _
    (show [98, 100].length < wordRange by decide) 1 2 0 2 (by decide) (by decide)
  refine ⟨hvalid, hother, hiff.1.mpr (Or.inr ?_), hiff.2.mpr (Or.inr (Or.inr ?_))⟩
  · rw [if_pos (by decide)]
    exact Or.inl (by decide)
  · rw [if_pos (by decide)]
    exact Or.inr (by decide)

/-- The rest of "ab" from 1 on is "b", but `npos` characters of it compare as less:
`1 + npos` is zero, the count stays `npos`, and `npos - 1` is narrowed to -2. -/
theorem compare_rest_unclamped :
    Valid (inlineArr zeroArr [97, 98]) (fun _ => none) [97, 98] ∧
      ¬ ComparesAs charTraits
        (compareChars charTraits (peek (inlineArr zeroArr [97, 98]) fun _ => none)
          (getSize (inlineArr zeroArr [97, 98])) 1 npos (fun index => [98][index]?) 1)
        (.ok ([98], [98])) := by
  have hrun : compareChars charTraits (peek (inlineArr zeroArr [97, 98]) fun _ => none)
      (getSize (inlineArr zeroArr [97, 98])) 1 npos (fun index => [98][index]?) 1 =
        some (.ok (-2)) := by
    decide +kernel
  refine ⟨valid_inlineArr zeroArr _ (by decide), ?_⟩
  unfold ComparesAs
  rw [hrun]
  rintro ⟨value, hvalue, hsign⟩
  obtain rfl : -2 = value := by simpa using hvalue
  exact absurd hsign (by decide)

end Crossbow.BasicString
