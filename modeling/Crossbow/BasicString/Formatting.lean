import Crossbow.BasicString.Calls
import Crossbow.BasicString.Objects

/-! `to_string`. A string is handed to `snprintf` as its buffer, is made larger as
long as the text does not fit, and is cut to the length of the text in the end. -/
namespace Crossbow.BasicString
open Kernel

def offer (supply : Option (Nat × Memory)) : Op Unit :=
  Command.modify fun mem => { mem with supply := supply }

/-- The loop of `as_string`. `snprintfLike n` is the status of the call with a
buffer of `n` characters, and what it writes there. The loop has no end where the
list of supplies, of which each round takes one, is too short. -/
def asStringLoop (maxSize : Nat) (snprintfLike : Nat → Int × List UInt8) :
    List (Option (Nat × Memory)) → Nat → Op Unit
  | [], _ => Command.undefined
  | supply :: supplies, available => do
      offer supply
      let mem ← Command.get
      let (status, written) := snprintfLike (wrap (available + 1))
      putChars (getPtr mem.arr) 0 written
      if status ≥ 0 then
        let used := status.toNat
        if used ≤ available then resizeDefault maxSize used
        else do
          resizeDefault maxSize used
          asStringLoop maxSize snprintfLike supplies used
      else do
        let available := wrap (wrap (available * 2) + 1)
        resizeDefault maxSize available
        asStringLoop maxSize snprintfLike supplies available

def asString (maxSize : Nat) (snprintfLike : Nat → Int × List UInt8)
    (supplies : List (Option (Nat × Memory))) : Op Unit := do
  let mem ← Command.get
  asStringLoop maxSize snprintfLike supplies (getSize mem.arr)

def initialString (maxSize : Nat) : Op Unit := do
  constructDefault
  let mem ← Command.get
  resizeDefault maxSize (getCapacity mem.arr)

/-- Every specialization of `to_string`; `snprintfLike` has its format and its value. -/
def toString (maxSize : Nat) (snprintfLike : Nat → Int × List UInt8)
    (supplies : List (Option (Nat × Memory))) : Op Unit := do
  initialString maxSize
  asString maxSize snprintfLike supplies

/-- `snprintf` returns the length of the whole text, and writes as much of it as
leaves room for the terminator. -/
def Formats (snprintfLike : Nat → Int × List UInt8) (text : List UInt8) : Prop :=
  ∀ n, 0 < n → snprintfLike n = ((text.length : Int), text.take (n - 1) ++ [0])

variable {mem : Mem} {list text : List UInt8} {maxSize : Nat}
  {snprintfLike : Nat → Int × List UInt8}

/-- A string that `snprintf` has written into. A text that is shorter stands at its
beginning, and one that is too long is cut to its size. -/
structure Printed (before : Mem) (text : List UInt8) (size : Nat) (after : Mem)
    (list : List UInt8) : Prop where
  supply : after.supply = before.supply
  free : ∀ address, before.heap address = none → after.heap address = none
  length : list.length = size
  start : text.take size <+: list
  becomes : Becomes (some before.arr) before.heap list after

theorem Holds.printed (hholds : Holds mem.arr mem.heap list) (text : List UInt8) :
    Command.Returns (putChars (getPtr mem.arr) 0 (text.take list.length ++ [0])) mem
      fun _ after => ∃ result, Printed mem text list.length after result := by
  have hfits := hholds.fits
  have hlength : (text.take list.length).length ≤ list.length := by
    rw [List.length_take]
    omega
  refine (hholds.edited.putChars (by simp; omega)).mono fun _ after hafter => ?_
  generalize hchars : store (chars mem.arr mem.heap) 0 (text.take list.length ++ [0]) = written
    at hafter
  refine ⟨load written 0 list.length, hafter.supply, fun address hfree => ?_, length_load .., ?_,
    .ofEdited hholds.becomes.2 hafter hfits rfl ?_⟩
  · rw [hafter.others address (hholds.shaped.ptr_ne_free hfree), hfree]
  · rw [List.prefix_iff_eq_take, take_load _ _ hlength, ← hchars,
      load_store_take _ _ (by rw [List.length_append]; omega), List.take_left]
  · rw [← hchars]
    -- the terminator of the text may have come to stand on the one of the string
    by_cases hexact : (text.take list.length).length = list.length
    · have hinside := @store_inside (chars mem.arr mem.heap) 0 (text.take list.length ++ [0])
        list.length (by simp only [List.length_append, List.length_singleton]; omega)
      rw [Nat.zero_add] at hinside
      rw [hinside, List.getElem_append_right (by omega)]
      simp
    · rw [store_of_ge _ (by simp only [List.length_append, List.length_singleton]; omega),
        hholds.terminated]

section Rounds

variable (hholds : Holds mem.arr mem.heap list) (hformats : Formats snprintfLike text)
  (hword : list.length + 1 < wordRange)
include hholds hformats hword

theorem asStringLoop_round {supply : Option (Nat × Memory)}
    {supplies : List (Option (Nat × Memory))} {post : Unit → Mem → Prop}
    (hround : ∀ printed result, Printed { mem with supply := supply } text list.length printed
      result → Command.Returns (if text.length ≤ list.length then resizeDefault maxSize text.length
        else do
          resizeDefault maxSize text.length
          asStringLoop maxSize snprintfLike supplies text.length) printed post) :
    Command.Returns (asStringLoop maxSize snprintfLike (supply :: supplies) list.length) mem
      post := by
  have hstatus := hformats (list.length + 1) (Nat.succ_pos _)
  rw [Nat.add_sub_cancel] at hstatus
  unfold asStringLoop
  rw [wrap_of_lt hword, hstatus]
  refine .bind (.modify (.bind (.get ?_)))
  apply (@Holds.printed { mem with supply := supply } list hholds text).seq
  rintro _ printed ⟨result, hprinted⟩
  rw [if_pos (Int.natCast_nonneg _)]
  exact hround printed result hprinted

theorem asStringLoop_fits (hfits : text.length ≤ list.length) (supply : Option (Nat × Memory))
    (supplies : List (Option (Nat × Memory))) :
    Command.Returns (asStringLoop maxSize snprintfLike (supply :: supplies) list.length) mem
      fun _ after => Becomes (some mem.arr) mem.heap text after := by
  refine asStringLoop_round hholds hformats hword fun printed result hprinted => ?_
  obtain ⟨_, _, hlength, hstart, hholds', htransfer⟩ := hprinted
  have hcapacity := hholds'.fits
  rw [List.take_of_length_le hfits] at hstart
  rw [if_pos hfits]
  refine (resize_inPlace hholds' 0 (by omega)).mono fun _ after ⟨⟨hafter, htransfer'⟩, _⟩ => ?_
  rw [hlength, show text.length - list.length = 0 by omega, List.replicate_zero, List.append_nil,
    ← List.prefix_iff_eq_take.mp hstart] at hafter
  exact ⟨hafter, htransfer.trans htransfer'⟩

theorem asStringLoop_grows (hlong : list.length < text.length)
    (hreservable : Reservable maxSize text.length) {first : Option (Nat × Memory)}
    (hsupplied : Supplied first mem.heap) (second : Option (Nat × Memory))
    (supplies : List (Option (Nat × Memory))) :
    Command.Returns (asStringLoop maxSize snprintfLike (first :: second :: supplies) list.length)
      mem fun _ after => Becomes (some mem.arr) mem.heap text after := by
  refine asStringLoop_round hholds hformats hword fun printed result hprinted => ?_
  obtain ⟨hsupply, hfree, hlength, _, hholds', htransfer⟩ := hprinted
  rw [if_neg (by omega)]
  have hsupplied' : Supplied printed.supply printed.heap := by
    rw [hsupply]
    obtain ⟨address, bytes, rfl⟩ := hsupplied.some
    obtain ⟨hpos, haddress, hnone⟩ := hsupplied
    exact ⟨hpos, haddress, Option.isNone_iff_eq_none.mpr
      (hfree address (Option.isNone_iff_eq_none.mp hnone))⟩
  apply (resize_returns hholds' hsupplied' 0 hreservable).seq
  rintro _ grown ⟨hgrown, htransfer'⟩
  have hpadded := length_resized result text.length 0
  generalize result.take text.length ++ List.replicate (text.length - result.length) 0 = padded
    at hgrown hpadded
  rw [← hpadded]
  have hnext := @asStringLoop_fits grown padded text maxSize snprintfLike hgrown hformats
    (by rw [hpadded]; exact hreservable.2) (Nat.le_of_eq hpadded.symm) second supplies
  exact hnext.mono fun _ after ⟨hafter, htransfer''⟩ =>
    ⟨hafter, (htransfer.trans htransfer').trans htransfer''⟩

end Rounds

theorem asString_returns (hholds : Holds mem.arr mem.heap list)
    (hformats : Formats snprintfLike text) (hword : list.length + 1 < wordRange)
    (hreservable : Reservable maxSize text.length) {first : Option (Nat × Memory)}
    (hsupplied : Supplied first mem.heap) (second : Option (Nat × Memory))
    (supplies : List (Option (Nat × Memory))) :
    Command.Returns (asString maxSize snprintfLike (first :: second :: supplies)) mem
      fun _ after => Becomes (some mem.arr) mem.heap text after := by
  unfold asString
  refine .bind (.get ?_)
  rw [hholds.size]
  rcases Nat.lt_or_ge list.length text.length with hlong | hfits
  · exact asStringLoop_grows hholds hformats hword hlong hreservable hsupplied second supplies
  · exact asStringLoop_fits hholds hformats hword hfits first (second :: supplies)

theorem initialString_returns :
    Command.Returns (initialString maxSize) mem fun _ after =>
      Becomes none mem.heap (List.replicate maxInBufferSize 0) after ∧ after.heap = mem.heap := by
  have hmark : zeroArr 0 ≠ nullchar := by decide
  have hresize := @resize_inPlace { mem with arr := zeroArr } [] (holds_zeroArr mem.heap) maxSize
    maxInBufferSize 0 (Nat.le_of_eq (getCapacity_inline hmark).symm)
  refine .bind (editArr_returns (.bind (.get ?_)))
  dsimp only
  rw [getCapacity_inline hmark]
  refine hresize.mono fun _ after ⟨⟨hafter, htransfer⟩, hptr⟩ => ?_
  rw [List.take_nil, List.nil_append, List.length_nil, Nat.sub_zero] at hafter
  have howns : ∀ address, ¬ Owns (some after.arr) address := by
    intro address
    rw [owns_some, hptr, getPtr_inline hmark]
    nofun
  have hheap : after.heap = mem.heap := by
    funext address
    exact htransfer.others address (not_owns_inline hmark address) (howns address)
  refine ⟨⟨hafter, ?_⟩, hheap⟩
  rw [hheap]
  exact .keep fun address => iff_of_false (howns address) (owns_none address)

/-- `to_string` gives the whole text, whatever its length. That it returns says that
`snprintf` is never allowed to write outside of the array or the block, and that
the loop ends, after at most two rounds. -/
theorem toString_formats (hformats : Formats snprintfLike text) (hlength : text.length < 2 ^ 31)
    (hmax : 2 ^ 31 ≤ maxSize) {first : Option (Nat × Memory)} (hsupplied : Supplied first mem.heap)
    (second : Option (Nat × Memory)) (supplies : List (Option (Nat × Memory))) :
    Command.Returns (toString maxSize snprintfLike (first :: second :: supplies)) mem
      fun _ after => Becomes none mem.heap text after := by
  have hword : 2 ^ 31 + 1 < wordRange := by decide
  apply initialString_returns.seq
  rintro _ initial ⟨⟨hinitial, htransfer⟩, hheap⟩
  have hstring := asString_returns hinitial hformats (by decide)
    (show Reservable maxSize text.length from ⟨by omega, by omega⟩) (hheap ▸ hsupplied) second
    supplies
  exact hstring.mono fun _ after ⟨hafter, htransfer'⟩ => ⟨hafter, htransfer.trans htransfer'⟩

/-- A text of 31 characters, one more than the array has room for. -/
theorem toString_formats_long :
    Command.Returns (toString (2 ^ 40)
        (fun n => (31, (List.replicate 31 49).take (n - 1) ++ [0]))
        [some (4096, zeroArr), none]) ⟨zeroArr, fun _ => none, none, []⟩
      fun _ after => Becomes none (fun _ => none) (List.replicate 31 49) after :=
  toString_formats (fun _ _ => rfl) (by decide) (by decide)
    (show Supplied (some (4096, zeroArr)) fun _ => none from ⟨by decide, by decide, rfl⟩) none []

end Crossbow.BasicString
