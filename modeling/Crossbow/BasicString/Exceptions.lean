import Crossbow.BasicString.SelfInsert

/-! What a member that throws has done to the string. Nearly all of them ask for
room before they touch it; `replace` overwrites characters first. The room that is
asked for is a sum that can wrap. -/
namespace Crossbow.BasicString
open Kernel

variable {mem : Mem} {list text : List UInt8} {last : Nat}

/-! ### Members that ask for room first -/

abbrev Atomic {Value : Type} (command : Op Value) (mem : Mem) : Prop :=
  Command.OnFault command mem fun _ after => Untouched mem after

theorem atomic_reserve {maxSize newCap : Nat} {next : Unit → Op Unit}
    (hnext : ∀ value, Silent (next value)) : Atomic (reserve maxSize newCap >>= next) mem :=
  .first ⟨fun hrun => (reserve_error hrun).2.2⟩ hnext

theorem assignText_atomic (maxSize : Nat) (text : List UInt8) :
    Atomic (assignText maxSize text) mem :=
  atomic_reserve fun _ => .bind .get fun _ => .bind (putChars_silent ..) fun _ =>
    .bind (editArr_silent _) fun _ => terminate_silent

theorem operatorAssignChar_atomic (maxSize : Nat) (ch : UInt8) :
    Atomic (operatorAssignChar maxSize ch) mem :=
  atomic_reserve fun _ => .bind (editArr_silent _) fun _ => .bind .get fun _ =>
    .bind (write_silent ..) fun _ => terminate_silent

theorem resize_atomic (maxSize count : Nat) (ch : UInt8) : Atomic (resize maxSize count ch) mem :=
  .get <| atomic_reserve fun _ => .bind .get fun _ => .bind (write_silent ..) fun _ =>
    .bind (editArr_silent _) fun _ => .ite (.pure _) (putChars_silent ..)

theorem pushBack_atomic (maxSize : Nat) (c : UInt8) : Atomic (pushBack maxSize c) mem := by
  have hrest : ∀ size : Nat, Silent (do
      let mem ← Command.get
      write (getPtr mem.arr) size c
      editArr (setSize · (wrap (size + 1)))
      terminate : Op Unit) := fun size => .bind .get fun _ => .bind (write_silent ..) fun _ =>
    .bind (editArr_silent _) fun _ => terminate_silent
  exact .get (.ite (atomic_reserve fun _ => hrest _) (.silent (hrest _)))

theorem insertText_onFault (maxSize index : Nat) (text : List UInt8) :
    Command.OnFault (insertText maxSize index text) mem fun _ after =>
      RoomDenied maxSize (wrap (getSize mem.arr + text.length)) mem ∧ Untouched mem after := by
  refine .get (.first ⟨fun hrun => (reserve_error hrun).2⟩ fun _ => .bind .get fun _ => ?_)
  exact .bind (write_silent ..) fun _ => .bind (moveTail_silent ..) fun _ =>
    .bind (putChars_silent ..) fun _ => editArr_silent _

theorem insertText_atomic (maxSize index : Nat) (text : List UInt8) :
    Atomic (insertText maxSize index text) mem :=
  (insertText_onFault ..).mono fun _ _ => And.right

theorem insertChecked_atomic (maxSize index : Nat) (text : List UInt8) :
    Atomic (insertChecked maxSize index text) mem :=
  .get (.ite (.throw (.refl mem)) (insertText_atomic ..))

theorem insertRange_atomic (maxSize pos : Nat) (text : List UInt8) :
    Atomic (insertRange maxSize pos text) mem :=
  .get (.ite (insertText_atomic ..) (.silent .undefined))

theorem insertFrom_atomic (maxSize index : Nat) (source : Ptr) (start count : Nat) :
    Atomic (insertFrom maxSize index source start count) mem :=
  .get <| atomic_reserve fun _ => .bind .get fun _ => .bind (write_silent ..) fun _ =>
    .bind (moveTail_silent ..) fun _ => .bind (copyChars_silent ..) fun _ => editArr_silent _

theorem assignSubstring_atomic (maxSize : Nat) (str : List UInt8) (pos count : Nat) :
    Atomic (assignSubstring maxSize str pos count) mem :=
  .ite (.throw (.refl mem)) (.ite (assignText_atomic ..) (atomic_reserve fun _ => .undefined))

theorem insertSubstring_atomic (maxSize index : Nat) (str : List UInt8) (indexStr count : Nat) :
    Atomic (insertSubstring maxSize index str indexStr count) mem :=
  .ite (.throw (.refl mem)) (insertChecked_atomic ..)

theorem shrinkToFit_atomic : Atomic shrinkToFit mem := by
  have hbuffer : ∀ (s c : Nat) (ptr : Ptr), Silent (do
      editArr (store · 0 [UInt8.ofNat s])
      copyChars ptr 0 .buffer 0 s
      deallocate ptr c
      write .buffer s 0 : Op Unit) := fun s c ptr =>
    .bind (editArr_silent _) fun _ => .bind (copyChars_silent ..) fun _ =>
      .bind (deallocate_silent ..) fun _ => write_silent ..
  refine .get (.ite (.silent (.pure _)) (.ite (.silent (.pure _)) (.ite (.silent (hbuffer ..)) ?_)))
  refine .first ⟨fun hrun => ?_⟩ fun nptr => .bind (copyChars_silent ..) fun _ =>
    .bind (write_silent ..) fun _ => .bind (deallocate_silent ..) fun _ =>
    .bind (editArr_silent _) fun _ => editArr_silent _
  obtain ⟨_, _, rfl⟩ := allocate_error hrun
  exact .refl _

/-! ### `replace` -/

/-- Where a command throws, the string still holds its text, in the same room. -/
abbrev Unharmed (command : Op Unit) (mem : Mem) (list : List UInt8) : Prop :=
  Command.OnFault command mem fun _ after =>
    Holds after.arr after.heap list ∧ getCapacity after.arr = getCapacity mem.arr

theorem unharmed_of_atomic {command : Op Unit} (hholds : Holds mem.arr mem.heap list)
    (hatomic : Atomic command mem) : Unharmed command mem list :=
  hatomic.mono fun _ _ huntouched => ⟨huntouched.holds hholds, by rw [huntouched.arr]⟩

theorem roomDenied_edited_iff {filled : Mem} {room size : Nat} {text : Memory}
    (hshaped : Shaped mem.arr mem.heap room) (hedited : Edited mem filled room size text)
    {maxSize newCap : Nat} :
    RoomDenied maxSize newCap filled ↔ RoomDenied maxSize newCap mem := by
  have hzero : filled.heap 0 = none ↔ mem.heap 0 = none := by
    by_cases hown : getPtr mem.arr = .block 0
    · refine iff_of_false (fun hfree => ?_) fun hfree => hshaped.ptr_ne_free hfree hown
      exact hedited.shaped.ptr_ne_free hfree (hedited.ptr.trans hown)
    · rw [hedited.others 0 hown]
  unfold RoomDenied Refused
  rw [hedited.shaped.capacity, hshaped.capacity, hedited.supply, hzero]

/-- The characters that are overwritten before room is asked for in vain are
overwritten with themselves. -/
def SparedRange (maxSize : Nat) (mem : Mem) (list : List UInt8) (first last : Nat)
    (text : List UInt8) : Prop :=
  first ≤ last → last ≤ list.length → last - first < text.length →
    RoomDenied maxSize (wrap (list.length + (text.length - (last - first)))) mem →
    (list.drop first).take (last - first) = text.take (last - first)

theorem insertText_throws {maxSize index : Nat}
    (hdenied : RoomDenied maxSize (wrap (getSize mem.arr + text.length)) mem) :
    Command.Throws (insertText maxSize index text) mem fun _ after => Untouched mem after := by
  unfold insertText
  apply Command.Throws.later
  apply Command.Returns.get
  exact (reserve_throws hdenied).now

theorem replaceRange_shorter {maxSize first : Nat} (hshort : ¬ last - first < text.length) :
    Unharmed (replaceRange maxSize first last text) mem list := by
  refine .get (.ite ?_ (.silent .undefined))
  rw [Nat.min_eq_right (by omega)]
  refine .silent (.bind (putChars_silent ..) fun _ => .ite (erase_silent ..) ?_)
  rw [if_neg (by simp)]
  exact .pure ()

theorem replaceRange_unharmed_iff (hholds : Holds mem.arr mem.heap list) {maxSize first : Nat} :
    Unharmed (replaceRange maxSize first last text) mem list ↔
      SparedRange maxSize mem list first last text := by
  have hfits := hholds.fits
  unfold SparedRange
  by_cases hrange : first ≤ last ∧ last ≤ list.length
  · by_cases hlong : last - first < text.length
    · have hlength : (text.take (last - first)).length = last - first := by
        rw [List.length_take]
        omega
      obtain ⟨_, filled, hfill, hedited⟩ := hholds.edited.putChars
        (show first + (text.take (last - first)).length ≤ getCapacity mem.arr + 1 by omega)
      have hpresent := (hholds.overwritten (by omega) hedited).1
      rw [hlength, show first + (last - first) = last by omega] at hpresent
      have hrun : replaceRange maxSize first last text mem =
          insertText maxSize last (text.drop (last - first)) filled := by
        rw [replaceRange, Command.get_bind, hholds.size, if_pos hrange,
          Nat.min_eq_left (by omega), Command.bind_of_ok hfill, if_neg (by omega),
          if_pos (by omega), insertRange, Command.get_bind, hedited.size, if_pos hrange.2]
      have hneeded : wrap (getSize filled.arr + (text.drop (last - first)).length) =
          wrap (list.length + (text.length - (last - first))) := by
        rw [hedited.size, List.length_drop]
      by_cases hdenied :
          RoomDenied maxSize (wrap (list.length + (text.length - (last - first)))) mem
      · have hdenied' := (roomDenied_edited_iff hholds.shaped hedited).mpr hdenied
        rw [← hneeded] at hdenied'
        obtain ⟨fault, after, hthrown, huntouched⟩ := insertText_throws hdenied'
        have hafter := huntouched.holds hpresent
        constructor
        · intro hunharmed _ _ _ _
          have hsame := hafter.unique (hunharmed.leaves (hrun.trans hthrown)).1
          exact (splice_same_iff hrange.1).mp hsame
        · intro hspared
          have hsame := (splice_same_iff hrange.1).mpr (hspared hrange.1 hrange.2 hlong hdenied)
          refine ⟨fun hrun' => ?_⟩
          cases (hrun.trans hthrown).symm.trans hrun'
          refine ⟨?_, ?_⟩
          · rw [← hsame]
            exact hafter
          · rw [huntouched.arr, hedited.shaped.capacity]
      · refine iff_of_true ⟨fun hrun' => ?_⟩ fun _ _ _ hdenied' => absurd hdenied' hdenied
        have herror := (insertText_onFault ..).leaves (hrun.symm.trans hrun')
        rw [hneeded] at herror
        exact absurd ((roomDenied_edited_iff hholds.shaped hedited).mp herror.1) hdenied
    · exact iff_of_true (replaceRange_shorter hlong) fun _ _ hlonger =>
        absurd hlonger hlong
  · refine iff_of_true ⟨fun hrun => ?_⟩ fun horder hlast => absurd ⟨horder, hlast⟩ hrange
    rw [replaceRange, Command.get_bind, hholds.size, if_neg hrange] at hrun
    cases hrun

theorem overwrite_past {ptr : Ptr} {index : Nat} (hlast : last < index) {left : Nat × List UInt8}
    {after : Mem}
    (hrun : overwrite ptr index last text mem = some (.ok left, after)) : last < left.1 := by
  induction text generalizing mem index with
  | nil =>
      cases hrun
      exact hlast
  | cons ch rest ih =>
      rw [overwrite, if_pos (by omega)] at hrun
      obtain ⟨_, middle, _, hrest⟩ := Command.bind_eq_ok.mp hrun
      exact ih (by omega) hrest

theorem replacePointers_past {maxSize first : Nat} (horder : last < first) (text : List UInt8)
    {post : Exn → Mem → Prop} :
    Command.OnFault (replacePointers maxSize first last text) mem post := by
  refine .get (.bind (.silent (overwrite_silent ..)) fun ⟨index, rest⟩ after hrun => ?_)
  have hpast : last < index := overwrite_past horder hrun
  dsimp only
  rw [if_pos (by omega)]
  exact .silent (erasePointers_silent ..)

section Positional

variable (hholds : Holds mem.arr mem.heap list) {maxSize pos count : Nat}
  (hcount : count < wordRange)
include hholds

theorem replaceCount_reversed (hreversed : rangeEnd list.length pos count < pos)
    (text : List UInt8) {post : Exn → Mem → Prop} :
    Command.OnFault (replaceCount maxSize pos count text) mem post := by
  refine .get (.bind (.silent (seek_silent ..)) fun _ after _ => ?_)
  rw [hholds.size]
  exact replacePointers_past hreversed text

theorem replaceCount_past (hpos : list.length < pos) (text : List UInt8) :
    Unharmed (replaceCount maxSize pos count text) mem list := by
  refine replaceCount_reversed hholds ?_ text
  unfold rangeEnd
  split <;> omega

theorem positional_unharmed_iff {last : Nat} {text : List UInt8} {command : Op Unit}
    (hrange : pos + count < wordRange →
      command mem = replaceRange maxSize pos last text mem)
    (hwraps : wordRange ≤ pos + count → Unharmed command mem list) :
    Unharmed command mem list ↔
      (pos + count < wordRange → SparedRange maxSize mem list pos last text) := by
  by_cases hsum : pos + count < wordRange
  · rw [forall_prop_of_true hsum]
    exact (Command.onFault_congr (hrange hsum)).trans (replaceRange_unharmed_iff hholds)
  · exact iff_of_true (hwraps (by omega)) fun hsum' => absurd hsum' hsum

include hcount

theorem replaceCount_unharmed_iff (hpos : pos ≤ list.length) (text : List UInt8) :
    Unharmed (replaceCount maxSize pos count text) mem list ↔ (pos + count < wordRange →
      SparedRange maxSize mem list pos (pos + min count (list.length - pos)) text) :=
  positional_unharmed_iff hholds (fun hsum => replaceCount_eq hholds hpos hsum text)
    fun hsum => replaceCount_reversed hholds (rangeEnd_lt hholds hpos hcount hsum) text

theorem replaceFillPos_unharmed_iff (hpos : pos ≤ list.length) (count2 : Nat) (ch : UInt8) :
    Unharmed (replaceFillPos maxSize pos count count2 ch) mem list ↔ (pos + count < wordRange →
      SparedRange maxSize mem list pos (pos + min count (list.length - pos))
        (List.replicate count2 ch)) := by
  refine positional_unharmed_iff hholds (fun hsum => replaceFillPos_eq hholds ch hpos hsum)
    fun hsum => ?_
  have hreversed := rangeEnd_lt hholds hpos hcount hsum
  exact (Command.onFault_congr (replaceFillPos_reversed hholds ch hpos hreversed)).mpr
    (replacePointers_past hreversed _)

end Positional

/-- `replace(pos, count, …)` is one of the calls that leave the string as it was. -/
def Replacement.Spared (maxSize : Nat) (arg : List UInt8) (mem : Mem) (list : List UInt8)
    (pos count : Nat) (replacement : Replacement) : Prop :=
  pos ≤ list.length → replacement.InRange arg list pos count → ∀ text,
    replacement.text arg = .ok text →
    SparedRange maxSize mem list pos (pos + min count (list.length - pos)) text

theorem Replacement.spared_iff {maxSize pos count : Nat} {arg : List UInt8}
    {replacement : Replacement} {range : Prop} (hpos : pos ≤ list.length)
    (hrange : replacement.InRange arg list pos count ↔ range)
    (htext : replacement.text arg = .ok text) :
    replacement.Spared maxSize arg mem list pos count ↔
      (range → SparedRange maxSize mem list pos (pos + min count (list.length - pos)) text) := by
  unfold Replacement.Spared
  rw [hrange, htext]
  constructor
  · intro hspared hin
    exact hspared hpos hin text rfl
  · intro hspared _ hin other hother
    cases hother
    exact hspared hin

theorem Replacement.past_unharmed (hholds : Holds mem.arr mem.heap list) {maxSize pos count : Nat}
    (hpos : list.length < pos) (arg : List UInt8) (replacement : Replacement) :
    Unharmed (replacement.run maxSize pos count arg) mem list := by
  cases replacement with
  | string | substring | fill =>
      refine ⟨fun hrun => ?_⟩
      cases (Replacement.run_past hholds hpos arg (by simp) (by simp)).symm.trans hrun
      exact ⟨hholds, rfl⟩
  | chars => exact replaceCount_past hholds hpos arg
  | cString => exact replaceCount_past hholds hpos (cText arg)

theorem Replacement.unharmed_iff (hholds : Holds mem.arr mem.heap list) {maxSize pos count : Nat}
    (hcount : count < wordRange) (arg : List UInt8) (replacement : Replacement)
    (hwords : replacement.InWords) :
    Unharmed (replacement.run maxSize pos count arg) mem list ↔
      replacement.Spared maxSize arg mem list pos count := by
  by_cases hpos : list.length < pos
  · exact iff_of_true (replacement.past_unharmed hholds hpos arg) fun hinside =>
      absurd hinside (by omega)
  have hinside : pos ≤ list.length := by omega
  cases replacement with
  | string =>
      refine Iff.trans (Command.onFault_congr ?_) (Iff.trans
        (replaceCount_unharmed_iff hholds hcount hinside arg)
        (Iff.symm (spared_iff hinside (or_iff_right hpos) rfl)))
      rw [Replacement.run, replacePosString, Command.get_bind, hholds.size, if_neg hpos]
  | chars =>
      exact Iff.trans (replaceCount_unharmed_iff hholds hcount hinside arg)
        (Iff.symm (spared_iff hinside (and_iff_right hinside) rfl))
  | cString =>
      exact Iff.trans (replaceCount_unharmed_iff hholds hcount hinside (cText arg))
        (Iff.symm (spared_iff hinside (and_iff_right hinside) rfl))
  | fill count2 ch =>
      refine Iff.trans ?_ (Iff.symm (spared_iff hinside (or_iff_right hpos) rfl))
      exact replaceFillPos_unharmed_iff hholds hcount hinside count2 ch
  | substring pos2 count2 behind =>
      by_cases hpos2 : arg.length < pos2
      · refine iff_of_true (.get ?_) fun _ _ text htext => ?_
        · rw [if_pos (Or.inr hpos2)]
          exact .throw ⟨hholds, rfl⟩
        · rw [Replacement.text, substringOf, if_pos hpos2] at htext
          cases htext
      · refine Iff.trans ?_ (Iff.symm (spared_iff hinside
          ((or_iff_right hpos).trans (or_iff_right hpos2)) (if_neg hpos2)))
        by_cases hsum2 : pos2 + count2 < wordRange
        · rw [and_iff_left (Or.inl hsum2), ← replaceCount_unharmed_iff hholds hcount hinside]
          exact Command.onFault_congr
            (replacePosSubstring_eq hholds hinside (by omega) hsum2 behind)
        · rw [or_iff_right hsum2]
          refine iff_of_true ?_ fun hrange _ _ hlonger => ?_
          · exact (Command.onFault_congr (replacePosSubstring_endless hholds hinside (by omega)
              hwords.1 hwords.2 (by omega))).mpr (.silent (overwriteEndless_silent ..))
          · rw [List.length_take, List.length_drop] at hlonger
            omega

/-! ### All modifiers -/

def operatorMove (str : Memory) : Op Unit := do
  moveRelease
  editArr fun _ => str

/-- Every member that changes the string. Arguments are not part of it, except in
`append(str, pos, count)`, which reads the string whatever `str` is. -/
inductive Modifier where
  | member (call : Call)
  | operatorMove (str : Memory)
  | appendFill (count : Nat) (ch : UInt8)
  | appendString
  | appendSubstring (pos count : Nat)
  | appendChars
  | appendCString
  | appendList
  | operatorAddString
  | operatorAddChar (ch : UInt8)
  | operatorAddCString
  | operatorAddList
  | eraseCount (index count : Nat)
  | replaceAt (pos count : Nat) (replacement : Replacement)

def Modifier.run (maxSize : Nat) (arg : List UInt8) : Modifier → Op Unit
  | .member call => call.run maxSize arg
  | .operatorMove str => BasicString.operatorMove str
  | .appendFill count ch => BasicString.appendFill maxSize count ch
  | .appendString => BasicString.appendString maxSize arg
  | .appendSubstring pos count => BasicString.appendSubstring maxSize arg pos count
  | .appendChars => BasicString.appendChars maxSize arg
  | .appendCString => BasicString.appendCString maxSize arg
  | .appendList => BasicString.appendList maxSize arg
  | .operatorAddString => BasicString.operatorAddString maxSize arg
  | .operatorAddChar ch => BasicString.operatorAddChar maxSize ch
  | .operatorAddCString => BasicString.operatorAddCString maxSize arg
  | .operatorAddList => BasicString.operatorAddList maxSize arg
  | .eraseCount index count => BasicString.eraseCount index count
  | .replaceAt pos count replacement => replacement.run maxSize pos count arg

/-- A `replace` with iterators is one of those that leave the string as it was. -/
def Call.Spared (maxSize : Nat) (arg : List UInt8) (mem : Mem) (list : List UInt8) : Call → Prop
  | .replaceRange first last | .replaceString first last | .replaceChars first last
  | .replaceList first last => SparedRange maxSize mem list first last arg
  | .replaceCString first last => SparedRange maxSize mem list first last (cText arg)
  | .replaceFill first last count2 ch =>
      SparedRange maxSize mem list first last (List.replicate count2 ch)
  | _ => True

def Modifier.Spared (maxSize : Nat) (arg : List UInt8) (mem : Mem) (list : List UInt8) :
    Modifier → Prop
  | .member call => call.Spared maxSize arg mem list
  | .replaceAt pos count replacement => replacement.Spared maxSize arg mem list pos count
  | _ => True

def Modifier.InWords : Modifier → Prop
  | .replaceAt _ count replacement => count < wordRange ∧ replacement.InWords
  | _ => True

theorem clear_silent : Silent clear :=
  .bind .get fun _ => .bind (write_silent ..) fun _ => editArr_silent _

theorem popBack_silent : Silent popBack :=
  .bind .get fun _ => .bind (editArr_silent _) fun _ => terminate_silent

theorem operatorMove_silent (str : Memory) : Silent (operatorMove str) :=
  .bind (.bind .get fun _ => .ite (deallocate_silent ..) (.pure _)) fun _ => editArr_silent _

theorem appendRange_atomic (maxSize : Nat) (text : List UInt8) :
    Atomic (appendRange maxSize text) mem :=
  .get (insertRange_atomic ..)

theorem appendFill_atomic (maxSize count : Nat) (ch : UInt8) :
    Atomic (appendFill maxSize count ch) mem :=
  .get (insertChecked_atomic ..)

theorem appendSubstring_atomic (maxSize : Nat) (str : List UInt8) (pos count : Nat) :
    Atomic (appendSubstring maxSize str pos count) mem := by
  refine .get (.bind (.silent (seek_silent ..)) fun _ after hseek => ?_)
  rw [seek_state hseek]
  refine .ite (.ite (insertFrom_atomic ..) (.silent (.pure _))) ?_
  refine .bind (.silent (seek_silent ..)) fun _ after hseek => ?_
  rw [seek_state hseek]
  exact insertFrom_atomic ..

theorem eraseCount_atomic (index count : Nat) : Atomic (eraseCount index count) mem :=
  .get (.ite (.throw (.refl mem)) (.silent (erase_silent ..)))

theorem Call.unharmed_iff (hholds : Holds mem.arr mem.heap list) {maxSize : Nat}
    (arg : List UInt8) (call : Call) :
    Unharmed (call.run maxSize arg) mem list ↔ call.Spared maxSize arg mem list := by
  cases call with
  | replaceRange | replaceString | replaceChars | replaceCString | replaceList =>
      exact replaceRange_unharmed_iff hholds
  | replaceFill first last count2 ch =>
      exact (Command.onFault_congr (replaceFill_eq hholds ch)).trans
        (replaceRange_unharmed_iff hholds)
  | operatorAssign | operatorAssignCString | operatorAssignList | operatorAssignStd | assignFill
  | assignChars | assignCString | assignRange | assignList =>
      exact iff_of_true (unharmed_of_atomic hholds (assignText_atomic ..)) trivial
  | operatorAssignChar ch =>
      exact iff_of_true (unharmed_of_atomic hholds (operatorAssignChar_atomic ..)) trivial
  | assignString =>
      refine iff_of_true (unharmed_of_atomic hholds ?_) trivial
      exact .first (assignText_atomic ..) fun _ => .undefined
  | assignSubstring =>
      exact iff_of_true (unharmed_of_atomic hholds (assignSubstring_atomic ..)) trivial
  | reserve =>
      refine iff_of_true (unharmed_of_atomic hholds ⟨fun hrun => ?_⟩) trivial
      exact (reserve_error hrun).2.2
  | shrinkToFit => exact iff_of_true (unharmed_of_atomic hholds shrinkToFit_atomic) trivial
  | clear => exact iff_of_true (.silent clear_silent) trivial
  | insertFill | insertChars | insertCString | insertString | insertCharAt | insertFillAt =>
      exact iff_of_true (unharmed_of_atomic hholds (insertChecked_atomic ..)) trivial
  | insertSubstring =>
      exact iff_of_true (unharmed_of_atomic hholds (insertSubstring_atomic ..)) trivial
  | insertRange | insertList =>
      exact iff_of_true (unharmed_of_atomic hholds (insertRange_atomic ..)) trivial
  | erase | erasePosition => exact iff_of_true (.silent (erase_silent ..)) trivial
  | pushBack => exact iff_of_true (unharmed_of_atomic hholds (pushBack_atomic ..)) trivial
  | popBack => exact iff_of_true (.silent popBack_silent) trivial
  | appendRange => exact iff_of_true (unharmed_of_atomic hholds (appendRange_atomic ..)) trivial
  | resize | resizeDefault =>
      exact iff_of_true (unharmed_of_atomic hholds (resize_atomic ..)) trivial

/-- Every modifier, with the calls after whose exceptions the string is what it was. -/
theorem modifier_unharmed_iff (hholds : Holds mem.arr mem.heap list) (maxSize : Nat)
    (arg : List UInt8) (modifier : Modifier) (hwords : modifier.InWords) :
    Unharmed (modifier.run maxSize arg) mem list ↔ modifier.Spared maxSize arg mem list := by
  cases modifier with
  | member call => exact call.unharmed_iff hholds arg
  | operatorMove => exact iff_of_true (.silent (operatorMove_silent _)) trivial
  | appendFill | operatorAddChar =>
      exact iff_of_true (unharmed_of_atomic hholds (appendFill_atomic ..)) trivial
  | appendString | appendChars | appendCString | appendList | operatorAddString
  | operatorAddCString | operatorAddList =>
      exact iff_of_true (unharmed_of_atomic hholds (appendRange_atomic ..)) trivial
  | appendSubstring =>
      exact iff_of_true (unharmed_of_atomic hholds (appendSubstring_atomic maxSize arg ..)) trivial
  | eraseCount => exact iff_of_true (unharmed_of_atomic hholds (eraseCount_atomic ..)) trivial
  | replaceAt pos count replacement =>
      exact replacement.unharmed_iff hholds hwords.1 arg hwords.2

def fullMem : Mem := { shortMem (List.replicate 30 97) with supply := none }

theorem holds_fullMem : Holds fullMem.arr fullMem.heap (List.replicate 30 97) :=
  (valid_shortMem (by decide)).toHolds

/-- `replace(0, 1, "ab")` overwrites an 'a' with an 'a' before it throws. -/
theorem modifier_unharmed_full :
    Holds fullMem.arr fullMem.heap (List.replicate 30 97) ∧
      Unharmed ((Modifier.replaceAt 0 1 .string).run 1000 [97, 98]) fullMem
        (List.replicate 30 97) := by
  refine ⟨holds_fullMem, ?_⟩
  refine (modifier_unharmed_iff holds_fullMem 1000 [97, 98] (.replaceAt 0 1 .string)
    ⟨by decide, trivial⟩).mpr ?_
  rintro _ _ _ htext _ _ _ _
  cases htext
  decide

/-- `replace(0, 1, "bb")` overwrites an 'a' with a 'b' before it throws. -/
theorem replace_throws_overwritten :
    ((Modifier.replaceAt 0 1 .string).run 1000 [98, 98] fullMem).map
        (fun (outcome, after) => (outcome.toOption, load after.arr 0 3)) =
          some (none, [30, 98, 97]) ∧
      ¬ Unharmed ((Modifier.replaceAt 0 1 .string).run 1000 [98, 98]) fullMem
        (List.replicate 30 97) := by
  refine ⟨by decide +kernel, fun hunharmed => ?_⟩
  have hspared := (Replacement.unharmed_iff holds_fullMem (by decide) [98, 98] .string
    trivial).mp hunharmed
  have hkept := hspared (by decide) (Or.inr (by decide)) [98, 98] rfl (by decide) (by decide)
    (by decide) ⟨by decide +kernel, Or.inr (Or.inl rfl)⟩
  revert hkept
  decide

/-! ### The length -/

/-- A size beyond `max_size()` is an exception that changes nothing; otherwise the
command stays inside of its storage. -/
def LengthGuarded (maxSize total : Nat) (command : Op Unit) (mem : Mem) : Prop :=
  if maxSize < total then
    Command.Throws command mem fun fault after => fault = .lengthError ∧ after = mem
  else (command mem).isSome

/-- The new size is allowed; or it is too large, but not for a word, and more than
there is room for. -/
def LengthSeen (maxSize count : Nat) (mem : Mem) (list : List UInt8) : Prop :=
  list.length + count ≤ maxSize ∨
    (list.length + count < wordRange ∧ getCapacity mem.arr < list.length + count)

theorem reserve_lengthError {maxSize newCap : Nat} (hmore : getCapacity mem.arr < newCap)
    (hlarge : maxSize < newCap) :
    reserve maxSize newCap mem = some (.error .lengthError, mem) := by
  rw [reserve, Command.get_bind, if_neg (by omega), if_pos hlarge]
  rfl

theorem guarded_congr {maxSize total : Nat} {command other : Op Unit}
    (hsame : command mem = other mem) :
    LengthGuarded maxSize total command mem ↔ LengthGuarded maxSize total other mem := by
  unfold LengthGuarded Command.Throws
  rw [hsame]

section Length

variable (hholds : Holds mem.arr mem.heap list)
  (hserved : Supplied mem.supply mem.heap ∨ Refused mem) {maxSize index : Nat}
  (hmax : maxSize + 1 < wordRange) (hindex : index ≤ list.length)
include hholds hserved hmax hindex

theorem insertText_guarded_iff {text : List UInt8} (htext : text.length < wordRange) :
    LengthGuarded maxSize (list.length + text.length) (insertText maxSize index text) mem ↔
      LengthSeen maxSize text.length mem list := by
  have hfits := hholds.fits
  have hword := hholds.shaped.room_lt
  unfold LengthGuarded LengthSeen
  by_cases hlarge : maxSize < list.length + text.length
  · rw [if_pos hlarge, or_iff_right (by omega)]
    by_cases hseen : list.length + text.length < wordRange ∧
        getCapacity mem.arr < list.length + text.length
    · refine iff_of_true ?_ hseen
      unfold insertText
      apply Command.Throws.later
      apply Command.Returns.get
      apply Command.Throws.now
      rw [hholds.size, wrap_of_lt hseen.1]
      exact ⟨_, _, reserve_lengthError hseen.2 hlarge, rfl, rfl⟩
    · refine iff_of_false (fun hthrows => ?_) hseen
      obtain ⟨fault, after, hrun, _⟩ := hthrows
      have hdenied := ((insertText_onFault ..).leaves hrun).1.1
      rw [hholds.size] at hdenied
      -- a sum that wraps is less than the size, for which there is room
      by_cases hsum : list.length + text.length < wordRange
      · rw [wrap_of_lt hsum] at hdenied
        exact hseen ⟨hsum, hdenied⟩
      · have hwraps := wrap_lt_of_overflow (show list.length < wordRange by omega) htext (by omega)
        omega
  · rw [if_neg hlarge]
    refine iff_of_true ?_ (Or.inl (by omega))
    by_cases hroom : list.length + text.length ≤ getCapacity mem.arr
    · exact (insertText_inPlace hholds hindex hroom).isSome
    · rcases hserved with hsupplied | hrefused
      · exact (insertText_returns hholds hsupplied hindex ⟨by omega, by omega⟩).isSome
      · refine (insertText_throws ⟨?_, Or.inr hrefused⟩).isSome
        rw [hholds.size, wrap_of_lt (by omega)]
        omega

theorem insertChecked_guarded_iff {text : List UInt8} (htext : text.length < wordRange) :
    LengthGuarded maxSize (list.length + text.length) (insertChecked maxSize index text) mem ↔
      LengthSeen maxSize text.length mem list := by
  have hrun : insertChecked maxSize index text mem = insertText maxSize index text mem := by
    rw [insertChecked, Command.get_bind, hholds.size, if_neg (by omega)]
  exact (guarded_congr hrun).trans (insertText_guarded_iff hholds hserved hmax hindex htext)

variable {count : Nat} (hcount : count < wordRange) (ch : UInt8)
include hcount

theorem insertFill_guarded_iff :
    LengthGuarded maxSize (list.length + count) (insertFill maxSize index count ch) mem ↔
      LengthSeen maxSize count mem list := by
  have hguarded := @insertChecked_guarded_iff mem list hholds hserved maxSize index hmax hindex
    (List.replicate count ch)
  rw [List.length_replicate] at hguarded
  exact hguarded hcount

theorem replaceFillPos_guarded_iff :
    LengthGuarded maxSize (list.length + count) (replaceFillPos maxSize index 0 count ch) mem ↔
      LengthSeen maxSize count mem list := by
  have hfits := hholds.fits
  have hword := hholds.shaped.room_lt
  have hrange := @replaceFillPos_eq mem list hholds maxSize index 0 count ch hindex (by omega)
  rw [Nat.zero_min, Nat.add_zero, replaceRange, Command.get_bind, hholds.size,
    if_pos ⟨Nat.le_refl _, hindex⟩, Nat.sub_self, Nat.zero_min, List.take_zero, List.drop_zero,
    putChars, Command.pure_bind, if_neg (by simp), List.length_replicate] at hrange
  by_cases hnone : count = 0
  · subst hnone
    refine (guarded_congr hrange).trans ?_
    unfold LengthGuarded LengthSeen
    by_cases hlarge : maxSize < list.length + 0
    · rw [if_pos hlarge]
      refine iff_of_false ?_ (by omega)
      rintro ⟨_, _, hrun, _⟩
      cases hrun
    · rw [if_neg hlarge]
      exact iff_of_true rfl (Or.inl (by omega))
  · rw [if_pos (Ne.symm hnone)] at hrange
    have hinsert : insertRange maxSize index (List.replicate count ch) mem =
        insertFill maxSize index count ch mem := by
      rw [insertRange, insertFill, insertChecked, Command.get_bind, Command.get_bind, hholds.size,
        if_pos hindex, if_neg (by omega)]
    refine (guarded_congr (hrange.trans hinsert)).trans ?_
    exact insertFill_guarded_iff hholds hserved hmax hindex hcount ch

end Length

/-- `insert(index, count, ch)`, `insert(index, s, count)`, `append(count, ch)` and
`replace(index, 0, count, ch)`. -/
theorem length_guarded_iff (hvalid : Valid mem.arr mem.heap list)
    (hserved : Supplied mem.supply mem.heap ∨ Refused mem) {maxSize index : Nat}
    (hmax : maxSize + 1 < wordRange) (hindex : index ≤ list.length) {count : Nat}
    (hcount : count < wordRange) (ch : UInt8) {s : List UInt8} (hs : s.length = count) :
    (LengthGuarded maxSize (list.length + count) (insertFill maxSize index count ch) mem ↔
        LengthSeen maxSize count mem list) ∧
      (LengthGuarded maxSize (list.length + count) (insertChars maxSize index s) mem ↔
        LengthSeen maxSize count mem list) ∧
      (LengthGuarded maxSize (list.length + count) (appendFill maxSize count ch) mem ↔
        LengthSeen maxSize count mem list) ∧
      (LengthGuarded maxSize (list.length + count) (replaceFillPos maxSize index 0 count ch) mem ↔
        LengthSeen maxSize count mem list) := by
  have hholds := hvalid.toHolds
  refine ⟨insertFill_guarded_iff hholds hserved hmax hindex hcount ch, ?_, ?_,
    replaceFillPos_guarded_iff hholds hserved hmax hindex hcount ch⟩
  · subst hs
    exact insertChecked_guarded_iff hholds hserved hmax hindex hcount
  · have hrun : appendFill maxSize count ch mem =
        insertFill maxSize list.length count ch mem := by
      rw [appendFill, Command.get_bind, hholds.size]
    exact (guarded_congr hrun).trans
      (insertFill_guarded_iff hholds hserved hmax (Nat.le_refl _) hcount ch)

/-- Two thousand characters, where a thousand are allowed. -/
theorem length_guarded_ab :
    Valid (shortMem [97, 98]).arr (shortMem [97, 98]).heap [97, 98] ∧
      Command.Throws (insertFill 1000 0 2000 120) (shortMem [97, 98])
        fun fault after => fault = .lengthError ∧ after = shortMem [97, 98] := by
  have hvalid := valid_shortMem (show [97, 98].length ≤ maxInBufferSize by decide)
  have hguarded := (@length_guarded_iff _ _ hvalid (Or.inl (supplied_shortMem _)) 1000 0
    (by decide) (by decide) 2000 (by decide) 120 (List.replicate 2000 120)
    List.length_replicate).1.mpr (Or.inr (by decide))
  rw [LengthGuarded, if_pos (by decide)] at hguarded
  exact ⟨hvalid, hguarded⟩

/-- `insert(0, npos, 'x')` on "ab" asks for room for one character. Where `max_size()`
is less than what fits into the array it is not looked at. -/
theorem length_wraps :
    wrap (2 + npos) = 1 ∧
      ¬ LengthGuarded 1000 (2 + npos) (insertFill 1000 0 npos 120) (shortMem [97, 98]) ∧
      ¬ LengthGuarded 20 (2 + 25) (insertFill 20 0 25 120) (shortMem [97, 98]) := by
  have hvalid := valid_shortMem (show [97, 98].length ≤ maxInBufferSize by decide)
  have hseen : ∀ {maxSize count : Nat}, maxSize + 1 < wordRange → count < wordRange →
      LengthGuarded maxSize (2 + count) (insertFill maxSize 0 count 120) (shortMem [97, 98]) →
      LengthSeen maxSize count (shortMem [97, 98]) [97, 98] := fun hmax hcount =>
    (insertFill_guarded_iff hvalid.toHolds (Or.inl (supplied_shortMem _)) hmax (by decide) hcount
      120).mp
  refine ⟨by decide +kernel, fun hguarded => ?_, fun hguarded => ?_⟩
  · have hwrapped := hseen (by decide) (by decide) hguarded
    revert hwrapped
    unfold LengthSeen
    decide
  · have hroomy := hseen (by decide) (by decide) hguarded
    revert hroomy
    unfold LengthSeen
    decide

end Crossbow.BasicString
