import Crossbow.BasicString.Contents

/-! The constructors and member functions as calls, each with what it does to a
list of characters. `arg` is the range, list or other string that a call reads. -/
namespace Crossbow.BasicString
open Kernel

inductive Ctor where
  | default
  | fill (count : Nat) (ch : UInt8)
  | substring (pos count : Nat)
  | chars
  | cString
  | range
  | list
  | std
  deriving DecidableEq, Repr

def Ctor.run (arg : List UInt8) : Ctor → Op Unit
  | .default => constructDefault
  | .fill count ch => constructFill count ch
  | .substring pos count => constructSubstring arg pos count
  | .chars => constructChars arg
  | .cString => constructCString arg
  | .range => constructRange arg
  | .list => constructList arg
  | .std => constructStd arg

def substringOf (text : List UInt8) (pos count : Nat) : Except Exn (List UInt8) :=
  if text.length < pos then .error .outOfRange else .ok ((text.drop pos).take count)

def Ctor.onList (arg : List UInt8) : Ctor → Except Exn (List UInt8)
  | .default => .ok []
  | .fill count ch => .ok (List.replicate count ch)
  | .substring pos count => substringOf arg pos count
  | .cString => .ok (cText arg)
  | .chars | .range | .list | .std => .ok arg

def outcomeSize : Except Exn (List UInt8) → Nat
  | .ok text => text.length
  | .error _ => 0

def Ctor.Allowed (ctor : Ctor) (arg : List UInt8) : Prop :=
  2 * outcomeSize (ctor.onList arg) < wordRange

instance (ctor : Ctor) (arg : List UInt8) : Decidable (ctor.Allowed arg) := by
  unfold Ctor.Allowed
  infer_instance

inductive Call where
  | operatorAssign
  | operatorAssignCString
  | operatorAssignChar (ch : UInt8)
  | operatorAssignList
  | operatorAssignStd
  | assignFill (count : Nat) (ch : UInt8)
  | assignString
  | assignSubstring (pos count : Nat)
  | assignChars
  | assignCString
  | assignRange
  | assignList
  | reserve (newCap : Nat)
  | shrinkToFit
  | clear
  | insertFill (index count : Nat) (ch : UInt8)
  | insertChars (index : Nat)
  | insertCString (index : Nat)
  | insertString (index : Nat)
  | insertSubstring (index indexStr count : Nat)
  | insertCharAt (pos : Nat) (ch : UInt8)
  | insertFillAt (pos count : Nat) (ch : UInt8)
  | insertRange (pos : Nat)
  | insertList (pos : Nat)
  | erase (first last : Nat)
  | erasePosition (position : Nat)
  | pushBack (c : UInt8)
  | popBack
  | appendRange
  | replaceRange (first last : Nat)
  | replaceString (first last : Nat)
  | replaceChars (first last : Nat)
  | replaceCString (first last : Nat)
  | replaceList (first last : Nat)
  | replaceFill (first last count2 : Nat) (ch : UInt8)
  | resize (count : Nat) (ch : UInt8)
  | resizeDefault (count : Nat)
  deriving DecidableEq, Repr

def Call.run (maxSize : Nat) (arg : List UInt8) : Call → Op Unit
  | .operatorAssign => BasicString.operatorAssign maxSize arg
  | .operatorAssignCString => BasicString.operatorAssignCString maxSize arg
  | .operatorAssignChar ch => BasicString.operatorAssignChar maxSize ch
  | .operatorAssignList => BasicString.operatorAssignList maxSize arg
  | .operatorAssignStd => BasicString.operatorAssignStd maxSize arg
  | .assignFill count ch => BasicString.assignFill maxSize count ch
  | .assignString => BasicString.assignString maxSize arg
  | .assignSubstring pos count => BasicString.assignSubstring maxSize arg pos count
  | .assignChars => BasicString.assignChars maxSize arg
  | .assignCString => BasicString.assignCString maxSize arg
  | .assignRange => BasicString.assignRange maxSize arg
  | .assignList => BasicString.assignList maxSize arg
  | .reserve newCap => BasicString.reserve maxSize newCap
  | .shrinkToFit => BasicString.shrinkToFit
  | .clear => BasicString.clear
  | .insertFill index count ch => BasicString.insertFill maxSize index count ch
  | .insertChars index => BasicString.insertChars maxSize index arg
  | .insertCString index => BasicString.insertCString maxSize index arg
  | .insertString index => BasicString.insertString maxSize index arg
  | .insertSubstring index indexStr count =>
      BasicString.insertSubstring maxSize index arg indexStr count
  | .insertCharAt pos ch => BasicString.insertCharAt maxSize pos ch
  | .insertFillAt pos count ch => BasicString.insertFillAt maxSize pos count ch
  | .insertRange pos => BasicString.insertRange maxSize pos arg
  | .insertList pos => BasicString.insertList maxSize pos arg
  | .erase first last => BasicString.erase first last
  | .erasePosition position => BasicString.erasePosition position
  | .pushBack c => BasicString.pushBack maxSize c
  | .popBack => BasicString.popBack
  | .appendRange => BasicString.appendRange maxSize arg
  | .replaceRange first last => BasicString.replaceRange maxSize first last arg
  | .replaceString first last => BasicString.replaceString maxSize first last arg
  | .replaceChars first last => BasicString.replaceChars maxSize first last arg
  | .replaceCString first last => BasicString.replaceCString maxSize first last arg
  | .replaceList first last => BasicString.replaceList maxSize first last arg
  | .replaceFill first last count2 ch => BasicString.replaceFill maxSize first last count2 ch
  | .resize count ch => BasicString.resize maxSize count ch
  | .resizeDefault count => BasicString.resizeDefault maxSize count

/-- `text` in place of the part of `list` between two positions. -/
def splice (list : List UInt8) (first last : Nat) (text : List UInt8) : List UInt8 :=
  list.take first ++ text ++ list.drop last

def insertInto (list : List UInt8) (index : Nat) (text : List UInt8) :
    Except Exn (List UInt8) :=
  if list.length < index then .error .outOfRange else .ok (splice list index index text)

def Call.onList (arg list : List UInt8) : Call → Except Exn (List UInt8)
  | .operatorAssign | .operatorAssignList | .operatorAssignStd | .assignString | .assignChars
  | .assignRange | .assignList => .ok arg
  | .operatorAssignCString | .assignCString => .ok (cText arg)
  | .operatorAssignChar ch => .ok [ch]
  | .assignFill count ch => .ok (List.replicate count ch)
  | .assignSubstring pos count => substringOf arg pos count
  | .reserve _ | .shrinkToFit => .ok list
  | .clear => .ok []
  | .insertFill index count ch | .insertFillAt index count ch =>
      insertInto list index (List.replicate count ch)
  | .insertChars index | .insertString index => insertInto list index arg
  | .insertCString index => insertInto list index (cText arg)
  | .insertSubstring index indexStr count =>
      if arg.length < indexStr then .error .outOfRange
      else insertInto list index ((arg.drop indexStr).take count)
  | .insertCharAt pos ch => insertInto list pos [ch]
  | .insertRange pos | .insertList pos => .ok (splice list pos pos arg)
  | .erase first last => .ok (splice list first last [])
  | .erasePosition position => .ok (splice list position (position + 1) [])
  | .pushBack c => .ok (list ++ [c])
  | .popBack => .ok list.dropLast
  | .appendRange => .ok (list ++ arg)
  | .replaceRange first last | .replaceString first last | .replaceChars first last
  | .replaceList first last => .ok (splice list first last arg)
  | .replaceCString first last => .ok (splice list first last (cText arg))
  | .replaceFill first last count2 ch => .ok (splice list first last (List.replicate count2 ch))
  | .resize count ch => .ok (list.take count ++ List.replicate (count - list.length) ch)
  | .resizeDefault count => .ok (list.take count ++ List.replicate (count - list.length) 0)

def Call.demand (call : Call) (arg list : List UInt8) : Nat :=
  match call with
  | .reserve newCap => newCap
  | .shrinkToFit | .clear | .erase _ _ | .erasePosition _ | .popBack => 0
  | _ => outcomeSize (call.onList arg list)

/-- Iterators point into the string, `pop_back` has something to remove, and the
end of a substring does not overflow. -/
def Call.InRange (arg list : List UInt8) : Call → Prop
  | .assignSubstring pos count => pos + count < wordRange ∨ arg.length < pos
  | .insertCharAt pos _ | .insertFillAt pos _ _ | .insertRange pos | .insertList pos =>
      pos ≤ list.length
  | .erasePosition position => position < list.length
  | .erase first last | .replaceRange first last | .replaceString first last
  | .replaceChars first last | .replaceCString first last | .replaceList first last
  | .replaceFill first last _ _ => first ≤ last ∧ last ≤ list.length
  | .popBack => list ≠ []
  | _ => True

def Call.Allowed (maxSize : Nat) (call : Call) (arg list : List UInt8) : Prop :=
  call.InRange arg list ∧ Affordable maxSize (call.demand arg list)

instance (call : Call) (arg list : List UInt8) : Decidable (call.InRange arg list) := by
  unfold Call.InRange
  split <;> infer_instance

instance (maxSize : Nat) (call : Call) (arg list : List UInt8) :
    Decidable (call.Allowed maxSize arg list) := by
  unfold Call.Allowed
  infer_instance

/-! ### Calls do what they do on lists -/

variable {mem : Mem} {list text : List UInt8} {first last index : Nat}

/-- A command does what an operation on lists has given: it returns with a string
that holds the result, or throws and changes nothing. -/
def Does (before : Option Memory) (command : Op Unit) (mem : Mem)
    (outcome : Except Exn (List UInt8)) : Prop :=
  match outcome with
  | .ok text => Command.Returns command mem fun _ after => Becomes before mem.heap text after
  | .error fault => Command.Throws command mem fun thrown after => thrown = fault ∧ after = mem

theorem splice_end (list text : List UInt8) :
    splice list list.length list.length text = list ++ text := by
  simp [splice]

theorem splice_inj {left right : List UInt8}
    (hsame : splice list first last left = splice list first last right) : left = right :=
  List.append_cancel_left (List.append_cancel_right hsame)

theorem splice_same_iff (horder : first ≤ last) {part : List UInt8} :
    splice list first last part = list ↔ (list.drop first).take (last - first) = part := by
  have hsplit : splice list first last ((list.drop first).take (last - first)) = list := by
    have hrest : list.drop last = (list.drop first).drop (last - first) := by
      rw [List.drop_drop, show first + (last - first) = last by omega]
    rw [splice, hrest, List.append_assoc, List.take_append_drop, List.take_append_drop]
  constructor
  · intro hsame
    exact splice_inj (hsplit.trans hsame.symm)
  · rintro rfl
    exact hsplit

theorem length_splice (horder : first ≤ last) (hlast : last ≤ list.length) (text : List UInt8) :
    (splice list first last text).length = list.length - (last - first) + text.length := by
  unfold splice
  simp
  omega

theorem length_resized (list : List UInt8) (count : Nat) (ch : UInt8) :
    (list.take count ++ List.replicate (count - list.length) ch).length = count := by
  simp
  omega

theorem length_splice_self (hindex : index ≤ list.length) (text : List UInt8) :
    (splice list index index text).length = list.length + text.length := by
  rw [length_splice (Nat.le_refl _) hindex, Nat.sub_self, Nat.sub_zero]

theorem insertChecked_does (hholds : Holds mem.arr mem.heap list)
    (hsupplied : Supplied mem.supply mem.heap) {maxSize : Nat}
    (hreservable : Reservable maxSize (outcomeSize (insertInto list index text))) :
    Does (some mem.arr) (insertChecked maxSize index text) mem (insertInto list index text) := by
  unfold insertInto at hreservable ⊢
  by_cases hindex : list.length < index
  · rw [if_pos hindex]
    exact insertChecked_throws hholds hindex
  · rw [if_neg hindex] at hreservable ⊢
    have hle : index ≤ list.length := by omega
    refine insertChecked_returns hholds hsupplied hle ?_
    rwa [outcomeSize, length_splice_self hle] at hreservable

theorem insertRange_does (hholds : Holds mem.arr mem.heap list)
    (hsupplied : Supplied mem.supply mem.heap) {maxSize pos : Nat} (hpos : pos ≤ list.length)
    (hreservable : Reservable maxSize (splice list pos pos text).length) :
    Does (some mem.arr) (insertRange maxSize pos text) mem (.ok (splice list pos pos text)) := by
  rw [length_splice_self hpos] at hreservable
  exact insertRange_returns hholds hsupplied hpos hreservable

theorem replaceRange_does (hholds : Holds mem.arr mem.heap list)
    (hsupplied : Supplied mem.supply mem.heap) {maxSize : Nat}
    (hrange : first ≤ last ∧ last ≤ list.length)
    (hreservable : Reservable maxSize (splice list first last text).length) :
    Does (some mem.arr) (replaceRange maxSize first last text) mem
      (.ok (splice list first last text)) := by
  rw [length_splice hrange.1 hrange.2] at hreservable
  exact replaceRange_returns hrange.1 hrange.2 hholds hsupplied hreservable

theorem does_splice_iff {before : Option Memory} {command : Op Unit} {actual : List UInt8}
    (hdoes : Does before command mem (.ok (splice list index index actual))) :
    Does before command mem (.ok (splice list index index text)) ↔ actual = text := by
  refine ⟨fun hother => ?_, fun hsame => hsame ▸ hdoes⟩
  obtain ⟨_, after, hrun, hbecomes⟩ := hdoes
  obtain ⟨_, _, hrun', hbecomes'⟩ := hother
  cases hrun.symm.trans hrun'
  exact splice_inj (hbecomes.1.unique hbecomes'.1)

theorem assignSubstring_does (hholds : Holds mem.arr mem.heap list)
    (hsupplied : Supplied mem.supply mem.heap) {maxSize pos count : Nat} {arg : List UInt8}
    (hrange : pos + count < wordRange ∨ arg.length < pos)
    (hreservable : Reservable maxSize (outcomeSize (substringOf arg pos count))) :
    Does (some mem.arr) (assignSubstring maxSize arg pos count) mem
      (substringOf arg pos count) := by
  unfold substringOf assignSubstring at *
  by_cases hpos : arg.length < pos
  · rw [if_pos hpos, if_pos hpos]
    exact .throw ⟨rfl, rfl⟩
  · rw [if_neg hpos, wrap_of_lt (hrange.resolve_right hpos)]
    rw [if_neg hpos] at hreservable ⊢
    have hcount : (if pos + count > arg.length then arg.length - pos else count) =
        min count (arg.drop pos).length := by
      rw [List.length_drop]
      split <;> omega
    dsimp only
    rw [hcount, if_pos (by simp), ← List.take_eq_take_min]
    exact assignText_returns hholds hsupplied hreservable

theorem insertSubstring_does (hholds : Holds mem.arr mem.heap list)
    (hsupplied : Supplied mem.supply mem.heap) {maxSize indexStr count : Nat}
    {arg : List UInt8}
    (hreservable : Reservable maxSize (outcomeSize (if arg.length < indexStr then
      .error .outOfRange else insertInto list index ((arg.drop indexStr).take count)))) :
    Does (some mem.arr) (insertSubstring maxSize index arg indexStr count) mem
      (if arg.length < indexStr then .error .outOfRange
        else insertInto list index ((arg.drop indexStr).take count)) := by
  unfold insertSubstring
  by_cases hpos : arg.length < indexStr
  · rw [if_pos hpos, if_pos hpos]
    exact .throw ⟨rfl, rfl⟩
  · rw [if_neg hpos]
    rw [if_neg hpos] at hreservable ⊢
    have hclamp : (arg.drop indexStr).take (min count (arg.length - indexStr)) =
        (arg.drop indexStr).take count := by
      rw [← List.length_drop, List.take_eq_take_iff]
      omega
    rw [hclamp]
    exact insertChecked_does hholds hsupplied hreservable

theorem constructSubstring_does (hsupplied : Supplied mem.supply mem.heap) {pos count : Nat}
    {arg : List UInt8} (hdouble : 2 * outcomeSize (substringOf arg pos count) < wordRange) :
    Does none (constructSubstring arg pos count) mem (substringOf arg pos count) := by
  unfold substringOf constructSubstring at *
  by_cases hpos : arg.length < pos
  · rw [if_pos hpos, if_pos hpos]
    exact .throw ⟨rfl, rfl⟩
  · rw [if_neg hpos] at hdouble ⊢
    rw [if_neg hpos]
    have hclamp : (arg.drop pos).take (if arg.length - pos < count then arg.length - pos else count)
        = (arg.drop pos).take count := by
      rw [← List.length_drop, List.take_eq_take_iff]
      split <;> omega
    rw [hclamp]
    refine .bind (editArr_returns ?_)
    exact @initWith_returns { mem with arr := _ } _ hsupplied hdouble

theorem Ctor.does (hsupplied : Supplied mem.supply mem.heap) {ctor : Ctor} {arg : List UInt8}
    (hallowed : ctor.Allowed arg) : Does none (ctor.run arg) mem (ctor.onList arg) := by
  cases ctor with
  | default => exact constructDefault_returns
  | fill count ch => exact initWith_returns hsupplied hallowed
  | substring pos count => exact constructSubstring_does hsupplied hallowed
  | chars => exact initWith_returns hsupplied hallowed
  | range => exact initWith_returns hsupplied hallowed
  | std => exact initWith_returns hsupplied hallowed
  | cString => exact initWithout_returns hsupplied hallowed
  | list => exact initWithout_returns hsupplied hallowed

theorem Call.does (hholds : Holds mem.arr mem.heap list)
    (hsupplied : Supplied mem.supply mem.heap) {maxSize : Nat} {call : Call} {arg : List UInt8}
    (hallowed : call.Allowed maxSize arg list) (hdefined : call ≠ .assignString) :
    Does (some mem.arr) (call.run maxSize arg) mem (call.onList arg list) := by
  obtain ⟨hrange, haffordable⟩ := hallowed
  have hreservable := haffordable.reservable
  cases call with
  | assignString => contradiction
  | operatorAssign | operatorAssignCString | operatorAssignList | operatorAssignStd
  | assignChars | assignCString | assignRange | assignList =>
      exact assignText_returns hholds hsupplied hreservable
  | operatorAssignChar ch => exact operatorAssignChar_returns hholds hsupplied ch hreservable
  | assignFill count ch => exact assignText_returns hholds hsupplied hreservable
  | assignSubstring pos count => exact assignSubstring_does hholds hsupplied hrange hreservable
  | reserve newCap =>
      exact (hholds.reserve hsupplied hreservable).mono fun _ _ hafter => hafter.1
  | shrinkToFit => exact shrinkToFit_returns hholds hsupplied
  | clear => exact clear_returns hholds
  | insertFill index count ch => exact insertChecked_does hholds hsupplied hreservable
  | insertChars index => exact insertChecked_does hholds hsupplied hreservable
  | insertCString index => exact insertChecked_does hholds hsupplied hreservable
  | insertString index => exact insertChecked_does hholds hsupplied hreservable
  | insertSubstring index indexStr count =>
      exact insertSubstring_does hholds hsupplied hreservable
  | insertCharAt pos ch => exact insertChecked_does hholds hsupplied hreservable
  | insertFillAt pos count ch => exact insertChecked_does hholds hsupplied hreservable
  | insertRange pos | insertList pos => exact insertRange_does hholds hsupplied hrange hreservable
  | erase first last =>
      have herase := erase_returns hholds hrange.1 hrange.2
      rwa [← List.append_nil (list.take first)] at herase
  | erasePosition position =>
      have hposition : position < list.length := hrange
      have herase := erase_returns hholds (Nat.le_succ position) hposition
      rwa [← List.append_nil (list.take position)] at herase
  | pushBack c =>
      replace hreservable : Reservable maxSize (list ++ [c]).length := hreservable
      rw [List.length_append] at hreservable
      exact pushBack_returns hholds hsupplied c hreservable
  | popBack => exact popBack_returns hholds hrange
  | appendRange =>
      replace hreservable : Reservable maxSize (list ++ arg).length := hreservable
      rw [List.length_append] at hreservable
      have hinsert := insertRange_returns hholds hsupplied (Nat.le_refl list.length) hreservable
      rw [List.take_length, List.drop_length, List.append_nil] at hinsert
      show Command.Returns (BasicString.appendRange maxSize arg) mem _
      unfold BasicString.appendRange
      apply Command.Returns.ofGet
      rw [hholds.size]
      exact hinsert
  | replaceRange first last | replaceString first last | replaceChars first last
  | replaceCString first last | replaceList first last =>
      exact replaceRange_does hholds hsupplied hrange hreservable
  | replaceFill first last count2 ch =>
      exact .congr (replaceFill_eq hholds ch)
        (replaceRange_does hholds hsupplied hrange hreservable)
  | resize count ch =>
      exact resize_returns hholds hsupplied ch (length_resized list count ch ▸ hreservable)
  | resizeDefault count =>
      exact resize_returns hholds hsupplied 0 (length_resized list count 0 ▸ hreservable)

end Crossbow.BasicString
