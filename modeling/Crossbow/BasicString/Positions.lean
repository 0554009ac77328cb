import Crossbow.BasicString.Calls
import Crossbow.BasicString.Faults
import Crossbow.BasicString.Objects

/-! The members that take a position and a count, which may reach past the end or
be `npos`. -/
namespace Crossbow.BasicString
open Kernel

/-! ### The members -/

def eraseCount (index count : Nat) : Op Unit := do
  let mem ← Command.get
  let size := getSize mem.arr
  if index > size then Command.throw .outOfRange
  else do
    let last :=
      if count = npos ∨ count ≥ size ∨ wrap (index + count) > size then size else index + count
    erase index last

/-- The loop of `copy`, with the characters that it stores to `dest` one after the
other. -/
def copyLoop (ptr : Ptr) (index last : Nat) : Nat → Op (List UInt8)
  | 0 => pure []
  | count + 1 =>
      if index ≠ last then do
        let ch ← read ptr index
        let rest ← copyLoop ptr (index + 1) last count
        pure (ch :: rest)
      else pure []

/-- `copy(dest, count, pos)`: what `dest` points to afterwards, and the result. -/
def copy (count pos : Nat) : Op (List UInt8 × Nat) := do
  let mem ← Command.get
  if pos > getSize mem.arr then Command.throw .outOfRange
  else do
    let dest ← copyLoop (getPtr mem.arr) pos (getSize mem.arr) count
    pure (dest, dest.length)

/-- `ptr + index`, which is a pointer up to the end of the storage. -/
def seek (ptr : Ptr) (index : Nat) : Op Unit := fun mem =>
  match ptr with
  | .buffer => if 1 + index ≤ arrSize then some (.ok (), mem) else none
  | .block address =>
      match mem.heap address with
      | some block => if index ≤ block.length then some (.ok (), mem) else none
      | none => none

/-- `replace` of a range of pointers that may stand in the wrong order. -/
def replacePointers (maxSize first last : Nat) (text : List UInt8) : Op Unit := do
  let mem ← Command.get
  let (index, rest) ← overwrite (getPtr mem.arr) first last text
  if index ≠ last then erasePointers index last
  else if rest ≠ [] then insertRange maxSize last rest
  else pure ()

def replaceCount (maxSize pos count : Nat) (text : List UInt8) : Op Unit := do
  let mem ← Command.get
  seek (getPtr mem.arr) pos
  replacePointers maxSize pos (rangeEnd (getSize mem.arr) pos count) text

def replacePosString (maxSize pos count : Nat) (str : List UInt8) : Op Unit := do
  let mem ← Command.get
  if pos > getSize mem.arr then Command.throw .outOfRange
  else replaceCount maxSize pos count str

/-- The loop of `replace` with a source that starts behind its end and never gets there. It
goes on through the storage of the source, and out of it. -/
def overwriteEndless (ptr : Ptr) (index last : Nat) : List UInt8 → Op Unit
  | [] => if index ≠ last then Command.undefined else pure ()
  | ch :: rest =>
      if index ≠ last then do
        write ptr index ch
        overwriteEndless ptr (index + 1) last rest
      else pure ()

/-- `replace(pos, count, str, pos2, count2)`; `behind` is what stands behind the characters of
`str` in its storage. If `pos2 + count2` wraps, the source ends in front of its start: it is
read as long as there is something to overwrite, and `insert` returns at a negative count. -/
def replacePosSubstring (maxSize pos count : Nat) (str behind : List UInt8) (pos2 count2 : Nat) :
    Op Unit := do
  let mem ← Command.get
  if pos > getSize mem.arr ∨ pos2 > str.length then Command.throw .outOfRange
  else do
    let last := rangeEnd (getSize mem.arr) pos count
    let last2 := rangeEnd str.length pos2 count2
    if pos2 ≤ last2 then replaceCount maxSize pos count ((str.drop pos2).take (last2 - pos2))
    else overwriteEndless (getPtr mem.arr) pos last ((str ++ behind).drop pos2)

/-- `replace(pos, count, cstr, count2)`, without a check of the position. -/
def replacePosChars (maxSize pos count : Nat) (cstr : List UInt8) : Op Unit :=
  replaceCount maxSize pos count cstr

def replacePosCString (maxSize pos count : Nat) (cstr : List UInt8) : Op Unit :=
  replacePosChars maxSize pos count (cText cstr)

/-! ### Ranges in the right order -/

variable {mem : Mem} {list : List UInt8} {last first index : Nat} {before : Option Memory}
  {command : Op Unit}

theorem replacePointers_eq (hholds : Holds mem.arr mem.heap list) {maxSize : Nat}
    (horder : first ≤ last) (hlast : last ≤ list.length) (text : List UInt8) :
    replacePointers maxSize first last text mem = replaceRange maxSize first last text mem := by
  have hfits := hholds.fits
  rw [replacePointers, replaceRange, Command.get_bind, Command.get_bind, hholds.size,
    if_pos ⟨horder, hlast⟩, overwrite_eq _ horder, Command.bind_assoc]
  dsimp only
  generalize hcount : min (last - first) text.length = count
  refine Command.bind_congr (hholds.edited.putChars ?_) fun _ after hafter => ?_
  · rw [List.length_take]
    omega
  have hword := hafter.shaped.room_lt
  rw [Command.pure_bind]
  dsimp only
  by_cases herase : first + count ≠ last
  · rw [if_pos herase, if_pos herase]
    exact erasePointers_eq hafter.size (by omega) (by omega) hlast
  · have hrest : text.drop count ≠ [] ↔ count ≠ text.length := by
      rw [ne_eq, List.drop_eq_nil_iff]
      omega
    rw [if_neg herase, if_neg herase]
    simp only [hrest]

/-! ### Where a range ends -/

theorem seek_returns (hholds : Holds mem.arr mem.heap list) (hindex : index ≤ list.length) :
    Command.Returns (seek (getPtr mem.arr) index) mem fun _ after => after = mem := by
  have hfits := hholds.fits
  cases hholds.shaped with
  | inline hmark hroom =>
      have hthirty : maxInBufferSize = 30 := rfl
      have harr : arrSize = 32 := rfl
      rw [getPtr_inline hmark]
      exact ⟨(), mem, if_pos (by omega), rfl⟩
  | onHeap address block _ hptr hblock _ _ hlength =>
      rw [hptr]
      refine ⟨(), mem, ?_, rfl⟩
      simp only [seek, hblock]
      rw [if_pos (by omega)]

theorem seek_cases (ptr : Ptr) (index : Nat) (mem : Mem) :
    seek ptr index mem = some (.ok (), mem) ∨ seek ptr index mem = none := by
  unfold seek
  split
  · split
    · exact Or.inl rfl
    · exact Or.inr rfl
  · split
    · split
      · exact Or.inl rfl
      · exact Or.inr rfl
    · exact Or.inr rfl

theorem seek_silent (ptr : Ptr) (index : Nat) : Silent (seek ptr index) := by
  constructor
  intro mem fault after hrun
  rcases seek_cases ptr index mem with hseek | hnone
  · cases hseek.symm.trans hrun
  · cases hnone.symm.trans hrun

theorem seek_state {ptr : Ptr} {value : Unit} {after : Mem}
    (hrun : seek ptr index mem = some (.ok value, after)) : after = mem := by
  rcases seek_cases ptr index mem with hseek | hnone
  · cases hseek.symm.trans hrun
    rfl
  · cases hnone.symm.trans hrun

/-! ### Positional `replace` -/

section Replace

variable {maxSize pos count : Nat} (hholds : Holds mem.arr mem.heap list)
  (hpos : pos ≤ list.length)
include hholds hpos

theorem replaceCount_eq (hsum : pos + count < wordRange) (text : List UInt8) :
    replaceCount maxSize pos count text mem =
      replaceRange maxSize pos (pos + min count (list.length - pos)) text mem := by
  rw [replaceCount, Command.get_bind, hholds.size, rangeEnd_eq hpos hsum,
    ← replacePointers_eq hholds (by omega) (by omega)]
  obtain ⟨_, _, hseek, rfl⟩ := seek_returns hholds hpos
  simp only [Bind.bind, hseek]

theorem replacePosSubstring_eq {arg : List UInt8} {pos2 count2 : Nat} (hpos2 : pos2 ≤ arg.length)
    (hsum2 : pos2 + count2 < wordRange) (behind : List UInt8) :
    replacePosSubstring maxSize pos count arg behind pos2 count2 mem =
      replaceCount maxSize pos count ((arg.drop pos2).take count2) mem := by
  have hclamp : (arg.drop pos2).take (pos2 + min count2 (arg.length - pos2) - pos2) =
      (arg.drop pos2).take count2 := by
    rw [← List.length_drop, List.take_eq_take_iff]
    omega
  rw [replacePosSubstring, Command.get_bind, hholds.size, if_neg (by omega),
    rangeEnd_eq hpos2 hsum2, if_pos (Nat.le_add_right _ _), hclamp]

end Replace

/-! ### Ranges in the wrong order -/

theorem not_does_of_undefined {outcome : Except Exn (List UInt8)}
    (hundefined : command mem = none) :
    ¬ Does before command mem outcome := by
  intro hdoes
  cases outcome with
  | error fault =>
      obtain ⟨_, _, hrun, _⟩ := hdoes
      exact nomatch hundefined.symm.trans hrun
  | ok text =>
      obtain ⟨_, _, hrun, _⟩ := hdoes
      exact nomatch hundefined.symm.trans hrun

theorem rangeEnd_of_wrap {size pos count : Nat} (hpos : pos ≤ size) (hword : pos < wordRange)
    (hcount : count < wordRange) (hwraps : wordRange ≤ pos + count) :
    rangeEnd size pos count = wrap (pos + count) ∧ rangeEnd size pos count < pos := by
  have hbelow := wrap_lt_of_overflow hword hcount hwraps
  have hend : rangeEnd size pos count = wrap (pos + count) := if_pos (by omega)
  exact ⟨hend, by omega⟩

theorem overwrite_reversed (ptr : Ptr) (horder : last < index) (text : List UInt8) :
    overwrite ptr index last text = (do
      putChars ptr index text
      pure (index + text.length, [])) := by
  induction text generalizing index with
  | nil => rfl
  | cons ch rest ih =>
      rw [overwrite, if_pos (by omega), ih (by omega), List.length_cons,
        show index + (rest.length + 1) = index + 1 + rest.length by omega]
      exact Command.bind_assoc _ |>.symm

theorem replacePointers_reversed {maxSize : Nat} (horder : last < first) (text : List UInt8) :
    replacePointers maxSize first last text mem = (do
      putChars (getPtr mem.arr) first text
      erasePointers (first + text.length) last : Op Unit) mem := by
  rw [replacePointers, Command.get_bind, overwrite_reversed _ horder, Command.bind_assoc]
  refine congrArg (fun next => (putChars (getPtr mem.arr) first text >>= next) mem) ?_
  funext _
  exact if_pos (show first + text.length ≠ last by omega)

theorem replaceFillPos_reversed (hholds : Holds mem.arr mem.heap list)
    {maxSize pos count count2 : Nat} (ch : UInt8) (hpos : pos ≤ list.length)
    (horder : rangeEnd list.length pos count < pos) :
    replaceFillPos maxSize pos count count2 ch mem =
      replacePointers maxSize pos (rangeEnd list.length pos count) (List.replicate count2 ch)
        mem := by
  rw [replacePointers_reversed horder, replaceFillPos, Command.get_bind, hholds.size,
    if_neg (by omega)]
  dsimp only
  rw [overwrite_reversed _ horder, Command.bind_assoc]
  refine congrArg (fun next => (putChars (getPtr mem.arr) pos (List.replicate count2 ch) >>= next)
    mem) ?_
  funext _
  have hpast : pos + (List.replicate count2 ch).length ≠ rangeEnd list.length pos count := by
    omega
  exact if_pos hpast

/-- Characters were written, which leaves size and pointer alone. -/
structure SameFields (mem after : Mem) : Prop where
  mark : after.arr 0 = mem.arr 0
  size : getSize after.arr = getSize mem.arr
  ptr : getPtr after.arr = getPtr mem.arr

theorem SameFields.trans {first second third : Mem} (hfirst : SameFields first second)
    (hsecond : SameFields second third) : SameFields first third :=
  ⟨hsecond.mark.trans hfirst.mark, hsecond.size.trans hfirst.size, hsecond.ptr.trans hfirst.ptr⟩

section Fields

variable {after : Mem} {value : Unit}

theorem write_fields {ch : UInt8}
    (hrun : write (getPtr mem.arr) index ch mem = some (.ok value, after)) :
    SameFields mem after ∧ (mem.arr 0 ≠ nullchar → index ≤ maxInBufferSize) := by
  by_cases hmark : mem.arr 0 = nullchar
  · rw [getPtr_heap hmark] at hrun
    refine ⟨?_, fun hinline => absurd hmark hinline⟩
    simp only [write] at hrun
    split at hrun
    · split at hrun
      · cases hrun
        exact ⟨rfl, rfl, rfl⟩
      · contradiction
    · contradiction
  · rw [getPtr_inline hmark] at hrun
    simp only [write] at hrun
    split at hrun
    · rename_i hinside
      cases hrun
      have hkeep : store mem.arr (1 + index) [ch] 0 = mem.arr 0 :=
        store_of_lt mem.arr _ (by omega)
      have hmark' : store mem.arr (1 + index) [ch] 0 ≠ nullchar := hkeep ▸ hmark
      refine ⟨⟨hkeep, ?_, ?_⟩, fun _ => ?_⟩
      · rw [getSize_inline hmark, getSize_inline hmark', hkeep]
      · rw [getPtr_inline hmark, getPtr_inline hmark']
      · simp only [arrSize, maxInBufferSize] at *
        omega
    · contradiction

theorem putChars_fields {text : List UInt8}
    (hrun : putChars (getPtr mem.arr) index text mem = some (.ok value, after)) :
    SameFields mem after := by
  induction text generalizing mem index with
  | nil =>
      cases hrun
      exact ⟨rfl, rfl, rfl⟩
  | cons ch rest ih =>
      obtain ⟨_, middle, hwrite, hrest⟩ := Command.bind_eq_ok.mp hrun
      have hfields := (write_fields hwrite).1
      rw [← hfields.ptr] at hrest
      exact hfields.trans (ih hrest)

theorem copyChars_fields {source : Ptr} {start count : Nat}
    (hrun : copyChars source start (getPtr mem.arr) index count mem = some (.ok value, after)) :
    SameFields mem after ∧
      (mem.arr 0 ≠ nullchar → 0 < count → index + count ≤ maxInBufferSize + 1) := by
  induction count generalizing mem start index with
  | zero =>
      cases hrun
      exact ⟨⟨rfl, rfl, rfl⟩, fun _ hcount => absurd hcount (Nat.lt_irrefl 0)⟩
  | succ count ih =>
      obtain ⟨ch, same, hread, hrest⟩ := Command.bind_eq_ok.mp hrun
      obtain rfl := read_state hread
      obtain ⟨_, middle, hwrite, hrest⟩ := Command.bind_eq_ok.mp hrest
      obtain ⟨hfields, hinside⟩ := write_fields hwrite
      rw [← hfields.ptr] at hrest
      obtain ⟨hlater, hbound⟩ := ih hrest
      refine ⟨hfields.trans hlater, fun hmark _ => ?_⟩
      have hfirst := hinside hmark
      have hmore := hbound (hfields.mark ▸ hmark)
      omega

end Fields

theorem wrapSub_reversed {size : Nat} (horder : last < first) (hfirst : first < wordRange)
    (hlast : last ≤ size) :
    wrapSub size (wrapSub last first) = wrap (first + (size - last)) := by
  have hremoved : wrapSub last first = last + wordRange - first := by
    unfold wrapSub
    exact Nat.mod_eq_of_lt (by omega)
  rw [hremoved]
  unfold wrapSub wrap
  rw [show size + wordRange - (last + wordRange - first) = first + (size - last) by omega]

/-- A range in the wrong order makes the string longer. -/
theorem erasePointers_size (horder : last < first) (hfirst : first < wordRange)
    (hlast : last < getSize mem.arr) {value : Unit} {after : Mem}
    (hrun : erasePointers first last mem = some (.ok value, after)) :
    getSize after.arr = wrap (first + (getSize mem.arr - last)) := by
  have hsize := getSize_lt mem.arr
  rw [erasePointers, Command.get_bind, wrapSub_of_le (Nat.le_of_lt hlast) hsize,
    wrapSub_reversed horder hfirst (by omega)] at hrun
  obtain ⟨_, copied, hcopy, hrun⟩ := Command.bind_eq_ok.mp hrun
  obtain ⟨_, sized, hedit, hrun⟩ := Command.bind_eq_ok.mp hrun
  cases hedit
  obtain ⟨hfields, hinside⟩ := copyChars_fields hcopy
  rw [terminate, Command.get_bind] at hrun
  rw [(write_fields hrun).1.size]
  by_cases hmark : copied.arr 0 = nullchar
  · exact getSize_setSize hmark (wrap_lt _)
  · have hbound := hinside (hfields.mark ▸ hmark) (by omega)
    have hthirty : maxInBufferSize = 30 := rfl
    have hword : 32 < wordRange := by decide
    have hset : setSize copied.arr (wrap (first + (getSize mem.arr - last))) =
        store copied.arr 0 [UInt8.ofNat (wrap (first + (getSize mem.arr - last)))] := if_pos hmark
    rw [wrap_of_lt (by omega)] at hset ⊢
    have hbyte : (UInt8.ofNat (first + (getSize mem.arr - last))).toNat =
        first + (getSize mem.arr - last) := by
      rw [UInt8.toNat_ofNat']
      exact Nat.mod_eq_of_lt (by omega)
    have hmark' : store copied.arr 0 [UInt8.ofNat (first + (getSize mem.arr - last))] 0 ≠
        nullchar := by
      rw [store_self]
      intro heq
      rw [heq] at hbyte
      have hmarked : nullchar.toNat = 127 := rfl
      omega
    exact (congrArg getSize hset).trans (by rw [getSize_inline hmark', store_self, hbyte])

theorem not_does_of_size {text : List UInt8}
    (hsize : ∀ value after, command mem = some (.ok value, after) →
      getSize after.arr ≠ text.length) : ¬ Does before command mem (.ok text) := by
  rintro ⟨value, after, hrun, hbecomes⟩
  exact hsize value after hrun hbecomes.1.size

section Wraps

variable {maxSize pos count : Nat} (hholds : Holds mem.arr mem.heap list)
  (hpos : pos ≤ list.length) (hcount : count < wordRange) (hwraps : wordRange ≤ pos + count)
include hholds hpos hcount hwraps

theorem rangeEnd_lt : rangeEnd list.length pos count < pos := by
  have hfits := hholds.fits
  have hroom := hholds.shaped.room_lt
  exact (rangeEnd_of_wrap hpos (by omega) hcount hwraps).2

/-- The text is written from `pos` on, and then the string is made longer by all that is
behind the end of the range, where it should end behind the text. -/
theorem reversed_not_does {text : List UInt8}
    (hreservable : Reservable maxSize
      (splice list pos (pos + min count (list.length - pos)) text).length) :
    ¬ Does (some mem.arr)
      (replacePointers maxSize pos (rangeEnd list.length pos count) text) mem
      (.ok (splice list pos (pos + min count (list.length - pos)) text)) := by
  have horder := rangeEnd_lt hholds hpos hcount hwraps
  have hfits := hholds.fits
  have hroom := hholds.shaped.room_lt
  have hlength : (splice list pos (pos + min count (list.length - pos)) text).length =
      pos + text.length := by
    simp only [splice, List.length_append, List.length_take, List.length_drop]
    omega
  rw [hlength] at hreservable
  have hword := hreservable.2
  apply not_does_of_size
  intro value after hrun hsame
  rw [replacePointers_reversed horder] at hrun
  obtain ⟨_, filled, hfill, herase⟩ := Command.bind_eq_ok.mp hrun
  have hsize : getSize filled.arr = list.length := (putChars_fields hfill).size.trans hholds.size
  have hgrown := erasePointers_size (by omega) (by omega) (by omega) herase
  rw [hsize] at hgrown
  rw [hsame, hlength] at hgrown
  -- the size grows by less than the range of a word
  unfold wrap at hgrown
  rw [Nat.add_mod, Nat.mod_eq_of_lt (show pos + text.length < wordRange by omega),
    Nat.mod_eq_of_lt (show list.length - rangeEnd list.length pos count < wordRange by omega)]
    at hgrown
  have hcases : (pos + text.length + (list.length - rangeEnd list.length pos count)) %
      wordRange = pos + text.length + (list.length - rangeEnd list.length pos count) ∨
      (pos + text.length + (list.length - rangeEnd list.length pos count)) % wordRange =
        pos + text.length + (list.length - rangeEnd list.length pos count) - wordRange := by
    rcases Nat.lt_or_ge (pos + text.length + (list.length - rangeEnd list.length pos count))
      wordRange with hlt | hge
    · exact .inl (Nat.mod_eq_of_lt hlt)
    · exact .inr (by rw [Nat.mod_eq_sub_mod hge, Nat.mod_eq_of_lt (by omega)])
  omega

end Wraps

/-! ### Sources in the wrong order -/

theorem overwriteEndless_reversed (ptr : Ptr) (horder : last < index) (source : List UInt8)
    (mem : Mem) : overwriteEndless ptr index last source mem = none := by
  induction source generalizing index mem with
  | nil => rw [overwriteEndless, if_pos (by omega)]; rfl
  | cons ch rest ih =>
      rw [overwriteEndless, if_pos (by omega)]
      cases hwrite : write ptr index ch mem with
      | none => exact Command.bind_of_none hwrite
      | some result =>
          obtain ⟨outcome, after⟩ := result
          cases outcome with
          | ok value => exact (Command.bind_of_ok hwrite).trans (ih (by omega) after)
          | error fault => exact absurd ((write_silent ptr index ch).only hwrite) id

theorem overwriteEndless_eq (ptr : Ptr) (horder : index ≤ last) (source : List UInt8) :
    overwriteEndless ptr index last source = (do
      putChars ptr index (source.take (last - index))
      if source.length < last - index then Command.undefined else pure ()) := by
  induction source generalizing index with
  | nil =>
      by_cases hend : index = last
      · rw [overwriteEndless, if_neg (by simpa using hend), hend, Nat.sub_self]
        rfl
      · rw [overwriteEndless, if_pos hend, List.take_nil, List.length_nil, if_pos (by omega)]
        rfl
  | cons ch rest ih =>
      by_cases hend : index = last
      · rw [overwriteEndless, if_neg (by simpa using hend), hend, Nat.sub_self]
        rfl
      · rw [overwriteEndless, if_pos hend, ih (by omega),
          show last - index = last - (index + 1) + 1 by omega, List.take_succ_cons,
          List.length_cons]
        simp only [Nat.add_lt_add_iff_right]
        exact Command.bind_assoc _ |>.symm

section Endless

variable {maxSize pos count pos2 count2 : Nat} {arg behind : List UInt8}
  (hholds : Holds mem.arr mem.heap list) (hpos : pos ≤ list.length) (hpos2 : pos2 ≤ arg.length)
include hholds hpos hpos2

theorem replacePosSubstring_endless (hword2 : pos2 < wordRange) (hcount2 : count2 < wordRange)
    (hwraps2 : wordRange ≤ pos2 + count2) :
    replacePosSubstring maxSize pos count arg behind pos2 count2 mem =
      overwriteEndless (getPtr mem.arr) pos (rangeEnd list.length pos count)
        (arg.drop pos2 ++ behind) mem := by
  have horder := (rangeEnd_of_wrap hpos2 hword2 hcount2 hwraps2).2
  rw [replacePosSubstring, Command.get_bind, hholds.size, if_neg (by omega), if_neg (by omega),
    List.drop_append_of_le_length hpos2]

/-- The characters that are overwritten are as many as the source has, or the result is
another one. -/
theorem overwriteEndless_does_iff (hsupplied : Supplied mem.supply mem.heap)
    (hsum : pos + count < wordRange) :
    Does (some mem.arr)
        (overwriteEndless (getPtr mem.arr) pos (rangeEnd list.length pos count)
          (arg.drop pos2 ++ behind)) mem
        (.ok (splice list pos (pos + min count (list.length - pos))
          ((arg.drop pos2).take count2))) ↔
      min count (list.length - pos) = min count2 (arg.length - pos2) := by
  rw [rangeEnd_eq hpos hsum]
  generalize hn : min count (list.length - pos) = n
  rw [overwriteEndless_eq _ (Nat.le_add_right pos n), Nat.add_sub_cancel_left]
  have hlength : ((arg.drop pos2).take count2).length = min count2 (arg.length - pos2) := by
    rw [List.length_take, List.length_drop]
  have htake : ((arg.drop pos2 ++ behind).take n).length =
      min n (arg.drop pos2 ++ behind).length := List.length_take
  obtain ⟨_, filled, hfill, hbecomes, _⟩ := hholds.overwrite hsupplied
    (show pos + ((arg.drop pos2 ++ behind).take n).length ≤ list.length by omega)
  have hrun : ∀ next : Op Unit, ((do
      putChars (getPtr mem.arr) pos ((arg.drop pos2 ++ behind).take n)
      next : Op Unit) mem) = next filled := fun next => Command.bind_of_ok hfill
  by_cases hshort : (arg.drop pos2 ++ behind).length < n
  · rw [if_pos hshort]
    refine iff_of_false (not_does_of_undefined (hrun _)) ?_
    rw [List.length_append, List.length_drop] at hshort
    omega
  · rw [if_neg hshort]
    rw [htake, Nat.min_eq_left (by omega)] at hbecomes
    constructor
    · rintro ⟨_, after, hreturned, hother⟩
      cases (hrun _).symm.trans hreturned
      have htext := splice_inj (hbecomes.1.unique hother.1)
      rw [← hlength, ← htext, htake]
      omega
    · intro hsame
      refine ⟨(), filled, hrun _, ?_⟩
      have htext : (arg.drop pos2 ++ behind).take n = (arg.drop pos2).take count2 := by
        rw [List.take_append_of_le_length (by rw [List.length_drop]; omega), hsame,
          ← List.length_drop, ← List.take_take, List.take_length]
      rw [htext] at hbecomes
      exact hbecomes

end Endless

theorem overwrite_silent (ptr : Ptr) (index last : Nat) (text : List UInt8) :
    Silent (overwrite ptr index last text) := by
  induction text generalizing index with
  | nil => exact .pure _
  | cons ch rest ih =>
      exact .ite (.bind (write_silent ..) fun _ => ih (index + 1)) (.pure _)

theorem erasePointers_silent (first last : Nat) : Silent (erasePointers first last) :=
  .bind .get fun _ => .bind (copyChars_silent ..) fun _ =>
    .bind (editArr_silent _) fun _ => terminate_silent

theorem overwriteEndless_silent (ptr : Ptr) (index last : Nat) (source : List UInt8) :
    Silent (overwriteEndless ptr index last source) := by
  induction source generalizing index with
  | nil => exact .ite .undefined (.pure _)
  | cons ch rest ih =>
      exact .ite (.bind (write_silent ..) fun _ => ih (index + 1)) (.pure _)

theorem replaceCount_faults (maxSize pos count : Nat) (text : List UInt8) :
    Command.Faults OutOfRoom (replaceCount maxSize pos count text) := by
  refine .bind .get fun mem => .bind (seek_silent ..).faults fun _ => .bind .get fun mem =>
    .bind (overwrite_silent ..).faults fun left => .ite (erasePointers_silent ..).faults ?_
  exact .ite (insertRange_faults ..) (.pure ())

/-- The overloads of positional `replace`; `behind` is what stands behind the characters of
the other string in its storage. -/
inductive Replacement where
  | string
  | substring (pos2 count2 : Nat) (behind : List UInt8)
  | chars
  | cString
  | fill (count2 : Nat) (ch : UInt8)
  deriving DecidableEq, Repr

def Replacement.run (maxSize pos count : Nat) (arg : List UInt8) : Replacement → Op Unit
  | .string => replacePosString maxSize pos count arg
  | .substring pos2 count2 behind =>
      replacePosSubstring maxSize pos count arg behind pos2 count2
  | .chars => replacePosChars maxSize pos count arg
  | .cString => replacePosCString maxSize pos count arg
  | .fill count2 ch => replaceFillPos maxSize pos count count2 ch

def Replacement.text (arg : List UInt8) : Replacement → Except Exn (List UInt8)
  | .string | .chars => .ok arg
  | .substring pos2 count2 _ => substringOf arg pos2 count2
  | .cString => .ok (cText arg)
  | .fill count2 ch => .ok (List.replicate count2 ch)

def Replacement.onList (arg list : List UInt8) (pos count : Nat) (replacement : Replacement) :
    Except Exn (List UInt8) :=
  if list.length < pos then .error .outOfRange
  else (replacement.text arg).map fun text =>
    splice list pos (pos + min count (list.length - pos)) text

def Replacement.InWords : Replacement → Prop
  | .substring pos2 count2 _ => pos2 < wordRange ∧ count2 < wordRange
  | _ => True

/-- The end of the range does not overflow, and the position is checked if it has to be. The
end of a substring may overflow if the substring is as long as the range. -/
def Replacement.InRange (arg list : List UInt8) (pos count : Nat) : Replacement → Prop
  | .string | .fill _ _ => list.length < pos ∨ pos + count < wordRange
  | .substring pos2 count2 _ => list.length < pos ∨ arg.length < pos2 ∨
      (pos + count < wordRange ∧
        (pos2 + count2 < wordRange ∨
          min count (list.length - pos) = min count2 (arg.length - pos2)))
  | .chars | .cString => pos ≤ list.length ∧ pos + count < wordRange

theorem Replacement.run_past (hholds : Holds mem.arr mem.heap list) {maxSize pos count : Nat}
    (hpos : list.length < pos) (arg : List UInt8) {replacement : Replacement}
    (hchars : replacement ≠ .chars) (hcString : replacement ≠ .cString) :
    replacement.run maxSize pos count arg mem = some (.error .outOfRange, mem) := by
  cases replacement with
  | string =>
      rw [Replacement.run, replacePosString, Command.get_bind, hholds.size, if_pos hpos]
      rfl
  | substring pos2 count2 behind =>
      rw [Replacement.run, replacePosSubstring, Command.get_bind, hholds.size,
        if_pos (Or.inl hpos)]
      rfl
  | fill count2 ch =>
      rw [Replacement.run, replaceFillPos, Command.get_bind, hholds.size, if_pos hpos]
      rfl
  | chars => contradiction
  | cString => contradiction

theorem not_does_outOfRange (hfaults : Command.Faults OutOfRoom command) :
    ¬ Does before command mem (.error .outOfRange) := by
  rintro ⟨fault, after, hrun, rfl, _⟩
  exact absurd (hfaults.only hrun) (by simp [OutOfRoom])

theorem does_congr {other : Op Unit} {outcome : Except Exn (List UInt8)}
    (hsame : command mem = other mem) :
    Does before command mem outcome ↔ Does before other mem outcome := by
  unfold Does Command.Returns Command.Throws
  rw [hsame]

section Outcomes

variable {maxSize pos count : Nat} (hholds : Holds mem.arr mem.heap list)
  (hsupplied : Supplied mem.supply mem.heap) (hcount : count < wordRange)
include hholds hsupplied hcount

theorem replaceCount_does_iff (hpos : pos ≤ list.length) {text : List UInt8}
    (hreservable : Reservable maxSize
      (splice list pos (pos + min count (list.length - pos)) text).length) :
    Does (some mem.arr) (replaceCount maxSize pos count text) mem
        (.ok (splice list pos (pos + min count (list.length - pos)) text)) ↔
      pos + count < wordRange := by
  by_cases hsum : pos + count < wordRange
  · refine iff_of_true ?_ hsum
    exact .congr (replaceCount_eq hholds hpos hsum text)
      (replaceRange_does hholds hsupplied (by omega) hreservable)
  · refine iff_of_false (fun hdoes => ?_) hsum
    have hrun : replaceCount maxSize pos count text mem =
        replacePointers maxSize pos (rangeEnd list.length pos count) text mem := by
      rw [replaceCount, Command.get_bind, hholds.size]
      obtain ⟨_, _, hseek, rfl⟩ := seek_returns hholds hpos
      exact Command.bind_of_ok hseek
    exact reversed_not_does hholds hpos hcount (by omega) hreservable ((does_congr hrun).mp hdoes)

theorem replaceFillPos_does_iff (hpos : pos ≤ list.length) {count2 : Nat} (ch : UInt8)
    (hreservable : Reservable maxSize
      (splice list pos (pos + min count (list.length - pos)) (List.replicate count2 ch)).length) :
    Does (some mem.arr) (replaceFillPos maxSize pos count count2 ch) mem
        (.ok (splice list pos (pos + min count (list.length - pos)) (List.replicate count2 ch))) ↔
      pos + count < wordRange := by
  by_cases hsum : pos + count < wordRange
  · refine iff_of_true ?_ hsum
    exact .congr (replaceFillPos_eq hholds ch hpos hsum)
      (replaceRange_does hholds hsupplied (by omega) hreservable)
  · refine iff_of_false (fun hdoes => ?_) hsum
    have horder := rangeEnd_lt hholds hpos hcount (by omega)
    exact reversed_not_does hholds hpos hcount (by omega) hreservable
      ((does_congr (replaceFillPos_reversed hholds ch hpos horder)).mp hdoes)

theorem replacePosSubstring_does_iff (hpos : pos ≤ list.length) {arg : List UInt8}
    (behind : List UInt8) {pos2 count2 : Nat} (hword2 : pos2 < wordRange)
    (hcount2 : count2 < wordRange)
    (hreservable : Reservable maxSize (outcomeSize ((substringOf arg pos2 count2).map fun text =>
      splice list pos (pos + min count (list.length - pos)) text))) :
    Does (some mem.arr) (replacePosSubstring maxSize pos count arg behind pos2 count2) mem
        ((substringOf arg pos2 count2).map fun text =>
          splice list pos (pos + min count (list.length - pos)) text) ↔
      arg.length < pos2 ∨ (pos + count < wordRange ∧
        (pos2 + count2 < wordRange ∨
          min count (list.length - pos) = min count2 (arg.length - pos2))) := by
  unfold substringOf at *
  by_cases hpos2 : arg.length < pos2
  · rw [if_pos hpos2]
    refine iff_of_true ⟨.outOfRange, mem, ?_, rfl, rfl⟩ (Or.inl hpos2)
    rw [replacePosSubstring, Command.get_bind, hholds.size, if_pos (Or.inr hpos2)]
    rfl
  rw [if_neg hpos2] at hreservable ⊢
  rw [or_iff_right hpos2]
  by_cases hsum2 : pos2 + count2 < wordRange
  · refine (does_congr (replacePosSubstring_eq hholds hpos (by omega) hsum2 behind)).trans ?_
    refine (replaceCount_does_iff hholds hsupplied hcount hpos hreservable).trans ?_
    exact (and_iff_left (Or.inl hsum2)).symm
  · refine (does_congr (replacePosSubstring_endless hholds hpos (by omega) hword2 hcount2
      (by omega))).trans ?_
    rw [or_iff_right hsum2]
    by_cases hsum : pos + count < wordRange
    · rw [and_iff_right hsum]
      exact overwriteEndless_does_iff hholds hpos (by omega) hsupplied hsum
    · refine iff_of_false (not_does_of_undefined ?_) fun hboth => hsum hboth.1
      exact overwriteEndless_reversed _ (rangeEnd_lt hholds hpos hcount (by omega)) _ _

/-- All five overloads, each with the calls for which it is right. -/
theorem replace_does_iff (arg : List UInt8) (replacement : Replacement)
    (hwords : replacement.InWords)
    (hreservable : Reservable maxSize (outcomeSize (replacement.onList arg list pos count))) :
    Does (some mem.arr) (replacement.run maxSize pos count arg) mem
        (replacement.onList arg list pos count) ↔
      replacement.InRange arg list pos count := by
  unfold Replacement.onList at *
  by_cases hpos : list.length < pos
  · rw [if_pos hpos]
    cases replacement with
    | string | substring | fill =>
        refine iff_of_true ⟨.outOfRange, mem, ?_, rfl, rfl⟩ (Or.inl hpos)
        exact Replacement.run_past hholds hpos arg (by simp) (by simp)
    | chars | cString =>
        refine iff_of_false (not_does_outOfRange (replaceCount_faults ..)) fun hrange => ?_
        exact Nat.not_lt.mpr hrange.1 hpos
  · have hinside : pos ≤ list.length := by omega
    rw [if_neg hpos] at hreservable ⊢
    cases replacement with
    | string =>
        have hrun : replacePosString maxSize pos count arg mem =
            replaceCount maxSize pos count arg mem := by
          rw [replacePosString, Command.get_bind, hholds.size, if_neg hpos]
        refine (does_congr hrun).trans ?_
        refine (replaceCount_does_iff hholds hsupplied hcount hinside hreservable).trans ?_
        exact (or_iff_right hpos).symm
    | substring pos2 count2 behind =>
        refine (replacePosSubstring_does_iff hholds hsupplied hcount hinside behind hwords.1
          hwords.2 hreservable).trans ?_
        exact (or_iff_right hpos).symm
    | fill count2 ch =>
        refine (replaceFillPos_does_iff hholds hsupplied hcount hinside ch hreservable).trans ?_
        exact (or_iff_right hpos).symm
    | chars | cString =>
        refine (replaceCount_does_iff hholds hsupplied hcount hinside hreservable).trans ?_
        exact (and_iff_right hinside).symm

end Outcomes

/-- "xyz" in place of the "b" of "abc", and the rest of "xyz" from 1 on in place of "ab". -/
theorem replace_does_abc :
    Holds (shortMem [97, 98, 99]).arr (shortMem [97, 98, 99]).heap [97, 98, 99] ∧
      Does (some (shortMem [97, 98, 99]).arr)
        (Replacement.string.run 1000 1 1 [120, 121, 122]) (shortMem [97, 98, 99])
        (.ok [97, 120, 121, 122, 99]) ∧
      Does (some (shortMem [97, 98, 99]).arr)
        ((Replacement.substring 1 npos [0]).run 1000 0 2 [120, 121, 122]) (shortMem [97, 98, 99])
        (.ok [121, 122, 99]) := by
  have hvalid := valid_shortMem (show [97, 98, 99].length ≤ maxInBufferSize by decide)
  refine ⟨hvalid.toHolds, ?_, ?_⟩
  · exact (replace_does_iff hvalid.toHolds (supplied_shortMem _) (by decide) [120, 121, 122]
      .string trivial (by decide)).mpr (Or.inr (by decide))
  · exact (replace_does_iff hvalid.toHolds (supplied_shortMem _) (by decide) [120, 121, 122]
      (.substring 1 npos [0]) ⟨by decide, by decide⟩ (by decide)).mpr
      (Or.inr (Or.inr ⟨by decide, Or.inr (by decide)⟩))

/-- `replace(5, 0, "xy", 2)` on "abc" does not throw but makes the string longer, and
`replace(1, npos, "x")` gives "axaxa". -/
theorem replace_unchecked_position :
    Holds (shortMem [97, 98, 99]).arr (shortMem [97, 98, 99]).heap [97, 98, 99] ∧
      (Replacement.chars.run 1000 5 0 [120, 121] (shortMem [97, 98, 99])).map
        (fun (_, after) => load after.arr 0 9) = some [7, 97, 98, 99, 0, 0, 120, 121, 0] ∧
      ¬ Does (some (shortMem [97, 98, 99]).arr)
        (Replacement.chars.run 1000 5 0 [120, 121]) (shortMem [97, 98, 99])
        (.error .outOfRange) ∧
      (Replacement.string.run 1000 1 npos [120] (shortMem [97, 98, 99])).map
        (fun (_, after) => load after.arr 0 7) = some [5, 97, 120, 97, 120, 97, 0] ∧
      ¬ Does (some (shortMem [97, 98, 99]).arr)
        (Replacement.string.run 1000 1 npos [120]) (shortMem [97, 98, 99])
        (.ok [97, 120]) := by
  have hvalid := valid_shortMem (show [97, 98, 99].length ≤ maxInBufferSize by decide)
  refine ⟨hvalid.toHolds, by decide +kernel, not_does_outOfRange (replaceCount_faults ..),
    by decide +kernel, ?_⟩
  have hsize : (Replacement.string.run 1000 1 npos [120] (shortMem [97, 98, 99])).map
      (fun (_, after) => getSize after.arr) = some 5 := by
    decide +kernel
  apply not_does_of_size
  intro value after hrun
  have hfive : getSize after.arr = 5 := by
    rw [hrun] at hsize
    exact Option.some.inj hsize
  rw [hfive]
  decide

/-! ### Members that clamp without a sum that can wrap -/

def eraseFrom (list : List UInt8) (index count : Nat) : Except Exn (List UInt8) :=
  if list.length < index then .error .outOfRange
  else .ok (splice list index (index + min count (list.length - index)) [])

def insertPart (list : List UInt8) (index : Nat) (arg : List UInt8) (indexStr count : Nat) :
    Except Exn (List UInt8) :=
  if arg.length < indexStr then .error .outOfRange
  else insertInto list index ((arg.drop indexStr).take count)

theorem eraseCount_does (hvalid : Valid mem.arr mem.heap list) (index count : Nat) :
    Does (some mem.arr) (eraseCount index count) mem (eraseFrom list index count) := by
  have hbound := hvalid.length_lt
  have hdouble : ptrdiffMax + ptrdiffMax < wordRange := by decide
  unfold eraseFrom
  by_cases hindex : list.length < index
  · rw [if_pos hindex]
    refine ⟨.outOfRange, mem, ?_, rfl, rfl⟩
    rw [eraseCount, Command.get_bind, hvalid.size, if_pos hindex]
    rfl
  · rw [if_neg hindex]
    have hlast : (if count = npos ∨ count ≥ list.length ∨ wrap (index + count) > list.length then
        list.length else index + count) = index + min count (list.length - index) := by
      by_cases hlarge : count ≥ list.length
      · rw [if_pos (Or.inr (Or.inl hlarge))]
        omega
      · have hnpos : count ≠ npos := by
          simp only [npos, wordRange, ptrdiffMax] at *
          omega
        rw [wrap_of_lt (by omega)]
        split <;> omega
    have hrun : eraseCount index count mem =
        erase index (index + min count (list.length - index)) mem := by
      rw [eraseCount, Command.get_bind, hvalid.size, if_neg hindex, hlast]
    refine (does_congr hrun).mpr ?_
    have herase := erase_returns hvalid.toHolds
      (show index ≤ index + min count (list.length - index) by omega) (by omega)
    rwa [← List.append_nil (list.take index)] at herase

theorem copyLoop_returns (hholds : Holds mem.arr mem.heap list) (hindex : index ≤ list.length)
    (count : Nat) :
    Command.Returns (copyLoop (getPtr mem.arr) index list.length count) mem fun text after =>
      text = (list.drop index).take count ∧ after = mem := by
  have hfits := hholds.fits
  induction count generalizing index with
  | zero => exact .pure ⟨rfl, rfl⟩
  | succ count ih =>
      unfold copyLoop
      by_cases hend : index ≠ list.length
      · have hlt : index < list.length := by omega
        have hchar : chars mem.arr mem.heap index = list[index] := by
          have hload := load_drop hholds.content hindex
          rw [show list.length - index = 1 + (list.length - index - 1) by omega, load_append,
            load_one, List.drop_eq_getElem_cons hlt] at hload
          exact (List.cons.inj hload).1
        rw [if_pos hend]
        apply (hholds.edited.read (by omega)).seq
        rintro _ _ ⟨rfl, rfl⟩
        apply (ih hlt).seq
        rintro _ _ ⟨rfl, rfl⟩
        refine .pure ⟨?_, rfl⟩
        rw [List.drop_eq_getElem_cons hlt, List.take_succ_cons, hchar]
      · rw [if_neg hend, List.drop_of_length_le (by omega), List.take_nil]
        exact .pure ⟨rfl, rfl⟩

theorem Becomes.keeps {arr : Memory} {heap : Heap} {after : Mem} {text : List UInt8}
    (hbecomes : Becomes none heap text after) (hholds : Holds arr heap list) :
    Holds arr after.heap list := by
  refine hholds.heap_congr fun address hptr => ?_
  have hused : heap address ≠ none := fun hfree => hholds.shaped.ptr_ne_free hfree hptr
  refine hbecomes.2.others address (owns_none address) fun howns => hused ?_
  exact (hbecomes.2.fresh address howns).resolve_left (owns_none address)

def SubstrDoes (mem : Mem) (raw : Memory) (list : List UInt8) (pos count : Nat) : Prop :=
  Does none (constructSubstring list pos count) { mem with arr := raw }
      (substringOf list pos count) ∧
    ∀ outcome after, constructSubstring list pos count { mem with arr := raw } =
      some (outcome, after) → Holds mem.arr after.heap list

theorem substr_does (hvalid : Valid mem.arr mem.heap list)
    (hsupplied : Supplied mem.supply mem.heap) (raw : Memory) (pos count : Nat) :
    SubstrDoes mem raw list pos count := by
  have hbound := hvalid.length_lt
  have hdouble : ptrdiffMax + ptrdiffMax < wordRange := by decide
  have hdoes := @constructSubstring_does { mem with arr := raw } hsupplied pos count list (by
    unfold substringOf
    split
    · exact Nat.lt_of_le_of_lt (Nat.zero_le _) hdouble
    · simp only [outcomeSize, List.length_take, List.length_drop]
      omega)
  refine ⟨hdoes, fun outcome after hrun => ?_⟩
  cases hresult : substringOf list pos count with
  | error fault =>
      rw [hresult] at hdoes
      obtain ⟨_, _, hthrown, _, rfl⟩ := hdoes
      cases hthrown.symm.trans hrun
      exact hvalid.toHolds
  | ok text =>
      rw [hresult] at hdoes
      obtain ⟨_, _, hreturned, hbecomes⟩ := hdoes
      cases hreturned.symm.trans hrun
      exact hbecomes.keeps hvalid.toHolds

def CopyDoes (mem : Mem) (list : List UInt8) (pos count : Nat) : Prop :=
  if list.length < pos then
    Command.Throws (copy count pos) mem fun fault after => fault = .outOfRange ∧ after = mem
  else Command.Returns (copy count pos) mem fun result after =>
    result = ((list.drop pos).take count, min count (list.length - pos)) ∧ after = mem

theorem copy_does (hholds : Holds mem.arr mem.heap list) (pos count : Nat) :
    CopyDoes mem list pos count := by
  unfold CopyDoes
  split
  · rename_i hpos
    refine ⟨.outOfRange, mem, ?_, rfl, rfl⟩
    rw [copy, Command.get_bind, hholds.size, if_pos hpos]
    rfl
  · rename_i hpos
    unfold copy
    apply Command.Returns.ofGet
    rw [hholds.size, if_neg hpos]
    apply (copyLoop_returns hholds (by omega) count).seq
    rintro _ _ ⟨rfl, rfl⟩
    exact .pure ⟨by rw [List.length_take, List.length_drop], rfl⟩

/-- `substr`, `erase`, `copy` and `insert` of a substring. -/
theorem clamped_members_do (hvalid : Valid mem.arr mem.heap list)
    (hsupplied : Supplied mem.supply mem.heap) (raw : Memory) (arg : List UInt8)
    (pos count index : Nat) {maxSize : Nat}
    (hreservable : Reservable maxSize (outcomeSize (insertPart list index arg pos count))) :
    SubstrDoes mem raw list pos count ∧
      Does (some mem.arr) (eraseCount pos count) mem (eraseFrom list pos count) ∧
      CopyDoes mem list pos count ∧
      Does (some mem.arr) (insertSubstring maxSize index arg pos count) mem
        (insertPart list index arg pos count) :=
  ⟨substr_does hvalid hsupplied raw pos count, eraseCount_does hvalid pos count,
    copy_does hvalid.toHolds pos count, insertSubstring_does hvalid.toHolds hsupplied hreservable⟩

/-- From 1 on, with `npos` as count: "bc" of "abc", and the "yz" of "xyz" into "abc". -/
theorem clamped_members_abc :
    Valid (shortMem [97, 98, 99]).arr (shortMem [97, 98, 99]).heap [97, 98, 99] ∧
      Does (some (shortMem [97, 98, 99]).arr) (eraseCount 1 npos) (shortMem [97, 98, 99])
        (.ok [97]) ∧
      Does (some (shortMem [97, 98, 99]).arr) (insertSubstring 1000 3 [120, 121, 122] 1 npos)
        (shortMem [97, 98, 99]) (.ok [97, 98, 99, 121, 122]) := by
  have hvalid := valid_shortMem (show [97, 98, 99].length ≤ maxInBufferSize by decide)
  have hmembers := @clamped_members_do _ _ hvalid (supplied_shortMem _) zeroArr [120, 121, 122] 1
    npos 3 1000 (by decide)
  exact ⟨hvalid, hmembers.2.1, hmembers.2.2.2⟩

end Crossbow.BasicString
