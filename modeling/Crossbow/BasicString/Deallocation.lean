import Crossbow.BasicString.Faults
import Crossbow.BasicString.Refinement

/-! What is passed to `deallocate`. A block is asked for with room for the
terminator, and released with the capacity or the size, which do not count it. -/
namespace Crossbow.BasicString
open Kernel

/-! ### Commands that release nothing -/

def lengths (mem : Mem) (address : Nat) : Option Nat := (mem.heap address).map Block.length

variable {middle : Mem} {Part : Type}

theorem read_keeps {part : Mem → Part} (ptr : Ptr) (index : Nat) :
    Command.Keeps part (read ptr index) := by
  constructor
  intro mem outcome after hrun
  rcases read_cases ptr index mem with ⟨ch, hread⟩ | hnone
  · cases hread.symm.trans hrun
    rfl
  · cases hnone.symm.trans hrun

theorem write_keeps {part : Mem → Part} {ptr : Ptr} {index : Nat} {ch : UInt8}
    (hbuffer : ptr = .buffer → ∀ mem : Mem,
      part { mem with arr := store mem.arr (1 + index) [ch] } = part mem)
    (hblock : ∀ (mem : Mem) (address : Nat) (block : Block), mem.heap address = some block →
      part { mem with
        heap := Function.update mem.heap address
          (some { block with bytes := store block.bytes index [ch] }) } = part mem) :
    Command.Keeps part (write ptr index ch) := by
  constructor
  intro mem outcome after hrun
  unfold write at hrun
  split at hrun
  · split at hrun
    · cases hrun
      exact hbuffer rfl mem
    · cases hrun
  · split at hrun
    · rename_i _ address _ block hlive
      split at hrun
      · cases hrun
        exact hblock mem address block hlive
      · cases hrun
    · cases hrun

theorem write_released (ptr : Ptr) (index : Nat) (ch : UInt8) :
    Command.Keeps Mem.released (write ptr index ch) :=
  write_keeps (fun _ _ => rfl) fun _ _ _ _ => rfl

theorem write_lengths (ptr : Ptr) (index : Nat) (ch : UInt8) :
    Command.Keeps lengths (write ptr index ch) := by
  refine write_keeps (fun _ _ => rfl) fun mem address block hlive => ?_
  funext other
  dsimp only [lengths]
  by_cases hother : other = address
  · rw [hother, Function.update_self, hlive]
    rfl
  · rw [Function.update_of_ne hother]

theorem write_mark (ptr : Ptr) (index : Nat) (ch : UInt8) :
    Command.Keeps (fun mem => mem.arr 0) (write ptr index ch) :=
  write_keeps (fun _ mem => store_of_lt mem.arr [ch] (Nat.lt_add_right index Nat.one_pos))
    fun _ _ _ _ => rfl

theorem write_arr (address index : Nat) (ch : UInt8) :
    Command.Keeps Mem.arr (write (.block address) index ch) :=
  write_keeps nofun fun _ _ _ _ => rfl

theorem putChars_keeps {part : Mem → Part} {target : Ptr}
    (hwrite : ∀ index ch, Command.Keeps part (write target index ch)) (index : Nat)
    (text : List UInt8) : Command.Keeps part (putChars target index text) := by
  induction text generalizing index with
  | nil => exact .pure ()
  | cons ch rest ih => exact .bind (hwrite index ch) fun _ => ih (index + 1)

theorem copyChars_keeps {part : Mem → Part} {target : Ptr}
    (hwrite : ∀ index ch, Command.Keeps part (write target index ch)) (source : Ptr)
    (start index count : Nat) :
    Command.Keeps part (copyChars source start target index count) := by
  induction count generalizing start index with
  | zero => exact .pure ()
  | succ count ih =>
      exact .bind (read_keeps source start) fun ch =>
        .bind (hwrite index ch) fun _ => ih (start + 1) (index + 1)

abbrev Unreleasing {Value : Type} (command : Op Value) : Prop := Command.Keeps Mem.released command

theorem moveTail_released (ptr : Ptr) (size newSize i count : Nat) :
    Unreleasing (moveTail ptr size newSize i count) := by
  induction count generalizing i with
  | zero => exact .pure ()
  | succ count ih =>
      exact .bind (read_keeps ptr _) fun ch => .bind (write_released ptr _ ch) fun _ => ih (i + 1)

theorem putChars_released (ptr : Ptr) (index : Nat) (text : List UInt8) :
    Unreleasing (putChars ptr index text) :=
  putChars_keeps (write_released ptr) index text

theorem copyChars_released (source target : Ptr) (start index count : Nat) :
    Unreleasing (copyChars source start target index count) :=
  copyChars_keeps (write_released target) source start index count

theorem editArr_released (change : Memory → Memory) : Unreleasing (editArr change) :=
  .modify fun _ => rfl

theorem terminate_released : Unreleasing terminate := .bind .get fun _ => write_released ..

theorem allocate_released (count : Nat) : Unreleasing (allocate count) := by
  constructor
  intro mem outcome after hrun
  unfold allocate at hrun
  split at hrun
  · cases hrun
    rfl
  · split at hrun
    · cases hrun
      rfl
    · cases hrun

theorem erasePointers_released (first last : Nat) : Unreleasing (erasePointers first last) :=
  .bind .get fun _ => .bind (copyChars_released ..) fun _ => .bind (editArr_released _) fun _ =>
    terminate_released

theorem erase_released (first last : Nat) : Unreleasing (erase first last) := by
  refine .bind .get fun mem => .ite ?_ .undefined
  exact .bind (copyChars_released ..) fun _ => .bind (editArr_released _) fun _ =>
    terminate_released

theorem init_released (count : Nat) : Unreleasing (init count) := by
  refine .ite (.bind (editArr_released _) fun _ => terminate_released) ?_
  exact .bind (editArr_released _) fun _ => .bind (editArr_released _) fun _ =>
    .bind (allocate_released _) fun _ => .bind (editArr_released _) fun _ =>
    .bind (editArr_released _) fun _ => terminate_released

theorem initWith_released (text : List UInt8) : Unreleasing (initWith text) :=
  .bind (init_released _) fun _ => .bind .get fun _ => .bind (putChars_released ..) fun _ =>
    write_released ..

theorem initWithout_released (text : List UInt8) : Unreleasing (initWithout text) :=
  .bind (init_released _) fun _ => .bind .get fun _ => putChars_released ..

theorem Ctor.released (ctor : Ctor) (arg : List UInt8) : Unreleasing (ctor.run arg) := by
  cases ctor with
  | default => exact editArr_released fun _ => zeroArr
  | substring pos count =>
      exact .ite (.throw _) (.bind (editArr_released _) fun _ => initWith_released _)
  | cString | list => exact initWithout_released _
  | fill | chars | range | std => exact initWith_released _

theorem constructCopy_released (otherArr : Memory) (other : List UInt8) :
    Unreleasing (constructCopy otherArr other) :=
  .ite (editArr_released _) (initWith_released _)

/-! ### What a command adds to the record of released blocks -/

/-- A command that ends has released blocks as `log` says, or has thrown before it
released any. -/
structure Logs {Value : Type} (command : Op Value) (mem : Mem)
    (log : List (Nat × Nat) → Prop) : Prop where
  leaves : ∀ {outcome after}, command mem = some (outcome, after) →
    (∃ entries, log entries ∧ after.released = mem.released ++ entries) ∨
      (∃ fault, outcome = .error fault) ∧ after.released = mem.released

section Logs

variable {Value Result : Type} {command : Op Value} {next : Value → Op Result} {mem : Mem}
  {log : List (Nat × Nat) → Prop}

theorem Logs.mono {weaker : List (Nat × Nat) → Prop} (hcommand : Logs command mem log)
    (himplies : ∀ entries, log entries → weaker entries) : Logs command mem weaker := by
  constructor
  intro outcome after hrun
  rcases hcommand.leaves hrun with ⟨entries, hlog, hreleased⟩ | hthrown
  · exact Or.inl ⟨entries, himplies entries hlog, hreleased⟩
  · exact Or.inr hthrown

theorem Logs.nothing (hcommand : Unreleasing command) (hlog : log []) : Logs command mem log := by
  constructor
  intro outcome after hrun
  exact Or.inl ⟨[], hlog, by rw [hcommand.same hrun, List.append_nil]⟩

theorem Logs.throw (fault : Exn) : Logs (Command.throw fault : Op Value) mem log := by
  constructor
  intro outcome after hrun
  cases hrun
  exact Or.inr ⟨⟨fault, rfl⟩, rfl⟩

theorem Logs.undefined : Logs (Command.undefined : Op Value) mem log := by
  constructor
  intro outcome after hrun
  cases hrun

theorem Logs.get {next : Mem → Op Result} (hnext : Logs (next mem) mem log) :
    Logs (Command.get >>= next) mem log :=
  ⟨hnext.leaves⟩

theorem Logs.first (hcommand : Logs command mem log) (hnext : ∀ value, Unreleasing (next value)) :
    Logs (command >>= next) mem log := by
  constructor
  intro outcome after hrun
  simp only [Bind.bind] at hrun
  rcases hfirst : command mem with _ | ⟨fault | value, middle⟩
  · simp [hfirst] at hrun
  · rw [hfirst] at hrun
    cases hrun
    exact (hcommand.leaves hfirst).imp_right fun hthrown => ⟨⟨fault, rfl⟩, hthrown.2⟩
  · rw [hfirst] at hrun
    rcases hcommand.leaves hfirst with ⟨entries, hlog, hreleased⟩ | ⟨⟨fault, hfault⟩, _⟩
    · exact Or.inl ⟨entries, hlog, ((hnext value).same hrun).trans hreleased⟩
    · cases hfault

theorem Logs.later (hcommand : Unreleasing command)
    (hnext : ∀ value middle, command mem = some (.ok value, middle) →
      Logs (next value) middle log) : Logs (command >>= next) mem log := by
  constructor
  intro outcome after hrun
  simp only [Bind.bind] at hrun
  rcases hfirst : command mem with _ | ⟨fault | value, middle⟩
  · simp [hfirst] at hrun
  · rw [hfirst] at hrun
    cases hrun
    exact Or.inr ⟨⟨fault, rfl⟩, hcommand.same hfirst⟩
  · rw [hfirst] at hrun
    have hlogs := (hnext value middle hfirst).leaves hrun
    rwa [hcommand.same hfirst] at hlogs

end Logs

variable {mem : Mem}

def Entry (mem : Mem) (ptr : Ptr) (count : Nat) (entries : List (Nat × Nat)) : Prop :=
  ∃ length, entries = [(length, count)] ∧
    ∀ address block, ptr = .block address → mem.heap address = some block →
      length = block.length

def Retains (mem middle : Mem) : Prop :=
  ∀ address block, mem.heap address = some block → lengths middle address = some block.length

theorem Retains.of_lengths (hsame : lengths middle = lengths mem) :
    Retains mem middle := by
  intro address block hblock
  rw [hsame, lengths, hblock, Option.map_some]

theorem Retains.step {Value : Type} {command : Op Value} {after : Mem} {outcome : Except Exn Value}
    (hretains : Retains mem middle) (hcommand : Command.Keeps lengths command)
    (hrun : command middle = some (outcome, after)) : Retains mem after := by
  intro address block hblock
  rw [hcommand.same hrun]
  exact hretains address block hblock

theorem Entry.retained {ptr : Ptr} {count : Nat} {entries : List (Nat × Nat)}
    (hentry : Entry middle ptr count entries) (hretains : Retains mem middle) :
    Entry mem ptr count entries := by
  obtain ⟨length, hentries, hlength⟩ := hentry
  refine ⟨length, hentries, fun address block hptr hblock => ?_⟩
  have hmiddle := hretains address block hblock
  unfold lengths at hmiddle
  obtain ⟨other, hother, hsame⟩ := Option.map_eq_some_iff.mp hmiddle
  exact (hlength address other hptr hother).trans hsame

theorem deallocate_logs (ptr : Ptr) (count : Nat) :
    Logs (deallocate ptr count) mem (Entry mem ptr count) := by
  constructor
  intro outcome after hrun
  unfold deallocate at hrun
  split at hrun
  · cases hrun
  · split at hrun
    · rename_i address block hlive
      cases hrun
      refine Or.inl ⟨_, ⟨block.length, rfl, fun other found hptr hfound => ?_⟩, rfl⟩
      cases hptr
      cases hlive.symm.trans hfound
      rfl
    · cases hrun

theorem destruct_logs (hmark : mem.arr 0 = nullchar) :
    Logs destruct mem (Entry mem (getPtr mem.arr) (getCapacity mem.arr)) := by
  refine .get ?_
  rw [if_pos hmark]
  exact (deallocate_logs ..).first fun _ => editArr_released _

theorem moveRelease_logs (hmark : mem.arr 0 = nullchar) :
    Logs moveRelease mem (Entry mem (getPtr mem.arr) (getSize mem.arr)) := by
  refine .get ?_
  rw [if_pos hmark]
  exact deallocate_logs ..

theorem destruct_inline (hmark : mem.arr 0 ≠ nullchar) : destruct mem = some (.ok (), mem) := by
  rw [destruct, Command.get_bind, if_neg hmark]
  rfl

theorem moveRelease_inline (hmark : mem.arr 0 ≠ nullchar) :
    moveRelease mem = some (.ok (), mem) := by
  rw [moveRelease, Command.get_bind, if_neg hmark]
  rfl

/-! ### Making room -/

/-- What is released by a member that needs room for `demand` characters: nothing
if there is as much or if the string is in its array, else the block that was too
small. -/
structure Outgrown (mem : Mem) (demand : Nat) (entries : List (Nat × Nat)) : Prop where
  spared : (mem.arr 0 = nullchar → demand ≤ getCapacity mem.arr) → entries = []
  charged : mem.arr 0 = nullchar → getSize mem.arr ≤ getCapacity mem.arr →
    getCapacity mem.arr < demand → demand < wordRange →
    Entry mem (getPtr mem.arr) (getCapacity mem.arr) entries

theorem Outgrown.nothing {demand : Nat}
    (hroom : mem.arr 0 = nullchar → getSize mem.arr ≤ getCapacity mem.arr →
      demand ≤ getCapacity mem.arr) : Outgrown mem demand [] :=
  ⟨fun _ => rfl, fun hmark hsize hmore _ => absurd (hroom hmark hsize) (by omega)⟩

theorem Outgrown.unwrap {demand : Nat} {entries : List (Nat × Nat)}
    (houtgrown : Outgrown mem (wrap demand) entries) : Outgrown mem demand entries := by
  constructor
  · intro hroom
    exact houtgrown.spared fun hmark => Nat.le_trans (wrap_le _) (hroom hmark)
  · intro hmark hsize hmore hword
    rw [wrap_of_lt hword] at houtgrown
    exact houtgrown.charged hmark hsize hmore hword

theorem allocate_retains {count address : Nat}
    (hrun : allocate count mem = some (.ok address, middle)) : Retains mem middle := by
  obtain ⟨bytes, _, hfree, rfl⟩ := allocate_ok hrun
  intro other block hblock
  have hne : other ≠ address := by
    rintro rfl
    rw [hfree] at hblock
    cases hblock
  simp only [lengths, Function.update_of_ne hne, hblock, Option.map_some]

theorem grow_logs {newCap : Nat} (roomCap : Nat) (hmore : getCapacity mem.arr < newCap) :
    Logs (grow roomCap) mem (Outgrown mem newCap) := by
  refine .get (.later (allocate_released _) fun address middle hallocate => ?_)
  split
  · exact .throw _
  refine .later (copyChars_released ..) fun _ copied hcopy => ?_
  have hfields : Unreleasing (do
      editArr (setCapacity · roomCap)
      editArr (setPtr · address)) := .bind (editArr_released _) fun _ => editArr_released _
  split
  · rename_i hinline
    refine .nothing ?_ (.nothing fun hmark => absurd hmark hinline)
    exact .bind (editArr_released _) fun _ => .bind (editArr_released _) fun _ => hfields
  · rename_i hmark
    have hcopied : Retains mem copied :=
      (allocate_retains hallocate).step (copyChars_keeps (write_lengths _) ..) hcopy
    refine ((deallocate_logs ..).first fun _ => hfields).mono fun entries hentry => ⟨?_, ?_⟩
    · intro hroom
      exact absurd (hroom (not_not.mp hmark)) (by omega)
    · intro _ _ _ _
      exact hentry.retained hcopied

theorem reserve_logs (maxSize newCap : Nat) :
    Logs (reserve maxSize newCap) mem (Outgrown mem newCap) := by
  refine .get ?_
  split
  · rename_i hroom
    exact .nothing (.pure _) (.nothing fun _ _ => hroom)
  · rename_i hmore
    split
    · exact .throw _
    · exact grow_logs _ (by omega)

theorem reserve_thrown {maxSize newCap : Nat} {fault : Exn} {after : Mem}
    (hrun : reserve maxSize newCap mem = some (.error fault, after)) :
    after.released = mem.released := by
  rw [reserve, Command.get_bind] at hrun
  split at hrun
  · cases hrun
  split at hrun
  · cases hrun
    rfl
  rw [grow, Command.get_bind] at hrun
  rcases Command.bind_eq_error.mp hrun with hallocate | ⟨address, middle, hallocate, hcopy⟩
  · exact (allocate_released _).same hallocate
  · split at hcopy
    · cases hcopy
      exact (allocate_released _).same hallocate
    · exact ((grow_rest_silent ..).only hcopy).elim

/-! ### Members -/

theorem assignText_logs (maxSize : Nat) (text : List UInt8) :
    Logs (assignText maxSize text) mem (Outgrown mem text.length) :=
  (reserve_logs ..).first fun _ => .bind .get fun _ => .bind (putChars_released ..) fun _ =>
    .bind (editArr_released _) fun _ => terminate_released

theorem operatorAssignChar_logs (maxSize : Nat) (ch : UInt8) :
    Logs (operatorAssignChar maxSize ch) mem (Outgrown mem 1) :=
  (reserve_logs ..).first fun _ => .bind (editArr_released _) fun _ => .bind .get fun _ =>
    .bind (write_released ..) fun _ => terminate_released

theorem resize_logs (maxSize count : Nat) (ch : UInt8) :
    Logs (resize maxSize count ch) mem (Outgrown mem count) :=
  .get <| (reserve_logs ..).first fun _ => .bind .get fun _ => .bind (write_released ..) fun _ =>
    .bind (editArr_released _) fun _ => .ite (.pure _) (putChars_released ..)

theorem assignSubstring_logs (maxSize : Nat) (str : List UInt8) (pos count : Nat) :
    Logs (assignSubstring maxSize str pos count) mem
      (Outgrown mem (outcomeSize (substringOf str pos count))) := by
  unfold assignSubstring
  by_cases hpos : pos > str.length
  · rw [if_pos hpos]
    exact .throw _
  rw [if_neg hpos]
  generalize hcnt : (if wrap (pos + count) > str.length then str.length - pos else count) = cnt
  dsimp only
  split
  · rename_i hinside
    have hsize : outcomeSize (substringOf str pos count) = ((str.drop pos).take cnt).length := by
      rw [substringOf, if_neg hpos, outcomeSize, List.length_take, List.length_take,
        List.length_drop]
      have hle := wrap_le (pos + count)
      split at hcnt <;> omega
    rw [hsize]
    exact assignText_logs ..
  · constructor
    intro outcome after hrun
    rcases outcome with fault | _
    · have hreserve := (Command.bind_eq_error.mp hrun).resolve_right (by rintro ⟨_, _, _, ⟨⟩⟩)
      exact Or.inr ⟨⟨fault, rfl⟩, reserve_thrown hreserve⟩
    · obtain ⟨_, _, _, ⟨⟩⟩ := Command.bind_eq_ok.mp hrun

theorem insertText_logs (maxSize index : Nat) (text : List UInt8) :
    Logs (insertText maxSize index text) mem (Outgrown mem (getSize mem.arr + text.length)) := by
  refine .get (Logs.mono ?_ fun entries => Outgrown.unwrap)
  exact (reserve_logs ..).first fun _ => .bind .get fun _ => .bind (write_released ..) fun _ =>
    .bind (moveTail_released ..) fun _ => .bind (putChars_released ..) fun _ => editArr_released _

abbrev blank (arr : Memory) : List UInt8 := List.replicate (getSize arr) 0

theorem length_blank (arr : Memory) : (blank arr).length = getSize arr :=
  List.length_replicate

theorem insertChecked_logs (maxSize index : Nat) (text : List UInt8) :
    Logs (insertChecked maxSize index text) mem
      (Outgrown mem (outcomeSize (insertInto (blank mem.arr) index text))) := by
  refine .get ?_
  by_cases hindex : index > getSize mem.arr
  · rw [if_pos hindex]
    exact .throw _
  · rw [if_neg hindex, insertInto, length_blank, if_neg hindex, outcomeSize,
      length_splice_self (by rw [length_blank]; omega), length_blank]
    exact insertText_logs ..

theorem insertSubstring_logs (maxSize index : Nat) (str : List UInt8) (indexStr count : Nat) :
    Logs (insertSubstring maxSize index str indexStr count) mem
      (Outgrown mem (outcomeSize (if str.length < indexStr then .error .outOfRange
        else insertInto (blank mem.arr) index ((str.drop indexStr).take count)))) := by
  unfold insertSubstring
  split
  · exact .throw _
  · have hclamp : (str.drop indexStr).take (min count (str.length - indexStr)) =
        (str.drop indexStr).take count := by
      rw [← List.length_drop, ← List.take_eq_take_min]
    rw [hclamp]
    exact insertChecked_logs ..

theorem insertRange_logs (maxSize pos : Nat) (text : List UInt8) :
    Logs (insertRange maxSize pos text) mem
      (Outgrown mem (splice (blank mem.arr) pos pos text).length) := by
  refine .get ?_
  split
  · rw [length_splice_self (by rw [length_blank]; omega), length_blank]
    exact insertText_logs ..
  · exact .undefined

theorem appendRange_logs (maxSize : Nat) (text : List UInt8) :
    Logs (appendRange maxSize text) mem (Outgrown mem (blank mem.arr ++ text).length) := by
  refine .get ?_
  have hsplice := splice_end (blank mem.arr) text
  rw [length_blank] at hsplice
  rw [← hsplice]
  exact insertRange_logs ..

theorem pushBack_logs (maxSize : Nat) (c : UInt8) :
    Logs (pushBack maxSize c) mem (Outgrown mem (getSize mem.arr + 1)) := by
  have hrest : Unreleasing (do
      let after ← Command.get
      write (getPtr after.arr) (getSize mem.arr) c
      editArr (setSize · (wrap (getSize mem.arr + 1)))
      terminate : Op Unit) :=
    .bind .get fun _ => .bind (write_released ..) fun _ => .bind (editArr_released _) fun _ =>
      terminate_released
  refine .get ?_
  dsimp only
  split
  · exact ((reserve_logs ..).first fun _ => hrest).mono fun _ => Outgrown.unwrap
  · refine .nothing hrest (.nothing fun _ hsize => ?_)
    omega

structure Overwritten (mem middle : Mem) : Prop where
  mark : middle.arr 0 = mem.arr 0
  arr : mem.arr 0 = nullchar → middle.arr = mem.arr
  lengths : lengths middle = lengths mem

theorem putChars_overwrites {index : Nat} {text : List UInt8} {outcome : Except Exn Unit}
    (hrun : putChars (getPtr mem.arr) index text mem = some (outcome, middle)) :
    Overwritten mem middle := by
  refine ⟨(putChars_keeps (write_mark _) ..).same hrun, fun hmark => ?_,
    (putChars_keeps (write_lengths _) ..).same hrun⟩
  rw [getPtr_heap hmark] at hrun
  exact (putChars_keeps (write_arr _) ..).same hrun

section Overwritten

variable (hover : Overwritten mem middle)
include hover

theorem Overwritten.size : getSize middle.arr = getSize mem.arr := by
  by_cases hmark : mem.arr 0 = nullchar
  · rw [hover.arr hmark]
  · rw [getSize, getSize, hover.mark, if_pos hmark, if_pos hmark]

theorem Overwritten.outgrown {demand : Nat} {entries : List (Nat × Nat)}
    (houtgrown : Outgrown middle demand entries) : Outgrown mem demand entries := by
  have hsize := hover.size
  by_cases hmark : mem.arr 0 = nullchar
  · rw [show middle = { middle with arr := mem.arr } from by rw [← hover.arr hmark]] at houtgrown
    refine ⟨houtgrown.spared, fun hheap hfits hmore hword => ?_⟩
    exact (houtgrown.charged hheap hfits hmore hword).retained (.of_lengths hover.lengths)
  · rw [houtgrown.spared fun hheap => absurd (hover.mark.symm.trans hheap) hmark]
    exact .nothing fun hheap => absurd hheap hmark

end Overwritten

theorem replaceRange_logs (maxSize first last : Nat) (text : List UInt8) :
    Logs (replaceRange maxSize first last text) mem
      (Outgrown mem (splice (blank mem.arr) first last text).length) := by
  refine .get ?_
  split
  · rename_i hrange
    rw [length_splice hrange.1 (by rw [length_blank]; omega), length_blank]
    refine .later (putChars_released ..) fun _ middle hrun => ?_
    have hover := putChars_overwrites hrun
    split
    · refine .nothing (erase_released ..) (.nothing fun _ hsize => ?_)
      omega
    · split
      · refine (insertRange_logs ..).mono fun entries houtgrown => hover.outgrown ?_
        rw [length_splice_self (by rw [length_blank, hover.size]; omega), length_blank,
          hover.size, List.length_drop] at houtgrown
        convert houtgrown using 1
        omega
      · refine .nothing (.pure _) (.nothing fun _ hsize => ?_)
        omega
  · exact .undefined

theorem replaceFill_logs (maxSize first last count2 : Nat) (ch : UInt8) :
    Logs (replaceFill maxSize first last count2 ch) mem
      (Outgrown mem (splice (blank mem.arr) first last (List.replicate count2 ch)).length) := by
  refine .get ?_
  split
  · rename_i hrange
    have hword := getSize_lt mem.arr
    rw [length_splice hrange.1 (by rw [length_blank]; omega), length_blank, List.length_replicate]
    have hlast : rangeEnd (getSize mem.arr) first (last - first) = last := by
      rw [rangeEnd_eq (by omega) (by omega)]
      omega
    refine .get ?_
    dsimp only
    rw [if_neg (by omega), hlast, overwrite_eq _ hrange.1, Command.bind_assoc,
      List.length_replicate, List.drop_replicate]
    generalize hwritten : min (last - first) count2 = written
    refine .later (putChars_released ..) fun _ middle hrun => ?_
    have hover := putChars_overwrites hrun
    change Logs (if List.replicate (count2 - written) ch ≠ [] then
        insertFillAt maxSize (first + written) (List.replicate (count2 - written) ch).length ch
      else if first + written ≠ last then erasePointers (first + written) last
      else pure ()) middle _
    rw [List.length_replicate]
    split
    · rename_i hleft
      rw [ne_eq, List.replicate_eq_nil_iff] at hleft
      refine (insertChecked_logs ..).mono fun entries houtgrown => hover.outgrown ?_
      have hplace : first + written ≤ (blank middle.arr).length := by
        rw [length_blank, hover.size]
        omega
      rw [insertInto, if_neg (by omega), outcomeSize, length_splice_self hplace, length_blank,
        hover.size, List.length_replicate] at houtgrown
      convert houtgrown using 1
      omega
    · rename_i hdone
      rw [ne_eq, not_not, List.replicate_eq_nil_iff] at hdone
      split
      · refine .nothing (erasePointers_released ..) (.nothing fun _ hsize => ?_)
        omega
      · refine .nothing (.pure _) (.nothing fun _ hsize => ?_)
        omega
  · exact .undefined

theorem Call.logs (maxSize : Nat) {call : Call} (arg : List UInt8)
    (hother : call ≠ .shrinkToFit) :
    Logs (call.run maxSize arg) mem (Outgrown mem (call.demand arg (blank mem.arr))) := by
  cases call with
  | operatorAssign | operatorAssignCString | operatorAssignList | operatorAssignStd
  | assignFill | assignChars | assignCString | assignRange | assignList =>
      exact assignText_logs ..
  | operatorAssignChar => exact operatorAssignChar_logs ..
  | assignString => exact (assignText_logs ..).first fun _ => .undefined
  | assignSubstring => exact assignSubstring_logs ..
  | reserve => exact reserve_logs ..
  | shrinkToFit => exact absurd rfl hother
  | clear =>
      refine .nothing ?_ (.nothing fun _ _ => Nat.zero_le _)
      exact .bind .get fun _ => .bind (write_released ..) fun _ => editArr_released _
  | popBack =>
      refine .nothing ?_ (.nothing fun _ _ => Nat.zero_le _)
      exact .bind .get fun _ => .bind (editArr_released _) fun _ => terminate_released
  | erase | erasePosition =>
      exact .nothing (erase_released ..) (.nothing fun _ _ => Nat.zero_le _)
  | insertFill | insertChars | insertCString | insertString | insertCharAt | insertFillAt =>
      exact insertChecked_logs ..
  | insertSubstring => exact insertSubstring_logs ..
  | insertRange | insertList => exact insertRange_logs ..
  | pushBack c =>
      have hdemand : (Call.pushBack c).demand arg (blank mem.arr) = getSize mem.arr + 1 := by
        simp [Call.demand, Call.onList, outcomeSize]
      rw [hdemand]
      exact pushBack_logs ..
  | appendRange => exact appendRange_logs ..
  | replaceRange | replaceString | replaceChars | replaceCString | replaceList =>
      exact replaceRange_logs ..
  | replaceFill => exact replaceFill_logs ..
  | resize count ch =>
      rw [show (Call.resize count ch).demand arg (blank mem.arr) = count from length_resized ..]
      exact resize_logs ..
  | resizeDefault count =>
      rw [show (Call.resizeDefault count).demand arg (blank mem.arr) = count
        from length_resized ..]
      exact resize_logs ..

theorem shrinkToFit_spares (hfits : mem.arr 0 = nullchar → getSize mem.arr = getCapacity mem.arr) :
    Logs shrinkToFit mem fun entries => entries = [] := by
  refine .get ?_
  dsimp only
  split
  · exact .nothing (.pure _) rfl
  · rename_i hsize
    have hmark : mem.arr 0 ≠ nullchar := fun hmark => hsize (hfits hmark)
    rw [getCapacity_inline hmark, if_pos (Nat.le_refl _)]
    exact .nothing (.pure _) rfl

theorem shrinkToFit_logs (hsize : getSize mem.arr ≠ getCapacity mem.arr)
    (hlarge : maxInBufferSize < getCapacity mem.arr) :
    Logs shrinkToFit mem (Entry mem (getPtr mem.arr) (getCapacity mem.arr)) := by
  refine .get ?_
  dsimp only
  rw [if_neg hsize, if_neg (by omega)]
  split
  · refine .later (editArr_released _) fun _ marked hmark => ?_
    refine .later (copyChars_released ..) fun _ copied hcopy => ?_
    refine ((deallocate_logs ..).first fun _ => write_released ..).mono fun entries hentry => ?_
    have hmarked : Retains mem marked := .of_lengths (by cases hmark; rfl)
    exact hentry.retained (hmarked.step (copyChars_keeps (write_lengths _) ..) hcopy)
  · refine .later (allocate_released _) fun nptr middle hallocate => ?_
    refine .later (copyChars_released ..) fun _ copied hcopy => ?_
    refine .later (write_released ..) fun _ ended hwrite => ?_
    refine ((deallocate_logs ..).first fun _ => .bind (editArr_released _) fun _ =>
      editArr_released _).mono fun entries hentry => ?_
    have hcopied := (allocate_retains hallocate).step (copyChars_keeps (write_lengths _) ..) hcopy
    exact hentry.retained (hcopied.step (write_lengths ..) hwrite)

/-! ### Runs -/

def State.Matched (state : State) : Prop := ∀ entry ∈ state.released, entry.1 = entry.2

instance (state : State) : Decidable state.Matched := by
  unfold State.Matched
  infer_instance

def Call.Abandons (arg : List UInt8) (arr : Memory) (call : Call) : Prop :=
  if call = .shrinkToFit then getSize arr ≠ getCapacity arr
  else getCapacity arr < call.demand arg (blank arr)

instance (arg : List UInt8) (arr : Memory) (call : Call) : Decidable (call.Abandons arg arr) := by
  unfold Call.Abandons
  infer_instance

/-- The step is one that has to release a block: the string is on the heap, and is
destroyed, moved to, shrunk, or too small for what it is to hold. -/
def Releases (state : State) : Label → Prop
  | .call id call source _ =>
      ∃ arr ∈ state.strings id, arr 0 = nullchar ∧ ∃ arg ∈ state.read source,
        call.Abandons arg arr
  | .assignMove id _ | .destroy id => ∃ arr ∈ state.strings id, arr 0 = nullchar
  | .construct .. | .constructCopy .. | .constructMove .. | .swap .. => False

instance (state : State) : (label : Label) → Decidable (Releases state label)
  | .call id call source _ => inferInstanceAs (Decidable (∃ arr ∈ state.strings id,
      arr 0 = nullchar ∧ ∃ arg ∈ state.read source, call.Abandons arg arr))
  | .assignMove id _ | .destroy id =>
      inferInstanceAs (Decidable (∃ arr ∈ state.strings id, arr 0 = nullchar))
  | .construct .. | .constructCopy .. | .constructMove .. | .swap .. =>
      inferInstanceAs (Decidable False)

section Steps

variable {maxSize id : Nat} {state after : State}

theorem State.constructed_released {lists : Nat → Option (List UInt8)}
    {run : Option (Except Exn Unit × Mem)} (hnext : state.constructed id lists run = some after) :
    ∃ outcome mem, run = some (outcome, mem) ∧ after.released = mem.released := by
  unfold State.constructed at hnext
  split at hnext
  · cases hnext
  all_goals
    cases hnext
    exact ⟨_, _, rfl, rfl⟩

theorem State.changed_released {lists : Nat → Option (List UInt8)}
    {run : Option (Except Exn Unit × Mem)} (hnext : state.changed id lists run = some after) :
    ∃ outcome mem, run = some (outcome, mem) ∧ after.released = mem.released := by
  unfold State.changed at hnext
  split at hnext
  · cases hnext
  · cases hnext
    exact ⟨_, _, rfl, rfl⟩

theorem call_runs {call : Call} {source : Source} {supply : Option (Nat × Memory)}
    (hnext : next maxSize state (.call id call source supply) = some after) :
    ∃ arr ∈ state.strings id, ∃ arg ∈ state.read source, ∃ outcome mem,
      call.run maxSize arg (state.mem arr supply) = some (outcome, mem) ∧
        after.released = mem.released := by
  obtain ⟨arr, hstring, hrest⟩ := Option.bind_eq_some_iff.mp hnext
  obtain ⟨arg, hread, hchanged⟩ := Option.bind_eq_some_iff.mp hrest
  obtain ⟨outcome, mem, hrun, hreleased⟩ := State.changed_released hchanged
  exact ⟨arr, hstring, arg, hread, outcome, mem, hrun, hreleased⟩

theorem assignMove_runs {other : Nat}
    (hnext : next maxSize state (.assignMove id other) = some after) :
    ∃ arr ∈ state.strings id, ∃ outcome mem,
      moveRelease (state.mem arr none) = some (outcome, mem) ∧ after.released = mem.released := by
  obtain ⟨arr, hstring, hrest⟩ := Option.bind_eq_some_iff.mp hnext
  obtain ⟨moved, _, hmoved⟩ := Option.bind_eq_some_iff.mp hrest
  obtain ⟨⟨outcome, mem⟩, hrun, hafter⟩ := Option.bind_eq_some_iff.mp hmoved
  cases hafter
  exact ⟨arr, hstring, outcome, mem, hrun, rfl⟩

theorem destroy_runs (hnext : next maxSize state (.destroy id) = some after) :
    ∃ arr ∈ state.strings id, ∃ outcome mem,
      destruct (state.mem arr none) = some (outcome, mem) ∧ after.released = mem.released := by
  obtain ⟨arr, hstring, hrest⟩ := Option.bind_eq_some_iff.mp hnext
  obtain ⟨⟨outcome, mem⟩, hrun, hafter⟩ := Option.bind_eq_some_iff.mp hrest
  cases hafter
  exact ⟨arr, hstring, outcome, mem, hrun, rfl⟩

theorem Logs.spared {Value : Type} {command : Op Value} {left : Mem} {outcome : Except Exn Value}
    {log : List (Nat × Nat) → Prop} (hcommand : Logs command mem log)
    (hlog : ∀ entries, log entries → entries = []) (hrun : command mem = some (outcome, left)) :
    left.released = mem.released := by
  rcases hcommand.leaves hrun with ⟨entries, hentries, hreleased⟩ | ⟨_, hreleased⟩
  · rw [hreleased, hlog entries hentries, List.append_nil]
  · exact hreleased

theorem Logs.charged {Value : Type} {command : Op Value} {left : Mem} {value : Value}
    {log : List (Nat × Nat) → Prop} (hcommand : Logs command mem log)
    (hrun : command mem = some (.ok value, left)) :
    ∃ entries, log entries ∧ left.released = mem.released ++ entries := by
  rcases hcommand.leaves hrun with hentries | ⟨⟨_, hfault⟩, _⟩
  · exact hentries
  · cases hfault

theorem step_spares {label : Label} (hnext : next maxSize state label = some after)
    (hspared : ¬ Releases state label) : after.released = state.released := by
  cases label with
  | construct id ctor source raw supply =>
      obtain ⟨arg, _, hconstructed⟩ := Option.bind_eq_some_iff.mp hnext
      obtain ⟨_, mem, hrun, hreleased⟩ := State.constructed_released hconstructed
      exact hreleased.trans ((ctor.released arg).same hrun)
  | constructCopy id other raw supply =>
      obtain ⟨arr, _, hrest⟩ := Option.bind_eq_some_iff.mp hnext
      obtain ⟨arg, _, hconstructed⟩ := Option.bind_eq_some_iff.mp hrest
      obtain ⟨_, mem, hrun, hreleased⟩ := State.constructed_released hconstructed
      exact hreleased.trans ((constructCopy_released arr arg).same hrun)
  | constructMove id other =>
      obtain ⟨arr, _, hafter⟩ := Option.bind_eq_some_iff.mp hnext
      cases hafter
      rfl
  | swap id other =>
      obtain ⟨arr, _, hrest⟩ := Option.bind_eq_some_iff.mp hnext
      obtain ⟨swapped, _, hafter⟩ := Option.bind_eq_some_iff.mp hrest
      cases hafter
      rfl
  | call id call source supply =>
      obtain ⟨arr, hstring, arg, hread, _, mem, hrun, hreleased⟩ := call_runs hnext
      have hstays : arr 0 = nullchar → ¬ call.Abandons arg arr := fun hmark habandons =>
        hspared ⟨arr, hstring, hmark, arg, hread, habandons⟩
      unfold Call.Abandons at hstays
      rw [hreleased]
      by_cases hshrink : call = .shrinkToFit
      · simp only [if_pos hshrink, not_not] at hstays
        subst hshrink
        exact (shrinkToFit_spares hstays).spared (fun _ hlog => hlog) hrun
      · simp only [if_neg hshrink, not_lt] at hstays
        exact (Call.logs maxSize arg hshrink).spared (fun _ hlog => hlog.spared hstays) hrun
  | assignMove id other =>
      obtain ⟨arr, hstring, _, mem, hrun, hreleased⟩ := assignMove_runs hnext
      have hmark : arr 0 ≠ nullchar := fun hmark => hspared ⟨arr, hstring, hmark⟩
      cases (moveRelease_inline hmark).symm.trans hrun
      exact hreleased
  | destroy id =>
      obtain ⟨arr, hstring, _, mem, hrun, hreleased⟩ := destroy_runs hnext
      have hmark : arr 0 ≠ nullchar := fun hmark => hspared ⟨arr, hstring, hmark⟩
      cases (destruct_inline hmark).symm.trans hrun
      exact hreleased

/-! ### A release never matches -/

theorem Entry.mismatch {mem : Mem} {list : List UInt8} {count : Nat} {entries : List (Nat × Nat)}
    (hentry : Entry mem (getPtr mem.arr) count entries) (hholds : Holds mem.arr mem.heap list)
    (hmark : mem.arr 0 = nullchar) (hcount : count ≤ getCapacity mem.arr) :
    ∃ length, count < length ∧ entries = [(length, count)] := by
  obtain ⟨address, block, hptr, hblock, _, _, hlength⟩ := hholds.mark_iff.mp hmark
  obtain ⟨length, hentries, hsame⟩ := hentry
  refine ⟨length, ?_, hentries⟩
  rw [hsame address block hptr hblock]
  omega

theorem Call.demand_congr (call : Call) (arg : List UInt8) {list other : List UInt8}
    (hlength : list.length = other.length) : call.demand arg list = call.demand arg other := by
  have hinsert : ∀ index text, outcomeSize (insertInto list index text) =
      outcomeSize (insertInto other index text) := by
    intro index text
    unfold insertInto
    rw [hlength]
    split
    · rfl
    · simp [outcomeSize, splice, hlength]
  cases call with
  | insertFill | insertChars | insertCString | insertString | insertCharAt | insertFillAt =>
      exact hinsert ..
  | insertSubstring =>
      simp only [Call.demand, Call.onList]
      split
      · rfl
      · exact hinsert ..
  | _ => simp [Call.demand, Call.onList, outcomeSize, splice, hlength]

theorem Call.demand_of_error {call : Call} {arg list : List UInt8} {fault : Exn}
    (herror : call.onList arg list = .error fault) : call.demand arg list = 0 := by
  unfold Call.demand
  split
  · cases herror
  all_goals try rfl
  rw [herror]
  rfl

theorem Logs.mismatch {command : Op Unit} {mem left : Mem} {list : List UInt8} {count : Nat}
    {outcome : Except Exn Unit} {post : Unit → Mem → Prop}
    (hlogs : Logs command mem (Entry mem (getPtr mem.arr) count))
    (hreturns : Command.Returns command mem post) (hholds : Holds mem.arr mem.heap list)
    (hmark : mem.arr 0 = nullchar) (hcount : count ≤ getCapacity mem.arr)
    (hrun : command mem = some (outcome, left)) :
    ∃ length count, count < length ∧ left.released = mem.released ++ [(length, count)] := by
  obtain ⟨_, _, hreturned, _⟩ := hreturns
  cases hreturned.symm.trans hrun
  obtain ⟨entries, hentry, hadded⟩ := hlogs.charged hrun
  obtain ⟨length, hlength, rfl⟩ := hentry.mismatch hholds hmark hcount
  exact ⟨length, count, hlength, hadded⟩

theorem Call.mismatch {mem left : Mem} {list arg : List UInt8} {call : Call}
    {outcome : Except Exn Unit} (hholds : Holds mem.arr mem.heap list)
    (hsupplied : Supplied mem.supply mem.heap) (hallowed : call.Allowed maxSize arg list)
    (hdefined : call ≠ .assignString) (hmark : mem.arr 0 = nullchar)
    (habandons : call.Abandons arg mem.arr)
    (hrun : call.run maxSize arg mem = some (outcome, left)) :
    ∃ length count, count < length ∧ left.released = mem.released ++ [(length, count)] := by
  have hdoes := Call.does hholds hsupplied hallowed hdefined
  unfold Call.Abandons at habandons
  by_cases hshrink : call = .shrinkToFit
  · subst hshrink
    rw [if_pos rfl] at habandons
    obtain ⟨_, _, _, _, hlarge, _⟩ := hholds.mark_iff.mp hmark
    exact (shrinkToFit_logs habandons hlarge).mismatch hdoes hholds hmark (Nat.le_refl _) hrun
  · rw [if_neg hshrink] at habandons
    have hdemand : call.demand arg (blank mem.arr) = call.demand arg list :=
      call.demand_congr arg ((length_blank _).trans hholds.size)
    cases houtcome : call.onList arg list with
    | error fault =>
        rw [hdemand, Call.demand_of_error houtcome] at habandons
        omega
    | ok text =>
        rw [houtcome] at hdoes
        have hword := hallowed.2.2
        have hlogs := (Call.logs maxSize arg hshrink).mono fun entries houtgrown =>
          houtgrown.charged hmark (hholds.size.trans_le hholds.fits) habandons (by omega)
        exact hlogs.mismatch hdoes hholds hmark (Nat.le_refl _) hrun

theorem string_holds {arr : Memory} (hsound : state.Sound) (hlists : (state.lists id).isSome = true)
    (hstring : arr ∈ state.strings id) :
    ∃ list, Holds arr state.heap list := by
  obtain ⟨list, hlist⟩ := Option.isSome_iff_exists.mp hlists
  obtain ⟨found, hfound, hholds⟩ := hsound.exists_holds hlist
  cases Option.some.inj (Eq.symm hstring |>.trans hfound)
  exact ⟨list, hholds⟩

theorem step_mismatch {label : Label} (hsound : state.Sound)
    (hregular : Regular maxSize state label) (hnext : next maxSize state label = some after)
    (hreleases : Releases state label) :
    ∃ length count, count < length ∧ after.released = state.released ++ [(length, count)] := by
  obtain ⟨hpermitted, hdefined⟩ := hregular
  cases label with
  | construct | constructCopy | constructMove | swap => exact hreleases.elim
  | call id call source supply =>
      obtain ⟨arr, hstring, arg, hread, outcome, left, hrun, hreleased⟩ := call_runs hnext
      obtain ⟨_, hsupplied, arg', harg, list, hlist, hallowed⟩ := hpermitted
      obtain ⟨arr', hstring', hholds⟩ := hsound.exists_holds hlist
      cases Option.some.inj (hstring.symm.trans hstring')
      cases Option.some.inj (hread.symm.trans (Sound.read hsound harg))
      obtain ⟨_, hfound, hmark, _, hfound', habandons⟩ := hreleases
      cases Option.some.inj (hstring.symm.trans hfound)
      cases Option.some.inj (hread.symm.trans hfound')
      rw [hreleased]
      exact @Call.mismatch maxSize (state.mem arr supply) left list arg call outcome hholds
        hsupplied hallowed hdefined hmark habandons hrun
  | assignMove id other =>
      obtain ⟨arr, hstring, outcome, left, hrun, hreleased⟩ := assignMove_runs hnext
      obtain ⟨list, hholds⟩ := string_holds hsound hpermitted.2.1 hstring
      obtain ⟨_, hfound, hmark⟩ := hreleases
      cases Option.some.inj (hstring.symm.trans hfound)
      have hreturns := @moveRelease_returns (state.mem arr none) list hholds
      rw [hreleased]
      exact (moveRelease_logs hmark).mismatch hreturns hholds hmark
        (hholds.size.trans_le hholds.fits) hrun
  | destroy id =>
      obtain ⟨arr, hstring, outcome, left, hrun, hreleased⟩ := destroy_runs hnext
      obtain ⟨list, hholds⟩ := string_holds hsound hpermitted hstring
      obtain ⟨_, hfound, hmark⟩ := hreleases
      cases Option.some.inj (hstring.symm.trans hfound)
      have hreturns := @destruct_returns (state.mem arr none) list hholds
      rw [hreleased]
      exact (destruct_logs hmark).mismatch hreturns hholds hmark (Nat.le_refl _) hrun

end Steps

theorem Matched.append_mismatch {state after : State} {length count : Nat} (hlt : count < length)
    (hreleased : after.released = state.released ++ [(length, count)]) : ¬ after.Matched := by
  intro hmatched
  have hentry := hmatched (length, count) (by rw [hreleased]; simp)
  omega

/-- The counts match in every run that never has to release a block, whatever the
arguments are and whether or not the allocator has blocks. Within the
preconditions of the members no release matches. -/
theorem release_counts_match (maxSize : Nat) (state : State) :
    ((machine maxSize).ReachableUnder (fun before label => ¬ Releases before label) state →
      state.Matched) ∧
    ((machine maxSize).ReachableUnder (Regular maxSize) state → ∀ label after,
      Regular maxSize state label → next maxSize state label = some after →
        (after.Matched ↔ state.Matched ∧ ¬ Releases state label)) := by
  constructor
  · intro hreach
    apply hreach.invariant State.Matched
    · rintro _ rfl entry hentry
      cases hentry
    · intro before label after hmatched hspared hnext
      unfold State.Matched
      rwa [step_spares hnext hspared]
  · intro hreach label after hregular hnext
    by_cases hreleases : Releases state label
    · obtain ⟨length, count, hlt, hreleased⟩ :=
        step_mismatch (sound_of_reachable hreach) hregular hnext hreleases
      exact iff_of_false (Matched.append_mismatch hlt hreleased) fun hboth => hboth.2 hreleases
    · unfold State.Matched
      rw [step_spares hnext hreleases]
      exact (and_iff_left hreleases).symm

def longString : List Label :=
  [.construct 0 (.fill 40 97) (.chars []) zeroArr (some (4096, zeroArr)),
    .call 0 .popBack (.chars []) (some (8192, zeroArr))]

/-- The counts match up to the destruction of a long string, and no longer. -/
theorem release_counts_match_long :
    ∃ state, (machine 1000).ReachableUnder (Regular 1000) state ∧ state.Matched ∧
      ∀ after, next 1000 state (.destroy 0) = some after → ¬ after.Matched := by
  obtain ⟨state, hreach, htest⟩ := (machine 1000).exists_reachableUnder_of_replay
    (fun state label => Regular 1000 state label ∧ ¬ Releases state label) start longString
    (fun state => decide (Regular 1000 state (.destroy 0)) && decide (Releases state (.destroy 0)))
    rfl (by decide +kernel)
  rw [Bool.and_eq_true] at htest
  have hregular := hreach.mono fun _ _ hboth => hboth.1
  have hspared := hreach.mono fun _ _ hboth => hboth.2
  refine ⟨state, hregular, (release_counts_match 1000 state).1 hspared, fun after hnext => ?_⟩
  rw [(release_counts_match 1000 state).2 hregular _ after (of_decide_eq_true htest.1) hnext]
  exact fun hboth => hboth.2 (of_decide_eq_true htest.2)

/-- The block of 41 characters is released as one of 40. -/
theorem destructor_passes_capacity :
    ∃ state, (machine 1000).ReachableUnder (Regular 1000) state ∧ state.released = [(41, 40)] ∧
      ¬ state.Matched := by
  obtain ⟨state, hreach, htest⟩ := (machine 1000).exists_reachableUnder_of_replay (Regular 1000)
    start (longString ++ [.destroy 0]) (fun state => decide (state.released = [(41, 40)]))
    rfl (by decide +kernel)
  have hreleased := of_decide_eq_true htest
  refine ⟨state, hreach, hreleased, ?_⟩
  unfold State.Matched
  rw [hreleased]
  decide

end Crossbow.BasicString
