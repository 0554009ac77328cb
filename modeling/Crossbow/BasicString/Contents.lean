import Crossbow.BasicString.Growth

/-! What each member does to the text of a string. A member is run on a string
that holds some text; it ends with a string that holds the text that the same
operation on lists gives. -/
namespace Crossbow.BasicString
open Kernel

/-! ### Texts in memory -/

section Text

variable {memory : Memory} {list : List UInt8} (hcontent : load memory 0 list.length = list)
  {count : Nat} (hcount : count ≤ list.length)
include hcontent hcount

theorem load_split :
    load memory 0 count = list.take count ∧
      load memory count (list.length - count) = list.drop count := by
  have hsplit := load_append memory 0 count (list.length - count)
  rw [show count + (list.length - count) = list.length by omega, Nat.zero_add, hcontent] at hsplit
  have hparts : list.take count ++ list.drop count =
      load memory 0 count ++ load memory count (list.length - count) := by
    rw [List.take_append_drop]
    exact hsplit
  obtain ⟨htake, hdrop⟩ := List.append_inj hparts (by simp; omega)
  exact ⟨htake.symm, hdrop.symm⟩

theorem load_take : load memory 0 count = list.take count := (load_split hcontent hcount).1

theorem load_drop : load memory count (list.length - count) = list.drop count :=
  (load_split hcontent hcount).2

end Text

variable {mem : Mem} {list text : List UInt8} {index first last : Nat} {heap : Heap}

theorem Holds.edited (hholds : Holds mem.arr mem.heap list) :
    Edited mem mem (getCapacity mem.arr) list.length (chars mem.arr mem.heap) := by
  have hedited := Edited.refl hholds.shaped
  rwa [hholds.size] at hedited

theorem Roomy.becomes {after : Mem} {needed room : Nat} (hroomy : Roomy mem after needed room)
    (hholds : Holds mem.arr mem.heap list) :
    Becomes (some mem.arr) mem.heap list after ∧ needed ≤ getCapacity after.arr := by
  have hsize := hholds.size
  have hcapacity := hroomy.shaped.capacity
  have hfits := hroomy.fits
  have htext := hroomy.text
  rw [hsize, load_append, load_append, Nat.zero_add, load_one, load_one, hholds.content,
    hholds.terminated] at htext
  obtain ⟨hcontent, hterminated⟩ := List.append_inj htext (by simp)
  refine ⟨⟨⟨?_, hroomy.size.trans hsize, ?_, hcontent, List.singleton_inj.mp hterminated⟩,
    hroomy.transfer⟩, ?_⟩
  · rw [hcapacity]; exact hroomy.shaped
  · rw [hcapacity, ← hsize]; exact hfits
  · rw [hcapacity]; exact hroomy.needed

theorem Holds.reserve (hholds : Holds mem.arr mem.heap list)
    (hsupplied : Supplied mem.supply mem.heap) {maxSize newCap : Nat}
    (hreservable : Reservable maxSize newCap) :
    Command.Returns (reserve maxSize newCap) mem fun _ after =>
      Becomes (some mem.arr) mem.heap list after ∧ newCap ≤ getCapacity after.arr := by
  refine (reserve_returns hholds.shaped hsupplied (hholds.size ▸ hholds.fits) hreservable).mono ?_
  rintro _ after ⟨room, hroomy⟩
  exact hroomy.becomes hholds

theorem Holds.unique {arr : Memory} {left right : List UInt8} (hleft : Holds arr heap left)
    (hright : Holds arr heap right) : left = right := by
  have hlength : left.length = right.length := hleft.size.symm.trans hright.size
  rw [← hleft.content, ← hright.content, hlength]

/-! ### Constructors -/

theorem initWith_returns {text : List UInt8} (hsupplied : Supplied mem.supply mem.heap)
    (hdouble : 2 * text.length < wordRange) :
    Command.Returns (initWith text) mem fun _ after => Becomes none mem.heap text after := by
  unfold initWith
  apply (init_returns hsupplied hdouble).seq
  rintro _ raw ⟨room, hbegun⟩
  have hneeded := hbegun.needed
  have hedited := Edited.refl hbegun.shaped
  rw [hbegun.size] at hedited
  apply Command.Returns.ofGet
  refine (hedited.putChars (by omega)).seq fun _ filled hfilled => ?_
  refine (hfilled.write hneeded 0).mono fun _ after hafter => ?_
  refine .ofEdited hbegun.transfer hafter hneeded ?_ (store_self ..)
  rw [load_terminated, load_store]

theorem initWithout_returns (hsupplied : Supplied mem.supply mem.heap)
    (hdouble : 2 * text.length < wordRange) :
    Command.Returns (initWithout text) mem fun _ after => Becomes none mem.heap text after := by
  unfold initWithout
  apply (init_returns hsupplied hdouble).seq
  rintro _ raw ⟨room, hbegun⟩
  have hneeded := hbegun.needed
  have hedited := Edited.refl hbegun.shaped
  rw [hbegun.size] at hedited
  apply Command.Returns.ofGet
  refine (hedited.putChars (by omega)).mono fun _ after hafter => ?_
  refine .ofEdited hbegun.transfer hafter hneeded (load_store ..) ?_
  -- the terminator is the one that `init` has written
  rw [store_of_ge _ (by omega)]
  exact hbegun.terminated

theorem constructDefault_returns :
    Command.Returns constructDefault mem fun _ after => Becomes none mem.heap [] after := by
  refine editArr_returns ⟨holds_zeroArr mem.heap, .keep fun address => ?_⟩
  have hmark : zeroArr 0 ≠ nullchar := by decide
  exact iff_of_false (not_owns_inline hmark address) (owns_none address)

theorem constructCopy_returns {otherArr : Memory} {text : List UInt8}
    (hsupplied : Supplied mem.supply mem.heap) (hother : Holds otherArr mem.heap text)
    (hdouble : 2 * text.length < wordRange) :
    Command.Returns (constructCopy otherArr text) mem
      fun _ after => Becomes none mem.heap text after := by
  unfold constructCopy
  by_cases hmark : otherArr 0 ≠ nullchar
  · rw [if_pos hmark]
    refine editArr_returns ⟨hother, .keep fun address => ?_⟩
    exact iff_of_false (not_owns_inline hmark address) (owns_none address)
  · rw [if_neg hmark]
    exact initWith_returns hsupplied hdouble

/-! ### Assignment -/

theorem assignText_returns (hholds : Holds mem.arr mem.heap list)
    (hsupplied : Supplied mem.supply mem.heap) {maxSize : Nat}
    (hreservable : Reservable maxSize text.length) :
    Command.Returns (assignText maxSize text) mem
      fun _ after => Becomes (some mem.arr) mem.heap text after := by
  unfold assignText
  apply (hholds.reserve hsupplied hreservable).seq
  rintro _ roomy ⟨⟨hroomy, htransfer⟩, hroom⟩
  apply Command.Returns.ofGet
  refine (hroomy.edited.putChars (by omega)).seq fun _ filled hfilled => ?_
  refine (hfilled.setSize hroom).seq fun _ sized hsized => ?_
  refine (hsized.terminate hroom).mono fun _ after hafter => ?_
  refine .ofEdited htransfer hafter hroom ?_ (store_self ..)
  rw [load_terminated, load_store]

theorem operatorAssignChar_returns (hholds : Holds mem.arr mem.heap list)
    (hsupplied : Supplied mem.supply mem.heap) {maxSize : Nat} (ch : UInt8)
    (hreservable : Reservable maxSize 1) :
    Command.Returns (operatorAssignChar maxSize ch) mem
      fun _ after => Becomes (some mem.arr) mem.heap [ch] after := by
  unfold operatorAssignChar
  apply (hholds.reserve hsupplied hreservable).seq
  rintro _ roomy ⟨⟨hroomy, htransfer⟩, hroom⟩
  refine (hroomy.edited.setSize hroom).seq fun _ sized hsized => ?_
  apply Command.Returns.ofGet
  rw [hsized.ptr]
  refine (hsized.write (by omega) ch).seq fun _ filled hfilled => ?_
  refine (hfilled.terminate hroom).mono fun _ after hafter => ?_
  refine .ofEdited htransfer hafter hroom ?_ (store_self ..)
  rw [load_terminated]
  exact load_store _ 0 [ch]

theorem clear_returns (hholds : Holds mem.arr mem.heap list) :
    Command.Returns clear mem fun _ after => Becomes (some mem.arr) mem.heap [] after := by
  unfold clear
  apply Command.Returns.ofGet
  refine (hholds.edited.write (by omega) 0).seq fun _ filled hfilled => ?_
  refine (hfilled.setSize (Nat.zero_le _)).mono fun _ after hafter => ?_
  exact .ofEdited hholds.becomes.2 hafter (Nat.zero_le _) (by simp [load]) (store_self ..)

/-! ### Insertion and removal -/

theorem insertRoomy_returns {before : Option Memory} (hbecomes : Becomes before heap list mem)
    (hindex : index ≤ list.length) (hroom : list.length + text.length ≤ getCapacity mem.arr) :
    Command.Returns (do
        let mem ← Command.get
        let ptr := getPtr mem.arr
        write ptr (list.length + text.length) 0
        moveTail ptr list.length (list.length + text.length) 0 (list.length - index)
        putChars ptr index text
        editArr (setSize · (list.length + text.length)) : Op Unit) mem fun _ after =>
      Becomes before heap (list.take index ++ text ++ list.drop index) after := by
  obtain ⟨hholds, htransfer⟩ := hbecomes
  apply Command.Returns.ofGet
  refine (hholds.edited.write hroom 0).seq fun _ ended hended => ?_
  refine (hended.moveTail (by omega) (by omega) hroom).seq fun _ moved hmoved => ?_
  refine (hmoved.putChars (by omega)).seq fun _ filled hfilled => ?_
  -- the tail was read from behind `index`, and stands now behind the new text
  have htail : load (store (chars mem.arr mem.heap) (list.length + text.length) [0])
      index (list.length - index) = list.drop index := by
    rw [load_store_disjoint _ (Or.inl (by omega))]
    exact load_drop hholds.content hindex
  rw [show list.length - 0 - (list.length - index) = index by omega,
    show list.length + text.length - 0 - (list.length - index) = index + text.length by omega,
    htail, store_append_above] at hfilled
  have hnew : list.length + text.length = index + (text ++ list.drop index).length := by
    simp
    omega
  refine (hfilled.setSize hroom).mono fun _ after hafter => .ofEdited htransfer hafter hroom ?_ ?_
  · rw [hnew, load_store_end, load_store_disjoint _ (Or.inl (by omega)),
      load_take hholds.content hindex, List.append_assoc]
  · rw [store_of_ge _ (by omega), store_self]

theorem insertText_returns (hholds : Holds mem.arr mem.heap list)
    (hsupplied : Supplied mem.supply mem.heap) {maxSize : Nat} (hindex : index ≤ list.length)
    (hreservable : Reservable maxSize (list.length + text.length)) :
    Command.Returns (insertText maxSize index text) mem fun _ after =>
      Becomes (some mem.arr) mem.heap (list.take index ++ text ++ list.drop index) after := by
  have hword : list.length + text.length < wordRange := by
    have hplace := hreservable.2
    omega
  unfold insertText
  apply Command.Returns.ofGet
  simp only [hholds.size, wrap_of_lt hword]
  apply (hholds.reserve hsupplied hreservable).seq
  rintro _ roomy ⟨hroomy, hroom⟩
  exact insertRoomy_returns hroomy hindex hroom

theorem insertText_inPlace (hholds : Holds mem.arr mem.heap list) {maxSize : Nat}
    (hindex : index ≤ list.length) (hroom : list.length + text.length ≤ getCapacity mem.arr) :
    Command.Returns (insertText maxSize index text) mem fun _ after =>
      Becomes (some mem.arr) mem.heap (list.take index ++ text ++ list.drop index) after := by
  have hword := hholds.shaped.room_lt
  unfold insertText
  apply Command.Returns.ofGet
  simp only [hholds.size, wrap_of_lt (show list.length + text.length < wordRange by omega)]
  apply Command.Returns.bind
  exact ⟨(), mem, reserve_enough hholds.shaped hroom,
    insertRoomy_returns hholds.becomes hindex hroom⟩

theorem erase_returns (hholds : Holds mem.arr mem.heap list) (horder : first ≤ last)
    (hlast : last ≤ list.length) :
    Command.Returns (erase first last) mem fun _ after =>
      Becomes (some mem.arr) mem.heap (list.take first ++ list.drop last) after := by
  have hfits := hholds.fits
  unfold erase
  apply Command.Returns.ofGet
  simp only [hholds.size]
  rw [if_pos ⟨horder, hlast⟩]
  refine (hholds.edited.copyDown horder (by omega)).seq fun _ moved hmoved => ?_
  rw [load_drop hholds.content hlast] at hmoved
  have hroom : list.length - (last - first) ≤ getCapacity mem.arr := by omega
  have hnew : list.length - (last - first) = first + (list.drop last).length := by
    simp
    omega
  refine (hmoved.setSize hroom).seq fun _ sized hsized => ?_
  refine (hsized.terminate hroom).mono fun _ after hafter => ?_
  refine .ofEdited hholds.becomes.2 hafter hroom ?_ (store_self ..)
  rw [load_terminated, hnew, load_store_end, load_take hholds.content (by omega)]

theorem popBack_returns (hholds : Holds mem.arr mem.heap list) (hne : list ≠ []) :
    Command.Returns popBack mem
      fun _ after => Becomes (some mem.arr) mem.heap list.dropLast after := by
  have hpos : 1 ≤ list.length := List.length_pos_iff.mpr hne
  have hfits := hholds.fits
  have hword := hholds.shaped.room_lt
  have hroom : list.length - 1 ≤ getCapacity mem.arr := by omega
  unfold popBack
  apply Command.Returns.ofGet
  rw [hholds.size, wrapSub_of_le hpos (by omega)]
  refine (hholds.edited.setSize hroom).seq fun _ sized hsized => ?_
  refine (hsized.terminate hroom).mono fun _ after hafter => ?_
  refine .ofEdited hholds.becomes.2 hafter hroom ?_ (store_self ..)
  rw [load_terminated, load_take hholds.content (by omega), ← List.dropLast_eq_take]

theorem putBack_returns {before : Option Memory} (hbecomes : Becomes before heap list mem)
    (hroom : list.length + 1 ≤ getCapacity mem.arr) (c : UInt8) :
    Command.Returns (do
        let mem ← Command.get
        write (getPtr mem.arr) list.length c
        editArr (setSize · (list.length + 1))
        terminate : Op Unit) mem fun _ after => Becomes before heap (list ++ [c]) after := by
  obtain ⟨hholds, htransfer⟩ := hbecomes
  apply Command.Returns.ofGet
  refine (hholds.edited.write (by omega) c).seq fun _ filled hfilled => ?_
  refine (hfilled.setSize hroom).seq fun _ sized hsized => ?_
  refine (hsized.terminate hroom).mono fun _ after hafter => ?_
  refine .ofEdited htransfer hafter hroom ?_ (store_self ..)
  have hspliced := load_store_end (chars mem.arr mem.heap) list.length [c]
  rw [hholds.content] at hspliced
  rw [load_terminated]
  exact hspliced

theorem pushBack_returns (hholds : Holds mem.arr mem.heap list)
    (hsupplied : Supplied mem.supply mem.heap) {maxSize : Nat} (c : UInt8)
    (hreservable : Reservable maxSize (list.length + 1)) :
    Command.Returns (pushBack maxSize c) mem fun _ after =>
      Becomes (some mem.arr) mem.heap (list ++ [c]) after := by
  have hword : list.length + 1 < wordRange := by
    have hplace := hreservable.2
    omega
  have hfits := hholds.fits
  unfold pushBack
  apply Command.Returns.ofGet
  simp only [hholds.size, wrap_of_lt hword]
  by_cases hfull : list.length = getCapacity mem.arr
  · rw [if_pos hfull]
    apply (hholds.reserve hsupplied hreservable).seq
    rintro _ roomy ⟨hroomy, hroom⟩
    exact putBack_returns hroomy hroom c
  · rw [if_neg hfull]
    exact putBack_returns hholds.becomes (by omega) c

theorem resizeRoomy_returns {before : Option Memory} {count : Nat} (ch : UInt8)
    (hbecomes : Becomes before heap list mem) (hroom : count ≤ getCapacity mem.arr) :
    Command.Returns (do
        let mem ← Command.get
        let ptr := getPtr mem.arr
        write ptr count 0
        editArr (setSize · count)
        if list.length ≥ count then pure ()
        else putChars ptr list.length (List.replicate (count - list.length) ch) : Op Unit) mem
      fun _ after =>
        Becomes before heap (list.take count ++ List.replicate (count - list.length) ch) after ∧
          getPtr after.arr = getPtr mem.arr := by
  obtain ⟨hholds, htransfer⟩ := hbecomes
  apply Command.Returns.ofGet
  refine (hholds.edited.write hroom 0).seq fun _ ended hended => ?_
  refine (hended.setSize hroom).seq fun _ sized hsized => ?_
  by_cases hshrink : list.length ≥ count
  · rw [if_pos hshrink]
    refine .pure ⟨.ofEdited htransfer hsized hroom ?_ (store_self ..), hsized.ptr⟩
    rw [load_terminated, load_take hholds.content hshrink,
      show count - list.length = 0 by omega, List.replicate_zero, List.append_nil]
  · rw [if_neg hshrink]
    have hend : list.length + (List.replicate (count - list.length) ch).length = count := by
      simp
      omega
    refine (hsized.putChars (by omega)).mono fun _ after hafter => ?_
    refine ⟨.ofEdited htransfer hafter hroom ?_ ?_, hafter.ptr⟩
    · have hspliced := load_store_end (store (chars mem.arr mem.heap) count [0]) list.length
        (List.replicate (count - list.length) ch)
      have hkeep : load (store (chars mem.arr mem.heap) count [0]) 0 list.length = list := by
        rw [load_store_disjoint _ (Or.inl (by omega)), hholds.content]
      rw [hend, hkeep] at hspliced
      rw [hspliced, List.take_of_length_le (by omega)]
    · rw [store_of_ge _ (by omega), store_self]

section Members

variable (hholds : Holds mem.arr mem.heap list)
include hholds

theorem resize_returns (hsupplied : Supplied mem.supply mem.heap) {maxSize count : Nat} (ch : UInt8)
    (hreservable : Reservable maxSize count) :
    Command.Returns (resize maxSize count ch) mem fun _ after =>
      Becomes (some mem.arr) mem.heap
        (list.take count ++ List.replicate (count - list.length) ch) after := by
  unfold resize
  apply Command.Returns.ofGet
  simp only [hholds.size]
  apply (hholds.reserve hsupplied hreservable).seq
  rintro _ roomy ⟨hroomy, hroom⟩
  exact (resizeRoomy_returns ch hroomy hroom).mono fun _ _ hafter => hafter.1

theorem resize_inPlace {maxSize count : Nat} (ch : UInt8) (hroom : count ≤ getCapacity mem.arr) :
    Command.Returns (resize maxSize count ch) mem fun _ after =>
      Becomes (some mem.arr) mem.heap
        (list.take count ++ List.replicate (count - list.length) ch) after ∧
        getPtr after.arr = getPtr mem.arr := by
  unfold resize
  apply Command.Returns.ofGet
  simp only [hholds.size]
  apply Command.Returns.bind
  exact ⟨(), mem, reserve_enough hholds.shaped hroom, resizeRoomy_returns ch hholds.becomes hroom⟩

/-! ### Replacement -/

theorem insertRange_returns (hsupplied : Supplied mem.supply mem.heap) {maxSize pos : Nat}
    (hpos : pos ≤ list.length) (hreservable : Reservable maxSize (list.length + text.length)) :
    Command.Returns (insertRange maxSize pos text) mem fun _ after =>
      Becomes (some mem.arr) mem.heap (list.take pos ++ text ++ list.drop pos) after := by
  unfold insertRange
  apply Command.Returns.ofGet
  rw [hholds.size, if_pos hpos]
  exact insertText_returns hholds hsupplied hpos hreservable

theorem insertChecked_returns (hsupplied : Supplied mem.supply mem.heap) {maxSize : Nat}
    (hindex : index ≤ list.length) (hreservable : Reservable maxSize (list.length + text.length)) :
    Command.Returns (insertChecked maxSize index text) mem fun _ after =>
      Becomes (some mem.arr) mem.heap (list.take index ++ text ++ list.drop index) after := by
  unfold insertChecked
  apply Command.Returns.ofGet
  rw [hholds.size, if_neg (by omega)]
  exact insertText_returns hholds hsupplied hindex hreservable

theorem insertChecked_throws {maxSize : Nat} (hindex : list.length < index) :
    Command.Throws (insertChecked maxSize index text) mem
      fun fault after => fault = .outOfRange ∧ after = mem := by
  unfold insertChecked
  apply Command.Throws.later
  apply Command.Returns.get
  rw [hholds.size, if_pos hindex]
  exact .throw ⟨rfl, rfl⟩

theorem Holds.overwritten
    (htext : first + text.length ≤ list.length) {after : Mem}
    (hedited : Edited mem after (getCapacity mem.arr) list.length
      (store (chars mem.arr mem.heap) first text)) :
    Becomes (some mem.arr) mem.heap
      (list.take first ++ text ++ list.drop (first + text.length)) after := by
  refine .ofEdited hholds.becomes.2 hedited hholds.fits ?_ ?_
  · rw [show list.length = first + text.length + (list.length - (first + text.length)) by omega,
      load_append, load_store_end, load_take hholds.content (by omega),
      load_store_disjoint _ (Or.inr (by omega)), Nat.zero_add, load_drop hholds.content htext]
  · rw [store_of_ge _ htext, hholds.terminated]

theorem Holds.overwrite (hsupplied : Supplied mem.supply mem.heap)
    (htext : first + text.length ≤ list.length) :
    Command.Returns (putChars (getPtr mem.arr) first text) mem fun _ after =>
      Becomes (some mem.arr) mem.heap
        (list.take first ++ text ++ list.drop (first + text.length)) after ∧
      Supplied after.supply after.heap := by
  have hfits := hholds.fits
  exact (hholds.edited.putChars (by omega)).mono fun _ after hafter =>
    ⟨hholds.overwritten htext hafter, hsupplied.edit hholds.shaped hafter⟩

end Members

theorem take_drop_middle (left middle right : List UInt8) :
    (left ++ middle ++ right).take (left.length + middle.length) = left ++ middle ∧
      (left ++ middle ++ right).drop (left.length + middle.length) = right := by
  rw [← List.length_append]
  exact ⟨List.take_left, List.drop_left⟩

section Replace

variable {first last : Nat} (horder : first ≤ last) (hlast : last ≤ list.length)
include horder hlast

theorem overwrite_erase_returns (hholds : Holds mem.arr mem.heap list)
    (hsupplied : Supplied mem.supply mem.heap) {text : List UInt8}
    (hshort : first + text.length ≤ last) :
    Command.Returns (do
        putChars (getPtr mem.arr) first text
        erase (first + text.length) last : Op Unit) mem fun _ after =>
      Becomes (some mem.arr) mem.heap (list.take first ++ text ++ list.drop last) after := by
  apply (hholds.overwrite hsupplied (by omega)).seq
  rintro _ middle ⟨⟨hmiddle, htransfer⟩, _⟩
  have hleft : (list.take first).length = first := by
    rw [List.length_take]
    omega
  refine (erase_returns hmiddle hshort ?_).mono ?_
  · simp
    omega
  · intro _ after ⟨hafter, htransfer'⟩
    obtain ⟨htake, hdrop⟩ := take_drop_middle (list.take first) text
      (list.drop (first + text.length))
    rw [hleft] at htake hdrop
    have hrest : (list.take first ++ text ++ list.drop (first + text.length)).drop last =
        list.drop last := by
      rw [show last = first + text.length + (last - (first + text.length)) by omega,
        ← List.drop_drop, hdrop, List.drop_drop]
    rw [htake, hrest] at hafter
    exact ⟨hafter, htransfer.trans htransfer'⟩

theorem overwrite_insert_returns (hholds : Holds mem.arr mem.heap list)
    (hsupplied : Supplied mem.supply mem.heap) {maxSize : Nat} {text rest : List UInt8}
    (hexact : first + text.length = last)
    (hreservable : Reservable maxSize (list.length + rest.length)) :
    Command.Returns (do
        putChars (getPtr mem.arr) first text
        insertRange maxSize last rest : Op Unit) mem fun _ after =>
      Becomes (some mem.arr) mem.heap (list.take first ++ (text ++ rest) ++ list.drop last)
        after := by
  apply (hholds.overwrite hsupplied (by omega)).seq
  rintro _ middle ⟨⟨hmiddle, htransfer⟩, hsupplied'⟩
  have hleft : (list.take first).length = first := by
    rw [List.length_take]
    omega
  have hsize : (list.take first ++ text ++ list.drop (first + text.length)).length =
      list.length := by
    simp
    omega
  refine (insertRange_returns hmiddle hsupplied' (by omega) (by rwa [hsize])).mono ?_
  intro _ after ⟨hafter, htransfer'⟩
  obtain ⟨htake, hdrop⟩ := take_drop_middle (list.take first) text
    (list.drop (first + text.length))
  rw [hleft, hexact] at htake hdrop
  rw [hexact, htake, hdrop, List.append_assoc (list.take first)] at hafter
  exact ⟨hafter, htransfer.trans htransfer'⟩

omit horder in
theorem overwrite_returns (hholds : Holds mem.arr mem.heap list)
    (hsupplied : Supplied mem.supply mem.heap) {text : List UInt8}
    (hexact : first + text.length = last) :
    Command.Returns (do
        putChars (getPtr mem.arr) first text
        pure () : Op Unit) mem fun _ after =>
      Becomes (some mem.arr) mem.heap (list.take first ++ text ++ list.drop last) after := by
  refine (hholds.overwrite hsupplied (by omega)).seq fun _ after hafter => .pure ?_
  rw [hexact] at hafter
  exact hafter.1

theorem replaceRange_returns (hholds : Holds mem.arr mem.heap list)
    (hsupplied : Supplied mem.supply mem.heap) {maxSize : Nat} {text : List UInt8}
    (hreservable : Reservable maxSize (list.length - (last - first) + text.length)) :
    Command.Returns (replaceRange maxSize first last text) mem fun _ after =>
      Becomes (some mem.arr) mem.heap (list.take first ++ text ++ list.drop last) after := by
  unfold replaceRange
  apply Command.Returns.ofGet
  rw [hholds.size, if_pos ⟨horder, hlast⟩]
  dsimp only
  by_cases hshort : text.length < last - first
  · rw [Nat.min_eq_right (by omega), List.take_length, if_pos (by omega)]
    exact overwrite_erase_returns horder hlast hholds hsupplied (by omega)
  · have hlength : first + (text.take (last - first)).length = last := by
      rw [List.length_take]
      omega
    rw [Nat.min_eq_left (by omega), if_neg (by omega)]
    by_cases hsame : last - first = text.length
    · rw [if_neg (by omega), hsame, List.take_length]
      exact overwrite_returns hlast hholds hsupplied (by omega)
    · rw [if_pos hsame]
      have hinsert := @overwrite_insert_returns mem list first last horder hlast hholds hsupplied
        maxSize (text.take (last - first)) (text.drop (last - first)) hlength
      rw [List.take_append_drop, List.length_drop,
        show list.length + (text.length - (last - first)) =
          list.length - (last - first) + text.length by omega] at hinsert
      exact hinsert hreservable

end Replace

/-! ### Ranges of pointers in the right order -/

theorem overwrite_eq (ptr : Ptr) (horder : index ≤ last) (text : List UInt8) :
    overwrite ptr index last text = (do
      putChars ptr index (text.take (min (last - index) text.length))
      pure (index + min (last - index) text.length,
        text.drop (min (last - index) text.length))) := by
  induction text generalizing index with
  | nil =>
      simp only [List.length_nil, Nat.min_zero, List.take_nil, List.drop_nil, Nat.add_zero]
      rfl
  | cons ch rest ih =>
      unfold overwrite
      by_cases hend : index = last
      · rw [if_neg (by simpa using hend), hend, Nat.sub_self, Nat.zero_min]
        rfl
      · have hmin : min (last - index) (ch :: rest).length =
            min (last - (index + 1)) rest.length + 1 := by
          rw [List.length_cons]
          omega
        rw [if_pos hend, ih (by omega), hmin, List.take_succ_cons, List.drop_succ_cons,
          show index + (min (last - (index + 1)) rest.length + 1) =
            index + 1 + min (last - (index + 1)) rest.length by omega]
        exact Command.bind_assoc _ |>.symm

theorem erasePointers_eq {size : Nat} (hsize : getSize mem.arr = size) (hword : size < wordRange)
    (horder : first ≤ last) (hlast : last ≤ size) :
    erasePointers first last mem = erase first last mem := by
  have hrest : wrapSub size last = size - last := wrapSub_of_le hlast hword
  have hremoved : wrapSub last first = last - first := wrapSub_of_le horder (by omega)
  have hnew : wrapSub size (last - first) = size - (last - first) :=
    wrapSub_of_le (by omega) hword
  rw [erasePointers, erase, Command.get_bind, Command.get_bind, hsize, hrest, hremoved, hnew,
    if_pos ⟨horder, hlast⟩]

theorem rangeEnd_eq {size pos count : Nat} (hpos : pos ≤ size) (hsum : pos + count < wordRange) :
    rangeEnd size pos count = pos + min count (size - pos) := by
  unfold rangeEnd
  rw [wrap_of_lt hsum]
  split <;> omega

theorem replaceFillPos_eq (hholds : Holds mem.arr mem.heap list) {maxSize pos count count2 : Nat}
    (ch : UInt8) (hpos : pos ≤ list.length) (hsum : pos + count < wordRange) :
    replaceFillPos maxSize pos count count2 ch mem =
      replaceRange maxSize pos (pos + min count (list.length - pos)) (List.replicate count2 ch)
        mem := by
  have hfits := hholds.fits
  rw [replaceFillPos, replaceRange, Command.get_bind, Command.get_bind, hholds.size,
    if_neg (by omega), rangeEnd_eq hpos hsum]
  generalize hlast : pos + min count (list.length - pos) = last
  have hrange : pos ≤ last ∧ last ≤ list.length := ⟨by omega, by omega⟩
  dsimp only
  rw [if_pos hrange, overwrite_eq _ hrange.1, Command.bind_assoc, List.length_replicate]
  generalize hwritten : min (last - pos) count2 = written
  rw [List.take_replicate, List.drop_replicate, show min written count2 = written by omega]
  refine Command.bind_congr (hholds.edited.putChars ?_) fun _ after hafter => ?_
  · rw [List.length_replicate]
    omega
  have hword := hafter.shaped.room_lt
  rw [Command.pure_bind]
  dsimp only
  have hrest : List.replicate (count2 - written) ch ≠ [] ↔ written < count2 := by
    rw [ne_eq, List.replicate_eq_nil_iff]
    omega
  by_cases hlong : last - pos < count2
  · rw [if_pos (hrest.mpr (by omega)), if_neg (by omega), if_pos (by omega),
      show pos + written = last by omega, List.length_replicate, insertFillAt, insertFill,
      insertChecked, insertRange, Command.get_bind, Command.get_bind, hafter.size,
      if_neg (by omega), if_pos (by omega)]
  · rw [if_neg (fun hleft => absurd (hrest.mp hleft) (by omega)),
      if_neg (show ¬ written ≠ count2 by omega)]
    split
    · exact erasePointers_eq hafter.size (by omega) (by omega) hrange.2
    · rfl

theorem replaceFill_eq (hholds : Holds mem.arr mem.heap list) {maxSize count2 : Nat} (ch : UInt8) :
    replaceFill maxSize first last count2 ch mem =
      replaceRange maxSize first last (List.replicate count2 ch) mem := by
  have hroom := hholds.shaped.room_lt
  have hfits := hholds.fits
  rw [replaceFill, Command.get_bind, hholds.size]
  by_cases hrange : first ≤ last ∧ last ≤ list.length
  · rw [if_pos hrange, replaceFillPos_eq hholds ch (by omega) (by omega),
      show first + min (last - first) (list.length - first) = last by omega]
  · rw [if_neg hrange, replaceRange, Command.get_bind, hholds.size, if_neg hrange]

end Crossbow.BasicString
