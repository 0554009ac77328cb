import Crossbow.BasicString.Positions

/-! Insertion of characters that stand in the string itself. The source is a
pointer that was taken before `reserve`; it is read while the characters are
written, one by one. -/
namespace Crossbow.BasicString
open Kernel

/-! ### The members -/

/-- The body of `insert` with a source range `[source + start, source + start + count)`. -/
def insertFrom (maxSize index : Nat) (source : Ptr) (start count : Nat) : Op Unit := do
  let mem ← Command.get
  let sz := getSize mem.arr
  let nsize := wrap (sz + count)
  reserve maxSize nsize
  let mem ← Command.get
  let ptr := getPtr mem.arr
  write ptr nsize 0
  moveTail ptr sz nsize 0 (sz - index)
  copyChars source start ptr index count
  editArr (setSize · nsize)

def insertSelf (maxSize index : Nat) : Op Unit := do
  let mem ← Command.get
  if index > getSize mem.arr then Command.throw .outOfRange
  else insertFrom maxSize index (getPtr mem.arr) 0 (getSize mem.arr)

def replaceSelf (maxSize pos count : Nat) : Op Unit := do
  let mem ← Command.get
  let size := getSize mem.arr
  let ptr := getPtr mem.arr
  if pos > size then Command.throw .outOfRange
  else do
    let last := rangeEnd size pos count
    -- a range in the wrong order does not end the loop
    let copied := if pos ≤ last then min (last - pos) size else size
    copyChars ptr 0 ptr pos copied
    if pos + copied ≠ last then erasePointers (pos + copied) last
    else if copied ≠ size then insertFrom maxSize last ptr copied (size - copied)
    else pure ()

def appendSelf (maxSize : Nat) : Op Unit := do
  let mem ← Command.get
  insertFrom maxSize (getSize mem.arr) (getPtr mem.arr) 0 (getSize mem.arr)

/-- `assign(*this, pos, count)`, with the characters copied front to back. A count
past the end is one that has wrapped, and more than any object holds. -/
def assignSelf (maxSize pos count : Nat) : Op Unit := do
  let mem ← Command.get
  let os := getSize mem.arr
  let s := getPtr mem.arr
  if pos > os then Command.throw .outOfRange
  else do
    let cnt := if wrap (pos + count) > os then os - pos else count
    reserve maxSize cnt
    if cnt ≤ os - pos then do
      let mem ← Command.get
      copyChars s pos (getPtr mem.arr) 0 cnt
      editArr (setSize · cnt)
      terminate
    else Command.undefined

/-- `append(str, pos, count)`. Both ends of the range are taken from the string
itself, and nothing from `str`; a range in the wrong order is left alone. -/
def appendSubstring (maxSize : Nat) (_str : List UInt8) (pos count : Nat) : Op Unit := do
  let mem ← Command.get
  let size := getSize mem.arr
  let ptr := getPtr mem.arr
  seek ptr count
  if wrap (pos + count) > size then
    if count ≤ size then insertFrom maxSize size ptr count (size - count) else pure ()
  else do
    seek ptr (count + count)
    insertFrom maxSize size ptr count count

/-! ### Copies within the string -/

variable {count index : Nat}

theorem Edited.copyUp {before mem : Mem} {room size : Nat} {text : Memory}
    (hedited : Edited before mem room size text) {start : Nat} (hsource : start + count ≤ room + 1)
    (htarget : index + count ≤ room + 1) :
    Command.Returns (copyChars (getPtr before.arr) start (getPtr before.arr) index count) mem
      fun _ after => Edited before after room size (copyForward text start index count) := by
  induction count generalizing mem start index text with
  | zero => exact .pure hedited
  | succ count ih =>
      unfold copyChars
      apply (hedited.read (by omega)).seq
      rintro _ _ ⟨rfl, rfl⟩
      refine (hedited.write (by omega) _).seq fun _ after hafter => ?_
      rw [← copyForward_succ]
      exact ih hafter (by omega) (by omega)

variable {mem : Mem} {list : List UInt8}

/-! ### With enough room -/

theorem insertFrom_inPlace (hholds : Holds mem.arr mem.heap list) {maxSize start : Nat}
    (hstart : start ≤ index) (hindex : index ≤ list.length)
    (hroom : list.length + count ≤ getCapacity mem.arr) :
    Command.Returns (insertFrom maxSize index (getPtr mem.arr) start count) mem fun _ after =>
      Becomes (some mem.arr) mem.heap (splice list index index
        (load (copyForward (chars mem.arr mem.heap) start index count) index count)) after := by
  have hword := hholds.shaped.room_lt
  unfold insertFrom
  apply Command.Returns.ofGet
  simp only [hholds.size, wrap_of_lt (show list.length + count < wordRange by omega)]
  apply Command.Returns.bind
  refine ⟨(), mem, reserve_enough hholds.shaped hroom, ?_⟩
  apply Command.Returns.ofGet
  refine (hholds.edited.write hroom 0).seq fun _ ended hended => ?_
  refine (hended.moveTail (by omega) (by omega) hroom).seq fun _ moved hmoved => ?_
  refine (hmoved.copyUp (by omega) (by omega)).seq fun _ filled hfilled => ?_
  have htail : load (store (chars mem.arr mem.heap) (list.length + count) [0])
      index (list.length - index) = list.drop index := by
    rw [load_store_disjoint _ (Or.inl (by omega))]
    exact load_drop hholds.content hindex
  rw [show list.length - 0 - (list.length - index) = index by omega,
    show list.length + count - 0 - (list.length - index) = index + count by omega,
    htail] at hfilled
  generalize hmemory : store (store (chars mem.arr mem.heap) (list.length + count) [0])
    (index + count) (list.drop index) = memory at hfilled
  have hdropped : (list.drop index).length = list.length - index := List.length_drop
  have hsame : ∀ place < index + count, memory place = chars mem.arr mem.heap place := by
    intro place hplace
    rw [← hmemory, store_of_lt _ _ hplace, store_of_lt _ _ (by omega)]
  refine (hfilled.setSize hroom).mono fun _ after hafter =>
    .ofEdited hholds.becomes.2 hafter hroom ?_ ?_
  · rw [show list.length + count = index + count + (list.length - index) by omega, load_append,
      load_append, Nat.zero_add, Nat.zero_add]
    have hfront : load (copyForward memory start index count) 0 index = list.take index := by
      rw [← load_take hholds.content hindex]
      refine load_congr fun place _ hplace => ?_
      rw [copyForward_outside memory (Or.inl (by omega)), hsame place (by omega)]
    have hmiddle : load (copyForward memory start index count) index count =
        load (copyForward (chars mem.arr mem.heap) start index count) index count :=
      load_congr fun place _ hplace => copyForward_congr hstart hsame hplace
    have hback : load (copyForward memory start index count) (index + count)
        (list.length - index) = list.drop index := by
      rw [load_congr fun place hplace _ => copyForward_outside memory (Or.inr hplace), ← hmemory,
        ← hdropped, load_store]
    rw [hfront, hmiddle, hback]
    rfl
  · rw [copyForward_outside memory (Or.inr (by omega)), ← hmemory, store_of_ge _ (by omega),
      store_self]

/-! ### With a new block -/

theorem write_block_arr {address : Nat} {ch : UInt8} {after : Mem} {value : Unit}
    (hrun : write (.block address) index ch mem = some (.ok value, after)) :
    after.arr = mem.arr := by
  unfold write at hrun
  split at hrun
  · contradiction
  · split at hrun
    · split at hrun
      · simp only [Option.some.injEq, Prod.mk.injEq] at hrun
        rw [← hrun.2]
      · contradiction
    · contradiction

theorem moveTail_block_arr {address size newSize i : Nat} {after : Mem} {value : Unit}
    (hrun : moveTail (.block address) size newSize i count mem = some (.ok value, after)) :
    after.arr = mem.arr := by
  induction count generalizing mem i with
  | zero =>
      cases hrun
      rfl
  | succ count ih =>
      unfold moveTail at hrun
      obtain ⟨ch, middle, hread, hrest⟩ := Command.bind_eq_ok.mp hrun
      obtain ⟨_, last, hwrite, hlast⟩ := Command.bind_eq_ok.mp hrest
      rw [ih hlast, write_block_arr hwrite, read_state hread]

theorem copyChars_buffer_eq {address start index count : Nat}
    (hsource : 1 + start + count ≤ arrSize) :
    copyChars .buffer start (.block address) index count mem =
      putChars (.block address) index (load mem.arr (1 + start) count) mem := by
  induction count generalizing mem start index with
  | zero => rfl
  | succ count ih =>
      have hbytes : load mem.arr (1 + start) (count + 1) =
          mem.arr (1 + start) :: load mem.arr (1 + (start + 1)) count := by
        rw [Nat.add_comm count 1, load_append, load_one, Nat.add_assoc]
        rfl
      have hread : read .buffer start mem = some (.ok (mem.arr (1 + start)), mem) :=
        if_pos (by omega)
      rw [hbytes, copyChars, putChars]
      simp only [Bind.bind, hread]
      rcases hwrite : write (.block address) index (mem.arr (1 + start)) mem with
        _ | ⟨fault | value, after⟩
      · rfl
      · rfl
      · exact (ih (by omega)).trans (by rw [write_block_arr hwrite])

section Grow

variable {maxSize index start count : Nat} (hholds : Holds mem.arr mem.heap list)
  (hsupplied : Supplied mem.supply mem.heap)
  (hreservable : Reservable maxSize (list.length + count))
  (hmore : getCapacity mem.arr < list.length + count)
include hholds hsupplied hreservable hmore

theorem reserve_moves :
    Command.Returns (reserve maxSize (list.length + count)) mem fun _ after =>
      Grown mem after (max (wrap (getCapacity mem.arr * 2)) (list.length + count)) ∧
      Holds after.arr after.heap list ∧ list.length + count ≤ getCapacity after.arr := by
  refine (reserve_grows hholds.shaped hsupplied (hholds.size ▸ hholds.fits) hreservable
    hmore).mono fun _ after hgrown => ?_
  obtain ⟨hbecomes, hneeded⟩ := hgrown.toRoomy.becomes hholds
  exact ⟨hgrown, hbecomes.1, Nat.le_trans (Nat.le_max_right ..) hneeded⟩

theorem insertFrom_released {own : Nat} (hptr : getPtr mem.arr = .block own)
    (hindex : index ≤ list.length) (hcount : 0 < count) :
    insertFrom maxSize index (.block own) start count mem = none := by
  have hword := hreservable.2
  rw [insertFrom, Command.get_bind, hholds.size, wrap_of_lt (by omega)]
  refine Command.bind_undefined (reserve_moves hholds hsupplied hreservable hmore) ?_
  rintro _ grown ⟨hgrown, hholds', hroom⟩
  rw [Command.get_bind]
  have hgone := hgrown.freed own hptr
  refine Command.bind_undefined (hholds'.edited.write hroom 0) fun _ ended hended => ?_
  refine Command.bind_undefined (hended.moveTail (by omega) (by omega) hroom) ?_
  intro _ moved hmoved
  have hnone : moved.heap own = none := by
    rw [hmoved.others own (hholds'.shaped.ptr_ne_free hgone), hgone]
  obtain ⟨rest, rfl⟩ : ∃ rest, count = rest + 1 := ⟨count - 1, by omega⟩
  rw [copyChars]
  simp only [Bind.bind, read, hnone]

theorem insertFrom_converted (hmark : mem.arr 0 ≠ nullchar) (hindex : index ≤ list.length)
    (hsource : 1 + start + count ≤ arrSize) {address : Nat} {bytes : Memory}
    (hsupply : mem.supply = some (address, bytes)) :
    Does (some mem.arr) (insertFrom maxSize index .buffer start count) mem
      (.ok (splice list index index (load (converted mem.arr list.length
        (max (wrap (getCapacity mem.arr * 2)) (list.length + count)) address) (1 + start)
        count))) := by
  have hword := hreservable.2
  refine Command.Returns.congr ?_
    (insertText_returns hholds hsupplied hindex (by rwa [length_load]))
  rw [insertFrom, insertText, Command.get_bind, Command.get_bind, hholds.size, length_load,
    wrap_of_lt (by omega)]
  refine Command.bind_congr (reserve_moves hholds hsupplied hreservable hmore) ?_
  rintro _ grown ⟨hgrown, hholds', hroom⟩
  obtain ⟨given, _, hgiven, hptr, harr⟩ := hgrown.moved
  obtain ⟨rfl, _⟩ : address = given ∧ _ := by simpa [hsupply] using hgiven
  have hconverted := harr hmark
  rw [hholds.size] at hconverted
  rw [Command.get_bind, Command.get_bind, hptr]
  have hwrite := hholds'.edited.write hroom 0
  rw [hptr] at hwrite
  refine Command.bind_congr (hwrite.and fun _ _ => write_block_arr) ?_
  rintro _ ended ⟨hended, hendedArr⟩
  have hmove := hended.moveTail (show 0 + (list.length - index) ≤ list.length by omega)
    (show list.length ≤ list.length + count by omega) hroom
  rw [hptr] at hmove
  refine Command.bind_congr (hmove.and fun _ _ => moveTail_block_arr) ?_
  rintro _ moved ⟨_, hmovedArr⟩
  have hcopy := @copyChars_buffer_eq moved address start index count hsource
  rw [hmovedArr, hendedArr, hconverted] at hcopy
  simp only [Bind.bind, hcopy]

theorem insertFrom_grown_iff (hindex : index ≤ list.length)
    (hsource : start + count ≤ getCapacity mem.arr + 1) {text : List UInt8} :
    Does (some mem.arr) (insertFrom maxSize index (getPtr mem.arr) start count) mem
        (.ok (splice list index index text)) ↔
      mem.arr 0 ≠ nullchar ∧ ∀ address bytes, mem.supply = some (address, bytes) →
        load (converted mem.arr list.length
          (max (wrap (getCapacity mem.arr * 2)) (list.length + count)) address) (1 + start) count =
          text := by
  have hfits := hholds.fits
  cases hholds.shaped with
  | inline hmark hroom =>
      have hthirty : maxInBufferSize = 30 := rfl
      have harr : arrSize = 32 := rfl
      obtain ⟨address, bytes, hsupply⟩ := hsupplied.some
      have hdoes := insertFrom_converted hholds hsupplied hreservable hmore hmark hindex
        (show 1 + start + count ≤ arrSize by omega) hsupply
      rw [getPtr_inline hmark]
      refine (does_splice_iff hdoes).trans ⟨fun hbytes => ⟨hmark, fun other _ hother => ?_⟩,
        fun hbytes => hbytes.2 address bytes hsupply⟩
      obtain ⟨rfl, _⟩ : address = other ∧ _ := by simpa [hsupply] using hother
      exact hbytes
  | onHeap own block hmark hptr _ _ _ _ =>
      rw [hptr]
      refine iff_of_false (not_does_of_undefined ?_) fun hbytes => hbytes.1 hmark
      exact insertFrom_released hholds hsupplied hreservable hmore hptr hindex (by omega)

end Grow

/-! ### What is inserted -/

/-- The characters from `start` on are `text`, as they are read to be inserted at
`index`: from the string itself, behind what has been inserted already; or, if it
has to grow, from the array that the new block is entered in. -/
def Echoes (mem : Mem) (size start index : Nat) (text : List UInt8) : Prop :=
  if size + text.length ≤ getCapacity mem.arr then
    load (if start < index then store (chars mem.arr mem.heap) index text
      else chars mem.arr mem.heap) start text.length = text
  else mem.arr 0 ≠ nullchar ∧ ∀ address bytes, mem.supply = some (address, bytes) →
    load (converted mem.arr size (max (wrap (getCapacity mem.arr * 2)) (size + text.length))
      address) (1 + start) text.length = text

theorem insertFrom_does_iff (hholds : Holds mem.arr mem.heap list)
    (hsupplied : Supplied mem.supply mem.heap) {maxSize start : Nat} (hstart : start ≤ index)
    (hindex : index ≤ list.length) (hsource : start + count ≤ getCapacity mem.arr + 1)
    (hword : list.length + count + 1 < wordRange) {text : List UInt8}
    (hreservable : Reservable maxSize (list.length + text.length)) :
    Does (some mem.arr) (insertFrom maxSize index (getPtr mem.arr) start count) mem
        (.ok (splice list index index text)) ↔
      text.length = count ∧ Echoes mem list.length start index text := by
  have hinPlace : list.length + count ≤ getCapacity mem.arr →
      (Does (some mem.arr) (insertFrom maxSize index (getPtr mem.arr) start count) mem
        (.ok (splice list index index text)) ↔
      load (copyForward (chars mem.arr mem.heap) start index count) index count = text) :=
    fun hroom => does_splice_iff (insertFrom_inPlace hholds hstart hindex hroom)
  by_cases hlength : text.length = count
  · subst hlength
    rw [and_iff_right rfl, Echoes]
    split
    · rename_i hroom
      exact (hinPlace hroom).trans (load_copyForward_iff _ hstart)
    · rename_i hroom
      exact insertFrom_grown_iff hholds hsupplied hreservable (by omega) hindex hsource
  · refine iff_of_false (fun hdoes => hlength ?_) fun hechoes => hlength hechoes.1
    by_cases hroom : list.length + count ≤ getCapacity mem.arr
    · rw [← (hinPlace hroom).mp hdoes, length_load]
    · by_cases hmax : list.length + count ≤ maxSize
      · obtain ⟨address, bytes, hsupply⟩ := hsupplied.some
        have hbytes := (insertFrom_grown_iff hholds hsupplied ⟨hmax, hword⟩ (by omega) hindex
          hsource).mp hdoes
        rw [← hbytes.2 address bytes hsupply, length_load]
      · have hdenied : RoomDenied maxSize (list.length + count) mem :=
          ⟨by omega, Or.inl (by omega)⟩
        obtain ⟨_, _, hthrown, _⟩ := reserve_throws hdenied
        obtain ⟨_, _, hreturned, _⟩ := hdoes
        rw [insertFrom, Command.get_bind, hholds.size, wrap_of_lt (by omega)] at hreturned
        simp only [Bind.bind, hthrown] at hreturned
        simp at hreturned

/-! ### A string into itself -/

def heapFields (size capacity address : Nat) : List UInt8 :=
  natLE 8 size ++ (natLE 8 capacity ++ natLE 8 address)

theorem converted_eq (arr : Memory) (size newCap address : Nat) :
    converted arr size newCap address =
      store (store arr 0 [nullchar]) sizeOffset (heapFields size newCap address) := by
  have hmark : ¬ store arr 0 [nullchar] 0 ≠ nullchar := by simp [store_self]
  unfold converted heapFields setPtr setCapacity setSize
  rw [if_neg hmark, ← store_append, ← store_append, length_natLE, length_natLE]
  rfl

theorem load_converted (arr : Memory) (size newCap address : Nat) (hlow : 7 ≤ count)
    (hhigh : count ≤ 31) :
    load (converted arr size newCap address) 1 count =
      load arr 1 7 ++ (heapFields size newCap address).take (count - 7) := by
  have hoffset : sizeOffset = 8 := rfl
  have hlength : (heapFields size newCap address).length = 24 := by simp [heapFields]
  rw [show count = 7 + (count - 7) by omega, load_append, converted_eq, hoffset,
    load_store_disjoint _ (Or.inl (by omega)), load_store_disjoint _ (Or.inr (by simp)),
    load_store_take _ _ (by omega), Nat.add_sub_cancel_left]

theorem take_append_eq_iff {rest : List UInt8} :
    list.take count ++ rest = list ↔ list.drop count = rest := by
  constructor
  · intro hsame
    have hparts : list.take count ++ list.drop count = list.take count ++ rest := by
      rw [List.take_append_drop, hsame]
    exact List.append_cancel_left hparts
  · intro hsame
    rw [← hsame, List.take_append_drop]

/-- A string can be inserted into itself at `index`: in place, what is copied last
has to be what the string begins with; if it is to be moved out of the array, its
characters have to be the fields that are written over them. -/
def SelfInsertable (mem : Mem) (list : List UInt8) (index : Nat) : Prop :=
  if list.length + list.length ≤ getCapacity mem.arr then list.drop index <+: list
  else mem.arr 0 ≠ nullchar ∧ ∀ address bytes, mem.supply = some (address, bytes) →
    list.drop 7 = (heapFields list.length (2 * maxInBufferSize) address).take (list.length - 7)

theorem echoes_self_iff (hholds : Holds mem.arr mem.heap list) (hindex : index ≤ list.length) :
    Echoes mem list.length 0 index list ↔ SelfInsertable mem list index := by
  have hfits := hholds.fits
  have hcontent := hholds.content
  unfold Echoes SelfInsertable
  by_cases hroom : list.length + list.length ≤ getCapacity mem.arr
  · rw [if_pos hroom, if_pos hroom]
    by_cases hfront : 0 < index
    · have hread : load (store (chars mem.arr mem.heap) index list) 0 list.length =
          list.take index ++ list.take (list.length - index) := by
        rw [show list.length = index + (list.length - index) by omega, load_append, Nat.zero_add,
          load_store_disjoint _ (Or.inl (by omega)), load_take hcontent hindex,
          load_store_take _ _ (by omega), Nat.add_sub_cancel_left]
      rw [if_pos hfront, hread, take_append_eq_iff, List.prefix_iff_eq_take, List.length_drop]
    · rw [if_neg hfront, show index = 0 by omega, List.drop_zero]
      exact iff_of_true hcontent (List.prefix_refl list)
  · rw [if_neg hroom, if_neg hroom]
    refine and_congr_right fun hmark => forall_congr' fun address => ?_
    have hthirty : maxInBufferSize = 30 := rfl
    have hcapacity := getCapacity_inline hmark
    have hdouble : max (wrap (getCapacity mem.arr * 2)) (list.length + list.length) =
        2 * maxInBufferSize := by
      rw [hcapacity, wrap_of_lt (by decide), hthirty]
      omega
    have hkept : load mem.arr 1 7 = list.take 7 := by
      rw [← load_take hcontent (show 7 ≤ list.length by omega), chars_inline hmark]
      simp [load]
    rw [hdouble, Nat.add_zero, load_converted _ _ _ _ (by omega) (by omega), hkept]
    exact forall_congr' fun bytes => imp_congr_right fun _ => take_append_eq_iff

section Self

variable (hholds : Holds mem.arr mem.heap list) (hsupplied : Supplied mem.supply mem.heap)
  {maxSize index : Nat} (hindex : index ≤ list.length)
  (hreservable : Reservable maxSize (list.length + list.length))
include hholds hsupplied hindex hreservable

theorem insertFrom_self_does_iff :
    Does (some mem.arr) (insertFrom maxSize index (getPtr mem.arr) 0 list.length) mem
        (.ok (splice list index index list)) ↔
      SelfInsertable mem list index := by
  have hfits := hholds.fits
  refine (insertFrom_does_iff hholds hsupplied (Nat.zero_le _) hindex (by omega) hreservable.2
    hreservable).trans ?_
  rw [and_iff_right rfl, echoes_self_iff hholds hindex]

theorem insertSelf_does_iff :
    Does (some mem.arr) (insertSelf maxSize index) mem (.ok (splice list index index list)) ↔
      SelfInsertable mem list index := by
  have hrun : insertSelf maxSize index mem =
      insertFrom maxSize index (getPtr mem.arr) 0 list.length mem := by
    rw [insertSelf, Command.get_bind, hholds.size, if_neg (by omega)]
  exact (does_congr hrun).trans (insertFrom_self_does_iff hholds hsupplied hindex hreservable)

theorem replaceSelf_does_iff :
    Does (some mem.arr) (replaceSelf maxSize index 0) mem (.ok (splice list index index list)) ↔
      SelfInsertable mem list index := by
  have hword := hreservable.2
  have hrun : replaceSelf maxSize index 0 mem = (if 0 ≠ list.length then
      insertFrom maxSize index (getPtr mem.arr) 0 list.length else pure () : Op Unit) mem := by
    rw [replaceSelf, Command.get_bind, hholds.size]
    dsimp only
    rw [if_neg (by omega), rangeEnd_eq hindex (by omega), Nat.zero_min, Nat.add_zero,
      if_pos (Nat.le_refl _), Nat.sub_self, Nat.zero_min, copyChars, Command.pure_bind,
      if_neg (by simp), Nat.sub_zero]
  refine (does_congr hrun).trans ?_
  by_cases hempty : 0 ≠ list.length
  · rw [if_pos hempty]
    exact insertFrom_self_does_iff hholds hsupplied hindex hreservable
  · have hnil : list = [] := List.length_eq_zero_iff.mp (by omega)
    subst hnil
    rw [if_neg hempty]
    refine iff_of_true (.pure ?_) ?_
    · simpa [splice] using hholds.becomes
    · simp [SelfInsertable]

end Self

theorem appendSelf_does_iff (hholds : Holds mem.arr mem.heap list)
    (hsupplied : Supplied mem.supply mem.heap) {maxSize : Nat}
    (hreservable : Reservable maxSize (list.length + list.length)) :
    Does (some mem.arr) (appendSelf maxSize) mem (.ok (list ++ list)) ↔
      SelfInsertable mem list list.length := by
  have hrun : appendSelf maxSize mem =
      insertFrom maxSize list.length (getPtr mem.arr) 0 list.length mem := by
    rw [appendSelf, Command.get_bind, hholds.size]
  rw [← splice_end]
  exact (does_congr hrun).trans
    (insertFrom_self_does_iff hholds hsupplied (Nat.le_refl _) hreservable)

/-- `insert(index, *this)`, `replace(index, 0, *this)` and `append(*this)`. -/
theorem self_insertion_does_iff (hholds : Holds mem.arr mem.heap list)
    (hsupplied : Supplied mem.supply mem.heap) {maxSize index : Nat}
    (hindex : index ≤ list.length)
    (hreservable : Reservable maxSize (list.length + list.length)) :
    (Does (some mem.arr) (insertSelf maxSize index) mem
        (.ok (list.take index ++ list ++ list.drop index)) ↔ SelfInsertable mem list index) ∧
      (Does (some mem.arr) (replaceSelf maxSize index 0) mem
        (.ok (list.take index ++ list ++ list.drop index)) ↔ SelfInsertable mem list index) ∧
      (Does (some mem.arr) (appendSelf maxSize) mem (.ok (list ++ list)) ↔
        SelfInsertable mem list list.length) := by
  exact ⟨insertSelf_does_iff hholds hsupplied hindex hreservable,
    replaceSelf_does_iff hholds hsupplied hindex hreservable,
    appendSelf_does_iff hholds hsupplied hreservable⟩

/-- "abab" at 2 of itself: "ab" is what the string begins with. -/
theorem self_insertion_abab :
    Holds (shortMem [97, 98, 97, 98]).arr (shortMem [97, 98, 97, 98]).heap [97, 98, 97, 98] ∧
      Does (some (shortMem [97, 98, 97, 98]).arr) (insertSelf 1000 2)
        (shortMem [97, 98, 97, 98]) (.ok [97, 98, 97, 98, 97, 98, 97, 98]) := by
  have hvalid := valid_shortMem (show [97, 98, 97, 98].length ≤ maxInBufferSize by decide)
  refine ⟨hvalid.toHolds, ?_⟩
  refine (self_insertion_does_iff hvalid.toHolds (supplied_shortMem _) (by decide)
    (by decide)).1.mpr ?_
  unfold SelfInsertable
  rw [if_pos (by decide)]
  decide

/-- "abc" at 1 of itself is "aaaabc" and not "aabcbc". Twenty times 'a' appended to
itself has to grow, and ends in the bytes of its size, its capacity and its pointer. -/
theorem self_insertion_echoes :
    ((insertSelf 1000 1 (shortMem [97, 98, 99])).map fun (_, after) => load after.arr 0 8) =
        some [6, 97, 97, 97, 97, 98, 99, 0] ∧
      ¬ Does (some (shortMem [97, 98, 99]).arr) (insertSelf 1000 1) (shortMem [97, 98, 99])
        (.ok [97, 97, 98, 99, 98, 99]) ∧
      ((appendSelf 1000 (shortMem (List.replicate 20 97))).map fun (_, after) =>
          (after.heap 1).map fun block => load block.bytes 20 20) =
        some (some [97, 97, 97, 97, 97, 97, 97, 20, 0, 0, 0, 0, 0, 0, 0, 60, 0, 0, 0, 0]) ∧
      ¬ Does (some (shortMem (List.replicate 20 97)).arr) (appendSelf 1000)
        (shortMem (List.replicate 20 97)) (.ok (List.replicate 40 97)) := by
  have hvalid := valid_shortMem (show [97, 98, 99].length ≤ maxInBufferSize by decide)
  have hlong := valid_shortMem (show (List.replicate 20 97).length ≤ maxInBufferSize by decide)
  refine ⟨by decide +kernel, fun hdoes => ?_, by decide +kernel, fun hdoes => ?_⟩
  · have hself := (insertSelf_does_iff hvalid.toHolds (supplied_shortMem _)
      (show 1 ≤ [97, 98, 99].length by decide) (by decide)).mp hdoes
    rw [SelfInsertable, if_pos (by decide)] at hself
    revert hself
    decide
  · have hself := (appendSelf_does_iff hlong.toHolds (supplied_shortMem _) (by decide)).mp hdoes
    rw [SelfInsertable, if_neg (by decide)] at hself
    have hbytes := hself.2 1 zeroArr rfl
    revert hbytes
    decide

/-! ### Substrings -/

theorem Valid.seek_eq (hvalid : Valid mem.arr mem.heap list) (index : Nat) :
    seek (getPtr mem.arr) index mem =
      if index ≤ getCapacity mem.arr + 1 then some (.ok (), mem) else none := by
  cases hvalid.shaped with
  | inline hmark hroom =>
      have hbound : 1 + index ≤ arrSize ↔ index ≤ maxInBufferSize + 1 := by
        simp only [arrSize, maxInBufferSize]
        omega
      rw [getPtr_inline hmark, hroom]
      simp only [seek, hbound]
  | onHeap address block _ hptr hblock _ _ _ =>
      rw [hptr]
      simp only [seek, hblock, hvalid.allocated address block hptr hblock]

theorem insertFrom_faults (maxSize index : Nat) (source : Ptr) (start count : Nat) :
    Command.Faults OutOfRoom (insertFrom maxSize index source start count) := by
  refine .bind .get fun mem => .bind (reserve_faults ..) fun _ => .bind .get fun mem => ?_
  exact .bind (write_silent ..).faults fun _ => .bind (moveTail_silent ..).faults fun _ =>
    .bind (copyChars_silent ..).faults fun _ => (editArr_silent _).faults

theorem appendSubstring_faults (maxSize : Nat) (str : List UInt8) (pos count : Nat) :
    Command.Faults OutOfRoom (appendSubstring maxSize str pos count) := by
  refine .bind .get fun mem => .bind (seek_silent ..).faults fun _ => .ite ?_ ?_
  · exact .ite (insertFrom_faults ..) (.pure ())
  · exact .bind (seek_silent ..).faults fun _ => insertFrom_faults ..

/-- What `append(str, pos, count)` takes out of the string itself is what it has to
take out of `str`. -/
def AppendsPart (mem : Mem) (list str : List UInt8) (pos count : Nat) : Prop :=
  let taken := if list.length < pos + count then list.length - count else count
  pos ≤ str.length ∧ count + taken ≤ getCapacity mem.arr + 1 ∧
    ((str.drop pos).take count).length = taken ∧
    Echoes mem list.length count list.length ((str.drop pos).take count)

section Substring

variable {str : List UInt8} {maxSize pos count : Nat} (hvalid : Valid mem.arr mem.heap list)
include hvalid

theorem appendSubstring_eq (hsum : pos + count < wordRange)
    (hfar : count ≤ getCapacity mem.arr + 1) :
    appendSubstring maxSize str pos count mem = (if list.length < pos + count then
        if count ≤ list.length then
          insertFrom maxSize list.length (getPtr mem.arr) count (list.length - count)
        else pure ()
      else if count + count ≤ getCapacity mem.arr + 1 then
        insertFrom maxSize list.length (getPtr mem.arr) count count
      else Command.undefined : Op Unit) mem := by
  have hseek := hvalid.seek_eq count
  have htwice := hvalid.seek_eq (count + count)
  rw [if_pos hfar] at hseek
  rw [appendSubstring, Command.get_bind, hvalid.size, wrap_of_lt hsum, Command.bind_of_ok hseek]
  split
  · rfl
  · split at htwice
    · rename_i hroom
      rw [Command.bind_of_ok htwice, if_pos hroom]
    · rename_i hroom
      rw [Command.bind_of_none htwice, if_neg hroom]
      rfl

variable (hsupplied : Supplied mem.supply mem.heap) (hstr : str.length < ptrdiffMax)
include hsupplied hstr

theorem appendSubstring_does_iff (hreservable : Reservable maxSize
      (outcomeSize ((substringOf str pos count).map (list ++ ·)))) :
    Does (some mem.arr) (appendSubstring maxSize str pos count) mem
        ((substringOf str pos count).map (list ++ ·)) ↔ AppendsPart mem list str pos count := by
  have hbound := hvalid.bounded
  have hfits := hvalid.fits
  have hdouble : ptrdiffMax + ptrdiffMax < wordRange := by decide
  unfold substringOf AppendsPart at *
  by_cases hpos : str.length < pos
  · rw [if_pos hpos]
    refine iff_of_false (not_does_outOfRange (appendSubstring_faults ..)) fun happends => ?_
    exact Nat.not_lt.mpr happends.1 hpos
  rw [if_neg hpos] at hreservable ⊢
  generalize (str.drop pos).take count = text at hreservable ⊢
  replace hreservable : Reservable maxSize (list.length + text.length) := by
    rw [← List.length_append]
    exact hreservable
  show Does _ _ _ (.ok (list ++ text)) ↔ _
  rw [← splice_end, and_iff_right (Nat.not_lt.mp hpos)]
  by_cases hfar : count ≤ getCapacity mem.arr + 1
  · refine (does_congr (appendSubstring_eq hvalid (by omega) hfar)).trans ?_
    by_cases hbehind : list.length < pos + count
    · rw [if_pos hbehind, if_pos hbehind]
      by_cases hcount : count ≤ list.length
      · rw [if_pos hcount]
        refine (insertFrom_does_iff hvalid.toHolds hsupplied hcount (Nat.le_refl _) (by omega)
          (by omega) hreservable).trans ?_
        exact (and_iff_right (by omega)).symm
      · -- a range in the wrong order, of which nothing is appended
        have hsame : Does (some mem.arr) (pure () : Op Unit) mem
            (.ok (splice list list.length list.length [])) := by
          rw [splice_end, List.append_nil]
          exact .pure hvalid.becomes
        rw [if_neg hcount]
        refine (does_splice_iff hsame).trans ⟨?_, fun htaken => ?_⟩
        · rintro rfl
          refine ⟨by omega, by simp; omega, ?_⟩
          simp [Echoes, hfits, load]
        · exact (List.length_eq_zero_iff.mp (by omega)).symm
    · rw [if_neg hbehind, if_neg hbehind]
      by_cases htwice : count + count ≤ getCapacity mem.arr + 1
      · rw [if_pos htwice, and_iff_right htwice]
        exact insertFrom_does_iff hvalid.toHolds hsupplied (by omega) (Nat.le_refl _) htwice
          (by omega) hreservable
      · rw [if_neg htwice]
        exact iff_of_false (not_does_of_undefined rfl) fun htaken => htwice htaken.1
  · refine iff_of_false (not_does_of_undefined ?_) fun htaken => hfar (by omega)
    rw [appendSubstring, Command.get_bind, Command.bind_of_none]
    rw [hvalid.seek_eq, if_neg hfar]

theorem assignSubstring_does_iff (hcount : count < wordRange)
    (hreservable : Reservable maxSize (outcomeSize (substringOf str pos count))) :
    Does (some mem.arr) (assignSubstring maxSize str pos count) mem (substringOf str pos count) ↔
      str.length < pos ∨ pos + count < wordRange := by
  by_cases hrange : pos + count < wordRange ∨ str.length < pos
  · exact iff_of_true (assignSubstring_does hvalid.toHolds hsupplied hrange hreservable) hrange.symm
  · refine iff_of_false (fun hdoes => ?_) fun hrange' => hrange hrange'.symm
    have hword : ptrdiffMax < wordRange := by decide
    have hpos : ¬ str.length < pos := fun hlt => hrange (Or.inr hlt)
    have hsum : wordRange ≤ pos + count := Nat.not_lt.mp fun hlt => hrange (Or.inl hlt)
    have hwraps := wrap_lt_of_overflow (show pos < wordRange by omega) hcount hsum
    rw [substringOf, if_neg hpos] at hdoes
    obtain ⟨_, after, hrun, _⟩ := hdoes
    rw [assignSubstring, if_neg hpos] at hrun
    rw [if_neg (show ¬ wrap (pos + count) > str.length by omega),
      if_neg (show ¬ count ≤ str.length - pos by omega)] at hrun
    obtain ⟨_, _, _, hundefined⟩ := Command.bind_eq_ok.mp hrun
    contradiction

end Substring

theorem assignSelf_does_iff (hvalid : Valid mem.arr mem.heap list) {maxSize pos : Nat}
    (hcount : count < wordRange) :
    Does (some mem.arr) (assignSelf maxSize pos count) mem (substringOf list pos count) ↔
      list.length < pos ∨ pos + count < wordRange := by
  have hbound := hvalid.bounded
  have hfits := hvalid.fits
  have hword : ptrdiffMax < wordRange := by decide
  unfold substringOf
  by_cases hpos : list.length < pos
  · rw [if_pos hpos]
    refine iff_of_true ⟨.outOfRange, mem, ?_, rfl, rfl⟩ (Or.inl hpos)
    rw [assignSelf, Command.get_bind, hvalid.size, if_pos hpos]
    rfl
  rw [if_neg hpos, or_iff_right hpos]
  by_cases hsum : pos + count < wordRange
  · refine iff_of_true ?_ hsum
    have hclamp : (if pos + count > list.length then list.length - pos else count) =
        min count (list.length - pos) := by
      split <;> omega
    show Command.Returns _ _ _
    unfold assignSelf
    apply Command.Returns.ofGet
    rw [hvalid.size, if_neg hpos]
    dsimp only
    rw [wrap_of_lt hsum, hclamp]
    generalize hcnt : min count (list.length - pos) = cnt
    have hroom : cnt ≤ getCapacity mem.arr := by omega
    apply Command.Returns.bind
    refine ⟨(), mem, reserve_enough hvalid.shaped hroom, ?_⟩
    rw [if_pos (by omega)]
    apply Command.Returns.ofGet
    refine (hvalid.edited.copyDown (Nat.zero_le pos) (by omega)).seq fun _ moved hmoved => ?_
    refine (hmoved.setSize hroom).seq fun _ sized hsized => ?_
    refine (hsized.terminate hroom).mono fun _ after hafter => ?_
    have htext : load (chars mem.arr mem.heap) pos cnt = (list.drop pos).take count := by
      rw [← take_load _ _ (show cnt ≤ list.length - pos by omega),
        load_drop hvalid.content (by omega), List.take_eq_take_iff, List.length_drop]
      omega
    have hlength : ((list.drop pos).take count).length = cnt := by
      rw [List.length_take, List.length_drop, hcnt]
    rw [htext] at hafter
    subst hlength
    refine .ofEdited hvalid.becomes.2 hafter hroom ?_ (store_self ..)
    rw [load_terminated, load_store]
  · refine iff_of_false (fun hdoes => ?_) hsum
    have hwraps := wrap_lt_of_overflow (show pos < wordRange by omega) hcount (by omega)
    obtain ⟨_, after, hrun, _⟩ := hdoes
    rw [assignSelf, Command.get_bind, hvalid.size, if_neg hpos] at hrun
    rw [if_neg (show ¬ wrap (pos + count) > list.length by omega),
      if_neg (show ¬ count ≤ list.length - pos by omega)] at hrun
    obtain ⟨_, _, _, hundefined⟩ := Command.bind_eq_ok.mp hrun
    contradiction

/-- `append` and `assign` with a position and a count in the other string, and
`assign` where that is the string itself. -/
theorem substring_members_do_iff (hvalid : Valid mem.arr mem.heap list)
    (hsupplied : Supplied mem.supply mem.heap) {str : List UInt8} (hstr : str.length < ptrdiffMax)
    {maxSize pos count : Nat} (hcount : count < wordRange)
    (hreservable : Reservable maxSize
      (outcomeSize ((substringOf str pos count).map (list ++ ·)))) :
    (Does (some mem.arr) (appendSubstring maxSize str pos count) mem
        ((substringOf str pos count).map (list ++ ·)) ↔ AppendsPart mem list str pos count) ∧
      (Does (some mem.arr) (assignSubstring maxSize str pos count) mem
        (substringOf str pos count) ↔ str.length < pos ∨ pos + count < wordRange) ∧
      (Does (some mem.arr) (assignSelf maxSize pos count) mem
        (substringOf list pos count) ↔ list.length < pos ∨ pos + count < wordRange) := by
  have hassign : Reservable maxSize (outcomeSize (substringOf str pos count)) := by
    unfold substringOf at *
    by_cases hpos : str.length < pos
    · rwa [if_pos hpos] at hreservable ⊢
    · rw [if_neg hpos] at hreservable ⊢
      obtain ⟨hmax, hword⟩ := hreservable
      simp only [Except.map, outcomeSize, List.length_append] at hmax hword ⊢
      exact ⟨by omega, by omega⟩
  exact ⟨appendSubstring_does_iff hvalid hsupplied hstr hreservable,
    assignSubstring_does_iff hvalid hsupplied hstr hcount hassign,
    assignSelf_does_iff hvalid hcount⟩

/-- "abc".append("bx", 0, 1), where the string has a 'b' at 1 too, and
"abc".assign("xyz", 1, 2). -/
theorem substring_members_abc :
    Valid (shortMem [97, 98, 99]).arr (shortMem [97, 98, 99]).heap [97, 98, 99] ∧
      Does (some (shortMem [97, 98, 99]).arr) (appendSubstring 1000 [98, 120] 0 1)
        (shortMem [97, 98, 99]) (.ok [97, 98, 99, 98]) ∧
      Does (some (shortMem [97, 98, 99]).arr) (assignSubstring 1000 [120, 121, 122] 1 2)
        (shortMem [97, 98, 99]) (.ok [121, 122]) := by
  have hvalid := valid_shortMem (show [97, 98, 99].length ≤ maxInBufferSize by decide)
  refine ⟨hvalid, ?_, ?_⟩
  · refine (@substring_members_do_iff _ _ hvalid (supplied_shortMem _) [98, 120] (by decide) 1000 0
      1 (by decide) (by decide)).1.mpr ⟨by decide, by decide, by decide, ?_⟩
    rw [Echoes, if_pos (by decide)]
    decide
  · exact (@substring_members_do_iff _ _ hvalid (supplied_shortMem _) [120, 121, 122] (by decide)
      1000 1 2 (by decide) (by decide)).2.1.mpr (Or.inr (by decide))

/-- "abc".append("xyz", 1, 2) gives "abccc", "abc".append("x", 5, 1) throws nothing
and gives "abcbc", and "abc".assign("xyz", 1, npos) is asked for `npos` characters. -/
theorem substring_members_misread :
    ((appendSubstring 1000 [120, 121, 122] 1 2 (shortMem [97, 98, 99])).map fun (_, after) =>
        load after.arr 0 7) = some [5, 97, 98, 99, 99, 99, 0] ∧
      ((appendSubstring 1000 [120] 5 1 (shortMem [97, 98, 99])).map fun (_, after) =>
        load after.arr 0 7) = some [5, 97, 98, 99, 98, 99, 0] ∧
      ¬ Does (some (shortMem [97, 98, 99]).arr) (appendSubstring 1000 [120, 121, 122] 1 2)
        (shortMem [97, 98, 99]) (.ok [97, 98, 99, 121, 122]) ∧
      ¬ Does (some (shortMem [97, 98, 99]).arr) (appendSubstring 1000 [120] 5 1)
        (shortMem [97, 98, 99]) (.error .outOfRange) ∧
      ¬ Does (some (shortMem [97, 98, 99]).arr) (assignSubstring 1000 [120, 121, 122] 1 npos)
        (shortMem [97, 98, 99]) (.ok [121, 122]) := by
  have hvalid := valid_shortMem (show [97, 98, 99].length ≤ maxInBufferSize by decide)
  refine ⟨by decide +kernel, by decide +kernel, fun hdoes => ?_,
    not_does_outOfRange (appendSubstring_faults ..), fun hdoes => ?_⟩
  · have happends := (@appendSubstring_does_iff _ _ [120, 121, 122] 1000 1 2 hvalid
      (supplied_shortMem _) (by decide) (by decide)).mp hdoes
    have hechoes := happends.2.2.2
    rw [Echoes, if_pos (by decide)] at hechoes
    revert hechoes
    decide
  · have hrange := (@assignSubstring_does_iff _ _ [120, 121, 122] 1000 1 npos hvalid
      (supplied_shortMem _) (by decide) (by decide) (by decide)).mp hdoes
    revert hrange
    decide

end Crossbow.BasicString
