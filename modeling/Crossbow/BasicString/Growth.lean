import Crossbow.BasicString.Ownership

/-! Members that change the storage: `init`, `reserve`, `shrink_to_fit` and the
destructor. -/
namespace Crossbow.BasicString
open Kernel

/-- The allocator hands out a block that is not in use. -/
def Supplied (supply : Option (Nat × Memory)) (heap : Heap) : Prop :=
  match supply with
  | some (address, _) => 0 < address ∧ address < wordRange ∧ (heap address).isNone
  | none => False

instance (supply : Option (Nat × Memory)) (heap : Heap) : Decidable (Supplied supply heap) := by
  unfold Supplied
  split <;> infer_instance

variable {count : Nat} {heap : Heap} {arr : Memory} {text : List UInt8}

theorem Supplied.some {supply : Option (Nat × Memory)} (hsupplied : Supplied supply heap) :
    ∃ address bytes, supply = Option.some (address, bytes) := by
  cases supply with
  | none => exact hsupplied.elim
  | some given => exact ⟨given.1, given.2, rfl⟩

variable {mem : Mem} {room : Nat}

theorem Shaped.ptr_ne_free {address : Nat} (hshaped : Shaped arr heap room)
    (hfree : heap address = none) :
    getPtr arr ≠ .block address := by
  intro hptr
  cases hshaped with
  | inline hmark _ => rw [getPtr_inline hmark] at hptr; contradiction
  | onHeap own block _ hown hblock _ _ _ =>
      cases hown.symm.trans hptr
      rw [hfree] at hblock
      contradiction

theorem Supplied.edit {after : Mem} {size : Nat} {text : Memory}
    (hsupplied : Supplied mem.supply mem.heap) (hshaped : Shaped mem.arr mem.heap room)
    (hedited : Edited mem after room size text) : Supplied after.supply after.heap := by
  unfold Supplied at hsupplied ⊢
  rw [hedited.supply]
  split at hsupplied
  · rename_i address bytes _
    obtain ⟨hpos, hword, hfree⟩ := hsupplied
    refine ⟨hpos, hword, ?_⟩
    rw [hedited.others address (hshaped.ptr_ne_free (Option.isNone_iff_eq_none.mp hfree))]
    exact hfree
  · contradiction

theorem allocate_returns (hsupplied : Supplied mem.supply mem.heap) (count : Nat) :
    Command.Returns (allocate count) mem fun address after =>
      0 < address ∧ address < wordRange ∧ mem.heap address = none ∧ ∃ bytes,
        mem.supply = some (address, bytes) ∧
        after = { mem with heap := Function.update mem.heap address (some ⟨count, bytes⟩) } := by
  unfold Supplied at hsupplied
  split at hsupplied
  · rename_i address bytes hsupply
    obtain ⟨hpos, hword, hfree⟩ := hsupplied
    have hnone : mem.heap address = none := Option.isNone_iff_eq_none.mp hfree
    refine ⟨address, _, ?_, hpos, hword, hnone, bytes, hsupply, rfl⟩
    simp only [allocate, hsupply, hnone]
  · contradiction

theorem deallocate_returns {address : Nat} {block : Block}
    (hblock : mem.heap address = some block) (count : Nat) :
    Command.Returns (deallocate (.block address) count) mem fun _ after =>
      after.arr = mem.arr ∧ after.heap = Function.update mem.heap address none := by
  refine ⟨(), { mem with
    heap := Function.update mem.heap address none
    released := mem.released ++ [(block.length, count)] }, ?_, rfl, rfl⟩
  simp only [deallocate, hblock]

theorem copyChars_block (hshaped : Shaped mem.arr mem.heap room) {address start index count : Nat}
    {block : Block} (hother : getPtr mem.arr ≠ .block address)
    (hblock : mem.heap address = some block) (hsource : start + count ≤ room + 1)
    (htarget : index + count ≤ block.length) :
    Command.Returns (copyChars (getPtr mem.arr) start (.block address) index count) mem
      fun _ after => after = { mem with
        heap := Function.update mem.heap address (some { block with
          bytes := store block.bytes index (load (chars mem.arr mem.heap) start count) }) } := by
  induction count generalizing mem start index block with
  | zero =>
      refine .pure ?_
      have hsame : Function.update mem.heap address (some block) = mem.heap := by
        rw [← hblock, Function.update_eq_self]
      simp only [load, List.ofFn_zero, store_nil, hsame]
  | succ count ih =>
      unfold copyChars
      refine ((Edited.refl hshaped).read (show start ≤ room by omega)).seq
        fun ch same hread => ?_
      rw [hread.1, hread.2]
      apply Command.Returns.bind
      refine ⟨(), _, write_block hblock (show index < block.length by omega) _, ?_⟩
      generalize hheap : Function.update mem.heap address (some { block with
        bytes := store block.bytes index [chars mem.arr mem.heap start] }) = heap
      have hnew : heap address = some { block with
          bytes := store block.bytes index [chars mem.arr mem.heap start] } := by
        rw [← hheap, Function.update_self]
      have hkeep : ∀ other, getPtr mem.arr = .block other → heap other = mem.heap other := by
        intro other hown
        have hne : other ≠ address := fun heq => hother (heq ▸ hown)
        rw [← hheap, Function.update_of_ne hne]
      have hrest := @ih { mem with heap := heap } (hshaped.heap_congr hkeep) (start + 1)
        (index + 1) _ hother hnew (by omega) (show index + 1 + count ≤ block.length by omega)
      refine hrest.mono ?_
      rintro _ _ rfl
      have hjoin := store_append block.bytes index [chars mem.arr mem.heap start]
        (load (chars mem.arr mem.heap) (start + 1) count)
      rw [List.length_singleton] at hjoin
      rw [Nat.add_comm count 1, load_append, load_one]
      simp only [chars_heap_congr hkeep, hjoin]
      rw [← hheap, Function.update_idem]

theorem Shaped.relocated {newCap address : Nat} {block : Block} (hmark : arr 0 = nullchar)
    (hblock : heap address = some block) (hcap : maxInBufferSize < newCap)
    (hlength : newCap < block.length) (hword : newCap < wordRange)
    (haddress : address < wordRange) :
    Shaped (setPtr (setCapacity arr newCap) address) heap newCap ∧
      getPtr (setPtr (setCapacity arr newCap) address) = .block address ∧
      getSize (setPtr (setCapacity arr newCap) address) = getSize arr ∧
      chars (setPtr (setCapacity arr newCap) address) heap = block.bytes := by
  have hmark' : setCapacity arr newCap 0 = nullchar := (mark_setCapacity arr newCap).trans hmark
  have hptr := getPtr_setPtr hmark' haddress
  refine ⟨.onHeap address block ((mark_setPtr _ address).trans hmark') hptr hblock ?_ hcap hlength,
    hptr, ?_, chars_block hptr hblock⟩
  · rw [getCapacity_setPtr hmark', getCapacity_setCapacity hmark hword]
  · rw [getSize_setPtr hmark', getSize_setCapacity hmark]

/-- What making room leaves: at least `needed` places, and size, characters and
terminator as they were. -/
structure Roomy (before after : Mem) (needed room : Nat) : Prop where
  shaped : Shaped after.arr after.heap room
  needed : needed ≤ room
  size : getSize after.arr = getSize before.arr
  fits : getSize before.arr ≤ room
  text : load (chars after.arr after.heap) 0 (getSize before.arr + 1) =
    load (chars before.arr before.heap) 0 (getSize before.arr + 1)
  transfer : Transfer (some before.arr) before.heap (some after.arr) after.heap

/-- The array of an inline string once its text has moved to a block. -/
def converted (arr : Memory) (size newCap address : Nat) : Memory :=
  setPtr (setCapacity (setSize (store arr 0 [nullchar]) size) newCap) address

/-- What getting a larger block leaves in addition: the block handed out is the
string's, and its old one is released. -/
structure Grown (before after : Mem) (newCap : Nat) : Prop extends
    Roomy before after newCap newCap where
  moved : ∃ address bytes, before.supply = some (address, bytes) ∧
    getPtr after.arr = .block address ∧
    (before.arr 0 ≠ nullchar →
      after.arr = converted before.arr (getSize before.arr) newCap address)
  freed : ∀ own, getPtr before.arr = .block own → after.heap own = none

theorem not_owns_inline (hmark : arr 0 ≠ nullchar) (address : Nat) :
    ¬ Owns (some arr) address := by
  rw [owns_some, getPtr_inline hmark]
  nofun

theorem editArr_returns {change : Memory → Memory} {post : Unit → Mem → Prop}
    (hpost : post () { mem with arr := change mem.arr }) :
    Command.Returns (editArr change) mem post :=
  .modify hpost

theorem load_copied (bytes source : Memory) (count : Nat) :
    load (store bytes 0 (load source 0 count)) 0 count = load source 0 count := by
  have hload := load_store bytes 0 (load source 0 count)
  rwa [length_load] at hload

theorem copyChars_fresh (hshaped : Shaped mem.arr mem.heap room) {address length : Nat}
    (hfree : mem.heap address = none) (hsource : count ≤ room + 1) (htarget : count ≤ length)
    (bytes : Memory) :
    Command.Returns (copyChars (getPtr mem.arr) 0 (.block address) 0 count)
      { mem with heap := Function.update mem.heap address (some ⟨length, bytes⟩) }
      fun _ after => ∃ block : Block, block.length = length ∧
        load block.bytes 0 count = load (chars mem.arr mem.heap) 0 count ∧
        after = { mem with heap := Function.update mem.heap address (some block) } := by
  have hother := hshaped.ptr_ne_free hfree
  generalize hheap : Function.update mem.heap address (some ⟨length, bytes⟩) = heap
  have hnew : heap address = some ⟨length, bytes⟩ := by
    rw [← hheap, Function.update_self]
  have hkeep : ∀ own, getPtr mem.arr = .block own → heap own = mem.heap own := by
    intro own hown
    have hne : own ≠ address := fun heq => hother (heq ▸ hown)
    rw [← hheap, Function.update_of_ne hne]
  have hcopy := @copyChars_block { mem with heap := heap } room (hshaped.heap_congr hkeep) address
    0 0 count ⟨length, bytes⟩ hother hnew (by omega) (by simpa using htarget)
  refine hcopy.mono fun _ after hafter =>
    ⟨⟨length, store bytes 0 (load (chars mem.arr mem.heap) 0 count)⟩, rfl, load_copied .., ?_⟩
  simp only [chars_heap_congr hkeep] at hafter
  rw [hafter, ← hheap, Function.update_idem]

theorem grow_returns (hshaped : Shaped mem.arr mem.heap room)
    (hsupplied : Supplied mem.supply mem.heap) (hsize : getSize mem.arr ≤ room) {newCap : Nat}
    (hcap : maxInBufferSize < newCap) (hfits : getSize mem.arr ≤ newCap)
    (hword : newCap + 1 < wordRange) :
    Command.Returns (grow newCap) mem fun _ after => Grown mem after newCap := by
  unfold grow
  apply Command.Returns.ofGet
  apply (allocate_returns hsupplied _).seq
  rintro address _ ⟨hpos, haddress, hfree, bytes, hsupply, rfl⟩
  rw [if_neg (by omega), wrap_of_lt hword]
  have hother := hshaped.ptr_ne_free hfree
  apply (copyChars_fresh hshaped hfree (show getSize mem.arr + 1 ≤ room + 1 by omega)
    (show getSize mem.arr + 1 ≤ newCap + 1 by omega) bytes).seq
  rintro _ _ ⟨block, hlength', htext, rfl⟩
  have hlength : newCap < block.length := by omega
  have hcapWord : newCap < wordRange := by omega
  cases hshaped with
  | inline hmark hroom =>
      rw [if_pos hmark]
      have hmark' : setSize (store mem.arr 0 [nullchar]) (getSize mem.arr) 0 = nullchar :=
        mark_setSize_heap (store_self ..) _
      obtain ⟨hshaped', hptr, hsize', hchars⟩ := Shaped.relocated hmark'
        (Function.update_self address (some block) mem.heap) hcap hlength hcapWord haddress
      refine .bind (editArr_returns (.bind (editArr_returns ?_)))
      refine .bind (editArr_returns (editArr_returns ?_))
      refine ⟨⟨hshaped', Nat.le_refl _, ?_, hfits, ?_, ?_⟩,
        ⟨address, bytes, hsupply, hptr, fun _ => rfl⟩,
        fun own hown => absurd ((owns_some ..).mpr hown) (not_owns_inline hmark own)⟩
      · exact hsize'.trans (getSize_setSize (store_self ..) (by omega))
      · rw [hchars, htext]
      · exact .acquire (not_owns_inline hmark) hptr hfree block
  | onHeap own old hmark hown hold _ _ _ =>
      rw [if_neg (by simp [hmark]), hown]
      have hne : own ≠ address := fun heq => hother (heq ▸ hown)
      have hlive : Function.update mem.heap address (some block) own = some old := by
        rw [Function.update_of_ne hne, hold]
      have hnew' : Function.update (Function.update mem.heap address (some block)) own none
          address = some block := by
        rw [Function.update_of_ne hne.symm, Function.update_self]
      obtain ⟨hshaped', hptr, hsize', hchars⟩ :=
        Shaped.relocated hmark hnew' hcap hlength hcapWord haddress
      refine (@deallocate_returns { mem with heap := _ } own old hlive _).seq ?_
      rintro _ ⟨_, _, _, _⟩ ⟨rfl, rfl⟩
      refine .bind (editArr_returns (editArr_returns ?_))
      refine ⟨⟨hshaped', Nat.le_refl _, hsize', hfits, ?_, ?_⟩,
        ⟨address, bytes, hsupply, hptr, fun hinline => absurd hmark hinline⟩,
        fun other hother => ?_⟩
      · rw [hchars, htext]
      · exact .exchange ((owns_some ..).mpr hown) hptr hfree block
      · cases hown.symm.trans hother
        exact Function.update_self ..

/-- A size that `reserve` accepts and whose double is still a `size_t`. -/
def Affordable (maxSize count : Nat) : Prop := count ≤ maxSize ∧ 2 * count < wordRange

instance (maxSize count : Nat) : Decidable (Affordable maxSize count) := by
  unfold Affordable
  infer_instance

/-- A size that `reserve` accepts, with the place for the terminator. -/
def Reservable (maxSize count : Nat) : Prop := count ≤ maxSize ∧ count + 1 < wordRange

instance (maxSize count : Nat) : Decidable (Reservable maxSize count) := by
  unfold Reservable
  infer_instance

theorem Affordable.reservable {maxSize : Nat} (haffordable : Affordable maxSize count) :
    Reservable maxSize count := by
  have hdouble := haffordable.2
  have hrange : 1 < wordRange := by decide
  exact ⟨haffordable.1, by omega⟩

theorem Shaped.room_ge (hshaped : Shaped arr heap room) :
    maxInBufferSize ≤ room := by
  cases hshaped with
  | inline _ hroom => exact Nat.le_of_eq hroom.symm
  | onHeap _ _ _ _ _ _ hroom _ => exact Nat.le_of_lt hroom

section Reserve

variable (hshaped : Shaped mem.arr mem.heap room) {maxSize newCap : Nat}
include hshaped

theorem reserve_enough (henough : newCap ≤ room) :
    reserve maxSize newCap mem = some (.ok (), mem) := by
  rw [reserve, Command.get_bind, hshaped.capacity, if_pos henough]
  rfl

variable (hsupplied : Supplied mem.supply mem.heap) (hsize : getSize mem.arr ≤ room)
  (hreservable : Reservable maxSize newCap)
include hsupplied hsize hreservable

theorem reserve_grows (hmore : room < newCap) :
    Command.Returns (reserve maxSize newCap) mem
      fun _ after => Grown mem after (max (wrap (room * 2)) newCap) := by
  obtain ⟨hmax, hword⟩ := hreservable
  have hthirty := hshaped.room_ge
  -- a doubled capacity is even, also if it wraps, so it is not the largest word
  have hdouble := wrap_lt (room * 2)
  have heven := wrap_mod_two (room * 2)
  have hrange : wordRange % 2 = 0 := by decide
  unfold reserve
  apply Command.Returns.ofGet
  rw [hshaped.capacity, if_neg (by omega), if_neg (by omega)]
  exact grow_returns hshaped hsupplied hsize (by omega) (by omega) (by omega)

theorem reserve_returns :
    Command.Returns (reserve maxSize newCap) mem
      fun _ after => ∃ newRoom, Roomy mem after newCap newRoom := by
  by_cases henough : newCap ≤ room
  · exact ⟨(), mem, reserve_enough hshaped henough, room, hshaped, henough, rfl, hsize, rfl,
      .keep fun _ => Iff.rfl⟩
  · have hgrows := reserve_grows hshaped hsupplied hsize hreservable (by omega)
    refine hgrows.mono fun _ after hgrown => ⟨_, hgrown.shaped, ?_, hgrown.size, hgrown.fits,
      hgrown.text, hgrown.transfer⟩
    exact Nat.le_max_right ..

end Reserve

/-- Raw memory after `init`: room for `count` characters, and the terminator in
its place. -/
structure Begun (heap : Heap) (count : Nat) (after : Mem) (room : Nat) : Prop where
  shaped : Shaped after.arr after.heap room
  needed : count ≤ room
  size : getSize after.arr = count
  terminated : chars after.arr after.heap count = 0
  transfer : Transfer none heap (some after.arr) after.heap

theorem Begun.ofTerminate (hshaped : Shaped mem.arr mem.heap room) (hneeded : count ≤ room)
    (hsize : getSize mem.arr = count) (htransfer : Transfer none heap (some mem.arr) mem.heap) :
    Command.Returns terminate mem fun _ after => ∃ room, Begun heap count after room := by
  have hedited := Edited.refl hshaped
  rw [hsize] at hedited
  refine (hedited.terminate hneeded).mono fun _ after hafter => ?_
  refine ⟨room, hafter.shaped, hneeded, hafter.size, ?_, htransfer.edit hafter⟩
  rw [hafter.text, store_self]

theorem init_returns (hsupplied : Supplied mem.supply mem.heap) (hdouble : 2 * count < wordRange) :
    Command.Returns (init count) mem
      fun _ after => ∃ room, Begun mem.heap count after room := by
  unfold init
  by_cases hsmall : count ≤ maxInBufferSize
  · rw [if_pos hsmall]
    have hmark : store mem.arr 0 [UInt8.ofNat count] 0 ≠ nullchar := by
      rw [store_self]
      exact small_ne_nullchar hsmall
    have hthirty : maxInBufferSize = 30 := rfl
    refine .bind (editArr_returns ?_)
    refine Begun.ofTerminate (.inline hmark rfl) hsmall ?_ (.keep fun address => ?_)
    · rw [getSize_inline hmark, store_self, UInt8.toNat_ofNat']
      exact Nat.mod_eq_of_lt (by omega)
    · exact iff_of_false (not_owns_inline hmark address) (owns_none address)
  · rw [if_neg hsmall]
    have hthirty : maxInBufferSize = 30 := rfl
    refine .bind (editArr_returns (.bind (editArr_returns ?_)))
    refine (@allocate_returns { mem with arr := setSize _ count } hsupplied _).seq ?_
    rintro address _ ⟨_, haddress, hfree, bytes, _, rfl⟩
    rw [wrap_of_lt (by omega)]
    have hmark := mark_setSize_heap (store_self mem.arr 0 nullchar) count
    obtain ⟨hshaped, hptr, hsize, _⟩ := Shaped.relocated hmark
      (Function.update_self address (some ⟨count + 1, bytes⟩) mem.heap) (by omega)
      (Nat.lt_succ_self count) (by omega) haddress
    refine .bind (editArr_returns (.bind (editArr_returns ?_)))
    refine Begun.ofTerminate hshaped (Nat.le_refl _) ?_ (.acquire owns_none hptr hfree _)
    exact hsize.trans (getSize_setSize (store_self ..) (by omega))

theorem Holds.becomes (hholds : Holds mem.arr mem.heap text) :
    Becomes (some mem.arr) mem.heap text mem :=
  ⟨hholds, .keep fun _ => Iff.rfl⟩

theorem load_terminated (text : Memory) (size : Nat) :
    load (store text size [0]) 0 size = load text 0 size :=
  load_store_disjoint text (Or.inl (by omega))

theorem copyChars_buffer {own start index count : Nat} {block : Block}
    (hblock : mem.heap own = some block) (hsource : start + count ≤ block.length)
    (htarget : 1 + index + count ≤ arrSize) :
    Command.Returns (copyChars (.block own) start .buffer index count) mem
      fun _ after => after = { mem with
        arr := store mem.arr (1 + index) (load block.bytes start count) } := by
  induction count generalizing mem start index with
  | zero => exact .pure (by simp [load])
  | succ count ih =>
      unfold copyChars
      apply Command.Returns.bind
      refine ⟨block.bytes start, mem, ?_, ?_⟩
      · simp only [read, hblock]
        rw [if_pos (by omega)]
      apply Command.Returns.bind
      refine ⟨(), _, if_pos (show 1 + index < arrSize by omega), ?_⟩
      refine (@ih { mem with arr := store mem.arr (1 + index) [block.bytes start] } (start + 1)
        (index + 1) hblock (by omega) (by omega)).mono ?_
      rintro _ _ rfl
      have hjoin := store_append mem.arr (1 + index) [block.bytes start]
        (load block.bytes (start + 1) count)
      rw [List.length_singleton] at hjoin
      rw [Nat.add_comm count 1, load_append, load_one, ← hjoin]
      rfl

theorem setCapacity_setPtr (arr : Memory) (count address : Nat) :
    setCapacity (setPtr arr address) count = setPtr (setCapacity arr count) address :=
  store_comm arr (by simp [capacityOffset, pointerOffset])

theorem shrinkToBuffer_returns {own : Nat} {block : Block} (hptr : getPtr mem.arr = .block own)
    (hblock : mem.heap own = some block) (hcontent : load block.bytes 0 text.length = text)
    (hlength : text.length ≤ block.length) (hsmall : text.length ≤ maxInBufferSize) :
    Command.Returns (do
        editArr (store · 0 [UInt8.ofNat text.length])
        copyChars (.block own) 0 .buffer 0 text.length
        deallocate (.block own) count
        write .buffer text.length 0 : Op Unit) mem
      fun _ after => Becomes (some mem.arr) mem.heap text after := by
  have hthirty : maxInBufferSize = 30 := rfl
  have harr : arrSize = 32 := rfl
  refine .bind (editArr_returns ?_)
  refine (@copyChars_buffer { mem with arr := store _ 0 _ } own 0 0 text.length block hblock
    (by omega) (by omega)).seq ?_
  rintro _ _ rfl
  rw [hcontent]
  refine (@deallocate_returns { mem with arr := store _ 1 text } own block hblock count).seq ?_
  intro _ after ⟨hafter, hheap⟩
  replace hafter : after.arr = store (store mem.arr 0 [UInt8.ofNat text.length]) (1 + 0) text :=
    hafter
  replace hheap : after.heap = Function.update mem.heap own none := hheap
  have hsize : after.arr 0 = UInt8.ofNat text.length := by
    rw [hafter, store_of_lt _ _ (by omega), store_self]
  have hmark : after.arr 0 ≠ nullchar := hsize ▸ small_ne_nullchar hsmall
  have hedited := Edited.refl (.inline hmark rfl : Shaped after.arr after.heap maxInBufferSize)
  rw [getSize_inline hmark, hsize, UInt8.toNat_ofNat', Nat.mod_eq_of_lt (by omega),
    chars_inline hmark, hafter, store_behind] at hedited
  have hwrite := hedited.write hsmall 0
  rw [getPtr_inline hmark] at hwrite
  have htransfer : Transfer (some mem.arr) mem.heap (some after.arr) after.heap := by
    rw [hheap]
    exact .release ((owns_some ..).mpr hptr) (not_owns_inline hmark)
  refine hwrite.mono fun _ last hlast => .ofEdited htransfer hlast hsmall ?_ (store_self ..)
  rw [load_terminated, load_store]

theorem shrinkToBlock_returns {own : Nat} (hholds : Holds mem.arr mem.heap text)
    (hsupplied : Supplied mem.supply mem.heap) (hmark : mem.arr 0 = nullchar)
    (hptr : getPtr mem.arr = .block own) (hlive : mem.heap own ≠ none)
    (hlarge : maxInBufferSize < text.length) (hword : text.length + 1 < wordRange) :
    Command.Returns (do
        let nptr ← allocate (wrap (text.length + 1))
        copyChars (.block own) 0 (.block nptr) 0 text.length
        write (.block nptr) text.length 0
        deallocate (.block own) count
        editArr (setPtr · nptr)
        editArr (setCapacity · text.length) : Op Unit) mem
      fun _ after => Becomes (some mem.arr) mem.heap text after := by
  rw [wrap_of_lt hword]
  apply (allocate_returns hsupplied _).seq
  rintro address _ ⟨_, haddress, hfree, bytes, _, rfl⟩
  have hfits := hholds.fits
  have hother := hholds.shaped.ptr_ne_free hfree
  have hne : own ≠ address := fun heq => hother (heq ▸ hptr)
  have hcopy := copyChars_fresh hholds.shaped hfree
    (show text.length ≤ getCapacity mem.arr + 1 by omega)
    (show text.length ≤ text.length + 1 by omega) bytes
  rw [hptr, hholds.content] at hcopy
  apply hcopy.seq
  rintro _ _ ⟨block, hlength, hcontent, rfl⟩
  apply Command.Returns.bind
  refine ⟨(), _, write_block (Function.update_self ..) (by omega) 0, ?_⟩
  simp only [Function.update_idem]
  generalize hblock : Block.mk block.length _ = last
  have hlast : text.length < last.length := by rw [← hblock]; exact hlength ▸ Nat.lt_succ_self _
  have hbytes : last.bytes = store block.bytes text.length [0] := by rw [← hblock]
  obtain ⟨old, hold⟩ := Option.ne_none_iff_exists'.mp hlive
  have hold' : Function.update mem.heap address (some last) own = some old := by
    rw [Function.update_of_ne hne, hold]
  have hnew : Function.update (Function.update mem.heap address (some last)) own none
      address = some last := by
    rw [Function.update_of_ne hne.symm, Function.update_self]
  obtain ⟨hshaped, hptr', hsize, hchars⟩ :=
    Shaped.relocated hmark hnew hlarge hlast (show text.length < wordRange by omega) haddress
  refine (@deallocate_returns { mem with heap := _ } own old hold' count).seq ?_
  rintro _ ⟨_, _, _, _⟩ ⟨rfl, rfl⟩
  refine .bind (editArr_returns (editArr_returns ?_))
  simp only [setCapacity_setPtr]
  have hcapacity := hshaped.capacity
  refine ⟨⟨?_, hsize.trans hholds.size, Nat.le_of_eq hcapacity.symm, ?_, ?_⟩,
    .exchange ((owns_some ..).mpr hptr) hptr' hfree last⟩
  · rw [hcapacity]; exact hshaped
  · rw [hchars, hbytes, load_terminated, hcontent]
  · rw [hchars, hbytes, store_self]

theorem shrinkToFit_returns (hholds : Holds mem.arr mem.heap text)
    (hsupplied : Supplied mem.supply mem.heap) :
    Command.Returns shrinkToFit mem
      fun _ after => Becomes (some mem.arr) mem.heap text after := by
  unfold shrinkToFit
  apply Command.Returns.ofGet
  simp only [hholds.size]
  have hfits := hholds.fits
  have hword := hholds.shaped.room_lt
  by_cases hexact : text.length = getCapacity mem.arr
  · rw [if_pos hexact]
    exact .pure hholds.becomes
  rw [if_neg hexact]
  by_cases hinline : getCapacity mem.arr ≤ maxInBufferSize
  · rw [if_pos hinline]
    exact .pure hholds.becomes
  rw [if_neg hinline]
  cases hholds.shaped with
  | inline hmark hroom => omega
  | onHeap own block hmark hptr hblock hcapacity hroom hlength =>
      rw [hptr]
      by_cases hsmall : text.length ≤ maxInBufferSize
      · rw [if_pos hsmall]
        have hcontent := hholds.content
        rw [chars_block hptr hblock] at hcontent
        exact shrinkToBuffer_returns hptr hblock hcontent (by omega) hsmall
      · rw [if_neg hsmall]
        exact shrinkToBlock_returns hholds hsupplied hmark hptr (by simp [hblock]) (by omega)
          (by omega)

theorem release_returns (hholds : Holds mem.arr mem.heap text) (hmark : mem.arr 0 = nullchar)
    (count : Nat) :
    Command.Returns (deallocate (getPtr mem.arr) count) mem
      fun _ after => Transfer (some mem.arr) mem.heap none after.heap := by
  cases hholds.shaped with
  | inline hinline _ => contradiction
  | onHeap own block _ hptr hblock _ _ _ =>
      rw [hptr]
      refine (deallocate_returns hblock count).mono fun _ after hafter => ?_
      rw [hafter.2]
      exact .release ((owns_some ..).mpr hptr) owns_none

theorem transfer_inline (hmark : arr 0 ≠ nullchar) (heap : Heap) :
    Transfer (some arr) heap none heap :=
  .keep fun address => iff_of_false (owns_none address) (not_owns_inline hmark address)

theorem destruct_returns {text : List UInt8} (hholds : Holds mem.arr mem.heap text) :
    Command.Returns destruct mem
      fun _ after => Transfer (some mem.arr) mem.heap none after.heap := by
  unfold destruct
  apply Command.Returns.ofGet
  by_cases hmark : mem.arr 0 = nullchar
  · rw [if_pos hmark]
    refine (release_returns hholds hmark _).seq fun _ after hafter => ?_
    exact editArr_returns hafter
  · rw [if_neg hmark]
    exact .pure (transfer_inline hmark mem.heap)

theorem moveRelease_returns {text : List UInt8} (hholds : Holds mem.arr mem.heap text) :
    Command.Returns moveRelease mem
      fun _ after => Transfer (some mem.arr) mem.heap none after.heap := by
  unfold moveRelease
  apply Command.Returns.ofGet
  by_cases hmark : mem.arr 0 = nullchar
  · rw [if_pos hmark]
    exact release_returns hholds hmark _
  · rw [if_neg hmark]
    exact .pure (transfer_inline hmark mem.heap)

end Crossbow.BasicString
