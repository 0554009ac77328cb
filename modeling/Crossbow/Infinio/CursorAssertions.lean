import Crossbow.Infinio.MessageSize
import Crossbow.Infinio.Reception

/-! The assertion `mPos <= mEnd` of the cursors. Both loops check the room for a message and
then align the cursor without a check, so the assertion depends on where the buffer ends. -/
namespace Crossbow.Infinio.LocalTaskQueue
open Kernel BatchingMessageSocket

/-! ### The reader -/

section Reader

open Reception

variable {memory : Memory} {stop : Nat}

theorem receiveLoop_stop (hrange : stop + 2 ^ 32 ≤ wordRange) (fuel pos : Nat)
    (hpos : pos ≤ stop + 7) :
    (receiveLoop memory fuel ⟨pos, stop⟩).reader.stop = stop := by
  induction fuel generalizing pos with
  | zero => rfl
  | succ fuel ih =>
      rw [receiveLoop_round (unwrapped hrange hpos)]
      split
      · split
        · rename_i hfits
          exact ih _ (rounded_le hfits)
        · rfl
      · rfl

theorem receiveLoop_pos_le (hrange : stop + 2 ^ 32 ≤ wordRange) (heven : 8 ∣ stop)
    (fuel pos : Nat) (hpos : pos ≤ stop) :
    (receiveLoop memory fuel ⟨pos, stop⟩).reader.pos ≤ stop := by
  induction fuel generalizing pos with
  | zero => exact hpos
  | succ fuel ih =>
      rw [receiveLoop_round (unwrapped hrange (by omega))]
      split
      · rename_i hheader
        split
        · exact ih _ (by omega)
        · exact hheader
      · exact hpos

theorem announced_zero {header : Nat} (hzero : ∀ address < header + 16, memory address = 0) :
    announced memory header = 0 := by
  have hload : load memory (header + 12) 4 = load (fun _ => 0) (header + 12) 4 := by
    apply load_congr
    intro address _ hhigh
    exact hzero address (by omega)
  rw [announced, hload]
  rfl

/-- Empty messages lead to the last header in front of the end, whose message reaches up to
the end; zero bytes in front of the loop are what an empty message needs. -/
theorem exists_overrun (hrange : stop + 2 ^ 32 ≤ wordRange) (hodd : ¬ 8 ∣ stop) (fuel pos : Nat)
    (hheader : pos + 16 ≤ stop) (hfuel : stop < pos + fuel) :
    ∃ memory, (∀ address < pos, memory address = 0) ∧
      stop < (receiveLoop memory fuel ⟨pos, stop⟩).reader.pos := by
  induction fuel generalizing pos with
  | zero => omega
  | succ fuel ih =>
      by_cases hshort : stop - (pos + 16) < 2 ^ 32
      · have hannounced : announced
            (store (fun _ => 0) (pos + 12) (natLE 4 (stop - (pos + 16)))) pos =
            stop - (pos + 16) := by
          have hload := load_store (fun _ => 0) (pos + 12) (natLE 4 (stop - (pos + 16)))
          rw [length_natLE] at hload
          rw [announced, hload]
          exact decodeLE_natLE_of_lt hshort
        obtain ⟨rounds, rfl⟩ : ∃ rounds, fuel = rounds + 1 := ⟨fuel - 1, by omega⟩
        refine ⟨store (fun _ => 0) (pos + 12) (natLE 4 (stop - (pos + 16))), ?_, ?_⟩
        · intro address haddress
          exact store_of_lt _ _ (by omega)
        · rw [receiveLoop_round (unwrapped hrange (by omega)), if_pos hheader, hannounced,
            if_pos (by omega),
            show pos + 16 + (stop - (pos + 16)) = stop by omega]
          simp only
          rw [receiveLoop_round (unwrapped hrange (by omega)), if_neg (by omega)]
          simp only
          omega
      · obtain ⟨memory, hzero, hover⟩ :=
          ih ((pos + 16 + 0 + 7) / 8 * 8) (by omega) (by omega)
        refine ⟨memory, fun address haddress => hzero address (by omega), ?_⟩
        have hempty : announced memory pos = 0 :=
          announced_zero fun address haddress => hzero address (by omega)
        rw [receiveLoop_round (unwrapped hrange (by omega)), if_pos hheader, hempty,
          if_pos (by omega)]
        exact hover

/-- The reader of `onReceive` keeps its assertion on every content exactly when the buffer
ends at a multiple of eight or holds no header. -/
theorem reader_inside_iff {buffer length : Nat} (hrange : buffer + length + 2 ^ 32 ≤ wordRange) :
    (∀ memory, (onReceive memory buffer length).reader.pos ≤
        (onReceive memory buffer length).reader.stop) ↔
      8 ∣ buffer + length ∨ length < 16 := by
  simp only [onReceive_eq _ hrange]
  have hstop (memory : Memory) :=
    @receiveLoop_stop memory _ hrange (length + 1) buffer (by omega)
  simp only [hstop]
  constructor
  · intro hall
    by_contra hneither
    rw [not_or] at hneither
    obtain ⟨memory, _, hover⟩ :=
      exists_overrun hrange hneither.1 (length + 1) buffer (by omega) (by omega)
    exact absurd (hall memory) (Nat.not_le.mpr hover)
  · rintro (heven | hshort) memory
    · exact receiveLoop_pos_le hrange heven _ _ (by omega)
    · rw [receiveLoop_round (unwrapped hrange (by omega)), if_neg (by omega)]
      exact Nat.le_add_right _ _

end Reader

/-! ### The writer -/

def EndsEven (buffer : Buffer) : Prop := 8 ∣ buffer.addr + buffer.length ∨ buffer.length < 16

instance (buffer : Buffer) : Decidable (EndsEven buffer) := inferInstanceAs (Decidable (_ ∨ _))

/-- The 32-bit frame length is exact, or is too long for both the open and the acquired
buffer. -/
def Checked (state : State) (call : Call) : Prop :=
  headerSize + call.length.toNat < 2 ^ 32 ∨
    (state.bufferLength < call.frameLength ∧
      ∀ buffer ∈ call.acquired, buffer.length < call.frameLength)

instance (state : State) (call : Call) : Decidable (Checked state call) :=
  inferInstanceAs (Decidable (_ ∨ _))

def Orderly (run : Run) : Label → Prop
  | .write call | .interrupt call => Checked run.socket call ∧
      ∀ buffer ∈ call.acquired, Buffer.InRange buffer ∧ EndsEven buffer
  | _ => True

instance (run : Run) (label : Label) : Decidable (Orderly run label) :=
  match label with
  | .write call | .interrupt call => inferInstanceAs (Decidable (Checked run.socket call ∧
      ∀ buffer ∈ call.acquired, Buffer.InRange buffer ∧ EndsEven buffer))
  | .enqueue | .swap | .flush _ | .finish => isTrue trivial

theorem supplies_of_orderly (run : Run) (label : Label) (horderly : Orderly run label) :
    Supplies EndsEven run label := by
  cases label with
  | write call => exact horderly.2
  | interrupt call => exact horderly.2
  | enqueue | swap | flush | finish => trivial

section Writer

variable {state : State}

def Inside (state : State) : Prop := state.sendBuffer.pos ≤ state.sendBuffer.stop

theorem inside_null (hwriter : state.sendBuffer = Cursor.ofLength 0 0) : Inside state := by
  unfold Inside
  rw [hwriter]
  exact Nat.zero_le _

theorem Closed.inside (hclosed : Closed state) : Inside state := inside_null hclosed.writer

theorem acquire_inside (state : State) {call : Call}
    (hrange : ∀ buffer ∈ call.acquired, Buffer.InRange buffer) :
    Inside (acquire state call).1 := by
  unfold acquire
  cases hacquired : call.acquired with
  | none => exact inside_null rfl
  | some buffer =>
      obtain ⟨hshort, hend⟩ := hrange buffer hacquired
      have hcursor := (scheduleFlush_frame { state with
        batchSize := 0
        buffer := some buffer
        sendBuffer := Cursor.ofLength buffer.addr buffer.length }).2.1
      have hinside : Inside (scheduleFlush { state with
          batchSize := 0
          buffer := some buffer
          sendBuffer := Cursor.ofLength buffer.addr buffer.length }) := by
        unfold Inside
        rw [hcursor, Cursor.ofLength_eq (by omega)]
        exact Nat.le_add_right _ _
      dsimp only
      split <;> exact hinside

theorem makeRoom_inside (hbatched : Batched state) (hinside : Inside state) (maxBatchSize : Nat)
    {call : Call} (hrange : ∀ buffer ∈ call.acquired, Buffer.InRange buffer) :
    Inside (makeRoom maxBatchSize state call).1 := by
  unfold makeRoom
  split
  · split
    · exact hinside
    · split
      · rename_i hresult
        have hclosed := sendCurrentBuffer_closes hbatched call.sendFails
        rw [hresult] at hclosed
        exact hclosed.inside
      · exact acquire_inside _ hrange
  · exact hinside

theorem Located.frame_inside {buffer : Buffer} {cursor : Cursor} {batchSize : Nat}
    (hlocated : Located buffer cursor batchSize) (heven : EndsEven buffer) {length : UInt32}
    (hroom : cursor.pos + (headerSize + length.toNat) ≤ cursor.stop) :
    ((((cursor.advance 8).advance 4).advance 4 |>.advance length.toNat).align 8).pos ≤
      ((((cursor.advance 8).advance 4).advance 4 |>.advance length.toNat).align 8).stop := by
  have hheader : headerSize = 16 := rfl
  have haccess : cursor.canAccess 16 = true :=
    (hlocated.canAccess_iff (by decide)).mpr (by omega)
  rw [hlocated.advance (by decide) haccess]
  obtain ⟨⟨hshort, hrange⟩, hstop, haddr, _, _⟩ := hlocated
  have halign := align_eight (show cursor.pos + 16 + length.toNat + 8 ≤ wordRange by omega)
  rw [Cursor.align_pos, Cursor.align_stop, halign]
  rcases heven with heven | hsmall
  · rw [← hstop] at heven
    simp only
    omega
  · omega

theorem Prepared.whole_room {maxBatchSize : Nat} {call : Call} {room : State}
    (hprepared : Prepared state call (room, none)) (hopen : room.buffer ≠ none)
    (hchecked : Checked state call)
    (hresult : makeRoom maxBatchSize state call = (room, none)) :
    room.sendBuffer.pos + (headerSize + call.length.toNat) ≤ room.sendBuffer.stop := by
  obtain ⟨buffer, hbuffer⟩ := Option.ne_none_iff_exists'.mp hopen
  have hlocated := hprepared.batched.opened buffer hbuffer
  have hroom : room.sendBuffer.pos + call.frameLength ≤ room.sendBuffer.stop :=
    (hlocated.canAccess_iff (frameLength_lt call)).mp (hprepared.room rfl)
  rcases hchecked with hexact | ⟨hold, hfresh⟩
  · rwa [show call.frameLength = headerSize + call.length.toNat from Nat.mod_eq_of_lt hexact]
      at hroom
  · have haddr : buffer.addr ≤ room.sendBuffer.pos := hlocated.addr_le
    rw [hlocated.stop_eq] at hroom
    have hlong : buffer.length < call.frameLength := by
      rcases @makeRoom_buffer state buffer maxBatchSize call (by rw [hresult]; exact hbuffer) with
        hsame | hacquired
      · simpa [State.bufferLength, hsame] using hold
      · exact hfresh buffer hacquired
    omega

end Writer

section Runs

variable {maxBatchSize : Nat} {run : Run}

theorem room_of_orderly {state room : State} {call : Call} (hbatched : Batched state)
    (hopened : ∀ buffer, state.buffer = some buffer → EndsEven buffer)
    (hchecked : Checked state call)
    (hsupplied : ∀ buffer ∈ call.acquired, Buffer.InRange buffer ∧ EndsEven buffer)
    (hnull : writesNull maxBatchSize state call = false)
    (hresult : makeRoom maxBatchSize state call = (room, none)) :
    ∃ buffer, room.buffer = some buffer ∧ EndsEven buffer ∧
      Located buffer room.sendBuffer room.batchSize ∧
      room.sendBuffer.pos + (headerSize + call.length.toNat) ≤ room.sendBuffer.stop := by
  have hprepared := makeRoom_prepared hbatched maxBatchSize fun buffer hbuffer =>
    (hsupplied buffer hbuffer).1
  rw [hresult] at hprepared
  have hopen : room.buffer ≠ none := by
    intro hnone
    simp [writesNull, hresult, hnone] at hnull
  obtain ⟨buffer, hbuffer⟩ := Option.ne_none_iff_exists'.mp hopen
  have heven : EndsEven buffer := by
    rcases @makeRoom_buffer state buffer maxBatchSize call (by rw [hresult]; exact hbuffer) with
      hsame | hacquired
    · exact hopened buffer hsame
    · exact (hsupplied buffer hacquired).2
  exact ⟨buffer, hbuffer, heven, hprepared.batched.opened buffer hbuffer,
    hprepared.whole_room hopen hchecked hresult⟩

theorem writeFrame_writer (state : State) (id : UInt64) (type length : UInt32)
    (callback : Callback) :
    (writeFrame state id type length callback).1.sendBuffer =
        Cursor.ofLength (wrap (state.base + wrapSub state.sendBuffer.pos state.base % 2 ^ 32))
          ((state.bufferLength + 2 ^ 32 - wrapSub state.sendBuffer.pos state.base % 2 ^ 32) %
            2 ^ 32) ∨
      (writeFrame state id type length callback).1.sendBuffer =
        (((state.sendBuffer.advance 8).advance 4).advance 4 |>.advance length.toNat).align 8 := by
  unfold writeFrame
  dsimp only [Cursor.write]
  split
  · exact .inl rfl
  · exact .inr rfl

theorem writeFrame_inside {state : State} {buffer : Buffer} (hbuffer : state.buffer = some buffer)
    (heven : EndsEven buffer) (hlocated : Located buffer state.sendBuffer state.batchSize)
    (id : UInt64) (type length : UInt32) (callback : Callback)
    (hroom : state.sendBuffer.pos + (headerSize + length.toNat) ≤ state.sendBuffer.stop) :
    Inside (writeFrame state id type length callback).1 := by
  have hbase : state.base = buffer.addr := by simp [State.base, hbuffer]
  have hlength : state.bufferLength = buffer.length := by simp [State.bufferLength, hbuffer]
  have hpos : state.sendBuffer.pos ≤ state.sendBuffer.stop := by omega
  unfold Inside
  rcases writeFrame_writer state id type length callback with hrewound | hframe
  · rw [hrewound, hbase, hlength, hlocated.rewind hpos]
    exact hpos
  · rw [hframe]
    exact hlocated.frame_inside heven hroom

theorem SocketStep.inside {state after : State} {label : Label}
    (hstep : SocketStep maxBatchSize state label after) (hbatched : Batched state)
    (hinside : Inside state) (hopened : ∀ buffer, state.buffer = some buffer → EndsEven buffer)
    (horderly : ∀ call, label = .write call ∨ label = .interrupt call → Checked state call ∧
      ∀ buffer ∈ call.acquired, Buffer.InRange buffer ∧ EndsEven buffer) :
    Inside after := by
  cases hstep with
  | @wrote call hnull =>
      obtain ⟨hchecked, hsupplied⟩ := horderly call (.inl rfl)
      have hroomy := makeRoom_inside hbatched hinside maxBatchSize fun buffer hbuffer =>
        (hsupplied buffer hbuffer).1
      unfold writeMessage
      split
      · rename_i hresult
        rwa [hresult] at hroomy
      · rename_i hresult
        obtain ⟨buffer, hbuffer, heven, hlocated, hroom⟩ :=
          room_of_orderly hbatched hopened hchecked hsupplied hnull hresult
        exact writeFrame_inside hbuffer heven hlocated _ _ _ _ hroom
  | @interrupted call hnull =>
      obtain ⟨hchecked, hsupplied⟩ := horderly call (.inr rfl)
      have hroomy := makeRoom_inside hbatched hinside maxBatchSize fun buffer hbuffer =>
        (hsupplied buffer hbuffer).1
      unfold writeInterrupted
      split
      · rename_i hresult
        rwa [hresult] at hroomy
      · rename_i hresult
        obtain ⟨buffer, hbuffer, heven, hlocated, hroom⟩ :=
          room_of_orderly hbatched hopened hchecked hsupplied hnull hresult
        exact hlocated.frame_inside heven hroom
  | @flushed sendFails => exact (hbatched.flushTask sendFails).inside
  | same => exact hinside

theorem inside_of_orderly (hreach : (machine maxBatchSize).ReachableUnder Orderly run) :
    Inside run.socket := by
  have hall : Inv run ∧ (∀ buffer, run.socket.buffer = some buffer → EndsEven buffer) ∧
      Inside run.socket := by
    apply hreach.invariant fun run => Inv run ∧
      (∀ buffer, run.socket.buffer = some buffer → EndsEven buffer) ∧ Inside run.socket
    · rintro _ ⟨memory, rfl⟩
      exact ⟨⟨scheduled_start memory, Closed.batched ⟨rfl, rfl, rfl⟩, rfl⟩, nofun, inside_null rfl⟩
    · rintro before label after ⟨hinv, hopened, hinside⟩ horderly hnext
      have hsupplies := supplies_of_orderly before label horderly
      refine ⟨hinv.next (inRange_of_supplies before label hsupplies) hnext,
        opened_next hopened hsupplies hnext,
        (socketStep_of_next hnext).inside hinv.batched hinside hopened ?_⟩
      rintro call (rfl | rfl)
      · exact horderly
      · exact horderly
  exact hall.2.2

end Runs

/-! ### Buffers with an uneven end -/

def fillingCall (buffer : Buffer) : Call :=
  { emptyMessage with
    length := UInt32.ofNat (buffer.length - 16)
    acquired := some buffer }

section Uneven

variable {buffer : Buffer}

theorem fillingCall_length (hrange : Buffer.InRange buffer) :
    (fillingCall buffer).length.toNat = buffer.length - 16 := by
  have hshort := hrange.1
  exact UInt32.toNat_ofNat_of_lt' (show buffer.length - 16 < 2 ^ 32 by omega)

theorem fillingCall_frameLength (hrange : Buffer.InRange buffer) (hheader : 16 ≤ buffer.length) :
    (fillingCall buffer).frameLength = buffer.length := by
  have hshort := hrange.1
  unfold Call.frameLength
  rw [fillingCall_length hrange, show headerSize = 16 from rfl, Nat.mod_eq_of_lt (by omega)]
  omega

theorem fillingCall_fits (hrange : Buffer.InRange buffer) (hheader : 16 ≤ buffer.length) :
    (Cursor.ofLength buffer.addr buffer.length).canAccess (fillingCall buffer).frameLength =
      true := by
  have hlocated := located_fresh hrange
  rw [hlocated.canAccess_iff (frameLength_lt _), fillingCall_frameLength hrange hheader,
    hlocated.stop_eq]
  exact Nat.le_refl _

theorem makeRoom_start (maxBatchSize : Nat) (memory : Memory) {call : Call}
    (hlength : 0 < call.frameLength) :
    makeRoom maxBatchSize (start memory) call = acquire (start memory) call := by
  have hfull : (start memory).sendBuffer.canAccess call.frameLength = false := by
    have hframe := frameLength_lt call
    rw [← Bool.not_eq_true]
    exact mt (Cursor.canAccess_null (by simp only [wordRange]; omega)).mp (by omega)
  have hidle : sendCurrentBuffer call.sendFails (start memory) = (start memory, false) := rfl
  unfold makeRoom
  have hclosed : (start memory).buffer = none := rfl
  rw [if_pos (.inl hfull), if_neg (by simp [hclosed]), hidle]

theorem writeFrame_behind (state : State) (id : UInt64) (type length : UInt32)
    {callback : Callback} (hsucceeds : ∀ region, callback.fails region = false) :
    (writeFrame state id type length callback).1.sendBuffer =
      (((state.sendBuffer.advance 8).advance 4).advance 4 |>.advance length.toNat).align 8 := by
  unfold writeFrame
  dsimp only [Cursor.write]
  rw [hsucceeds]
  rfl

theorem makeRoom_fillingCall (maxBatchSize : Nat) (memory : Memory)
    (hrange : Buffer.InRange buffer) (hheader : 16 ≤ buffer.length) :
    ∃ acquired, makeRoom maxBatchSize (start memory) (fillingCall buffer) = (acquired, none) ∧
      acquired.buffer = some buffer ∧
      acquired.sendBuffer = Cursor.ofLength buffer.addr buffer.length := by
  have hframe := fillingCall_frameLength hrange hheader
  obtain ⟨hbuffer, hcursor, _⟩ := scheduleFlush_frame { start memory with
    batchSize := 0
    buffer := some buffer
    sendBuffer := Cursor.ofLength buffer.addr buffer.length }
  refine ⟨_, ?_, hbuffer, hcursor⟩
  rw [makeRoom_start maxBatchSize memory (by omega)]
  exact if_pos ((congrArg (Cursor.canAccess · _) hcursor).trans (fillingCall_fits hrange hheader))

theorem fillingCall_writer (maxBatchSize : Nat) (memory : Memory)
    (hrange : Buffer.InRange buffer) (hheader : 16 ≤ buffer.length) :
    writesNull maxBatchSize (start memory) (fillingCall buffer) = false ∧
      (writeMessage maxBatchSize (start memory) (fillingCall buffer)).1.sendBuffer =
        (Cursor.ofLength (buffer.addr + buffer.length) 0).align 8 := by
  obtain ⟨acquired, hresult, hbuffer, hcursor⟩ :=
    makeRoom_fillingCall maxBatchSize memory hrange hheader
  have hlength := fillingCall_length hrange
  constructor
  · simp [writesNull, hresult, hbuffer]
  · unfold writeMessage
    rw [hresult]
    simp only
    rw [writeFrame_behind acquired _ _ _ fun _ => rfl, hcursor,
      (located_fresh hrange).advance (frameLength_lt _) (fillingCall_fits hrange hheader), hlength]
    obtain ⟨hshort, hend⟩ := hrange
    rw [Cursor.ofLength_eq (by omega), Cursor.ofLength_eq (by omega)]
    congr 1
    ext
    · simp only
      omega
    · rfl

theorem writer_overruns (maxBatchSize : Nat) (hrange : Buffer.InRange buffer)
    (huneven : ¬ EndsEven buffer) :
    ∃ run, (machine maxBatchSize).ReachableUnder InRange run ∧ ¬ Inside run.socket := by
  rw [EndsEven, not_or, Nat.not_lt] at huneven
  obtain ⟨hodd, hheader⟩ := huneven
  obtain ⟨hnull, hwriter⟩ := fillingCall_writer maxBatchSize (fun _ => 0) hrange hheader
  have hnext : (machine maxBatchSize).next ⟨start fun _ => 0, [], []⟩
      (.write (fillingCall buffer)) = some (Run.wrote ⟨start fun _ => 0, [], []⟩
        (writeMessage maxBatchSize (start fun _ => 0) (fillingCall buffer)).1) := by
    simp [machine, next, hnull]
  have hsupplied : InRange ⟨start fun _ => 0, [], []⟩ (.write (fillingCall buffer)) := by
    rintro _ ⟨⟩
    exact hrange
  refine ⟨_, ⟨_, ⟨_, rfl⟩, .step .refl hsupplied hnext⟩, ?_⟩
  obtain ⟨hshort, hend⟩ := hrange
  have halign := align_eight (show buffer.addr + buffer.length + 8 ≤ wordRange by omega)
  have hempty : Cursor.ofLength (buffer.addr + buffer.length) 0 =
      ⟨buffer.addr + buffer.length, buffer.addr + buffer.length⟩ :=
    Cursor.ofLength_eq (by omega)
  unfold Inside Run.wrote
  simp only
  rw [hwriter, hempty, Cursor.align_pos, Cursor.align_stop, halign]
  simp only
  omega

end Uneven

/-- The reader passes its assertion on every content of a buffer exactly when the buffer
ends evenly. The writer passes it in every run whose buffers end evenly and whose 32-bit
frame lengths are checked, and an uneven buffer is enough to break it. -/
theorem cursors_inside_iff (maxBatchSize : Nat) :
    (∀ buffer length, buffer + length + 2 ^ 32 ≤ wordRange →
      ((∀ memory, (onReceive memory buffer length).reader.pos ≤
          (onReceive memory buffer length).reader.stop) ↔
        EndsEven ⟨buffer, length⟩)) ∧
    (∀ run, (machine maxBatchSize).ReachableUnder Orderly run →
      run.socket.sendBuffer.pos ≤ run.socket.sendBuffer.stop) ∧
    (∀ buffer, Buffer.InRange buffer → ¬ EndsEven buffer →
      ∃ run, (machine maxBatchSize).ReachableUnder InRange run ∧
        run.socket.sendBuffer.stop < run.socket.sendBuffer.pos) := by
  refine ⟨fun buffer length hrange => reader_inside_iff hrange,
    fun run hreach => inside_of_orderly hreach, fun buffer hrange huneven => ?_⟩
  obtain ⟨run, hreach, houtside⟩ := writer_overruns maxBatchSize hrange huneven
  exact ⟨run, hreach, Nat.lt_of_not_le houtside⟩

/-- A received buffer and a sent one that end at a multiple of eight, and an uneven one. -/
theorem even_buffers_inside :
    (∀ memory, (onReceive memory 64 40).reader.pos ≤
        (onReceive memory 64 40).reader.stop) ∧
    (∃ run, (machine 8).ReachableUnder Orderly run ∧ run.socket.batchSize = 1 ∧
      run.socket.sendBuffer.pos ≤ run.socket.sendBuffer.stop) ∧
    ∃ run, (machine 8).ReachableUnder InRange run ∧
      run.socket.sendBuffer.stop < run.socket.sendBuffer.pos := by
  obtain ⟨hreader, hwriter, huneven⟩ := cursors_inside_iff 8
  refine ⟨(hreader 64 40 (by decide +kernel)).mpr (by decide), ?_,
    huneven ⟨4096, 20⟩ (by decide +kernel) (by decide)⟩
  obtain ⟨run, hreach, htest⟩ := Machine.exists_reachableUnder_of_replay (machine 8) Orderly
    ⟨start fun _ => 0, [], []⟩ [.write emptyMessage]
    (fun run => decide (run.socket.batchSize = 1)) ⟨_, rfl⟩ (by decide +kernel)
  exact ⟨run, hreach, of_decide_eq_true htest, hwriter run hreach⟩

/-- A message of four bytes fills a buffer of twenty. Both cursors end four bytes behind
it. -/
theorem uneven_buffers_overrun :
    ¬ (onReceive (store (fun _ => 0) 64 (header 5 1 4)) 64 20).reader.pos ≤
        (onReceive (store (fun _ => 0) 64 (header 5 1 4)) 64 20).reader.stop ∧
    ∃ run, (machine 8).ReachableUnder InRange run ∧ run.socket.buffer = some ⟨4096, 20⟩ ∧
      ¬ run.socket.sendBuffer.pos ≤ run.socket.sendBuffer.stop := by
  refine ⟨by decide +kernel, ?_⟩
  obtain ⟨run, hreach, htest⟩ := Machine.exists_reachableUnder_of_replay (machine 8) InRange
    ⟨start fun _ => 0, [], []⟩ [.write { emptyMessage with
      length := 4
      acquired := some ⟨4096, 20⟩ }]
    (fun run => decide (run.socket.buffer = some ⟨4096, 20⟩ ∧
      run.socket.sendBuffer = ⟨4120, 4116⟩)) ⟨_, rfl⟩ (by decide +kernel)
  obtain ⟨hbuffer, hcursor⟩ := of_decide_eq_true htest
  refine ⟨run, hreach, hbuffer, ?_⟩
  rw [hcursor]
  decide

end Crossbow.Infinio.LocalTaskQueue
