import Crossbow.Infinio.LocalTaskQueue

/-! The size check of `writeMessage`. The frame length is a 32-bit sum; as long as it does
not overflow, the check is exact in every reachable state of the socket. -/
namespace Crossbow.Infinio.LocalTaskQueue
open Kernel BatchingMessageSocket

def Supplies (good : Buffer → Prop) (_ : Run) : Label → Prop
  | .write call | .interrupt call => ∀ buffer ∈ call.acquired, Buffer.InRange buffer ∧ good buffer
  | _ => True

instance (good : Buffer → Prop) [DecidablePred good] (run : Run) (label : Label) :
    Decidable (Supplies good run label) :=
  match label with
  | .write call | .interrupt call =>
      inferInstanceAs (Decidable (∀ buffer ∈ call.acquired, Buffer.InRange buffer ∧ good buffer))
  | .enqueue | .swap | .flush _ | .finish => isTrue trivial

theorem inRange_of_supplies {good : Buffer → Prop} (run : Run) (label : Label)
    (hsupplies : Supplies good run label) : InRange run label := by
  cases label with
  | write call => exact fun buffer hbuffer => (hsupplies buffer hbuffer).1
  | interrupt call => exact fun buffer hbuffer => (hsupplies buffer hbuffer).1
  | enqueue | swap | flush | finish => trivial

section Opened

variable {state : State} {buffer : Buffer} {maxBatchSize : Nat}

theorem acquire_buffer {call : Call} (hopen : (acquire state call).1.buffer = some buffer) :
    call.acquired = some buffer := by
  unfold acquire at hopen
  cases hacquired : call.acquired with
  | none => simp [hacquired, State.dropBuffer] at hopen
  | some fresh =>
      simp only [hacquired] at hopen
      split at hopen
      · rwa [(scheduleFlush_frame _).1] at hopen
      · rwa [(scheduleFlush_frame _).1] at hopen

theorem makeRoom_buffer {maxBatchSize : Nat} {call : Call}
    (hopen : (makeRoom maxBatchSize state call).1.buffer = some buffer) :
    state.buffer = some buffer ∨ call.acquired = some buffer := by
  unfold makeRoom at hopen
  split at hopen
  · split at hopen
    · exact .inl hopen
    · split at hopen
      · rename_i hresult
        have hclosed := (sendCurrentBuffer_frame call.sendFails state).1
        rw [hresult] at hclosed
        exact absurd (hclosed.symm.trans hopen) nofun
      · exact .inr (acquire_buffer hopen)
  · exact .inl hopen

theorem writeMessage_buffer {call : Call}
    (hopen : (writeMessage maxBatchSize state call).1.buffer = some buffer) :
    state.buffer = some buffer ∨ call.acquired = some buffer := by
  apply @makeRoom_buffer state buffer maxBatchSize
  unfold writeMessage at hopen
  split at hopen
  · rename_i hresult
    rw [hresult]
    exact hopen
  · rename_i hresult
    rw [hresult]
    rwa [writeFrame_buffer] at hopen

theorem writeInterrupted_buffer {call : Call}
    (hopen : (writeInterrupted maxBatchSize state call).buffer = some buffer) :
    state.buffer = some buffer ∨ call.acquired = some buffer := by
  apply @makeRoom_buffer state buffer maxBatchSize
  unfold writeInterrupted at hopen
  split at hopen
  · rename_i hresult
    rw [hresult]
    exact hopen
  · rename_i hresult
    rw [hresult]
    exact hopen

inductive SocketStep (maxBatchSize : Nat) (state : State) : Label → State → Prop where
  | wrote {call : Call} (hnull : writesNull maxBatchSize state call = false) :
      SocketStep maxBatchSize state (.write call) (writeMessage maxBatchSize state call).1
  | interrupted {call : Call} (hnull : writesNull maxBatchSize state call = false) :
      SocketStep maxBatchSize state (.interrupt call) (writeInterrupted maxBatchSize state call)
  | flushed {sendFails : Bool} :
      SocketStep maxBatchSize state (.flush sendFails) (flushTask sendFails state)
  | same {label : Label} : SocketStep maxBatchSize state label state

theorem socketStep_of_next {run after : Run} {label : Label}
    (hnext : next maxBatchSize run label = some after) :
    SocketStep maxBatchSize run.socket label after.socket := by
  cases label with
  | write call =>
      simp only [next] at hnext
      split at hnext
      · contradiction
      · rename_i hnull
        cases hnext
        exact .wrote (Bool.not_eq_true _ ▸ hnull)
  | interrupt call =>
      simp only [next] at hnext
      split at hnext
      · contradiction
      · rename_i hnull
        cases hnext
        exact .interrupted (Bool.not_eq_true _ ▸ hnull)
  | enqueue =>
      cases hnext
      exact .same
  | swap | finish =>
      simp only [next] at hnext
      split at hnext
      · cases hnext
        exact .same
      · contradiction
  | flush sendFails =>
      simp only [next] at hnext
      split at hnext
      · cases hnext
        exact .flushed
      · contradiction

theorem SocketStep.opens {after : State} {label : Label}
    (hstep : SocketStep maxBatchSize state label after) (hopen : after.buffer = some buffer) :
    state.buffer = some buffer ∨
      ∃ call, (label = .write call ∨ label = .interrupt call) ∧ call.acquired = some buffer := by
  cases hstep with
  | @wrote call =>
      exact (writeMessage_buffer hopen).imp_right fun hacquired => ⟨call, .inl rfl, hacquired⟩
  | @interrupted call =>
      exact (writeInterrupted_buffer hopen).imp_right fun hacquired => ⟨call, .inr rfl, hacquired⟩
  | @flushed sendFails =>
      have hclosed := (flushTask_closes sendFails state).1
      exact absurd (hclosed.symm.trans hopen) nofun
  | same => exact .inl hopen

theorem opened_next {good : Buffer → Prop} {run after : Run} {label : Label}
    (hopened : ∀ buffer, run.socket.buffer = some buffer → good buffer)
    (hsupplies : Supplies good run label) (hnext : next maxBatchSize run label = some after) :
    ∀ buffer, after.socket.buffer = some buffer → good buffer := by
  intro buffer hopen
  rcases (socketStep_of_next hnext).opens hopen with hold | ⟨call, rfl | rfl, hacquired⟩
  · exact hopened buffer hold
  · exact (hsupplies buffer hacquired).2
  · exact (hsupplies buffer hacquired).2

theorem opened_of_supplies {good : Buffer → Prop} {run : Run}
    (hreach : (machine maxBatchSize).ReachableUnder (Supplies good) run) :
    ∀ buffer, run.socket.buffer = some buffer → good buffer := by
  apply hreach.invariant fun run => ∀ buffer, run.socket.buffer = some buffer → good buffer
  · rintro _ ⟨memory, rfl⟩ buffer hopen
    cases hopen
  · intro before label after hopened hsupplies hnext
    exact opened_next hopened hsupplies hnext

end Opened

/-! ### The check -/

def HasRoom (state : State) (length room : Nat) : Prop :=
  ∃ buffer, state.buffer = some buffer ∧ buffer.length = length ∧
    buffer.addr ≤ state.sendBuffer.pos ∧
    state.sendBuffer.pos + room ≤ buffer.addr + buffer.length

theorem acquire_decides (state : State) {call : Call} {fresh : Buffer}
    (hacquired : call.acquired = some fresh) (hrange : Buffer.InRange fresh) :
    (call.frameLength ≤ fresh.length ∧ (acquire state call).2 = none ∧
        HasRoom (acquire state call).1 fresh.length call.frameLength) ∨
      (fresh.length < call.frameLength ∧ (acquire state call).2 = some .messageTooBig) := by
  obtain ⟨hbuffer, hcursor, _⟩ := scheduleFlush_frame { state with
    batchSize := 0
    buffer := some fresh
    sendBuffer := Cursor.ofLength fresh.addr fresh.length }
  have hstop := (located_fresh hrange).stop_eq
  have hcheck := (located_fresh hrange).canAccess_iff (frameLength_lt call)
  unfold acquire
  simp only [hacquired]
  split
  · rename_i hroom
    rw [hcursor] at hroom
    have hfits : fresh.addr + call.frameLength ≤ fresh.addr + fresh.length :=
      hstop ▸ hcheck.mp hroom
    refine .inl ⟨by omega, rfl, fresh, hbuffer, rfl, ?_⟩
    rw [hcursor]
    exact ⟨Nat.le_refl _, hfits⟩
  · rename_i hroom
    rw [hcursor] at hroom
    have hlong : ¬ fresh.addr + call.frameLength ≤ fresh.addr + fresh.length :=
      hstop ▸ mt hcheck.mpr hroom
    exact .inr ⟨by omega, rfl⟩

/-- With buffers of one length, `makeRoom` compares that length with the 32-bit frame
length. The null writer has room for a frame of length zero. -/
theorem Batched.makeRoom_decides {state : State} (hbatched : Batched state) {length : Nat}
    (hopened : ∀ buffer, state.buffer = some buffer → buffer.length = length)
    {maxBatchSize : Nat} (hbatch : 1 ≤ maxBatchSize) {call : Call} (hsend : call.sendFails = false)
    {fresh : Buffer} (hacquired : call.acquired = some fresh) (hrange : Buffer.InRange fresh)
    (hfresh : fresh.length = length) :
    (call.frameLength ≤ length ∧ (makeRoom maxBatchSize state call).2 = none ∧
        (HasRoom (makeRoom maxBatchSize state call).1 length call.frameLength ∨
          call.frameLength = 0)) ∨
      (length < call.frameLength ∧
        (makeRoom maxBatchSize state call).2 = some .messageTooBig) := by
  unfold makeRoom
  split
  · rename_i hfull
    split
    · rename_i hfront
      -- nothing is written yet, so the batch is empty and only the length can be the reason
      obtain ⟨buffer, hbuffer⟩ := Option.isSome_iff_exists.mp hfront.1
      have hlocated := hbatched.opened buffer hbuffer
      have hbase : state.base = buffer.addr := by simp [State.base, hbuffer]
      have hpos : state.sendBuffer.pos = buffer.addr := hfront.2.trans hbase
      have hempty : state.batchSize = 0 := by
        have hmoved := hlocated.moved
        omega
      have hlong := mt (hlocated.canAccess_iff (frameLength_lt call)).mpr
        (Bool.not_eq_true _ ▸ hfull.resolve_right (by omega))
      have hlength := hopened buffer hbuffer
      rw [hlocated.stop_eq, hpos, hlength] at hlong
      exact .inr ⟨by omega, rfl⟩
    · have hsent : (sendCurrentBuffer call.sendFails state).2 = false := by
        rw [hsend]
        unfold sendCurrentBuffer
        split <;> rfl
      split
      · rename_i hresult
        rw [hresult] at hsent
        contradiction
      · rename_i after _
        rw [← hfresh]
        exact (acquire_decides after hacquired hrange).imp_left fun hroom =>
          ⟨hroom.1, hroom.2.1, .inl hroom.2.2⟩
  · rename_i hroom
    rw [not_or, Bool.not_eq_false] at hroom
    have hfits := hroom.1
    left
    cases hbuffer : state.buffer with
    | some buffer =>
        have hlocated := hbatched.opened buffer hbuffer
        rw [hlocated.canAccess_iff (frameLength_lt call)] at hfits
        have hlength := hopened buffer hbuffer
        have haddr := hlocated.addr_le
        rw [hlocated.stop_eq] at hfits
        exact ⟨by omega, rfl, .inl ⟨buffer, hbuffer, hlength, haddr, hfits⟩⟩
    | none =>
        have hframe := frameLength_lt call
        rw [(hbatched.closed hbuffer).writer,
          Cursor.canAccess_null (by simp only [wordRange]; omega)] at hfits
        exact ⟨by omega, rfl, .inr hfits⟩

theorem writeMessage_error_of_room {maxBatchSize : Nat} {state : State} {call : Call}
    (hroom : (makeRoom maxBatchSize state call).2 = none) :
    (writeMessage maxBatchSize state call).2 ≠ some .messageTooBig := by
  unfold writeMessage
  split
  · rename_i hresult
    rw [hresult] at hroom
    cases hroom
  · unfold writeFrame
    dsimp only
    split <;> nofun

theorem writeMessage_error_of_full {maxBatchSize : Nat} {state : State} {call : Call}
    {error : Error} (hfull : (makeRoom maxBatchSize state call).2 = some error) :
    (writeMessage maxBatchSize state call).2 = some error := by
  unfold writeMessage
  split
  · rename_i hresult
    rwa [hresult] at hfull
  · rename_i hresult
    rw [hresult] at hfull
    cases hfull

/-- The error is reported for the messages that are too long for a buffer of the given
length, and the others get a region in the current buffer: `writeFrame` stores the header
at the writer that `makeRoom` leaves and hands out the bytes behind it. -/
def SizeChecked (maxBatchSize length : Nat) (state : State) (call : Call) : Prop :=
  ((writeMessage maxBatchSize state call).2 = some .messageTooBig ↔
      length < headerSize + call.length.toNat) ∧
    (headerSize + call.length.toNat ≤ length →
      (makeRoom maxBatchSize state call).2 = none ∧
        HasRoom (makeRoom maxBatchSize state call).1 length (headerSize + call.length.toNat))

/-- In every reachable state the check is right exactly when the 32-bit sum does not
overflow, or is still longer than the buffers. -/
theorem size_checked_iff (maxBatchSize : Nat) (hbatch : 1 ≤ maxBatchSize) (length : Nat) (run : Run)
    (hreach : (machine maxBatchSize).ReachableUnder
      (Supplies fun buffer => buffer.length = length) run)
    (call : Call) (hsend : call.sendFails = false) (fresh : Buffer)
    (hacquired : call.acquired = some fresh) (hrange : Buffer.InRange fresh)
    (hfresh : fresh.length = length) :
    SizeChecked maxBatchSize length run.socket call ↔
      headerSize + call.length.toNat < 2 ^ 32 ∨
        length < (headerSize + call.length.toNat) % 2 ^ 32 := by
  have hinv := inv_of_reachable (hreach.mono inRange_of_supplies)
  have hdecides := hinv.batched.makeRoom_decides (opened_of_supplies hreach) hbatch hsend
    hacquired hrange hfresh
  have hshort : length < 2 ^ 32 := hfresh ▸ hrange.1
  have hframe : call.frameLength = (headerSize + call.length.toNat) % 2 ^ 32 := rfl
  have hheader : headerSize = 16 := rfl
  have herror : (writeMessage maxBatchSize run.socket call).2 = some .messageTooBig ↔
      length < call.frameLength := by
    rcases hdecides with ⟨hfits, hroom, _⟩ | ⟨hlong, hfull⟩
    · exact iff_of_false (writeMessage_error_of_room hroom) (Nat.not_lt.mpr hfits)
    · exact iff_of_true (writeMessage_error_of_full hfull) hlong
  unfold SizeChecked
  rw [herror, ← hframe]
  by_cases hoverflow : headerSize + call.length.toNat < 2 ^ 32
  · have hexact : call.frameLength = headerSize + call.length.toNat := Nat.mod_eq_of_lt hoverflow
    refine iff_of_true ⟨by rw [hexact], fun hfits => ?_⟩ (.inl hoverflow)
    rcases hdecides with ⟨_, hroom, hinside | hzero⟩ | ⟨hlong, _⟩
    · rw [hexact] at hinside
      exact ⟨hroom, hinside⟩
    · omega
    · omega
  · constructor
    · intro hchecked
      exact .inr (hchecked.1.mpr (by omega))
    · intro hcondition
      have hlong := hcondition.resolve_left hoverflow
      exact ⟨iff_of_true hlong (by omega), fun hfits => by omega⟩

/-- Behind an empty message a message of 40 bytes is checked right. -/
theorem second_message_checked :
    ∃ run, (machine 8).ReachableUnder (Supplies fun buffer => buffer.length = 64) run ∧
      run.socket.batchSize = 1 ∧
      SizeChecked 8 64 run.socket { emptyMessage with length := 40 } := by
  obtain ⟨run, hreach, htest⟩ := Machine.exists_reachableUnder_of_replay (machine 8)
    (Supplies fun buffer => buffer.length = 64) ⟨start fun _ => 0, [], []⟩ [.write emptyMessage]
    (fun run => decide (run.socket.batchSize = 1)) ⟨_, rfl⟩ (by decide +kernel)
  exact ⟨run, hreach, of_decide_eq_true htest,
    (size_checked_iff 8 (by decide) 64 run hreach { emptyMessage with length := 40 } rfl ⟨4096, 64⟩
      rfl (by decide +kernel) rfl).mpr (by decide)⟩

/-- A message of almost four gigabytes has a frame length of 8 in 32 bits. It passes the
check of a buffer of 64 bytes. -/
theorem overlong_message_accepted :
    ∃ run, (machine 8).ReachableUnder (Supplies fun buffer => buffer.length = 64) run ∧
      (writeMessage 8 run.socket { emptyMessage with length := 4294967288 }).2 ≠
        some .messageTooBig ∧
      ¬ SizeChecked 8 64 run.socket { emptyMessage with length := 4294967288 } := by
  have hroom : (makeRoom 8 (start fun _ => 0)
      { emptyMessage with length := 4294967288 }).2 = none := by decide +kernel
  have haccepted := writeMessage_error_of_room hroom
  refine ⟨⟨start fun _ => 0, [], []⟩, ⟨_, ⟨_, rfl⟩, .refl⟩, haccepted, ?_⟩
  intro hchecked
  exact haccepted (hchecked.1.mpr (by decide))

end Crossbow.Infinio.LocalTaskQueue
