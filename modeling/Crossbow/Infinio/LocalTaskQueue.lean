import Crossbow.Infinio.FlushSchedule
import Mathlib.Data.List.Count

/-! The flush task in the processor's local queue. `poll` takes the whole queue and runs it
task by task, so a flush task waits in the queue or in the part that was taken. The batch
count follows the position of the writer in the open buffer. -/
namespace Crossbow.Infinio.LocalTaskQueue
open Kernel BatchingMessageSocket

inductive Task where
  | flush
  | other
  deriving DecidableEq, Repr

/-- `mTaskQueue` is the member and `taskQueue` the local variable of `poll`. -/
structure Run where
  socket : State
  mTaskQueue : List Task
  taskQueue : List Task

def Run.tasks (run : Run) : List Task := run.taskQueue ++ run.mTaskQueue

/-- `writeMessage` left by an exception of the callback: the writer stays behind the frame. -/
def writeInterrupted (maxBatchSize : Nat) (state : State) (call : Call) : State :=
  match makeRoom maxBatchSize state call with
  | (state, some _) => state
  | (state, none) =>
      let (memory, writer) := Cursor.write state.memory state.sendBuffer 8 call.id.toNat
      let (memory, writer) := Cursor.write memory writer 4 call.type.toNat
      let (memory, writer) := Cursor.write memory writer 4 call.length.toNat
      let region := load memory writer.pos call.length.toNat
      { state with
        memory := store memory writer.pos (call.callback.fill region)
        sendBuffer := (writer.advance call.length.toNat).align 8 }

/-- The header would be written through a null pointer: `HEADER_SIZE + messageLength` is zero
in 32 bits and there is no buffer. -/
def writesNull (maxBatchSize : Nat) (state : State) (call : Call) : Bool :=
  match makeRoom maxBatchSize state call with
  | (state, none) => state.buffer.isNone
  | (_, some _) => false

inductive Label where
  | write (call : Call)
  | interrupt (call : Call)
  | enqueue
  | swap
  | flush (sendFails : Bool)
  | finish

def Run.wrote (run : Run) (socket : State) : Run :=
  { run with
    socket := socket
    mTaskQueue := run.mTaskQueue ++
      List.replicate (socket.flushTasks - run.socket.flushTasks) Task.flush }

def next (maxBatchSize : Nat) (run : Run) : Label → Option Run
  | .write call =>
      if writesNull maxBatchSize run.socket call then none
      else some (run.wrote (writeMessage maxBatchSize run.socket call).1)
  | .interrupt call =>
      if writesNull maxBatchSize run.socket call then none
      else some (run.wrote (writeInterrupted maxBatchSize run.socket call))
  | .enqueue => some { run with mTaskQueue := run.mTaskQueue ++ [.other] }
  | .swap =>
      if run.taskQueue = [] ∧ run.mTaskQueue ≠ [] then some ⟨run.socket, [], run.mTaskQueue⟩
      else none
  | .flush sendFails =>
      match run.taskQueue with
      | .flush :: rest => some ⟨flushTask sendFails run.socket, run.mTaskQueue, rest⟩
      | _ => none
  | .finish =>
      match run.taskQueue with
      | .other :: rest => some { run with taskQueue := rest }
      | _ => none

def machine (maxBatchSize : Nat) : Machine Run Label where
  initial := fun run => ∃ memory, run = ⟨start memory, [], []⟩
  next := next maxBatchSize

/-- Buffer lengths have 32 bits, and a buffer is not at the end of the address space. -/
def Buffer.InRange (buffer : Buffer) : Prop :=
  buffer.length < 2 ^ 32 ∧ buffer.addr + 2 ^ 34 ≤ wordRange

def InRange (_ : Run) : Label → Prop
  | .write call | .interrupt call => ∀ buffer ∈ call.acquired, Buffer.InRange buffer
  | _ => True

instance (buffer : Buffer) : Decidable (Buffer.InRange buffer) :=
  inferInstanceAs (Decidable (_ ∧ _))

instance (run : Run) (label : Label) : Decidable (InRange run label) :=
  match label with
  | .write call | .interrupt call =>
      inferInstanceAs (Decidable (∀ buffer ∈ call.acquired, Buffer.InRange buffer))
  | .enqueue | .swap | .flush _ | .finish => isTrue trivial

structure Located (buffer : Buffer) (cursor : Cursor) (batchSize : Nat) : Prop where
  range : Buffer.InRange buffer
  stop_eq : cursor.stop = buffer.addr + buffer.length
  addr_le : buffer.addr ≤ cursor.pos
  -- a frame starts inside the buffer and is shorter than `2 ^ 32 + 16` bytes
  near : cursor.pos < buffer.addr + 2 ^ 33 + 32
  -- a message that was accepted moved the writer
  moved : 0 < batchSize → buffer.addr < cursor.pos

theorem Located.canAccess_iff {buffer : Buffer} {cursor : Cursor} {batchSize : Nat}
    (hlocated : Located buffer cursor batchSize) {room : Nat} (hroom : room < 2 ^ 32) :
    cursor.canAccess room = true ↔ cursor.pos + room ≤ cursor.stop := by
  have hrange := hlocated.range.2
  have hnear := hlocated.near
  exact Cursor.canAccess_iff (by omega)

theorem Located.rewind {buffer : Buffer} {cursor : Cursor} {batchSize : Nat}
    (hlocated : Located buffer cursor batchSize) (hpos : cursor.pos ≤ cursor.stop) :
    Cursor.ofLength (wrap (buffer.addr + wrapSub cursor.pos buffer.addr % 2 ^ 32))
      ((buffer.length + 2 ^ 32 - wrapSub cursor.pos buffer.addr % 2 ^ 32) % 2 ^ 32) = cursor := by
  obtain ⟨hshort, hrange⟩ := hlocated.range
  exact Cursor.ofLength_rewind hlocated.addr_le hpos hlocated.stop_eq hshort (by omega)

theorem frameLength_lt (call : Call) : call.frameLength < 2 ^ 32 :=
  Nat.mod_lt _ (Nat.two_pow_pos 32)

theorem located_fresh {buffer : Buffer} (hrange : Buffer.InRange buffer) :
    Located buffer (Cursor.ofLength buffer.addr buffer.length) 0 := by
  obtain ⟨hshort, hend⟩ := hrange
  rw [Cursor.ofLength_eq (by omega)]
  exact ⟨⟨hshort, hend⟩, rfl, Nat.le_refl _, by simp only; omega, by simp⟩

structure Closed (state : State) : Prop where
  buffer : state.buffer = none
  batchSize : state.batchSize = 0
  writer : state.sendBuffer = Cursor.ofLength 0 0

structure Batched (state : State) : Prop where
  closed : state.buffer = none → Closed state
  opened : ∀ buffer, state.buffer = some buffer → Located buffer state.sendBuffer state.batchSize

section Socket

variable {state : State}

theorem Closed.batched (hclosed : Closed state) : Batched state := by
  refine ⟨fun _ => hclosed, ?_⟩
  intro buffer hopen
  rw [hclosed.buffer] at hopen
  contradiction

theorem sendCurrentBuffer_closes (hbatched : Batched state) (sendFails : Bool) :
    Closed (sendCurrentBuffer sendFails state).1 := by
  unfold sendCurrentBuffer
  split
  · rename_i hbuffer
    exact hbatched.closed hbuffer
  · exact ⟨rfl, rfl, rfl⟩

theorem scheduleFlush_frame (state : State) :
    (scheduleFlush state).buffer = state.buffer ∧
      (scheduleFlush state).sendBuffer = state.sendBuffer ∧
      (scheduleFlush state).batchSize = state.batchSize ∧
      state.flushTasks ≤ (scheduleFlush state).flushTasks := by
  unfold scheduleFlush
  split
  · exact ⟨rfl, rfl, rfl, Nat.le_refl _⟩
  · exact ⟨rfl, rfl, rfl, Nat.le_succ _⟩

/-- What `makeRoom` leaves: no room only together with an error. -/
structure Prepared (before : State) (call : Call) (result : State × Option Error) : Prop where
  batched : Batched result.1
  room : result.2 = none → result.1.sendBuffer.canAccess call.frameLength = true
  tasks : before.flushTasks ≤ result.1.flushTasks

theorem acquire_prepared (state : State) {call : Call}
    (hrange : ∀ buffer ∈ call.acquired, Buffer.InRange buffer) :
    Prepared state call (acquire state call) := by
  unfold acquire
  cases hacquired : call.acquired with
  | none => exact ⟨Closed.batched ⟨rfl, rfl, rfl⟩, by simp, Nat.le_refl _⟩
  | some buffer =>
      dsimp only
      obtain ⟨hbuffer, hcursor, hsize, htasks⟩ := scheduleFlush_frame { state with
        batchSize := 0
        buffer := some buffer
        sendBuffer := Cursor.ofLength buffer.addr buffer.length }
      have hbatched : Batched (scheduleFlush { state with
          batchSize := 0
          buffer := some buffer
          sendBuffer := Cursor.ofLength buffer.addr buffer.length }) := by
        refine ⟨fun hnone => absurd (hbuffer.symm.trans hnone) (by simp), ?_⟩
        intro other hother
        rw [hbuffer] at hother
        cases hother
        rw [hcursor, hsize]
        exact located_fresh (hrange buffer hacquired)
      split
      · rename_i hroom
        exact ⟨hbatched, fun _ => hroom, htasks⟩
      · exact ⟨hbatched, by simp, htasks⟩

theorem makeRoom_prepared (hbatched : Batched state) (maxBatchSize : Nat) {call : Call}
    (hrange : ∀ buffer ∈ call.acquired, Buffer.InRange buffer) :
    Prepared state call (makeRoom maxBatchSize state call) := by
  unfold makeRoom
  split
  · split
    · exact ⟨hbatched, by simp, Nat.le_refl _⟩
    · have hclosed := sendCurrentBuffer_closes hbatched call.sendFails
      have htasks := (sendCurrentBuffer_frame call.sendFails state).2.2.1
      split
      · rename_i hresult
        rw [hresult] at hclosed htasks
        exact ⟨hclosed.batched, by simp, htasks.ge⟩
      · rename_i hresult
        rw [hresult] at htasks
        obtain ⟨hprepared, hroom, hmore⟩ := acquire_prepared _ hrange
        exact ⟨hprepared, hroom, htasks.symm.trans_le hmore⟩
  · rename_i hfits
    refine ⟨hbatched, ?_, Nat.le_refl _⟩
    rw [not_or, Bool.not_eq_false] at hfits
    exact fun _ => hfits.1

theorem Located.advance {buffer : Buffer} {cursor : Cursor} {batchSize : Nat}
    (hlocated : Located buffer cursor batchSize) {room : Nat} (hshort : room < 2 ^ 32)
    (hroom : cursor.canAccess room = true) (length : UInt32) :
    (((cursor.advance 8).advance 4).advance 4).advance length.toNat =
      ⟨cursor.pos + 16 + length.toNat, cursor.stop⟩ := by
  have hpos := (hlocated.canAccess_iff hshort).mp hroom
  have hstop := hlocated.stop_eq
  obtain ⟨hbuffer, hrange⟩ := hlocated.range
  have hlength := length.toNat_lt
  rw [Cursor.advance_advance, Cursor.advance_advance, Cursor.advance_advance,
    Cursor.advance_eq (by omega)]
  exact congrArg (Cursor.mk · cursor.stop) (by omega)

theorem Located.frame {buffer : Buffer} {cursor : Cursor} {batchSize : Nat}
    (hlocated : Located buffer cursor batchSize) {room : Nat} (hshort : room < 2 ^ 32)
    (hroom : cursor.canAccess room = true) (length : UInt32) (size : Nat) :
    Located buffer ((((cursor.advance 8).advance 4).advance 4 |>.advance length.toNat).align 8)
      size := by
  have hpos := (hlocated.canAccess_iff hshort).mp hroom
  have hlength := length.toNat_lt
  rw [hlocated.advance hshort hroom]
  obtain ⟨⟨hbuffer, hrange⟩, hstop, haddr, _, _⟩ := hlocated
  have halign : align (cursor.pos + 16 + length.toNat) 8 =
      (cursor.pos + 16 + length.toNat + 7) / 8 * 8 := align_eight (by omega)
  have hpast : buffer.addr < align (cursor.pos + 16 + length.toNat) 8 := by
    rw [halign]
    omega
  have hnear : align (cursor.pos + 16 + length.toNat) 8 < buffer.addr + 2 ^ 33 + 32 := by
    rw [halign]
    omega
  simp only [Cursor.align]
  exact ⟨⟨hbuffer, hrange⟩, hstop, Nat.le_of_lt hpast, hnear, fun _ => hpast⟩

theorem Batched.writeFrame (hbatched : Batched state) (hopen : state.buffer ≠ none) {room : Nat}
    (hshort : room < 2 ^ 32) (hroom : state.sendBuffer.canAccess room = true) (id : UInt64)
    (type length : UInt32)
    (callback : Callback) : Batched (writeFrame state id type length callback).1 := by
  obtain ⟨buffer, hbuffer⟩ := Option.ne_none_iff_exists'.mp hopen
  have hlocated := hbatched.opened buffer hbuffer
  have hbase : state.base = buffer.addr := by simp [State.base, hbuffer]
  have hlength : state.bufferLength = buffer.length := by simp [State.bufferLength, hbuffer]
  have hpos : state.sendBuffer.pos ≤ state.sendBuffer.stop :=
    (Nat.le_add_right _ _).trans ((hlocated.canAccess_iff hshort).mp hroom)
  unfold BatchingMessageSocket.writeFrame
  dsimp only [Cursor.write]
  split
  · refine ⟨fun hnone => absurd hnone hopen, ?_⟩
    intro other hother
    cases hbuffer.symm.trans hother
    rw [hbase, hlength, hlocated.rewind hpos]
    exact hlocated
  · refine ⟨fun hnone => absurd hnone hopen, ?_⟩
    intro other hother
    cases hbuffer.symm.trans hother
    exact hlocated.frame hshort hroom length _

theorem writeFrame_tasks (state : State) (id : UInt64) (type length : UInt32)
    (callback : Callback) :
    (writeFrame state id type length callback).1.flushTasks = state.flushTasks := by
  unfold writeFrame
  dsimp only
  split <;> rfl

theorem Batched.writeMessage (hbatched : Batched state) {maxBatchSize : Nat} {call : Call}
    (hrange : ∀ buffer ∈ call.acquired, Buffer.InRange buffer)
    (hnull : writesNull maxBatchSize state call = false) :
    Batched (writeMessage maxBatchSize state call).1 ∧
      state.flushTasks ≤ (writeMessage maxBatchSize state call).1.flushTasks := by
  obtain ⟨hprepared, hroom, htasks⟩ := makeRoom_prepared hbatched maxBatchSize hrange
  unfold writesNull at hnull
  unfold BatchingMessageSocket.writeMessage
  split
  · rename_i hresult
    rw [hresult] at hprepared htasks
    exact ⟨hprepared, htasks⟩
  · rename_i room hresult
    rw [hresult] at hprepared hroom htasks hnull
    refine ⟨hprepared.writeFrame ?_ (frameLength_lt call) (hroom rfl) _ _ _ _, ?_⟩
    · rintro (hnone : room.buffer = none)
      simp [hnone] at hnull
    · rw [writeFrame_tasks]
      exact htasks

theorem Batched.length_of_writesNull (hbatched : Batched state) {maxBatchSize : Nat} {call : Call}
    (hrange : ∀ buffer ∈ call.acquired, Buffer.InRange buffer)
    (hnull : writesNull maxBatchSize state call = true) :
    headerSize + call.length.toNat = 2 ^ 32 := by
  obtain ⟨hprepared, hroom, _⟩ := makeRoom_prepared hbatched maxBatchSize hrange
  unfold writesNull at hnull
  split at hnull
  · rename_i room hresult
    rw [hresult] at hprepared hroom
    have hclosed : Closed room := hprepared.closed (Option.isNone_iff_eq_none.mp hnull)
    have hspace := hroom rfl
    have hlength := call.length.toNat_lt
    have hframe := frameLength_lt call
    rw [hclosed.writer, Cursor.canAccess_null (by simp only [wordRange]; omega)] at hspace
    simp only [Call.frameLength, headerSize] at hspace ⊢
    omega
  · contradiction

theorem Batched.writeInterrupted (hbatched : Batched state) {maxBatchSize : Nat} {call : Call}
    (hrange : ∀ buffer ∈ call.acquired, Buffer.InRange buffer)
    (hnull : writesNull maxBatchSize state call = false) :
    Batched (writeInterrupted maxBatchSize state call) ∧
      state.flushTasks ≤ (writeInterrupted maxBatchSize state call).flushTasks := by
  obtain ⟨hprepared, hroom, htasks⟩ := makeRoom_prepared hbatched maxBatchSize hrange
  unfold writesNull at hnull
  unfold LocalTaskQueue.writeInterrupted
  split
  · rename_i hresult
    rw [hresult] at hprepared htasks
    exact ⟨hprepared, htasks⟩
  · rename_i room hresult
    rw [hresult] at hprepared hroom htasks hnull
    have hopen : room.buffer ≠ none := by
      intro hnone
      simp [hnone] at hnull
    refine ⟨⟨fun hnone => absurd hnone hopen, ?_⟩, htasks⟩
    · intro buffer hbuffer
      exact (hprepared.opened buffer hbuffer).frame (frameLength_lt call) (hroom rfl) call.length _

theorem Batched.flushTask (hbatched : Batched state) (sendFails : Bool) :
    Closed (flushTask sendFails state) := by
  have hbegun : Batched { state with flush := false, flushTasks := state.flushTasks - 1 } :=
    ⟨fun hnone => ⟨hnone, (hbatched.closed hnone).batchSize, (hbatched.closed hnone).writer⟩,
      hbatched.opened⟩
  have hclosed := sendCurrentBuffer_closes hbegun sendFails
  unfold BatchingMessageSocket.flushTask
  dsimp only
  split
  · rename_i hopen
    split
    · rename_i hfront
      obtain ⟨buffer, hbuffer⟩ := Option.isSome_iff_exists.mp hopen
      have hmoved := (hbatched.opened buffer hbuffer).moved
      have hbase : state.base = buffer.addr := by simp [State.base, hbuffer]
      have hpos : state.sendBuffer.pos = buffer.addr := hfront.trans hbase
      exact ⟨rfl, show state.batchSize = 0 by omega, rfl⟩
    · split
      · rename_i hresult
        rw [hresult] at hclosed
        exact ⟨hclosed.buffer, hclosed.batchSize, hclosed.writer⟩
      · rename_i hresult
        rw [hresult] at hclosed
        exact hclosed
  · rename_i hnone
    exact hbegun.closed (Option.not_isSome_iff_eq_none.mp hnone)

theorem scheduled_writeInterrupted (hscheduled : Scheduled state) (maxBatchSize : Nat)
    (call : Call) : Scheduled (writeInterrupted maxBatchSize state call) := by
  have hroom := hscheduled.makeRoom maxBatchSize call
  unfold writeInterrupted
  split
  · rename_i hresult
    rwa [hresult] at hroom
  · rename_i hresult
    rw [hresult] at hroom
    exact ⟨hroom.tasks, hroom.opened⟩

end Socket

structure Inv (run : Run) : Prop where
  scheduled : Scheduled run.socket
  batched : Batched run.socket
  count : run.tasks.count .flush = run.socket.flushTasks

section Steps

variable {run : Run}

theorem Inv.wrote (hinv : Inv run) {socket : State} (hscheduled : Scheduled socket)
    (hbatched : Batched socket) (htasks : run.socket.flushTasks ≤ socket.flushTasks) :
    Inv (run.wrote socket) := by
  refine ⟨hscheduled, hbatched, ?_⟩
  have hcount := hinv.count
  simp only [Run.tasks, Run.wrote, List.count_append, List.count_replicate_self] at hcount ⊢
  omega

theorem Inv.next {maxBatchSize : Nat} {label : Label} {after : Run} (hinv : Inv run)
    (hrange : InRange run label) (hnext : next maxBatchSize run label = some after) :
    Inv after := by
  have hcount := hinv.count
  cases label with
  | write call =>
      simp only [LocalTaskQueue.next] at hnext
      split at hnext
      · contradiction
      · rename_i hnull
        cases hnext
        obtain ⟨hbatched, htasks⟩ :=
          hinv.batched.writeMessage hrange (Bool.not_eq_true _ ▸ hnull)
        exact hinv.wrote (hinv.scheduled.writeMessage maxBatchSize call) hbatched htasks
  | interrupt call =>
      simp only [LocalTaskQueue.next] at hnext
      split at hnext
      · contradiction
      · rename_i hnull
        cases hnext
        obtain ⟨hbatched, htasks⟩ :=
          hinv.batched.writeInterrupted hrange (Bool.not_eq_true _ ▸ hnull)
        exact hinv.wrote (scheduled_writeInterrupted hinv.scheduled maxBatchSize call)
          hbatched htasks
  | enqueue =>
      cases hnext
      refine ⟨hinv.scheduled, hinv.batched, ?_⟩
      simpa [Run.tasks] using hcount
  | swap =>
      simp only [LocalTaskQueue.next] at hnext
      split at hnext
      · rename_i hempty
        cases hnext
        refine ⟨hinv.scheduled, hinv.batched, ?_⟩
        simpa [Run.tasks, hempty.1] using hcount
      · contradiction
  | flush sendFails =>
      simp only [LocalTaskQueue.next] at hnext
      split at hnext
      · rename_i rest hfront
        cases hnext
        have hclosed := hinv.batched.flushTask sendFails
        have htasks := (flushTask_closes sendFails run.socket).2.2.1
        refine ⟨hinv.scheduled.flushTask sendFails, hclosed.batched, ?_⟩
        simp only [Run.tasks, hfront, List.cons_append, List.count_cons_self] at hcount ⊢
        omega
      · contradiction
  | finish =>
      simp only [LocalTaskQueue.next] at hnext
      split at hnext
      · rename_i rest hfront
        cases hnext
        refine ⟨hinv.scheduled, hinv.batched, ?_⟩
        simpa [Run.tasks, hfront] using hcount
      · contradiction

theorem inv_of_reachable {maxBatchSize : Nat}
    (hreach : (machine maxBatchSize).ReachableUnder InRange run) : Inv run := by
  apply hreach.invariant Inv
  · rintro _ ⟨memory, rfl⟩
    exact ⟨scheduled_start memory, Closed.batched ⟨rfl, rfl, rfl⟩, rfl⟩
  · intro before label after hinv hrange hnext
    exact hinv.next hrange hnext

end Steps

/-- Between tasks the flag tells whether the one flush task is queued, an open buffer has it
queued, and when it has run the buffer is closed and the batch empty. The only call that does
not return writes a header for a length that overflows to nothing. -/
theorem flush_task_queued (maxBatchSize : Nat) (run : Run)
    (hreach : (machine maxBatchSize).ReachableUnder InRange run) :
    (run.socket.flush = true ↔ run.tasks.count .flush = 1) ∧ run.tasks.count .flush ≤ 1 ∧
      (run.socket.buffer.isSome → run.tasks.count .flush = 1) ∧
      (∀ sendFails after, next maxBatchSize run (.flush sendFails) = some after →
        after.socket.buffer = none ∧ after.socket.batchSize = 0) ∧
      ∀ call, InRange run (.write call) → next maxBatchSize run (.write call) = none →
        headerSize + call.length.toNat = 2 ^ 32 := by
  obtain ⟨hscheduled, hbatched, hcount⟩ := inv_of_reachable hreach
  rw [hcount, hscheduled.tasks]
  refine ⟨?_, Bool.toNat_le _, ?_, ?_, ?_⟩
  · cases run.socket.flush <;> simp
  · intro hopen
    rw [hscheduled.opened hopen]
    rfl
  · intro sendFails after hnext
    simp only [next] at hnext
    split at hnext
    · cases hnext
      have hclosed := hbatched.flushTask sendFails
      exact ⟨hclosed.buffer, hclosed.batchSize⟩
    · contradiction
  · intro call hrange hnext
    simp only [next] at hnext
    split at hnext
    · rename_i hnull
      exact hbatched.length_of_writesNull hrange hnull
    · contradiction

def emptyMessage : Call where
  id := 1
  type := 2
  length := 0
  callback := ⟨List.map fun _ => 0, fun _ => List.length_map _, fun _ => false⟩
  sendFails := false
  acquired := some ⟨4096, 64⟩

/-- The second message is written while `poll` has already taken the flush task. -/
theorem written_behind_taken_task :
    ∃ run, (machine 8).ReachableUnder InRange run ∧ run.taskQueue = [.flush, .other] ∧
      run.socket.batchSize = 2 ∧ run.socket.flush = true ∧ run.tasks.count .flush = 1 ∧
      ∀ after, next 8 run (.flush true) = some after → after.socket.batchSize = 0 := by
  obtain ⟨run, hreach, htest⟩ := Machine.exists_reachableUnder_of_replay (machine 8) InRange
    ⟨start fun _ => 0, [], []⟩
    [.write emptyMessage, .enqueue, .swap, .write emptyMessage]
    (fun run => decide (run.taskQueue = [.flush, .other] ∧ run.socket.batchSize = 2 ∧
      run.socket.flush = true)) ⟨_, rfl⟩ (by decide +kernel)
  obtain ⟨htaken, hsize, hflush⟩ := of_decide_eq_true htest
  obtain ⟨hflag, _, _, hran, _⟩ := flush_task_queued 8 run hreach
  exact ⟨run, hreach, htaken, hsize, hflush, hflag.mp hflush,
    fun after hnext => (hran true after hnext).2⟩

end Crossbow.Infinio.LocalTaskQueue
