import Crossbow.Infinio.BatchingMessageSocket

/-! The flush flag. An open send buffer always has a flush task in the processor's
queue, whatever the sends and the buffer pool do. -/
namespace Crossbow.Infinio.BatchingMessageSocket
open Kernel

structure Scheduled (state : State) : Prop where
  tasks : state.flushTasks = state.flush.toNat
  opened : state.buffer.isSome → state.flush = true

theorem scheduled_start (memory : Memory) : Scheduled (start memory) where
  tasks := rfl
  opened := fun hopen => nomatch hopen

theorem scheduleFlush_eq {state : State} (htasks : state.flushTasks = state.flush.toNat) :
    scheduleFlush state = { state with flush := true, flushTasks := 1 } := by
  unfold scheduleFlush
  cases hflush : state.flush with
  | false => simp [htasks, hflush]
  | true =>
      rw [hflush] at htasks
      rw [if_pos rfl, ← hflush, ← show state.flushTasks = 1 from htasks]

theorem sendCurrentBuffer_frame (sendFails : Bool) (state : State) :
    (sendCurrentBuffer sendFails state).1.buffer = none ∧
      (sendCurrentBuffer sendFails state).1.flush = state.flush ∧
      (sendCurrentBuffer sendFails state).1.flushTasks = state.flushTasks ∧
      (sendCurrentBuffer sendFails state).1.accepted = state.accepted := by
  unfold sendCurrentBuffer
  split
  · rename_i hbuffer
    exact ⟨hbuffer, rfl, rfl, rfl⟩
  · exact ⟨rfl, rfl, rfl, rfl⟩

theorem writeFrame_buffer (state : State) (id : UInt64) (type length : UInt32)
    (callback : Callback) :
    (writeFrame state id type length callback).1.buffer = state.buffer := by
  unfold writeFrame
  dsimp only
  split <;> rfl

variable {state : State}

theorem Scheduled.sendCurrentBuffer (hscheduled : Scheduled state)
    (sendFails : Bool) : Scheduled (sendCurrentBuffer sendFails state).1 := by
  obtain ⟨hbuffer, hflush, htasks, _⟩ := sendCurrentBuffer_frame sendFails state
  refine ⟨?_, ?_⟩
  · rw [hflush, htasks, hscheduled.tasks]
  · intro hopen
    rw [hbuffer] at hopen
    cases hopen

theorem Scheduled.acquire (hscheduled : Scheduled state) (call : Call) :
    Scheduled (acquire state call).1 := by
  unfold BatchingMessageSocket.acquire
  cases call.acquired with
  | none => exact ⟨hscheduled.tasks, fun hopen => nomatch hopen⟩
  | some buffer =>
      have hflush := @scheduleFlush_eq { state with
        batchSize := 0
        buffer := some buffer
        sendBuffer := Cursor.ofLength buffer.addr buffer.length } hscheduled.tasks
      simp only [hflush]
      split <;> exact ⟨rfl, fun _ => rfl⟩

theorem Scheduled.makeRoom {state : State} (hscheduled : Scheduled state) (maxBatchSize : Nat)
    (call : Call) : Scheduled (makeRoom maxBatchSize state call).1 := by
  unfold BatchingMessageSocket.makeRoom
  split
  · split
    · exact hscheduled
    · have hsent := hscheduled.sendCurrentBuffer call.sendFails
      split
      · rename_i hresult
        rwa [hresult] at hsent
      · rename_i hresult
        rw [hresult] at hsent
        exact hsent.acquire call
  · exact hscheduled

theorem Scheduled.writeFrame (hscheduled : Scheduled state) (id : UInt64) (type length : UInt32)
    (callback : Callback) :
    Scheduled (writeFrame state id type length callback).1 := by
  unfold BatchingMessageSocket.writeFrame
  dsimp only
  split <;> exact ⟨hscheduled.tasks, hscheduled.opened⟩

theorem Scheduled.writeMessage (hscheduled : Scheduled state) (maxBatchSize : Nat)
    (call : Call) : Scheduled (writeMessage maxBatchSize state call).1 := by
  have hroom := hscheduled.makeRoom maxBatchSize call
  unfold BatchingMessageSocket.writeMessage
  split
  · rename_i hresult
    rwa [hresult] at hroom
  · rename_i hresult
    rw [hresult] at hroom
    exact hroom.writeFrame _ _ _ _

theorem flushTask_closes (sendFails : Bool) (state : State) :
    (flushTask sendFails state).buffer = none ∧
      (flushTask sendFails state).flush = false ∧
      (flushTask sendFails state).flushTasks = state.flushTasks - 1 ∧
      (flushTask sendFails state).accepted = state.accepted := by
  have hframe := sendCurrentBuffer_frame sendFails
    { state with flush := false, flushTasks := state.flushTasks - 1 }
  unfold flushTask
  simp only
  split
  · split
    · exact ⟨rfl, rfl, rfl, rfl⟩
    · split
      · rename_i hresult
        rw [hresult] at hframe
        exact hframe
      · rename_i hresult
        rw [hresult] at hframe
        exact hframe
  · rename_i hclosed
    exact ⟨Option.not_isSome_iff_eq_none.mp hclosed, rfl, rfl, rfl⟩

theorem Scheduled.flushTask (hscheduled : Scheduled state) (sendFails : Bool) :
    Scheduled (flushTask sendFails state) := by
  obtain ⟨hbuffer, hflush, htasks, _⟩ := flushTask_closes sendFails state
  have hsingle := Bool.toNat_le state.flush
  refine ⟨?_, ?_⟩
  · rw [hflush, htasks, hscheduled.tasks, Bool.toNat_false]
    omega
  · intro hopen
    rw [hbuffer] at hopen
    cases hopen

theorem Scheduled.next {maxBatchSize : Nat} {after : State} {label : Label}
    (hscheduled : Scheduled state) (hnext : next maxBatchSize state label = some after) :
    Scheduled after := by
  cases label with
  | write call =>
      cases hnext
      exact hscheduled.writeMessage maxBatchSize call
  | flush sendFails =>
      simp only [BatchingMessageSocket.next] at hnext
      split at hnext
      · contradiction
      · cases hnext
        exact hscheduled.flushTask sendFails

theorem scheduled_of_reachable {maxBatchSize : Nat} {allowed : State → Label → Prop}
    (hreach : (machine maxBatchSize).ReachableUnder allowed state) :
    Scheduled state := by
  apply hreach.invariant Scheduled
  · rintro _ ⟨memory, rfl⟩
    exact scheduled_start memory
  · intro _ _ _ hscheduled _ hnext
    exact hscheduled.next hnext

end Crossbow.Infinio.BatchingMessageSocket
