import Crossbow.Infinio.TaskQueue

/-! No lost wake-up. The handshake is right for as long as the tickets of the queue are
distinct; when `_insert_place` wraps around to zero, `read` takes the queue for empty. -/
namespace Crossbow.Infinio.TaskQueue
open Kernel Concurrent SingleConsumerQueue
open EventLoop (Caller counter)

variable {Thread Task : Type} [DecidableEq Thread]

/-- The poll thread never sleeps over a task, as long as the tickets of the queue do not
wrap around. -/
theorem no_lost_wakeup (queueSize pollCycles : Nat) (state : State Thread Task)
    (hreach : (machine queueSize pollCycles).Reachable state)
    (hcalls : state.queue.tickets.length < 2 ^ 64) : ¬ state.Lost := by
  have hinv : state.queue.tickets.length < wordRange → Inv queueSize state := by
    apply hreach.invariant fun state => state.queue.tickets.length < wordRange → Inv queueSize state
    · rintro _ rfl _
      exact inv_start
    · intro before label after ih _ hnext hbound
      have hgrow := calls_le hnext
      exact (ih (by omega)).next hbound hnext
  exact (hinv hcalls).not_lost

/-- The poll thread falls asleep, a caller wakes it up, and it reads the task and sleeps
again. -/
def signalledCall {Thread : Type} (caller : Thread) : List (Label Thread Nat) :=
  List.replicate 9 (.poll false) ++ .execute caller 7 :: List.replicate 6 (.step caller) ++
    .wake true :: List.replicate 19 (.poll false)

theorem signalled_call_read :
    ∃ state : State (Fin 2) Nat, (machine 256 1).Reachable state ∧ state.poll = .wait ∧
      state.queue.tickets = [7] ∧ state.queue.received.length = 1 := by
  obtain ⟨state, hreach, htest⟩ := Machine.exists_reachable_of_replay (machine 256 1)
    (start : State (Fin 2) Nat) (signalledCall 1)
    (fun state => decide (state.poll = .wait ∧ state.queue.tickets = [7] ∧
      (∀ thread, state.execute thread = .idle) ∧ ¬ state.Pending ∧
      state.queue.received.length ≤ 1))
    rfl (by decide +kernel)
  obtain ⟨hwait, htickets, hreturned, hsilent, hread⟩ := of_decide_eq_true htest
  have hkept := no_lost_wakeup 256 1 state hreach (by rw [htickets]; decide)
  -- with everybody at rest, a task that was not read would be lost
  have hheld : ¬ state.queue.received.length < 1 := by
    intro hheld
    exact hkept ⟨hreturned, hwait, hsilent, by rw [htickets]; exact hheld⟩
  exact ⟨state, hreach, hwait, htickets, by omega⟩

section Rounds

variable {queueSize pollCycles : Nat} {state after : State Thread Task} {thread : Thread}
  {task : Task}

theorem path_of_next (label : Label Thread Task)
    (hnext : next queueSize pollCycles state label = some after) :
    (machine queueSize pollCycles).Path Machine.anyStep state after :=
  .step .refl trivial
    (show (machine queueSize pollCycles).next state label = some after from hnext)

/-- A caller in the middle of `execute`, with the slot of its ticket as it is then. -/
def State.executing (state : State Thread Task) (queueSize : Nat) (thread : Thread) (task : Task)
    (pc : ProducerPc Task) (item : Item Task) (execute : ExecutePc) : State Thread Task :=
  { state with
    queue := { state.queue with
      data := Function.update state.queue.data (state.queue.insertPlace % queueSize) item
      insertPlace := wrap (state.queue.insertPlace + 1)
      producer := Function.update state.queue.producer thread pc
      tickets := state.queue.tickets ++ [task] }
    execute := Function.update state.execute thread execute }

theorem executing_path {pc next : ProducerPc Task} {item written : Item Task}
    {execute : ExecutePc} (hafter : afterWrite next = execute)
    (hstep : SingleConsumerQueue.stepProducer queueSize
        (state.executing queueSize thread task pc item .write).queue thread =
      some (state.executing queueSize thread task next written .write).queue) :
    (machine queueSize pollCycles).Path Machine.anyStep
      (state.executing queueSize thread task pc item .write)
      (state.executing queueSize thread task next written execute) := by
  have hwriting : (state.executing queueSize thread task pc item .write).execute thread = .write :=
    Function.update_self ..
  have hproducer : (state.executing queueSize thread task next written .write).queue.producer
      thread = next := Function.update_self ..
  apply path_of_next (.step thread)
  simp only [TaskQueue.next, State.stepExecute, hwriting, SingleConsumerQueue.next, hstep,
    Option.map_some, hproducer, hafter]
  simp only [State.executing, State.goto, Function.update_idem]

def State.executed (state : State Thread Task) (queueSize : Nat) (task : Task) :
    State Thread Task :=
  { state with queue := { state.queue with
    data := Function.update state.queue.data (state.queue.insertPlace % queueSize)
      ⟨.full task, true⟩
    insertPlace := wrap (state.queue.insertPlace + 1)
    tickets := state.queue.tickets ++ [task] } }

theorem execute_path (hsize : 0 < queueSize) (thread : Thread) (task : Task)
    (hidle : state.execute thread = .idle) (hproducer : state.queue.producer thread = .idle)
    (hawake : state.sleeping = false)
    (hroom : wrapSub state.queue.insertPlace state.queue.consumed < queueSize)
    (hslot : state.queue.data (state.queue.insertPlace % queueSize) = ⟨.raw, false⟩) :
    (machine queueSize pollCycles).Path Machine.anyStep state
      (state.executed queueSize task) := by
  have hcall : (machine queueSize pollCycles).Path Machine.anyStep state
      (state.executing queueSize thread task (.checkFull task state.queue.insertPlace)
        ⟨.raw, false⟩ .write) := by
    apply path_of_next (.execute thread task)
    simp only [next, hidle, SingleConsumerQueue.next, hproducer, Option.map_some]
    simp only [State.executing, State.goto, SingleConsumerQueue.State.produce]
    rw [← hslot, Function.update_eq_self]
  have hadmit : (machine queueSize pollCycles).Path Machine.anyStep
      (state.executing queueSize thread task (.checkFull task state.queue.insertPlace)
        ⟨.raw, false⟩ .write)
      (state.executing queueSize thread task (.construct task state.queue.insertPlace)
        ⟨.raw, false⟩ .write) := by
    refine executing_path rfl ?_
    have hfull : isFull queueSize (state.executing queueSize thread task
        (.checkFull task state.queue.insertPlace) ⟨.raw, false⟩ .write).queue
        state.queue.insertPlace = false :=
      decide_eq_false (Nat.not_le.mpr hroom)
    simp only [State.executing] at hfull
    simp [stepProducer, State.executing, hfull, SingleConsumerQueue.State.produce]
  have hconstruct : (machine queueSize pollCycles).Path Machine.anyStep
      (state.executing queueSize thread task (.construct task state.queue.insertPlace)
        ⟨.raw, false⟩ .write)
      (state.executing queueSize thread task (.finish task state.queue.insertPlace)
        ⟨.building, false⟩ .write) := by
    refine executing_path rfl ?_
    simp [stepProducer, State.executing, slot_of_pos hsize, SingleConsumerQueue.State.produce,
      SingleConsumerQueue.State.setItem]
  have hfinish : (machine queueSize pollCycles).Path Machine.anyStep
      (state.executing queueSize thread task (.finish task state.queue.insertPlace)
        ⟨.building, false⟩ .write)
      (state.executing queueSize thread task (.validate task state.queue.insertPlace)
        ⟨.full task, false⟩ .write) := by
    refine executing_path rfl ?_
    simp [stepProducer, State.executing, slot_of_pos hsize, SingleConsumerQueue.State.produce,
      SingleConsumerQueue.State.setItem]
  have hvalidate : (machine queueSize pollCycles).Path Machine.anyStep
      (state.executing queueSize thread task (.validate task state.queue.insertPlace)
        ⟨.full task, false⟩ .write)
      (state.executing queueSize thread task .idle ⟨.full task, true⟩ .load) := by
    refine executing_path rfl ?_
    simp [stepProducer, State.executing, slot_of_pos hsize, SingleConsumerQueue.State.produce,
      SingleConsumerQueue.State.setItem]
  have hreturn : (machine queueSize pollCycles).Path Machine.anyStep
      (state.executing queueSize thread task .idle ⟨.full task, true⟩ .load)
      (state.executed queueSize task) := by
    apply path_of_next (.step thread)
    simp [next, State.stepExecute, State.executing, State.executed, State.goto, hawake, ← hidle,
      ← hproducer]
  exact ((((hcall.trans hadmit).trans hconstruct).trans hfinish).trans hvalidate).trans hreturn

/-- The poll thread in the middle of a read of the ticket `pos`. -/
def State.taking (state : State Thread Task) (queueSize pos : Nat) (item : Item Task)
    (pc : ConsumerPc) (received : List (Cell Task)) : State Thread Task :=
  { state with queue := { state.queue with
    data := Function.update state.queue.data (pos % queueSize) item
    consumer := pc
    received := received } }

omit [DecidableEq Thread] in
theorem consumes_taking (state : State Thread Task) (queueSize pos : Nat) (item : Item Task)
    {pc : ConsumerPc} (hpc : pc ≠ .idle) (received : List (Cell Task)) :
    (state.taking queueSize pos item pc received).consumes = true := by
  cases pc with
  | idle => contradiction
  | _ => rfl

theorem taking_path {caller : Caller} {result : Bool} (hpoll : state.poll = .read caller result)
    {pos : Nat} {item left : Item Task} {pc next : ConsumerPc} {received taken : List (Cell Task)}
    (hpc : pc ≠ .idle) (hnext : next ≠ .idle)
    (hstep : SingleConsumerQueue.stepConsumer queueSize
        (state.taking queueSize pos item pc received).queue =
      some (state.taking queueSize pos left next taken).queue) :
    (machine queueSize pollCycles).Path Machine.anyStep
      (state.taking queueSize pos item pc received)
      (state.taking queueSize pos left next taken) := by
  have hinside : afterRead caller result false pc next = .read caller result := by
    cases next with
    | idle => contradiction
    | _ => rfl
  have hreading : (state.taking queueSize pos item pc received).poll = .read caller result := hpoll
  apply path_of_next (.poll false)
  simp only [TaskQueue.next, State.stepPoll, hreading, consumes_taking state queueSize pos item hpc,
    if_true, SingleConsumerQueue.next, hstep, Option.map_some]
  simp only [State.taking, hinside, hpoll]

theorem begin_path {caller : Caller} {result : Bool} (hpoll : state.poll = .read caller result)
    (hidle : state.queue.consumer = .idle) (pos : Nat) :
    (machine queueSize pollCycles).Path Machine.anyStep state
      (state.taking queueSize pos (state.queue.data (pos % queueSize))
        (.readPlace state.queue.consumed) state.queue.received) := by
  have hcall : (machine queueSize pollCycles).Path Machine.anyStep state
      (state.taking queueSize pos (state.queue.data (pos % queueSize)) .readLoad
        state.queue.received) := by
    apply path_of_next (.poll false)
    simp only [next, State.stepPoll, hpoll, State.consumes, hidle, SingleConsumerQueue.next,
      Option.map_some, State.taking, Function.update_eq_self]
    rfl
  refine hcall.trans (taking_path hpoll (by simp) (by simp) ?_)
  simp [stepConsumer, State.taking, SingleConsumerQueue.State.consume]

def State.taken (state : State Thread Task) (queueSize pos : Nat) (task : Task)
    (caller : Caller) : State Thread Task :=
  { state with
    queue := { state.queue with
      data := Function.update state.queue.data (pos % queueSize) ⟨.raw, false⟩
      consumed := pos
      received := state.queue.received ++ [.full task] }
    poll := .read caller true }

theorem read_path (hsize : 0 < queueSize) {caller : Caller} {result : Bool}
    (hpoll : state.poll = .read caller result) (hidle : state.queue.consumer = .idle) {pos : Nat}
    (hpos : wrap (state.queue.consumed + 1) = pos) (hplace : pos < state.queue.insertPlace)
    (hslot : state.queue.data (pos % queueSize) = ⟨.full task, true⟩) :
    (machine queueSize pollCycles).Path Machine.anyStep state
      (state.taken queueSize pos task caller) := by
  have hbegin : (machine queueSize pollCycles).Path Machine.anyStep state
      (state.taking queueSize pos ⟨.full task, true⟩ (.readPlace state.queue.consumed)
        state.queue.received) := by
    rw [← hslot]
    exact begin_path hpoll hidle pos
  have hfound : (machine queueSize pollCycles).Path Machine.anyStep
      (state.taking queueSize pos ⟨.full task, true⟩ (.readPlace state.queue.consumed)
        state.queue.received)
      (state.taking queueSize pos ⟨.full task, true⟩ (.readFlag state.queue.consumed)
        state.queue.received) := by
    refine taking_path hpoll (by simp) (by simp) ?_
    simp [stepConsumer, State.taking, SingleConsumerQueue.State.consume, hpos, hplace]
  have hflagged : (machine queueSize pollCycles).Path Machine.anyStep
      (state.taking queueSize pos ⟨.full task, true⟩ (.readFlag state.queue.consumed)
        state.queue.received)
      (state.taking queueSize pos ⟨.full task, true⟩ (.readClear pos) state.queue.received) := by
    refine taking_path hpoll (by simp) (by simp) ?_
    simp [stepConsumer, State.taking, SingleConsumerQueue.State.consume, hpos, slot_of_pos hsize]
  have hcleared : (machine queueSize pollCycles).Path Machine.anyStep
      (state.taking queueSize pos ⟨.full task, true⟩ (.readClear pos) state.queue.received)
      (state.taking queueSize pos ⟨.full task, false⟩ (.readMove pos) state.queue.received) := by
    refine taking_path hpoll (by simp) (by simp) ?_
    simp [stepConsumer, State.taking, SingleConsumerQueue.State.consume,
      SingleConsumerQueue.State.setItem, slot_of_pos hsize]
  have hmoved : (machine queueSize pollCycles).Path Machine.anyStep
      (state.taking queueSize pos ⟨.full task, false⟩ (.readMove pos) state.queue.received)
      (state.taking queueSize pos ⟨.moved, false⟩ (.readDestroy pos)
        (state.queue.received ++ [.full task])) := by
    refine taking_path hpoll (by simp) (by simp) ?_
    simp [stepConsumer, State.taking, SingleConsumerQueue.State.consume,
      SingleConsumerQueue.State.setItem, SingleConsumerQueue.State.moveOut, slot_of_pos hsize]
  have hdestroyed : (machine queueSize pollCycles).Path Machine.anyStep
      (state.taking queueSize pos ⟨.moved, false⟩ (.readDestroy pos)
        (state.queue.received ++ [.full task]))
      (state.taking queueSize pos ⟨.raw, false⟩ (.readStore pos)
        (state.queue.received ++ [.full task])) := by
    refine taking_path hpoll (by simp) (by simp) ?_
    simp [stepConsumer, State.taking, SingleConsumerQueue.State.consume,
      SingleConsumerQueue.State.setItem, slot_of_pos hsize]
  refine ((((hbegin.trans hfound).trans hflagged).trans hcleared).trans hmoved).trans
    (hdestroyed.trans ?_)
  apply path_of_next (.poll false)
  simp [next, State.stepPoll, State.taking, State.taken, hpoll, State.consumes,
    SingleConsumerQueue.next, stepConsumer, SingleConsumerQueue.State.consume, afterRead, hidle]

theorem miss_path {caller : Caller} {result : Bool} (hpoll : state.poll = .read caller result)
    (hidle : state.queue.consumer = .idle)
    (hplace : state.queue.insertPlace ≤ wrap (state.queue.consumed + 1)) :
    (machine queueSize pollCycles).Path Machine.anyStep state
      { state with poll := returned result false caller } := by
  refine (begin_path hpoll hidle 0).trans ?_
  apply path_of_next (.poll false)
  simp [next, State.stepPoll, State.taking, hpoll, State.consumes, SingleConsumerQueue.next,
    stepConsumer, SingleConsumerQueue.State.consume, afterRead, hplace, ← hidle]
  rw [hidle]

theorem sleep_path {i : Nat} (hpoll : state.poll = .head i) (hdone : ¬ i < pollCycles)
    (hawake : state.sleeping = false) (hidle : state.queue.consumer = .idle)
    (hplace : state.queue.insertPlace ≤ wrap (state.queue.consumed + 1)) :
    (machine queueSize pollCycles).Path Machine.anyStep state
      { state with sleeping := true, poll := .wait } := by
  have hleft : (machine queueSize pollCycles).Path Machine.anyStep state
      { state with poll := .exchange } := by
    apply path_of_next (.poll false)
    simp [next, State.stepPoll, hpoll, hdone]
  have hannounced : (machine queueSize pollCycles).Path Machine.anyStep
      { state with poll := .exchange }
      { state with sleeping := true, poll := .read .prepare false } := by
    apply path_of_next (.poll false)
    simp [next, State.stepPoll, hawake]
  have hmiss : (machine queueSize pollCycles).Path Machine.anyStep
      { state with sleeping := true, poll := .read .prepare false }
      { state with sleeping := true, poll := .wait } :=
    @miss_path _ _ _ _ _ { state with sleeping := true, poll := .read .prepare false } .prepare
      false rfl hidle hplace
  exact (hleft.trans hannounced).trans hmiss

end Rounds

/-- The poll thread in `poll()` after `count` tasks were written and read. -/
def drained (count : Nat) (result : Bool) : State Unit Unit where
  queue :=
    { data := fun _ => ⟨.raw, false⟩
      consumed := wrapSub count 1
      insertPlace := count
      producer := fun _ => .idle
      consumer := .idle
      tickets := List.replicate count ()
      received := List.replicate count (.full ()) }
  sleeping := false
  counter := 0
  ready := false
  execute := fun _ => .idle
  poll := .read (.loop 0) result

theorem drained_executed {count : Nat} (hcount : count < wordRange) (result : Bool) :
    (machine 256 1).Path Machine.anyStep (drained count result)
      ((drained count result).executed 256 ()) := by
  refine execute_path (by decide) () () rfl rfl rfl ?_ rfl
  show wrapSub count (wrapSub count 1) < 256
  rw [wrapSub_wrapSub_one_self hcount]
  decide

theorem drained_succ {count : Nat} (hcount : count + 1 < wordRange) (result : Bool) :
    (machine 256 1).Path Machine.anyStep (drained count result) (drained (count + 1) true) := by
  have hpos : wrap (((drained count result).executed 256 ()).queue.consumed + 1) = count :=
    wrap_wrapSub_one_succ (by omega)
  have hplace : count < ((drained count result).executed 256 ()).queue.insertPlace := by
    show count < wrap (count + 1)
    rw [wrap_of_lt hcount]
    exact Nat.lt_succ_self count
  have hslot : ((drained count result).executed 256 ()).queue.data (count % 256) =
      ⟨.full (), true⟩ := Function.update_self ..
  have hread : (machine 256 1).Path Machine.anyStep ((drained count result).executed 256 ())
      (((drained count result).executed 256 ()).taken 256 count () (.loop 0)) :=
    read_path (by decide) rfl rfl hpos hplace hslot
  have hsame : ((drained count result).executed 256 ()).taken 256 count () (.loop 0) =
      drained (count + 1) true := by
    have hdata : Function.update (fun _ : Nat => (⟨.raw, false⟩ : Item Unit)) (count % 256)
        ⟨.raw, false⟩ = fun _ => ⟨.raw, false⟩ := Function.update_eq_self ..
    have hconsumed : wrapSub (count + 1) 1 = count := wrapSub_of_le (by omega) hcount
    simp only [State.taken, State.executed, drained, Function.update_idem, hdata, hconsumed,
      wrap_of_lt hcount, List.replicate_succ']
  rw [hsame] at hread
  exact (drained_executed (by omega) result).trans hread

theorem drained_reachable {count : Nat} (hcount : count < wordRange) :
    ∃ result, (machine 256 1).Reachable (drained count result) := by
  induction count with
  | zero =>
      have hconsumed : wrapSub 0 1 = wordRange - 1 := by
        unfold wrapSub
        decide
      have hstart :
          next 256 1 (start : State Unit Unit) (.poll false) = some (drained 0 false) := by
        simp only [next, State.stepPoll, start, SingleConsumerQueue.start, drained, hconsumed,
          List.replicate_zero]
        rfl
      exact ⟨false, start, rfl, path_of_next (.poll false) hstart⟩
  | succ count ih =>
      obtain ⟨result, hreach⟩ := ih (by omega)
      exact ⟨true, hreach.extend (drained_succ hcount result)⟩

/-- After the last ticket `_insert_place` is zero, so every read fails. The task stays in
its slot while the poll thread goes to sleep. -/
theorem drained_lost {count : Nat} (hcount : count + 1 = wordRange) (result : Bool) :
    ∃ lost, (machine 256 1).Path Machine.anyStep (drained count result) lost ∧ lost.Lost := by
  have hwrapped : ((drained count result).executed 256 ()).queue.insertPlace = 0 := by
    show wrap (count + 1) = 0
    rw [hcount]
    unfold wrap
    exact Nat.mod_self wordRange
  have hplace : ((drained count result).executed 256 ()).queue.insertPlace ≤
      wrap (((drained count result).executed 256 ()).queue.consumed + 1) := by
    rw [hwrapped]
    exact Nat.zero_le _
  have hpolled : (machine 256 1).Path Machine.anyStep ((drained count result).executed 256 ())
      { (drained count result).executed 256 () with poll := .head 1 } := by
    have hmiss : (machine 256 1).Path Machine.anyStep ((drained count result).executed 256 ())
        { (drained count result).executed 256 () with poll := returned result false (.loop 0) } :=
      miss_path rfl rfl hplace
    have hdone : returned result false (.loop 0) = .head 1 := by
      cases result <;> rfl
    rw [hdone] at hmiss
    exact hmiss
  have hslept : (machine 256 1).Path Machine.anyStep
      { (drained count result).executed 256 () with poll := .head 1 }
      { (drained count result).executed 256 () with sleeping := true, poll := .wait } :=
    @sleep_path _ _ _ _ _ { (drained count result).executed 256 () with poll := .head 1 } 1 rfl
      (Nat.lt_irrefl 1) rfl rfl hplace
  refine ⟨_, (drained_executed (by omega) result).trans (hpolled.trans hslept),
    fun _ => rfl, rfl, nofun, ?_⟩
  show (List.replicate count (Cell.full ())).length < (List.replicate count () ++ [()]).length
  rw [List.length_append, List.length_replicate, List.length_replicate]
  exact Nat.lt_succ_self count

/-- The queue that has handed out all `2 ^ 64` tickets loses the last task. -/
theorem last_ticket_lost :
    ¬ ∀ (pollCycles : Nat) (state : State Unit Unit),
      (machine 256 pollCycles).Reachable state → ¬ state.Lost := by
  intro hall
  obtain ⟨result, hreach⟩ := drained_reachable (show wordRange - 1 < wordRange by decide)
  obtain ⟨lost, hpath, hlost⟩ := drained_lost (show wordRange - 1 + 1 = wordRange by decide) result
  exact hall 1 lost (hreach.extend hpath) hlost

end Crossbow.Infinio.TaskQueue
