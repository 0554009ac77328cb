import Crossbow.Concurrent.QueueHead
import Crossbow.Infinio.EventLoop

/-! The task queue through which any thread hands tasks to the poll thread. A caller of
`execute` writes its task and signals an event descriptor if the poll thread says that it
sleeps; the poll thread says so before it looks at the queue for the last time. -/
namespace Crossbow.Infinio.TaskQueue
open Kernel Concurrent SingleConsumerQueue
open EventLoop (Caller counter)

/-- A thread inside `execute`: in the write to the queue, before the load of `mSleeping` or
before the write to the event descriptor. -/
inductive ExecutePc where
  | idle
  | write
  | load
  | signal
  deriving DecidableEq, Repr

/-- The poll thread: at the head of the polling loop, at or inside a read of the queue in
`poll`, before the exchange in `prepareSleep`, in `epoll_wait`, and before the two steps
of `wakeup`. -/
inductive PollPc where
  | head (i : Nat)
  | read (caller : Caller) (result : Bool)
  | exchange
  | wait
  | store
  | clear
  deriving DecidableEq, Repr

/-- `counter` is the value of the event descriptor and `ready` tells that it was written
since `epoll_wait` reported it last, as it is registered edge-triggered. -/
structure State (Thread Task : Type) where
  queue : SingleConsumerQueue.State Thread Task
  sleeping : Bool
  counter : Nat
  ready : Bool
  execute : Thread → ExecutePc
  poll : PollPc

inductive Label (Thread Task : Type) where
  | execute (thread : Thread) (task : Task)
  | step (thread : Thread)
  | poll (others : Bool)
  | wake (reported : Bool)

variable {Thread Task : Type} [DecidableEq Thread]

def State.goto (state : State Thread Task) (thread : Thread) (pc : ExecutePc) :
    State Thread Task :=
  { state with execute := Function.update state.execute thread pc }

/-- `write` has returned when its thread is idle again. -/
def afterWrite : ProducerPc Task → ExecutePc
  | .idle => .load
  | _ => .write

def State.stepExecute (queueSize : Nat) (state : State Thread Task) (thread : Thread) :
    Option (State Thread Task) :=
  match state.execute thread with
  | .idle => none
  | .write =>
      (SingleConsumerQueue.next queueSize state.queue (.producer thread)).map fun queue =>
        { state.goto thread (afterWrite (queue.producer thread)) with queue := queue }
  | .load => some (state.goto thread (if state.sleeping then .signal else .idle))
  | .signal =>
      some { state.goto thread .idle with counter := state.counter + 1, ready := true }

/-- `poll()` returns; `others` tells whether another poller of the cycle had work. -/
def returned (result others : Bool) : Caller → PollPc
  | .loop i => .head (EventLoop.counter i (result || others) + 1)
  | .prepare => .wait

/-- After a step inside `read`: the loop of `poll()` ends with a read that fails, and runs
the task otherwise. -/
def afterRead (caller : Caller) (result others : Bool) (before after : ConsumerPc) : PollPc :=
  match after with
  | .idle =>
      match before with
      | .readStore _ => .read caller true
      | _ => returned result others caller
  | _ => .read caller result

omit [DecidableEq Thread] in
def State.consumes (state : State Thread Task) : Bool :=
  match state.queue.consumer with
  | .idle => false
  | _ => true

def State.stepPoll (queueSize pollCycles : Nat) (state : State Thread Task) (others : Bool) :
    Option (State Thread Task) :=
  match state.poll with
  | .head i =>
      some { state with poll := if i < pollCycles then .read (.loop i) false else .exchange }
  | .read caller result =>
      if state.consumes then
        (SingleConsumerQueue.next queueSize state.queue .consumer).map fun queue =>
          { state with
            queue := queue
            poll := afterRead caller result others state.queue.consumer queue.consumer }
      else
        (SingleConsumerQueue.next queueSize state.queue .read).map fun queue =>
          { state with queue := queue }
  | .exchange =>
      some { state with
        sleeping := true
        poll := if state.sleeping then .wait else .read .prepare false }
  | .store => some { state with sleeping := false, poll := .clear }
  | .clear => some { state with counter := 0, poll := .head 0 }
  | .wait => none

/-- The event descriptor makes `epoll_wait` return. -/
def State.Pending (state : State Thread Task) : Prop := state.ready = true ∧ 0 < state.counter

instance (state : State Thread Task) : Decidable state.Pending :=
  inferInstanceAs (Decidable (_ ∧ _))

def next (queueSize pollCycles : Nat) (state : State Thread Task) :
    Label Thread Task → Option (State Thread Task)
  | .execute thread task =>
      match state.execute thread with
      | .idle =>
          (SingleConsumerQueue.next queueSize state.queue (.write thread task)).map fun queue =>
            { state.goto thread .write with queue := queue }
      | _ => none
  | .step thread => state.stepExecute queueSize thread
  | .poll others => state.stepPoll queueSize pollCycles others
  | .wake reported =>
      match state.poll with
      | .wait =>
          if reported then
            if state.Pending then some { state with ready := false, poll := .store } else none
          else some { state with poll := .head 0 }
      | _ => none

def start : State Thread Task where
  queue := SingleConsumerQueue.start
  sleeping := false
  counter := 0
  ready := false
  execute := fun _ => .idle
  poll := .head 0

def machine (queueSize pollCycles : Nat) : Machine (State Thread Task) (Label Thread Task) where
  initial := fun state => state = start
  next := next queueSize pollCycles

/-- Nobody will wake the poll thread up for a task that is in the queue. -/
structure State.Lost (state : State Thread Task) : Prop where
  returned : ∀ thread, state.execute thread = .idle
  blocked : state.poll = .wait
  silent : ¬ state.Pending
  held : state.queue.received.length < state.queue.tickets.length

/-- The queue together with what the failed reads of its consumer rest on. -/
structure QueueInv (queueSize : Nat) (queue : SingleConsumerQueue.State Thread Task) : Prop where
  ordered : ∃ published stage, Ordered queueSize queue published stage
  single : ¬ queue.consumer.Multiple
  covered : Covered queueSize queue

/-- The poll thread has seen the queue and does not look again before `epoll_wait`, unless
a further cycle comes first. -/
def PollPc.Settled : PollPc → Prop
  | .head _ | .exchange | .wait => True
  | .read _ _ | .store | .clear => False

def PollPc.Announced : PollPc → Prop
  | .wait | .store | .read .prepare _ => True
  | .head _ | .read (.loop _) _ | .exchange | .clear => False

/-- A signal is pending, or a caller has written its task and has yet to decide about one. -/
def State.Signalled (state : State Thread Task) : Prop :=
  state.Pending ∨ ∃ thread, state.execute thread = .load ∨ state.execute thread = .signal

/-- A task that the sleeping poll thread has not seen is signalled. -/
structure Inv (queueSize : Nat) (state : State Thread Task) : Prop where
  queue : QueueInv queueSize state.queue
  writers : ∀ thread, state.execute thread ≠ .write → state.queue.producer thread = .idle
  reader : (∀ caller result, state.poll ≠ .read caller result) → state.queue.consumer = .idle
  announced : state.poll.Announced → state.sleeping = true
  awake : state.poll = .clear → state.sleeping = false
  signalled : state.sleeping = true → state.poll.Settled → HeadReady queueSize state.queue →
    state.Signalled

section Queue

variable {queueSize : Nat} {queue after : SingleConsumerQueue.State Thread Task}

theorem QueueInv.order (hqueue : QueueInv queueSize queue)
    {label : SingleConsumerQueue.Label Thread Task}
    (hcalls : after.tickets.length < wordRange)
    (hnext : SingleConsumerQueue.next queueSize queue label = some after) :
    ∃ published stage, Ordered queueSize after published stage := by
  obtain ⟨published, stage, hordered⟩ := hqueue.ordered
  exact (hordered.next hcalls (fun hinside => absurd hinside hqueue.single) hnext).ordered

theorem QueueInv.write (hqueue : QueueInv queueSize queue) {thread : Thread} {task : Task}
    (hcalls : after.tickets.length < wordRange)
    (hnext : SingleConsumerQueue.next queueSize queue (.write thread task) = some after) :
    QueueInv queueSize after ∧ after.data = queue.data ∧ after.received = queue.received ∧
      after.consumer = queue.consumer ∧
      ∀ other, other ≠ thread → after.producer other = queue.producer other := by
  have hordered := hqueue.order hcalls hnext
  simp only [SingleConsumerQueue.next] at hnext
  split at hnext
  · rename_i hidle
    cases hnext
    obtain ⟨_, _, hbefore⟩ := hqueue.ordered
    exact ⟨⟨hordered, hqueue.single, hqueue.covered.write hbefore task hidle⟩, rfl, rfl, rfl,
      fun other hother => Function.update_of_ne hother ..⟩
  · contradiction

theorem QueueInv.producer (hqueue : QueueInv queueSize queue) {thread : Thread}
    (hcalls : after.tickets.length < wordRange)
    (hnext : SingleConsumerQueue.next queueSize queue (.producer thread) = some after) :
    QueueInv queueSize after ∧ ProducerStep queueSize queue thread after := by
  have hordered := hqueue.order hcalls hnext
  have hstep := stepProducer_cases hnext
  obtain ⟨_, _, hbefore⟩ := hqueue.ordered
  refine ⟨⟨hordered, ?_, hqueue.covered.producer hbefore hstep⟩, hstep⟩
  cases hstep with
  | keeps pc data hafter =>
      rw [hafter]
      exact hqueue.single
  | validates value pos hpc hafter =>
      rw [hafter]
      exact hqueue.single

theorem QueueInv.read (hqueue : QueueInv queueSize queue)
    (hcalls : after.tickets.length < wordRange)
    (hnext : SingleConsumerQueue.next queueSize queue .read = some after) :
    QueueInv queueSize after ∧ after.producer = queue.producer := by
  have hordered := hqueue.order hcalls hnext
  simp only [SingleConsumerQueue.next] at hnext
  split at hnext
  · rename_i hidle
    cases hnext
    have hcovered := @Covered.of_flags _ _ _ _ hqueue.covered queue.data queue.consumed .readLoad
      (fun _ => rfl) (by simp [hidle])
    exact ⟨⟨hordered, id, hcovered⟩, rfl⟩
  · contradiction

theorem QueueInv.consumer (hqueue : QueueInv queueSize queue)
    (hcalls : after.tickets.length < wordRange)
    (hnext : SingleConsumerQueue.next queueSize queue .consumer = some after) :
    QueueInv queueSize after ∧ ReadStep queueSize queue after := by
  have hordered := hqueue.order hcalls hnext
  have hgrow := tickets_length_le hnext
  obtain ⟨_, _, hbefore⟩ := hqueue.ordered
  have hread := hbefore.read_cases (by omega) hqueue.single hnext
  refine ⟨⟨hordered, ?_, hqueue.covered.read hread⟩, hread⟩
  cases hread with
  | quiet data consumed pc hafter _ _ _ hsingle =>
      rw [hafter]
      exact hsingle
  | fails hafter | clears hafter | moves hafter =>
      rw [hafter]
      exact id

end Queue

section Steps

variable {queueSize pollCycles : Nat} {state after : State Thread Task} {thread : Thread}
  {queue : SingleConsumerQueue.State Thread Task}

omit [DecidableEq Thread] in
theorem inv_start : Inv queueSize (start : State Thread Task) where
  queue := ⟨⟨0, _, ordered_start queueSize⟩, id, covered_start queueSize⟩
  writers := fun _ _ => rfl
  reader := fun _ => rfl
  announced := False.elim
  awake := nofun
  signalled := nofun

omit [DecidableEq Thread] in
theorem State.Signalled.mono (hsignalled : state.Signalled)
    (hpending : state.Pending → after.Pending)
    (hcallers : ∀ thread, state.execute thread = .load ∨ state.execute thread = .signal →
      after.execute thread = .load ∨ after.execute thread = .signal) : after.Signalled := by
  rcases hsignalled with hnow | ⟨thread, hthread⟩
  · exact .inl (hpending hnow)
  · exact .inr ⟨thread, hcallers thread hthread⟩

theorem State.Signalled.goto (hsignalled : state.Signalled) (pc : ExecutePc)
    (hload : state.execute thread ≠ .load) (hsignal : state.execute thread ≠ .signal) :
    (state.goto thread pc).Signalled := by
  refine hsignalled.mono id fun other hother => ?_
  have hne : other ≠ thread := by
    rintro rfl
    exact hother.elim hload hsignal
  simp only [State.goto, Function.update_of_ne hne]
  exact hother

section Moves

variable (hinv : Inv queueSize state)
include hinv

theorem Inv.writers_goto {pc : ExecutePc} {producer : Thread → ProducerPc Task}
    (hothers : ∀ other, other ≠ thread → producer other = state.queue.producer other)
    (hself : pc ≠ .write → producer thread = .idle) (other : Thread)
    (hother : (state.goto thread pc).execute other ≠ .write) : producer other = .idle := by
  by_cases hsame : other = thread
  · subst hsame
    exact hself fun hpc => hother (by rw [← hpc]; exact Function.update_self ..)
  · replace hother : Function.update state.execute thread pc other ≠ .write := hother
    rw [Function.update_of_ne hsame] at hother
    exact (hothers other hsame).trans (hinv.writers other hother)

theorem Inv.execute {task : Task} (hcalls : after.queue.tickets.length < wordRange)
    (hnext : next queueSize pollCycles state (.execute thread task) = some after) :
    Inv queueSize after := by
  simp only [next] at hnext
  split at hnext
  · rename_i hidle
    obtain ⟨queue, hwrite, rfl⟩ := Option.map_eq_some_iff.mp hnext
    obtain ⟨hqueue, hdata, hreceived, hconsumer, hothers⟩ := hinv.queue.write hcalls hwrite
    refine ⟨hqueue, ?_, ?_, hinv.announced, hinv.awake, ?_⟩
    · exact hinv.writers_goto hothers (absurd rfl)
    · exact fun hoff => hconsumer.trans (hinv.reader hoff)
    · intro hsleeping hsettled hhead
      have hbefore := hhead.of_flags (fun index => by rw [hdata]) hreceived
      exact (hinv.signalled hsleeping hsettled hbefore).goto .write (by rw [hidle]; nofun)
        (by rw [hidle]; nofun)
  · contradiction

theorem Inv.goto {counter : Nat} {ready : Bool} {pc : ExecutePc}
    (hwritten : state.execute thread ≠ .write)
    (hsignalled : state.sleeping = true →
      State.Signalled { state.goto thread pc with counter := counter, ready := ready }) :
    Inv queueSize { state.goto thread pc with counter := counter, ready := ready } where
  queue := hinv.queue
  writers := hinv.writers_goto (fun _ _ => rfl) fun _ => hinv.writers thread hwritten
  reader := hinv.reader
  announced := hinv.announced
  awake := hinv.awake
  signalled := fun hsleeping _ _ => hsignalled hsleeping

theorem Inv.write (hwriting : state.execute thread = .write)
    (hcalls : queue.tickets.length < wordRange)
    (hstep : SingleConsumerQueue.next queueSize state.queue (.producer thread) = some queue) :
    Inv queueSize
      { state.goto thread (afterWrite (queue.producer thread)) with queue := queue } := by
  obtain ⟨hqueue, hproducer⟩ := hinv.queue.producer hcalls hstep
  cases hproducer with
  | keeps pc data hafter _ hpc hflags =>
      have hself : queue.producer thread = pc := by
        rw [hafter]
        exact Function.update_self ..
      have hstays : afterWrite (queue.producer thread) = .write := by
        rw [hself]
        cases pc with
        | idle => contradiction
        | checkFull | construct | finish | validate => rfl
      rw [hstays]
      refine ⟨hqueue, ?_, ?_, hinv.announced, hinv.awake, ?_⟩
      · refine hinv.writers_goto (fun other hne => ?_) (absurd rfl)
        rw [hafter]
        exact Function.update_of_ne hne ..
      · rw [hafter]
        exact hinv.reader
      · intro hsleeping hsettled hhead
        rw [hafter] at hhead
        have hbefore : HeadReady queueSize state.queue := hhead.of_flags hflags rfl
        exact (hinv.signalled hsleeping hsettled hbefore).goto .write (by rw [hwriting]; nofun)
          (by rw [hwriting]; nofun)
  | validates value pos hpc hafter =>
      have hself : queue.producer thread = .idle := by
        rw [hafter]
        exact Function.update_self ..
      rw [hself]
      refine ⟨hqueue, ?_, ?_, hinv.announced, hinv.awake, ?_⟩
      · refine hinv.writers_goto (fun other hne => ?_) fun _ => hself
        rw [hafter]
        exact Function.update_of_ne hne ..
      · rw [hafter]
        exact hinv.reader
      · -- the task may be the head, and its caller has not looked at `mSleeping` yet
        intro _ _ _
        exact .inr ⟨thread, .inl (Function.update_self ..)⟩

theorem Inv.stepExecute (hcalls : after.queue.tickets.length < wordRange)
    (hstep : state.stepExecute queueSize thread = some after) : Inv queueSize after := by
  unfold State.stepExecute at hstep
  cases hpc : state.execute thread with
  | idle => simp [hpc] at hstep
  | write =>
      simp only [hpc] at hstep
      obtain ⟨queue, hqueue, rfl⟩ := Option.map_eq_some_iff.mp hstep
      exact hinv.write hpc hcalls hqueue
  | load =>
      simp only [hpc] at hstep
      cases hstep
      refine hinv.goto (by rw [hpc]; nofun) fun hsleeping => ?_
      refine .inr ⟨thread, .inr ?_⟩
      rw [hsleeping]
      exact Function.update_self ..
  | signal =>
      simp only [hpc] at hstep
      cases hstep
      exact hinv.goto (by rw [hpc]; nofun) fun _ => .inl ⟨rfl, Nat.succ_pos _⟩

omit [DecidableEq Thread] in
theorem Inv.pollTo {sleeping ready : Bool} {counter : Nat}
    {poll : PollPc} (hoff : ∀ caller result, state.poll ≠ .read caller result)
    (hannounced : poll.Announced → sleeping = true) (hawake : poll = .clear → sleeping = false)
    (hsignalled : sleeping = true → poll.Settled → HeadReady queueSize state.queue →
      State.Signalled { state with
        sleeping := sleeping, counter := counter, ready := ready, poll := poll }) :
    Inv queueSize { state with
      sleeping := sleeping, counter := counter, ready := ready, poll := poll } :=
  ⟨hinv.queue, hinv.writers, fun _ => hinv.reader hoff, hannounced, hawake, hsignalled⟩

omit [DecidableEq Thread] in
theorem Inv.reading {caller : Caller} {result again : Bool} (hpc : state.poll = .read caller result)
    (hqueue : QueueInv queueSize queue) (hproducers : queue.producer = state.queue.producer) :
    Inv queueSize { state with queue := queue, poll := .read caller again } where
  queue := hqueue
  writers := by
    intro thread hthread
    rw [hproducers]
    exact hinv.writers thread hthread
  reader := fun hoff => absurd rfl (hoff caller again)
  announced := by
    have hannounced := hinv.announced
    rw [hpc] at hannounced
    cases caller <;> exact hannounced
  awake := nofun
  signalled := fun _ hsettled => hsettled.elim

omit [DecidableEq Thread] in
theorem Inv.returned {caller : Caller} {result others : Bool}
    (hpc : state.poll = .read caller result) (hqueue : QueueInv queueSize queue)
    (hproducers : queue.producer = state.queue.producer) (hidle : queue.consumer = .idle)
    (hhead : ¬ HeadReady queueSize queue) :
    Inv queueSize { state with queue := queue, poll := returned result others caller } where
  queue := hqueue
  writers := by
    intro thread hthread
    rw [hproducers]
    exact hinv.writers thread hthread
  reader := fun _ => hidle
  announced := by
    have hannounced := hinv.announced
    rw [hpc] at hannounced
    cases caller with
    | loop => exact False.elim
    | prepare => exact hannounced
  awake := by
    cases caller <;> nofun
  signalled := fun _ _ hready => absurd hready hhead

end Moves

theorem afterRead_busy (caller : Caller) (result others : Bool) (before : ConsumerPc)
    {pc : ConsumerPc} (hidle : pc = .idle → ∃ consume, before = .readStore consume) :
    ∃ again, afterRead caller result others before pc = .read caller again := by
  cases pc with
  | idle =>
      obtain ⟨consume, rfl⟩ := hidle rfl
      exact ⟨true, rfl⟩
  | readLoad | readPlace | readFlag | readClear | readMove | readDestroy | readStore | multiLoad
  | multiFlag | multiClear | multiMove | multiDestroy | multiStore => exact ⟨result, rfl⟩

theorem afterRead_idle (caller : Caller) (result others : Bool) (before : ConsumerPc) :
    afterRead caller result others before .idle = .read caller true ∨
      afterRead caller result others before .idle = returned result others caller := by
  cases before with
  | readStore => exact .inl rfl
  | idle | readLoad | readPlace | readFlag | readClear | readMove | readDestroy | multiLoad
  | multiFlag | multiClear | multiMove | multiDestroy | multiStore => exact .inr rfl

theorem Inv.consumer (hinv : Inv queueSize state) {caller : Caller} {result : Bool}
    (hpc : state.poll = .read caller result) (others : Bool)
    (hcalls : queue.tickets.length < wordRange)
    (hstep : SingleConsumerQueue.next queueSize state.queue .consumer = some queue) :
    Inv queueSize { state with
      queue := queue
      poll := afterRead caller result others state.queue.consumer queue.consumer } := by
  obtain ⟨hqueue, hread⟩ := hinv.queue.consumer hcalls hstep
  cases hread with
  | quiet data consumed pc hafter _ _ hidle _ =>
      obtain ⟨again, hagain⟩ := afterRead_busy caller result others state.queue.consumer hidle
      subst hafter
      simp only [hagain]
      exact hinv.reading hpc hqueue rfl
  | fails hafter hhead _ =>
      subst hafter
      simp only [State.consume]
      rcases afterRead_idle caller result others state.queue.consumer with hmore | hdone
      · simp only [hmore]
        exact hinv.reading hpc hqueue rfl
      · simp only [hdone]
        exact hinv.returned hpc hqueue rfl rfl hhead
  | clears hafter _ =>
      subst hafter
      exact hinv.reading hpc hqueue rfl
  | moves hafter =>
      subst hafter
      exact hinv.reading hpc hqueue rfl

theorem Inv.stepPoll (hinv : Inv queueSize state) {others : Bool}
    (hcalls : after.queue.tickets.length < wordRange)
    (hstep : state.stepPoll queueSize pollCycles others = some after) : Inv queueSize after := by
  have hsignalled := hinv.signalled
  unfold State.stepPoll at hstep
  cases hpc : state.poll with
  | head i =>
      rw [hpc] at hsignalled
      simp only [hpc] at hstep
      cases hstep
      split
      · exact hinv.pollTo (by rw [hpc]; nofun) False.elim nofun fun _ hsettled => hsettled.elim
      · exact hinv.pollTo (by rw [hpc]; nofun) False.elim nofun hsignalled
  | read caller result =>
      simp only [hpc] at hstep
      split at hstep
      · obtain ⟨queue, hqueue, rfl⟩ := Option.map_eq_some_iff.mp hstep
        exact hinv.consumer hpc others hcalls hqueue
      · obtain ⟨queue, hqueue, rfl⟩ := Option.map_eq_some_iff.mp hstep
        obtain ⟨hnew, hproducers⟩ := hinv.queue.read hcalls hqueue
        exact hinv.reading hpc hnew hproducers
  | exchange =>
      rw [hpc] at hsignalled
      simp only [hpc] at hstep
      cases hstep
      split
      · rename_i hslept
        exact hinv.pollTo (by rw [hpc]; nofun) (fun _ => rfl) nofun
          fun _ _ hhead => hsignalled hslept trivial hhead
      · exact hinv.pollTo (by rw [hpc]; nofun) (fun _ => rfl) nofun
          fun _ hsettled => hsettled.elim
  | store =>
      simp only [hpc] at hstep
      cases hstep
      exact hinv.pollTo (by rw [hpc]; nofun) False.elim (fun _ => rfl) nofun
  | clear =>
      simp only [hpc] at hstep
      cases hstep
      have hawake := hinv.awake hpc
      refine hinv.pollTo (by rw [hpc]; nofun) False.elim nofun fun hsleeping => ?_
      rw [hawake] at hsleeping
      contradiction
  | wait => simp [hpc] at hstep

theorem Inv.wake (hinv : Inv queueSize state) {reported : Bool}
    (hnext : next queueSize pollCycles state (.wake reported) = some after) :
    Inv queueSize after := by
  have hsignalled := hinv.signalled
  have hannounced := hinv.announced
  simp only [next] at hnext
  split at hnext
  · rename_i hpc
    rw [hpc] at hsignalled hannounced
    split at hnext
    · split at hnext
      · cases hnext
        exact hinv.pollTo (by rw [hpc]; nofun) hannounced nofun fun _ hsettled => hsettled.elim
      · contradiction
    · cases hnext
      exact hinv.pollTo (by rw [hpc]; nofun) False.elim nofun hsignalled
  · contradiction

theorem Inv.next (hinv : Inv queueSize state) {label : Label Thread Task}
    (hcalls : after.queue.tickets.length < wordRange)
    (hnext : next queueSize pollCycles state label = some after) : Inv queueSize after := by
  cases label with
  | execute thread task => exact hinv.execute hcalls hnext
  | step thread => exact hinv.stepExecute hcalls hnext
  | poll others => exact hinv.stepPoll hcalls hnext
  | wake reported => exact hinv.wake hnext

theorem calls_le {label : Label Thread Task}
    (hnext : next queueSize pollCycles state label = some after) :
    state.queue.tickets.length ≤ after.queue.tickets.length := by
  cases label with
  | execute thread task =>
      simp only [TaskQueue.next] at hnext
      split at hnext
      · obtain ⟨queue, hqueue, rfl⟩ := Option.map_eq_some_iff.mp hnext
        exact tickets_length_le hqueue
      · contradiction
  | step thread =>
      simp only [TaskQueue.next, State.stepExecute] at hnext
      split at hnext
      · contradiction
      · obtain ⟨queue, hqueue, rfl⟩ := Option.map_eq_some_iff.mp hnext
        exact tickets_length_le hqueue
      · cases hnext
        exact Nat.le_refl _
      · cases hnext
        exact Nat.le_refl _
  | poll others =>
      simp only [TaskQueue.next, State.stepPoll] at hnext
      split at hnext
      · cases hnext
        exact Nat.le_refl _
      · split at hnext
        · obtain ⟨queue, hqueue, rfl⟩ := Option.map_eq_some_iff.mp hnext
          exact tickets_length_le hqueue
        · obtain ⟨queue, hqueue, rfl⟩ := Option.map_eq_some_iff.mp hnext
          exact tickets_length_le hqueue
      · cases hnext
        exact Nat.le_refl _
      · cases hnext
        exact Nat.le_refl _
      · cases hnext
        exact Nat.le_refl _
      · contradiction
  | wake reported =>
      simp only [TaskQueue.next] at hnext
      split at hnext
      · split at hnext
        · split at hnext
          · cases hnext
            exact Nat.le_refl _
          · contradiction
        · cases hnext
          exact Nat.le_refl _
      · contradiction

omit [DecidableEq Thread] in
theorem Inv.not_lost (hinv : Inv queueSize state) : ¬ state.Lost := by
  rintro ⟨hreturned, hblocked, hsilent, hheld⟩
  have hsleeping : state.sleeping = true := hinv.announced (by rw [hblocked]; trivial)
  have hconsumer : state.queue.consumer = .idle := hinv.reader (by rw [hblocked]; nofun)
  have hproducers : ∀ thread, state.queue.producer thread = .idle :=
    fun thread => hinv.writers thread (by rw [hreturned]; nofun)
  have hhead : ¬ HeadReady queueSize state.queue := by
    intro hready
    rcases hinv.signalled hsleeping (by rw [hblocked]; trivial) hready with
      hpending | ⟨thread, hthread⟩
    · exact hsilent hpending
    · rw [hreturned thread] at hthread
      exact hthread.elim nofun nofun
  have hread := hinv.queue.covered.all_read hproducers hconsumer hhead
  omega

end Steps

end Crossbow.Infinio.TaskQueue
