import Crossbow.Kernel.Machine

/-! The poll thread of an Infiniband processor. It polls the local task queue, the task
queue and the completion context in this order until nothing happens for a number of
cycles, prepares each of them for the sleep and waits. The handlers that run on the way
enqueue local tasks and draining connections. -/
namespace Crossbow.Infinio.EventLoop
open Kernel

structure Effect (Task Conn : Type) where
  tasks : List Task
  draining : List Conn

/-- Where a `poll()` is called from: the loop at its counter, or `prepareSleep()`. -/
inductive Caller where
  | loop (i : Nat)
  | prepare
  deriving DecidableEq, Repr

/-- The place in `doPoll`. Inside `LocalTaskQueue::poll` the swapped queue is left, inside
`TaskQueue::poll` its result so far, and inside `CompletionContext::poll` the completions
to process, the result and the swapped draining connections. -/
inductive Pc (Task Conn : Type) where
  | head (i : Nat)
  | localTasks (taskQueue : List Task)
  | tasks (caller : Caller) (result : Bool)
  | poll (caller : Caller)
  | completions (caller : Caller) (left : Nat) (result : Bool) (draining : List Conn)
  | sleep
  deriving DecidableEq, Repr

structure State (Task Conn : Type) where
  localQueue : List Task
  drainingQueue : List Conn
  taskSleeping : Bool
  contextSleeping : Bool
  pc : Pc Task Conn
  deriving DecidableEq, Repr

variable {Task Conn : Type}

/-- A handler has run and the thread goes on at `pc`. -/
def State.run (state : State Task Conn) (effect : Effect Task Conn) (pc : Pc Task Conn) :
    State Task Conn :=
  { state with
    localQueue := state.localQueue ++ effect.tasks
    drainingQueue := state.drainingQueue ++ effect.draining
    pc := pc }

def State.goto (state : State Task Conn) (pc : Pc Task Conn) : State Task Conn :=
  { state with pc := pc }

/-- `LocalTaskQueue::poll()` up to its first task. -/
def State.pollLocal (state : State Task Conn) (i : Nat) : State Task Conn :=
  match state.localQueue with
  | [] => state.goto (.tasks (.loop i) false)
  | task :: rest => { state with localQueue := [], pc := .localTasks (task :: rest) }

/-- `CompletionContext::prepareSleep()` up to its poll. -/
def State.prepareContext (state : State Task Conn) : State Task Conn :=
  if state.contextSleeping then state.goto .sleep
  else { state with contextSleeping := true, pc := .poll .prepare }

/-- `LocalTaskQueue::prepareSleep()` does nothing; `TaskQueue::prepareSleep()` polls unless
the queue still sleeps. -/
def State.prepareTasks (state : State Task Conn) : State Task Conn :=
  if state.taskSleeping then state.prepareContext
  else { state with taskSleeping := true, pc := .tasks .prepare false }

def counter (i : Nat) (result : Bool) : Nat := if result then 0 else i

/-- `TaskQueue::poll()` found its queue empty. -/
def State.tasksDone (state : State Task Conn) (result : Bool) : Caller → State Task Conn
  | .loop i => state.goto (.poll (.loop (counter i result)))
  | .prepare => state.prepareContext

/-- The completion queue had `num` entries; an error counts as none. -/
def State.pollCompletions (state : State Task Conn) (caller : Caller) (num : Nat) :
    State Task Conn :=
  { state with
    drainingQueue := []
    pc := .completions caller num (decide (0 < num)) state.drainingQueue }

def State.completionsDone (state : State Task Conn) (result : Bool) : Caller → State Task Conn
  | .loop i => state.goto (.head (counter i result + 1))
  | .prepare => state.goto .sleep

/-- `handler` runs the next local task, a task read from the task queue, the next completion
or the next `onDrained`, and `wake` returns from `epoll_wait` with the ready pollers. -/
inductive Label (Task Conn : Type) where
  | proceed
  | handler (effect : Effect Task Conn)
  | completions (num : Nat)
  | wake (taskReady contextReady : Bool)

def next (pollCycles : Nat) (state : State Task Conn) :
    Label Task Conn → Option (State Task Conn)
  | .proceed =>
      match state.pc with
      | .head i => some (if i < pollCycles then state.pollLocal i else state.prepareTasks)
      | .tasks caller result => some (state.tasksDone result caller)
      | .completions caller 0 result [] => some (state.completionsDone result caller)
      | _ => none
  | .handler effect =>
      match state.pc with
      -- the result of a local poll with a task is true
      | .localTasks [_] => some (state.run effect (.tasks (.loop 0) false))
      | .localTasks (_ :: rest) => some (state.run effect (.localTasks rest))
      | .tasks caller _ => some (state.run effect (.tasks caller true))
      | .completions caller (left + 1) result draining =>
          some (state.run effect (.completions caller left result draining))
      | .completions caller 0 result (_ :: draining) =>
          some (state.run effect (.completions caller 0 result draining))
      | _ => none
  | .completions num =>
      match state.pc with
      | .poll caller => some (state.pollCompletions caller num)
      | _ => none
  | .wake taskReady contextReady =>
      match state.pc with
      | .sleep => some { state with
          taskSleeping := state.taskSleeping && !taskReady
          contextSleeping := state.contextSleeping && !contextReady
          pc := .head 0 }
      | _ => none

def start : State Task Conn := ⟨[], [], false, false, .head 0⟩

def machine (pollCycles : Nat) : Machine (State Task Conn) (Label Task Conn) where
  initial := fun state => state = start
  next := next pollCycles

/-- The polling loop goes on to another cycle after a poll with the given result. -/
def Continues (pollCycles i : Nat) (result : Bool) : Prop := counter i result + 1 < pollCycles

/-- A handler here may enqueue local tasks: it runs in the polling loop of two cycles or
more, and not as `onDrained` in the last cycle when that had no completions. -/
def Pc.MayRunLocal (pollCycles : Nat) : Pc Task Conn → Prop
  | .localTasks _ => 1 < pollCycles
  | .tasks (.loop _) _ => 1 < pollCycles
  | .completions (.loop i) _ result _ => Continues pollCycles i result
  | _ => False

/-- A handler here may enqueue draining connections: before the completion context is
polled in the same cycle, before the next cycle, or while the completion context is
still to be put to sleep. -/
def Pc.MayDrain (pollCycles : Nat) (contextSleeping : Bool) : Pc Task Conn → Prop
  | .localTasks _ => True
  | .tasks (.loop _) _ => True
  | .tasks .prepare _ => contextSleeping = false
  | .completions (.loop i) _ result _ =>
      Continues pollCycles i result ∨ contextSleeping = false
  | _ => False

def Timely (pollCycles : Nat) (state : State Task Conn) : Label Task Conn → Prop
  | .handler effect =>
      (effect.tasks = [] ∨ state.pc.MayRunLocal pollCycles) ∧
        (effect.draining = [] ∨ state.pc.MayDrain pollCycles state.contextSleeping)
  | _ => True

instance (pollCycles i : Nat) (result : Bool) : Decidable (Continues pollCycles i result) :=
  inferInstanceAs (Decidable (_ < _))

instance (pollCycles : Nat) : (pc : Pc Task Conn) → Decidable (pc.MayRunLocal pollCycles)
  | .localTasks _ | .tasks (.loop _) _ => inferInstanceAs (Decidable (_ < _))
  | .completions (.loop i) _ result _ => inferInstanceAs (Decidable (Continues pollCycles i result))
  | .head _ | .tasks .prepare _ | .poll _ | .completions .prepare _ _ _ | .sleep =>
      inferInstanceAs (Decidable False)

instance (pollCycles : Nat) (contextSleeping : Bool) :
    (pc : Pc Task Conn) → Decidable (pc.MayDrain pollCycles contextSleeping)
  | .localTasks _ | .tasks (.loop _) _ => inferInstanceAs (Decidable True)
  | .tasks .prepare _ => inferInstanceAs (Decidable (_ = false))
  | .completions (.loop i) _ result _ =>
      inferInstanceAs (Decidable (Continues pollCycles i result ∨ _ = false))
  | .head _ | .poll _ | .completions .prepare _ _ _ | .sleep => inferInstanceAs (Decidable False)

instance [DecidableEq Task] [DecidableEq Conn] (pollCycles : Nat) (state : State Task Conn) :
    (label : Label Task Conn) → Decidable (Timely pollCycles state label)
  | .handler _ => inferInstanceAs (Decidable (_ ∧ _))
  | .proceed | .completions _ | .wake _ _ => inferInstanceAs (Decidable True)

def Pc.PollsLocal (pollCycles : Nat) : Pc Task Conn → Prop
  | .head i => i < pollCycles
  | .localTasks _ => 1 < pollCycles
  | .tasks (.loop i) result => Continues pollCycles i result
  | .poll (.loop i) => i + 1 < pollCycles
  | .completions (.loop i) _ result _ => Continues pollCycles i result
  | _ => False

def Pc.PollsContext (pollCycles : Nat) (contextSleeping : Bool) : Pc Task Conn → Prop
  | .head i => i < pollCycles ∨ contextSleeping = false
  | .localTasks _ => True
  | .tasks (.loop _) _ => True
  | .tasks .prepare _ => contextSleeping = false
  | .poll _ => True
  | .completions (.loop i) _ result _ =>
      Continues pollCycles i result ∨ contextSleeping = false
  | .completions .prepare _ _ _ => False
  | .sleep => False

structure Inv (pollCycles : Nat) (state : State Task Conn) : Prop where
  localTasks : state.localQueue = [] ∨ state.pc.PollsLocal pollCycles
  draining : state.drainingQueue = [] ∨ state.pc.PollsContext pollCycles state.contextSleeping

section Steps

variable {pollCycles : Nat} {state after : State Task Conn}

theorem inv_start : Inv pollCycles (start : State Task Conn) := ⟨.inl rfl, .inl rfl⟩

theorem inv_pollLocal (state : State Task Conn) (i : Nat) :
    Inv pollCycles (state.pollLocal i) := by
  unfold State.pollLocal
  split
  · rename_i hempty
    exact ⟨.inl hempty, .inr trivial⟩
  · exact ⟨.inl rfl, .inr trivial⟩

theorem Inv.prepareContext (hlocal : state.localQueue = [])
    (hdraining : state.drainingQueue = [] ∨ state.contextSleeping = false) :
    Inv pollCycles state.prepareContext := by
  unfold State.prepareContext
  split
  · rename_i hsleeping
    refine ⟨.inl hlocal, .inl (hdraining.resolve_right ?_)⟩
    rw [hsleeping]
    nofun
  · exact ⟨.inl hlocal, .inr trivial⟩

theorem Inv.prepareTasks (hinv : Inv pollCycles state) {i : Nat} (hpc : state.pc = .head i)
    (hdone : ¬ i < pollCycles) : Inv pollCycles state.prepareTasks := by
  have hlocal : state.localQueue = [] := by
    have hpolled := hinv.localTasks
    rw [hpc] at hpolled
    exact hpolled.resolve_right hdone
  have hdraining : state.drainingQueue = [] ∨ state.contextSleeping = false := by
    have hpolled := hinv.draining
    rw [hpc] at hpolled
    exact hpolled.imp_right fun hagain => hagain.resolve_left hdone
  unfold State.prepareTasks
  split
  · exact Inv.prepareContext hlocal hdraining
  · exact ⟨.inl hlocal, hdraining⟩

theorem Inv.tasksDone (hinv : Inv pollCycles state) {caller : Caller} {result : Bool}
    (hpc : state.pc = .tasks caller result) : Inv pollCycles (state.tasksDone result caller) := by
  have hlocal := hinv.localTasks
  have hdraining := hinv.draining
  rw [hpc] at hlocal hdraining
  cases caller with
  | loop i => exact ⟨hlocal, .inr trivial⟩
  | prepare => exact Inv.prepareContext (hlocal.resolve_right id) hdraining

theorem counter_le_of_decide (i num : Nat) : counter i (decide (0 < num)) ≤ i := by
  unfold counter
  split <;> omega

theorem Inv.pollCompletions (hinv : Inv pollCycles state) {caller : Caller}
    (hpc : state.pc = .poll caller) (num : Nat) :
    Inv pollCycles (state.pollCompletions caller num) := by
  have hlocal := hinv.localTasks
  rw [hpc] at hlocal
  refine ⟨hlocal.imp_right ?_, .inl rfl⟩
  cases caller with
  | loop i =>
      intro (hagain : i + 1 < pollCycles)
      have hcounter := counter_le_of_decide i num
      show counter i (decide (0 < num)) + 1 < pollCycles
      omega
  | prepare => exact id

theorem Inv.completionsDone (hinv : Inv pollCycles state) {caller : Caller} {result : Bool}
    (hpc : state.pc = .completions caller 0 result []) :
    Inv pollCycles (state.completionsDone result caller) := by
  have hlocal := hinv.localTasks
  have hdraining := hinv.draining
  rw [hpc] at hlocal hdraining
  cases caller with
  | loop i => exact ⟨hlocal, hdraining⟩
  | prepare => exact ⟨.inl (hlocal.resolve_right id), .inl (hdraining.resolve_right id)⟩

inductive Pc.Handles : Pc Task Conn → Pc Task Conn → Prop where
  | lastLocal (task : Task) : Handles (.localTasks [task]) (.tasks (.loop 0) false)
  | localTask (task : Task) (rest : List Task) :
      Handles (.localTasks (task :: rest)) (.localTasks rest)
  | task (caller : Caller) (result : Bool) :
      Handles (.tasks caller result) (.tasks caller true)
  | completion (caller : Caller) (left : Nat) (result : Bool) (draining : List Conn) :
      Handles (.completions caller (left + 1) result draining)
        (.completions caller left result draining)
  | drained (caller : Caller) (result : Bool) (connection : Conn) (draining : List Conn) :
      Handles (.completions caller 0 result (connection :: draining))
        (.completions caller 0 result draining)

theorem handler_cases {effect : Effect Task Conn}
    (hnext : next pollCycles state (.handler effect) = some after) :
    ∃ pc, after = state.run effect pc ∧ state.pc.Handles pc := by
  simp only [next] at hnext
  split at hnext
  · rename_i hpc
    exact ⟨_, (Option.some.inj hnext).symm, hpc ▸ .lastLocal _⟩
  · rename_i hpc
    exact ⟨_, (Option.some.inj hnext).symm, hpc ▸ .localTask _ _⟩
  · rename_i hpc
    exact ⟨_, (Option.some.inj hnext).symm, hpc ▸ .task _ _⟩
  · rename_i hpc
    exact ⟨_, (Option.some.inj hnext).symm, hpc ▸ .completion _ _ _ _⟩
  · rename_i hpc
    exact ⟨_, (Option.some.inj hnext).symm, hpc ▸ .drained _ _ _ _⟩
  · contradiction

/-- The steps of the poll thread, each with the place where it is made. -/
inductive Step (pollCycles : Nat) (state : State Task Conn) :
    Label Task Conn → State Task Conn → Prop where
  | cycle (i : Nat) (hpc : state.pc = .head i) (hmore : i < pollCycles) :
      Step pollCycles state .proceed (state.pollLocal i)
  | prepare (i : Nat) (hpc : state.pc = .head i) (hdone : ¬ i < pollCycles) :
      Step pollCycles state .proceed state.prepareTasks
  | tasksDone (caller : Caller) (result : Bool) (hpc : state.pc = .tasks caller result) :
      Step pollCycles state .proceed (state.tasksDone result caller)
  | completionsDone (caller : Caller) (result : Bool)
      (hpc : state.pc = .completions caller 0 result []) :
      Step pollCycles state .proceed (state.completionsDone result caller)
  | handler (effect : Effect Task Conn) (pc : Pc Task Conn) (hhandles : state.pc.Handles pc) :
      Step pollCycles state (.handler effect) (state.run effect pc)
  | completions (num : Nat) (caller : Caller) (hpc : state.pc = .poll caller) :
      Step pollCycles state (.completions num) (state.pollCompletions caller num)
  | wake (taskReady contextReady : Bool) (hpc : state.pc = .sleep) :
      Step pollCycles state (.wake taskReady contextReady) { state with
        taskSleeping := state.taskSleeping && !taskReady
        contextSleeping := state.contextSleeping && !contextReady
        pc := .head 0 }

theorem step_of_next {label : Label Task Conn}
    (hnext : next pollCycles state label = some after) : Step pollCycles state label after := by
  cases label with
  | proceed =>
      simp only [next] at hnext
      split at hnext
      · rename_i i hpc
        cases hnext
        split
        · rename_i hmore
          exact .cycle i hpc hmore
        · rename_i hdone
          exact .prepare i hpc hdone
      · rename_i caller result hpc
        cases hnext
        exact .tasksDone caller result hpc
      · rename_i caller result hpc
        cases hnext
        exact .completionsDone caller result hpc
      · contradiction
  | handler effect =>
      obtain ⟨pc, hafter, hhandles⟩ := handler_cases hnext
      rw [hafter]
      exact .handler effect pc hhandles
  | completions num =>
      simp only [next] at hnext
      split at hnext
      · rename_i caller hpc
        cases hnext
        exact .completions num caller hpc
      · contradiction
  | wake taskReady contextReady =>
      simp only [next] at hnext
      split at hnext
      · rename_i hpc
        cases hnext
        exact .wake taskReady contextReady hpc
      · contradiction

theorem Pc.Handles.pollsLocal {before pc : Pc Task Conn} (hhandles : before.Handles pc)
    (hagain : before.PollsLocal pollCycles ∨ before.MayRunLocal pollCycles) :
    pc.PollsLocal pollCycles := by
  cases hhandles with
  | lastLocal | localTask => exact hagain.elim id id
  | task caller result =>
      cases caller with
      | loop i => exact hagain.elim (Nat.lt_of_le_of_lt (Nat.le_add_left 1 _)) id
      | prepare => exact hagain.elim id id
  | completion caller | drained caller => cases caller <;> exact hagain.elim id id

theorem Pc.Handles.pollsContext {before pc : Pc Task Conn} (hhandles : before.Handles pc)
    {contextSleeping : Bool} (hagain : before.PollsContext pollCycles contextSleeping ∨
      before.MayDrain pollCycles contextSleeping) :
    pc.PollsContext pollCycles contextSleeping := by
  cases hhandles with
  | lastLocal | localTask => trivial
  | task caller | completion caller | drained caller =>
      cases caller <;> exact hagain.elim id id

theorem Inv.handler (hinv : Inv pollCycles state) {effect : Effect Task Conn}
    {pc : Pc Task Conn} (htimely : Timely pollCycles state (.handler effect))
    (hhandles : state.pc.Handles pc) : Inv pollCycles (state.run effect pc) := by
  constructor
  · rcases htimely.1 with hnone | hmay
    · rw [State.run, hnone, List.append_nil]
      exact hinv.localTasks.imp_right fun hpolls => hhandles.pollsLocal (.inl hpolls)
    · exact .inr (hhandles.pollsLocal (.inr hmay))
  · rcases htimely.2 with hnone | hmay
    · rw [State.run, hnone, List.append_nil]
      exact hinv.draining.imp_right fun hpolls => hhandles.pollsContext (.inl hpolls)
    · exact .inr (hhandles.pollsContext (.inr hmay))

theorem Inv.next {label : Label Task Conn} (hinv : Inv pollCycles state)
    (htimely : Timely pollCycles state label)
    (hnext : next pollCycles state label = some after) : Inv pollCycles after := by
  cases step_of_next hnext with
  | cycle i _ _ => exact inv_pollLocal state i
  | prepare i hpc hdone => exact hinv.prepareTasks hpc hdone
  | tasksDone caller result hpc => exact hinv.tasksDone hpc
  | completionsDone caller result hpc => exact hinv.completionsDone hpc
  | handler effect pc hhandles => exact hinv.handler htimely hhandles
  | completions num caller hpc => exact hinv.pollCompletions hpc num
  | wake taskReady contextReady hpc =>
      have hlocal := hinv.localTasks
      have hdraining := hinv.draining
      rw [hpc] at hlocal hdraining
      exact ⟨.inl (hlocal.resolve_right id), .inl (hdraining.resolve_right id)⟩

end Steps

section Late

variable {pollCycles : Nat} {state after : State Task Conn}

/-- The local task queue is not polled again before the sleep, whatever happens. -/
def Pc.PastLocal (pollCycles : Nat) : Pc Task Conn → Prop
  | .head i => ¬ i < pollCycles
  | .localTasks _ => ¬ 1 < pollCycles
  | .tasks (.loop _) _ => ¬ 1 < pollCycles
  | .poll (.loop _) => ¬ 1 < pollCycles
  | .completions (.loop i) _ result _ => ¬ Continues pollCycles i result
  | _ => True

theorem Pc.Handles.pastLocal {before pc : Pc Task Conn} (hhandles : before.Handles pc)
    (hpast : before.PastLocal pollCycles ∨ ¬ before.MayRunLocal pollCycles) :
    pc.PastLocal pollCycles := by
  cases hhandles with
  | lastLocal | localTask => exact hpast.elim id id
  | task caller | completion caller | drained caller =>
      cases caller with
      | loop i => exact hpast.elim id id
      | prepare => trivial

theorem Pc.Handles.pastContext {before pc : Pc Task Conn} (hhandles : before.Handles pc)
    {contextSleeping : Bool} (hpast : ¬ before.PollsContext pollCycles contextSleeping ∨
      ¬ before.MayDrain pollCycles contextSleeping) :
    ¬ pc.PollsContext pollCycles contextSleeping := by
  cases hhandles with
  | lastLocal | localTask => exact fun _ => hpast.elim (absurd trivial) (absurd trivial)
  | task caller | completion caller | drained caller =>
      cases caller <;> exact hpast.elim id id

structure LocalLeft (pollCycles : Nat) (state : State Task Conn) : Prop where
  queued : state.localQueue ≠ []
  past : state.pc.PastLocal pollCycles

structure DrainLeft (pollCycles : Nat) (state : State Task Conn) : Prop where
  queued : state.drainingQueue ≠ []
  past : ¬ state.pc.PollsContext pollCycles state.contextSleeping

theorem LocalLeft.prepareContext (hqueued : state.localQueue ≠ []) :
    LocalLeft pollCycles state.prepareContext := by
  unfold State.prepareContext
  split
  · exact ⟨hqueued, trivial⟩
  · exact ⟨hqueued, trivial⟩

theorem LocalLeft.next {label : Label Task Conn} (hleft : LocalLeft pollCycles state)
    (hawake : state.pc ≠ .sleep) (hnext : next pollCycles state label = some after) :
    LocalLeft pollCycles after := by
  have hpast := hleft.past
  cases step_of_next hnext with
  | cycle i hpc hmore =>
      rw [hpc] at hpast
      exact absurd hmore hpast
  | prepare i _ _ =>
      unfold State.prepareTasks
      split
      · exact LocalLeft.prepareContext hleft.queued
      · exact ⟨hleft.queued, trivial⟩
  | tasksDone caller result hpc =>
      rw [hpc] at hpast
      cases caller with
      | loop i => exact ⟨hleft.queued, hpast⟩
      | prepare => exact LocalLeft.prepareContext hleft.queued
  | completionsDone caller result hpc =>
      rw [hpc] at hpast
      cases caller with
      | loop i => exact ⟨hleft.queued, hpast⟩
      | prepare => exact ⟨hleft.queued, trivial⟩
  | handler effect pc hhandles =>
      exact ⟨List.append_ne_nil_of_left_ne_nil hleft.queued _, hhandles.pastLocal (.inl hpast)⟩
  | completions num caller hpc =>
      rw [hpc] at hpast
      cases caller with
      | loop i =>
          refine ⟨hleft.queued, fun hagain => hpast ?_⟩
          exact Nat.lt_of_le_of_lt (Nat.le_add_left 1 _) hagain
      | prepare => exact ⟨hleft.queued, trivial⟩
  | wake _ _ hpc => exact absurd hpc hawake

theorem DrainLeft.prepareContext (hqueued : state.drainingQueue ≠ [])
    (hsleeping : ¬ state.contextSleeping = false) :
    DrainLeft pollCycles state.prepareContext := by
  unfold State.prepareContext
  rw [if_pos (Bool.not_eq_false _ ▸ hsleeping)]
  exact ⟨hqueued, id⟩

theorem DrainLeft.next {label : Label Task Conn} (hleft : DrainLeft pollCycles state)
    (hawake : state.pc ≠ .sleep) (hnext : next pollCycles state label = some after) :
    DrainLeft pollCycles after := by
  have hpast := hleft.past
  cases step_of_next hnext with
  | cycle i hpc hmore =>
      rw [hpc] at hpast
      exact absurd (.inl hmore) hpast
  | prepare i hpc _ =>
      rw [hpc] at hpast
      have hsleeping : ¬ state.contextSleeping = false := fun hnot => hpast (.inr hnot)
      unfold State.prepareTasks
      split
      · exact DrainLeft.prepareContext hleft.queued hsleeping
      · exact ⟨hleft.queued, hsleeping⟩
  | tasksDone caller result hpc =>
      rw [hpc] at hpast
      cases caller with
      | loop i => exact absurd trivial hpast
      | prepare => exact DrainLeft.prepareContext hleft.queued hpast
  | completionsDone caller result hpc =>
      rw [hpc] at hpast
      cases caller with
      | loop i => exact ⟨hleft.queued, hpast⟩
      | prepare => exact ⟨hleft.queued, id⟩
  | handler effect pc hhandles =>
      exact ⟨List.append_ne_nil_of_left_ne_nil hleft.queued _, hhandles.pastContext (.inl hpast)⟩
  | completions num caller hpc =>
      rw [hpc] at hpast
      exact absurd trivial hpast
  | wake _ _ hpc => exact absurd hpc hawake

theorem late_work_left {effect : Effect Task Conn} {asleep : State Task Conn}
    (hlate : ¬ Timely pollCycles state (.handler effect))
    (hnext : next pollCycles state (.handler effect) = some after)
    (hpath : (machine pollCycles).Path (fun state _ => state.pc ≠ .sleep) after asleep) :
    asleep.localQueue ≠ [] ∨ asleep.drainingQueue ≠ [] := by
  obtain ⟨pc, rfl, hhandles⟩ := handler_cases hnext
  rcases not_and_or.mp hlate with hlocal | hdraining
  · rw [not_or] at hlocal
    have hleft : LocalLeft pollCycles (state.run effect pc) :=
      ⟨List.append_ne_nil_of_right_ne_nil _ hlocal.1, hhandles.pastLocal (.inr hlocal.2)⟩
    exact .inl (hpath.preserves (LocalLeft pollCycles)
      (fun _ _ _ hbefore hawake hstep => hbefore.next hawake hstep) hleft).queued
  · rw [not_or] at hdraining
    have hleft : DrainLeft pollCycles (state.run effect pc) :=
      ⟨List.append_ne_nil_of_right_ne_nil _ hdraining.1, hhandles.pastContext (.inr hdraining.2)⟩
    exact .inr (hpath.preserves (DrainLeft pollCycles)
      (fun _ _ _ hbefore hawake hstep => hbefore.next hawake hstep) hleft).queued

end Late

/-- With timely handlers nothing is left when the thread goes to sleep, and what a handler
enqueues too late is left at the next sleep. -/
theorem sleeps_without_work (pollCycles : Nat) (state : State Task Conn)
    (hreach : (machine pollCycles).ReachableUnder (Timely pollCycles) state) :
    (state.pc = .sleep → state.localQueue = [] ∧ state.drainingQueue = []) ∧
      ∀ effect after asleep, ¬ Timely pollCycles state (.handler effect) →
        next pollCycles state (.handler effect) = some after →
        (machine pollCycles).Path (fun state _ => state.pc ≠ .sleep) after asleep →
        asleep.localQueue ≠ [] ∨ asleep.drainingQueue ≠ [] := by
  refine ⟨?_, fun _ _ _ hlate hnext hpath => late_work_left hlate hnext hpath⟩
  intro hsleep
  have hinv : Inv pollCycles state := by
    apply hreach.invariant (Inv pollCycles)
    · rintro _ rfl
      exact inv_start
    · intro before label after hinv htimely hnext
      exact hinv.next htimely hnext
  have hlocal := hinv.localTasks
  have hdraining := hinv.draining
  rw [hsleep] at hlocal hdraining
  exact ⟨hlocal.resolve_right id, hdraining.resolve_right id⟩

def busyCycles : List (Label Nat Nat) :=
  [.proceed, .proceed, .completions 1, .handler ⟨[7], []⟩, .proceed,
    .proceed, .handler ⟨[], [5]⟩, .proceed, .completions 0, .handler ⟨[], []⟩, .proceed,
    .proceed, .proceed, .completions 0, .proceed,
    .proceed, .proceed, .completions 0, .proceed]

theorem busy_cycles_sleep :
    ∃ state : State Nat Nat, (machine 2).ReachableUnder (Timely 2) state ∧ state.pc = .sleep ∧
      state.localQueue = [] ∧ state.drainingQueue = [] := by
  obtain ⟨state, hreach, htest⟩ := (machine 2).exists_reachableUnder_of_replay (Timely 2)
    start busyCycles
    (fun state => decide (state.pc = .sleep)) rfl (by decide +kernel)
  have hsleep := of_decide_eq_true htest
  exact ⟨state, hreach, hsleep, (sleeps_without_work 2 state hreach).1 hsleep⟩

/-- Two idle cycles, then a completion that `prepareSleep()` finds and whose handler
schedules a flush. -/
def lateCompletion : List (Label Nat Nat) :=
  [.proceed, .proceed, .completions 0, .proceed, .proceed, .proceed, .completions 0, .proceed,
    .proceed, .proceed, .completions 1, .handler ⟨[7], []⟩, .proceed]

theorem flush_left_at_sleep :
    ¬ ∀ (pollCycles : Nat) (state : State Nat Nat), (machine pollCycles).Reachable state →
      state.pc = .sleep → state.localQueue = [] ∧ state.drainingQueue = [] := by
  intro hall
  obtain ⟨state, hreach, htest⟩ := (machine 2).exists_reachable_of_replay start lateCompletion
    (fun state => decide (state.pc = .sleep ∧ state.localQueue = [7]))
    rfl (by decide +kernel)
  obtain ⟨hsleep, hqueue⟩ := of_decide_eq_true htest
  have hempty := (hall 2 state hreach hsleep).1
  rw [hqueue] at hempty
  contradiction

end Crossbow.Infinio.EventLoop
