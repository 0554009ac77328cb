import Crossbow.Kernel.Machine
import Crossbow.Kernel.Word
import Mathlib.Data.Finset.Basic
import Mathlib.Logic.Function.Basic

/-! Completion tracking of the verbs context. Completed operation ids are kept as a
watermark and a set of ids above it. A thread polls the completion queue before it
takes the lock, so ids are registered in another order than they were polled. -/
namespace Crossbow.InfinityVerbs.Context
open Kernel

/-- A running `checkIfOperationCompleted`, or `waitUntilOperationCompleted` around it. -/
structure Call where
  operationId : Nat
  waits : Bool
  deriving DecidableEq, Repr

inductive Pc where
  | idle
  | poll (call : Call)
  | registerLock (call : Call) (requestId : Nat)
  | register (call : Call) (requestId : Nat)
  | drain (call : Call)
  | registerUnlock (call : Call)
  | checkLock (call : Call)
  | check (call : Call)
  | checkUnlock (call : Call) (result : Bool)
  deriving DecidableEq, Repr

/-- `sendQueue` is the send completion queue. `issued` lists what `getNextOperationId`
returned, `completed` what the device put into the queue, and `registered` the ids
whose locked update ran. -/
structure State (Thread : Type) where
  operationIdCounter : Nat
  completedBaseCounter : Nat
  requestCompletionSet : Finset Nat
  completedSetLock : Option Thread
  pc : Thread → Pc
  sendQueue : List Nat
  issued : List Nat
  completed : List Nat
  registered : List Nat

inductive Label (Thread : Type) where
  | getNextOperationId
  | complete (operationId : Nat)
  | call (thread : Thread) (call : Call)
  | step (thread : Thread)
  deriving DecidableEq, Repr

variable {Thread : Type} [DecidableEq Thread] {base : Nat} {above : Finset Nat}
  {registered : List Nat}

def State.goto (state : State Thread) (thread : Thread) (pc : Pc) : State Thread :=
  { state with pc := Function.update state.pc thread pc }

omit [DecidableEq Thread] in
/-- `operationId <= completedBaseCounter || requestCompletionSet.count(operationId) > 0` -/
def State.isCompleted (state : State Thread) (operationId : Nat) : Bool :=
  decide (operationId ≤ state.completedBaseCounter) ||
    decide (operationId ∈ state.requestCompletionSet)

/-- One step of a thread. `none` at a lock means that the thread is blocked. -/
def advance (state : State Thread) (thread : Thread) : Option (State Thread) :=
  match state.pc thread with
  | .idle => none
  | .poll call =>
      match state.sendQueue with
      | [] => some (state.goto thread (.checkLock call))
      | requestId :: rest =>
          -- `pollNextComplitionElement` returns 0 for an empty queue
          if requestId > 0 then
            some { state.goto thread (.registerLock call requestId) with sendQueue := rest }
          else some { state.goto thread (.checkLock call) with sendQueue := rest }
  | .registerLock call requestId =>
      match state.completedSetLock with
      | none =>
          some { state.goto thread (.register call requestId) with
            completedSetLock := some thread }
      | some _ => none
  | .register call requestId =>
      let updated := { state with registered := state.registered ++ [requestId] }
      if requestId = wrap (state.completedBaseCounter + 1) then
        some { updated.goto thread (.drain call) with
          completedBaseCounter := wrap (state.completedBaseCounter + 1) }
      else
        some { updated.goto thread (.registerUnlock call) with
          requestCompletionSet := insert requestId state.requestCompletionSet }
  | .drain call =>
      let following := wrap (state.completedBaseCounter + 1)
      if following ∈ state.requestCompletionSet then
        some { state with
          requestCompletionSet := state.requestCompletionSet.erase following
          completedBaseCounter := following }
      else some (state.goto thread (.registerUnlock call))
  | .registerUnlock call =>
      some { state.goto thread (.checkLock call) with completedSetLock := none }
  | .checkLock call =>
      match state.completedSetLock with
      | none => some { state.goto thread (.check call) with completedSetLock := some thread }
      | some _ => none
  | .check call =>
      some (state.goto thread (.checkUnlock call (state.isCompleted call.operationId)))
  | .checkUnlock call result =>
      some { state.goto thread (if call.waits && !result then .poll call else .idle) with
        completedSetLock := none }

/-- The device completes an operation that was issued, at most once. A completion
with an error status ends the process and is left out. -/
def next (state : State Thread) : Label Thread → Option (State Thread)
  | .getNextOperationId =>
      some { state with
        operationIdCounter := wrap (state.operationIdCounter + 1)
        issued := state.issued ++ [state.operationIdCounter] }
  | .complete operationId =>
      if operationId ∈ state.issued ∧ operationId ∉ state.completed then
        some { state with
          sendQueue := state.sendQueue ++ [operationId]
          completed := state.completed ++ [operationId] }
      else none
  | .call thread call =>
      match state.pc thread with
      | .idle => some (state.goto thread (.poll call))
      | _ => none
  | .step thread => advance state thread

def start : State Thread where
  operationIdCounter := 1
  completedBaseCounter := 0
  requestCompletionSet := ∅
  completedSetLock := none
  pc := fun _ => .idle
  sendQueue := []
  issued := []
  completed := []
  registered := []

def machine : Machine (State Thread) (Label Thread) where
  initial := fun state => state = start
  next := next

def Pc.polled : Pc → Option Nat
  | .registerLock _ requestId | .register _ requestId => some requestId
  | _ => none

def Pc.locked : Pc → Bool
  | .register .. | .drain .. | .registerUnlock .. | .check .. | .checkUnlock .. => true
  | _ => false

def Pc.draining : Pc → Bool
  | .drain .. => true
  | _ => false

/-- Where the completed ids are: each is queued, polled by one thread or registered. -/
structure Flow (sendQueue completed registered : List Nat) (polled : Thread → Option Nat) :
    Prop where
  queue_nodup : sendQueue.Nodup
  queue_completed : ∀ id ∈ sendQueue, id ∈ completed
  registered_completed : ∀ id ∈ registered, id ∈ completed
  queue_fresh : ∀ id ∈ sendQueue, id ∉ registered
  polled_pos : ∀ thread id, polled thread = some id → 0 < id
  polled_completed : ∀ thread id, polled thread = some id → id ∈ completed
  polled_not_queued : ∀ thread id, polled thread = some id → id ∉ sendQueue
  polled_fresh : ∀ thread id, polled thread = some id → id ∉ registered
  polled_once : ∀ first second id, polled first = some id → polled second = some id →
    first = second

structure Tracks (base : Nat) (above : Finset Nat) (registered : List Nat) : Prop where
  positive : ∀ id ∈ registered, 0 < id
  range : ∀ id ∈ registered, id < wordRange
  below_base : ∀ id, 0 < id → id ≤ base → id ∈ registered
  above_base : ∀ id, id ∈ above ↔ id ∈ registered ∧ base < id

theorem Tracks.base_lt (htracks : Tracks base above registered) : base < wordRange := by
  by_cases hzero : base = 0
  · rw [hzero]
    exact wordRange_pos
  · exact htracks.range base (htracks.below_base base (Nat.pos_of_ne_zero hzero) (Nat.le_refl _))

theorem eq_succ_of_eq_wrap {id : Nat} (hbase : base < wordRange) (hpos : 0 < id)
    (hid : id = wrap (base + 1)) : wrap (base + 1) = base + 1 := by
  apply wrap_of_lt
  by_contra hlarge
  have hfull : base + 1 = wordRange := by omega
  rw [hfull] at hid
  unfold wrap at hid
  rw [Nat.mod_self] at hid
  omega

omit [DecidableEq Thread] in
theorem Tracks.isCompleted_iff {state : State Thread} {id : Nat}
    (htracks : Tracks state.completedBaseCounter state.requestCompletionSet state.registered)
    (hpos : 0 < id) : state.isCompleted id = true ↔ id ∈ state.registered := by
  unfold State.isCompleted
  rw [Bool.or_eq_true, decide_eq_true_iff, decide_eq_true_iff, htracks.above_base]
  constructor
  · rintro (hle | ⟨hmem, _⟩)
    · exact htracks.below_base id hpos hle
    · exact hmem
  · intro hmem
    by_cases hle : id ≤ state.completedBaseCounter
    · exact .inl hle
    · exact .inr ⟨hmem, by omega⟩

theorem Tracks.succ (htracks : Tracks base above registered) (hfresh : base + 1 ∉ registered)
    (hrange : base + 1 < wordRange) : Tracks (base + 1) above (registered ++ [base + 1]) where
  positive := by
    intro id hid
    rcases List.mem_append.mp hid with hold | hnew
    · exact htracks.positive id hold
    · rw [List.mem_singleton.mp hnew]
      omega
  range := by
    intro id hid
    rcases List.mem_append.mp hid with hold | hnew
    · exact htracks.range id hold
    · rw [List.mem_singleton.mp hnew]
      exact hrange
  below_base := by
    intro id hpos hle
    by_cases hlast : id = base + 1
    · simp [hlast]
    · exact List.mem_append_left _ (htracks.below_base id hpos (by omega))
  above_base := by
    intro id
    rw [htracks.above_base, List.mem_append, List.mem_singleton]
    constructor
    · rintro ⟨hmem, hlt⟩
      have hne : id ≠ base + 1 := fun heq => hfresh (heq ▸ hmem)
      exact ⟨.inl hmem, by omega⟩
    · rintro ⟨hmem | heq, hlt⟩
      · exact ⟨hmem, by omega⟩
      · omega

theorem Tracks.insert {id : Nat} (htracks : Tracks base above registered) (hpos : 0 < id)
    (hrange : id < wordRange)
    (hfresh : id ∉ registered) : Tracks base (insert id above) (registered ++ [id]) where
  positive := by
    intro other hother
    rcases List.mem_append.mp hother with hold | hnew
    · exact htracks.positive other hold
    · rw [List.mem_singleton.mp hnew]
      exact hpos
  range := by
    intro other hother
    rcases List.mem_append.mp hother with hold | hnew
    · exact htracks.range other hold
    · rw [List.mem_singleton.mp hnew]
      exact hrange
  below_base := fun other hother hle =>
    List.mem_append_left _ (htracks.below_base other hother hle)
  above_base := by
    intro other
    have habove : base < id := by
      by_contra hle
      exact hfresh (htracks.below_base id hpos (by omega))
    rw [Finset.mem_insert, htracks.above_base, List.mem_append, List.mem_singleton]
    constructor
    · rintro (rfl | ⟨hmem, hlt⟩)
      · exact ⟨.inr rfl, habove⟩
      · exact ⟨.inl hmem, hlt⟩
    · rintro ⟨hmem | rfl, hlt⟩
      · exact .inr ⟨hmem, hlt⟩
      · exact .inl rfl

theorem Tracks.drain (htracks : Tracks base above registered) (hmem : base + 1 ∈ above) :
    Tracks (base + 1) (above.erase (base + 1)) registered where
  positive := htracks.positive
  range := htracks.range
  below_base := by
    intro id hpos hle
    by_cases hlast : id = base + 1
    · rw [hlast]
      exact ((htracks.above_base _).mp hmem).1
    · exact htracks.below_base id hpos (by omega)
  above_base := by
    intro id
    rw [Finset.mem_erase, htracks.above_base]
    constructor
    · rintro ⟨hne, hregistered, hlt⟩
      exact ⟨hregistered, by omega⟩
    · rintro ⟨hregistered, hlt⟩
      exact ⟨by omega, hregistered, by omega⟩

section Flow

variable {sendQueue completed registered : List Nat} {polled : Thread → Option Nat}

omit [DecidableEq Thread] in
theorem Flow.complete (hflow : Flow sendQueue completed registered polled) {id : Nat}
    (hfresh : id ∉ completed) : Flow (sendQueue ++ [id]) (completed ++ [id]) registered polled where
  queue_nodup := by
    rw [List.nodup_append]
    refine ⟨hflow.queue_nodup, List.nodup_singleton id, ?_⟩
    intro queued hqueued other hother heq
    rw [List.mem_singleton.mp hother] at heq
    exact hfresh (heq ▸ hflow.queue_completed queued hqueued)
  queue_completed := by
    intro other hother
    rcases List.mem_append.mp hother with hold | hnew
    · exact List.mem_append_left _ (hflow.queue_completed other hold)
    · exact List.mem_append_right _ hnew
  registered_completed := fun other hother =>
    List.mem_append_left _ (hflow.registered_completed other hother)
  queue_fresh := by
    intro other hother hregistered
    rcases List.mem_append.mp hother with hold | hnew
    · exact hflow.queue_fresh other hold hregistered
    · rw [List.mem_singleton.mp hnew] at hregistered
      exact hfresh (hflow.registered_completed id hregistered)
  polled_pos := hflow.polled_pos
  polled_completed := fun thread other hother =>
    List.mem_append_left _ (hflow.polled_completed thread other hother)
  polled_not_queued := by
    intro thread other hother hqueued
    rcases List.mem_append.mp hqueued with hold | hnew
    · exact hflow.polled_not_queued thread other hother hold
    · rw [List.mem_singleton.mp hnew] at hother
      exact hfresh (hflow.polled_completed thread id hother)
  polled_fresh := hflow.polled_fresh
  polled_once := hflow.polled_once

omit [DecidableEq Thread] in
theorem Flow.skip {head : Nat} {rest : List Nat}
    (hflow : Flow (head :: rest) completed registered polled) :
    Flow rest completed registered polled where
  queue_nodup := (List.nodup_cons.mp hflow.queue_nodup).2
  queue_completed := fun id hid => hflow.queue_completed id (List.mem_cons_of_mem _ hid)
  registered_completed := hflow.registered_completed
  queue_fresh := fun id hid => hflow.queue_fresh id (List.mem_cons_of_mem _ hid)
  polled_pos := hflow.polled_pos
  polled_completed := hflow.polled_completed
  polled_not_queued := fun thread id hid hqueued =>
    hflow.polled_not_queued thread id hid (List.mem_cons_of_mem _ hqueued)
  polled_fresh := hflow.polled_fresh
  polled_once := hflow.polled_once

theorem Flow.poll {head : Nat} {rest : List Nat} {thread : Thread}
    (hflow : Flow (head :: rest) completed registered polled) (hpos : 0 < head) :
    Flow rest completed registered (Function.update polled thread (some head)) := by
  have hqueued : head ∈ head :: rest := List.mem_cons_self
  have hskip := hflow.skip
  have hcases : ∀ other id, Function.update polled thread (some head) other = some id →
      other = thread ∧ id = head ∨ other ≠ thread ∧ polled other = some id := by
    intro other id hid
    by_cases hsame : other = thread
    · subst hsame
      rw [Function.update_self] at hid
      exact .inl ⟨rfl, (Option.some.inj hid).symm⟩
    · rw [Function.update_of_ne hsame] at hid
      exact .inr ⟨hsame, hid⟩
  refine ⟨hskip.queue_nodup, hskip.queue_completed, hskip.registered_completed,
    hskip.queue_fresh, ?_, ?_, ?_, ?_, ?_⟩
  · intro other id hid
    rcases hcases other id hid with ⟨_, rfl⟩ | ⟨_, hold⟩
    · exact hpos
    · exact hskip.polled_pos other id hold
  · intro other id hid
    rcases hcases other id hid with ⟨_, rfl⟩ | ⟨_, hold⟩
    · exact hflow.queue_completed id hqueued
    · exact hskip.polled_completed other id hold
  · intro other id hid
    rcases hcases other id hid with ⟨_, rfl⟩ | ⟨_, hold⟩
    · exact (List.nodup_cons.mp hflow.queue_nodup).1
    · exact hskip.polled_not_queued other id hold
  · intro other id hid
    rcases hcases other id hid with ⟨_, rfl⟩ | ⟨_, hold⟩
    · exact hflow.queue_fresh id hqueued
    · exact hskip.polled_fresh other id hold
  · intro first second id hfirst hsecond
    rcases hcases first id hfirst with ⟨hone, hhead⟩ | ⟨_, hone⟩
    · rcases hcases second id hsecond with ⟨htwo, _⟩ | ⟨_, htwo⟩
      · rw [hone, htwo]
      · rw [hhead] at htwo
        exact absurd hqueued (hflow.polled_not_queued second head htwo)
    · rcases hcases second id hsecond with ⟨_, hhead⟩ | ⟨_, htwo⟩
      · rw [hhead] at hone
        exact absurd hqueued (hflow.polled_not_queued first head hone)
      · exact hskip.polled_once first second id hone htwo

theorem Flow.register {id : Nat} {thread : Thread}
    (hflow : Flow sendQueue completed registered polled) (hpolled : polled thread = some id) :
    Flow sendQueue completed (registered ++ [id]) (Function.update polled thread none) := by
  have hothers : ∀ other number, Function.update polled thread none other = some number →
      other ≠ thread ∧ polled other = some number := by
    intro other number hnumber
    by_cases hsame : other = thread
    · subst hsame
      rw [Function.update_self] at hnumber
      contradiction
    · rw [Function.update_of_ne hsame] at hnumber
      exact ⟨hsame, hnumber⟩
  refine ⟨hflow.queue_nodup, hflow.queue_completed, ?_, ?_, ?_, ?_, ?_, ?_, ?_⟩
  · intro number hnumber
    rcases List.mem_append.mp hnumber with hold | hnew
    · exact hflow.registered_completed number hold
    · rw [List.mem_singleton.mp hnew]
      exact hflow.polled_completed thread id hpolled
  · intro number hqueued hnumber
    rcases List.mem_append.mp hnumber with hold | hnew
    · exact hflow.queue_fresh number hqueued hold
    · rw [List.mem_singleton.mp hnew] at hqueued
      exact hflow.polled_not_queued thread id hpolled hqueued
  · exact fun other number hnumber => hflow.polled_pos other number (hothers other number hnumber).2
  · exact fun other number hnumber =>
      hflow.polled_completed other number (hothers other number hnumber).2
  · exact fun other number hnumber =>
      hflow.polled_not_queued other number (hothers other number hnumber).2
  · intro other number hnumber hmem
    obtain ⟨hne, hold⟩ := hothers other number hnumber
    rcases List.mem_append.mp hmem with hregistered | hnew
    · exact hflow.polled_fresh other number hold hregistered
    · rw [List.mem_singleton.mp hnew] at hold
      exact hne (hflow.polled_once other thread id hold hpolled)
  · intro first second number hfirst hsecond
    exact hflow.polled_once first second number (hothers first number hfirst).2
      (hothers second number hsecond).2

end Flow

def Pc.Answers (registered : List Nat) : Pc → Prop
  | .checkUnlock call result =>
      0 < call.operationId → (result = true ↔ call.operationId ∈ registered)
  | _ => True

structure Inv (state : State Thread) : Prop where
  counter_lt : state.operationIdCounter < wordRange
  issued_lt : ∀ id ∈ state.issued, id < wordRange
  completed_issued : ∀ id ∈ state.completed, id ∈ state.issued
  flow : Flow state.sendQueue state.completed state.registered fun thread =>
    (state.pc thread).polled
  tracks : Tracks state.completedBaseCounter state.requestCompletionSet state.registered
  held : ∀ thread, (state.pc thread).locked = true ↔ state.completedSetLock = some thread
  gap : (∀ thread, (state.pc thread).draining = false) →
    wrap (state.completedBaseCounter + 1) ∉ state.requestCompletionSet
  answers : ∀ thread, (state.pc thread).Answers state.registered

section Threads

variable {lock lockAfter : Option Thread} {pcs : Thread → Pc} {thread : Thread} {pc : Pc}

theorem held_update (hheld : ∀ other, (pcs other).locked = true ↔ lock = some other)
    (hself : pc.locked = true ↔ lockAfter = some thread)
    (hothers : ∀ other, other ≠ thread → (lockAfter = some other ↔ lock = some other)) :
    ∀ other, (Function.update pcs thread pc other).locked = true ↔ lockAfter = some other := by
  intro other
  by_cases hsame : other = thread
  · subst hsame
    rw [Function.update_self]
    exact hself
  · rw [Function.update_of_ne hsame, hothers other hsame]
    exact hheld other

theorem polled_update (pcs : Thread → Pc) (thread : Thread) (pc : Pc) :
    (fun other => (Function.update pcs thread pc other).polled) =
      Function.update (fun other => (pcs other).polled) thread pc.polled := by
  funext other
  exact Function.apply_update (fun _ => Pc.polled) pcs thread pc other

theorem draining_before (hself : (pcs thread).draining = false)
    (hafter : ∀ other, (Function.update pcs thread pc other).draining = false) :
    ∀ other, (pcs other).draining = false := by
  intro other
  by_cases hsame : other = thread
  · rw [hsame]
    exact hself
  · have hother := hafter other
    rwa [Function.update_of_ne hsame] at hother

theorem answers_update {registered : List Nat} (hself : pc.Answers registered)
    (hothers : ∀ other, other ≠ thread → (pcs other).Answers registered) :
    ∀ other, (Function.update pcs thread pc other).Answers registered := by
  intro other
  by_cases hsame : other = thread
  · rw [hsame, Function.update_self]
    exact hself
  · rw [Function.update_of_ne hsame]
    exact hothers other hsame

end Threads

section Steps

variable {state after : State Thread} {thread : Thread} {pc : Pc}

theorem Inv.move (hinv : Inv state) {sendQueue : List Nat} {lock : Option Thread}
    (hflow : Flow sendQueue state.completed state.registered
      (Function.update (fun other => (state.pc other).polled) thread pc.polled))
    (hself : pc.locked = true ↔ lock = some thread)
    (hothers : ∀ other, other ≠ thread →
      (lock = some other ↔ state.completedSetLock = some other))
    (hgap : (state.pc thread).draining = false ∨
      wrap (state.completedBaseCounter + 1) ∉ state.requestCompletionSet)
    (hanswer : pc.Answers state.registered) :
    Inv { state.goto thread pc with sendQueue := sendQueue, completedSetLock := lock } where
  counter_lt := hinv.counter_lt
  issued_lt := hinv.issued_lt
  completed_issued := hinv.completed_issued
  flow := by
    rw [← polled_update] at hflow
    exact hflow
  tracks := hinv.tracks
  held := held_update hinv.held hself hothers
  gap := by
    intro hafter
    rcases hgap with hbefore | habsent
    · exact hinv.gap (draining_before hbefore hafter)
    · exact habsent
  answers := answers_update hanswer fun other _ => hinv.answers other

theorem Inv.same_polled (hinv : Inv state) (hsame : pc.polled = (state.pc thread).polled) :
    Flow state.sendQueue state.completed state.registered
      (Function.update (fun other => (state.pc other).polled) thread pc.polled) := by
  rw [hsame, Function.update_eq_self thread fun other => (state.pc other).polled]
  exact hinv.flow

omit [DecidableEq Thread] in
theorem Inv.lock_of_locked (hinv : Inv state) (hlocked : (state.pc thread).locked = true) :
    state.completedSetLock = some thread := (hinv.held thread).mp hlocked

omit [DecidableEq Thread] in
theorem Inv.unlocked_others (hinv : Inv state) (hlocked : (state.pc thread).locked = true)
    {other : Thread} (hne : other ≠ thread) : (state.pc other).locked = false := by
  rw [Bool.eq_false_iff]
  intro hother
  have hlock := hinv.lock_of_locked hother
  rw [hinv.lock_of_locked hlocked] at hlock
  exact hne (Option.some.inj hlock).symm

theorem Pc.answers_of_unlocked (hunlocked : pc.locked = false) (registered : List Nat) :
    pc.Answers registered := by
  cases pc with
  | checkUnlock => contradiction
  | _ => trivial

theorem Pc.draining_of_unlocked (hunlocked : pc.locked = false) :
    pc.draining = false := by
  cases pc with
  | drain => contradiction
  | _ => rfl

omit [DecidableEq Thread] in
theorem release_others {lock : Option Thread} (hlock : lock = some thread) :
    ∀ other, other ≠ thread → (none = some other ↔ lock = some other) := by
  intro other hne
  rw [hlock]
  simpa using fun heq : thread = other => hne heq.symm

omit [DecidableEq Thread] in
theorem acquire_others {lock : Option Thread} (hlock : lock = none) :
    ∀ other, other ≠ thread → (some thread = some other ↔ lock = some other) := by
  intro other hne
  rw [hlock]
  simpa using fun heq : thread = other => hne heq.symm

theorem Inv.register (hinv : Inv state) {call : Call} {requestId : Nat}
    (hpc : state.pc thread = .register call requestId)
    (hadvance : advance state thread = some after) : Inv after := by
  have hpolled : (state.pc thread).polled = some requestId := by
    rw [hpc]
    rfl
  have hlocked : (state.pc thread).locked = true := by
    rw [hpc]
    rfl
  have hlock := hinv.lock_of_locked hlocked
  have hflow := hinv.flow.register hpolled
  have hpos := hinv.flow.polled_pos thread requestId hpolled
  have hfresh := hinv.flow.polled_fresh thread requestId hpolled
  have hrange := hinv.issued_lt requestId
    (hinv.completed_issued requestId (hinv.flow.polled_completed thread requestId hpolled))
  have hanswers : ∀ other, other ≠ thread →
      (state.pc other).Answers (state.registered ++ [requestId]) := fun other hne =>
    Pc.answers_of_unlocked (hinv.unlocked_others hlocked hne) _
  simp only [advance, hpc] at hadvance
  split at hadvance
  · rename_i hnext
    have hsucc := eq_succ_of_eq_wrap hinv.tracks.base_lt hpos hnext
    cases hadvance
    refine ⟨hinv.counter_lt, hinv.issued_lt, hinv.completed_issued, ?_, ?_, ?_, ?_, ?_⟩
    · rw [show none = (Pc.drain call).polled from rfl, ← polled_update] at hflow
      exact hflow
    · rw [hsucc] at hnext ⊢
      subst hnext
      exact hinv.tracks.succ hfresh hrange
    · exact held_update hinv.held (by simp [Pc.locked, State.goto, hlock]) fun _ _ => Iff.rfl
    · intro hnone
      have hself := hnone thread
      simp [State.goto, Pc.draining] at hself
    · exact answers_update trivial hanswers
  · rename_i hother
    cases hadvance
    refine ⟨hinv.counter_lt, hinv.issued_lt, hinv.completed_issued, ?_, ?_, ?_, ?_, ?_⟩
    · rw [show none = (Pc.registerUnlock call).polled from rfl, ← polled_update] at hflow
      exact hflow
    · exact hinv.tracks.insert hpos hrange hfresh
    · exact held_update hinv.held (by simp [Pc.locked, State.goto, hlock]) fun _ _ => Iff.rfl
    · intro hafter hmem
      have hbefore := draining_before (by rw [hpc]; rfl) hafter
      rcases Finset.mem_insert.mp hmem with heq | hold
      · exact hother heq.symm
      · exact hinv.gap hbefore hold
    · exact answers_update trivial hanswers

theorem Inv.drain (hinv : Inv state) {call : Call} (hpc : state.pc thread = .drain call)
    (hadvance : advance state thread = some after) : Inv after := by
  have hlocked : (state.pc thread).locked = true := by
    rw [hpc]
    rfl
  have hlock := hinv.lock_of_locked hlocked
  simp only [advance, hpc] at hadvance
  split at hadvance
  · rename_i hmem
    have hpos := hinv.tracks.positive _ ((hinv.tracks.above_base _).mp hmem).1
    have hsucc := eq_succ_of_eq_wrap hinv.tracks.base_lt hpos rfl
    cases hadvance
    refine ⟨hinv.counter_lt, hinv.issued_lt, hinv.completed_issued, hinv.flow, ?_, hinv.held, ?_,
      hinv.answers⟩
    · rw [hsucc] at hmem ⊢
      exact hinv.tracks.drain hmem
    · intro hnone
      have hself := hnone thread
      rw [hpc] at hself
      contradiction
  · rename_i hmem
    cases hadvance
    refine hinv.move (hinv.same_polled ?_) ?_ (fun _ _ => Iff.rfl) (.inr hmem) trivial
    · rw [hpc]
      rfl
    · simp [Pc.locked, hlock]

theorem Inv.advance (hinv : Inv state) (hadvance : advance state thread = some after) :
    Inv after := by
  have hown := hinv.held thread
  cases hpc : state.pc thread with
  | idle =>
      simp [Context.advance, hpc] at hadvance
  | poll call =>
      have hfree : ¬ state.completedSetLock = some thread := by
        rw [← hown, hpc]
        simp [Pc.locked]
      simp only [Context.advance, hpc] at hadvance
      split at hadvance
      · cases hadvance
        exact hinv.move (hinv.same_polled (by rw [hpc]; rfl)) (by simp [Pc.locked, hfree])
          (fun _ _ => Iff.rfl) (.inl (by rw [hpc]; rfl)) trivial
      · rename_i requestId rest hqueue
        have hflow := hinv.flow
        rw [hqueue] at hflow
        split at hadvance
        · rename_i hpos
          cases hadvance
          exact hinv.move (hflow.poll hpos) (by simp [Pc.locked, State.goto, hfree])
            (fun _ _ => Iff.rfl) (.inl (by rw [hpc]; rfl)) trivial
        · cases hadvance
          refine hinv.move ?_ (by simp [Pc.locked, State.goto, hfree]) (fun _ _ => Iff.rfl)
            (.inl (by rw [hpc]; rfl)) trivial
          have hsame : (Pc.checkLock call).polled = (state.pc thread).polled := by
            rw [hpc]
            rfl
          rw [hsame, Function.update_eq_self thread fun other => (state.pc other).polled]
          exact hflow.skip
  | registerLock call requestId =>
      simp only [Context.advance, hpc] at hadvance
      split at hadvance
      · rename_i hlock
        cases hadvance
        exact hinv.move (hinv.same_polled (by rw [hpc]; rfl)) (by simp [Pc.locked])
          (acquire_others hlock) (.inl (by rw [hpc]; rfl)) trivial
      · contradiction
  | register call requestId => exact hinv.register hpc hadvance
  | drain call => exact hinv.drain hpc hadvance
  | registerUnlock call =>
      have hlock := hown.mp (by rw [hpc]; rfl)
      simp only [Context.advance, hpc] at hadvance
      cases hadvance
      exact hinv.move (hinv.same_polled (by rw [hpc]; rfl)) (by simp [Pc.locked])
        (release_others hlock) (.inl (by rw [hpc]; rfl)) trivial
  | checkLock call =>
      simp only [Context.advance, hpc] at hadvance
      split at hadvance
      · rename_i hlock
        cases hadvance
        exact hinv.move (hinv.same_polled (by rw [hpc]; rfl)) (by simp [Pc.locked])
          (acquire_others hlock) (.inl (by rw [hpc]; rfl)) trivial
      · contradiction
  | check call =>
      have hlock := hown.mp (by rw [hpc]; rfl)
      simp only [Context.advance, hpc] at hadvance
      cases hadvance
      exact hinv.move (hinv.same_polled (by rw [hpc]; rfl)) (by simp [Pc.locked, hlock])
        (fun _ _ => Iff.rfl) (.inl (by rw [hpc]; rfl)) fun hpos =>
          hinv.tracks.isCompleted_iff hpos
  | checkUnlock call result =>
      have hlock := hown.mp (by rw [hpc]; rfl)
      simp only [Context.advance, hpc] at hadvance
      cases hadvance
      have hidle : ∀ test : Bool, (if test then Pc.poll call else .idle).polled = none ∧
          (if test then Pc.poll call else .idle).locked = false := by
        intro test
        cases test <;> exact ⟨rfl, rfl⟩
      refine hinv.move (hinv.same_polled ?_) ?_ (release_others hlock)
        (.inl (by rw [hpc]; rfl)) (Pc.answers_of_unlocked (hidle _).2 _)
      · rw [(hidle _).1, hpc]
        rfl
      · rw [(hidle _).2]
        simp

theorem Inv.next (hinv : Inv state) {label : Label Thread}
    (hnext : next state label = some after) : Inv after := by
  cases label with
  | getNextOperationId =>
      cases hnext
      refine ⟨wrap_lt _, ?_, ?_, hinv.flow, hinv.tracks, hinv.held, hinv.gap, hinv.answers⟩
      · intro id hid
        rcases List.mem_append.mp hid with hold | hnew
        · exact hinv.issued_lt id hold
        · rw [List.mem_singleton.mp hnew]
          exact hinv.counter_lt
      · exact fun id hid => List.mem_append_left _ (hinv.completed_issued id hid)
  | complete operationId =>
      simp only [Context.next] at hnext
      split at hnext
      · rename_i hdevice
        cases hnext
        refine ⟨hinv.counter_lt, hinv.issued_lt, ?_, hinv.flow.complete hdevice.2, hinv.tracks,
          hinv.held, hinv.gap, hinv.answers⟩
        intro id hid
        rcases List.mem_append.mp hid with hold | hnew
        · exact hinv.completed_issued id hold
        · rw [List.mem_singleton.mp hnew]
          exact hdevice.1
      · contradiction
  | call thread call =>
      simp only [Context.next] at hnext
      split at hnext
      · rename_i hpc
        have hfree : ¬ state.completedSetLock = some thread := by
          rw [← hinv.held thread, hpc]
          simp [Pc.locked]
        cases hnext
        exact hinv.move (hinv.same_polled (by rw [hpc]; rfl)) (by simp [Pc.locked, hfree])
          (fun _ _ => Iff.rfl) (.inl (by rw [hpc]; rfl)) trivial
      · contradiction
  | step thread => exact hinv.advance hnext

omit [DecidableEq Thread] in
theorem inv_start : Inv (start : State Thread) where
  counter_lt := show 1 < wordRange by decide
  issued_lt := by simp [start]
  completed_issued := by simp [start]
  flow := by constructor <;> simp [start, Pc.polled]
  tracks := by
    constructor <;> simp [start]
    omega
  held := by simp [start, Pc.locked]
  gap := by simp [start]
  answers := fun _ => trivial

theorem inv_of_reachable (hreach : machine.Reachable state) : Inv state :=
  hreach.invariant Inv (fun _ hinitial => hinitial ▸ inv_start) fun _ _ _ hinv _ hnext =>
    hinv.next hnext

end Steps

/-- An operation counts as completed exactly when its completion was registered. With
the lock free the set holds the registered ids above the watermark, and never the one
that follows it. -/
theorem tracks_registered_completions (state : State Thread) (hreach : machine.Reachable state) :
    (∀ thread call result, state.pc thread = .checkUnlock call result → 0 < call.operationId →
      (result = true ↔ call.operationId ∈ state.registered)) ∧
    (state.completedSetLock = none →
      (∀ id, id ∈ state.requestCompletionSet ↔
        id ∈ state.registered ∧ state.completedBaseCounter < id) ∧
      wrap (state.completedBaseCounter + 1) ∉ state.requestCompletionSet) := by
  have hinv := inv_of_reachable hreach
  constructor
  · intro thread call result hpc
    have hanswer := hinv.answers thread
    rw [hpc] at hanswer
    exact hanswer
  · intro hfree
    refine ⟨hinv.tracks.above_base, hinv.gap fun thread => ?_⟩
    apply Pc.draining_of_unlocked
    rw [Bool.eq_false_iff]
    intro hlocked
    rw [hinv.lock_of_locked hlocked] at hfree
    contradiction

/-- The second operation is registered before the first, by the thread that polled later. -/
theorem overtaking_completion_tracked :
    ∃ state : State Bool, machine.Reachable state ∧ state.registered = [2, 1] ∧
      state.completedBaseCounter = 2 ∧ state.pc true = .checkUnlock ⟨2, false⟩ true ∧
      (true = true ↔ 2 ∈ state.registered) := by
  obtain ⟨state, hreach, htest⟩ := machine.exists_reachable_of_replay
    (start : State Bool)
    [.getNextOperationId, .getNextOperationId, .complete 1, .complete 2,
      .call false ⟨1, true⟩, .call true ⟨2, false⟩, .step false, .step true,
      .step true, .step true, .step true, .step false, .step false, .step false, .step false,
      .step false, .step true, .step true]
    (fun state => decide (state.registered = [2, 1] ∧ state.completedBaseCounter = 2 ∧
      state.pc true = .checkUnlock ⟨2, false⟩ true))
    rfl (by decide +kernel)
  obtain ⟨hregistered, hbase, hpc⟩ := of_decide_eq_true htest
  exact ⟨state, hreach, hregistered, hbase, hpc,
    (tracks_registered_completions state hreach).1 true ⟨2, false⟩ true hpc (by decide)⟩

end Crossbow.InfinityVerbs.Context
