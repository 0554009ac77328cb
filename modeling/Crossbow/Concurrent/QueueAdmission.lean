import Crossbow.Concurrent.QueueHead

/-! Producers that call `tryWrite`. It compares the counters before it takes a ticket, and
its comparison does not see that the queue is full as long as nothing has been read:
`_consumed` then is the largest word, and no position is above it. -/
namespace Crossbow.Concurrent.SingleConsumerQueue
open Kernel

variable {Thread T : Type}

/-- A producer inside the loop of `tryWrite`; `exchange` is in front of
`compare_exchange_strong`. -/
inductive TryPc (T : Type) where
  | idle
  | load (value : T)
  | check (value : T) (pos : Nat)
  | exchange (value : T) (pos : Nat)
  deriving DecidableEq, Repr

structure TryState (Thread T : Type) where
  queue : State Thread T
  trying : Thread → TryPc T

inductive TryLabel (Thread T : Type) where
  | queue (label : Label Thread T)
  | tryWrite (thread : Thread) (value : T)
  | step (thread : Thread)
  deriving DecidableEq, Repr

/-- The condition under which `tryWrite` returns false. -/
def tryRejects (queueSize : Nat) (state : State Thread T) (pos : Nat) : Bool :=
  decide (state.consumed < pos ∧ queueSize ≤ wrapSub pos state.consumed)

def SameRule (queueSize : Nat) (state : State Thread T) (pos : Nat) : Prop :=
  state.consumed < pos ∨ wrapSub pos state.consumed < queueSize

instance (queueSize : Nat) (state : State Thread T) (pos : Nat) :
    Decidable (SameRule queueSize state pos) :=
  inferInstanceAs (Decidable (_ ∨ _))

section Machine

variable [DecidableEq Thread]

def TryState.attempt (state : TryState Thread T) (thread : Thread) (pc : TryPc T) :
    TryState Thread T :=
  { state with trying := Function.update state.trying thread pc }

/-- A successful exchange: the ticket is taken and `writeItem` is called without another
test. -/
def State.takePlace (state : State Thread T) (thread : Thread) (value : T) (pos : Nat) :
    State Thread T :=
  { state.produce thread (.construct value pos) with
    insertPlace := wrap (pos + 1)
    tickets := state.tickets ++ [value] }

def stepTry (queueSize : Nat) (state : TryState Thread T) (thread : Thread) :
    Option (TryState Thread T) :=
  match state.trying thread with
  | .idle => none
  | .load value => some (state.attempt thread (.check value state.queue.insertPlace))
  | .check value pos =>
      if tryRejects queueSize state.queue pos then some (state.attempt thread .idle)
      else some (state.attempt thread (.exchange value pos))
  | .exchange value pos =>
      if state.queue.insertPlace = pos then
        some { state.attempt thread .idle with queue := state.queue.takePlace thread value pos }
      else some (state.attempt thread (.check value state.queue.insertPlace))

def tryNext (queueSize : Nat) (state : TryState Thread T) :
    TryLabel Thread T → Option (TryState Thread T)
  | .queue (.write thread value) =>
      match state.trying thread with
      | .idle => (next queueSize state.queue (.write thread value)).map fun queue =>
          { state with queue := queue }
      | _ => none
  | .queue label => (next queueSize state.queue label).map fun queue =>
      { state with queue := queue }
  | .tryWrite thread value =>
      match state.trying thread, state.queue.producer thread with
      | .idle, .idle => some (state.attempt thread (.load value))
      | _, _ => none
  | .step thread => stepTry queueSize state thread

def tryMachine (queueSize : Nat) : Machine (TryState Thread T) (TryLabel Thread T) where
  initial := fun state => state = ⟨start, fun _ => .idle⟩
  next := tryNext queueSize

end Machine

def TryPc.tested : TryPc T → Option Nat
  | .check _ pos => some pos
  | _ => none

/-- When a `tryWrite` tests the position that is next, both tests agree there. A position
that has been taken meanwhile does no harm, as the exchange then fails. -/
def Prudent (queueSize : Nat) (state : TryState Thread T) : TryLabel Thread T → Prop
  | .step thread => ∀ pos ∈ (state.trying thread).tested, pos = state.queue.insertPlace →
      SameRule queueSize state.queue pos
  | _ => True

instance (queueSize : Nat) (state : TryState Thread T) (label : TryLabel Thread T) :
    Decidable (Prudent queueSize state label) :=
  match label with
  | .queue _ => .isTrue trivial
  | .tryWrite _ _ => .isTrue trivial
  | .step thread => inferInstanceAs (Decidable (∀ pos ∈ (state.trying thread).tested,
      pos = state.queue.insertPlace → SameRule queueSize state.queue pos))

theorem tryRejects_eq_isFull_iff (queueSize : Nat) (state : State Thread T) (pos : Nat) :
    tryRejects queueSize state pos = isFull queueSize state pos ↔
      SameRule queueSize state pos := by
  unfold tryRejects isFull SameRule
  by_cases hbelow : state.consumed < pos
  · simp [hbelow]
  · simp [hbelow]

section Steps

variable [DecidableEq Thread] {queueSize : Nat} {state after : State Thread T}

theorem consumed_of_next {label : Label Thread T}
    (hnext : next queueSize state label = some after) :
    after.consumed = state.consumed ∨
      (∃ consume, state.consumer = .readStore consume ∧ after.consumed = consume) ∨
      ∃ consumed count, state.consumer = .multiStore consumed count ∧
        after.consumed = wrap (consumed + count) := by
  cases label with
  | consumer =>
      replace hnext : stepConsumer queueSize state = some after := hnext
      unfold stepConsumer at hnext
      split at hnext <;>
        grind [State.consume, State.setItem, State.moveOut, Option.bind_eq_some_iff]
  | producer thread =>
      left
      rcases stepProducer_cases hnext with ⟨_, _, rfl⟩ | ⟨_, _, _, rfl⟩ <;> rfl
  | write | read | readMultiple =>
      left
      simp only [next] at hnext
      split at hnext
      · cases hnext
        rfl
      · contradiction

theorem Ordered.published_mono {published published' : Nat} {stage stage' : Nat → Stage}
    (hordered : Ordered queueSize state published stage)
    (hafter : Ordered queueSize after published' stage') {label : Label Thread T}
    (hnext : SingleConsumerQueue.next queueSize state label = some after)
    (hwrites : after.tickets.length < wordRange) : published ≤ published' := by
  have hbefore := hordered.published_le_received
  have hreceived := hordered.received_le
  have hle := hafter.published_le_received
  have hle' := hafter.received_le
  have hgrow := tickets_length_le hnext
  have hstored := hafter.consumed
  have hagrees := hordered.consumer
  have hlast (value : Nat) (hvalue : value < wordRange)
      (heq : wrapSub published' 1 = wrapSub value 1) : published' = value := by
    rw [← wrap_wrapSub_one_succ (show published' < wordRange by omega), heq,
      wrap_wrapSub_one_succ hvalue]
  rcases consumed_of_next hnext with hsame | ⟨consume, hpc, hvalue⟩ | ⟨consumed, count, hpc, hvalue⟩
  · rw [hstored, hordered.consumed] at hsame
    exact Nat.le_of_eq (hlast published (by omega) hsame).symm
  · rw [hpc] at hagrees
    obtain ⟨rfl, hcount, _⟩ := hagrees
    have hsucc := hlast (consume + 1) (by omega) (by
      rw [← hstored, hvalue, wrapSub_of_le (by omega) (by omega)]
      rfl)
    omega
  · rw [hpc] at hagrees
    obtain ⟨rfl, hcount, _⟩ := hagrees
    have hsum := hlast (published + count) (by omega) (by
      rw [← hstored, hvalue, wrap_wrapSub_add (by omega)])
    omega

theorem producer_idle_of_next {label : Label Thread T}
    (hnext : next queueSize state label = some after) {thread : Thread}
    (hidle : state.producer thread = .idle) (hwrite : ∀ value, label ≠ .write thread value) :
    after.producer thread = .idle := by
  cases label with
  | write other value =>
      have hne : thread ≠ other := fun heq => hwrite value (by rw [heq])
      simp only [next] at hnext
      split at hnext
      · cases hnext
        exact (Function.update_of_ne hne _ _).trans hidle
      · contradiction
  | producer other =>
      replace hnext : stepProducer queueSize state other = some after := hnext
      by_cases hsame : thread = other
      · subst hsame
        simp [stepProducer, hidle] at hnext
      · rcases stepProducer_cases hnext with ⟨_, _, rfl⟩ | ⟨_, _, _, rfl⟩
        · exact (Function.update_of_ne hsame _ _).trans hidle
        · exact (Function.update_of_ne hsame _ _).trans hidle
  | consumer =>
      replace hnext : stepConsumer queueSize state = some after := hnext
      unfold stepConsumer at hnext
      split at hnext <;>
        grind [State.consume, State.setItem, State.moveOut, Option.bind_eq_some_iff]
  | read | readMultiple =>
      simp only [next] at hnext
      split at hnext
      · cases hnext
        exact hidle
      · contradiction

theorem Ordered.takePlace {published : Nat} {stage : Nat → Stage}
    (hordered : Ordered queueSize state published stage)
    (hwrites : state.tickets.length + 1 < wordRange) {thread : Thread} (value : T)
    (hpc : state.producer thread = .idle)
    (hroom : state.tickets.length + 1 < published + queueSize) :
    Ordered queueSize (state.takePlace thread value state.insertPlace) published stage := by
  have hle := hordered.published_le_received
  have hle' := hordered.received_le
  have hwritten := hordered.write hwrites value hpc
  have hfree : isFull queueSize
      { state.produce thread (.checkFull value state.insertPlace) with
        insertPlace := wrap (state.insertPlace + 1)
        tickets := state.tickets ++ [value] } state.insertPlace = false := by
    simp only [isFull, State.produce, decide_eq_false_iff_not, hordered.consumed, hordered.place]
    rw [wrapSub_wrapSub_one (by omega) (by omega)]
    omega
  have hadmitted := hwritten.admit (by simpa using hwrites) (Function.update_self ..) hfree
  simpa [State.takePlace, State.produce, Function.update_idem] using hadmitted

end Steps

/-! ### Runs -/

/-- The position of a `tryWrite`: it is not above the next one, and if it is the next one
when the exchange comes, then it is inside the window. -/
def TryPc.Agrees (queueSize length published : Nat) : TryPc T → Prop
  | .idle | .load _ => True
  | .check _ pos => pos ≤ length
  | .exchange _ pos => pos ≤ length ∧ (pos = length → pos + 1 < published + queueSize)

theorem TryPc.Agrees.mono {queueSize length length' published published' : Nat} {pc : TryPc T}
    (hagrees : pc.Agrees queueSize length published) (hlength : length ≤ length')
    (hpublished : published ≤ published') : pc.Agrees queueSize length' published' := by
  cases pc with
  | idle | load => trivial
  | check value pos => exact Nat.le_trans hagrees hlength
  | exchange value pos =>
      refine ⟨Nat.le_trans hagrees.1 hlength, fun hlast => ?_⟩
      have hroom := hagrees.2 (Nat.le_antisymm hagrees.1 (hlast ▸ hlength))
      omega

structure TryOrdered (queueSize : Nat) (state : TryState Thread T) (published : Nat)
    (stage : Nat → Stage) : Prop where
  ordered : Ordered queueSize state.queue published stage
  positions : ∀ thread,
    (state.trying thread).Agrees queueSize state.queue.tickets.length published
  single : ∀ thread, state.trying thread = .idle ∨ state.queue.producer thread = .idle

section Runs

variable [DecidableEq Thread] {queueSize published : Nat} {stage : Nat → Stage}
  {state after : TryState Thread T}

theorem TryOrdered.attempt (htry : TryOrdered queueSize state published stage) {thread : Thread}
    {pc : TryPc T} (hpc : pc.Agrees queueSize state.queue.tickets.length published)
    (hidle : pc = .idle ∨ state.queue.producer thread = .idle) :
    TryOrdered queueSize (state.attempt thread pc) published stage where
  ordered := htry.ordered
  positions := by
    intro other
    by_cases hsame : other = thread
    · subst hsame
      simpa [TryState.attempt] using hpc
    · simpa [TryState.attempt, hsame] using htry.positions other
  single := by
    intro other
    by_cases hsame : other = thread
    · subst hsame
      simpa [TryState.attempt] using hidle
    · simpa [TryState.attempt, hsame] using htry.single other

theorem TryOrdered.queue (htry : TryOrdered queueSize state published stage)
    {label : Label Thread T} {queue : State Thread T}
    (hnext : next queueSize state.queue label = some queue)
    (hcall : ∀ thread value, label = .write thread value → state.trying thread = .idle)
    (hwrites : queue.tickets.length + queueSize < wordRange) :
    (∃ published' stage', TryOrdered queueSize { state with queue := queue } published' stage') ∧
      Keeps state.queue queue := by
  obtain ⟨⟨published', stage', hordered⟩, hkeeps⟩ :=
    htry.ordered.next (by omega) (fun _ => hwrites) hnext
  refine ⟨⟨published', stage', hordered, ?_, ?_⟩, hkeeps⟩
  · intro thread
    exact (htry.positions thread).mono (tickets_length_le hnext)
      (htry.ordered.published_mono hordered hnext (by omega))
  · intro thread
    by_cases htrying : state.trying thread = .idle
    · exact .inl htrying
    · right
      apply producer_idle_of_next hnext ((htry.single thread).resolve_left htrying)
      rintro value rfl
      exact htrying (hcall thread value rfl)

omit [DecidableEq Thread] in
theorem TryOrdered.window (htry : TryOrdered queueSize state published stage)
    (hwrites : state.queue.tickets.length + queueSize < wordRange)
    (hrule : SameRule queueSize state.queue state.queue.insertPlace)
    (haccepts : tryRejects queueSize state.queue state.queue.insertPlace = false) :
    state.queue.tickets.length + 1 < published + queueSize := by
  have hle := htry.ordered.published_le_received
  have hle' := htry.ordered.received_le
  rw [(tryRejects_eq_isFull_iff _ _ _).mpr hrule] at haccepts
  simp only [isFull, decide_eq_false_iff_not, htry.ordered.consumed, htry.ordered.place] at haccepts
  rw [wrapSub_wrapSub_one (by omega) (by omega)] at haccepts
  omega

theorem TryOrdered.step (htry : TryOrdered queueSize state published stage) {thread : Thread}
    (hprudent : Prudent queueSize state (.step thread))
    (hwrites : after.queue.tickets.length + queueSize < wordRange)
    (hstep : stepTry queueSize state thread = some after) :
    TryOrdered queueSize after published stage := by
  have hplace := htry.ordered.place
  have hpositions := htry.positions thread
  have hsingle := htry.single thread
  unfold stepTry at hstep
  cases hpc : state.trying thread with
  | idle => simp [hpc] at hstep
  | load value =>
      simp only [hpc] at hstep
      cases hstep
      rw [hpc] at hsingle
      exact htry.attempt (Nat.le_of_eq hplace) (.inr (hsingle.resolve_left nofun))
  | check value pos =>
      simp only [hpc] at hstep
      rw [hpc] at hsingle hpositions
      split at hstep
      · cases hstep
        exact htry.attempt trivial (.inl rfl)
      · rename_i haccepts
        cases hstep
        refine htry.attempt ⟨hpositions, fun hnext => ?_⟩ (.inr (hsingle.resolve_left nofun))
        have htested : pos ∈ (state.trying thread).tested := by
          rw [hpc]
          rfl
        have hlast : pos = state.queue.insertPlace := hnext.trans hplace.symm
        have hrule := hprudent pos htested hlast
        subst hlast
        rw [hplace]
        exact htry.window hwrites hrule (Bool.eq_false_iff.mpr haccepts)
  | exchange value pos =>
      simp only [hpc] at hstep
      rw [hpc] at hsingle hpositions
      have hproducer := hsingle.resolve_left nofun
      split at hstep
      · rename_i hfree
        cases hstep
        subst hfree
        have hgrown : (state.queue.tickets ++ [value]).length = state.queue.tickets.length + 1 :=
          List.length_append
        replace hwrites : (state.queue.tickets ++ [value]).length + queueSize < wordRange := hwrites
        have hroom := hpositions.2 hplace
        rw [hplace] at hroom
        have hidle : TryOrdered queueSize (state.attempt thread .idle) published stage :=
          htry.attempt trivial (.inl rfl)
        have hlonger : state.queue.tickets.length ≤ (state.queue.tickets ++ [value]).length := by
          omega
        refine ⟨htry.ordered.takePlace (by omega) value hproducer hroom, ?_, ?_⟩
        · intro other
          exact (hidle.positions other).mono hlonger (Nat.le_refl _)
        · intro other
          by_cases hsame : other = thread
          · left
            rw [hsame]
            exact Function.update_self ..
          · exact (hidle.single other).imp_right fun hother =>
              (Function.update_of_ne hsame _ _).trans hother
      · cases hstep
        exact htry.attempt (Nat.le_of_eq hplace) (.inr hproducer)

theorem keeps_of_stepTry {thread : Thread} (hstep : stepTry queueSize state thread = some after) :
    Keeps state.queue after.queue := by
  apply keeps_of_data_eq
  unfold stepTry at hstep
  split at hstep
  · contradiction
  · cases hstep
    rfl
  · split at hstep <;> cases Option.some.inj hstep <;> rfl
  · split at hstep <;> cases Option.some.inj hstep <;> rfl

theorem queue_of_tryNext {label : Label Thread T}
    (hnext : tryNext queueSize state (.queue label) = some after) :
    ∃ queue, next queueSize state.queue label = some queue ∧ after = { state with queue := queue } ∧
      ∀ thread value, label = .write thread value → state.trying thread = .idle := by
  cases label with
  | write thread value =>
      simp only [tryNext] at hnext
      split at hnext
      · rename_i hidle
        obtain ⟨queue, hqueue, rfl⟩ := Option.map_eq_some_iff.mp hnext
        refine ⟨queue, hqueue, rfl, ?_⟩
        rintro _ _ ⟨⟩
        exact hidle
      · contradiction
  | read | readMultiple | producer | consumer =>
      obtain ⟨queue, hqueue, rfl⟩ := Option.map_eq_some_iff.mp hnext
      exact ⟨queue, hqueue, rfl, nofun⟩

theorem tickets_length_le_of_tryNext {label : TryLabel Thread T}
    (hnext : tryNext queueSize state label = some after) :
    state.queue.tickets.length ≤ after.queue.tickets.length := by
  cases label with
  | queue label =>
      obtain ⟨queue, hqueue, rfl, _⟩ := queue_of_tryNext hnext
      exact tickets_length_le hqueue
  | tryWrite thread value =>
      simp only [tryNext] at hnext
      split at hnext
      · cases hnext
        exact Nat.le_refl _
      · contradiction
  | step thread =>
      replace hnext : stepTry queueSize state thread = some after := hnext
      unfold stepTry at hnext
      split at hnext
      · contradiction
      · cases hnext
        exact Nat.le_refl _
      · split at hnext <;> cases Option.some.inj hnext <;> exact Nat.le_refl _
      · split at hnext <;> cases hnext
        · simp [State.takePlace]
        · exact Nat.le_refl _

theorem TryOrdered.next (htry : TryOrdered queueSize state published stage)
    {label : TryLabel Thread T} (hprudent : Prudent queueSize state label)
    (hwrites : after.queue.tickets.length + queueSize < wordRange)
    (hnext : tryNext queueSize state label = some after) :
    ∃ published' stage', TryOrdered queueSize after published' stage' := by
  cases label with
  | queue label =>
      obtain ⟨queue, hqueue, rfl, hcall⟩ := queue_of_tryNext hnext
      exact (htry.queue hqueue hcall hwrites).1
  | tryWrite thread value =>
      simp only [tryNext] at hnext
      split at hnext
      · rename_i hidle
        cases hnext
        exact ⟨_, _, htry.attempt trivial (.inr hidle)⟩
      · contradiction
  | step thread => exact ⟨_, _, htry.step hprudent hwrites hnext⟩

theorem tryOrdered_of_reachable
    (hreach : (tryMachine queueSize).ReachableUnder (Prudent queueSize) state)
    (hwrites : state.queue.tickets.length + queueSize < wordRange) :
    ∃ published stage, TryOrdered queueSize state published stage := by
  revert hwrites
  apply hreach.invariant fun state => state.queue.tickets.length + queueSize < wordRange →
    ∃ published stage, TryOrdered queueSize state published stage
  · rintro state rfl _
    exact ⟨0, _, ordered_start queueSize, fun _ => trivial, fun _ => .inl rfl⟩
  · intro state label after ih hprudent hnext hwrites
    have hgrow := tickets_length_le_of_tryNext hnext
    obtain ⟨published, stage, htry⟩ := ih (by omega)
    exact htry.next hprudent hwrites hnext

end Runs

/-- Both tests agree on a position exactly when `_consumed` is below it or the unsigned
distance is less than the size. In runs of `write`, `tryWrite` and the consumer in which
they agree whenever the next position is tested, producers construct in empty slots only
and every finished value stays until the consumer takes it. -/
theorem tryWrite_admits_like_write [DecidableEq Thread] (queueSize : Nat) :
    (∀ (state : State Thread T) (pos : Nat),
      (tryRejects queueSize state pos = isFull queueSize state pos ↔
        state.consumed < pos ∨ wrapSub pos state.consumed < queueSize)) ∧
      ∀ state : TryState Thread T,
        (tryMachine queueSize).ReachableUnder (Prudent queueSize) state →
        state.queue.tickets.length < wordRange - queueSize →
        (∀ thread value pos, state.queue.producer thread = .construct value pos →
          state.queue.data (pos % queueSize) = ⟨.raw, false⟩) ∧
        ∀ label after, tryNext queueSize state label = some after →
          after.queue.tickets.length < wordRange - queueSize → Keeps state.queue after.queue := by
  refine ⟨tryRejects_eq_isFull_iff queueSize, ?_⟩
  intro state hreach hwrites
  obtain ⟨published, stage, htry⟩ := tryOrdered_of_reachable hreach (by omega)
  have hordered := htry.ordered
  constructor
  · intro thread value pos hpc
    have hproducer := hordered.producers thread
    rw [hpc] at hproducer
    obtain ⟨_, hstage, hadmitted⟩ := hproducer
    rw [hordered.slots pos (hordered.unpublished (by simp [hstage])) (by omega), hstage]
    rfl
  · intro label after hnext hafter
    cases label with
    | queue label =>
        obtain ⟨queue, hqueue, rfl, hcall⟩ := queue_of_tryNext hnext
        exact (htry.queue hqueue hcall (show queue.tickets.length + queueSize < wordRange from
          Nat.add_lt_of_lt_sub hafter)).2
    | tryWrite thread value =>
        simp only [tryNext] at hnext
        split at hnext
        · cases hnext
          exact keeps_of_data_eq rfl
        · contradiction
    | step thread => exact keeps_of_stepTry hnext

/-- One producer calls `tryWrite` with consecutive numbers; each call takes three steps up
to the exchange and three for the item. -/
def tryWrites (count : Nat) : List (TryLabel Unit Nat) :=
  (List.range count).flatMap fun value =>
    [.tryWrite () value, .step (), .step (), .step (), .queue (.producer ()),
      .queue (.producer ()), .queue (.producer ())]

/-- Two values are queued and one is read; a third `tryWrite` then constructs in an empty
slot. -/
theorem prudent_tryWrite_finds_empty_slot :
    ∃ state : TryState Unit Nat, (tryMachine 4).ReachableUnder (Prudent 4) state ∧
      state.queue.producer () = .construct 9 2 ∧ state.queue.data 2 = ⟨.raw, false⟩ := by
  obtain ⟨state, hreach, htest⟩ := (tryMachine 4).exists_reachableUnder_of_replay (Prudent 4)
    ⟨start, fun _ => .idle⟩
    (tryWrites 2 ++ [.queue .read] ++ List.replicate 7 (.queue .consumer) ++
      [.tryWrite () 9, .step (), .step (), .step ()])
    (fun state => decide (state.queue.tickets.length < wordRange - 4 ∧
      state.queue.received = [.full 0] ∧ state.queue.producer () = .construct 9 2))
    rfl (by decide +kernel)
  obtain ⟨hwrites, _, hpc⟩ := of_decide_eq_true htest
  exact ⟨state, hreach, hpc,
    ((tryWrite_admits_like_write 4).2 state hreach hwrites).1 () 9 2 hpc⟩

/-- Two slots, and nothing is read. The third `tryWrite` is accepted at position 2, where
`isFull` holds, and is about to construct over the first value. -/
theorem tryWrite_overwrites_unread :
    ∃ state : TryState Unit Nat, (tryMachine 2).Reachable state ∧
      state.queue.producer () = .construct 2 2 ∧ isFull 2 state.queue 2 = true ∧
      tryRejects 2 state.queue 2 = false ∧ state.queue.received = [] ∧
      state.queue.data (2 % 2) = ⟨.full 0, true⟩ := by
  obtain ⟨state, hreach, htest⟩ := (tryMachine 2).exists_reachable_of_replay
    ⟨start, fun _ => .idle⟩
    (tryWrites 2 ++ [.tryWrite () 2, .step (), .step (), .step ()])
    (fun state => decide (state.queue.producer () = .construct 2 2 ∧
      isFull 2 state.queue 2 = true ∧ tryRejects 2 state.queue 2 = false ∧
      state.queue.received = [] ∧ state.queue.data (2 % 2) = ⟨.full 0, true⟩))
    rfl (by decide +kernel)
  exact ⟨state, hreach, of_decide_eq_true htest⟩

end Crossbow.Concurrent.SingleConsumerQueue
