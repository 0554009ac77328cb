import Crossbow.Concurrent.QueueOrder

/-! Delivery in ticket order. Every step of a producer or of the consumer keeps
the stage invariant and leaves finished values in their slots until the consumer
moves them out. -/
namespace Crossbow.Concurrent.SingleConsumerQueue
open Kernel

variable {Thread T : Type}

def ConsumerPc.Multiple : ConsumerPc → Prop
  | .multiLoad _ | .multiFlag _ _ _ | .multiClear _ _ _ | .multiMove _ _ _
  | .multiDestroy _ _ _ | .multiStore _ _ => True
  | _ => False

/-- A finished value stays in its slot unless the step hands it to the consumer. -/
def Keeps (state after : State Thread T) : Prop :=
  ∀ index value, (state.data index).value = .full value →
    (after.data index).value = .full value ∨ after.received = state.received ++ [.full value]

structure Delivers (queueSize : Nat) (state after : State Thread T) : Prop where
  ordered : ∃ published stage, Ordered queueSize after published stage
  keeps : Keeps state after

theorem keeps_of_data_eq {state after : State Thread T} (hdata : after.data = state.data) :
    Keeps state after := by
  intro index value hfull
  rw [hdata]
  exact .inl hfull

theorem keeps_store {state : State Thread T} (value : Nat) (pc : ConsumerPc) :
    Keeps state ({ state with consumed := value }.consume pc) :=
  keeps_of_data_eq rfl

theorem keeps_of_update {state after : State Thread T} {index : Nat} {item : Item T}
    (hdata : after.data = Function.update state.data index item)
    (hitem : ∀ value, (state.data index).value = .full value → item.value = .full value) :
    Keeps state after := by
  intro other value hfull
  rw [hdata]
  by_cases hsame : other = index
  · subst hsame
    rw [Function.update_self]
    exact .inl (hitem value hfull)
  · rw [Function.update_of_ne hsame]
    exact .inl hfull

theorem eq_mod_of_slot {queueSize pos index : Nat} (hslot : slot queueSize pos = some index) :
    index = pos % queueSize := by
  unfold slot at hslot
  split at hslot
  · contradiction
  · exact (Option.some.inj hslot).symm

theorem size_pos_of_slot {queueSize pos index : Nat} (hslot : slot queueSize pos = some index) :
    0 < queueSize := by
  unfold slot at hslot
  split at hslot
  · contradiction
  · omega

theorem of_bind_slot {R : Type} {queueSize pos : Nat} {rest : Nat → Option R} {result : R}
    (hstep : (do rest (← slot queueSize pos)) = some result) :
    0 < queueSize ∧ rest (pos % queueSize) = some result := by
  obtain ⟨index, hslot, hrest⟩ := Option.bind_eq_some_iff.mp hstep
  exact ⟨size_pos_of_slot hslot, eq_mod_of_slot hslot ▸ hrest⟩

section Producer

variable [DecidableEq Thread] {queueSize : Nat} {state after : State Thread T}
  {published : Nat} {stage : Nat → Stage}

theorem Ordered.writeItem (hordered : Ordered queueSize state published stage) {thread : Thread}
    {ticket : Nat} (hticket : (state.producer thread).ticket = some ticket)
    (hadmitted : ticket + 1 < published + queueSize) {item : Item T} (target : Stage)
    (pc : ProducerPc T) (hlive : target.Live) (hpc : pc.ticket = some ticket ∨ pc.ticket = none)
    (hagrees : pc.Agrees queueSize state.tickets published (Function.update stage ticket target))
    (hitem : item = target.item state.tickets[ticket]?)
    (hkeep : ∀ value, ((stage ticket).item state.tickets[ticket]?).value = .full value →
      item.value = .full value) :
    Delivers queueSize state
      ((state.setItem (ticket % queueSize) item).produce thread pc) := by
  have hlow : published ≤ ticket := by
    apply hordered.unpublished
    intro hgone
    have howned := ((hordered.producers thread).owned hticket).1
    rw [hgone] at howned
    exact howned
  constructor
  · rw [hitem]
    exact ⟨_, _, hordered.produce hticket hadmitted target pc hlive hpc hagrees⟩
  · apply keeps_of_update rfl
    intro value hfull
    rw [hordered.slots ticket hlow (by omega)] at hfull
    exact hkeep value hfull

theorem Ordered.stepProducer (hordered : Ordered queueSize state published stage)
    (hwrites : state.tickets.length < wordRange) {thread : Thread}
    (hstep : stepProducer queueSize state thread = some after) :
    Delivers queueSize state after := by
  have hproducer := hordered.producers thread
  unfold SingleConsumerQueue.stepProducer at hstep
  cases hpc : state.producer thread with
  | idle => simp [hpc] at hstep
  | checkFull value pos =>
      simp only [hpc] at hstep
      split at hstep
      · cases hstep
        exact ⟨⟨_, _, hordered⟩, keeps_of_data_eq rfl⟩
      · rename_i hroom
        cases hstep
        exact ⟨⟨_, _, hordered.admit hwrites hpc (Bool.eq_false_iff.mpr hroom)⟩,
          keeps_of_data_eq rfl⟩
  | construct value pos =>
      simp only [hpc] at hstep
      obtain ⟨_, hafter⟩ := of_bind_slot hstep
      cases hafter
      rw [hpc] at hproducer
      obtain ⟨hvalue, hstage, hadmitted⟩ := hproducer
      have hdata := hordered.slots pos (hordered.unpublished (by simp [hstage])) (by omega)
      apply hordered.writeItem (by rw [hpc]; rfl) hadmitted .building _ trivial (.inl rfl)
      · exact ⟨hvalue, Function.update_self ..⟩
      · rw [hdata, hstage]
        rfl
      · simp [hstage, Stage.item]
  | finish value pos =>
      simp only [hpc] at hstep
      obtain ⟨_, hafter⟩ := of_bind_slot hstep
      cases hafter
      rw [hpc] at hproducer
      obtain ⟨hvalue, hstage⟩ := hproducer
      have hadmitted := hordered.admitted pos (by simp [hstage])
      have hdata := hordered.slots pos (hordered.unpublished (by simp [hstage])) (by omega)
      apply hordered.writeItem (by rw [hpc]; rfl) hadmitted .built _ trivial (.inl rfl)
      · exact ⟨hvalue, Function.update_self ..⟩
      · rw [hdata, hstage, hvalue]
        rfl
      · simp [hstage, Stage.item]
  | validate value pos =>
      simp only [hpc] at hstep
      obtain ⟨_, hafter⟩ := of_bind_slot hstep
      cases hafter
      rw [hpc] at hproducer
      obtain ⟨hvalue, hstage⟩ := hproducer
      have hadmitted := hordered.admitted pos (by simp [hstage])
      have hdata := hordered.slots pos (hordered.unpublished (by simp [hstage])) (by omega)
      apply hordered.writeItem (by rw [hpc]; rfl) hadmitted .ready _ trivial (.inr rfl)
      · trivial
      · rw [hdata, hstage]
        rfl
      · rw [hdata, hstage]
        exact fun _ h => h

end Producer

section Consumer

variable {queueSize : Nat} {state after : State Thread T} {published : Nat}
  {stage : Nat → Stage}

variable (hordered : Ordered queueSize state published stage)
include hordered

theorem Ordered.clear {done : Nat}
    (hscan : Scan published stage done (· = .ready)) {pc : ConsumerPc}
    (hpc : ∀ stage', Scan published stage' done (· = .claimed) →
      pc.Agrees published stage' state.received.length) :
    Delivers queueSize state
      ((state.setItem ((published + done) % queueSize)
        { state.data ((published + done) % queueSize) with isValid := false }).consume pc) := by
  have hstage : stage (published + done) = .ready := hscan.at_cursor
  have hadmitted := hordered.admitted (published + done) (by simp [hstage])
  have hdata := hordered.slots (published + done) (by omega) (by omega)
  constructor
  · refine ⟨published, Function.update stage (published + done) .claimed, ?_⟩
    rw [hdata, hstage]
    apply hordered.touch (by simp [hstage, Stage.Owned]) (by simp [hstage]) .claimed
      state.received pc (hpc _ (hscan.update .claimed)) hordered.received hordered.received_le
  · apply keeps_of_update rfl
    exact fun _ h => h

theorem Ordered.moveOut {done : Nat}
    (hscan : Scan published stage done (· = .claimed))
    (hcount : state.received.length = published + done) {pc : ConsumerPc}
    (hpc : ∀ stage', Scan published stage' done (· = .taken) →
      pc.Agrees published stage' (published + done + 1)) :
    Delivers queueSize state
      ((state.moveOut ((published + done) % queueSize)).consume pc) := by
  have hstage : stage (published + done) = .claimed := hscan.at_cursor
  have hadmitted := hordered.admitted (published + done) (by simp [hstage])
  have htaken := hordered.taken (show stage (published + done) ≠ .pending by simp [hstage])
  have hdata := hordered.slots (published + done) (by omega) (by omega)
  obtain ⟨value, hvalue⟩ : ∃ value, state.tickets[published + done]? = some value :=
    ⟨_, List.getElem?_eq_getElem htaken⟩
  rw [hstage, hvalue] at hdata
  simp only [Stage.item, cellOf] at hdata
  have hlength : (state.received ++ [Cell.full value]).length = published + done + 1 := by
    simp [hcount]
  unfold State.moveOut
  rw [hdata]
  constructor
  · refine ⟨published, Function.update stage (published + done) .taken, ?_⟩
    apply hordered.touch (by simp [hstage, Stage.Owned]) (by simp [hstage]) .taken
    · rw [hlength]
      exact hpc _ (hscan.update .taken)
    · rw [hlength, List.take_add_one, List.map_append, hvalue, ← hcount, ← hordered.received]
      rfl
    · rw [hlength]
      exact htaken
  · intro index other hfull
    by_cases hsame : index = (published + done) % queueSize
    · right
      rw [hsame, hdata] at hfull
      rw [← hfull]
      rfl
    · left
      simpa [State.consume, State.setItem, Function.update_of_ne hsame] using hfull

theorem Ordered.destroy {done : Nat}
    (hscan : Scan published stage done (· = .taken)) {pc : ConsumerPc}
    (hpc : ∀ stage', Scan published stage' done (· = .gone) →
      pc.Agrees published stage' state.received.length) :
    Delivers queueSize state
      ((state.setItem ((published + done) % queueSize)
        { state.data ((published + done) % queueSize) with value := .raw }).consume pc) := by
  have hstage : stage (published + done) = .taken := hscan.at_cursor
  have hadmitted := hordered.admitted (published + done) (by simp [hstage])
  have hdata := hordered.slots (published + done) (by omega) (by omega)
  rw [hstage] at hdata
  constructor
  · refine ⟨published, Function.update stage (published + done) .gone, ?_⟩
    rw [hdata]
    apply hordered.touch (by simp [hstage, Stage.Owned]) (by simp [hstage]) .gone
      state.received pc (hpc _ (hscan.update .gone)) hordered.received hordered.received_le
  · apply keeps_of_update rfl
    simp [hdata, Stage.item]

theorem Ordered.scan_ready {done : Nat} (hscan : Scan published stage done Stage.Live)
    (hsize : 0 < queueSize)
    (hvalid : (state.data ((published + done) % queueSize)).isValid = true) :
    Scan published stage done (· = .ready) := by
  have hshort := hordered.scan_short hscan
  rw [hordered.slots (published + done) (by omega) (by omega)] at hvalid
  exact ⟨hscan.finished, Stage.eq_ready_of_valid hvalid, hscan.untouched⟩

theorem Ordered.storeBatch
    (hwrites : state.tickets.length + queueSize < wordRange) {consumed count : Nat}
    (hagrees : (ConsumerPc.multiStore consumed count).Agrees published stage
      state.received.length) :
    Delivers queueSize state
      ({ state with consumed := wrap (consumed + count) }.consume .idle) := by
  have hle := hordered.received_le
  obtain ⟨rfl, hcount, hscan⟩ := hagrees
  refine ⟨⟨_, _, hordered.publish hscan hcount ?_⟩, keeps_store _ _⟩
  exact wrap_wrapSub_add (by omega)

/-- Only `readMultiple` looks past the next ticket, so only its steps need room for the
whole array below the range of the counters. -/
theorem Ordered.stepConsumer (hwrites : state.tickets.length < wordRange)
    (hmultiple : state.consumer.Multiple → state.tickets.length + queueSize < wordRange)
    (hstep : stepConsumer queueSize state = some after) :
    Delivers queueSize state after := by
  have hconsumer := hordered.consumer
  have hle := hordered.received_le
  unfold SingleConsumerQueue.stepConsumer at hstep
  cases hpc : state.consumer with
  | idle => simp [hpc] at hstep
  | readLoad =>
      rw [hpc] at hconsumer hstep
      cases hstep
      refine ⟨⟨_, _, hordered.consumerTo ?_⟩, keeps_of_data_eq rfl⟩
      exact ⟨hordered.consumed, hconsumer⟩
  | readPlace consume =>
      rw [hpc] at hconsumer
      simp only [hpc] at hstep
      split at hstep
      · cases hstep
        exact ⟨⟨_, _, hordered.consumerTo hconsumer.2⟩, keeps_of_data_eq rfl⟩
      · cases hstep
        refine ⟨⟨_, _, hordered.consumerTo ?_⟩, keeps_of_data_eq rfl⟩
        exact hconsumer
  | readFlag consume =>
      rw [hpc] at hconsumer
      simp only [hpc] at hstep
      obtain ⟨hsize, hafter⟩ := of_bind_slot hstep
      obtain ⟨rfl, hcount, hscan⟩ := hconsumer
      rw [wrap_wrapSub_one_succ (by omega)] at hafter
      split at hafter
      · rename_i hvalid
        cases hafter
        refine ⟨⟨_, _, hordered.consumerTo ?_⟩, keeps_of_data_eq rfl⟩
        exact ⟨rfl, hcount, hordered.scan_ready hscan hsize hvalid⟩
      · cases hafter
        refine ⟨⟨_, _, hordered.consumerTo ?_⟩, keeps_of_data_eq rfl⟩
        exact ⟨hcount, hscan⟩
  | readClear consume =>
      rw [hpc] at hconsumer
      simp only [hpc] at hstep
      obtain ⟨_, hafter⟩ := of_bind_slot hstep
      obtain ⟨rfl, hcount, hscan⟩ := hconsumer
      cases hafter
      apply hordered.clear hscan
      intro stage' hscan'
      exact ⟨rfl, hcount, hscan'⟩
  | readMove consume =>
      rw [hpc] at hconsumer
      simp only [hpc] at hstep
      obtain ⟨_, hafter⟩ := of_bind_slot hstep
      obtain ⟨rfl, hcount, hscan⟩ := hconsumer
      cases hafter
      apply hordered.moveOut hscan hcount
      intro stage' hscan'
      exact ⟨rfl, rfl, hscan'⟩
  | readDestroy consume =>
      rw [hpc] at hconsumer
      simp only [hpc] at hstep
      obtain ⟨_, hafter⟩ := of_bind_slot hstep
      obtain ⟨rfl, hcount, hscan⟩ := hconsumer
      cases hafter
      apply hordered.destroy hscan
      intro stage' hscan'
      exact ⟨rfl, hcount, hscan'⟩
  | readStore consume =>
      rw [hpc] at hconsumer
      simp only [hpc] at hstep
      obtain ⟨rfl, hcount, hscan⟩ := hconsumer
      cases hstep
      refine ⟨⟨_, _, hordered.publish hscan.advance hcount ?_⟩, keeps_store _ _⟩
      rw [wrapSub_of_le (by omega) (by omega)]
      omega
  | multiLoad room =>
      rw [hpc] at hconsumer
      simp only [hpc] at hstep
      cases hstep
      refine ⟨⟨_, _, hordered.consumerTo ?_⟩, keeps_of_data_eq rfl⟩
      exact ⟨hordered.consumed, hconsumer⟩
  | multiFlag consumed i room =>
      rw [hpc] at hconsumer hmultiple
      have hroom := hmultiple trivial
      simp only [hpc] at hstep
      obtain ⟨hsize, hafter⟩ := of_bind_slot hstep
      obtain ⟨rfl, hcount, hscan⟩ := hconsumer
      rw [wrap_wrapSub_one_add (by omega)] at hafter
      split at hafter
      · cases hafter
        refine ⟨⟨_, _, hordered.consumerTo ?_⟩, keeps_of_data_eq rfl⟩
        exact ⟨rfl, hcount, hscan⟩
      · rename_i hvalid
        simp only [not_or, Bool.not_eq_false] at hvalid
        cases hafter
        refine ⟨⟨_, _, hordered.consumerTo ?_⟩, keeps_of_data_eq rfl⟩
        exact ⟨rfl, hcount, hordered.scan_ready hscan hsize hvalid.1⟩
  | multiClear consumed i room =>
      rw [hpc] at hconsumer hmultiple
      have hroom := hmultiple trivial
      simp only [hpc] at hstep
      obtain ⟨_, hafter⟩ := of_bind_slot hstep
      obtain ⟨rfl, hcount, hscan⟩ := hconsumer
      rw [wrap_wrapSub_one_add (by omega)] at hafter
      cases hafter
      apply hordered.clear hscan
      intro stage' hscan'
      exact ⟨rfl, hcount, hscan'⟩
  | multiMove consumed i room =>
      rw [hpc] at hconsumer hmultiple
      have hroom := hmultiple trivial
      simp only [hpc] at hstep
      obtain ⟨_, hafter⟩ := of_bind_slot hstep
      obtain ⟨rfl, hcount, hscan⟩ := hconsumer
      rw [wrap_wrapSub_one_add (by omega)] at hafter
      cases hafter
      apply hordered.moveOut hscan hcount
      intro stage' hscan'
      exact ⟨rfl, rfl, hscan'⟩
  | multiDestroy consumed i room =>
      rw [hpc] at hconsumer hmultiple
      have hroom := hmultiple trivial
      simp only [hpc] at hstep
      obtain ⟨_, hafter⟩ := of_bind_slot hstep
      obtain ⟨rfl, hcount, hscan⟩ := hconsumer
      rw [wrap_wrapSub_one_add (by omega)] at hafter
      cases hafter
      apply hordered.destroy hscan
      intro stage' hscan'
      exact ⟨rfl, hcount, hscan'.advance⟩
  | multiStore consumed i =>
      rw [hpc] at hconsumer hmultiple
      simp only [hpc] at hstep
      cases hstep
      exact hordered.storeBatch (hmultiple trivial) hconsumer

end Consumer

section Runs

variable [DecidableEq Thread] {queueSize : Nat} {state after : State Thread T}
  {published : Nat} {stage : Nat → Stage}

theorem tickets_of_stepProducer {thread : Thread}
    (hstep : stepProducer queueSize state thread = some after) :
    after.tickets = state.tickets := by
  unfold stepProducer at hstep
  split at hstep <;>
    grind [State.produce, State.setItem, Option.bind_eq_some_iff]

omit [DecidableEq Thread] in
theorem tickets_of_stepConsumer (hstep : stepConsumer queueSize state = some after) :
    after.tickets = state.tickets := by
  unfold stepConsumer at hstep
  split at hstep <;>
    grind [State.consume, State.setItem, State.moveOut, Option.bind_eq_some_iff]

theorem tickets_length_le {label : Label Thread T}
    (hnext : next queueSize state label = some after) :
    state.tickets.length ≤ after.tickets.length := by
  cases label with
  | write thread value =>
      simp only [next] at hnext
      split at hnext
      · cases hnext
        simp
      · contradiction
  | read =>
      simp only [next] at hnext
      split at hnext
      · cases hnext
        exact Nat.le_refl _
      · contradiction
  | readMultiple room =>
      simp only [next] at hnext
      split at hnext
      · cases hnext
        exact Nat.le_refl _
      · contradiction
  | producer thread => exact Nat.le_of_eq (congrArg _ (tickets_of_stepProducer hnext).symm)
  | consumer => exact Nat.le_of_eq (congrArg _ (tickets_of_stepConsumer hnext).symm)

theorem Ordered.next (hordered : Ordered queueSize state published stage)
    {label : Label Thread T} (hwrites : after.tickets.length < wordRange)
    (hmultiple : state.consumer.Multiple → after.tickets.length + queueSize < wordRange)
    (hnext : next queueSize state label = some after) : Delivers queueSize state after := by
  have hgrow := tickets_length_le hnext
  cases label with
  | write thread value =>
      simp only [SingleConsumerQueue.next] at hnext
      split at hnext
      · rename_i hpc
        cases hnext
        simp only [List.length_append, List.length_singleton] at hwrites
        exact ⟨⟨_, _, hordered.write (by omega) value hpc⟩, keeps_of_data_eq rfl⟩
      · contradiction
  | read =>
      simp only [SingleConsumerQueue.next] at hnext
      split at hnext
      · rename_i hpc
        cases hnext
        have hconsumer := hordered.consumer
        rw [hpc] at hconsumer
        refine ⟨⟨_, _, hordered.consumerTo ?_⟩, keeps_of_data_eq rfl⟩
        exact hconsumer
      · contradiction
  | readMultiple room =>
      simp only [SingleConsumerQueue.next] at hnext
      split at hnext
      · rename_i hpc
        cases hnext
        have hconsumer := hordered.consumer
        rw [hpc] at hconsumer
        refine ⟨⟨_, _, hordered.consumerTo ?_⟩, keeps_of_data_eq rfl⟩
        exact hconsumer
      · contradiction
  | producer thread => exact hordered.stepProducer (by omega) hnext
  | consumer =>
      refine hordered.stepConsumer (by omega) (fun hinside => ?_) hnext
      have hroom := hmultiple hinside
      omega

theorem ordered_of_reachable (hreach : (machine queueSize).Reachable state)
    (hwrites : state.tickets.length + queueSize < wordRange) :
    ∃ published stage, Ordered queueSize state published stage := by
  revert hwrites
  apply hreach.invariant fun state => state.tickets.length + queueSize < wordRange →
    ∃ published stage, Ordered queueSize state published stage
  · rintro state rfl _
    exact ⟨0, _, ordered_start queueSize⟩
  · intro state label after ih _ hnext hwrites
    have hgrow := tickets_length_le hnext
    obtain ⟨published, stage, hordered⟩ := ih (by omega)
    exact (hordered.next (by omega) (fun _ => hwrites) hnext).ordered

/-- The consumer has received the values of the first tickets, in ticket order and
each once. A producer only constructs into an empty slot, and no step changes a
finished value except by handing it to the consumer. -/
theorem delivered_in_ticket_order (queueSize : Nat) (state : State Thread T)
    (hreach : (machine queueSize).Reachable state)
    (hwrites : state.tickets.length < wordRange - queueSize) :
    state.received.length ≤ state.tickets.length ∧
      state.received = (state.tickets.take state.received.length).map .full ∧
      (∀ thread value pos, state.producer thread = .construct value pos →
        state.data (pos % queueSize) = ⟨.raw, false⟩) ∧
      ∀ label after, next queueSize state label = some after →
        after.tickets.length < wordRange - queueSize → Keeps state after := by
  obtain ⟨published, stage, hordered⟩ := ordered_of_reachable hreach (by omega)
  refine ⟨hordered.received_le, hordered.received, ?_, ?_⟩
  · intro thread value pos hpc
    have hproducer := hordered.producers thread
    rw [hpc] at hproducer
    obtain ⟨_, hstage, hadmitted⟩ := hproducer
    rw [hordered.slots pos (hordered.unpublished (by simp [hstage])) (by omega), hstage]
    rfl
  · intro label after hnext hafter
    exact (hordered.next (by omega) (fun _ => by omega) hnext).keeps

end Runs

/-- Two producers take tickets, the second fills its slot first, and the consumer
reads once both are done. -/
def overlappingWrites {Thread : Type} (first second : Thread) : List (Label Thread Nat) :=
  [.write first 5, .write second 7] ++ List.replicate 4 (.producer second) ++
    List.replicate 4 (.producer first) ++ [.readMultiple 2] ++ List.replicate 10 .consumer

theorem overlapping_writes_delivered :
    ∃ state : State (Fin 2) Nat, (machine 3).Reachable state ∧
      state.tickets.length < wordRange - 3 ∧ state.received.length = 2 ∧
      state.received = (state.tickets.take state.received.length).map .full := by
  obtain ⟨state, hreach, htest⟩ := Machine.exists_reachable_of_replay (machine 3)
    (start : State (Fin 2) Nat) (overlappingWrites 0 1)
    (fun state => decide (state.tickets.length < wordRange - 3 ∧ state.received.length = 2))
    rfl (by decide +kernel)
  obtain ⟨hwrites, hcount⟩ := of_decide_eq_true htest
  exact ⟨state, hreach, hwrites, hcount, (delivered_in_ticket_order 3 state hreach hwrites).2.1⟩

end Crossbow.Concurrent.SingleConsumerQueue
