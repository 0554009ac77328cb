import Crossbow.Concurrent.QueueDelivery

/-! What a failed `read` tells. Every ticket that was not read yet is still held by its
producer or ready in its slot, so without producers in `write` a queue whose head is not
ready is empty; and a `read` that fails saw a head that was not ready. -/
namespace Crossbow.Concurrent.SingleConsumerQueue
open Kernel

variable {Thread T : Type}

def HeadReady (queueSize : Nat) (state : State Thread T) : Prop :=
  ∃ index, slot queueSize state.received.length = some index ∧ (state.data index).isValid = true

theorem HeadReady.of_flags {queueSize : Nat} {state after : State Thread T}
    (hhead : HeadReady queueSize after)
    (hflags : ∀ index, (after.data index).isValid = (state.data index).isValid)
    (hreceived : after.received = state.received) : HeadReady queueSize state := by
  obtain ⟨index, hslot, hvalid⟩ := hhead
  rw [hreceived] at hslot
  exact ⟨index, hslot, (hflags index).symm.trans hvalid⟩

/-- Each unread ticket is held by a producer, ready in the window of the slots, or the one
that the consumer has claimed. -/
def Covered (queueSize : Nat) (state : State Thread T) : Prop :=
  ∀ ticket, state.received.length ≤ ticket → ticket < state.tickets.length →
    (∃ thread, (state.producer thread).ticket = some ticket) ∨
      (ticket < state.received.length + queueSize ∧
        (state.data (ticket % queueSize)).isValid = true) ∨
      (ticket = state.received.length ∧ ∃ consume, state.consumer = .readMove consume)

theorem covered_start (queueSize : Nat) : Covered queueSize (start : State Thread T) := by
  intro ticket _ hticket
  exact absurd hticket (Nat.not_lt_zero ticket)

theorem slot_of_pos {queueSize : Nat} (hsize : 0 < queueSize) (pos : Nat) :
    slot queueSize pos = some (pos % queueSize) := if_neg (by omega)

theorem Covered.all_read {queueSize : Nat} {state : State Thread T}
    (hcovered : Covered queueSize state) (hproducers : ∀ thread, state.producer thread = .idle)
    (hconsumer : state.consumer = .idle) (hhead : ¬ HeadReady queueSize state) :
    state.tickets.length ≤ state.received.length := by
  by_contra hmore
  rcases hcovered state.received.length (Nat.le_refl _) (by omega) with
    ⟨thread, hticket⟩ | ⟨hwindow, hvalid⟩ | ⟨_, consume, hmove⟩
  · rw [hproducers thread] at hticket
    contradiction
  · exact hhead ⟨_, slot_of_pos (by omega) _, hvalid⟩
  · rw [hconsumer] at hmove
    contradiction

section Producer

variable [DecidableEq Thread] {queueSize : Nat} {state after : State Thread T} {thread : Thread}

/-- A step of a producer inside `write`: it keeps its ticket and all flags, or it raises the
flag of its ticket and leaves. -/
inductive ProducerStep (queueSize : Nat) (state : State Thread T) (thread : Thread)
    (after : State Thread T) : Prop where
  | keeps (pc : ProducerPc T) (data : Nat → Item T)
      (hafter : after = { state with
        data := data, producer := Function.update state.producer thread pc })
      (hticket : pc.ticket = (state.producer thread).ticket) (hpc : pc ≠ .idle)
      (hflags : ∀ index, (data index).isValid = (state.data index).isValid)
  | validates (value : T) (pos : Nat) (hpc : state.producer thread = .validate value pos)
      (hafter : after = (state.setItem (pos % queueSize)
        { state.data (pos % queueSize) with isValid := true }).produce thread .idle)

omit [DecidableEq Thread] in
theorem flag_setItem (state : State Thread T) (index : Nat) (value : Cell T) (other : Nat) :
    ((Function.update state.data index { state.data index with value := value }) other).isValid =
      (state.data other).isValid := by
  by_cases hsame : other = index
  · rw [hsame, Function.update_self]
  · rw [Function.update_of_ne hsame]

theorem stepProducer_cases (hstep : stepProducer queueSize state thread = some after) :
    ProducerStep queueSize state thread after := by
  unfold stepProducer at hstep
  split at hstep
  · contradiction
  · rename_i value pos hpc
    split at hstep
    · refine .keeps (state.producer thread) state.data ?_ rfl (by rw [hpc]; nofun) fun _ => rfl
      rw [Function.update_eq_self]
      exact (Option.some.inj hstep).symm
    · exact .keeps (.construct value pos) state.data (Option.some.inj hstep).symm
        (by rw [hpc]; rfl) nofun fun _ => rfl
  · rename_i value pos hpc
    obtain ⟨index, hslot, hafter⟩ := Option.bind_eq_some_iff.mp hstep
    exact .keeps (.finish value pos) _ (Option.some.inj hafter).symm (by rw [hpc]; rfl) nofun
      (flag_setItem state index .building)
  · rename_i value pos hpc
    obtain ⟨index, hslot, hafter⟩ := Option.bind_eq_some_iff.mp hstep
    exact .keeps (.validate value pos) _ (Option.some.inj hafter).symm (by rw [hpc]; rfl) nofun
      (flag_setItem state index (.full value))
  · rename_i value pos hpc
    obtain ⟨index, hslot, hafter⟩ := Option.bind_eq_some_iff.mp hstep
    cases eq_mod_of_slot hslot
    exact .validates value pos hpc (Option.some.inj hafter).symm

end Producer

section Consumer

variable {queueSize : Nat} {state after : State Thread T} {published : Nat}
  {stage : Nat → Stage}

theorem Ordered.published_le_received (hordered : Ordered queueSize state published stage) :
    published ≤ state.received.length := by
  have hagrees := hordered.consumer
  cases hpc : state.consumer with
  | idle | readLoad | multiLoad =>
      rw [hpc] at hagrees
      exact Nat.le_of_eq hagrees.1.symm
  | readPlace | readFlag | readClear | readMove =>
      rw [hpc] at hagrees
      exact Nat.le_of_eq hagrees.2.1.symm
  | readDestroy | readStore | multiFlag | multiClear | multiMove | multiDestroy | multiStore =>
      rw [hpc] at hagrees
      have hcount := hagrees.2.1
      omega

/-- A step of the consumer inside `read`: it changes no flag, it leaves with a head that is
not ready, or it takes the flag or the value of the head. -/
inductive ReadStep (queueSize : Nat) (state after : State Thread T) : Prop where
  | quiet (data : Nat → Item T) (consumed : Nat) (pc : ConsumerPc)
      (hafter : after = { state with data := data, consumed := consumed, consumer := pc })
      (hflags : ∀ index, (data index).isValid = (state.data index).isValid)
      (hbefore : ∀ consume, state.consumer ≠ .readMove consume)
      (hidle : pc = .idle → ∃ consume, state.consumer = .readStore consume)
      (hsingle : ¬ pc.Multiple)
  | fails (hafter : after = state.consume .idle) (hhead : ¬ HeadReady queueSize state)
      (hbefore : ∀ consume, state.consumer ≠ .readMove consume)
  | clears (hafter : after = (state.setItem (state.received.length % queueSize)
        { state.data (state.received.length % queueSize) with isValid := false }).consume
          (.readMove state.received.length))
      (hbefore : ∀ consume, state.consumer ≠ .readMove consume)
  | moves (hafter : after = (state.moveOut (state.received.length % queueSize)).consume
      (.readDestroy state.received.length))

theorem Ordered.head_of_place (hordered : Ordered queueSize state published stage)
    (hcount : state.received.length = published) (hplace : state.tickets.length ≤ published) :
    ¬ HeadReady queueSize state := by
  rintro ⟨index, hslot, hvalid⟩
  have hsize := size_pos_of_slot hslot
  cases eq_mod_of_slot hslot
  rw [hcount, hordered.slots published (Nat.le_refl _) (by omega),
    hordered.future published hplace] at hvalid
  contradiction

theorem Ordered.read_cases (hordered : Ordered queueSize state published stage)
    (hwrites : state.tickets.length < wordRange) (hsingle : ¬ state.consumer.Multiple)
    (hstep : SingleConsumerQueue.stepConsumer queueSize state = some after) :
    ReadStep queueSize state after := by
  have hagrees := hordered.consumer
  have hbound := hordered.published_le_received
  have hreceived := hordered.received_le
  unfold SingleConsumerQueue.stepConsumer at hstep
  cases hpc : state.consumer with
  | idle => simp [hpc] at hstep
  | readLoad =>
      simp only [hpc] at hstep
      exact .quiet state.data state.consumed _ (Option.some.inj hstep).symm (fun _ => rfl)
        (by rw [hpc]; nofun) nofun id
  | readPlace consume =>
      rw [hpc] at hagrees
      obtain ⟨rfl, hcount, _⟩ := hagrees
      have hcursor := wrap_wrapSub_one_succ (show published < wordRange by omega)
      simp only [hpc, hcursor, hordered.place] at hstep
      split at hstep
      · rename_i hempty
        exact .fails (Option.some.inj hstep).symm (hordered.head_of_place hcount hempty)
          (by rw [hpc]; nofun)
      · exact .quiet state.data state.consumed _ (Option.some.inj hstep).symm (fun _ => rfl)
          (by rw [hpc]; nofun) nofun id
  | readFlag consume =>
      rw [hpc] at hagrees
      obtain ⟨rfl, hcount, _⟩ := hagrees
      have hcursor := wrap_wrapSub_one_succ (show published < wordRange by omega)
      simp only [hpc, hcursor, Option.bind_eq_bind, Option.bind_eq_some_iff] at hstep
      obtain ⟨index, hslot, hafter⟩ := hstep
      split at hafter
      · exact .quiet state.data state.consumed _ (Option.some.inj hafter).symm (fun _ => rfl)
          (by rw [hpc]; nofun) nofun id
      · rename_i hinvalid
        refine .fails (Option.some.inj hafter).symm ?_ (by rw [hpc]; nofun)
        rintro ⟨other, hother, hvalid⟩
        rw [hcount, hslot] at hother
        cases hother
        exact hinvalid hvalid
  | readClear consume =>
      rw [hpc] at hagrees
      obtain ⟨rfl, hcount, _⟩ := hagrees
      simp only [hpc, Option.bind_eq_bind, Option.bind_eq_some_iff] at hstep
      obtain ⟨index, hslot, hafter⟩ := hstep
      cases eq_mod_of_slot hslot
      refine .clears ?_ (by rw [hpc]; nofun)
      rw [hcount]
      exact (Option.some.inj hafter).symm
  | readMove consume =>
      rw [hpc] at hagrees
      obtain ⟨rfl, hcount, _⟩ := hagrees
      simp only [hpc, Option.bind_eq_bind, Option.bind_eq_some_iff] at hstep
      obtain ⟨index, hslot, hafter⟩ := hstep
      cases eq_mod_of_slot hslot
      refine .moves ?_
      rw [hcount]
      exact (Option.some.inj hafter).symm
  | readDestroy consume =>
      simp only [hpc, Option.bind_eq_bind, Option.bind_eq_some_iff] at hstep
      obtain ⟨index, hslot, hafter⟩ := hstep
      exact .quiet _ state.consumed _ (Option.some.inj hafter).symm (flag_setItem state index .raw)
        (by rw [hpc]; nofun) nofun id
  | readStore consume =>
      simp only [hpc] at hstep
      exact .quiet state.data consume .idle (Option.some.inj hstep).symm (fun _ => rfl)
        (by rw [hpc]; nofun) (fun _ => ⟨consume, hpc⟩) id
  | multiLoad | multiFlag | multiClear | multiMove | multiDestroy | multiStore =>
      rw [hpc] at hsingle
      exact absurd trivial hsingle

theorem Covered.of_flags (hcovered : Covered queueSize state) {data : Nat → Item T}
    {consumed : Nat} {pc : ConsumerPc}
    (hflags : ∀ index, (data index).isValid = (state.data index).isValid)
    (hbefore : ∀ consume, state.consumer ≠ .readMove consume) :
    Covered queueSize { state with data := data, consumed := consumed, consumer := pc } := by
  intro ticket hlow hhigh
  rcases hcovered ticket hlow hhigh with hheld | ⟨hwindow, hvalid⟩ | ⟨_, consume, hmove⟩
  · exact .inl hheld
  · exact .inr (.inl ⟨hwindow, (hflags _).trans hvalid⟩)
  · exact absurd hmove (hbefore consume)

theorem Covered.read (hcovered : Covered queueSize state) (hread : ReadStep queueSize state after) :
    Covered queueSize after := by
  cases hread with
  | quiet data consumed pc hafter hflags hbefore _ _ =>
      rw [hafter]
      exact hcovered.of_flags hflags hbefore
  | fails hafter _ hbefore =>
      rw [hafter]
      exact hcovered.of_flags (fun _ => rfl) hbefore
  | clears hafter hbefore =>
      rw [hafter]
      intro ticket hlow hhigh
      by_cases hhead : ticket = state.received.length
      · exact .inr (.inr ⟨hhead, _, rfl⟩)
      · rcases hcovered ticket hlow hhigh with hheld | ⟨hwindow, hvalid⟩ | ⟨_, consume, hmove⟩
        · exact .inl hheld
        · -- another ticket of the window has another slot
          have hslot : ticket % queueSize ≠ state.received.length % queueSize := by
            intro hsame
            have hlower : state.received.length ≤ ticket := hlow
            exact hhead (eq_of_mod_eq_of_window ⟨hlower, hwindow⟩ ⟨Nat.le_refl _, by omega⟩ hsame)
          refine .inr (.inl ⟨hwindow, ?_⟩)
          simp only [State.consume, State.setItem, Function.update_of_ne hslot]
          exact hvalid
        · exact absurd hmove (hbefore consume)
  | moves hafter =>
      rw [hafter]
      intro ticket hlow hhigh
      have hlength : (state.moveOut (state.received.length % queueSize)).received.length =
          state.received.length + 1 := by
        simp [State.moveOut]
      replace hlow : state.received.length + 1 ≤ ticket := hlength ▸ hlow
      rcases hcovered ticket (by omega) hhigh with hheld | ⟨hwindow, hvalid⟩ | ⟨hhead, _⟩
      · exact .inl hheld
      · refine .inr (.inl ⟨?_, (flag_setItem state _ .moved _).trans hvalid⟩)
        show ticket <
          (state.moveOut (state.received.length % queueSize)).received.length + queueSize
        omega
      · omega

end Consumer

section Producers

variable [DecidableEq Thread] {queueSize : Nat} {state after : State Thread T} {published : Nat}
  {stage : Nat → Stage} {thread : Thread}

theorem Covered.write (hcovered : Covered queueSize state)
    (hordered : Ordered queueSize state published stage) (value : T)
    (hpc : state.producer thread = .idle) :
    Covered queueSize { state.produce thread (.checkFull value state.insertPlace) with
      insertPlace := wrap (state.insertPlace + 1)
      tickets := state.tickets ++ [value] } := by
  intro ticket hlow hhigh
  replace hhigh : ticket < (state.tickets ++ [value]).length := hhigh
  rw [List.length_append, List.length_singleton] at hhigh
  by_cases hnew : ticket = state.tickets.length
  · refine .inl ⟨thread, ?_⟩
    simp only [State.produce, Function.update_self, ProducerPc.ticket, hordered.place, hnew]
  · rcases hcovered ticket hlow (by omega) with ⟨holder, hticket⟩ | hready | hclaimed
    · have hother : holder ≠ thread := by
        rintro rfl
        rw [hpc] at hticket
        contradiction
      refine .inl ⟨holder, ?_⟩
      simp only [State.produce, Function.update_of_ne hother]
      exact hticket
    · exact .inr (.inl hready)
    · exact .inr (.inr hclaimed)

theorem Covered.producer (hcovered : Covered queueSize state)
    (hordered : Ordered queueSize state published stage)
    (hstep : ProducerStep queueSize state thread after) : Covered queueSize after := by
  intro ticket
  cases hstep with
  | keeps pc data hafter hsame _ hflags =>
      rw [hafter]
      intro hlow hhigh
      rcases hcovered ticket hlow hhigh with ⟨holder, hticket⟩ | ⟨hwindow, hvalid⟩ | hclaimed
      · refine .inl ⟨holder, ?_⟩
        by_cases hself : holder = thread
        · subst hself
          simp only [Function.update_self]
          exact hsame.trans hticket
        · simp only [Function.update_of_ne hself]
          exact hticket
      · exact .inr (.inl ⟨hwindow, (hflags _).trans hvalid⟩)
      · exact .inr (.inr hclaimed)
  | validates value pos hpc hafter =>
      rw [hafter]
      intro hlow hhigh
      rcases hcovered ticket hlow hhigh with ⟨holder, hticket⟩ | ⟨hwindow, hvalid⟩ | hclaimed
      · by_cases hself : holder = thread
        · subst hself
          rw [hpc] at hticket
          have hpos : pos = ticket := Option.some.inj hticket
          subst hpos
          have hagrees := hordered.producers holder
          rw [hpc] at hagrees
          have hadmitted := hordered.admitted pos (by rw [hagrees.2]; nofun)
          have hpublished := hordered.published_le_received
          refine .inr (.inl ⟨?_, ?_⟩)
          · show pos < state.received.length + queueSize
            omega
          · simp [State.produce, State.setItem]
        · refine .inl ⟨holder, ?_⟩
          simp only [State.produce, State.setItem, Function.update_of_ne hself]
          exact hticket
      · refine .inr (.inl ⟨hwindow, ?_⟩)
        by_cases hslot : ticket % queueSize = pos % queueSize
        · simp [State.produce, State.setItem, hslot]
        · simp only [State.produce, State.setItem, Function.update_of_ne hslot]
          exact hvalid
      · exact .inr (.inr hclaimed)

end Producers

end Crossbow.Concurrent.SingleConsumerQueue
