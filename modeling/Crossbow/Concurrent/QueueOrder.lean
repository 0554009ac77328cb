import Crossbow.Concurrent.SingleConsumerQueue

/-! Every ticket goes through the same stages, from taken to destroyed. The
invariant says which stage each ticket is in and that the slots of the window
starting at the published ticket hold exactly what the stages prescribe. -/
namespace Crossbow.Concurrent.SingleConsumerQueue
open Kernel

variable {Thread T : Type}

inductive Stage where
  | pending
  | building
  | built
  | ready
  | claimed
  | taken
  | gone
  deriving DecidableEq, Repr

def Stage.Live : Stage → Prop
  | .pending | .building | .built | .ready => True
  | .claimed | .taken | .gone => False

def cellOf : Option T → Cell T
  | some value => .full value
  | none => .raw

def Stage.item (value : Option T) : Stage → Item T
  | .pending | .gone => ⟨.raw, false⟩
  | .building => ⟨.building, false⟩
  | .built | .claimed => ⟨cellOf value, false⟩
  | .ready => ⟨cellOf value, true⟩
  | .taken => ⟨.moved, false⟩

theorem Stage.eq_ready_of_valid {value : Option T} {stage : Stage}
    (h : (stage.item value).isValid = true) : stage = .ready := by
  cases stage <;> simp_all [Stage.item]

def ProducerPc.ticket : ProducerPc T → Option Nat
  | .idle => none
  | .checkFull _ pos | .construct _ pos | .finish _ pos | .validate _ pos => some pos

/-- A producer's local variables against the stage of its ticket. -/
def ProducerPc.Agrees (queueSize : Nat) (tickets : List T) (published : Nat)
    (stage : Nat → Stage) : ProducerPc T → Prop
  | .idle => True
  | .checkFull value pos => tickets[pos]? = some value ∧ stage pos = .pending
  | .construct value pos =>
      tickets[pos]? = some value ∧ stage pos = .pending ∧ pos + 1 < published + queueSize
  | .finish value pos => tickets[pos]? = some value ∧ stage pos = .building
  | .validate value pos => tickets[pos]? = some value ∧ stage pos = .built

/-- The consumer has finished `done` tickets since the last publication, the
next one satisfies `current`, and all later ones are untouched. -/
structure Scan (published : Nat) (stage : Nat → Stage) (done : Nat)
    (current : Stage → Prop) : Prop where
  finished : ∀ ticket, published ≤ ticket → ticket < published + done → stage ticket = .gone
  at_cursor : current (stage (published + done))
  untouched : ∀ ticket, published + done < ticket → (stage ticket).Live

/-- The consumer's local variables; `count` is the number of received values. -/
def ConsumerPc.Agrees (published : Nat) (stage : Nat → Stage) (count : Nat) : ConsumerPc → Prop
  | .idle | .readLoad | .multiLoad _ => count = published ∧ Scan published stage 0 Stage.Live
  | .readPlace consume | .readFlag consume => consume = wrapSub published 1 ∧
      count = published ∧ Scan published stage 0 Stage.Live
  | .readClear consume => consume = published ∧
      count = published ∧ Scan published stage 0 (· = .ready)
  | .readMove consume => consume = published ∧
      count = published ∧ Scan published stage 0 (· = .claimed)
  | .readDestroy consume => consume = published ∧
      count = published + 1 ∧ Scan published stage 0 (· = .taken)
  | .readStore consume => consume = published ∧
      count = published + 1 ∧ Scan published stage 0 (· = .gone)
  | .multiFlag consumed i _ => consumed = wrapSub published 1 ∧
      count = published + i ∧ Scan published stage i Stage.Live
  | .multiClear consumed i _ => consumed = wrapSub published 1 ∧
      count = published + i ∧ Scan published stage i (· = .ready)
  | .multiMove consumed i _ => consumed = wrapSub published 1 ∧
      count = published + i ∧ Scan published stage i (· = .claimed)
  | .multiDestroy consumed i _ => consumed = wrapSub published 1 ∧
      count = published + i + 1 ∧ Scan published stage i (· = .taken)
  | .multiStore consumed i => consumed = wrapSub published 1 ∧
      count = published + i ∧ Scan published stage i Stage.Live

structure Ordered (queueSize : Nat) (state : State Thread T) (published : Nat)
    (stage : Nat → Stage) : Prop where
  place : state.insertPlace = state.tickets.length
  consumed : state.consumed = wrapSub published 1
  slots : ∀ ticket, published ≤ ticket → ticket < published + queueSize →
    state.data (ticket % queueSize) = (stage ticket).item state.tickets[ticket]?
  future : ∀ ticket, state.tickets.length ≤ ticket → stage ticket = .pending
  admitted : ∀ ticket, stage ticket ≠ .pending → ticket + 1 < published + queueSize
  past : ∀ ticket, ticket < published → stage ticket = .gone
  producers : ∀ thread,
    (state.producer thread).Agrees queueSize state.tickets published stage
  unique : ∀ left right ticket, (state.producer left).ticket = some ticket →
    (state.producer right).ticket = some ticket → left = right
  consumer : state.consumer.Agrees published stage state.received.length
  received : state.received = (state.tickets.take state.received.length).map .full
  received_le : state.received.length ≤ state.tickets.length

theorem ordered_start (queueSize : Nat) :
    Ordered queueSize (start : State Thread T) 0 (fun _ => .pending) where
  place := rfl
  consumed := by simp [start, wrapSub, wordRange]
  slots := by simp [start, Stage.item]
  future := by simp
  admitted := by simp
  past := by simp
  producers := by simp [start, ProducerPc.Agrees]
  unique := by simp [start, ProducerPc.ticket]
  consumer := ⟨rfl, by simp, trivial, fun _ _ => trivial⟩
  received := by simp [start]
  received_le := by simp [start]

section Facts

variable {queueSize ticket : Nat} {state : State Thread T} {published : Nat} {stage : Nat → Stage}

section Updates

variable (hordered : Ordered queueSize state published stage)
include hordered

theorem Ordered.unpublished (hstage : stage ticket ≠ .gone) : published ≤ ticket := by
  rcases Nat.lt_or_ge ticket published with hlt | hge
  · exact absurd (hordered.past ticket hlt) hstage
  · exact hge

theorem Ordered.taken (hstage : stage ticket ≠ .pending) : ticket < state.tickets.length := by
  rcases Nat.lt_or_ge ticket state.tickets.length with hlt | hge
  · exact hlt
  · exact absurd (hordered.future ticket hge) hstage

theorem Ordered.slots_update (hlow : published ≤ ticket) (hhigh : ticket < published + queueSize)
    (target : Stage) (other : Nat) (hother : published ≤ other)
    (hother' : other < published + queueSize) :
    Function.update state.data (ticket % queueSize) (target.item state.tickets[ticket]?)
        (other % queueSize) =
      (Function.update stage ticket target other).item state.tickets[other]? := by
  by_cases hsame : other = ticket
  · subst hsame
    simp
  · have hne : other % queueSize ≠ ticket % queueSize := fun h =>
      hsame (eq_of_mod_eq_of_window ⟨hother, hother'⟩ ⟨hlow, hhigh⟩ h)
    rw [Function.update_of_ne hne, Function.update_of_ne hsame]
    exact hordered.slots other hother hother'

theorem Ordered.future_update (htaken : ticket < state.tickets.length) (target : Stage)
    (other : Nat) (hother : state.tickets.length ≤ other) :
    Function.update stage ticket target other = .pending := by
  rw [Function.update_of_ne (show other ≠ ticket by omega)]
  exact hordered.future other hother

theorem Ordered.admitted_update (hadmitted : ticket + 1 < published + queueSize) (target : Stage)
    (other : Nat) (hother : Function.update stage ticket target other ≠ .pending) :
    other + 1 < published + queueSize := by
  by_cases hsame : other = ticket
  · rw [hsame]
    exact hadmitted
  · rw [Function.update_of_ne hsame] at hother
    exact hordered.admitted other hother

theorem Ordered.past_update (hlow : published ≤ ticket) (target : Stage) (other : Nat)
    (hother : other < published) :
    Function.update stage ticket target other = .gone := by
  rw [Function.update_of_ne (show other ≠ ticket by omega)]
  exact hordered.past other hother

end Updates

def Stage.Owned : Stage → Prop
  | .pending | .building | .built => True
  | .ready | .claimed | .taken | .gone => False

theorem Scan.transport {stage' : Nat → Stage} {done : Nat} {current : Stage → Prop}
    (hscan : Scan published stage done current)
    (hcurrent : ∀ old new : Stage, current old → old.Owned → new.Live → current new)
    (hstage : ∀ ticket, stage' ticket = stage ticket ∨
      (stage ticket).Owned ∧ (stage' ticket).Live) :
    Scan published stage' done current where
  finished := by
    intro ticket hlow hhigh
    have hgone := hscan.finished ticket hlow hhigh
    rcases hstage ticket with hsame | ⟨howned, _⟩
    · rw [hsame, hgone]
    · rw [hgone] at howned
      exact howned.elim
  at_cursor := by
    rcases hstage (published + done) with hsame | ⟨howned, hlive⟩
    · rw [hsame]
      exact hscan.at_cursor
    · exact hcurrent _ _ hscan.at_cursor howned hlive
  untouched := by
    intro ticket hticket
    rcases hstage ticket with hsame | ⟨_, hlive⟩
    · rw [hsame]
      exact hscan.untouched ticket hticket
    · exact hlive

theorem ConsumerPc.Agrees.transport {stage' : Nat → Stage} {count : Nat} {pc : ConsumerPc}
    (hagrees : pc.Agrees published stage count)
    (hstage : ∀ ticket, stage' ticket = stage ticket ∨
      (stage ticket).Owned ∧ (stage' ticket).Live) :
    pc.Agrees published stage' count := by
  have hlive : ∀ old new : Stage, old.Live → old.Owned → new.Live → new.Live :=
    fun _ _ _ _ h => h
  have hfixed : ∀ fixed : Stage, ¬ fixed.Owned → ∀ old new : Stage, old = fixed →
      old.Owned → new.Live → new = fixed := by
    intro fixed hfree old new hold howned
    rw [hold] at howned
    exact absurd howned hfree
  cases pc with
  | idle => exact ⟨hagrees.1, hagrees.2.transport hlive hstage⟩
  | readLoad => exact ⟨hagrees.1, hagrees.2.transport hlive hstage⟩
  | multiLoad room => exact ⟨hagrees.1, hagrees.2.transport hlive hstage⟩
  | readPlace consume => exact ⟨hagrees.1, hagrees.2.1, hagrees.2.2.transport hlive hstage⟩
  | readFlag consume => exact ⟨hagrees.1, hagrees.2.1, hagrees.2.2.transport hlive hstage⟩
  | readClear consume =>
      exact ⟨hagrees.1, hagrees.2.1, hagrees.2.2.transport (hfixed _ id) hstage⟩
  | readMove consume =>
      exact ⟨hagrees.1, hagrees.2.1, hagrees.2.2.transport (hfixed _ id) hstage⟩
  | readDestroy consume =>
      exact ⟨hagrees.1, hagrees.2.1, hagrees.2.2.transport (hfixed _ id) hstage⟩
  | readStore consume =>
      exact ⟨hagrees.1, hagrees.2.1, hagrees.2.2.transport (hfixed _ id) hstage⟩
  | multiFlag consumed i room =>
      exact ⟨hagrees.1, hagrees.2.1, hagrees.2.2.transport hlive hstage⟩
  | multiClear consumed i room =>
      exact ⟨hagrees.1, hagrees.2.1, hagrees.2.2.transport (hfixed _ id) hstage⟩
  | multiMove consumed i room =>
      exact ⟨hagrees.1, hagrees.2.1, hagrees.2.2.transport (hfixed _ id) hstage⟩
  | multiDestroy consumed i room =>
      exact ⟨hagrees.1, hagrees.2.1, hagrees.2.2.transport (hfixed _ id) hstage⟩
  | multiStore consumed i =>
      exact ⟨hagrees.1, hagrees.2.1, hagrees.2.2.transport hlive hstage⟩

/-- A producer only depends on the stage of its own ticket, on the tickets
already taken and, once admitted, on a lower bound of the window. -/
theorem ProducerPc.Agrees.transport {stage' : Nat → Stage} {tickets tickets' : List T}
    {published' : Nat} {pc : ProducerPc T}
    (hagrees : pc.Agrees queueSize tickets published stage)
    (hstage : ∀ ticket, pc.ticket = some ticket → stage' ticket = stage ticket)
    (htickets : ∀ (ticket : Nat) (value : T), tickets[ticket]? = some value →
      tickets'[ticket]? = some value)
    (hpublished : published ≤ published') :
    pc.Agrees queueSize tickets' published' stage' := by
  cases pc with
  | idle => trivial
  | checkFull value pos =>
      exact ⟨htickets _ _ hagrees.1, (hstage pos rfl).trans hagrees.2⟩
  | construct value pos =>
      refine ⟨htickets _ _ hagrees.1, (hstage pos rfl).trans hagrees.2.1, ?_⟩
      have := hagrees.2.2
      omega
  | finish value pos => exact ⟨htickets _ _ hagrees.1, (hstage pos rfl).trans hagrees.2⟩
  | validate value pos => exact ⟨htickets _ _ hagrees.1, (hstage pos rfl).trans hagrees.2⟩

theorem ProducerPc.Agrees.owned {tickets : List T} {pc : ProducerPc T}
    (hagrees : pc.Agrees queueSize tickets published stage) (hticket : pc.ticket = some ticket) :
    (stage ticket).Owned ∧ ticket < tickets.length := by
  cases pc with
  | idle => cases hticket
  | checkFull value pos =>
      cases hticket
      exact ⟨by rw [hagrees.2]; trivial, (List.getElem?_eq_some_iff.mp hagrees.1).1⟩
  | construct value pos =>
      cases hticket
      exact ⟨by rw [hagrees.2.1]; trivial, (List.getElem?_eq_some_iff.mp hagrees.1).1⟩
  | finish value pos =>
      cases hticket
      exact ⟨by rw [hagrees.2]; trivial, (List.getElem?_eq_some_iff.mp hagrees.1).1⟩
  | validate value pos =>
      cases hticket
      exact ⟨by rw [hagrees.2]; trivial, (List.getElem?_eq_some_iff.mp hagrees.1).1⟩

end Facts

section Steps

variable [DecidableEq Thread] {queueSize done : Nat} {state : State Thread T} {published : Nat}
  {stage : Nat → Stage}

theorem Ordered.produce (hordered : Ordered queueSize state published stage) {thread : Thread}
    {ticket : Nat} (hticket : (state.producer thread).ticket = some ticket)
    (hadmitted : ticket + 1 < published + queueSize) (target : Stage) (pc : ProducerPc T)
    (hlive : target.Live) (hpc : pc.ticket = some ticket ∨ pc.ticket = none)
    (hagrees : pc.Agrees queueSize state.tickets published (Function.update stage ticket target)) :
    Ordered queueSize
      ((state.setItem (ticket % queueSize) (target.item state.tickets[ticket]?)).produce thread pc)
      published (Function.update stage ticket target) := by
  obtain ⟨howned, htaken⟩ := (hordered.producers thread).owned hticket
  have hlow : published ≤ ticket := hordered.unpublished (by
    rintro hgone
    rw [hgone] at howned
    exact howned)
  have hothers : ∀ other, other ≠ thread → ∀ held, (state.producer other).ticket = some held →
      held ≠ ticket := by
    rintro other hother held hheld rfl
    exact hother (hordered.unique other thread held hheld hticket)
  refine ⟨hordered.place, hordered.consumed, hordered.slots_update hlow (by omega) target,
    hordered.future_update htaken target, hordered.admitted_update hadmitted target,
    hordered.past_update hlow target, ?_, ?_, ?_, hordered.received, hordered.received_le⟩
  · intro other
    by_cases hsame : other = thread
    · subst hsame
      simpa [State.produce, State.setItem] using hagrees
    · simp only [State.produce, State.setItem, Function.update_of_ne hsame]
      refine (hordered.producers other).transport ?_ (fun _ _ h => h) (Nat.le_refl _)
      intro held hheld
      rw [Function.update_of_ne (hothers other hsame held hheld)]
  · intro left right held hleft hright
    by_cases hl : left = thread <;> by_cases hr : right = thread
    · rw [hl, hr]
    · subst hl
      simp only [State.produce, State.setItem, Function.update_self,
        Function.update_of_ne hr] at hleft hright
      rcases hpc with hpc | hpc
      · rw [hpc] at hleft
        cases hleft
        exact absurd rfl (hothers right hr _ hright)
      · rw [hpc] at hleft
        cases hleft
    · subst hr
      simp only [State.produce, State.setItem, Function.update_self,
        Function.update_of_ne hl] at hleft hright
      rcases hpc with hpc | hpc
      · rw [hpc] at hright
        cases hright
        exact absurd rfl (hothers left hl _ hleft)
      · rw [hpc] at hright
        cases hright
    · simp only [State.produce, State.setItem, Function.update_of_ne hl,
        Function.update_of_ne hr] at hleft hright
      exact hordered.unique left right held hleft hright
  · refine hordered.consumer.transport ?_
    intro other
    by_cases hsame : other = ticket
    · subst hsame
      exact .inr ⟨howned, by simpa using hlive⟩
    · exact .inl (Function.update_of_ne hsame _ _)

theorem Ordered.admit (hordered : Ordered queueSize state published stage)
    (hwrites : state.tickets.length < wordRange) {thread : Thread} {value : T}
    {pos : Nat} (hpc : state.producer thread = .checkFull value pos)
    (hroom : isFull queueSize state pos = false) :
    Ordered queueSize (state.produce thread (.construct value pos)) published stage := by
  have hproducer := hordered.producers thread
  rw [hpc] at hproducer
  obtain ⟨hvalue, hpending⟩ := hproducer
  have htaken : pos < state.tickets.length := (List.getElem?_eq_some_iff.mp hvalue).1
  have hlow : published ≤ pos := hordered.unpublished (by simp [hpending])
  have hadmitted : pos + 1 < published + queueSize := by
    simp only [isFull, decide_eq_false_iff_not] at hroom
    rw [hordered.consumed, wrapSub_wrapSub_one hlow (by omega)] at hroom
    omega
  have hsame : ∀ other, ((state.produce thread (.construct value pos)).producer other).ticket =
      (state.producer other).ticket := by
    intro other
    by_cases hother : other = thread
    · subst hother
      simp [State.produce, hpc, ProducerPc.ticket]
    · simp [State.produce, hother]
  refine { hordered with producers := ?_, unique := ?_ }
  · intro other
    by_cases hother : other = thread
    · subst hother
      simp only [State.produce, Function.update_self]
      exact ⟨hvalue, hpending, hadmitted⟩
    · simp only [State.produce, Function.update_of_ne hother]
      exact hordered.producers other
  · intro left right held hleft hright
    rw [hsame] at hleft hright
    exact hordered.unique left right held hleft hright

theorem Ordered.write (hordered : Ordered queueSize state published stage)
    (hwrites : state.tickets.length + 1 < wordRange) {thread : Thread} (value : T)
    (hpc : state.producer thread = .idle) :
    Ordered queueSize
      { state.produce thread (.checkFull value state.insertPlace) with
        insertPlace := wrap (state.insertPlace + 1)
        tickets := state.tickets ++ [value] }
      published stage := by
  have hkeep : ∀ (ticket : Nat) (held : T), state.tickets[ticket]? = some held →
      (state.tickets ++ [value])[ticket]? = some held := by
    intro ticket held hheld
    rw [List.getElem?_append_left (List.getElem?_eq_some_iff.mp hheld).1, hheld]
  have hothers : ∀ other ticket, (state.producer other).ticket = some ticket →
      ticket ≠ state.tickets.length := by
    intro other ticket hticket
    have := ((hordered.producers other).owned hticket).2
    omega
  refine ⟨?_, hordered.consumed, ?_, ?_, hordered.admitted, hordered.past, ?_, ?_,
    hordered.consumer, ?_, ?_⟩
  · simp only [List.length_append, List.length_singleton, hordered.place]
    exact wrap_of_lt hwrites
  · intro ticket hlow hhigh
    refine (hordered.slots ticket hlow hhigh).trans ?_
    simp only
    by_cases htaken : ticket < state.tickets.length
    · rw [List.getElem?_append_left htaken]
    · rw [hordered.future ticket (by omega)]
      rfl
  · intro ticket hticket
    simp only [List.length_append, List.length_singleton] at hticket
    exact hordered.future ticket (by omega)
  · intro other
    by_cases hother : other = thread
    · subst hother
      simp only [State.produce, Function.update_self]
      refine ⟨?_, hordered.future _ (by rw [hordered.place])⟩
      rw [hordered.place]
      simp
    · simp only [State.produce, Function.update_of_ne hother]
      exact (hordered.producers other).transport (fun _ _ => rfl) hkeep (Nat.le_refl _)
  · intro left right ticket hleft hright
    by_cases hl : left = thread <;> by_cases hr : right = thread
    · rw [hl, hr]
    · subst hl
      simp only [State.produce, Function.update_self, Function.update_of_ne hr,
        ProducerPc.ticket, Option.some.injEq] at hleft hright
      exact absurd (hleft.symm.trans hordered.place) (hothers right ticket hright)
    · subst hr
      simp only [State.produce, Function.update_self, Function.update_of_ne hl,
        ProducerPc.ticket, Option.some.injEq] at hleft hright
      exact absurd (hright.symm.trans hordered.place) (hothers left ticket hleft)
    · simp only [State.produce, Function.update_of_ne hl, Function.update_of_ne hr] at hleft hright
      exact hordered.unique left right ticket hleft hright
  · refine hordered.received.trans ?_
    simp only [State.produce]
    rw [List.take_append_of_le_length hordered.received_le]
  · have := hordered.received_le
    simp only [List.length_append, List.length_singleton]
    exact Nat.le_succ_of_le this

omit [DecidableEq Thread] in
theorem Ordered.consumerTo (hordered : Ordered queueSize state published stage)
    {pc : ConsumerPc} (hagrees : pc.Agrees published stage state.received.length) :
    Ordered queueSize (state.consume pc) published stage :=
  { hordered with consumer := hagrees }

omit [DecidableEq Thread] in
/-- The consumer moves the ticket at its cursor to the next stage. Producers
hold only tickets they own, so none of them holds this one. -/
theorem Ordered.touch (hordered : Ordered queueSize state published stage)
    {ticket : Nat} (hready : ¬ (stage ticket).Owned) (hgone : stage ticket ≠ .gone)
    (target : Stage) (received : List (Cell T)) (pc : ConsumerPc)
    (hagrees : pc.Agrees published (Function.update stage ticket target) received.length)
    (hreceived : received = (state.tickets.take received.length).map .full)
    (hlength : received.length ≤ state.tickets.length) :
    Ordered queueSize
      ({ state.setItem (ticket % queueSize) (target.item state.tickets[ticket]?) with
        received := received }.consume pc)
      published (Function.update stage ticket target) := by
  have hpending : stage ticket ≠ .pending := by
    intro h
    rw [h] at hready
    exact hready trivial
  have hlow := hordered.unpublished hgone
  have hadmitted := hordered.admitted ticket hpending
  have htaken := hordered.taken hpending
  refine ⟨hordered.place, hordered.consumed, hordered.slots_update hlow (by omega) target,
    hordered.future_update htaken target, hordered.admitted_update hadmitted target,
    hordered.past_update hlow target, ?_, hordered.unique, hagrees, hreceived, hlength⟩
  · intro thread
    refine (hordered.producers thread).transport ?_ (fun _ _ h => h) (Nat.le_refl _)
    intro held hheld
    have howned := ((hordered.producers thread).owned hheld).1
    rw [Function.update_of_ne (show held ≠ ticket by
      rintro rfl
      exact hready howned)]

theorem Scan.update {current : Stage → Prop} (hscan : Scan published stage done current)
    (target : Stage) :
    Scan published (Function.update stage (published + done) target) done (· = target) where
  finished := by
    intro ticket hlow hhigh
    rw [Function.update_of_ne (show ticket ≠ published + done by omega)]
    exact hscan.finished ticket hlow hhigh
  at_cursor := Function.update_self ..
  untouched := by
    intro ticket hticket
    rw [Function.update_of_ne (show ticket ≠ published + done by omega)]
    exact hscan.untouched ticket hticket

theorem Scan.advance (hscan : Scan published stage done (· = .gone)) :
    Scan published stage (done + 1) Stage.Live where
  finished := by
    intro ticket hlow hhigh
    by_cases hlast : ticket = published + done
    · rw [hlast]
      exact hscan.at_cursor
    · exact hscan.finished ticket hlow (by omega)
  at_cursor := hscan.untouched _ (by omega)
  untouched := fun ticket hticket => hscan.untouched ticket (by omega)

omit [DecidableEq Thread] in
theorem Ordered.scan_short (hordered : Ordered queueSize state published stage)
    {current : Stage → Prop} (hscan : Scan published stage done current) :
    done = 0 ∨ done < queueSize := by
  rcases Nat.eq_zero_or_pos done with hzero | hpos
  · exact .inl hzero
  · have hlast := hscan.finished (published + done - 1) (by omega) (by omega)
    have hadmitted := hordered.admitted (published + done - 1) (by simp [hlast])
    omega

omit [DecidableEq Thread] in
/-- Publishing moves the window. The slots that enter it are those of the
finished tickets, which are empty like the slots of tickets not yet admitted. -/
theorem Ordered.publish (hordered : Ordered queueSize state published stage)
    (hscan : Scan published stage done Stage.Live)
    (hcount : state.received.length = published + done) {value : Nat}
    (hvalue : value = wrapSub (published + done) 1) :
    Ordered queueSize ({ state with consumed := value }.consume .idle)
      (published + done) stage := by
  have hshort := hordered.scan_short hscan
  refine ⟨hordered.place, hvalue, ?_, hordered.future, ?_, ?_, ?_, hordered.unique, ?_,
    hordered.received, hordered.received_le⟩
  · intro ticket hlow hhigh
    by_cases hold : ticket < published + queueSize
    · exact hordered.slots ticket (by omega) hold
    · have hpending : stage ticket = .pending := by
        by_contra hne
        have := hordered.admitted ticket hne
        omega
      have hprev := hordered.slots (ticket - queueSize) (by omega) (by omega)
      have hgone := hscan.finished (ticket - queueSize) (by omega) (by omega)
      have hmod : (ticket - queueSize) % queueSize = ticket % queueSize :=
        (Nat.mod_eq_sub_mod (by omega)).symm
      rw [hmod, hgone] at hprev
      rw [hpending]
      exact hprev
  · intro ticket hticket
    have := hordered.admitted ticket hticket
    omega
  · intro ticket hticket
    by_cases hpast : ticket < published
    · exact hordered.past ticket hpast
    · exact hscan.finished ticket (by omega) hticket
  · intro thread
    exact (hordered.producers thread).transport (fun _ _ => rfl) (fun _ _ h => h) (by omega)
  · refine ⟨hcount, ?_, hscan.at_cursor, ?_⟩
    · intro ticket hlow hhigh
      omega
    · intro ticket hticket
      exact hscan.untouched ticket (by omega)

end Steps

end Crossbow.Concurrent.SingleConsumerQueue
