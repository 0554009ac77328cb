import Crossbow.InfinityVerbs.QueuePairFactory

/-! What holds between the machines while `connectAllToAll` runs. A machine starts to
connect only after it accepted all lower ids, and the machine before it connects to
it last, so the connections of different machines reach an acceptor in the order of
their ids and the numbering by arrival is right. -/
namespace Crossbow.InfinityVerbs.QueuePairFactory
open Kernel

variable {contexts : Nat → Context} {count caller callee i : Nat} {state after : State}

/-! ### Steps -/

inductive Step (contexts : Nat → Context) (count : Nat) (state : State) (machine : Nat) :
    State → Prop where
  | accept {i caller : Nat} {rest : List Nat} (hphase : state.phase machine = .accepting i .called)
      (hlt : i < machine) (hbacklog : state.backlog machine = caller :: rest) :
      Step contexts count state machine { state.goto machine (.accepting i (.receiving caller)) with
        backlog := Function.update state.backlog machine rest }
  | turn {i : Nat} (hphase : state.phase machine = .accepting i .called) (hge : machine ≤ i) :
      Step contexts count state machine (state.goto machine (.connecting (count - 1) .called))
  | receive {i caller : Nat} {receiveBuffer : SerializedQueuePair} {queuePair : QueuePair}
      (hphase : state.phase machine = .accepting i (.receiving caller))
      (hrequest : state.request caller = some receiveBuffer)
      (hfresh : Fresh (contexts machine) machine queuePair) :
      Step contexts count state machine
        { state.goto machine (.accepting i (.replying queuePair receiveBuffer)) with
          request := Function.update state.request caller none
          reply := Function.update state.reply caller
            (some (sendBuffer (contexts machine) queuePair)) }
  | accepted {i : Nat} {queuePair : QueuePair} {receiveBuffer : SerializedQueuePair}
      (hphase : state.phase machine = .accepting i (.replying queuePair receiveBuffer)) :
      Step contexts count state machine
        ((state.store machine i (establish queuePair receiveBuffer)).goto machine
          (.accepting (i + 1) .called))
  | connect {i : Nat} (hphase : state.phase machine = .connecting i .called) (hlt : machine < i) :
      Step contexts count state machine { state.goto machine (.connecting i .opened) with
        backlog := Function.update state.backlog i (state.backlog i ++ [machine]) }
  | loopBack {i : Nat} (hphase : state.phase machine = .connecting i .called) (hge : i ≤ machine) :
      Step contexts count state machine
        ((state.store machine machine (contexts machine).loopBackQueuePair).goto machine
          (.checking 0))
  | send {i : Nat} {queuePair : QueuePair} (hphase : state.phase machine = .connecting i .opened)
      (hfresh : Fresh (contexts machine) machine queuePair) :
      Step contexts count state machine { state.goto machine (.connecting i (.sent queuePair)) with
        request := Function.update state.request machine
          (some (sendBuffer (contexts machine) queuePair)) }
  | connected {i : Nat} {queuePair : QueuePair} {receiveBuffer : SerializedQueuePair}
      (hphase : state.phase machine = .connecting i (.sent queuePair))
      (hreply : state.reply machine = some receiveBuffer) :
      Step contexts count state machine
        { (state.store machine i (establish queuePair receiveBuffer)).goto machine
            (.connecting (i - 1) .called) with
          reply := Function.update state.reply machine none }
  | pass {i : Nat} {queuePair : QueuePair} (hphase : state.phase machine = .checking i)
      (hlt : i < count) (hentry : state.queuePairs machine i = some queuePair)
      (hmatch : tokenMatches queuePair i = true) :
      Step contexts count state machine (state.goto machine (.checking (i + 1)))
  | fail {i : Nat} {queuePair : QueuePair} (hphase : state.phase machine = .checking i)
      (hlt : i < count) (hentry : state.queuePairs machine i = some queuePair)
      (hmatch : tokenMatches queuePair i = false) :
      Step contexts count state machine (state.goto machine (.exited i))
  | finish {i : Nat} (hphase : state.phase machine = .checking i) (hge : count ≤ i) :
      Step contexts count state machine (state.goto machine .returned)

theorem step_of_accept {machine : Nat} {draw : Draw} {call : Acceptor}
    (hphase : state.phase machine = .accepting i call) (hcall : call = .called → i < machine)
    {result : Progress Acceptor × Network}
    (hresult : acceptIncomingConnection ⟨contexts machine, machine, true⟩ machine draw
      state.toNetwork call = some result) :
    Step contexts count state machine
      (state.resume machine i (.accepting i) (.accepting (i + 1) .called) result) := by
  cases call with
  | called =>
      simp only [acceptIncomingConnection] at hresult
      split at hresult
      · contradiction
      · cases hresult
        exact .accept hphase (hcall rfl) ‹_›
  | receiving caller =>
      obtain ⟨receiveBuffer, hrequest, rfl⟩ := Option.map_eq_some_iff.mp hresult
      exact .receive hphase hrequest ⟨draw, rfl⟩
  | replying queuePair receiveBuffer =>
      cases hresult
      exact .accepted hphase

theorem step_of_connect {machine : Nat} {draw : Draw} {call : Connector}
    (hphase : state.phase machine = .connecting i call) (hcall : call = .called → machine < i)
    {result : Progress Connector × Network}
    (hresult : connectToRemoteHost ⟨contexts machine, machine, true⟩ machine i draw
      state.toNetwork call = some result) :
    Step contexts count state machine
      (state.resume machine i (.connecting i) (.connecting (i - 1) .called) result) := by
  cases call with
  | called =>
      cases hresult
      exact .connect hphase (hcall rfl)
  | opened =>
      cases hresult
      exact .send hphase ⟨draw, rfl⟩
  | sent queuePair =>
      obtain ⟨receiveBuffer, hreply, rfl⟩ := Option.map_eq_some_iff.mp hresult
      exact .connected hphase hreply

theorem step_of_move {machine : Nat} {draw : Draw}
    (hmove : move contexts count state machine draw (state.phase machine) = some after) :
    Step contexts count state machine after := by
  cases hphase : state.phase machine with
  | accepting i call =>
      simp only [hphase, move] at hmove
      split at hmove
      · rename_i hend
        cases hmove
        exact .turn (hend.1 ▸ hphase) hend.2
      · rename_i hcall
        obtain ⟨result, hresult, rfl⟩ := Option.map_eq_some_iff.mp hmove
        exact step_of_accept hphase (fun hcalled => by grind) hresult
  | connecting i call =>
      simp only [hphase, move] at hmove
      split at hmove
      · rename_i hend
        cases hmove
        exact .loopBack (hend.1 ▸ hphase) hend.2
      · rename_i hcall
        obtain ⟨result, hresult, rfl⟩ := Option.map_eq_some_iff.mp hmove
        exact step_of_connect hphase (fun hcalled => by grind) hresult
  | checking i =>
      simp only [hphase, move] at hmove
      split at hmove
      · obtain ⟨queuePair, hentry, hafter⟩ := Option.map_eq_some_iff.mp hmove
        split at hafter
        · cases hafter
          exact .pass hphase ‹_› hentry ‹_›
        · cases hafter
          exact .fail hphase ‹_› hentry (by simp_all)
      · cases hmove
        exact .finish hphase (by omega)
  | exited i =>
      simp only [hphase, move] at hmove
      contradiction
  | returned =>
      simp only [hphase, move] at hmove
      contradiction

section Fields

variable (state : State) (machine i : Nat) (phase : Phase) (queuePair : QueuePair)

@[simp] theorem goto_phase :
    (state.goto machine phase).phase = Function.update state.phase machine phase := rfl

@[simp] theorem goto_queuePairs :
    (state.goto machine phase).queuePairs = state.queuePairs := rfl

@[simp] theorem goto_backlog : (state.goto machine phase).backlog = state.backlog := rfl

@[simp] theorem goto_request : (state.goto machine phase).request = state.request := rfl

@[simp] theorem goto_reply : (state.goto machine phase).reply = state.reply := rfl

@[simp] theorem store_phase : (state.store machine i queuePair).phase = state.phase := rfl

@[simp] theorem store_queuePairs_self :
    (state.store machine i queuePair).queuePairs machine i = some queuePair := by
  simp [State.store]

theorem store_queuePairs_ne {other index : Nat} (hne : other ≠ machine ∨ index ≠ i) :
    (state.store machine i queuePair).queuePairs other index = state.queuePairs other index := by
  simp only [State.store, Function.update_apply]
  grind

@[simp] theorem store_backlog : (state.store machine i queuePair).backlog = state.backlog := rfl

@[simp] theorem store_request : (state.store machine i queuePair).request = state.request := rfl

@[simp] theorem store_reply : (state.store machine i queuePair).reply = state.reply := rfl

end Fields

theorem Step.phase_ne {machine other : Nat} (hstep : Step contexts count state machine after)
    (hne : other ≠ machine) : after.phase other = state.phase other := by
  cases hstep <;> simp [Function.update_of_ne hne]

theorem Step.reply_ne {machine other : Nat} (hstep : Step contexts count state machine after)
    (hne : other ≠ machine) :
    after.reply other = state.reply other ∨
      ∃ i queuePair receiveBuffer, state.phase machine = .accepting i (.receiving other) ∧
        after.phase machine = .accepting i (.replying queuePair receiveBuffer) := by
  cases hstep with
  | @receive i caller receiveBuffer queuePair hphase hrequest hfresh =>
      by_cases heq : other = caller
      · subst heq
        exact .inr ⟨i, queuePair, receiveBuffer, hphase, by simp⟩
      · exact .inl (by simp [Function.update_of_ne heq])
  | connected hphase hreply => exact .inl (by simp [Function.update_of_ne hne])
  | _ => exact .inl rfl

theorem Step.queuePairs_ne {machine other : Nat} (hstep : Step contexts count state machine after)
    (hne : other ≠ machine) (i : Nat) : after.queuePairs other i = state.queuePairs other i := by
  cases hstep <;> simp [store_queuePairs_ne _ _ _ _ (.inl hne)]

/-! ### Places -/

/-- The indices a phase can have on a machine. -/
def Within (count machine : Nat) : Phase → Prop
  | .accepting i .called => i ≤ machine
  | .accepting i (.receiving _) | .accepting i (.replying _ _) => i < machine
  | .connecting i .called => machine ≤ i ∧ i < count
  | .connecting i .opened | .connecting i (.sent _) => machine < i ∧ i < count
  | .checking _ | .exited _ | .returned => True

def replies (machine : Nat) : Phase → Nat
  | .accepting i .called | .accepting i (.receiving _) => i
  | .accepting i (.replying _ _) => i + 1
  | _ => machine

def taken (machine : Nat) : Phase → Nat
  | .accepting i _ => i
  | _ => machine

/-- The machine is done with the connection to `other`, which has a higher id. -/
def Past (other : Nat) : Phase → Prop
  | .accepting _ _ => False
  | .connecting i _ => i < other
  | .checking _ | .exited _ | .returned => True

def built : Phase → Bool
  | .checking _ | .exited _ | .returned => true
  | _ => false

def AtFirst : Phase → Prop
  | .checking i | .exited i => i = 0
  | .returned => False
  | _ => True

/-- The connection to `callee` is open and not answered. -/
def Waits (state : State) (caller callee : Nat) : Prop :=
  state.phase caller = .connecting callee .opened ∨
    ∃ queuePair, state.phase caller = .connecting callee (.sent queuePair) ∧
      state.reply caller = none

def Answered (state : State) (caller callee : Nat) : Prop :=
  Past callee (state.phase caller) ∨
    ∃ queuePair, state.phase caller = .connecting callee (.sent queuePair) ∧
      state.reply caller ≠ none

def incoming (state : State) (callee : Nat) : List Nat :=
  match state.phase callee with
  | .accepting _ (.receiving caller) => caller :: state.backlog callee
  | _ => state.backlog callee

def Mail (context : Context) (machine : Nat) (request reply : Option SerializedQueuePair) :
    Phase → Prop
  | .connecting _ (.sent queuePair) =>
      Fresh context machine queuePair ∧
        (reply = none ∧ request = some (sendBuffer context queuePair) ∨
          reply ≠ none ∧ request = none)
  | _ => request = none ∧ reply = none

def Near (contexts : Nat → Context) (state : State) (caller callee : Nat)
    (near far : QueuePair) : Prop :=
  state.phase caller = .connecting callee (.sent near) ∧
      state.reply caller = some (sendBuffer (contexts callee) far) ∨
    Past callee (state.phase caller) ∧
      state.queuePairs caller callee = some (establish near (sendBuffer (contexts callee) far))

def Far (contexts : Nat → Context) (state : State) (caller callee : Nat)
    (near far : QueuePair) : Prop :=
  state.phase callee = .accepting caller (.replying far (sendBuffer (contexts caller) near)) ∨
    caller < taken callee (state.phase callee) ∧
      state.queuePairs callee caller = some (establish far (sendBuffer (contexts caller) near))

def Paired (contexts : Nat → Context) (state : State) (caller callee : Nat) : Prop :=
  ∃ near far, Fresh (contexts caller) caller near ∧ Fresh (contexts callee) callee far ∧
    Near contexts state caller callee near far ∧ Far contexts state caller callee near far

structure Inv (contexts : Nat → Context) (count : Nat) (state : State) : Prop where
  within : ∀ machine < count, Within count machine (state.phase machine)
  mail : ∀ machine < count, Mail (contexts machine) machine (state.request machine)
    (state.reply machine) (state.phase machine)
  paired : ∀ caller callee, caller < callee → callee < count →
    caller < replies callee (state.phase callee) → Paired contexts state caller callee
  answered : ∀ caller callee, caller < callee → callee < count →
    Answered state caller callee → caller < replies callee (state.phase callee)
  arrived : ∀ callee < count, ∀ caller ∈ incoming state callee,
    caller < callee ∧ Waits state caller callee
  queued : ∀ caller callee, caller < count → Waits state caller callee →
    caller ∈ incoming state callee
  distinct : ∀ callee < count, (incoming state callee).Nodup
  own : ∀ machine < count, built (state.phase machine) = true →
    state.queuePairs machine machine = some (contexts machine).loopBackQueuePair
  first : ∀ machine < count, AtFirst (state.phase machine)

theorem start_inv : Inv contexts count start where
  within := by simp [start, Within]
  mail := by simp [start, Network.idle, Mail]
  paired := by simp [start, replies]
  answered := by simp [start, Answered, Past]
  arrived := by simp [start, Network.idle, incoming]
  queued := by simp [start, Waits]
  distinct := by simp [start, Network.idle, incoming]
  own := by simp [start, built]
  first := by simp [start, AtFirst]

theorem Past.mono {phase : Phase} {first second : Nat} (hpast : Past first phase)
    (hle : first ≤ second) : Past second phase := by
  cases phase <;> simp only [Past] at *
  omega

theorem Waits.callee_eq {first second : Nat} (hfirst : Waits state caller first)
    (hsecond : Waits state caller second) : first = second := by
  rcases hfirst with hfirst | ⟨_, hfirst, _⟩ <;> rcases hsecond with hsecond | ⟨_, hsecond, _⟩ <;>
    simp_all

theorem Waits.not_answered (hwaits : Waits state caller callee) :
    ¬ Answered state caller callee := by
  rcases hwaits with hphase | ⟨queuePair, hphase, hreply⟩ <;> simp_all [Answered, Past]

theorem Waits.replies_eq (hwaits : Waits state caller callee) :
    replies caller (state.phase caller) = caller := by
  rcases hwaits with hphase | ⟨queuePair, hphase, hreply⟩ <;> rw [hphase] <;> rfl

theorem Paired.answered (hpaired : Paired contexts state caller callee) :
    Answered state caller callee := by
  obtain ⟨near, far, _, _, hnear | hnear, _⟩ := hpaired
  · exact .inr ⟨near, hnear.1, by simp [hnear.2]⟩
  · exact .inl hnear.1

/-- A machine that is past its first loop and that `callee` has not answered is the next
one that `callee` answers. -/
theorem Inv.next_caller (hinv : Inv contexts count state) (hlt : caller < callee)
    (hcallee : callee < count) (hready : replies caller (state.phase caller) = caller)
    (hopen : ¬ Answered state caller callee) : replies callee (state.phase callee) = caller := by
  apply Nat.le_antisymm
  · by_contra hmore
    exact hopen (hinv.paired caller callee hlt hcallee (by omega)).answered
  · -- the machine before the caller was answered by the caller, which it calls last
    rcases Nat.eq_zero_or_pos caller with hzero | hpos
    · omega
    · have hbefore : Answered state (caller - 1) caller :=
        (hinv.paired (caller - 1) caller (by omega) (by omega) (by omega)).answered
      have hpast : Past callee (state.phase (caller - 1)) := by
        rcases hbefore with hpast | ⟨queuePair, hphase, _⟩
        · exact hpast.mono (by omega)
        · rw [hphase]
          exact hlt
      have := hinv.answered (caller - 1) callee (by omega) hcallee (.inl hpast)
      omega

theorem Inv.caller_eq {machine : Nat} (hinv : Inv contexts count state) (hmachine : machine < count)
    (hphase : state.phase machine = .accepting i (.receiving caller)) :
    caller = i ∧ caller < machine ∧ Waits state caller machine := by
  have hmem : caller ∈ incoming state machine := by simp [incoming, hphase]
  obtain ⟨hlt, hwaits⟩ := hinv.arrived machine hmachine caller hmem
  have hreplies := hinv.next_caller hlt hmachine hwaits.replies_eq hwaits.not_answered
  rw [hphase] at hreplies
  exact ⟨hreplies.symm, hlt, hwaits⟩

theorem Inv.request_eq {machine : Nat} {buffer : SerializedQueuePair}
    (hinv : Inv contexts count state) (hcaller : caller < count)
    (hwaits : Waits state caller machine) (hrequest : state.request caller = some buffer) :
    ∃ queuePair, state.phase caller = .connecting machine (.sent queuePair) ∧
      Fresh (contexts caller) caller queuePair ∧
      buffer = sendBuffer (contexts caller) queuePair := by
  have hmail := hinv.mail caller hcaller
  rcases hwaits with hphase | ⟨queuePair, hphase, hreply⟩
  · simp [hphase, Mail, hrequest] at hmail
  · refine ⟨queuePair, hphase, ?_⟩
    simpa [hphase, Mail, hrequest, hreply] using hmail

/-! ### Complete tables -/

theorem past_of_built {phase : Phase} (hbuilt : built phase = true) (other : Nat) :
    Past other phase := by
  cases phase <;> simp_all [built, Past]

theorem replies_of_built {phase : Phase} (hbuilt : built phase = true) (machine : Nat) :
    replies machine phase = machine := by
  cases phase <;> simp_all [built, replies]

theorem Near.entry {near far : QueuePair} (hnear : Near contexts state caller callee near far)
    (hbuilt : built (state.phase caller) = true) :
    state.queuePairs caller callee = some (establish near (sendBuffer (contexts callee) far)) := by
  rcases hnear with ⟨hphase, _⟩ | ⟨_, hentry⟩
  · rw [hphase] at hbuilt
    contradiction
  · exact hentry

theorem Far.entry {near far : QueuePair} (hfar : Far contexts state caller callee near far)
    (hbuilt : built (state.phase callee) = true) :
    state.queuePairs callee caller = some (establish far (sendBuffer (contexts caller) near)) := by
  rcases hfar with hphase | ⟨_, hentry⟩
  · rw [hphase] at hbuilt
    contradiction
  · exact hentry

/-- The entry of a complete table for another machine and, if the table of that one is
complete, the entry over there. -/
theorem Inv.entry {machine : Nat} (hinv : Inv contexts count state) (hmachine : machine < count)
    (hi : i < count) (hne : i ≠ machine) (hbuilt : built (state.phase machine) = true) :
    ∃ near far, Fresh (contexts machine) machine near ∧ Fresh (contexts i) i far ∧
      state.queuePairs machine i = some (establish near (sendBuffer (contexts i) far)) ∧
      (built (state.phase i) = true →
        state.queuePairs i machine =
          some (establish far (sendBuffer (contexts machine) near))) := by
  rcases Nat.lt_or_gt_of_ne hne with hlower | hhigher
  · obtain ⟨far, near, hfar, hnear, hthere, hhere⟩ := hinv.paired i machine hlower hmachine
      (by rw [replies_of_built hbuilt]; exact hlower)
    exact ⟨near, far, hnear, hfar, hhere.entry hbuilt, hthere.entry⟩
  · have hanswered := hinv.answered machine i hhigher hi (.inl (past_of_built hbuilt i))
    obtain ⟨near, far, hnear, hfar, hhere, hthere⟩ := hinv.paired machine i hhigher hi hanswered
    exact ⟨near, far, hnear, hfar, hhere.entry hbuilt, hthere.entry⟩

theorem Inv.tokens {machine : Nat} (hinv : Inv contexts count state) (hmachine : machine < count)
    (hi : i < count) (hbuilt : built (state.phase machine) = true) :
    ∃ queuePair, state.queuePairs machine i = some queuePair ∧
      (tokenMatches queuePair i = true ↔ i = 1 ∧ machine ≠ 1) := by
  by_cases hne : i = machine
  · subst hne
    refine ⟨_, hinv.own i hi hbuilt, ?_⟩
    simp [tokenMatches_loopBack]
  · obtain ⟨near, far, hnear, hfar, hentry, _⟩ := hinv.entry hmachine hi hne hbuilt
    refine ⟨_, hentry, ?_⟩
    rw [tokenMatches_handshake hnear hfar]
    omega

/-- The queue pairs of the two machines for each other are activated with each other's
address and memory token store. -/
def Connected (contexts : Nat → Context) (state : State) (machine i : Nat) : Prop :=
  ∃ near far, state.queuePairs machine i = some near ∧ state.queuePairs i machine = some far ∧
    near.remote = some far.address ∧ far.remote = some near.address ∧
    near.address.localDeviceId = (contexts machine).deviceId ∧
    far.address.localDeviceId = (contexts i).deviceId ∧
    near.remoteMemoryStore = (contexts i).memoryTokenStore

theorem Inv.connected {machine i : Nat} (hinv : Inv contexts count state)
    (hmachine : machine < count) (hi : i < count) (hbuilt : built (state.phase machine) = true)
    (hbuilt' : built (state.phase i) = true) : Connected contexts state machine i := by
  by_cases hne : i = machine
  · subst hne
    have hentry := hinv.own i hi hbuilt
    refine ⟨_, _, hentry, hentry, loopBack_remote _, loopBack_remote _, ?_, ?_,
      loopBack_remoteMemoryStore _⟩ <;> exact loopBack_deviceId _
  · obtain ⟨near, far, ⟨draw, rfl⟩, ⟨draw', rfl⟩, hentry, hthere⟩ :=
      hinv.entry hmachine hi hne hbuilt
    refine ⟨_, _, hentry, hthere hbuilt', ?_, ?_, ?_, ?_, ?_⟩
    · simp [sendBuffer]
    · simp [sendBuffer]
    · rw [establish_address]
      rfl
    · rw [establish_address]
      rfl
    · exact establish_remoteMemoryStore _ _ rfl

/-! ### Every step keeps the invariant -/

theorem Step.incoming_cases {machine : Nat}
    (hstep : Step contexts count state machine after) (callee : Nat) :
    (incoming after callee = incoming state callee ∧
        (∀ i caller, callee = machine → state.phase machine ≠ .accepting i (.receiving caller)) ∧
        (machine < callee → state.phase machine ≠ .connecting callee .called)) ∨
      (∃ i caller, callee = machine ∧ state.phase machine = .accepting i (.receiving caller) ∧
        incoming state callee = caller :: incoming after callee) ∨
      state.phase machine = .connecting callee .called ∧ machine < callee ∧
        incoming after callee = incoming state callee ++ [machine] := by
  by_cases hsame : callee = machine
  · subst hsame
    cases hstep with
    | receive hphase hrequest hfresh =>
        right
        left
        exact ⟨_, _, rfl, hphase, by simp [incoming, hphase]⟩
    | connect hphase hlt =>
        left
        simp_all [incoming, Function.update_of_ne (Nat.ne_of_lt hlt)]
    | _ =>
        left
        simp_all [incoming]
  · cases hstep with
    | @connect i hphase hlt =>
        by_cases heq : callee = i
        · subst heq
          right
          right
          refine ⟨hphase, hlt, ?_⟩
          simp only [incoming, goto_phase, Function.update_of_ne hsame]
          split <;> simp
        · left
          simp_all [incoming, Ne.symm heq]
    | loopBack hphase hge =>
        left
        simp_all [incoming]
        omega
    | _ =>
        left
        simp_all [incoming]

section Preservation

variable {machine : Nat} (hmachine : machine < count) (hinv : Inv contexts count state)
  (hstep : Step contexts count state machine after)

include hmachine hinv hstep

theorem Step.within (other : Nat) (hother : other < count) :
    Within count other (after.phase other) := by
  by_cases hsame : other = machine
  · subst hsame
    have hwithin := hinv.within other hother
    cases hstep <;> simp_all [Within] <;> omega
  · rw [hstep.phase_ne hsame]
    exact hinv.within other hother

theorem Step.mail (other : Nat) (hother : other < count) :
    Mail (contexts other) other (after.request other) (after.reply other)
      (after.phase other) := by
  have hmail := hinv.mail other hother
  by_cases hsame : other = machine
  · subst hsame
    cases hstep with
    | receive hphase hrequest hfresh =>
        have hne := Nat.ne_of_gt (hinv.caller_eq hmachine hphase).2.1
        simp_all [Mail]
    | _ => simp_all [Mail]
  · rw [hstep.phase_ne hsame]
    cases hstep with
    | @receive _ caller _ _ hphase hrequest hfresh =>
        obtain ⟨_, hlt, hwaits⟩ := hinv.caller_eq hmachine hphase
        obtain ⟨_, hcaller, hmade, _⟩ :=
          hinv.request_eq (Nat.lt_trans hlt hmachine) hwaits hrequest
        by_cases heq : other = caller
        · subst heq
          simp [Mail, hcaller, hmade]
        · simpa [Function.update_of_ne heq] using hmail
    | _ => simpa [Function.update_of_ne hsame] using hmail

theorem Step.replies_le (other : Nat) :
    replies other (state.phase other) ≤ replies other (after.phase other) := by
  by_cases hsame : other = machine
  · subst hsame
    have hwithin := hinv.within other hmachine
    cases hstep <;> simp_all [replies, Within]
  · rw [hstep.phase_ne hsame]

theorem Step.answered (caller callee : Nat) (hlt : caller < callee) (hcallee : callee < count)
    (hanswered : Answered after caller callee) :
    caller < replies callee (after.phase callee) := by
  have hkeep : Answered state caller callee → caller < replies callee (after.phase callee) := by
    intro hold
    exact Nat.lt_of_lt_of_le (hinv.answered caller callee hlt hcallee hold)
      (Step.replies_le hmachine hinv hstep callee)
  by_cases hsame : caller = machine
  · subst hsame
    have hmail := hinv.mail caller hmachine
    apply hkeep
    cases hstep <;> simp_all [Answered, Past, Mail] <;> omega
  · rcases hanswered with hpast | ⟨queuePair, hsent, hreply⟩
    · rw [hstep.phase_ne hsame] at hpast
      exact hkeep (.inl hpast)
    · rw [hstep.phase_ne hsame] at hsent
      rcases hstep.reply_ne hsame with hold | ⟨i, _, _, hphase, hreplying⟩
      · rw [hold] at hreply
        exact hkeep (.inr ⟨queuePair, hsent, hreply⟩)
      · -- the answer that this step sends
        obtain ⟨hindex, _, hwaits⟩ := hinv.caller_eq hmachine hphase
        have hto : callee = machine := by
          rcases hwaits with hopen | ⟨_, hopen, _⟩ <;> simp_all
        rw [hto, hreplying, hindex]
        exact Nat.lt_succ_self i

theorem Step.near {caller callee : Nat} {near far : QueuePair} (hlt : caller < callee)
    (hnear : Near contexts state caller callee near far) :
    Near contexts after caller callee near far := by
  by_cases hsame : caller = machine
  · subst hsame
    have hne : callee ≠ caller := Nat.ne_of_gt hlt
    cases hstep with
    | @connected i queuePair receiveBuffer hphase hreply =>
        rcases hnear with ⟨hsent, hbuffer⟩ | ⟨hpast, hentry⟩
        · -- the caller takes the answer and stores its end
          simp_all [Near, Past]
          omega
        · have hi : i < callee := by simpa [hphase, Past] using hpast
          right
          refine ⟨by simp [Past]; omega, ?_⟩
          simpa [store_queuePairs_ne _ _ _ _ (.inr (Nat.ne_of_gt hi))] using hentry
    | loopBack hphase hge =>
        simp_all [Near, Past, store_queuePairs_ne _ _ _ _ (.inr hne)]
    | _ => simp_all [Near, Past]
  · unfold Near
    rw [hstep.phase_ne hsame, hstep.queuePairs_ne hsame]
    apply Or.imp_left ?_ hnear
    rintro ⟨hsent, hbuffer⟩
    rcases hstep.reply_ne hsame with hold | ⟨i, _, _, hphase, _⟩
    · exact ⟨hsent, hold.trans hbuffer⟩
    · have hwaits := (hinv.caller_eq hmachine hphase).2.2
      rcases hwaits with hopen | ⟨_, _, hnone⟩ <;> simp_all

theorem Step.far {caller callee : Nat} {near far : QueuePair} (hlt : caller < callee)
    (hfar : Far contexts state caller callee near far) :
    Far contexts after caller callee near far := by
  by_cases hsame : callee = machine
  · subst hsame
    have hwithin := hinv.within callee hmachine
    cases hstep with
    | @accepted i queuePair receiveBuffer hphase =>
        rcases hfar with hreplying | ⟨htaken, hentry⟩
        · rw [hphase] at hreplying
          cases hreplying
          exact .inr ⟨by simp [taken], by simp⟩
        · have hi : caller < i := by simpa [hphase, taken] using htaken
          right
          refine ⟨by simp [taken]; omega, ?_⟩
          simpa [store_queuePairs_ne _ _ _ _ (.inr (Nat.ne_of_lt hi))] using hentry
    | loopBack hphase hge =>
        simp_all [Far, taken, store_queuePairs_ne _ _ _ _ (.inr (Nat.ne_of_lt hlt))]
    | connected hphase hreply =>
        rw [hphase] at hwithin
        have hne := Nat.ne_of_lt (Nat.lt_trans hlt hwithin.1)
        simp_all [Far, taken, store_queuePairs_ne _ _ _ _ (.inr hne)]
    | _ => simp_all [Far, taken, Within]
  · unfold Far
    rw [hstep.phase_ne hsame, hstep.queuePairs_ne hsame]
    exact hfar

theorem Step.paired (caller callee : Nat) (hlt : caller < callee) (hcallee : callee < count)
    (hreplies : caller < replies callee (after.phase callee)) :
    Paired contexts after caller callee := by
  by_cases hold : caller < replies callee (state.phase callee)
  · obtain ⟨near, far, hfresh, hfresh', hnear, hfar⟩ := hinv.paired caller callee hlt hcallee hold
    exact ⟨near, far, hfresh, hfresh', Step.near hmachine hinv hstep hlt hnear,
      Step.far hmachine hinv hstep hlt hfar⟩
  · by_cases hsame : callee = machine
    · subst hsame
      have hwithin := hinv.within callee hcallee
      cases hstep with
      | @receive i sender receiveBuffer queuePair hphase hrequest hfresh =>
          obtain ⟨hindex, _, hwaits⟩ := hinv.caller_eq hmachine hphase
          have heq : caller = i := by simp_all [replies]; omega
          rw [hindex, ← heq] at hwaits hrequest
          obtain ⟨near, hsent, hmade, hbuffer⟩ :=
            hinv.request_eq (Nat.lt_trans hlt hcallee) hwaits hrequest
          refine ⟨near, queuePair, hmade, hfresh, .inl ⟨?_, ?_⟩, .inl ?_⟩
          · simp [Function.update_of_ne (Nat.ne_of_lt hlt), hsent]
          · simp [hindex, heq]
          · simp [hbuffer, heq]
      | _ =>
          exfalso
          simp_all [replies, Within] <;> omega
    · rw [hstep.phase_ne hsame] at hreplies
      contradiction

theorem Step.waits_self (callee : Nat) :
    Waits after machine callee ↔
      Waits state machine callee ∨
        state.phase machine = .connecting callee .called ∧ machine < callee := by
  have hmail := hinv.mail machine hmachine
  cases hstep with
  | connect hphase hlt =>
      simp only [Waits, goto_phase, Function.update_self, hphase, Phase.connecting.injEq]
      grind
  | loopBack hphase hge =>
      simp only [Waits, goto_phase, Function.update_self, hphase, Phase.connecting.injEq]
      grind
  | _ => simp_all [Waits, Mail]

theorem Step.waits_ne {caller : Nat} (hsame : caller ≠ machine) (callee : Nat) :
    Waits after caller callee ↔
      Waits state caller callee ∧ ∀ i, state.phase machine ≠ .accepting i (.receiving caller) := by
  unfold Waits
  rw [hstep.phase_ne hsame]
  cases hstep with
  | @receive i sender receiveBuffer queuePair hphase hrequest hfresh =>
      obtain ⟨_, hlt, hwaits⟩ := hinv.caller_eq hmachine hphase
      obtain ⟨_, hsent, _⟩ := hinv.request_eq (Nat.lt_trans hlt hmachine) hwaits hrequest
      by_cases heq : caller = sender
      · subst heq
        simp [hsent, hphase]
      · simp [Function.update_of_ne heq, hphase, Ne.symm heq]
  | connected hphase hreply => simp [Function.update_of_ne hsame, hphase]
  | _ => simp_all

theorem Step.arrived (callee : Nat) (hcallee : callee < count) :
    ∀ caller ∈ incoming after callee, caller < callee ∧ Waits after caller callee := by
  have hnodup := hinv.distinct callee hcallee
  intro caller hcaller
  by_cases hnew : caller = machine ∧ state.phase machine = .connecting callee .called ∧
    machine < callee
  · obtain ⟨rfl, hcalls⟩ := hnew
    exact ⟨hcalls.2, (Step.waits_self hmachine hinv hstep callee).mpr (.inr hcalls)⟩
  · -- the connection was there before and is not the one that is answered
    have hold : caller ∈ incoming state callee ∧
        ∀ i, state.phase machine ≠ .accepting i (.receiving caller) := by
      rcases hstep.incoming_cases callee with ⟨heq, hother, hopen⟩ | ⟨i, other, _, hrecv, hcons⟩ |
        ⟨hconn, hlt, hsnoc⟩
      · rw [heq] at hcaller
        refine ⟨hcaller, ?_⟩
        intro i hrecv
        have hwaits := (hinv.arrived callee hcallee caller hcaller).2
        exact hother i caller (hwaits.callee_eq (hinv.caller_eq hmachine hrecv).2.2) hrecv
      · rw [hcons] at hnodup
        refine ⟨hcons ▸ List.mem_cons_of_mem _ hcaller, ?_⟩
        intro j hsame
        rw [hrecv] at hsame
        cases hsame
        exact (List.nodup_cons.mp hnodup).1 hcaller
      · rw [hsnoc, List.mem_append, List.mem_singleton] at hcaller
        refine ⟨hcaller.resolve_right fun hlast => hnew ⟨hlast, hconn, hlt⟩, ?_⟩
        intro i hrecv
        rw [hconn] at hrecv
        contradiction
    obtain ⟨hlt, hwaits⟩ := hinv.arrived callee hcallee caller hold.1
    refine ⟨hlt, ?_⟩
    by_cases hsame : caller = machine
    · subst hsame
      exact (Step.waits_self hmachine hinv hstep callee).mpr (.inl hwaits)
    · exact (Step.waits_ne hmachine hinv hstep hsame callee).mpr ⟨hwaits, hold.2⟩

theorem Step.queued (caller callee : Nat) (hcaller : caller < count)
    (hwaits : Waits after caller callee) : caller ∈ incoming after callee := by
  by_cases hsame : caller = machine
  · subst hsame
    rcases (Step.waits_self hmachine hinv hstep callee).mp hwaits with hold | ⟨hphase, hlt⟩
    · have hmem := hinv.queued caller callee hcaller hold
      rcases hstep.incoming_cases callee with
        ⟨heq, hother, hopen⟩ | ⟨i, other, _, hrecv, hcons⟩ | ⟨hconn, _, hsnoc⟩
      · rw [heq]
        exact hmem
      · rcases hold with hphase | ⟨_, hphase, _⟩ <;> simp_all
      · rw [hsnoc]
        exact List.mem_append_left _ hmem
    · rcases hstep.incoming_cases callee with
        ⟨heq, hother, hopen⟩ | ⟨i, other, _, hrecv, hcons⟩ | ⟨hconn, _, hsnoc⟩
      · exact absurd hphase (hopen hlt)
      · simp_all
      · rw [hsnoc]
        simp
  · obtain ⟨hold, hkeep⟩ := (Step.waits_ne hmachine hinv hstep hsame callee).mp hwaits
    have hmem := hinv.queued caller callee hcaller hold
    rcases hstep.incoming_cases callee with
      ⟨heq, hother, hopen⟩ | ⟨i, other, _, hrecv, hcons⟩ | ⟨hconn, _, hsnoc⟩
    · rw [heq]
      exact hmem
    · rw [hcons] at hmem
      rcases List.mem_cons.mp hmem with rfl | hrest
      · exact absurd hrecv (hkeep i)
      · exact hrest
    · rw [hsnoc]
      exact List.mem_append_left _ hmem

omit hmachine in
theorem Step.distinct (callee : Nat) (hcallee : callee < count) :
    (incoming after callee).Nodup := by
  have hnodup := hinv.distinct callee hcallee
  rcases hstep.incoming_cases callee with
    ⟨heq, hother, hopen⟩ | ⟨i, other, _, hrecv, hcons⟩ | ⟨hconn, _, hsnoc⟩
  · rw [heq]
    exact hnodup
  · rw [hcons] at hnodup
    exact (List.nodup_cons.mp hnodup).2
  · rw [hsnoc, List.nodup_append]
    refine ⟨hnodup, by simp, ?_⟩
    rintro caller hmem _ hlast rfl
    rw [List.mem_singleton.mp hlast] at hmem
    rcases (hinv.arrived callee hcallee machine hmem).2 with hphase | ⟨_, hphase, _⟩ <;>
      simp_all

theorem Step.own (other : Nat) (hother : other < count)
    (hbuilt : built (after.phase other) = true) :
    after.queuePairs other other = some (contexts other).loopBackQueuePair := by
  by_cases hsame : other = machine
  · subst hsame
    have hown := hinv.own other hother
    cases hstep <;> simp_all [built]
  · rw [hstep.queuePairs_ne hsame]
    rw [hstep.phase_ne hsame] at hbuilt
    exact hinv.own other hother hbuilt

/-- The first entry never passes the check: machine 0 sends no token, and the loopback
queue pair has none. -/
theorem Step.first (other : Nat) (hother : other < count) : AtFirst (after.phase other) := by
  have hfirst := hinv.first other hother
  by_cases hsame : other = machine
  · subst hsame
    cases hstep with
    | @pass i queuePair hphase hlt hentry hmatch =>
        rw [hphase] at hfirst
        obtain rfl : i = 0 := hfirst
        obtain ⟨entry, heq, hiff⟩ := hinv.tokens hother hlt (by rw [hphase]; rfl)
        rw [hentry] at heq
        cases heq
        simp [hiff] at hmatch
    | finish hphase hge => simp_all [AtFirst]
    | _ => simp_all [AtFirst]
  · rw [hstep.phase_ne hsame]
    exact hfirst

theorem Step.inv : Inv contexts count after where
  within := Step.within hmachine hinv hstep
  mail := Step.mail hmachine hinv hstep
  paired := Step.paired hmachine hinv hstep
  answered := Step.answered hmachine hinv hstep
  arrived := Step.arrived hmachine hinv hstep
  queued := Step.queued hmachine hinv hstep
  distinct := Step.distinct hinv hstep
  own := Step.own hmachine hinv hstep
  first := Step.first hmachine hinv hstep

end Preservation

theorem next_inv {label : Label} (hinv : Inv contexts count state)
    (hnext : next contexts count state label = some after) : Inv contexts count after := by
  obtain ⟨hmachine, hmove⟩ := Option.ite_none_right_eq_some.mp hnext
  exact Step.inv hmachine hinv (step_of_move hmove)

theorem reachable_inv (hreach : (machine contexts count).Reachable state) :
    Inv contexts count state := by
  apply hreach.invariant (Inv contexts count)
  · rintro _ rfl
    exact start_inv
  · intro state label after hinv _ hnext
    exact next_inv hinv hnext

end Crossbow.InfinityVerbs.QueuePairFactory
