import Crossbow.Infinio.BatchingMessageSocket

/-! The connection state of a batching socket, under the events that the layers below
deliver to it. Every error path and the disconnect of the remote host end in `shutdown`,
which throws unless the socket is connected. -/
namespace Crossbow.Infinio.Connecting
open Kernel BatchingMessageSocket

/-- How a member function ends other than by returning: the errors it throws, one from
the Infiniband socket, and a failed `LOG_ASSERT`. -/
inductive Failure where
  | alreadyConnected
  | notConnected
  | infiniband
  | assertion
  deriving DecidableEq, Repr

/-- `mState` with its earlier values, newest first, and whether `disconnect()` was called
on the Infiniband socket of this connection. -/
structure Socket where
  state : ConnectionState
  earlier : List ConnectionState
  disconnecting : Bool
  deriving DecidableEq, Repr

def Socket.assign (socket : Socket) (state : ConnectionState) : Socket :=
  { socket with state := state, earlier := socket.state :: socket.earlier }

/-- The body that `connect` and `accept` share around the call of the Infiniband socket. -/
def attempt (taken : Bool) (socket : Socket) : Socket × Option Failure :=
  if socket.state ≠ .disconnected then (socket, some .alreadyConnected)
  else if taken then ({ socket.assign .connecting with disconnecting := false }, none)
  else (socket, some .infiniband)

def connect (taken : Bool) (socket : Socket) : Socket × Option Failure := attempt taken socket

def accept (taken : Bool) (socket : Socket) : Socket × Option Failure := attempt taken socket

/-- An error of `disconnect()` is caught and logged. -/
def shutdown (socket : Socket) : Socket × Option Failure :=
  if socket.state ≠ .connected then (socket, some .notConnected)
  else ({ socket.assign .shutdown with disconnecting := true }, none)

def handleSocketError (socket : Socket) : Socket × Option Failure := shutdown socket

/-- What a callback of the derived class does to the connection: nothing, or it shuts a
connected socket down. -/
inductive Reaction where
  | returns
  | shutsDown
  deriving DecidableEq, Repr

def Reaction.run (reaction : Reaction) (socket : Socket) : Socket :=
  match reaction with
  | .returns => socket
  | .shutsDown => if socket.state = .connected then (shutdown socket).1 else socket

def onConnected (failed : Bool) (onSocketConnected : Reaction) (socket : Socket) :
    Socket × Option Failure :=
  if socket.state ≠ .connecting then (socket, some .assertion)
  else if failed then handleSocketError (socket.assign .disconnected)
  else (onSocketConnected.run (socket.assign .connected), none)

def onMessages (onMessage : Delivery → Reaction) (deliveries : List Delivery) (socket : Socket) :
    Socket :=
  deliveries.foldl (fun socket delivery => (onMessage delivery).run socket) socket

structure Arrival where
  failed : Bool
  memory : Memory
  buffer : Nat
  length : Nat

def Arrival.deliveries (arrival : Arrival) : List Delivery :=
  (BatchingMessageSocket.onReceive arrival.memory arrival.buffer arrival.length).deliveries

/-- The buffer ends in a message that is longer than the rest of it. -/
def Arrival.Invalid (arrival : Arrival) : Prop :=
  (BatchingMessageSocket.onReceive arrival.memory arrival.buffer arrival.length).ending =
    .invalidMessage

instance (arrival : Arrival) : Decidable arrival.Invalid :=
  inferInstanceAs (Decidable (_ = _))

def onReceive (arrival : Arrival) (onMessage : Delivery → Reaction) (socket : Socket) :
    Socket × Option Failure :=
  if arrival.failed then handleSocketError socket
  else
    let socket := onMessages onMessage arrival.deliveries socket
    if arrival.Invalid then handleSocketError socket else (socket, none)

def onSend (failed : Bool) (socket : Socket) : Socket × Option Failure :=
  if failed then handleSocketError socket else (socket, none)

def onDisconnect (socket : Socket) : Socket × Option Failure := shutdown socket

/-- The callback `onSocketDisconnected` leaves the state alone. -/
def onDisconnected (socket : Socket) : Socket × Option Failure :=
  (socket.assign .disconnected, none)

inductive Phase where
  | idle
  | attempted
  | established
  deriving DecidableEq, Repr

/-- A socket over the layers below it. `failure` is what left an event handler; the poll
thread ends with it. -/
structure Connection where
  socket : Socket
  phase : Phase
  peerLeft : Bool
  failure : Option Failure
  deriving DecidableEq, Repr

inductive Label where
  | connect (taken : Bool)
  | accept (taken : Bool)
  | shutdown
  | peerDisconnects
  | onConnected (failed : Bool) (onSocketConnected : Reaction)
  | onReceive (arrival : Arrival) (onMessage : Delivery → Reaction)
  | onSend (failed : Bool)
  | onDisconnect
  | onDisconnected

/-- The result of `connect` or `accept`; an exception goes to the caller. -/
def Connection.attempted (connection : Connection) :
    Socket × Option Failure → Connection
  | (socket, none) => { connection with socket := socket, phase := .attempted, peerLeft := false }
  | (_, some _) => connection

def Connection.handled (connection : Connection) (phase : Phase)
    (result : Socket × Option Failure) : Connection :=
  { connection with socket := result.1, phase := phase, failure := result.2 }

/-- The events are those of one connection attempt after the other: the outcome once,
completions from the attempt to the end, `onDisconnect` when one of the sides has
disconnected, and the end once the local side has. -/
def next (connection : Connection) (label : Label) : Option Connection :=
  let socket := connection.socket
  if connection.failure.isSome then none
  else
    match label with
    | .connect taken => some (connection.attempted (connect taken socket))
    | .accept taken => some (connection.attempted (accept taken socket))
    | .shutdown => some { connection with socket := (shutdown socket).1 }
    | .peerDisconnects =>
        if connection.phase = .established then some { connection with peerLeft := true } else none
    | .onConnected failed onSocketConnected =>
        if connection.phase = .attempted then
          some (connection.handled (if failed then .idle else .established)
            (onConnected failed onSocketConnected socket))
        else none
    | .onReceive arrival onMessage =>
        if connection.phase = .idle then none
        else some (connection.handled connection.phase (onReceive arrival onMessage socket))
    | .onSend failed =>
        if connection.phase = .idle then none
        else some (connection.handled connection.phase (onSend failed socket))
    | .onDisconnect =>
        if connection.phase = .established ∧ (connection.peerLeft ∨ socket.disconnecting) then
          some (connection.handled .established (onDisconnect socket))
        else none
    | .onDisconnected =>
        if connection.phase = .established ∧ socket.disconnecting then
          some (connection.handled .idle (onDisconnected socket))
        else none

def start : Connection := ⟨⟨.disconnected, [], false⟩, .idle, false, none⟩

def machine : Machine Connection Label where
  initial := fun connection => connection = start
  next := next

inductive Moves : ConnectionState → ConnectionState → Prop where
  | attempt : Moves .disconnected .connecting
  | established : Moves .connecting .connected
  | refused : Moves .connecting .disconnected
  | left : Moves .connected .shutdown
  | ended : Moves .shutdown .disconnected

/-- All states so far, newest first, follow the state changes from the disconnected one. -/
structure Socket.Follows (socket : Socket) : Prop where
  moves : (socket.state :: socket.earlier).IsChain fun later earlier => Moves earlier later
  first : (socket.state :: socket.earlier).getLast? = some .disconnected

/-- `shutdown` is reached only in a connected socket: no attempt fails, no completion fails
and no remote disconnect is reported outside the connected state, and an invalid message
comes before any callback has shut the connection down. -/
def Orderly (connection : Connection) : Label → Prop
  | .onConnected failed _ => failed = false
  | .onReceive arrival onMessage =>
      (arrival.failed = true → connection.socket.state = .connected) ∧
        (arrival.failed = false → arrival.Invalid → connection.socket.state = .connected ∧
          ∀ delivery ∈ arrival.deliveries, onMessage delivery = .returns)
  | .onSend failed => failed = true → connection.socket.state = .connected
  | .onDisconnect => connection.socket.state = .connected
  | _ => True

instance (connection : Connection) : (label : Label) → Decidable (Orderly connection label)
  | .onConnected failed _ => inferInstanceAs (Decidable (failed = false))
  | .onReceive _ _ => inferInstanceAs (Decidable (_ ∧ _))
  | .onSend _ => inferInstanceAs (Decidable (_ → _))
  | .onDisconnect => inferInstanceAs (Decidable (_ = _))
  | .connect _ | .accept _ | .shutdown | .peerDisconnects | .onDisconnected =>
      inferInstanceAs (Decidable True)

def phaseOf : ConnectionState → Phase
  | .disconnected => .idle
  | .connecting => .attempted
  | .connected => .established
  | .shutdown => .established

structure Agrees (phase : Phase) (socket : Socket) : Prop where
  known : phase = phaseOf socket.state
  disconnecting : phase ≠ .idle → (socket.disconnecting = true ↔ socket.state = .shutdown)
  follows : socket.Follows

section Steps

variable {phase : Phase} {socket : Socket}

theorem Socket.Follows.assign (hfollows : socket.Follows) {state : ConnectionState}
    (hmoves : Moves socket.state state) : (socket.assign state).Follows where
  moves := List.isChain_cons_cons.mpr ⟨hmoves, hfollows.moves⟩
  first := by
    rw [Socket.assign, List.getLast?_cons_cons]
    exact hfollows.first

theorem shutdown_returns_iff : (shutdown socket).2 = none ↔ socket.state = .connected := by
  unfold shutdown
  split
  · rename_i hstate
    exact iff_of_false nofun hstate
  · rename_i hstate
    exact iff_of_true rfl (not_not.mp hstate)

theorem Agrees.shutdown (hagrees : Agrees phase socket) : Agrees phase (shutdown socket).1 := by
  unfold Connecting.shutdown
  split
  · exact hagrees
  · rename_i hstate
    rw [not_not] at hstate
    have hmoves : Moves socket.state .shutdown := hstate ▸ .left
    exact ⟨by rw [hagrees.known, hstate]; rfl, fun _ => iff_of_true rfl rfl,
      ⟨(hagrees.follows.assign hmoves).moves, (hagrees.follows.assign hmoves).first⟩⟩

theorem Agrees.react (hagrees : Agrees phase socket) (reaction : Reaction) :
    Agrees phase (reaction.run socket) := by
  cases reaction with
  | returns => exact hagrees
  | shutsDown =>
      rw [Reaction.run]
      split
      · exact hagrees.shutdown
      · exact hagrees

theorem run_connected_iff (reaction : Reaction) :
    (reaction.run socket).state = .connected ↔
      socket.state = .connected ∧ reaction = .returns := by
  cases reaction with
  | returns => simp [Reaction.run]
  | shutsDown =>
      rw [Reaction.run]
      split
      · rename_i hstate
        simp [Connecting.shutdown, hstate, Socket.assign]
      · rename_i hstate
        simp [hstate]

theorem Agrees.onMessages (onMessage : Delivery → Reaction) (deliveries : List Delivery)
    (hagrees : Agrees phase socket) : Agrees phase (onMessages onMessage deliveries socket) := by
  induction deliveries generalizing socket with
  | nil => exact hagrees
  | cons delivery deliveries ih => exact ih (hagrees.react (onMessage delivery))

theorem onMessages_connected_iff (onMessage : Delivery → Reaction) (deliveries : List Delivery)
    (socket : Socket) :
    (onMessages onMessage deliveries socket).state = .connected ↔
      socket.state = .connected ∧ ∀ delivery ∈ deliveries, onMessage delivery = .returns := by
  induction deliveries generalizing socket with
  | nil => simp [Connecting.onMessages]
  | cons delivery deliveries ih =>
      have hrest := ih ((onMessage delivery).run socket)
      rw [run_connected_iff] at hrest
      rw [List.forall_mem_cons, ← and_assoc]
      exact hrest

theorem Agrees.onReceive (hagrees : Agrees phase socket) (arrival : Arrival)
    (onMessage : Delivery → Reaction) :
    Agrees phase (onReceive arrival onMessage socket).1 := by
  have hmessages := hagrees.onMessages onMessage arrival.deliveries
  unfold Connecting.onReceive
  split
  · exact hagrees.shutdown
  · simp only
    split
    · exact hmessages.shutdown
    · exact hmessages

theorem onReceive_returns_iff (arrival : Arrival) (onMessage : Delivery → Reaction) :
    (onReceive arrival onMessage socket).2 = none ↔
      (arrival.failed = true → socket.state = .connected) ∧
        (arrival.failed = false → arrival.Invalid → socket.state = .connected ∧
          ∀ delivery ∈ arrival.deliveries, onMessage delivery = .returns) := by
  unfold Connecting.onReceive
  cases hfailed : arrival.failed with
  | true => simpa [handleSocketError] using shutdown_returns_iff
  | false =>
      by_cases hinvalid : arrival.Invalid
      · have hmessages := onMessages_connected_iff onMessage arrival.deliveries socket
        rw [← shutdown_returns_iff] at hmessages
        simpa [hinvalid, handleSocketError] using hmessages
      · simp [hinvalid]

theorem Agrees.onSend (hagrees : Agrees phase socket) (failed : Bool) :
    Agrees phase (onSend failed socket).1 := by
  cases failed with
  | true => exact hagrees.shutdown
  | false => exact hagrees

theorem onSend_returns_iff (failed : Bool) :
    (onSend failed socket).2 = none ↔ (failed = true → socket.state = .connected) := by
  cases failed with
  | true => simpa [Connecting.onSend, handleSocketError] using shutdown_returns_iff
  | false => simp [Connecting.onSend]

theorem Agrees.attempt (hagrees : Agrees phase socket) {after : Socket} {taken : Bool}
    (hattempt : attempt taken socket = (after, none)) : Agrees .attempted after := by
  unfold Connecting.attempt at hattempt
  split at hattempt
  · cases congrArg Prod.snd hattempt
  · rename_i hstate
    split at hattempt
    · rw [not_not] at hstate
      cases congrArg Prod.fst hattempt
      have hmoves : Moves socket.state .connecting := hstate ▸ .attempt
      exact ⟨rfl, fun _ => iff_of_false nofun nofun,
        ⟨(hagrees.follows.assign hmoves).moves, (hagrees.follows.assign hmoves).first⟩⟩
    · cases congrArg Prod.snd hattempt

theorem Agrees.connecting (hagrees : Agrees .attempted socket) : socket.state = .connecting := by
  have hknown := hagrees.known
  cases hstate : socket.state with
  | connecting => rfl
  | disconnected => rw [hstate] at hknown; contradiction
  | shutdown => rw [hstate] at hknown; contradiction
  | connected => rw [hstate] at hknown; contradiction

theorem Agrees.onConnected (hagrees : Agrees .attempted socket) (failed : Bool)
    (onSocketConnected : Reaction) :
    Agrees (if failed then .idle else .established)
      (onConnected failed onSocketConnected socket).1 := by
  have hstate := hagrees.connecting
  unfold Connecting.onConnected
  rw [if_neg (not_not.mpr hstate)]
  cases failed with
  | true =>
      have hmoves : Moves socket.state .disconnected := hstate ▸ .refused
      have hrefused : Agrees .idle (socket.assign .disconnected) :=
        ⟨rfl, fun hidle => absurd rfl hidle, hagrees.follows.assign hmoves⟩
      exact hrefused.shutdown
  | false =>
      have hmoves : Moves socket.state .connected := hstate ▸ .established
      have hclear : socket.disconnecting = true ↔ socket.state = .shutdown :=
        hagrees.disconnecting nofun
      have hopened : Agrees .established (socket.assign .connected) := by
        refine ⟨rfl, fun _ => iff_of_false ?_ nofun, hagrees.follows.assign hmoves⟩
        rw [hstate] at hclear
        exact fun hdisconnecting => nomatch hclear.mp hdisconnecting
      exact hopened.react onSocketConnected

theorem onConnected_returns_iff (hagrees : Agrees .attempted socket) (failed : Bool)
    (onSocketConnected : Reaction) :
    (onConnected failed onSocketConnected socket).2 = none ↔ failed = false := by
  unfold Connecting.onConnected
  rw [if_neg (not_not.mpr hagrees.connecting)]
  cases failed with
  | true => simp [handleSocketError, Connecting.shutdown, Socket.assign]
  | false => simp

theorem Agrees.onDisconnected (hagrees : Agrees .established socket)
    (hdisconnecting : socket.disconnecting = true) : Agrees .idle (onDisconnected socket).1 := by
  have hstate := (hagrees.disconnecting nofun).mp hdisconnecting
  have hmoves : Moves socket.state .disconnected := hstate ▸ .ended
  exact ⟨rfl, fun hidle => absurd rfl hidle, hagrees.follows.assign hmoves⟩

theorem agrees_attempted {connection : Connection}
    (hagrees : Agrees connection.phase connection.socket) (taken : Bool) :
    Agrees (connection.attempted (attempt taken connection.socket)).phase
        (connection.attempted (attempt taken connection.socket)).socket ∧
      (connection.attempted (attempt taken connection.socket)).failure = connection.failure := by
  cases hattempt : attempt taken connection.socket with
  | mk after failure =>
      cases failure with
      | none => exact ⟨hagrees.attempt hattempt, rfl⟩
      | some failure => exact ⟨hagrees, rfl⟩

theorem agrees_next {connection after : Connection} {label : Label}
    (hagrees : Agrees connection.phase connection.socket)
    (hnext : next connection label = some after) :
    Agrees after.phase after.socket ∧ (after.failure = none ↔ Orderly connection label) := by
  unfold next at hnext
  simp only at hnext
  split at hnext
  · contradiction
  rename_i hrunning
  have hnone : connection.failure = none := Option.not_isSome_iff_eq_none.mp hrunning
  cases label with
  | connect taken =>
      cases hnext
      obtain ⟨hafter, hfailure⟩ := agrees_attempted hagrees taken
      exact ⟨hafter, iff_of_true (hfailure.trans hnone) trivial⟩
  | accept taken =>
      cases hnext
      obtain ⟨hafter, hfailure⟩ := agrees_attempted hagrees taken
      exact ⟨hafter, iff_of_true (hfailure.trans hnone) trivial⟩
  | shutdown =>
      cases hnext
      exact ⟨hagrees.shutdown, iff_of_true hnone trivial⟩
  | peerDisconnects =>
      simp only at hnext
      split at hnext
      · cases hnext
        exact ⟨hagrees, iff_of_true hnone trivial⟩
      · contradiction
  | onConnected failed onSocketConnected =>
      simp only at hnext
      split at hnext
      · rename_i hphase
        cases hnext
        rw [hphase] at hagrees
        exact ⟨hagrees.onConnected failed onSocketConnected,
          onConnected_returns_iff hagrees failed onSocketConnected⟩
      · contradiction
  | onReceive arrival onMessage =>
      simp only at hnext
      split at hnext
      · contradiction
      · cases hnext
        exact ⟨hagrees.onReceive arrival onMessage, onReceive_returns_iff arrival onMessage⟩
  | onSend failed =>
      simp only at hnext
      split at hnext
      · contradiction
      · cases hnext
        exact ⟨hagrees.onSend failed, onSend_returns_iff failed⟩
  | onDisconnect =>
      simp only at hnext
      split at hnext
      · rename_i hdelivered
        cases hnext
        rw [hdelivered.1] at hagrees
        exact ⟨hagrees.shutdown, shutdown_returns_iff⟩
      · contradiction
  | onDisconnected =>
      simp only at hnext
      split at hnext
      · rename_i hdelivered
        cases hnext
        rw [hdelivered.1] at hagrees
        exact ⟨hagrees.onDisconnected hdelivered.2, iff_of_true rfl trivial⟩
      · contradiction

end Steps

theorem agrees_start : Agrees start.phase start.socket where
  known := rfl
  disconnecting := fun hidle => absurd rfl hidle
  follows := ⟨.singleton _, rfl⟩

theorem agrees_of_reachable {allowed : Connection → Label → Prop} {connection : Connection}
    (hreach : machine.ReachableUnder allowed connection) :
    Agrees connection.phase connection.socket := by
  apply hreach.invariant fun connection => Agrees connection.phase connection.socket
  · rintro _ rfl
    exact agrees_start
  · intro before label after hagrees _ hnext
    exact (agrees_next hagrees hnext).1

/-- No handler throws in an orderly run, the states follow the state changes of a
connection, and the next handler throws unless it is orderly too. -/
theorem handlers_return_iff (connection : Connection)
    (hreach : machine.ReachableUnder Orderly connection) :
    connection.failure = none ∧ connection.socket.Follows ∧
      ∀ label after, next connection label = some after →
        (after.failure = none ↔ Orderly connection label) := by
  have hagrees := agrees_of_reachable hreach
  refine ⟨?_, hagrees.follows, fun label after hnext => (agrees_next hagrees hnext).2⟩
  have hboth : Agrees connection.phase connection.socket ∧ connection.failure = none := by
    apply hreach.invariant fun connection =>
      Agrees connection.phase connection.socket ∧ connection.failure = none
    · rintro _ rfl
      exact ⟨agrees_start, rfl⟩
    · intro before label after hbefore horderly hnext
      obtain ⟨hafter, hreturns⟩ := agrees_next hbefore.1 hnext
      exact ⟨hafter, hreturns.mpr horderly⟩
  exact hboth.2

def emptyArrival : Arrival := ⟨false, fun _ => 0, 4096, 0⟩

def remoteClose : List Label :=
  [.connect true, .onReceive emptyArrival fun _ => .returns, .onConnected false .returns,
    .onSend false, .peerDisconnects, .onDisconnect, .onSend false, .onDisconnected]

theorem remote_close_returns :
    ∃ connection, machine.ReachableUnder Orderly connection ∧
      connection.socket.earlier = [.shutdown, .connected, .connecting, .disconnected] ∧
      connection.failure = none := by
  obtain ⟨connection, hreach, htest⟩ := machine.exists_reachableUnder_of_replay Orderly
    start remoteClose
    (fun connection => decide (connection.socket.earlier =
      [.shutdown, .connected, .connecting, .disconnected]))
    rfl (by decide +kernel)
  exact ⟨connection, hreach, of_decide_eq_true htest, (handlers_return_iff connection hreach).1⟩

/-- The disconnect that follows a local `shutdown()` throws out of the handler. -/
theorem local_shutdown_throws :
    ¬ ∀ connection, machine.Reachable connection →
      connection.failure = none ∧ connection.socket.Follows := by
  intro hall
  obtain ⟨connection, hreach, htest⟩ := machine.exists_reachable_of_replay start
    [.connect true, .onConnected false .returns, .shutdown, .onDisconnect]
    (fun connection => decide (connection.failure = some .notConnected))
    rfl (by decide +kernel)
  have hthrown := of_decide_eq_true htest
  rw [(hall connection hreach).1] at hthrown
  contradiction

end Crossbow.Infinio.Connecting
