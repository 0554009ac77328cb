import Crossbow.Infinio.BatchingMessageSocket

/-! The client side of the RPC layer on one polling thread. Event handlers resume
fibers in the middle of their loops, and a resumed fiber may send further
requests before it gives control back. -/
namespace Crossbow.Infinio.RpcClient
open Kernel
open BatchingMessageSocket (ConnectionState)

def buildId (userId : UInt32) (async : Bool) : UInt64 :=
  (userId.toUInt64 <<< 32) ||| (if async then 1 else 0)

def userIdOf (id : UInt64) : UInt32 := (id >>> 32).toUInt32

def isAsync (id : UInt64) : Bool := (id &&& 0xFFFFFFFF).toUInt32 != 0

inductive Kind where
  | sync
  | async
  deriving DecidableEq, Repr

/-- How an `RpcResponse` is completed: `onResponse`, or `onAbort` with an error. -/
inductive Outcome where
  | response (type : UInt32) (payload : List UInt8)
  | noResponse
  | connectionAborted
  | writeError
  deriving DecidableEq, Repr

/-- Where the handler that the poll loop called stands: `notify_all` with the rest of
its local queue, the loops of `onSocketDisconnected`, and `onSyncResponse`
before a round and after it popped an entry and woke a request. An exception that left a
handler is not caught by the poll loop. -/
inductive Handler where
  | notifying (rest : List (Kind × Nat)) (draining : Bool)
  | draining
  | drainingAsync
  | matching (userId type : UInt32) (payload : List UInt8)
  | popped (userId type : UInt32) (payload : List UInt8) (responseId : UInt32) (request : Nat)
  | thrown
  deriving DecidableEq, Repr

inductive Event where
  | enqueue (request : Nat)
  | answer (request : Nat) (type : UInt32) (payload : List UInt8)
  | close
  deriving DecidableEq, Repr

/-- Requests are numbered in the order of the calls. `fibers` counts the fibers on the
stack above the handler; only the innermost runs. `wire` holds the requests
that the server may still answer. The completions, those of requests that
were never enqueued (`refused`), and the events are history. -/
structure State where
  conn : ConnectionState
  userId : UInt32
  queue : List (UInt32 × Nat)
  waiting : List (Kind × Nat)
  fibers : Nat
  handler : Option Handler
  nextRequest : Nat
  wire : List (UInt64 × Nat)
  completed : List (Nat × Outcome)
  refused : List (Nat × Outcome)
  trace : List Event
  deriving DecidableEq, Repr

def ready (maxPending : Nat) (state : State) : Kind → Bool
  | .sync => decide (state.conn ≠ .connecting ∧ state.queue.length < maxPending)
  | .async => decide (state.conn ≠ .connecting)

/-- `onAbort` of a request that was not enqueued. Its own fiber is running. -/
def State.refuse (state : State) (request : Nat) (outcome : Outcome) : State :=
  { state with refused := state.refused ++ [(request, outcome)] }

/-- A fiber tests the condition of its `wait`, at the start of the call or when it is
resumed, and goes on in `sendRequest` or `sendAsyncRequest`. It is on the
stack afterwards unless it waits. -/
def trySend (maxPending : Nat) (state : State) (kind : Kind) (request : Nat)
    (writeFails : Bool) : State :=
  if ready maxPending state kind then
    let running := { state with fibers := state.fibers + 1 }
    if state.conn ≠ .connected then running.refuse request .connectionAborted
    else
      match kind with
      | .sync =>
          let running := { running with userId := state.userId + 1 }
          if writeFails then running.refuse request .writeError
          else
            { running with
              queue := state.queue ++ [(state.userId + 1, request)]
              wire := state.wire ++ [(buildId (state.userId + 1) false, request)]
              trace := state.trace ++ [.enqueue request] }
      | .async => if writeFails then running.refuse request .writeError else running
  else { state with waiting := state.waiting ++ [(kind, request)] }

/-- Completing a response resumes its fiber if that waits for it. -/
def State.complete (state : State) (request : Nat) (outcome : Outcome) (resume : Bool) : State :=
  { state with
    completed := state.completed ++ [(request, outcome)]
    fibers := if resume then state.fibers + 1 else state.fibers }

/-- `notify_one`: the woken fiber runs at once. `writeFails` is the result of its write. -/
def notifyOne (maxPending : Nat) (state : State) (writeFails : Bool) : State :=
  match state.waiting with
  | [] => state
  | (kind, woken) :: others =>
      trySend maxPending { state with waiting := others } kind woken writeFails

/-- A round of the first loop of `onSocketDisconnected`. -/
def stepDraining (state : State) (resume : Bool) : State :=
  match state.queue with
  | [] => { state with handler := some .drainingAsync }
  | (_, request) :: rest =>
      { state with queue := rest }.complete request .connectionAborted resume

/-- A round of `onSyncResponse` up to the comparison of the ids. -/
def stepMatching (maxPending : Nat) (state : State) (userId type : UInt32)
    (payload : List UInt8) (writeFails : Bool) : State :=
  match state.queue with
  | [] => { state with handler := none }
  | (responseId, request) :: rest =>
      notifyOne maxPending { state with
        queue := rest
        handler := some (.popped userId type payload responseId request) } writeFails

def stepPopped (state : State) (userId type : UInt32) (payload : List UInt8)
    (responseId : UInt32) (request : Nat) (resume : Bool) : State :=
  if userId ≠ responseId then
    { state with handler := some (.matching userId type payload) }.complete request
      .noResponse resume
  else { state with handler := none }.complete request (.response type payload) resume

/-- One step of a handler, up to the point where a fiber runs or the next round
starts. -/
def stepHandler (maxPending : Nat) (state : State) (writeFails resume : Bool) :
    Handler → State
  | .notifying [] false => { state with handler := none }
  | .notifying [] true => { state with handler := some .draining }
  | .notifying ((kind, request) :: rest) draining =>
      trySend maxPending { state with handler := some (.notifying rest draining) } kind request
        writeFails
  | .draining => stepDraining state resume
  | .drainingAsync =>
      if resume then { state with fibers := state.fibers + 1 } else { state with handler := none }
  | .matching userId type payload =>
      stepMatching maxPending state userId type payload writeFails
  | .popped userId type payload responseId request =>
      stepPopped state userId type payload responseId request resume
  | .thrown => state

/-- The steps of the poll loop and of the running fiber. A fiber starts or is resumed
outside of the socket (`spawn`), stops running (`suspend`), sends a request or
changes the connection; with an empty stack an event may arrive. -/
inductive Label where
  | spawn
  | suspend
  | send (kind : Kind) (writeFails : Bool)
  | connect
  | shutdown
  | connected
  | connectFailed
  | disconnected
  | receive (index : Nat) (type : UInt32) (payload : List UInt8)
  | handle (writeFails resume : Bool)
  deriving DecidableEq, Repr

def State.idle (state : State) : Bool := decide (state.fibers = 0 ∧ state.handler = none)

def State.user (state : State) : Bool := decide (0 < state.fibers ∨ state.handler = none)

def next (maxPending : Nat) (state : State) : Label → Option State
  | .spawn => if state.user then some { state with fibers := state.fibers + 1 } else none
  | .suspend =>
      if 0 < state.fibers then some { state with fibers := state.fibers - 1 } else none
  | .send kind writeFails =>
      if 0 < state.fibers then
        some (trySend maxPending
          { state with fibers := state.fibers - 1, nextRequest := state.nextRequest + 1 }
          kind state.nextRequest writeFails)
      else none
  | .connect =>
      if state.user ∧ state.conn = .disconnected then some { state with conn := .connecting }
      else none
  | .shutdown =>
      if state.user ∧ state.conn = .connected then some { state with conn := .shutdown } else none
  | .connected =>
      if state.idle ∧ state.conn = .connecting then
        some { state with
          conn := .connected
          handler := some (.notifying state.waiting false)
          waiting := [] }
      else none
  | .connectFailed =>
      -- the error is handled by `shutdown()`, which throws in this state
      if state.idle ∧ state.conn = .connecting then
        some { state with conn := .disconnected, handler := some .thrown }
      else none
  | .disconnected =>
      if state.idle ∧ state.conn ≠ .disconnected then
        some { state with
          conn := .disconnected
          handler := some (.notifying state.waiting true)
          waiting := []
          wire := []
          trace := state.trace ++ [.close] }
      else none
  | .receive index type payload =>
      if state.idle then
        (state.wire[index]?).map fun (id, request) =>
          { state with
            wire := state.wire.drop (index + 1)
            handler := if isAsync id then none else some (.matching (userIdOf id) type payload)
            trace := state.trace ++ [.answer request type payload] }
      else none
  | .handle writeFails resume =>
      if state.fibers = 0 ∧ state.handler ≠ some .thrown then
        state.handler.map (stepHandler maxPending state writeFails resume)
      else none

def start : State where
  conn := .disconnected
  userId := 0
  queue := []
  waiting := []
  fibers := 0
  handler := none
  nextRequest := 0
  wire := []
  completed := []
  refused := []
  trace := []

def machine (maxPending : Nat) : Machine State Label where
  initial := fun state => state = start
  next := next maxPending

end Crossbow.Infinio.RpcClient
