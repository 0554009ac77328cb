import Crossbow.Infinio.MemoryRegion

/-! Completion contexts. All contexts of a device take their receive buffers from one
shared queue, and every context polls the completion queue of its own connections. The
device, the polling threads and the events of the connections interleave freely. -/
namespace Crossbow.Infinio.CompletionContext
open Kernel SendBufferPool MemoryRegion

/-- `struct ibv_wc`; `withImm` tells the opcode `IBV_WC_RECV_RDMA_WITH_IMM` from the others. -/
structure Completion where
  wrId : Nat
  status : Nat
  withImm : Bool
  byteLen : Nat
  immData : Nat
  qpNum : Nat
  deriving DecidableEq, Repr

/-- `struct ibv_recv_wr` with its one element. -/
structure ReceiveRequest where
  wrId : Nat
  sge : Sge
  deriving DecidableEq, Repr

/-- The receive buffers of a `DeviceContext` and the limit its contexts poll with. -/
structure Device where
  receiveBufferCount : Nat
  receiveBufferLength : Nat
  receiveData : LocalMemoryRegion
  completionQueueLength : Nat
  count_lt : receiveBufferCount < 2 ^ 16
  length_lt : receiveBufferLength < 2 ^ 32
  length_eq : receiveData.length = receiveBufferCount * receiveBufferLength

def Device.acquireReceiveBuffer (device : Device) (id : Nat) : InfinibandBuffer :=
  device.receiveData.acquireBuffer id (wrap (id * device.receiveBufferLength))
    device.receiveBufferLength

def receiveRequest (buffer : InfinibandBuffer) : ReceiveRequest :=
  ⟨WorkRequestId.buildId 0 buffer.id .receive, buffer.handle⟩

inductive Failure where
  | status (code : Nat)
  | invalidBuffer
  deriving DecidableEq, Repr

inductive Call where
  | onReceive (data : Option Nat) (length : Nat) (error : Option Failure)
  | onSend (userId : Nat) (error : Option Failure)
  | onRead (userId bufferId : Nat) (error : Option Failure)
  | onWrite (userId bufferId : Nat) (error : Option Failure)
  | onImmediate (data : Nat)
  | onDisconnected
  deriving DecidableEq, Repr

def Completion.error (wc : Completion) : Option Failure :=
  if wc.status = 0 then none else some (.status wc.status)

/-- The call that `processWorkComplete` makes for the completion of a known queue pair. -/
def Device.call (device : Device) (wc : Completion) : Option Call :=
  match WorkRequestId.workType wc.wrId with
  | .receive =>
      let buffer := device.acquireReceiveBuffer (WorkRequestId.bufferId wc.wrId)
      if buffer.valid then
        if wc.withImm then some (.onImmediate (htonl wc.immData))
        else some (.onReceive (some buffer.handle.addr) wc.byteLen wc.error)
      else some (.onReceive none 0 (some .invalidBuffer))
  | .send => some (.onSend (WorkRequestId.userId wc.wrId) wc.error)
  | .read =>
      some (.onRead (WorkRequestId.userId wc.wrId) (WorkRequestId.bufferId wc.wrId) wc.error)
  | .write =>
      some (.onWrite (WorkRequestId.userId wc.wrId) (WorkRequestId.bufferId wc.wrId) wc.error)
  | .unknown => none

/-- Where the thread of a context is in `poll`: after the swap of the draining queue, in
the loop over `wc`, or in a handler that reads a receive buffer. With no completion left
the loop over the drained connections follows. -/
inductive Stage (Sock : Type) where
  | idle
  | swapped (draining : List Sock)
  | loop (draining : List Sock) (wc : List Completion)
  | handler (draining : List Sock) (wc : List Completion) (buffer : InfinibandBuffer)
  deriving DecidableEq, Repr

namespace Stage

variable {Sock : Type}

def draining : Stage Sock → List Sock
  | .idle => []
  | .swapped draining | .loop draining _ | .handler draining _ _ => draining

def completions : Stage Sock → List Completion
  | .idle | .swapped _ => []
  | .loop _ wc | .handler _ wc _ => wc

def buffer : Stage Sock → Option InfinibandBuffer
  | .idle | .swapped _ | .loop _ _ => none
  | .handler _ _ buffer => some buffer

end Stage

/-- `tasks` are the calls of `drainConnection` that the processor has still to execute. -/
structure Context (Sock : Type) where
  completionQueue : List Completion
  socketMap : Nat → Option Sock
  drainingQueue : List Sock
  tasks : List Sock
  stage : Stage Sock

def Context.pending {Sock : Type} (context : Context Sock) : List Completion :=
  context.stage.completions ++ context.completionQueue

/-- A socket with the number of its queue pair. `exited` says that its connection left the
timewait state, `entered` is the history of its completions and `calls` that of the calls
on its handler. A socket that is opened again counts as another one. -/
structure Socket where
  qp : Option Nat
  exited : Bool
  entered : List Completion
  calls : List Call

/-- `receiveQueue` holds the requests that belong to the device, until it completes them.
`lost` are the buffers that could not be posted. -/
structure State (Ctx Sock : Type) where
  receiveQueue : List ReceiveRequest
  lost : List Nat
  contexts : Ctx → Context Sock
  sockets : Sock → Socket

section Steps

variable {Ctx Sock : Type} [DecidableEq Ctx] [DecidableEq Sock]

omit [DecidableEq Sock] in
def State.setContext (state : State Ctx Sock) (ctx : Ctx) (context : Context Sock) :
    State Ctx Sock :=
  { state with contexts := Function.update state.contexts ctx context }

omit [DecidableEq Sock] in
@[simp] theorem contexts_setContext_self (state : State Ctx Sock) (ctx : Ctx)
    (context : Context Sock) : (state.setContext ctx context).contexts ctx = context :=
  Function.update_self ..

omit [DecidableEq Sock] in
theorem contexts_setContext_of_ne (state : State Ctx Sock) {ctx other : Ctx} (hne : other ≠ ctx)
    (context : Context Sock) : (state.setContext ctx context).contexts other =
      state.contexts other :=
  Function.update_of_ne hne ..

omit [DecidableEq Sock] in
def State.setStage (state : State Ctx Sock) (ctx : Ctx) (stage : Stage Sock) : State Ctx Sock :=
  state.setContext ctx { state.contexts ctx with stage := stage }

omit [DecidableEq Ctx] in
def State.setSocket (state : State Ctx Sock) (sock : Sock) (socket : Socket) : State Ctx Sock :=
  { state with sockets := Function.update state.sockets sock socket }

omit [DecidableEq Ctx] in
def State.notify (state : State Ctx Sock) (sock : Sock) (call : Option Call) : State Ctx Sock :=
  state.setSocket sock
    { state.sockets sock with calls := (state.sockets sock).calls ++ call.toList }

omit [DecidableEq Ctx] [DecidableEq Sock] in
/-- `postReceiveBuffer(InfinibandBuffer&)` only logs an error. The shared queue was created
for `mReceiveBufferCount` requests, and `fault` is any other failure of the device. -/
def State.postReceiveBuffer (device : Device) (state : State Ctx Sock)
    (buffer : InfinibandBuffer) (fault : Bool) : State Ctx Sock :=
  if buffer.valid ∧ fault = false ∧ state.receiveQueue.length < device.receiveBufferCount then
    { state with receiveQueue := state.receiveQueue ++ [receiveRequest buffer] }
  else { state with lost := buffer.id :: state.lost }

/-- `processWorkComplete`. What the send case does to the send buffers is in the model of
their pool. -/
def State.processWorkComplete (device : Device) (state : State Ctx Sock) (ctx : Ctx)
    (draining : List Sock) (rest : List Completion) (wc : Completion) (fault : Bool) :
    State Ctx Sock :=
  let buffer := device.acquireReceiveBuffer (WorkRequestId.bufferId wc.wrId)
  match (state.contexts ctx).socketMap wc.qpNum with
  | none =>
      match WorkRequestId.workType wc.wrId with
      | .receive =>
          (state.setStage ctx (.loop draining rest)).postReceiveBuffer device buffer fault
      | _ => state.setStage ctx (.loop draining rest)
  | some sock =>
      match WorkRequestId.workType wc.wrId with
      | .receive =>
          if buffer.valid then
            (state.notify sock (device.call wc)).setStage ctx (.handler draining rest buffer)
          else
            { (state.notify sock (device.call wc)).setStage ctx (.loop draining rest) with
              lost := buffer.id :: state.lost }
      | _ => (state.notify sock (device.call wc)).setStage ctx (.loop draining rest)

def State.removeConnection (state : State Ctx Sock) (ctx : Ctx) (sock : Sock) : State Ctx Sock :=
  match (state.sockets sock).qp with
  | none => state
  | some qpNum =>
      (state.setContext ctx { state.contexts ctx with
        socketMap := Function.update (state.contexts ctx).socketMap qpNum none }).setSocket sock
          { state.sockets sock with qp := none }

def State.onDrained (state : State Ctx Sock) (ctx : Ctx) (sock : Sock) : State Ctx Sock :=
  (state.removeConnection ctx sock).notify sock (some .onDisconnected)

/-- The thread of a context takes its next step; `home` is the context of the processor of
a socket. A failed `ibv_poll_cq` leaves nothing to process. -/
def State.advance (device : Device) (home : Sock → Ctx) (state : State Ctx Sock) (ctx : Ctx)
    (fault : Bool) : State Ctx Sock :=
  let context := state.contexts ctx
  match context.stage with
  | .idle =>
      state.setContext ctx { context with
        drainingQueue := []
        stage := .swapped context.drainingQueue }
  | .swapped draining =>
      if fault then state.setStage ctx (.loop draining [])
      else
        state.setContext ctx { context with
          completionQueue := context.completionQueue.drop device.completionQueueLength
          stage := .loop draining (context.completionQueue.take device.completionQueueLength) }
  | .loop draining (wc :: rest) => state.processWorkComplete device ctx draining rest wc fault
  | .handler draining rest buffer =>
      (state.setStage ctx (.loop draining rest)).postReceiveBuffer device buffer fault
  | .loop (sock :: draining) [] =>
      (state.setStage ctx (.loop draining [])).onDrained (home sock) sock
  | .loop [] [] => state.setStage ctx .idle

/-- The device enters a completion into the queue that the queue pair was created with. -/
def State.enter (home : Sock → Ctx) (state : State Ctx Sock) (sock : Sock) (wc : Completion) :
    State Ctx Sock :=
  (state.setContext (home sock) { state.contexts (home sock) with
    completionQueue := (state.contexts (home sock)).completionQueue ++ [wc] }).setSocket sock
      { state.sockets sock with entered := (state.sockets sock).entered ++ [wc] }

/-- `addConnection` after the queue pair was created; `insert` keeps an entry that exists. -/
def State.addConnection (home : Sock → Ctx) (state : State Ctx Sock) (sock : Sock)
    (qpNum : Nat) : State Ctx Sock :=
  let context := state.contexts (home sock)
  let socketMap := match context.socketMap qpNum with
    | none => Function.update context.socketMap qpNum (some sock)
    | some _ => context.socketMap
  (state.setContext (home sock) { context with socketMap := socketMap }).setSocket sock
    { state.sockets sock with qp := some qpNum }

end Steps

/-- `receive` completes a request of the shared queue, `complete` one that was posted to
the send queue. `timewaitExit` enqueues the task that `drain` executes. -/
inductive Label (Ctx Sock : Type) where
  | advance (ctx : Ctx) (fault : Bool)
  | addConnection (sock : Sock) (qpNum : Nat)
  | removeConnection (sock : Sock)
  | receive (sock : Sock) (index status : Nat) (withImm : Bool) (byteLen immData : Nat)
  | complete (sock : Sock) (wrId status : Nat)
  | timewaitExit (sock : Sock)
  | drain (ctx : Ctx)

section Machine

variable {Ctx Sock : Type} [DecidableEq Ctx] [DecidableEq Sock]

def next (device : Device) (home : Sock → Ctx) (state : State Ctx Sock) :
    Label Ctx Sock → Option (State Ctx Sock)
  | .advance ctx fault => some (state.advance device home ctx fault)
  | .addConnection sock qpNum =>
      -- `rdma_create_qp_ex` refuses a second queue pair
      match (state.sockets sock).qp with
      | none => some (state.addConnection home sock qpNum)
      | some _ => none
  | .removeConnection sock => some (state.removeConnection (home sock) sock)
  | .receive sock index status withImm byteLen immData =>
      match (state.sockets sock).qp, state.receiveQueue[index]? with
      | some qpNum, some request =>
          some ({ state with receiveQueue := state.receiveQueue.eraseIdx index }.enter home sock
            ⟨request.wrId, status, withImm, byteLen, immData, qpNum⟩)
      | _, _ => none
  | .complete sock wrId status =>
      match (state.sockets sock).qp with
      | some qpNum =>
          if WorkRequestId.workType wrId = .receive then none
          else some (state.enter home sock ⟨wrId, status, false, 0, 0, qpNum⟩)
      | none => none
  | .timewaitExit sock =>
      let context := state.contexts (home sock)
      some ((state.setContext (home sock) { context with
        tasks := context.tasks ++ [sock] }).setSocket sock
          { state.sockets sock with exited := true })
  | .drain ctx =>
      let context := state.contexts ctx
      match context.tasks with
      | [] => none
      | sock :: tasks =>
          some (state.setContext ctx { context with
            drainingQueue := context.drainingQueue ++ [sock]
            tasks := tasks })

omit [DecidableEq Ctx] [DecidableEq Sock] in
def start (device : Device) : State Ctx Sock where
  receiveQueue := (List.range device.receiveBufferCount).map fun id =>
    receiveRequest (device.acquireReceiveBuffer id)
  lost := []
  contexts := fun _ => ⟨[], fun _ => none, [], [], .idle⟩
  sockets := fun _ => ⟨none, false, [], []⟩

def machine (device : Device) (home : Sock → Ctx) :
    Machine (State Ctx Sock) (Label Ctx Sock) where
  initial := fun state => state = start device
  next := next device home

end Machine

end Crossbow.Infinio.CompletionContext
