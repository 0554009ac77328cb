import Crossbow.Infinio.ByteBuffer
import Crossbow.Kernel.Machine

/-! Message batching. `writeMessage` appends frames to a shared send buffer, which
leaves when it is full, when the batch is large enough or when the scheduled
flush task runs; `onReceive` takes a received buffer apart again. -/
namespace Crossbow.Infinio.BatchingMessageSocket
open Kernel

inductive ConnectionState where
  | disconnected
  | shutdown
  | connecting
  | connected
  deriving DecidableEq, Repr

structure Message where
  id : UInt64
  type : UInt32
  payload : List UInt8
  deriving DecidableEq, Repr

/-- A valid `InfinibandBuffer`: `data()` and `length()`. -/
structure Buffer where
  addr : Nat
  length : Nat
  deriving DecidableEq, Repr

/-- `fun(message, ec)`. It sees and overwrites the region of the message only,
and its error may depend on what it found there. -/
structure Callback where
  fill : List UInt8 → List UInt8
  length_fill : ∀ region, (fill region).length = region.length
  fails : List UInt8 → Bool

inductive Error where
  | messageTooBig
  | invalidBuffer
  | sendFailed
  | callbackFailed
  deriving DecidableEq, Repr

/-- `flushTasks` counts the flush tasks of this socket in the processor's local
queue and `handled` the calls of `handleSocketError`. The bytes of the posted
sends and the messages written without error are history. -/
structure State where
  memory : Memory
  buffer : Option Buffer
  sendBuffer : Cursor
  batchSize : Nat
  flush : Bool
  flushTasks : Nat
  handled : Nat
  sent : List (List UInt8)
  accepted : List Message

def headerSize : Nat := 8 + 2 * 4

def State.base (state : State) : Nat := (state.buffer.map Buffer.addr).getD 0

def State.bufferLength (state : State) : Nat := (state.buffer.map Buffer.length).getD 0

def Buffer.shrink (buffer : Buffer) (length : Nat) : Buffer :=
  if buffer.length ≤ length % 2 ^ 32 then buffer else { buffer with length := length % 2 ^ 32 }

def State.dropBuffer (state : State) : State :=
  { state with buffer := none, sendBuffer := Cursor.ofLength 0 0 }

def sendCurrentBuffer (sendFails : Bool) (state : State) : State × Bool :=
  match state.buffer with
  | none => (state, false)
  | some buffer =>
      let posted := buffer.shrink (wrapSub state.sendBuffer.pos buffer.addr)
      let bytes := load state.memory posted.addr posted.length
      ({ state.dropBuffer with
          batchSize := 0
          sent := if sendFails then state.sent else state.sent ++ [bytes] }, sendFails)

def scheduleFlush (state : State) : State :=
  if state.flush then state else { state with flush := true, flushTasks := state.flushTasks + 1 }

/-- The second half of `writeMessage`: the header, the callback and either the
next batch position or the rewound cursor. -/
def writeFrame (state : State) (id : UInt64) (type length : UInt32) (callback : Callback) :
    State × Option Error :=
  let oldOffset := wrapSub state.sendBuffer.pos state.base % 2 ^ 32
  let (memory, writer) := Cursor.write state.memory state.sendBuffer 8 id.toNat
  let (memory, writer) := Cursor.write memory writer 4 type.toNat
  let (memory, writer) := Cursor.write memory writer 4 length.toNat
  let region := load memory writer.pos length.toNat
  let memory := store memory writer.pos (callback.fill region)
  if callback.fails region then
    ({ state with
        memory := memory
        sendBuffer := Cursor.ofLength (wrap (state.base + oldOffset))
          ((state.bufferLength + 2 ^ 32 - oldOffset) % 2 ^ 32) },
      some .callbackFailed)
  else
    ({ state with
        memory := memory
        sendBuffer := (writer.advance length.toNat).align 8
        batchSize := state.batchSize + 1
        accepted := state.accepted ++ [⟨id, type, callback.fill region⟩] }, none)

/-- A call of `writeMessage`. The last two fields are the environment's answers:
whether a posted send fails, and the send buffer that can be acquired. -/
structure Call where
  id : UInt64
  type : UInt32
  length : UInt32
  callback : Callback
  sendFails : Bool
  acquired : Option Buffer

def Call.frameLength (call : Call) : Nat := (headerSize + call.length.toNat) % 2 ^ 32

def acquire (state : State) (call : Call) : State × Option Error :=
  let state := { state with batchSize := 0, buffer := call.acquired }
  match call.acquired with
  | none => (state.dropBuffer, some .invalidBuffer)
  | some buffer =>
      let state := scheduleFlush
        { state with sendBuffer := Cursor.ofLength buffer.addr buffer.length }
      if state.sendBuffer.canAccess call.frameLength then (state, none)
      else (state, some .messageTooBig)

/-- The first half of `writeMessage`: make room for the frame. -/
def makeRoom (maxBatchSize : Nat) (state : State) (call : Call) : State × Option Error :=
  if state.sendBuffer.canAccess call.frameLength = false ∨ maxBatchSize ≤ state.batchSize then
    if state.buffer.isSome ∧ state.sendBuffer.pos = state.base then (state, some .messageTooBig)
    else
      match sendCurrentBuffer call.sendFails state with
      | (state, true) => (state, some .sendFailed)
      | (state, false) => acquire state call
  else (state, none)

def writeMessage (maxBatchSize : Nat) (state : State) (call : Call) : State × Option Error :=
  match makeRoom maxBatchSize state call with
  | (state, some error) => (state, some error)
  | (state, none) => writeFrame state call.id call.type call.length call.callback

def flushTask (sendFails : Bool) (state : State) : State :=
  let state := { state with flush := false, flushTasks := state.flushTasks - 1 }
  if state.buffer.isSome then
    if state.sendBuffer.pos = state.base then state.dropBuffer
    else
      match sendCurrentBuffer sendFails state with
      | (state, true) => { state with handled := state.handled + 1 }
      | (state, false) => state
  else state

inductive Label where
  | write (call : Call)
  | flush (sendFails : Bool)

def next (maxBatchSize : Nat) (state : State) : Label → Option State
  | .write call => some (writeMessage maxBatchSize state call).1
  | .flush sendFails => if state.flushTasks = 0 then none else some (flushTask sendFails state)

def start (memory : Memory) : State where
  memory := memory
  buffer := none
  sendBuffer := Cursor.ofLength 0 0
  batchSize := 0
  flush := false
  flushTasks := 0
  handled := 0
  sent := []
  accepted := []

def machine (maxBatchSize : Nat) : Machine State Label where
  initial := fun state => ∃ memory, state = start memory
  next := next maxBatchSize

structure Delivery where
  id : UInt64
  type : UInt32
  message : Cursor
  deriving DecidableEq, Repr

def Delivery.content (memory : Memory) (delivery : Delivery) : Message where
  id := delivery.id
  type := delivery.type
  payload := load memory delivery.message.pos
    (wrapSub delivery.message.stop delivery.message.pos)

inductive ReceiveEnd where
  | finished
  | invalidMessage
  | outOfFuel
  deriving DecidableEq, Repr

/-- A call of `onMessage`, with the address of the header before the slice. -/
structure Frame where
  header : Nat
  delivery : Delivery
  deriving DecidableEq, Repr

/-- The headers that were read and the calls of `onMessage`. `reader` is the local
`receiveBuffer` when the function returns. -/
structure Trace where
  headers : List Nat
  frames : List Frame
  reader : Cursor
  ending : ReceiveEnd
  deriving DecidableEq, Repr

def Frame.message (frame : Frame) : Cursor := frame.delivery.message

def Trace.reads (trace : Trace) : List (Nat × Nat) :=
  trace.headers.flatMap fun header => [(header, 8), (wrap (header + 8), 4), (wrap (header + 12), 4)]

def Trace.deliveries (trace : Trace) : List Delivery := trace.frames.map Frame.delivery

def receiveLoop (memory : Memory) : Nat → Cursor → Trace
  | 0, reader => ⟨[], [], reader, .outOfFuel⟩
  | fuel + 1, reader =>
      if reader.canAccess headerSize then
        let (messageId, behindId) := Cursor.read memory reader 8
        let (messageType, behindType) := Cursor.read memory behindId 4
        let (messageLength, body) := Cursor.read memory behindType 4
        if body.canAccess messageLength then
          let message := Cursor.ofLength body.pos messageLength
          let rest := receiveLoop memory fuel ((body.advance messageLength).align 8)
          { rest with
            headers := reader.pos :: rest.headers
            frames := ⟨reader.pos, UInt64.ofNat messageId, UInt32.ofNat messageType, message⟩ ::
              rest.frames }
        else ⟨[reader.pos], [], body, .invalidMessage⟩
      else ⟨[], [], reader, .finished⟩

/-- `onReceive` of a buffer without error. Where no pointer wraps around every round reads
a header of the buffer, so its length bounds the number of rounds. -/
def onReceive (memory : Memory) (buffer length : Nat) : Trace :=
  receiveLoop memory (length + 1) (Cursor.ofLength buffer length)

end Crossbow.Infinio.BatchingMessageSocket
