import Crossbow.Kernel.Follows
import Crossbow.Protocol.Calls
import Crossbow.Protocol.Server

/-! A client and a server at the two ends of a connection. The client issues typed calls,
the server decodes each request, lets the implementation compute the result and encodes
it, and the client passes what it decodes to the callback. Both sockets cut the streams
as they like. -/
namespace Crossbow.Protocol.Session
open Kernel Serializer

/-- The commands with their signatures, all of them with a result, and the implementation.
`select` is the switch over the command ids. -/
structure Service (Command : Type) where
  Arguments : Command → Type
  Result : Command → Type
  id : Command → Nat
  pack : (command : Command) → Pack (Arguments command)
  code : (command : Command) → Code .type (Result command)
  execute : (command : Command) → Arguments command → Result command
  select : Nat → Option Command
  id_lt : ∀ command, id command < 2 ^ 32
  select_id : ∀ command, select (id command) = some command

variable {Command : Type}

namespace Service

abbrev Call (service : Service Command) := Sigma service.Arguments

abbrev Reply (service : Service Command) := Sigma service.Result

/-- The request that `Client::execute` sends; `memory` is its buffer. -/
def request (service : Service Command) (call : service.Call) (memory : Memory) : List UInt8 :=
  requestFrame (service.pack call.1) (service.id call.1) call.2 memory 0

/-- `execute_impl` and the deserialization in `Server::execute`. -/
def dispatch (service : Service Command) (mBuffer : Memory) : Option service.Call :=
  (service.select (decodeLE (load mBuffer 8 4))).map fun command =>
    ⟨command, (service.pack command).elements (readArguments (service.pack command) mBuffer 0).1⟩

def reply (service : Service Command) (command : Command) (mCurrentRequest : Memory) :
    service.Reply :=
  ⟨command, (deserialize (service.code command) (service.code command).fresh
    mCurrentRequest 8).1⟩

end Service

/-- `executing` is the call that the implementation has not answered yet. The other lists
are histories: the calls that were issued, those that were executed, the responses and
the results that were passed to the callbacks. -/
structure State (service : Service Command) where
  client : Calling.State
  server : Serving.State
  executing : Option service.Call
  issued : List service.Call
  executed : List service.Call
  responses : List (List UInt8)
  results : List service.Reply

inductive Label (service : Service Command) where
  | execute (call : service.Call) (fresh : Memory)
  | clientWritten (fresh : Memory)
  | clientDeliver (count : Nat) (fresh : Memory)
  | serverDeliver (count : Nat) (fresh : Memory)
  | answer (fresh : Memory)
  | serverWritten (fresh : Memory)
  | quit

variable {service : Service Command}

def State.replies (state : State service) (client : Calling.State) : List service.Reply :=
  (client.callbacks.drop state.client.callbacks.length).filterMap fun call =>
    state.issued[call]?.map fun issued =>
      service.reply issued.1 client.client.mCurrentRequest

def State.execute (state : State service) (call : service.Call) (fresh : Memory) :
    Option (State service) :=
  let client := state.client.client
  let grows := client.mCurrSize < requestSize (service.pack call.1) (service.id call.1) call.2
  let frame := service.request call (if grows then fresh else client.mCurrentRequest)
  (Calling.next state.client (.execute false frame fresh)).map fun client =>
    { state with
      client := client
      server := { state.server with
        stream := state.server.stream ++ frame
        sent := state.server.sent ++ [frame] }
      issued := state.issued ++ [call] }

def State.serverDeliver (state : State service) (count : Nat) (fresh : Memory) :
    Option (State service) :=
  (Serving.next state.server (.deliver count fresh)).map fun server =>
    match server.server.phase with
    | .executing =>
        let call := service.dispatch server.server.mBuffer
        { state with
          server := server
          executing := call
          executed := state.executed ++ call.toList }
    | _ => { state with server := server }

def State.answer (state : State service) (fresh : Memory) : Option (State service) :=
  match state.executing with
  | none => none
  | some call =>
      let code := service.code call.1
      let value := service.execute call.1 call.2
      let size := Calling.responseSize code value
      let server := state.server.server
      let frame := Calling.responseFrame code value
        (if server.mBufSize < size then fresh else server.mBuffer) 0
      (Serving.next state.server (.respond size (code.encode value) fresh)).map fun server =>
        { state with
          client := { state.client with
            stream := state.client.stream ++ frame
            responded := state.client.responded + 1 }
          server := server
          executing := none
          responses := state.responses ++ [frame] }

def next (state : State service) : Label service → Option (State service)
  | .execute call fresh => state.execute call fresh
  | .clientWritten fresh =>
      (Calling.next state.client (.written fresh)).map fun client => { state with client := client }
  | .clientDeliver count fresh =>
      (Calling.next state.client (.deliver count fresh)).map fun client =>
        { state with client := client, results := state.results ++ state.replies client }
  | .serverDeliver count fresh => state.serverDeliver count fresh
  | .answer fresh => state.answer fresh
  | .serverWritten fresh =>
      (Serving.next state.server (.written fresh)).map fun server => { state with server := server }
  | .quit =>
      (Serving.next state.server .quit).map fun server => { state with server := server }

def start (service : Service Command) (mCurrentRequest mBuffer : Memory) : State service where
  client := Calling.start mCurrentRequest
  server := Serving.start mBuffer
  executing := none
  issued := []
  executed := []
  responses := []
  results := []

def machine (service : Service Command) : Machine (State service) (Label service) where
  initial := fun state => ∃ mCurrentRequest mBuffer, state = start service mCurrentRequest mBuffer
  next := next

end Crossbow.Protocol.Session
