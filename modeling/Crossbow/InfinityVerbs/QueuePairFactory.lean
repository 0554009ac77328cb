import Crossbow.Kernel.Machine

/-! Queue pairs and `connectAllToAll`. Every machine accepts connections from the
lower ids, which it numbers by arrival, then connects to the higher ids from the
last one down, and checks the user tokens at the end. The handshake exchanges one
struct in each direction over a TCP connection. -/
namespace Crossbow.InfinityVerbs.QueuePairFactory
open Kernel

/-! ### Queue pairs -/

structure Address where
  localDeviceId : Nat
  queuePairNumber : Nat
  sequenceNumber : Nat
  deriving DecidableEq, Repr

structure MemoryTokenStore where
  storeAddress : Nat
  storeKey : Nat
  storeSize : Nat
  deriving DecidableEq, Repr

structure QueuePair where
  address : Address
  remote : Option Address
  localUserTokenSet : Bool
  localUserToken : Nat
  remoteUserTokenSet : Bool
  remoteUserToken : Nat
  remoteMemoryStore : Option MemoryTokenStore
  deriving DecidableEq, Repr

/-- What the device gives to a new queue pair, and the random first sequence number. -/
structure Draw where
  queuePairNumber : Nat
  sequenceNumber : Nat
  deriving DecidableEq, Repr

/-- An initialised context. Its loopback queue pair was created with `loopBack`. -/
structure Context where
  deviceId : Nat
  memoryTokenStore : Option MemoryTokenStore
  loopBack : Draw
  deriving DecidableEq, Repr

def QueuePair.create (context : Context) (draw : Draw) : QueuePair where
  address := ⟨context.deviceId, draw.queuePairNumber, draw.sequenceNumber⟩
  remote := none
  localUserTokenSet := false
  localUserToken := 2 ^ 32 - 1
  remoteUserTokenSet := false
  remoteUserToken := 2 ^ 32 - 1
  remoteMemoryStore := none

def QueuePair.activate (queuePair : QueuePair) (remote : Address) : QueuePair :=
  { queuePair with remote := some remote }

def QueuePair.setLocalUserToken (queuePair : QueuePair) (userToken : Nat) : QueuePair :=
  { queuePair with localUserToken := userToken, localUserTokenSet := true }

def QueuePair.setRemoteUserToken (queuePair : QueuePair) (userToken : Nat) : QueuePair :=
  { queuePair with remoteUserToken := userToken, remoteUserTokenSet := true }

def QueuePair.activateRemoteMemoryTokenStore (queuePair : QueuePair)
    (store : MemoryTokenStore) : QueuePair :=
  { queuePair with remoteMemoryStore := some store }

/-! ### The handshake -/

/-- `serializedQueuePair`; the last field is present when `memoryTokenStoreActive` is. -/
structure SerializedQueuePair where
  address : Address
  userToken : Nat
  userTokenSet : Bool
  memoryTokenStore : Option MemoryTokenStore
  deriving DecidableEq, Repr

structure Host where
  context : Context
  userToken : Nat
  userTokenSet : Bool
  deriving DecidableEq, Repr

def newQueuePair (context : Context) (draw : Draw) (userToken : Nat) (userTokenSet : Bool) :
    QueuePair :=
  if userTokenSet then (QueuePair.create context draw).setLocalUserToken userToken
  else QueuePair.create context draw

/-- The send buffer. The source assigns the flag to the token and the token to the
flag. -/
def sendBuffer (context : Context) (queuePair : QueuePair) : SerializedQueuePair where
  address := queuePair.address
  userToken := if queuePair.localUserTokenSet then 1 else 0
  userTokenSet := queuePair.localUserToken != 0
  memoryTokenStore := context.memoryTokenStore

def establish (queuePair : QueuePair) (receiveBuffer : SerializedQueuePair) : QueuePair :=
  let activated := queuePair.activate receiveBuffer.address
  let marked :=
    if receiveBuffer.userTokenSet then activated.setRemoteUserToken receiveBuffer.userToken
    else activated
  match receiveBuffer.memoryTokenStore with
  | some store => marked.activateRemoteMemoryTokenStore store
  | none => marked

def Host.queuePair (host : Host) (draw : Draw) : QueuePair :=
  newQueuePair host.context draw host.userToken host.userTokenSet

def Host.sendBuffer (host : Host) (draw : Draw) : SerializedQueuePair :=
  QueuePairFactory.sendBuffer host.context (host.queuePair draw)

/-- The queue pair that a side returns to which the other one sent its buffer. -/
def Host.result (near far : Host) (nearDraw farDraw : Draw) : QueuePair :=
  establish (near.queuePair nearDraw) (far.sendBuffer farDraw)

/-- The TCP connections between numbered machines. A machine has one outgoing connection
at a time. `request` and `reply` are the structs under way on it, from and to its owner, and
`backlog` are the callers that wait for `accept`. -/
structure Network where
  backlog : Nat → List Nat
  request : Nat → Option SerializedQueuePair
  reply : Nat → Option SerializedQueuePair

def Network.idle : Network where
  backlog := fun _ => []
  request := fun _ => none
  reply := fun _ => none

/-- In front of `connect`, after it, and in `recv` after `send`. -/
inductive Connector where
  | called
  | opened
  | sent (queuePair : QueuePair)
  deriving DecidableEq, Repr

/-- In front of `accept`, in the `recv` on the accepted connection, and after `send`. -/
inductive Acceptor where
  | called
  | receiving (caller : Nat)
  | replying (queuePair : QueuePair) (receiveBuffer : SerializedQueuePair)
  deriving DecidableEq, Repr

/-- A call that has not returned, or its result. -/
inductive Progress (Point : Type) where
  | running (point : Point)
  | returned (queuePair : QueuePair)
  deriving DecidableEq, Repr

/-- The steps of `connectToRemoteHost`. The server socket of every machine listens, so that
`connect` succeeds and puts the connection at the end of the backlog over there. -/
def connectToRemoteHost (host : Host) (machine remote : Nat) (draw : Draw) (network : Network) :
    Connector → Option (Progress Connector × Network)
  | .called =>
      some (.running .opened, { network with
        backlog := Function.update network.backlog remote (network.backlog remote ++ [machine]) })
  | .opened =>
      some (.running (.sent (host.queuePair draw)), { network with
        request := Function.update network.request machine (some (host.sendBuffer draw)) })
  | .sent queuePair =>
      (network.reply machine).map fun receiveBuffer =>
        (.returned (establish queuePair receiveBuffer), { network with
          reply := Function.update network.reply machine none })

def acceptIncomingConnection (host : Host) (machine : Nat) (draw : Draw) (network : Network) :
    Acceptor → Option (Progress Acceptor × Network)
  | .called =>
      match network.backlog machine with
      | [] => none
      | caller :: rest =>
          some (.running (.receiving caller), { network with
            backlog := Function.update network.backlog machine rest })
  | .receiving caller =>
      (network.request caller).map fun receiveBuffer =>
        (.running (.replying (host.queuePair draw) receiveBuffer), { network with
          request := Function.update network.request caller none
          reply := Function.update network.reply caller (some (host.sendBuffer draw)) })
  | .replying queuePair receiveBuffer =>
      some (.returned (establish queuePair receiveBuffer), network)

def createLoopback (context : Context) (draw : Draw) (userToken : Nat) (userTokenSet : Bool) :
    QueuePair :=
  let created := QueuePair.create context draw
  let activated := created.activate created.address
  let marked :=
    if userTokenSet then (activated.setLocalUserToken userToken).setRemoteUserToken userToken
    else activated
  match context.memoryTokenStore with
  | some store => marked.activateRemoteMemoryTokenStore store
  | none => marked

/-- `Context::initialize` calls `createLoopback()`. -/
def Context.loopBackQueuePair (context : Context) : QueuePair :=
  createLoopback context context.loopBack 0 false

def tokenMatches (queuePair : QueuePair) (i : Nat) : Bool :=
  queuePair.remoteUserTokenSet && queuePair.remoteUserToken == i

section Handshake

variable (queuePair : QueuePair) (buffer : SerializedQueuePair)

@[simp] theorem establish_address : (establish queuePair buffer).address = queuePair.address := by
  unfold establish
  split <;> split <;> rfl

@[simp] theorem establish_remote : (establish queuePair buffer).remote = some buffer.address := by
  unfold establish
  split <;> split <;> rfl

theorem establish_remoteMemoryStore (hnone : queuePair.remoteMemoryStore = none) :
    (establish queuePair buffer).remoteMemoryStore = buffer.memoryTokenStore := by
  unfold establish
  cases buffer.memoryTokenStore with
  | some store => rfl
  | none => split <;> exact hnone

theorem establish_tokenMatches (hunset : queuePair.remoteUserTokenSet = false) (i : Nat) :
    tokenMatches (establish queuePair buffer) i =
      (buffer.userTokenSet && buffer.userToken == i) := by
  unfold establish
  cases hflag : buffer.userTokenSet <;> cases buffer.memoryTokenStore <;>
    simp [tokenMatches, hunset, QueuePair.activate, QueuePair.setRemoteUserToken,
      QueuePair.activateRemoteMemoryTokenStore]

end Handshake

def Fresh (context : Context) (token : Nat) (queuePair : QueuePair) : Prop :=
  ∃ draw, queuePair = newQueuePair context draw token true

theorem tokenMatches_handshake {context peerContext : Context} {token peerToken : Nat}
    {near far : QueuePair} (hnear : Fresh context token near)
    (hfar : Fresh peerContext peerToken far) (i : Nat) :
    tokenMatches (establish near (sendBuffer peerContext far)) i = true ↔
      peerToken ≠ 0 ∧ i = 1 := by
  obtain ⟨draw, rfl⟩ := hnear
  obtain ⟨peerDraw, rfl⟩ := hfar
  rw [establish_tokenMatches _ _ rfl]
  simp only [sendBuffer, newQueuePair, QueuePair.setLocalUserToken, if_true, Bool.and_eq_true,
    bne_iff_ne, beq_iff_eq]
  rw [eq_comm (a := 1)]

theorem tokenMatches_loopBack (context : Context) (i : Nat) :
    tokenMatches context.loopBackQueuePair i = false := by
  unfold Context.loopBackQueuePair createLoopback
  cases context.memoryTokenStore <;> rfl

theorem loopBack_remote (context : Context) :
    context.loopBackQueuePair.remote = some context.loopBackQueuePair.address := by
  unfold Context.loopBackQueuePair createLoopback
  cases context.memoryTokenStore <;> rfl

theorem loopBack_deviceId (context : Context) :
    context.loopBackQueuePair.address.localDeviceId = context.deviceId := by
  unfold Context.loopBackQueuePair createLoopback
  cases context.memoryTokenStore <;> rfl

theorem loopBack_remoteMemoryStore (context : Context) :
    context.loopBackQueuePair.remoteMemoryStore = context.memoryTokenStore := by
  unfold Context.loopBackQueuePair createLoopback
  cases context.memoryTokenStore <;> rfl

/-! ### All machines -/

/-- Where a machine stands in `connectAllToAll`: in the call for index `i` of the first or of
the second loop, with the test of the loop made together with the first step of the call;
in the last loop, and after it. -/
inductive Phase where
  | accepting (i : Nat) (call : Acceptor)
  | connecting (i : Nat) (call : Connector)
  | checking (i : Nat)
  | exited (i : Nat)
  | returned
  deriving DecidableEq, Repr

structure State extends Network where
  phase : Nat → Phase
  queuePairs : Nat → Nat → Option QueuePair

/-- The machine that moves, and what its device draws if it creates a queue pair. -/
structure Label where
  machine : Nat
  draw : Draw
  deriving DecidableEq, Repr

def State.goto (state : State) (machine : Nat) (phase : Phase) : State :=
  { state with phase := Function.update state.phase machine phase }

def State.store (state : State) (machine i : Nat) (queuePair : QueuePair) : State :=
  { state with
    queuePairs := Function.update state.queuePairs machine
      (Function.update (state.queuePairs machine) i (some queuePair)) }

/-- The call for index `i` goes on, or its result is stored and the loop goes on. -/
def State.resume {Point : Type} (state : State) (machine i : Nat) (inside : Point → Phase)
    (behind : Phase) : Progress Point × Network → State
  | (.running point, network) =>
      { state.goto machine (inside point) with toNetwork := network }
  | (.returned queuePair, network) =>
      { (state.store machine i queuePair).goto machine behind with toNetwork := network }

/-- The steps of one machine. Entry `i` of the host and port tables is the server socket of
machine `i`. -/
def move (contexts : Nat → Context) (count : Nat) (state : State) (machine : Nat) (draw : Draw) :
    Phase → Option State
  | .accepting i call =>
      if call = .called ∧ machine ≤ i then
        some (state.goto machine (.connecting (count - 1) .called))
      else
        (acceptIncomingConnection ⟨contexts machine, machine, true⟩ machine draw state.toNetwork
          call).map (state.resume machine i (.accepting i) (.accepting (i + 1) .called))
  | .connecting i call =>
      if call = .called ∧ i ≤ machine then
        some ((state.store machine machine (contexts machine).loopBackQueuePair).goto machine
          (.checking 0))
      else
        (connectToRemoteHost ⟨contexts machine, machine, true⟩ machine i draw state.toNetwork
          call).map (state.resume machine i (.connecting i) (.connecting (i - 1) .called))
  | .checking i =>
      if i < count then
        (state.queuePairs machine i).map fun queuePair =>
          if tokenMatches queuePair i then state.goto machine (.checking (i + 1))
          else state.goto machine (.exited i)
      else some (state.goto machine .returned)
  | .exited _ => none
  | .returned => none

def next (contexts : Nat → Context) (count : Nat) (state : State) (label : Label) :
    Option State :=
  if label.machine < count then
    move contexts count state label.machine label.draw (state.phase label.machine)
  else none

def start : State where
  toNetwork := .idle
  phase := fun _ => .accepting 0 .called
  queuePairs := fun _ _ => none

def machine (contexts : Nat → Context) (count : Nat) : Machine State Label where
  initial := fun state => state = start
  next := next contexts count

end Crossbow.InfinityVerbs.QueuePairFactory
