import Crossbow.InfinityVerbs.QueuePairFactory

/-! One handshake between `connectToRemoteHost` and `acceptIncomingConnection`, with any
user token or none on either side. The addresses and the token stores always arrive; the
user tokens do not, as the send buffer has flag and token exchanged. -/
namespace Crossbow.InfinityVerbs.Handshake
open Kernel QueuePairFactory

/-- Machine 0 is the client, which connects, and machine 1 the server, which accepts. -/
structure State extends Network where
  connector : Progress Connector
  acceptor : Progress Acceptor

/-- The side that moves, and what its device draws if it creates a queue pair. -/
inductive Label where
  | connector (draw : Draw)
  | acceptor (draw : Draw)
  deriving DecidableEq, Repr

def start : State where
  toNetwork := .idle
  connector := .running .called
  acceptor := .running .called

def next (client server : Host) (state : State) : Label → Option State
  | .connector draw =>
      match state.connector with
      | .running point =>
          (connectToRemoteHost client 0 1 draw state.toNetwork point).map fun (progress, network) =>
            { state with toNetwork := network, connector := progress }
      | .returned _ => none
  | .acceptor draw =>
      match state.acceptor with
      | .running point =>
          (acceptIncomingConnection server 1 draw state.toNetwork point).map
            fun (progress, network) => { state with toNetwork := network, acceptor := progress }
      | .returned _ => none

def machine (client server : Host) : Machine State Label where
  initial := fun state => state = start
  next := next client server

/-! ### Agreement -/

def Reached (near far : QueuePair) (context : Context) : Prop :=
  near.remote = some far.address ∧ near.remoteMemoryStore = context.memoryTokenStore

/-- `near` has the user token of `far`, and has none if `far` has none. -/
def TokenAgrees (near far : QueuePair) : Prop :=
  near.remoteUserTokenSet = far.localUserTokenSet ∧
    (near.remoteUserTokenSet = true → near.remoteUserToken = far.localUserToken)

instance (near far : QueuePair) (context : Context) : Decidable (Reached near far context) :=
  inferInstanceAs (Decidable (_ ∧ _))

instance (near far : QueuePair) : Decidable (TokenAgrees near far) :=
  inferInstanceAs (Decidable (_ ∧ _))

section Ends

variable (near far : Host) (nearDraw farDraw : Draw)

@[simp] theorem queuePair_remoteMemoryStore :
    (near.queuePair nearDraw).remoteMemoryStore = none := by
  unfold Host.queuePair newQueuePair
  split <;> rfl

@[simp] theorem queuePair_remoteUserTokenSet :
    (near.queuePair nearDraw).remoteUserTokenSet = false := by
  unfold Host.queuePair newQueuePair
  split <;> rfl

@[simp] theorem queuePair_localUserTokenSet :
    (near.queuePair nearDraw).localUserTokenSet = near.userTokenSet := by
  unfold Host.queuePair newQueuePair
  cases near.userTokenSet <;> rfl

theorem queuePair_localUserToken :
    (near.queuePair nearDraw).localUserToken =
      if near.userTokenSet then near.userToken else 2 ^ 32 - 1 := by
  unfold Host.queuePair newQueuePair
  split <;> rfl

@[simp] theorem establish_localUserTokenSet (queuePair : QueuePair)
    (buffer : SerializedQueuePair) :
    (establish queuePair buffer).localUserTokenSet = queuePair.localUserTokenSet := by
  unfold establish
  split <;> split <;> rfl

@[simp] theorem establish_localUserToken (queuePair : QueuePair)
    (buffer : SerializedQueuePair) :
    (establish queuePair buffer).localUserToken = queuePair.localUserToken := by
  unfold establish
  split <;> split <;> rfl

theorem establish_remoteUserTokenSet {queuePair : QueuePair}
    (hunset : queuePair.remoteUserTokenSet = false) (buffer : SerializedQueuePair) :
    (establish queuePair buffer).remoteUserTokenSet = buffer.userTokenSet := by
  unfold establish
  cases buffer.userTokenSet <;> cases buffer.memoryTokenStore <;> first | rfl | exact hunset

theorem establish_remoteUserToken (queuePair : QueuePair) {buffer : SerializedQueuePair}
    (hset : buffer.userTokenSet = true) :
    (establish queuePair buffer).remoteUserToken = buffer.userToken := by
  unfold establish
  cases buffer.memoryTokenStore <;> simp only [hset, if_true] <;> rfl

theorem result_reached :
    Reached (near.result far nearDraw farDraw) (far.result near farDraw nearDraw) far.context := by
  constructor
  · simp [Host.result, Host.sendBuffer, QueuePairFactory.sendBuffer]
  · exact establish_remoteMemoryStore _ _ (queuePair_remoteMemoryStore near nearDraw)

/-- The peer receives token 1 if the token is set and 0 if not, and takes it as set unless
the token is zero. -/
theorem result_tokenAgrees_iff :
    TokenAgrees (near.result far nearDraw farDraw) (far.result near farDraw nearDraw) ↔
      far.userTokenSet = true ∧ far.userToken = 1 := by
  have hflag : (near.result far nearDraw farDraw).remoteUserTokenSet =
      ((far.queuePair farDraw).localUserToken != 0) :=
    establish_remoteUserTokenSet (queuePair_remoteUserTokenSet near nearDraw) _
  have htoken (hset : (far.sendBuffer farDraw).userTokenSet = true) :
      (near.result far nearDraw farDraw).remoteUserToken =
        if (far.queuePair farDraw).localUserTokenSet then 1 else 0 :=
    establish_remoteUserToken _ hset
  have hsent : (far.sendBuffer farDraw).userTokenSet =
      ((far.queuePair farDraw).localUserToken != 0) := rfl
  rw [hsent] at htoken
  unfold TokenAgrees
  rw [hflag, show (far.result near farDraw nearDraw).localUserTokenSet = far.userTokenSet by
      simp [Host.result],
    show (far.result near farDraw nearDraw).localUserToken = (far.queuePair farDraw).localUserToken
      by simp [Host.result]]
  rw [queuePair_localUserTokenSet] at htoken
  rw [queuePair_localUserToken] at htoken ⊢
  cases hset : far.userTokenSet with
  | false => simp
  | true =>
      rw [hset] at htoken
      simp only [if_true, bne_iff_ne, ne_eq] at htoken ⊢
      by_cases hzero : far.userToken = 0
      · simp [hzero]
      · simp [hzero, htoken hzero, eq_comm]

end Ends

/-! ### Runs -/

/-- What the two sides of a handshake can see: the calls, the backlog of the server, and the
structs under way on the connection. -/
structure Seen where
  connector : Progress Connector
  acceptor : Progress Acceptor
  backlog : List Nat
  request : Option SerializedQueuePair
  reply : Option SerializedQueuePair

def State.seen (state : State) : Seen where
  connector := state.connector
  acceptor := state.acceptor
  backlog := state.backlog 1
  request := state.request 0
  reply := state.reply 0

/-- Every state of a handshake, from the two calls on. -/
inductive Stage (client server : Host) : Seen → Prop where
  | called : Stage client server ⟨.running .called, .running .called, [], none, none⟩
  | opened : Stage client server ⟨.running .opened, .running .called, [0], none, none⟩
  | accepted : Stage client server ⟨.running .opened, .running (.receiving 0), [], none, none⟩
  | requested (draw : Draw) :
      Stage client server
        ⟨.running (.sent (client.queuePair draw)), .running .called, [0],
          some (client.sendBuffer draw), none⟩
  | receiving (draw : Draw) :
      Stage client server
        ⟨.running (.sent (client.queuePair draw)), .running (.receiving 0), [],
          some (client.sendBuffer draw), none⟩
  | replied (draw serverDraw : Draw) :
      Stage client server
        ⟨.running (.sent (client.queuePair draw)),
          .running (.replying (server.queuePair serverDraw) (client.sendBuffer draw)), [], none,
          some (server.sendBuffer serverDraw)⟩
  | serverReturned (draw serverDraw : Draw) :
      Stage client server
        ⟨.running (.sent (client.queuePair draw)),
          .returned (server.result client serverDraw draw), [], none,
          some (server.sendBuffer serverDraw)⟩
  | clientReturned (draw serverDraw : Draw) :
      Stage client server
        ⟨.returned (client.result server draw serverDraw),
          .running (.replying (server.queuePair serverDraw) (client.sendBuffer draw)), [], none,
          none⟩
  | completed (draw serverDraw : Draw) :
      Stage client server
        ⟨.returned (client.result server draw serverDraw),
          .returned (server.result client serverDraw draw), [], none, none⟩

section Runs

variable {client server : Host} {state after : State}

theorem Stage.connect (hstage : Stage client server state.seen) {draw : Draw}
    (hnext : next client server state (.connector draw) = some after) :
    Stage client server after.seen := by
  generalize hseen : state.seen = seen at hstage
  cases hstage <;> simp only [State.seen, Seen.mk.injEq] at hseen <;>
    obtain ⟨hconnector, hacceptor, hbacklog, hrequest, hreply⟩ := hseen <;>
    simp only [next, connectToRemoteHost, hconnector, hbacklog, hreply, Option.map_some,
      Option.map_none, Option.some.injEq, reduceCtorEq] at hnext <;>
    subst hnext <;>
    simp only [State.seen, Function.update_self, hacceptor, hbacklog, hrequest, hreply]
  case called => exact .opened
  case opened => exact .requested draw
  case accepted => exact .receiving draw
  case replied first second => exact .clientReturned first second
  case serverReturned first second => exact .completed first second

theorem Stage.accept (hstage : Stage client server state.seen) {draw : Draw}
    (hnext : next client server state (.acceptor draw) = some after) :
    Stage client server after.seen := by
  generalize hseen : state.seen = seen at hstage
  cases hstage <;> simp only [State.seen, Seen.mk.injEq] at hseen <;>
    obtain ⟨hconnector, hacceptor, hbacklog, hrequest, hreply⟩ := hseen <;>
    simp only [next, acceptIncomingConnection, hacceptor, hbacklog, hrequest, Option.map_some,
      Option.map_none, Option.some.injEq, reduceCtorEq] at hnext <;>
    subst hnext <;>
    simp only [State.seen, Function.update_self, hconnector, hbacklog, hrequest, hreply]
  case opened => exact .accepted
  case requested first => exact .receiving first
  case receiving first => exact .replied first draw
  case replied first second => exact .serverReturned first second
  case clientReturned first second => exact .completed first second

theorem stage_of_reachable (hreach : (machine client server).Reachable state) :
    Stage client server state.seen := by
  refine hreach.invariant (fun state => Stage client server state.seen) ?_ ?_
  · rintro _ rfl
    exact .called
  · intro state label after hstage _ hnext
    cases label with
    | connector draw => exact Stage.connect hstage hnext
    | acceptor draw => exact Stage.accept hstage hnext

/-- A handshake never gets stuck before both sides have returned. -/
theorem completed_of_stuck (hreach : (machine client server).Reachable state)
    (hstuck : ∀ label, (machine client server).next state label = none) :
    ∃ near far, state.connector = .returned near ∧ state.acceptor = .returned far := by
  have hconnector := hstuck (.connector ⟨0, 0⟩)
  have hacceptor := hstuck (.acceptor ⟨0, 0⟩)
  have hstage := stage_of_reachable hreach
  generalize hseen : state.seen = seen at hstage
  cases hstage <;> simp only [State.seen, Seen.mk.injEq] at hseen <;>
    simp_all [machine, next, connectToRemoteHost, acceptIncomingConnection]

theorem completed_reachable (client server : Host) (draw serverDraw : Draw) :
    ∃ state, (machine client server).Reachable state ∧
      state.connector = .returned (client.result server draw serverDraw) ∧
      state.acceptor = .returned (server.result client serverDraw draw) :=
  ⟨_, ⟨start, rfl, Machine.path_of_replay (fun _ _ _ => trivial)
    (show (machine client server).replay (fun _ _ => true) start
      [.connector draw, .acceptor draw, .connector draw, .acceptor serverDraw,
        .acceptor serverDraw, .connector draw] = some _ from rfl)⟩, rfl, rfl⟩

end Runs

/-- When both calls have returned, each side has the address and the token store of the
other. Both also have the other's user token, or none if there is none, if and only if
both tokens are set to 1. -/
theorem handshake_agrees_iff (client server : Host) (state : State)
    (hreach : (machine client server).Reachable state) (near far : QueuePair)
    (hnear : state.connector = .returned near) (hfar : state.acceptor = .returned far) :
    (Reached near far server.context ∧ Reached far near client.context) ∧
      ((TokenAgrees near far ∧ TokenAgrees far near) ↔
        (client.userTokenSet = true ∧ client.userToken = 1) ∧
          server.userTokenSet = true ∧ server.userToken = 1) := by
  have hstage := stage_of_reachable hreach
  generalize hseen : state.seen = seen at hstage
  cases hstage <;>
    simp only [State.seen, Seen.mk.injEq, hnear, hfar, Progress.returned.injEq, reduceCtorEq,
      false_and, and_false] at hseen
  case completed draw serverDraw =>
    obtain ⟨rfl, rfl, _⟩ := hseen
    refine ⟨⟨result_reached client server draw serverDraw,
      result_reached server client serverDraw draw⟩, ?_⟩
    rw [result_tokenAgrees_iff, result_tokenAgrees_iff]
    exact and_comm

def sampleHost (userToken : Nat) (userTokenSet : Bool) : Host :=
  ⟨⟨3, some ⟨4096, 17, 64⟩, ⟨1, 2⟩⟩, userToken, userTokenSet⟩

/-- Two hosts whose tokens are both 1 agree. -/
theorem ones_agree :
    TokenAgrees ((sampleHost 1 true).result (sampleHost 1 true) ⟨5, 6⟩ ⟨7, 8⟩)
      ((sampleHost 1 true).result (sampleHost 1 true) ⟨7, 8⟩ ⟨5, 6⟩) := by
  obtain ⟨state, hreach, hnear, hfar⟩ :=
    completed_reachable (sampleHost 1 true) (sampleHost 1 true) ⟨5, 6⟩ ⟨7, 8⟩
  exact ((handshake_agrees_iff (sampleHost 1 true) (sampleHost 1 true) state hreach _ _ hnear
    hfar).2.mpr (by decide)).1

/-- A client with token 5 and a server without one. The server gets token 1, and the client
takes the server's token for set. -/
theorem tokens_disagree :
    ∃ state near far, (machine (sampleHost 5 true) (sampleHost 0 false)).Reachable state ∧
      state.connector = .returned near ∧ state.acceptor = .returned far ∧
      near.localUserToken = 5 ∧ far.remoteUserToken = 1 ∧ ¬ TokenAgrees far near ∧
      far.localUserTokenSet = false ∧ near.remoteUserTokenSet = true ∧ ¬ TokenAgrees near far := by
  obtain ⟨state, hreach, hnear, hfar⟩ :=
    completed_reachable (sampleHost 5 true) (sampleHost 0 false) ⟨5, 6⟩ ⟨7, 8⟩
  exact ⟨state, _, _, hreach, hnear, hfar, by decide, by decide, by decide, by decide, by decide,
    by decide⟩

end Crossbow.InfinityVerbs.Handshake
