import Crossbow.Infinio.FlushSchedule
import Crossbow.Kernel.Pool

/-! The send buffers of a completion context. Sockets take a buffer id from a stack, a
posted send carries it in its work request id, and the completion puts it back. The
sockets are those of the batching model, here with the id of their buffer. -/
namespace Crossbow.Infinio.SendBufferPool
open Kernel BatchingMessageSocket

inductive WorkType where
  | unknown
  | receive
  | send
  | read
  | write
  deriving DecidableEq, Repr

def WorkType.code : WorkType → Nat
  | .unknown => 0
  | .receive => 1
  | .send => 2
  | .read => 3
  | .write => 4

namespace WorkRequestId

def buildId (userId bufferId : Nat) (type : WorkType) : Nat :=
  (userId <<< 32) ||| (bufferId <<< 16) ||| type.code

def userId (id : Nat) : Nat := (id >>> 32) % 2 ^ 32

def bufferId (id : Nat) : Nat := (id >>> 16) &&& 0xFFFF

def workType (id : Nat) : WorkType :=
  match id &&& 0xFFFF with
  | 1 => .receive
  | 2 => .send
  | 3 => .read
  | 4 => .write
  | _ => .unknown

theorem buildId_eq {bufferId : Nat} (userId : Nat) (hbuffer : bufferId < 2 ^ 16)
    (type : WorkType) :
    buildId userId bufferId type = 2 ^ 16 * (2 ^ 16 * userId + bufferId) + type.code := by
  have hcode : type.code < 2 ^ 16 := by cases type <;> decide
  unfold buildId
  rw [Nat.two_pow_add_eq_or_of_lt hcode, Nat.two_pow_add_eq_or_of_lt hbuffer,
    show 32 = 16 + 16 from rfl, Nat.shiftLeft_add, ← Nat.shiftLeft_or_distrib, Nat.shiftLeft_eq,
    Nat.shiftLeft_eq, Nat.mul_comm userId, Nat.mul_comm _ (2 ^ 16)]

theorem bufferId_buildId {buffer : Nat} (userId : Nat) (hbuffer : buffer < 2 ^ 16)
    (type : WorkType) : bufferId (buildId userId buffer type) = buffer := by
  have hcode : type.code < 2 ^ 16 := by cases type <;> decide
  unfold bufferId
  rw [buildId_eq userId hbuffer, Nat.shiftRight_eq_div_pow,
    show 0xFFFF = 2 ^ 16 - 1 from rfl, Nat.and_two_pow_sub_one_eq_mod]
  omega

theorem workType_buildId {buffer : Nat} (userId : Nat) (hbuffer : buffer < 2 ^ 16)
    (type : WorkType) : workType (buildId userId buffer type) = type := by
  have hcode : buildId userId buffer type &&& 0xFFFF = type.code := by
    have hlt : type.code < 2 ^ 16 := by cases type <;> decide
    rw [buildId_eq userId hbuffer, show 0xFFFF = 2 ^ 16 - 1 from rfl,
      Nat.and_two_pow_sub_one_eq_mod]
    omega
  unfold workType
  rw [hcode]
  cases type <;> rfl

end WorkRequestId

structure Limits where
  sendBufferCount : Nat
  bufferLength : Nat
  addr : Nat
  lkey : Nat

def invalidId : Nat := 65535

/-- A batching socket with what else its `mBuffer` holds, and its queue pair. -/
structure Socket where
  state : State
  bufferId : Nat
  lkey : Nat
  qpNum : Nat

structure Post where
  wrId : Nat
  qpNum : Nat
  deriving DecidableEq, Repr

structure Context (Sock : Type) where
  sendBufferQueue : List Nat
  sockets : Sock → Socket
  socketMap : Nat → Option Sock
  posts : List Post

/-- The buffer that `LocalMemoryRegion::acquireBuffer` describes. -/
def Limits.buffer (limits : Limits) (id : Nat) : Buffer :=
  ⟨limits.addr + id * limits.bufferLength, limits.bufferLength⟩

/-- `acquireSendBuffer()`: the id of the buffer and the stack afterwards. -/
def acquireSendBuffer (limits : Limits) : List Nat → Nat × List Nat
  | [] => (invalidId, [])
  | id :: rest =>
      if id * limits.bufferLength + limits.bufferLength >
          limits.sendBufferCount * limits.bufferLength then (invalidId, rest)
      else (id, rest)

def releaseId (id : Nat) (queue : List Nat) : List Nat :=
  if id = invalidId then queue else id :: queue

/-- `releaseSendBuffer(InfinibandBuffer&)` for the buffer of a socket. -/
def releaseSendBuffer (limits : Limits) (socket : Socket) (queue : List Nat) : List Nat :=
  if socket.lkey = limits.lkey then releaseId socket.bufferId queue else queue

variable {Sock : Type} [DecidableEq Sock]

def Context.put (context : Context Sock) (sock : Sock) (socket : Socket) : Context Sock :=
  { context with sockets := Function.update context.sockets sock socket }

def Socket.invalidate (socket : Socket) (state : State) : Socket :=
  { socket with state := state, bufferId := invalidId, lkey := 0 }

def Context.sendCurrentBuffer (limits : Limits) (context : Context Sock) (sock : Sock)
    (sendFails : Bool) : Context Sock × Bool :=
  let socket := context.sockets sock
  if socket.bufferId = invalidId then (context, false)
  else
    let after := socket.invalidate
      (BatchingMessageSocket.sendCurrentBuffer sendFails socket.state).1
    if sendFails then
      ({ context.put sock after with
        sendBufferQueue := releaseSendBuffer limits socket context.sendBufferQueue }, true)
    else
      ({ context.put sock after with
        posts := context.posts ++
          [⟨WorkRequestId.buildId 0 socket.bufferId .send, socket.qpNum⟩] }, false)

omit [DecidableEq Sock] in
/-- The buffer that a call of `acquireSendBuffer` would return now. -/
def Context.offered (limits : Limits) (context : Context Sock) : Option Buffer :=
  let id := (acquireSendBuffer limits context.sendBufferQueue).1
  if id = invalidId then none else some (limits.buffer id)

def Context.acquire (limits : Limits) (context : Context Sock) (sock : Sock) (call : Call) :
    Context Sock × Option Error :=
  let socket := context.sockets sock
  let (id, queue) := acquireSendBuffer limits context.sendBufferQueue
  let (state, error) := BatchingMessageSocket.acquire socket.state
    { call with acquired := context.offered limits }
  ({ context.put sock { socket with
      state := state
      bufferId := id
      lkey := if id = invalidId then 0 else limits.lkey } with
    sendBufferQueue := queue }, error)

def Context.makeRoom (limits : Limits) (maxBatchSize : Nat) (context : Context Sock) (sock : Sock)
    (call : Call) : Context Sock × Option Error :=
  let socket := context.sockets sock
  if socket.state.sendBuffer.canAccess call.frameLength = false ∨
      maxBatchSize ≤ socket.state.batchSize then
    if socket.bufferId ≠ invalidId ∧ socket.state.sendBuffer.pos = socket.state.base then
      (context, some .messageTooBig)
    else
      match context.sendCurrentBuffer limits sock call.sendFails with
      | (context, true) => (context, some .sendFailed)
      | (context, false) => context.acquire limits sock call
  else (context, none)

def Context.writeMessage (limits : Limits) (maxBatchSize : Nat) (context : Context Sock)
    (sock : Sock) (call : Call) : Context Sock :=
  match context.makeRoom limits maxBatchSize sock call with
  | (context, some _) => context
  | (context, none) =>
      let socket := context.sockets sock
      context.put sock { socket with
        state := (writeFrame socket.state call.id call.type call.length call.callback).1 }

/-- `mFlush = false` at the start of the flush task. -/
def Socket.beginFlush (socket : Socket) : Socket :=
  { socket with
    state := { socket.state with flush := false, flushTasks := socket.state.flushTasks - 1 } }

/-- The rest of the flush task: an empty buffer goes back, another one is sent. -/
def Context.flushBuffer (limits : Limits) (context : Context Sock) (sock : Sock)
    (sendFails : Bool) : Context Sock :=
  let socket := context.sockets sock
  if socket.bufferId = invalidId then context
  else if socket.state.sendBuffer.pos = socket.state.base then
    { context.put sock (socket.invalidate socket.state.dropBuffer) with
      sendBufferQueue := releaseSendBuffer limits socket context.sendBufferQueue }
  else
    match context.sendCurrentBuffer limits sock sendFails with
    | (context, true) =>
        let socket := context.sockets sock
        context.put sock { socket with
          state := { socket.state with handled := socket.state.handled + 1 } }
    | (context, false) => context

def Context.flushTask (limits : Limits) (context : Context Sock) (sock : Sock)
    (sendFails : Bool) : Context Sock :=
  (context.put sock (context.sockets sock).beginFlush).flushBuffer limits sock sendFails

/-- `processWorkComplete`. For a known queue pair `onSend` runs first and handles a
failed status; the receive, read and write cases leave the send buffers alone. -/
def Context.processWorkComplete (context : Context Sock) (post : Post) (success : Bool) :
    Context Sock :=
  match context.socketMap post.qpNum with
  | none =>
      match WorkRequestId.workType post.wrId with
      | .send =>
          { context with
            sendBufferQueue :=
              releaseId (WorkRequestId.bufferId post.wrId) context.sendBufferQueue }
      | _ => context
  | some sock =>
      match WorkRequestId.workType post.wrId with
      | .send =>
          let socket := context.sockets sock
          let notified := if success then context
            else context.put sock { socket with
              state := { socket.state with handled := socket.state.handled + 1 } }
          { notified with
            sendBufferQueue :=
              releaseId (WorkRequestId.bufferId post.wrId) notified.sendBufferQueue }
      | _ => context

inductive Label (Sock : Type) where
  | writeMessage (sock : Sock) (call : Call)
  | flush (sock : Sock) (sendFails : Bool)
  | complete (index : Nat) (success : Bool)
  | addConnection (sock : Sock) (qpNum : Nat)
  | removeConnection (qpNum : Nat)

def next (limits : Limits) (maxBatchSize : Nat) (context : Context Sock) :
    Label Sock → Option (Context Sock)
  | .writeMessage sock call => some (context.writeMessage limits maxBatchSize sock call)
  | .flush sock sendFails =>
      if (context.sockets sock).state.flushTasks = 0 then none
      else some (context.flushTask limits sock sendFails)
  | .complete index success =>
      -- the device hands out each completion once, in any order
      match context.posts[index]? with
      | some post =>
          some ({ context with posts := context.posts.eraseIdx index }.processWorkComplete
            post success)
      | none => none
  | .addConnection sock qpNum =>
      some { context.put sock { context.sockets sock with qpNum := qpNum } with
        socketMap := Function.update context.socketMap qpNum (some sock) }
  | .removeConnection qpNum =>
      some { context with socketMap := Function.update context.socketMap qpNum none }

omit [DecidableEq Sock] in
/-- The constructor pushes the ids in order; new sockets have an invalid buffer. -/
def start (limits : Limits) (memory : Sock → Memory) : Context Sock where
  sendBufferQueue := (List.range limits.sendBufferCount).reverse
  sockets := fun sock => ⟨BatchingMessageSocket.start (memory sock), invalidId, 0, 0⟩
  socketMap := fun _ => none
  posts := []

def machine (limits : Limits) (maxBatchSize : Nat) : Machine (Context Sock) (Label Sock) where
  initial := fun context => ∃ memory, context = start limits memory
  next := next limits maxBatchSize

def Socket.held (socket : Socket) : Option Nat :=
  if socket.bufferId = invalidId then none else some socket.bufferId

def postedIds (posts : List Post) : List Nat :=
  posts.map fun post => WorkRequestId.bufferId post.wrId

structure Inv (limits : Limits) (context : Context Sock) : Prop where
  conserved : Conserved limits.sendBufferCount context.sendBufferQueue
    (fun sock => (context.sockets sock).held) (postedIds context.posts)
  sends : ∀ post ∈ context.posts, WorkRequestId.workType post.wrId = .send
  lkey : ∀ sock, (context.sockets sock).bufferId ≠ invalidId →
    (context.sockets sock).lkey = limits.lkey

section Steps

variable {limits : Limits} {maxBatchSize : Nat} {context after : Context Sock} {sock : Sock}
  {socket : Socket}

omit [DecidableEq Sock] in
theorem held_of_valid (hvalid : socket.bufferId ≠ invalidId) :
    socket.held = some socket.bufferId := if_neg hvalid

omit [DecidableEq Sock] in
theorem held_of_invalid (hinvalid : socket.bufferId = invalidId) :
    socket.held = none := if_pos hinvalid

theorem held_put (sockets : Sock → Socket) (sock : Sock) (socket : Socket) :
    (fun other => (Function.update sockets sock socket other).held) =
      Function.update (fun other => (sockets other).held) sock socket.held := by
  funext other
  exact Function.apply_update (fun _ => Socket.held) sockets sock socket other

section Preserved

variable (hinv : Inv limits context)
include hinv

theorem Inv.put {queue : List Nat} {posts : List Post}
    (hconserved : Conserved limits.sendBufferCount queue
      (Function.update (fun other => (context.sockets other).held) sock socket.held)
      (postedIds posts))
    (hsends : ∀ post ∈ posts, WorkRequestId.workType post.wrId = .send)
    (hlkey : socket.bufferId ≠ invalidId → socket.lkey = limits.lkey) :
    Inv limits { context.put sock socket with sendBufferQueue := queue, posts := posts } where
  conserved := by
    rw [← held_put] at hconserved
    exact hconserved
  sends := hsends
  lkey := by
    intro other
    by_cases hself : other = sock
    · subst hself
      simp only [Context.put, Function.update_self]
      exact hlkey
    · simp only [Context.put, Function.update_of_ne hself]
      exact hinv.lkey other

theorem Inv.put_same (hbuffer : socket.bufferId = (context.sockets sock).bufferId)
    (hlkey : socket.lkey = (context.sockets sock).lkey) :
    Inv limits (context.put sock socket) := by
  have hheld : socket.held = (context.sockets sock).held := by
    unfold Socket.held
    rw [hbuffer]
  refine hinv.put ?_ hinv.sends ?_
  · rw [hheld, Function.update_eq_self sock fun other => (context.sockets other).held]
    exact hinv.conserved
  · rw [hbuffer, hlkey]
    exact hinv.lkey sock

omit [DecidableEq Sock] in
theorem Inv.id_lt (hvalid : (context.sockets sock).bufferId ≠ invalidId) :
    (context.sockets sock).bufferId < limits.sendBufferCount :=
  hinv.conserved.held_lt (held_of_valid hvalid)

theorem Inv.release (hvalid : (context.sockets sock).bufferId ≠ invalidId) (state : State) :
    Inv limits { context.put sock ((context.sockets sock).invalidate state) with
      sendBufferQueue :=
        releaseSendBuffer limits (context.sockets sock) context.sendBufferQueue } := by
  have hqueue : releaseSendBuffer limits (context.sockets sock) context.sendBufferQueue =
      (context.sockets sock).bufferId :: context.sendBufferQueue := by
    unfold releaseSendBuffer releaseId
    rw [if_pos (hinv.lkey sock hvalid), if_neg hvalid]
  rw [hqueue]
  exact hinv.put (hinv.conserved.giveBack (held_of_valid hvalid)) hinv.sends
    (fun hagain => absurd rfl hagain)

theorem Inv.post (hcount : limits.sendBufferCount ≤ 65535)
    (hvalid : (context.sockets sock).bufferId ≠ invalidId) (state : State) :
    Inv limits { context.put sock ((context.sockets sock).invalidate state) with
      posts := context.posts ++
        [⟨WorkRequestId.buildId 0 (context.sockets sock).bufferId .send,
          (context.sockets sock).qpNum⟩] } := by
  have hlt : (context.sockets sock).bufferId < 2 ^ 16 := by
    have := hinv.id_lt hvalid
    omega
  refine hinv.put ?_ ?_ (fun hagain => absurd rfl hagain)
  · have hlaunch := hinv.conserved.launch (held_of_valid hvalid)
    unfold postedIds at hlaunch ⊢
    rw [List.map_append, List.map_singleton, WorkRequestId.bufferId_buildId 0 hlt .send]
    exact hlaunch
  · intro post hpost
    rcases List.mem_append.mp hpost with hold | hnew
    · exact hinv.sends post hold
    · rw [List.mem_singleton.mp hnew]
      exact WorkRequestId.workType_buildId 0 hlt .send

theorem Inv.sendCurrentBuffer (hcount : limits.sendBufferCount ≤ 65535) (sock : Sock)
    (sendFails : Bool) :
    Inv limits (context.sendCurrentBuffer limits sock sendFails).1 ∧
      ((context.sendCurrentBuffer limits sock sendFails).1.sockets sock).bufferId = invalidId := by
  unfold Context.sendCurrentBuffer
  simp only
  split
  · rename_i hinvalid
    exact ⟨hinv, hinvalid⟩
  · rename_i hvalid
    split
    · refine ⟨hinv.release hvalid _, ?_⟩
      simp [Context.put, Socket.invalidate]
    · refine ⟨hinv.post hcount hvalid _, ?_⟩
      simp [Context.put, Socket.invalidate]

theorem Inv.acquire (hcount : limits.sendBufferCount ≤ 65535)
    (hnone : (context.sockets sock).bufferId = invalidId) (call : Call) :
    Inv limits (context.acquire limits sock call).1 := by
  unfold Context.acquire
  cases hqueue : context.sendBufferQueue with
  | nil =>
      simp only [acquireSendBuffer]
      refine hinv.put ?_ hinv.sends (fun hagain => absurd rfl hagain)
      have hconserved := hinv.conserved
      rw [hqueue] at hconserved
      have hsame : Function.update (fun other => (context.sockets other).held) sock none =
          fun other => (context.sockets other).held := by
        rw [← held_of_invalid hnone,
          Function.update_eq_self sock fun other => (context.sockets other).held]
      rw [held_of_invalid rfl, hsame]
      exact hconserved
  | cons id rest =>
      have hconserved := hinv.conserved
      rw [hqueue] at hconserved
      have hlt := hconserved.free_lt List.mem_cons_self
      have hvalid : id ≠ invalidId := by
        unfold invalidId
        omega
      -- the region has room for every id below the count
      have hregion : ¬ id * limits.bufferLength + limits.bufferLength >
          limits.sendBufferCount * limits.bufferLength := by
        have hmul := Nat.mul_le_mul_right limits.bufferLength hlt
        rw [Nat.succ_mul] at hmul
        omega
      simp only [acquireSendBuffer, if_neg hregion, if_neg hvalid]
      refine hinv.put ?_ hinv.sends (fun _ => rfl)
      rw [held_of_valid hvalid]
      exact hconserved.take (held_of_invalid hnone)

theorem Inv.makeRoom (hcount : limits.sendBufferCount ≤ 65535) (maxBatchSize : Nat) (sock : Sock)
    (call : Call) :
    Inv limits (context.makeRoom limits maxBatchSize sock call).1 := by
  unfold Context.makeRoom
  simp only
  split
  · split
    · exact hinv
    · obtain ⟨hsent, hnone⟩ := hinv.sendCurrentBuffer hcount sock call.sendFails
      split
      · rename_i hresult
        rw [hresult] at hsent
        exact hsent
      · rename_i hresult
        rw [hresult] at hsent hnone
        exact hsent.acquire hcount hnone call
  · exact hinv

theorem Inv.writeMessage (hcount : limits.sendBufferCount ≤ 65535)
    (call : Call) : Inv limits (context.writeMessage limits maxBatchSize sock call) := by
  have hroom := hinv.makeRoom hcount maxBatchSize sock call
  unfold Context.writeMessage
  split
  · rename_i hresult
    rw [hresult] at hroom
    exact hroom
  · rename_i hresult
    rw [hresult] at hroom
    exact hroom.put_same rfl rfl

theorem Inv.flushBuffer (hcount : limits.sendBufferCount ≤ 65535)
    (sendFails : Bool) : Inv limits (context.flushBuffer limits sock sendFails) := by
  unfold Context.flushBuffer
  simp only
  split
  · exact hinv
  · rename_i hvalid
    split
    · exact hinv.release hvalid _
    · obtain ⟨hsent, _⟩ := hinv.sendCurrentBuffer hcount sock sendFails
      split
      · rename_i hresult
        rw [hresult] at hsent
        exact hsent.put_same rfl rfl
      · rename_i hresult
        rw [hresult] at hsent
        exact hsent

theorem Inv.flushTask (hcount : limits.sendBufferCount ≤ 65535)
    (sendFails : Bool) : Inv limits (context.flushTask limits sock sendFails) := by
  have hbegun : Inv limits (context.put sock (context.sockets sock).beginFlush) :=
    hinv.put_same rfl rfl
  exact hbegun.flushBuffer hcount sendFails

theorem Inv.complete (hcount : limits.sendBufferCount ≤ 65535) {index : Nat} {post : Post}
    (hpost : context.posts[index]? = some post) (success : Bool) :
    Inv limits ({ context with posts := context.posts.eraseIdx index }.processWorkComplete
      post success) := by
  have hsend := hinv.sends post (List.mem_of_getElem? hpost)
  obtain ⟨hindex, hget⟩ := List.getElem?_eq_some_iff.mp hpost
  have hsplit : context.posts =
      context.posts.take index ++ post :: context.posts.drop (index + 1) := by
    rw [← hget, List.getElem_cons_drop, List.take_append_drop]
  have hconserved := hinv.conserved
  rw [hsplit] at hconserved
  unfold postedIds at hconserved
  rw [List.map_append, List.map_cons] at hconserved
  have hvalid : WorkRequestId.bufferId post.wrId ≠ invalidId := by
    have hlt := hconserved.flying_lt (List.mem_append_right _ List.mem_cons_self)
    unfold invalidId
    omega
  have hlanded := hconserved.land
  rw [← List.map_append, ← List.eraseIdx_eq_take_drop_succ] at hlanded
  have hback : Inv limits { context with
      posts := context.posts.eraseIdx index
      sendBufferQueue :=
        releaseId (WorkRequestId.bufferId post.wrId) context.sendBufferQueue } := by
    unfold releaseId
    rw [if_neg hvalid]
    exact ⟨hlanded, fun other hother => hinv.sends other (List.mem_of_mem_eraseIdx hother),
      hinv.lkey⟩
  unfold Context.processWorkComplete
  simp only [hsend]
  split
  · exact hback
  · split
    · exact hback
    · exact hback.put_same rfl rfl

theorem Inv.next (hcount : limits.sendBufferCount ≤ 65535) {label : Label Sock}
    (hnext : next limits maxBatchSize context label = some after) :
    Inv limits after := by
  cases label with
  | writeMessage sock call =>
      cases hnext
      exact hinv.writeMessage hcount call
  | flush sock sendFails =>
      simp only [SendBufferPool.next] at hnext
      split at hnext
      · contradiction
      · cases hnext
        exact hinv.flushTask hcount sendFails
  | complete index success =>
      simp only [SendBufferPool.next] at hnext
      split at hnext
      · rename_i post hpost
        cases hnext
        exact hinv.complete hcount hpost success
      · contradiction
  | addConnection sock qpNum =>
      cases hnext
      have hput : Inv limits (context.put sock { context.sockets sock with qpNum := qpNum }) :=
        hinv.put_same rfl rfl
      exact ⟨hput.conserved, hput.sends, hput.lkey⟩
  | removeConnection qpNum =>
      cases hnext
      exact ⟨hinv.conserved, hinv.sends, hinv.lkey⟩

end Preserved

omit [DecidableEq Sock] in
theorem inv_start (limits : Limits) (memory : Sock → Memory) :
    Inv limits (start limits memory) where
  conserved := by
    apply Conserved.start
    intro id
    rw [start, List.count_reverse, List.count_range]
  sends := by simp [start]
  lkey := fun _ hvalid => absurd rfl hvalid

end Steps

theorem inv_of_reachable {limits : Limits} (hcount : limits.sendBufferCount ≤ 65535)
    {maxBatchSize : Nat} {context : Context Sock}
    (hreach : (machine limits maxBatchSize).Reachable context) : Inv limits context := by
  apply hreach.invariant (Inv limits)
  · rintro _ ⟨memory, rfl⟩
    exact inv_start limits memory
  · intro before label after hinv _ hnext
    exact hinv.next hcount hnext

/-- At all times each id below the count is on the stack, in the buffer of one socket or in
one outstanding send, and it is there once. -/
theorem send_buffers_conserved (limits : Limits) (hcount : limits.sendBufferCount ≤ 65535)
    (maxBatchSize : Nat) (context : Context Sock)
    (hreach : (machine limits maxBatchSize).Reachable context) :
    Conserved limits.sendBufferCount context.sendBufferQueue
      (fun sock => (context.sockets sock).held) (postedIds context.posts) := by
  exact (inv_of_reachable hcount hreach).conserved

def plainCall : Call where
  id := 1
  type := 2
  length := 8
  callback := { fill := id, length_fill := fun _ => rfl, fails := fun _ => false }
  sendFails := false
  acquired := none

/-- Two sockets take a buffer each, the first posts its buffer, and the completion fails
while it fills the next one. -/
def sharedPool : List (Label Bool) :=
  [.addConnection true 4, .writeMessage true plainCall, .writeMessage false plainCall,
    .flush true false, .writeMessage true plainCall, .complete 0 false, .flush true false]

theorem shared_pool_conserved :
    ∃ context : Context Bool, (machine ⟨4, 64, 4096, 7⟩ 8).Reachable context ∧
      context.sendBufferQueue = [3, 0] ∧ (context.sockets false).held = some 2 ∧
      postedIds context.posts = [1] ∧
      Conserved 4 [3, 0] (fun sock => (context.sockets sock).held) [1] := by
  obtain ⟨context, hreach, htest⟩ := Machine.exists_reachable_of_replay
    (machine ⟨4, 64, 4096, 7⟩ 8 : Machine (Context Bool) (Label Bool))
    (start ⟨4, 64, 4096, 7⟩ fun _ _ => 0) sharedPool
    (fun context => decide (context.sendBufferQueue = [3, 0] ∧
      (context.sockets false).held = some 2 ∧ postedIds context.posts = [1]))
    ⟨_, rfl⟩ (by decide +kernel)
  obtain ⟨hqueue, hheld, hposted⟩ := of_decide_eq_true htest
  have hconserved := send_buffers_conserved ⟨4, 64, 4096, 7⟩ (by decide) 8 context hreach
  rw [hqueue, hposted] at hconserved
  exact ⟨context, hreach, hqueue, hheld, hposted, hconserved⟩

end Crossbow.Infinio.SendBufferPool
