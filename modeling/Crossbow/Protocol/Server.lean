import Crossbow.Kernel.Bytes
import Crossbow.Kernel.Machine
import Crossbow.Kernel.Word

/-! The request loop of the server. `read` runs after every chunk that the socket
delivers and decides from the first eight bytes of `mBuffer` whether the request is
complete. The buffer is reused, so it also holds bytes of earlier messages. -/
namespace Crossbow.Protocol.Serving
open Kernel

/-- What the outstanding asynchronous operation is. After `io_service::stop` no
handler runs any more. -/
inductive Phase where
  | reading (bytesRead : Nat)
  | executing
  | responding
  | stopped
  deriving DecidableEq, Repr

/-- A call of `execute_impl`: the command and the bytes that were read for it. -/
structure Dispatch where
  cmd : Nat
  request : List UInt8
  deriving DecidableEq, Repr

/-- `allocated` is the length of the array behind `mBuffer`. -/
structure Server where
  mBufSize : Nat
  mBuffer : Memory
  allocated : Nat
  doQuit : Bool
  phase : Phase
  dispatched : List Dispatch

/-- `read(bytes_read)`; `fresh` is the content of an array that is allocated here. -/
def Server.read (server : Server) (bytesRead : Nat) (fresh : Memory) : Server :=
  if bytesRead = 0 ∧ server.doQuit = true then { server with phase := .stopped }
  else
    let reqSize := if bytesRead ≠ 0 then decodeLE (load server.mBuffer 0 8) else 0
    if bytesRead ≠ 0 ∧ reqSize = bytesRead then
      { server with
        phase := .executing
        dispatched := server.dispatched ++
          [⟨decodeLE (load server.mBuffer 8 4), load server.mBuffer 0 bytesRead⟩] }
    else if bytesRead ≥ 8 ∧ reqSize > server.mBufSize then
      { server with
        mBuffer := store fresh 0 (load server.mBuffer 0 server.mBufSize)
        allocated := reqSize
        mBufSize := reqSize
        phase := .reading bytesRead }
    else { server with phase := .reading bytesRead }

def Server.readSize (server : Server) (bytesRead : Nat) : Nat :=
  wrapSub server.mBufSize bytesRead

def Server.respondVoid (server : Server) : Server :=
  { server with mBuffer := store server.mBuffer 0 [1], phase := .responding }

/-- The response with a result: `size` is what the sizer computed, `payload` what the
serializer writes behind it. A larger array is not recorded in `mBufSize`. -/
def Server.respond (server : Server) (size : Nat) (payload : List UInt8) (fresh : Memory) :
    Server :=
  let grows := server.mBufSize < size
  { server with
    mBuffer := store (if grows then fresh else server.mBuffer) 0 (natLE 8 size ++ payload)
    allocated := if grows then size else server.allocated
    phase := .responding }

/-- The server with its connection. `stream` holds the bytes that were sent and not
read yet, `answered` counts the responses. -/
structure State where
  server : Server
  stream : List UInt8
  sent : List (List UInt8)
  answered : Nat

inductive Label where
  | send (frame : List UInt8)
  | deliver (count : Nat) (fresh : Memory)
  | respondVoid
  | respond (size : Nat) (payload : List UInt8) (fresh : Memory)
  | written (fresh : Memory)
  | quit

structure Request (frame : List UInt8) : Prop extends SizeFramed frame where
  command_le : 12 ≤ frame.length

instance (frame : List UInt8) : Decidable (Request frame) :=
  decidable_of_iff (SizeFramed frame ∧ 12 ≤ frame.length)
    ⟨fun ⟨hframed, hcommand⟩ => ⟨hframed, hcommand⟩,
      fun hrequest => ⟨hrequest.toSizeFramed, hrequest.command_le⟩⟩

def Server.receive (server : Server) (bytesRead : Nat) (bytes : List UInt8) : Server :=
  { server with mBuffer := store server.mBuffer bytesRead bytes }

def next (state : State) : Label → Option State
  | .send frame =>
      -- the client waits for the response before it sends the next request
      if state.answered = state.sent.length ∧ Request frame then
        some { state with stream := state.stream ++ frame, sent := state.sent ++ [frame] }
      else none
  | .deliver count fresh =>
      match state.server.phase with
      | .reading bytesRead =>
          if 1 ≤ count ∧ count ≤ state.server.readSize bytesRead ∧
              count ≤ state.stream.length then
            some { state with
              server := (state.server.receive bytesRead (state.stream.take count)).read
                (bytesRead + count) fresh
              stream := state.stream.drop count }
          else none
      | _ => none
  | .respondVoid =>
      match state.server.phase with
      | .executing =>
          some { state with server := state.server.respondVoid, answered := state.answered + 1 }
      | _ => none
  | .respond size payload fresh =>
      match state.server.phase with
      | .executing =>
          some { state with
            server := state.server.respond size payload fresh
            answered := state.answered + 1 }
      | _ => none
  | .written fresh =>
      match state.server.phase with
      | .responding => some { state with server := state.server.read 0 fresh }
      | _ => none
  | .quit => some { state with server := { state.server with doQuit := true } }

/-- `run()` on a new server; the array is not initialised. -/
def start (mBuffer : Memory) : State where
  server := Server.read ⟨1024, mBuffer, 1024, false, .responding, []⟩ 0 mBuffer
  stream := []
  sent := []
  answered := 0

def machine : Machine State Label where
  initial := fun state => ∃ mBuffer, state = start mBuffer
  next := next

def dispatchOf (frame : List UInt8) : Dispatch := ⟨decodeLE ((frame.drop 8).take 4), frame⟩

def State.arrived (state : State) : List (List UInt8) :=
  if state.stream = [] then state.sent else state.sent.dropLast

/-- Each request that has arrived was dispatched once, in order and with its own
bytes. While one is incomplete, at least one byte is asked for. -/
def Reassembles (state : State) : Prop :=
  state.server.dispatched = state.arrived.map dispatchOf ∧
    (state.stream ≠ [] → ∀ bytesRead, state.server.phase = .reading bytesRead →
      0 < state.server.readSize bytesRead)

/-- A chunk that ends inside the size field must not make the field, whose upper bytes
are still old, equal to the number of bytes read. -/
def Harmless (state : State) : Label → Prop
  | .deliver count _ =>
      ∀ bytesRead, state.server.phase = .reading bytesRead → bytesRead + count < 8 →
        decodeLE (load (store state.server.mBuffer bytesRead (state.stream.take count)) 0 8) ≠
          bytesRead + count
  | _ => True

/-- Between two responses: no request, or one of which `received` has been read. -/
def Awaits (dispatched : List Dispatch) (sent : List (List UInt8)) (answered : Nat)
    (stream received : List UInt8) : Prop :=
  (answered = sent.length ∧ stream = [] ∧ received = [] ∧ dispatched = sent.map dispatchOf) ∨
    ∃ earlier frame, sent = earlier ++ [frame] ∧ answered = earlier.length ∧ Request frame ∧
      received ++ stream = frame ∧ stream ≠ [] ∧ dispatched = earlier.map dispatchOf

def PhaseOk (server : Server) (sent : List (List UInt8)) (answered : Nat)
    (stream : List UInt8) : Prop :=
  match server.phase with
  | .reading bytesRead =>
      Awaits server.dispatched sent answered stream (load server.mBuffer 0 bytesRead) ∧
        (stream ≠ [] → bytesRead < server.mBufSize)
  | .executing => answered + 1 = sent.length ∧ stream = [] ∧
      server.dispatched = sent.map dispatchOf
  | .responding | .stopped => Awaits server.dispatched sent answered stream []

structure Inv (state : State) : Prop where
  bufSize : 1024 ≤ state.server.mBufSize
  bufSize_lt : state.server.mBufSize < wordRange
  phase : PhaseOk state.server state.sent state.answered state.stream

section Read

variable (server : Server) (bytesRead : Nat) (fresh : Memory) {frame stream : List UInt8}
  {earlier : List (List UInt8)}

theorem dispatch_of_complete (hrequest : Request frame)
    (hcomplete : load server.mBuffer 0 bytesRead = frame) :
    (⟨decodeLE (load server.mBuffer 8 4), load server.mBuffer 0 bytesRead⟩ : Dispatch) =
      dispatchOf frame := by
  have hlength : bytesRead = frame.length := by
    rw [← hcomplete, length_load]
  have hcommand := hrequest.command_le
  have hsplit : load server.mBuffer 0 bytesRead = load server.mBuffer 0 8 ++
      (load server.mBuffer 8 4 ++ load server.mBuffer 12 (bytesRead - 12)) := by
    rw [← load_append, ← load_append, show 8 + (4 + (bytesRead - 12)) = bytesRead by omega]
  unfold dispatchOf
  rw [hcomplete] at hsplit ⊢
  rw [hsplit, List.drop_left' (length_load ..), List.take_left' (length_load ..), ← hsplit]

theorem read_phaseOk (hsize : 1024 ≤ server.mBufSize) (hrange : server.mBufSize < wordRange)
    (hrequest : Request frame) (hpos : bytesRead ≠ 0) (hroom : bytesRead ≤ server.mBufSize)
    (hreceived : load server.mBuffer 0 bytesRead ++ stream = frame)
    (hharmless : bytesRead < 8 → decodeLE (load server.mBuffer 0 8) ≠ bytesRead)
    (hdispatched : server.dispatched = earlier.map dispatchOf) :
    1024 ≤ (server.read bytesRead fresh).mBufSize ∧
      (server.read bytesRead fresh).mBufSize < wordRange ∧
      PhaseOk (server.read bytesRead fresh) (earlier ++ [frame]) earlier.length stream := by
  have hlength : bytesRead + stream.length = frame.length := by
    rw [← hreceived, List.length_append, length_load]
  have hcommand := hrequest.command_le
  have hfits : frame.length < wordRange := hrequest.size_lt
  -- from eight bytes on the size field is the one of the request
  have hfield : 8 ≤ bytesRead → decodeLE (load server.mBuffer 0 8) = frame.length :=
    fun hle => hrequest.decode hle hreceived
  unfold Server.read
  rw [if_neg (fun hquit => hpos hquit.1)]
  simp only [if_pos hpos]
  split
  · rename_i hdone
    have hle : 8 ≤ bytesRead := by
      by_contra hshort
      exact hharmless (by omega) hdone.2
    have hempty : stream = [] := by
      rw [← List.length_eq_zero_iff]
      have := hfield hle
      omega
    subst hempty
    rw [List.append_nil] at hreceived
    refine ⟨hsize, hrange, by simp, rfl, ?_⟩
    rw [dispatch_of_complete server bytesRead hrequest hreceived, hdispatched, List.map_append]
    rfl
  · rename_i hopen
    have hpartial : stream ≠ [] := by
      intro hempty
      subst hempty
      have hfull : bytesRead = frame.length := hlength
      exact hopen ⟨hpos, by rw [hfield (by omega), hfull]⟩
    have hstrict : bytesRead < frame.length := by
      have := List.length_pos_iff.mpr hpartial
      omega
    split
    · rename_i hgrow
      have hframe := hfield hgrow.1
      refine ⟨?_, ?_, ⟨.inr ⟨earlier, frame, rfl, rfl, hrequest, ?_, hpartial, hdispatched⟩, ?_⟩⟩
      · show 1024 ≤ decodeLE (load server.mBuffer 0 8)
        omega
      · show decodeLE (load server.mBuffer 0 8) < wordRange
        omega
      · have hcopy : load (store fresh 0 (load server.mBuffer 0 server.mBufSize)) 0 bytesRead =
            load server.mBuffer 0 bytesRead := by
          rw [load_store_take _ _ (by rw [length_load]; exact hroom), take_load _ _ hroom]
        simp only [hcopy]
        exact hreceived
      · intro _
        show bytesRead < decodeLE (load server.mBuffer 0 8)
        omega
    · rename_i hkeep
      refine ⟨hsize, hrange, ⟨.inr ⟨earlier, frame, rfl, rfl, hrequest, hreceived, hpartial,
        hdispatched⟩, ?_⟩⟩
      intro _
      by_cases hle : 8 ≤ bytesRead
      · have hframe := hfield hle
        have hsmall : ¬ decodeLE (load server.mBuffer 0 8) > server.mBufSize :=
          fun hlarge => hkeep ⟨hle, hlarge⟩
        show bytesRead < server.mBufSize
        omega
      · show bytesRead < server.mBufSize
        omega

end Read

section Steps

variable {state after : State}

theorem Awaits.send {dispatched : List Dispatch} {sent : List (List UInt8)} {answered : Nat}
    {stream received frame : List UInt8} (hawaits : Awaits dispatched sent answered stream received)
    (hanswered : answered = sent.length) (hrequest : Request frame) :
    Awaits dispatched (sent ++ [frame]) answered (stream ++ frame) received := by
  rcases hawaits with ⟨_, hstream, hreceived, hdispatched⟩ | ⟨earlier, last, hsent, hcount, _⟩
  · subst hstream hreceived
    refine .inr ⟨sent, frame, rfl, hanswered, hrequest, rfl, ?_, hdispatched⟩
    intro hempty
    rw [List.nil_append] at hempty
    subst hempty
    exact absurd hrequest.command_le (by decide)
  · rw [hsent, List.length_append, List.length_singleton] at hanswered
    omega

theorem Inv.send (hinv : Inv state) {frame : List UInt8}
    (hanswered : state.answered = state.sent.length) (hrequest : Request frame) :
    Inv { state with stream := state.stream ++ frame, sent := state.sent ++ [frame] } := by
  refine ⟨hinv.bufSize, hinv.bufSize_lt, ?_⟩
  have hphase := hinv.phase
  have hsize := hinv.bufSize
  unfold PhaseOk at hphase ⊢
  cases hcase : state.server.phase with
  | reading bytesRead =>
      simp only [hcase] at hphase ⊢
      refine ⟨hphase.1.send hanswered hrequest, fun _ => ?_⟩
      rcases hphase.1 with ⟨_, _, hreceived, _⟩ | ⟨earlier, last, hsent, hcount, _⟩
      · have hzero : bytesRead = 0 := by
          rw [← length_load state.server.mBuffer 0 bytesRead, hreceived]
          rfl
        omega
      · rw [hsent, List.length_append, List.length_singleton] at hanswered
        omega
  | executing =>
      simp only [hcase] at hphase
      omega
  | responding | stopped =>
      simp only [hcase] at hphase ⊢
      exact hphase.send hanswered hrequest

theorem Inv.deliver (hinv : Inv state) {count : Nat} {fresh : Memory}
    (hharmless : Harmless state (.deliver count fresh))
    (hnext : next state (.deliver count fresh) = some after) : Inv after := by
  simp only [next] at hnext
  split at hnext
  · rename_i bytesRead hphase
    split at hnext
    · rename_i hchunk
      obtain ⟨hone, hask, havail⟩ := hchunk
      have hok := hinv.phase
      unfold PhaseOk at hok
      simp only [hphase] at hok
      have hlength : (state.stream.take count).length = count := by
        rw [List.length_take]
        omega
      rcases hok.1 with ⟨_, hempty, _⟩ |
        ⟨earlier, frame, hsent, hcount, hrequest, hreceived, hpartial, hdispatched⟩
      · rw [hempty] at havail
        simp only [List.length_nil] at havail
        omega
      · have hstrict := hok.2 hpartial
        have hroom : bytesRead + count ≤ state.server.mBufSize := by
          have hrange := hinv.bufSize_lt
          unfold Server.readSize at hask
          rw [wrapSub_of_le (by omega) hrange] at hask
          omega
        have hload := load_store_end state.server.mBuffer bytesRead (state.stream.take count)
        rw [hlength] at hload
        obtain ⟨hsize, hlt, hafter⟩ := read_phaseOk
          (state.server.receive bytesRead (state.stream.take count)) (bytesRead + count) fresh
          hinv.bufSize hinv.bufSize_lt hrequest (by omega) hroom
          (by
            show load (store _ _ _) 0 _ ++ _ = frame
            rw [hload, List.append_assoc, List.take_append_drop]
            exact hreceived)
          (hharmless bytesRead hphase) hdispatched
        cases hnext
        refine ⟨hsize, hlt, ?_⟩
        rw [← hsent, ← hcount] at hafter
        exact hafter
    · contradiction
  · contradiction

theorem Inv.answer (hinv : Inv state) (hphase : state.server.phase = .executing) {server : Server}
    (hsize : server.mBufSize = state.server.mBufSize) (hresponding : server.phase = .responding)
    (hdispatched : server.dispatched = state.server.dispatched) :
    Inv { state with server := server, answered := state.answered + 1 } := by
  have hok := hinv.phase
  unfold PhaseOk at hok
  simp only [hphase] at hok
  refine ⟨hsize ▸ hinv.bufSize, hsize ▸ hinv.bufSize_lt, ?_⟩
  unfold PhaseOk
  simp only [hresponding]
  exact .inl ⟨hok.1, hok.2.1, rfl, hdispatched.trans hok.2.2⟩

theorem Inv.written (hinv : Inv state) (hphase : state.server.phase = .responding)
    (fresh : Memory) : Inv { state with server := state.server.read 0 fresh } := by
  have hsize := hinv.bufSize
  have hok := hinv.phase
  unfold PhaseOk at hok
  simp only [hphase] at hok
  have hread : state.server.read 0 fresh = { state.server with phase := .stopped } ∨
      state.server.read 0 fresh = { state.server with phase := .reading 0 } := by
    unfold Server.read
    split
    · exact .inl rfl
    · exact .inr (by simp)
  refine ⟨?_, ?_, ?_⟩
  · rcases hread with hread | hread <;> rw [hread] <;> exact hsize
  · rcases hread with hread | hread <;> rw [hread] <;> exact hinv.bufSize_lt
  · rcases hread with hread | hread
    · rw [hread]
      exact hok
    · rw [hread]
      exact ⟨hok, fun _ => show 0 < state.server.mBufSize by omega⟩

theorem Inv.next (hinv : Inv state) {label : Label} (hharmless : Harmless state label)
    (hnext : next state label = some after) : Inv after := by
  cases label with
  | send frame =>
      simp only [Serving.next] at hnext
      split at hnext
      · rename_i hsend
        cases hnext
        exact hinv.send hsend.1 hsend.2
      · contradiction
  | deliver count fresh => exact hinv.deliver hharmless hnext
  | respondVoid | respond =>
      simp only [Serving.next] at hnext
      split at hnext
      · rename_i hphase
        cases hnext
        exact hinv.answer hphase rfl rfl rfl
      · contradiction
  | written fresh =>
      simp only [Serving.next] at hnext
      split at hnext
      · rename_i hphase
        cases hnext
        exact hinv.written hphase fresh
      · contradiction
  | quit =>
      cases hnext
      exact ⟨hinv.bufSize, hinv.bufSize_lt, hinv.phase⟩

theorem inv_start (mBuffer : Memory) : Inv (start mBuffer) :=
  ⟨Nat.le_refl 1024, show 1024 < wordRange by decide, .inl ⟨rfl, rfl, rfl, rfl⟩,
    fun hstream => absurd rfl hstream⟩

theorem Awaits.dispatched_eq {dispatched : List Dispatch} {sent : List (List UInt8)}
    {answered : Nat} {stream received : List UInt8}
    (hawaits : Awaits dispatched sent answered stream received) :
    dispatched = (if stream = [] then sent else sent.dropLast).map dispatchOf := by
  rcases hawaits with ⟨_, hstream, _, hdispatched⟩ |
    ⟨earlier, frame, hsent, _, _, _, hpartial, hdispatched⟩
  · rw [if_pos hstream]
    exact hdispatched
  · rw [if_neg hpartial, hsent, List.dropLast_concat]
    exact hdispatched

theorem Inv.reassembles (hinv : Inv state) : Reassembles state := by
  have hok := hinv.phase
  unfold PhaseOk at hok
  unfold Reassembles State.arrived
  cases hphase : state.server.phase with
  | reading bytesRead =>
      simp only [hphase] at hok
      refine ⟨hok.1.dispatched_eq, ?_⟩
      intro hpartial count hcount
      cases hcount
      have hstrict := hok.2 hpartial
      unfold Server.readSize
      rw [wrapSub_of_le (Nat.le_of_lt hstrict) hinv.bufSize_lt]
      omega
  | executing =>
      simp only [hphase] at hok
      refine ⟨?_, fun hpartial => absurd hok.2.1 hpartial⟩
      rw [if_pos hok.2.1]
      exact hok.2.2
  | responding | stopped =>
      simp only [hphase] at hok
      refine ⟨hok.dispatched_eq, ?_⟩
      intro _ count hcount
      contradiction

end Steps

/-- If no chunk ends inside a size field that happens to spell the number of bytes read,
the requests are dispatched as they were sent, however they were split. -/
theorem requests_reassembled (state : State) (hreach : machine.ReachableUnder Harmless state) :
    Reassembles state := by
  apply Inv.reassembles
  apply hreach.invariant Inv
  · rintro _ ⟨mBuffer, rfl⟩
    exact inv_start mBuffer
  · intro before label after hinv hharmless hnext
    exact hinv.next hharmless hnext

/-- A request of the given size with zeros for its command and arguments. -/
def zeroRequest (size : Nat) : List UInt8 := natLE 8 size ++ List.replicate (size - 8) 0

instance (state : State) (label : Label) : Decidable (Harmless state label) := by
  cases label with
  | deliver count fresh =>
      unfold Harmless
      cases hphase : state.server.phase with
      | reading bytesRead =>
          exact decidable_of_iff (bytesRead + count < 8 →
            decodeLE (load (store state.server.mBuffer bytesRead (state.stream.take count)) 0 8) ≠
              bytesRead + count) (by simp)
      | _ => exact isTrue (by simp)
  | _ => exact isTrue trivial

/-- Two requests, the second one cut in the middle of its size field. -/
theorem cut_request_reassembled :
    ∃ state, machine.ReachableUnder Harmless state ∧
      state.sent = [zeroRequest 12, zeroRequest 300] ∧ state.stream = [] ∧ Reassembles state := by
  obtain ⟨state, hreach, htest⟩ := machine.exists_reachableUnder_of_replay Harmless
    (start fun _ => 0)
    [.send (zeroRequest 12), .deliver 12 fun _ => 0, .respondVoid, .written fun _ => 0,
      .send (zeroRequest 300), .deliver 2 fun _ => 0, .deliver 298 fun _ => 0]
    (fun state => decide (state.sent = [zeroRequest 12, zeroRequest 300] ∧ state.stream = []))
    ⟨_, rfl⟩ (by decide +kernel)
  obtain ⟨hsent, hstream⟩ := of_decide_eq_true htest
  exact ⟨state, hreach, hsent, hstream, requests_reassembled state hreach⟩

/-- The first byte of a request of 257 bytes over a clean buffer reads as size one. -/
theorem first_byte_dispatched :
    ∃ state, machine.Reachable state ∧ state.sent = [zeroRequest 257] ∧
      state.stream.length = 256 ∧ state.server.dispatched = [⟨0, [1]⟩] ∧ ¬ Reassembles state := by
  obtain ⟨state, hreach, htest⟩ := machine.exists_reachable_of_replay (start fun _ => 0)
    [.send (zeroRequest 257), .deliver 1 fun _ => 0]
    (fun state => decide (state.sent = [zeroRequest 257] ∧ state.stream.length = 256 ∧
      state.server.dispatched = [⟨0, [1]⟩]))
    ⟨_, rfl⟩ (by decide +kernel)
  obtain ⟨hsent, hlength, hdispatched⟩ := of_decide_eq_true htest
  refine ⟨state, hreach, hsent, hlength, hdispatched, ?_⟩
  intro hreassembles
  have hdispatch := hreassembles.1
  have hpartial : state.stream ≠ [] := by
    intro hempty
    rw [hempty] at hlength
    contradiction
  unfold State.arrived at hdispatch
  rw [if_neg hpartial, hsent, hdispatched] at hdispatch
  contradiction

end Crossbow.Protocol.Serving
