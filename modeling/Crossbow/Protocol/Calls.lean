import Crossbow.Protocol.Client

/-! A client that issues one call after the other. Each call writes its request and then
reads its response; a command without a result is answered by a single byte. Reads that
are outstanding together are served in the order in which they were issued. -/
namespace Crossbow.Protocol.Calling
open Kernel

/-- An outstanding `async_read_some` of `readResponse`, for a void result or another. -/
structure Read where
  call : Nat
  void : Bool
  bytesRead : Nat
  deriving DecidableEq, Repr

/-- `calls` says for each call whether its result is void, `writing` whether the last
request is still being written, and `responded` how many responses were sent. -/
structure State where
  client : Client
  calls : List Bool
  writing : Bool
  reads : List Read
  stream : List UInt8
  responded : Nat
  callbacks : List Nat

/-- The buffer that a read is given: a void one starts at the front each time. -/
def Read.offset (read : Read) : Nat := if read.void then 0 else read.bytesRead

def Client.askedFor (client : Client) (read : Read) : Nat := client.readSize read.offset

/-- The request as `Client::execute` leaves it in the buffer. -/
def Client.writeRequest (client : Client) (request : List UInt8) (fresh : Memory) : Client :=
  if client.mCurrSize < request.length then
    ⟨request.length, store fresh 0 request, request.length⟩
  else { client with mCurrentRequest := store client.mCurrentRequest 0 request }

inductive Label where
  | execute (void : Bool) (request : List UInt8) (fresh : Memory)
  | written (fresh : Memory)
  | respond (frame : List UInt8)
  | deliver (count : Nat) (fresh : Memory)

/-- `readResponse(callback, bytes_read)` for the result type of the call. The void one
asserts `bytes_read <= 1` and reads on after the callback. -/
def State.readResponse (state : State) (call : Nat) (void : Bool) (bytesRead : Nat)
    (fresh : Memory) : Option State :=
  if void then
    if bytesRead ≤ 1 then
      some { state with
        callbacks := if bytesRead ≠ 0 then state.callbacks ++ [call] else state.callbacks
        reads := state.reads ++ [⟨call, true, bytesRead⟩] }
    else none
  else
    let (client, complete) := state.client.readResponse bytesRead fresh
    if complete then some { state with client := client, callbacks := state.callbacks ++ [call] }
    else some { state with
      client := client
      reads := state.reads ++ [⟨call, false, bytesRead⟩] }

def Response (void : Bool) (frame : List UInt8) : Prop :=
  if void then frame = [1] else SizeFramed frame

instance (void : Bool) (frame : List UInt8) : Decidable (Response void frame) :=
  inferInstanceAs (Decidable (if void then _ else _))

def next (state : State) : Label → Option State
  | .execute void request fresh =>
      -- a call is issued after the callback of the previous one
      if (state.calls = [] ∨ state.calls.length - 1 ∈ state.callbacks) ∧
          request.length < wordRange then
        some { state with
          client := state.client.writeRequest request fresh
          calls := state.calls ++ [void]
          writing := true }
      else none
  | .written fresh =>
      match state.writing, state.calls.getLast? with
      | true, some void =>
          State.readResponse { state with writing := false } (state.calls.length - 1) void 0 fresh
      | _, _ => none
  | .respond frame =>
      match state.calls[state.responded]? with
      | some void =>
          if Response void frame then
            some { state with stream := state.stream ++ frame, responded := state.responded + 1 }
          else none
      | none => none
  | .deliver count fresh =>
      match state.reads with
      | read :: rest =>
          if 1 ≤ count ∧ count ≤ state.client.askedFor read ∧ count ≤ state.stream.length then
            State.readResponse { state with
              client := state.client.receive read.offset (state.stream.take count)
              stream := state.stream.drop count
              reads := rest } read.call read.void (read.bytesRead + count) fresh
          else none
      | [] => none

def start (mCurrentRequest : Memory) : State where
  client := ⟨1024, mCurrentRequest, 1024⟩
  calls := []
  writing := false
  reads := []
  stream := []
  responded := 0
  callbacks := []

def machine : Machine State Label where
  initial := fun state => ∃ mCurrentRequest, state = start mCurrentRequest
  next := next

def State.arrived (state : State) : Nat :=
  if state.stream = [] then state.responded else state.responded - 1

/-- Each response that arrived led to one callback, of its own call. After the callback
of the last call nothing reads any more, before it somebody reads what was sent. -/
def OneCallbackEach (state : State) : Prop :=
  state.callbacks = List.range state.arrived ∧
    (state.callbacks.length = state.calls.length → state.reads = []) ∧
    (state.writing = false → state.stream ≠ [] →
      ∃ read ∈ state.reads, 0 < state.client.askedFor read)

/-- Calls have results, and the responses fit the recorded buffer size. -/
def Fitting (state : State) : Label → Prop
  | .execute void _ _ => void = false
  | .respond frame => frame.length ≤ state.client.mCurrSize
  | _ => True

/-- The last call waits for a response of which `bytesRead` bytes have been read. -/
def Waits (client : Client) (call responded : Nat) (stream : List UInt8) (bytesRead : Nat) : Prop :=
  (responded = call ∧ stream = [] ∧ bytesRead = 0) ∨
    (responded = call + 1 ∧ stream ≠ [] ∧ ∃ frame, SizeFramed frame ∧
      frame.length ≤ client.mCurrSize ∧
      load client.mCurrentRequest 0 bytesRead ++ stream = frame)

inductive Stage (state : State) : Prop where
  | idle (hwriting : state.writing = false) (hreads : state.reads = [])
      (hstream : state.stream = []) (hresponded : state.responded = state.calls.length)
      (hcallbacks : state.callbacks = List.range state.calls.length)
  | writing (call : Nat) (hwriting : state.writing = true) (hreads : state.reads = [])
      (hcalls : state.calls.length = call + 1) (hcallbacks : state.callbacks = List.range call)
      (hwaits : Waits state.client call state.responded state.stream 0)
  | reading (call bytesRead : Nat) (hwriting : state.writing = false)
      (hreads : state.reads = [⟨call, false, bytesRead⟩])
      (hcalls : state.calls.length = call + 1) (hcallbacks : state.callbacks = List.range call)
      (hwaits : Waits state.client call state.responded state.stream bytesRead)

structure Inv (state : State) : Prop where
  size : 1024 ≤ state.client.mCurrSize
  size_lt : state.client.mCurrSize < wordRange
  results : ∀ void ∈ state.calls, void = false
  stage : Stage state

section Steps

variable {state after : State} {fresh : Memory}

theorem readResponse_zero (client : Client) (fresh : Memory) :
    client.readResponse 0 fresh = (client, false) := by
  simp [Client.readResponse]

theorem writeRequest_size (client : Client) (request : List UInt8) (fresh : Memory) :
    (client.writeRequest request fresh).mCurrSize = max client.mCurrSize request.length := by
  unfold Client.writeRequest
  split
  · show request.length = max client.mCurrSize request.length
    omega
  · show client.mCurrSize = max client.mCurrSize request.length
    omega

/-- A call that still waits has no callback yet, so the client is idle when it issues one. -/
theorem Inv.idle_of_execute (hinv : Inv state) {request : List UInt8}
    (hnext : next state (.execute false request fresh) = some after) :
    state.reads = [] ∧ state.stream = [] ∧ state.responded = state.calls.length ∧
      state.callbacks = List.range state.calls.length ∧ request.length < wordRange ∧
      after = { state with
        client := state.client.writeRequest request fresh
        calls := state.calls ++ [false]
        writing := true } := by
  simp only [next] at hnext
  split at hnext
  · rename_i hissue
    obtain ⟨hprevious, hlength⟩ := hissue
    have hlast (call : Nat) (hcalls : state.calls.length = call + 1)
        (hcallbacks : state.callbacks = List.range call) : False := by
      rcases hprevious with hempty | hmem
      · rw [hempty] at hcalls
        contradiction
      · rw [hcallbacks, hcalls, Nat.add_sub_cancel, List.mem_range] at hmem
        omega
    cases hinv.stage with
    | idle _ hreads hstream hresponded hcallbacks =>
        exact ⟨hreads, hstream, hresponded, hcallbacks, hlength, (Option.some.inj hnext).symm⟩
    | writing call _ _ hcalls hcallbacks => exact (hlast call hcalls hcallbacks).elim
    | reading call _ _ _ hcalls hcallbacks => exact (hlast call hcalls hcallbacks).elim
  · contradiction

theorem Inv.execute (hinv : Inv state) {request : List UInt8}
    (hnext : next state (.execute false request fresh) = some after) : Inv after := by
  obtain ⟨hreads, hstream, hresponded, hcallbacks, hlength, rfl⟩ := hinv.idle_of_execute hnext
  have hsize := hinv.size
  have hlt := hinv.size_lt
  refine ⟨?_, ?_, ?_, ?_⟩
  · rw [writeRequest_size]
    omega
  · rw [writeRequest_size]
    omega
  · intro void hvoid
    rcases List.mem_append.mp hvoid with hold | hnew
    · exact hinv.results void hold
    · exact List.mem_singleton.mp hnew
  · exact .writing state.calls.length rfl hreads (by simp) hcallbacks
      (.inl ⟨hresponded, hstream, rfl⟩)

theorem Inv.written_eq (hinv : Inv state) (hnext : next state (.written fresh) = some after) :
    ∃ call, state.reads = [] ∧ state.calls.length = call + 1 ∧
      state.callbacks = List.range call ∧
      Waits state.client call state.responded state.stream 0 ∧
      after = { state with
        writing := false
        reads := [⟨call, false, 0⟩] } := by
  simp only [next] at hnext
  split at hnext
  · rename_i void hwriting hlast
    have hvoid : void = false := hinv.results void (List.mem_of_getLast? hlast)
    subst hvoid
    simp only [State.readResponse, readResponse_zero] at hnext
    cases hinv.stage with
    | idle hidle | reading _ _ hidle =>
        rw [hwriting] at hidle
        contradiction
    | writing call _ hreads hcalls hcallbacks hwaits =>
        refine ⟨call, hreads, hcalls, hcallbacks, hwaits, ?_⟩
        rw [hreads, hcalls] at hnext
        exact (Option.some.inj hnext).symm
  · contradiction

theorem Inv.written (hinv : Inv state)
    (hnext : next state (.written fresh) = some after) : Inv after := by
  obtain ⟨call, _, hcalls, hcallbacks, hwaits, rfl⟩ := hinv.written_eq hnext
  exact ⟨hinv.size, hinv.size_lt, hinv.results, .reading call 0 rfl rfl hcalls hcallbacks hwaits⟩

theorem Waits.respond {client : Client} {call responded bytesRead : Nat}
    {stream frame : List UInt8} (hwaits : Waits client call responded stream bytesRead)
    (hresponded : responded < call + 1) (hframed : SizeFramed frame)
    (hfits : frame.length ≤ client.mCurrSize) :
    Waits client call (responded + 1) (stream ++ frame) bytesRead := by
  rcases hwaits with ⟨hcall, hstream, hzero⟩ | ⟨hcall, _⟩
  · subst hstream hzero
    refine .inr ⟨by omega, ?_, frame, hframed, hfits, rfl⟩
    have hpos := hframed.size_le
    rw [List.nil_append, ← List.length_pos_iff]
    omega
  · omega

theorem Inv.respond (hinv : Inv state) {frame : List UInt8}
    (hfits : frame.length ≤ state.client.mCurrSize)
    (hnext : next state (.respond frame) = some after) : Inv after := by
  simp only [next] at hnext
  split at hnext
  · rename_i void hcall
    split at hnext
    · rename_i hresponse
      have hvoid : void = false := hinv.results void (List.mem_of_getElem? hcall)
      subst hvoid
      have hframed : SizeFramed frame := hresponse
      have hopen : state.responded < state.calls.length :=
        (List.getElem?_eq_some_iff.mp hcall).1
      cases hnext
      refine ⟨hinv.size, hinv.size_lt, hinv.results, ?_⟩
      cases hinv.stage with
      | idle _ _ _ hresponded => omega
      | writing call hwriting hreads hcalls hcallbacks hwaits =>
          exact .writing call hwriting hreads hcalls hcallbacks
            (hwaits.respond (by omega) hframed hfits)
      | reading call bytesRead hwriting hreads hcalls hcallbacks hwaits =>
          exact .reading call bytesRead hwriting hreads hcalls hcallbacks
            (hwaits.respond (by omega) hframed hfits)
    · contradiction
  · contradiction

/-- A chunk of the response `frame` has moved from the stream into the buffer. With the last
one the callback of the open call runs. -/
structure Delivered (state after : State) (count call bytesRead : Nat) (frame : List UInt8) :
    Prop where
  writing : state.writing = false
  reads : state.reads = [⟨call, false, bytesRead⟩]
  calls : state.calls.length = call + 1
  callbacks : state.callbacks = List.range call
  responded : state.responded = call + 1
  stream : state.stream ≠ []
  framed : SizeFramed frame
  fits : frame.length ≤ state.client.mCurrSize
  before : load state.client.mCurrentRequest 0 bytesRead ++ state.stream = frame
  arrived : load after.client.mCurrentRequest 0 (bytesRead + count) ++ after.stream = frame
  kept : after.client.mCurrSize = state.client.mCurrSize ∧ after.writing = state.writing ∧
    after.calls = state.calls ∧ after.responded = state.responded
  ended : after.stream = [] ∧ after.reads = [] ∧ after.callbacks = state.callbacks ++ [call] ∨
    after.stream ≠ [] ∧ after.reads = [⟨call, false, bytesRead + count⟩] ∧
      after.callbacks = state.callbacks

theorem Inv.delivered (hinv : Inv state) {count : Nat}
    (hnext : next state (.deliver count fresh) = some after) :
    ∃ call bytesRead frame, Delivered state after count call bytesRead frame := by
  simp only [next] at hnext
  split at hnext
  · rename_i read rest hlist
    split at hnext
    · rename_i hchunk
      obtain ⟨hone, _, havail⟩ := hchunk
      cases hinv.stage with
      | idle _ hreads | writing _ _ hreads =>
          rw [hreads] at hlist
          contradiction
      | reading call bytesRead hwriting hreads hcalls hcallbacks hwaits =>
          rw [hreads] at hlist
          obtain ⟨rfl, rfl⟩ := List.cons.inj hlist
          rcases hwaits with ⟨_, hempty, _⟩ |
            ⟨hresponded, hwaiting, frame, hframed, hfits, hreceived⟩
          · rw [hempty, List.length_nil] at havail
            omega
          · have hlength : (state.stream.take count).length = count := by
              rw [List.length_take]
              omega
            have htotal : bytesRead + state.stream.length = frame.length := by
              rw [← hreceived, List.length_append, length_load]
            have hload := load_received state.client bytesRead (state.stream.take count)
            rw [hlength] at hload
            have hgot : load (state.client.receive bytesRead
                (state.stream.take count)).mCurrentRequest 0 (bytesRead + count) ++
                state.stream.drop count = frame := by
              rw [hload, List.append_assoc, List.take_append_drop]
              exact hreceived
            have hcomplete := readResponse_complete_iff
              (state.client.receive bytesRead (state.stream.take count)) (bytesRead + count)
              fresh hframed hgot
            have hroom : bytesRead + count ≤ state.client.mCurrSize := by omega
            obtain ⟨hsize, hbytes⟩ := readResponse_keeps
              (state.client.receive bytesRead (state.stream.take count)) (bytesRead + count)
              fresh hroom
            rw [← hbytes] at hgot
            simp only [State.readResponse, Read.offset] at hnext
            refine ⟨call, bytesRead, frame, ?_⟩
            cases hdone : ((state.client.receive bytesRead
                (state.stream.take count)).readResponse (bytesRead + count) fresh).2 with
            | true =>
                simp [hdone] at hnext
                subst hnext
                exact ⟨hwriting, hreads, hcalls, hcallbacks, hresponded, hwaiting, hframed, hfits,
                  hreceived, hgot, ⟨hsize, rfl, rfl, rfl⟩, .inl ⟨hcomplete.mp hdone, rfl, rfl⟩⟩
            | false =>
                simp [hdone] at hnext
                subst hnext
                refine ⟨hwriting, hreads, hcalls, hcallbacks, hresponded, hwaiting, hframed, hfits,
                  hreceived, hgot, ⟨hsize, rfl, rfl, rfl⟩, .inr ⟨?_, rfl, rfl⟩⟩
                intro hempty
                rw [hcomplete.mpr hempty] at hdone
                contradiction
    · contradiction
  · contradiction

theorem Inv.deliver (hinv : Inv state) {count : Nat}
    (hnext : next state (.deliver count fresh) = some after) : Inv after := by
  obtain ⟨call, bytesRead, frame, hdelivered⟩ := hinv.delivered hnext
  obtain ⟨hsize, hwriting, hcalls, hresponded⟩ := hdelivered.kept
  refine ⟨hsize ▸ hinv.size, hsize ▸ hinv.size_lt, hcalls ▸ hinv.results, ?_⟩
  rcases hdelivered.ended with ⟨hempty, hreads, hcallbacks⟩ | ⟨hmore, hreads, hcallbacks⟩
  · refine .idle (hwriting.trans hdelivered.writing) hreads hempty ?_ ?_
    · rw [hresponded, hcalls, hdelivered.responded, hdelivered.calls]
    · rw [hcallbacks, hcalls, hdelivered.callbacks, hdelivered.calls, List.range_succ]
  · exact .reading call (bytesRead + count) (hwriting.trans hdelivered.writing) hreads
      (hcalls ▸ hdelivered.calls) (hcallbacks.trans hdelivered.callbacks)
      (.inr ⟨hresponded.trans hdelivered.responded, hmore, frame, hdelivered.framed,
        hsize ▸ hdelivered.fits, hdelivered.arrived⟩)

theorem Inv.next (hinv : Inv state) {label : Label} (hfitting : Fitting state label)
    (hnext : next state label = some after) : Inv after := by
  cases label with
  | execute void request fresh =>
      cases hfitting
      exact hinv.execute hnext
  | written fresh => exact hinv.written hnext
  | respond frame => exact hinv.respond hfitting hnext
  | deliver count fresh => exact hinv.deliver hnext

theorem inv_start (mCurrentRequest : Memory) : Inv (start mCurrentRequest) :=
  ⟨Nat.le_refl 1024, show 1024 < wordRange by decide, by simp [start], .idle rfl rfl rfl rfl rfl⟩

theorem Waits.arrived {client : Client} {call responded bytesRead : Nat} {stream : List UInt8}
    (hwaits : Waits client call responded stream bytesRead) :
    (if stream = [] then responded else responded - 1) = call := by
  rcases hwaits with ⟨hcall, hstream, _⟩ | ⟨hcall, hstream, _⟩
  · rw [if_pos hstream, hcall]
  · rw [if_neg hstream, hcall, Nat.add_sub_cancel]

theorem Inv.oneCallbackEach (hinv : Inv state) : OneCallbackEach state := by
  unfold OneCallbackEach State.arrived
  cases hinv.stage with
  | idle _ hreads hstream hresponded hcallbacks =>
      refine ⟨?_, fun _ => hreads, fun _ hpartial => absurd hstream hpartial⟩
      rw [if_pos hstream, hresponded]
      exact hcallbacks
  | writing call hwriting _ hcalls hcallbacks hwaits =>
      refine ⟨?_, ?_, ?_⟩
      · rw [hwaits.arrived]
        exact hcallbacks
      · rw [hcallbacks, hcalls, List.length_range]
        omega
      · rw [hwriting]
        intro hfalse
        contradiction
  | reading call bytesRead _ hreads hcalls hcallbacks hwaits =>
      refine ⟨?_, ?_, ?_⟩
      · rw [hwaits.arrived]
        exact hcallbacks
      · rw [hcallbacks, hcalls, List.length_range]
        omega
      · intro _ hpartial
        rcases hwaits with ⟨_, hempty, _⟩ | ⟨_, _, frame, _, hfits, hreceived⟩
        · exact absurd hempty hpartial
        · have htotal : bytesRead + state.stream.length = frame.length := by
            rw [← hreceived, List.length_append, length_load]
          have hpos := List.length_pos_iff.mpr hpartial
          refine ⟨⟨call, false, bytesRead⟩, by simp [hreads], ?_⟩
          show 0 < wrapSub state.client.mCurrSize bytesRead
          rw [wrapSub_of_le (by omega) hinv.size_lt]
          omega

end Steps

/-- If every call has a result and every response fits the recorded buffer size, each call
gets one callback, and no read is left over for the next response. -/
theorem one_callback_per_call (state : State) (hreach : machine.ReachableUnder Fitting state) :
    OneCallbackEach state := by
  apply Inv.oneCallbackEach
  apply hreach.invariant Inv
  · rintro _ ⟨mCurrentRequest, rfl⟩
    exact inv_start mCurrentRequest
  · intro before label after hinv hfitting hnext
    exact hinv.next hfitting hnext

instance (state : State) (label : Label) : Decidable (Fitting state label) :=
  match label with
  | .execute void _ _ => inferInstanceAs (Decidable (void = false))
  | .respond frame => inferInstanceAs (Decidable (frame.length ≤ state.client.mCurrSize))
  | .written _ | .deliver _ _ => isTrue trivial

def smallResponse : List UInt8 := natLE 8 9 ++ [7]

/-- Two calls; the second response is cut inside its size field. -/
theorem two_calls_two_callbacks :
    ∃ state, machine.ReachableUnder Fitting state ∧ state.calls = [false, false] ∧
      state.callbacks = [0, 1] ∧ OneCallbackEach state := by
  obtain ⟨state, hreach, htest⟩ := machine.exists_reachableUnder_of_replay Fitting
    (start fun _ => 0)
    [.execute false [1, 2] fun _ => 0, .written fun _ => 0, .respond smallResponse,
      .deliver 9 fun _ => 0, .execute false [3] fun _ => 0, .respond smallResponse,
      .written fun _ => 0, .deliver 3 fun _ => 0, .deliver 6 fun _ => 0]
    (fun state => decide (state.calls = [false, false] ∧ state.callbacks = [0, 1]))
    ⟨_, rfl⟩ (by decide +kernel)
  obtain ⟨hcalls, hcallbacks⟩ := of_decide_eq_true htest
  exact ⟨state, hreach, hcalls, hcallbacks, one_callback_per_call state hreach⟩

/-- After the callback of a void call its read loop is still waiting for bytes. -/
theorem void_call_keeps_reading :
    ∃ state, machine.Reachable state ∧ state.calls = [true] ∧ state.callbacks = [0] ∧
      state.reads = [⟨0, true, 1⟩] ∧ ¬ OneCallbackEach state := by
  obtain ⟨state, hreach, htest⟩ := machine.exists_reachable_of_replay (start fun _ => 0)
    [.execute true [1, 2] fun _ => 0, .written fun _ => 0, .respond [1], .deliver 1 fun _ => 0]
    (fun state => decide (state.calls = [true] ∧ state.callbacks = [0] ∧
      state.reads = [⟨0, true, 1⟩]))
    ⟨_, rfl⟩ (by decide +kernel)
  obtain ⟨hcalls, hcallbacks, hreads⟩ := of_decide_eq_true htest
  refine ⟨state, hreach, hcalls, hcallbacks, hreads, ?_⟩
  intro hone
  have hnone := hone.2.1 (by rw [hcallbacks, hcalls]; rfl)
  rw [hreads] at hnone
  contradiction

end Crossbow.Protocol.Calling
