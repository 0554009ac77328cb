import Crossbow.Protocol.Session

/-! Calls over a connection. The server executes the calls in the order in which they
were issued, each once and with the arguments of the client, and every callback gets
the result of its own call. -/
namespace Crossbow.Protocol.Session
open Kernel Serializer

variable {Command : Type} {service : Service Command}

namespace Service

def Lawful (service : Service Command) : Prop :=
  ∀ command, (service.pack command).Lawful ∧ (service.code command).Lawful

/-- The arguments can be encoded, and the default objects that the server reads them into
leave no trace. -/
def Issuable (service : Service Command) (call : service.Call) : Prop :=
  (service.pack call.1).Valid call.2 ∧ (service.pack call.1).Short call.2 ∧
    (service.pack call.1).Absorbs call.2

def Requests (service : Service Command) (call : service.Call) (frame : List UInt8) : Prop :=
  service.Issuable call ∧ ∃ memory, frame = service.request call memory

/-- The implementation got the arguments that were issued. -/
inductive Executes (service : Service Command) : service.Call → service.Call → Prop where
  | intro (command : Command) (issued executed : service.Arguments command)
      (hequal : (service.pack command).Equal executed issued) :
      Executes service ⟨command, issued⟩ ⟨command, executed⟩

def Encodable (service : Service Command) (call : service.Call) : Prop :=
  (service.code call.1).Valid (service.execute call.1 call.2) ∧
    (service.code call.1).Short (service.execute call.1 call.2) ∧
    (service.code call.1).Absorbs (service.execute call.1 call.2) (service.code call.1).fresh

def Responds (service : Service Command) (call : service.Call) (frame : List UInt8) : Prop :=
  service.Encodable call ∧ SizeFramed frame ∧ ∃ memory, frame =
    Calling.responseFrame (service.code call.1) (service.execute call.1 call.2) memory 0

/-- The callback of a call got the value of the implementation. -/
inductive Returns (service : Service Command) : service.Call → service.Reply → Prop where
  | intro (command : Command) (executed : service.Arguments command)
      (result : service.Result command)
      (hequal : (service.code command).Equal result (service.execute command executed)) :
      Returns service ⟨command, executed⟩ ⟨command, result⟩

end Service

/-- What a run is assumed to keep to: the arguments and the results can be encoded and are
not mixed with default contents, a response fits the recorded buffer size of the client,
and no chunk ends inside a size field that happens to spell the number of bytes read. -/
def Admits (state : State service) : Label service → Prop
  | .execute call _ => service.Issuable call
  | .answer _ => ∀ call, state.executing = some call → service.Encodable call ∧
      Calling.responseSize (service.code call.1) (service.execute call.1 call.2) ≤
        state.client.client.mCurrSize
  | .serverDeliver count fresh => Serving.Harmless state.server (.deliver count fresh)
  | .clientWritten _ | .clientDeliver _ _ | .serverWritten _ | .quit => True

/-- The bytes of the next response that the client has read. -/
def received (client : Calling.State) : List UInt8 :=
  match client.reads with
  | [] => []
  | read :: _ => load client.client.mCurrentRequest 0 read.bytesRead

structure Inv (state : State service) : Prop where
  client : Calling.Inv state.client
  server : Serving.Inv state.server
  calls : state.client.calls.length = state.issued.length
  sent : state.server.sent.length = state.issued.length
  requests : Follows service.Requests state.issued state.server.sent
  dispatched : state.executed.length = state.server.server.dispatched.length
  executed : Follows service.Executes state.issued state.executed
  executing : state.executing =
    if state.server.server.phase = .executing then state.executed.getLast? else none
  answered : state.server.answered = state.responses.length
  responded : state.client.responded = state.responses.length
  responses : Follows service.Responds state.executed state.responses
  arriving : state.client.stream ≠ [] →
    state.responses.getLast? = some (received state.client ++ state.client.stream)
  callbacks : state.client.callbacks.length = state.results.length
  results : Follows service.Returns state.executed state.results

section Frames

theorem Service.Requests.request {call : service.Call} {frame : List UInt8}
    (hrequests : service.Requests call frame) (hlength : frame.length < wordRange) :
    Serving.Request frame := by
  obtain ⟨⟨_, hshort, _⟩, memory, rfl⟩ := hrequests
  have hsize : (service.request call memory).length =
      requestSize (service.pack call.1) (service.id call.1) call.2 := by
    unfold Service.request requestFrame
    exact length_load ..
  have hbytes := requestFrame_eq (service.pack call.1) (service.id call.1) hshort memory 0
  have hleading : (service.request call memory).take 8 =
      natLE 8 (service.request call memory).length := by
    rw [hsize]
    unfold Service.request
    rw [hbytes, List.append_assoc]
    exact List.take_left' (length_natLE 8 _)
  have hlong := requestSize_eq (service.pack call.1) (service.id call.1) hshort
  exact ⟨⟨by omega, hlength, hleading⟩, by omega⟩

theorem Service.Requests.dispatch (hlawful : service.Lawful) {call : service.Call}
    {frame : List UInt8} (hrequests : service.Requests call frame) {mBuffer : Memory}
    (hload : load mBuffer 0 frame.length = frame) :
    ∃ executed, service.dispatch mBuffer = some executed ∧ service.Executes call executed := by
  obtain ⟨⟨hvalid, hshort, habsorbs⟩, memory, hframe⟩ := hrequests
  obtain ⟨command, args⟩ := call
  have hbytes := requestFrame_eq (service.pack command) (service.id command) hshort memory 0
  have hsplit : load mBuffer 0 frame.length =
      natLE 8 (requestSize (service.pack command) (service.id command) args) ++
        (natLE 4 (service.id command) ++ (service.pack command).encode args) := by
    rw [hload, hframe]
    unfold Service.request
    rw [hbytes, List.append_assoc]
  have hlength : frame.length = 8 + (4 + ((service.pack command).encode args).length) := by
    have hsize := congrArg List.length hsplit
    rw [length_load] at hsize
    simpa using hsize
  rw [hlength, load_append, load_append] at hsplit
  obtain ⟨_, htail⟩ := List.append_inj hsplit (by simp)
  obtain ⟨hcommand, hargs⟩ := List.append_inj htail (by simp)
  have hid : decodeLE (load mBuffer 8 4) = service.id command := by
    rw [Nat.zero_add] at hcommand
    rw [hcommand]
    exact decodeLE_natLE_of_lt (service.id_lt command)
  obtain ⟨result, hread, hequal, _⟩ :=
    readArguments_encode (service.pack command) (hlawful command).1 hvalid hshort hargs
  refine ⟨⟨command, (service.pack command).elements result⟩, ?_,
    .intro command args _ (hequal habsorbs)⟩
  unfold Service.dispatch
  rw [hid, service.select_id, Option.map_some, hread]

theorem Service.Responds.reply (hlawful : service.Lawful) {call : service.Call}
    {frame : List UInt8} (hresponds : service.Responds call frame) {mCurrentRequest : Memory}
    (hload : load mCurrentRequest 0 frame.length = frame) :
    service.Returns call (service.reply call.1 mCurrentRequest) := by
  obtain ⟨⟨hvalid, hshort, habsorbs⟩, _, memory, hframe⟩ := hresponds
  obtain ⟨command, args⟩ := call
  have hpayload := Calling.load_payload (service.code command) hshort (hload.trans hframe)
  obtain ⟨result, hread, hfate⟩ := deserialize_encode (service.code command) (hlawful command).2
    hvalid hshort (fresh_valid _ (hlawful command).2) hpayload
  unfold Service.reply
  rw [hread]
  exact .intro command args result (hfate.equal habsorbs)

end Frames

section Ends

theorem read_cases (server : Serving.Server) {bytesRead : Nat} (hpos : bytesRead ≠ 0)
    (fresh : Memory) :
    server.read bytesRead fresh = { server with
        phase := .executing
        dispatched := server.dispatched ++
          [⟨decodeLE (load server.mBuffer 8 4), load server.mBuffer 0 bytesRead⟩] } ∨
      (server.read bytesRead fresh).phase = .reading bytesRead ∧
        (server.read bytesRead fresh).dispatched = server.dispatched := by
  unfold Serving.Server.read
  rw [if_neg (fun hquit => hpos hquit.1)]
  dsimp only
  rw [if_pos hpos]
  by_cases hdone : bytesRead ≠ 0 ∧ decodeLE (load server.mBuffer 0 8) = bytesRead
  · rw [if_pos hdone]
    exact .inl rfl
  · rw [if_neg hdone]
    split
    · exact .inr ⟨rfl, rfl⟩
    · exact .inr ⟨rfl, rfl⟩

theorem serverDeliver_cases {server after : Serving.State} {count : Nat} {fresh : Memory}
    (hnext : Serving.next server (.deliver count fresh) = some after) :
    (∃ bytesRead, server.server.phase = .reading bytesRead) ∧
      after.sent = server.sent ∧ after.answered = server.answered ∧
      ((∃ size, after.server.phase = .executing ∧
          after.server.dispatched = server.server.dispatched ++
            [⟨decodeLE (load after.server.mBuffer 8 4), load after.server.mBuffer 0 size⟩]) ∨
        ((∃ bytesRead, after.server.phase = .reading bytesRead) ∧
          after.server.dispatched = server.server.dispatched)) := by
  simp only [Serving.next] at hnext
  split at hnext
  · rename_i bytesRead hphase
    split at hnext
    · rename_i hchunk
      cases hnext
      refine ⟨⟨bytesRead, hphase⟩, rfl, rfl, ?_⟩
      dsimp only
      rcases read_cases (server.server.receive bytesRead (server.stream.take count))
        (show bytesRead + count ≠ 0 by omega) fresh with hdone | ⟨hopen, hsame⟩
      · rw [hdone]
        exact .inl ⟨bytesRead + count, rfl, rfl⟩
      · exact .inr ⟨⟨_, hopen⟩, hsame⟩
    · contradiction
  · contradiction

end Ends

section Steps

variable {state after : State service} {fresh : Memory}

theorem Inv.execute (hinv : Inv state) {call : service.Call}
    (hadmits : Admits state (.execute call fresh))
    (hnext : state.execute call fresh = some after) : Inv after := by
  unfold State.execute at hnext
  dsimp only at hnext
  generalize (if state.client.client.mCurrSize < requestSize (service.pack call.1)
    (service.id call.1) call.2 then fresh else state.client.client.mCurrentRequest) = memory
    at hnext
  obtain ⟨client, hclient, rfl⟩ := Option.map_eq_some_iff.mp hnext
  obtain ⟨_, hstream, hresponded, _, hlength, rfl⟩ := hinv.client.idle_of_execute hclient
  have hrequests : service.Requests call (service.request call memory) :=
    ⟨hadmits, memory, rfl⟩
  have hanswered : state.server.answered = state.server.sent.length := by
    rw [hinv.answered, ← hinv.responded, hresponded, hinv.calls, hinv.sent]
  exact { hinv with
    client := hinv.client.execute hclient
    server := hinv.server.send hanswered (hrequests.request hlength)
    calls := by simp [hinv.calls]
    sent := by simp [hinv.sent]
    requests := by
      refine (hinv.requests.extend call).push ?_ hrequests
      rw [hinv.sent]
      exact List.getElem?_concat_length ..
    executed := hinv.executed.extend call
    arriving := fun hpartial => absurd hstream hpartial }

theorem Inv.clientWritten (hinv : Inv state) {client : Calling.State}
    (hclient : Calling.next state.client (.written fresh) = some client) :
    Inv { state with client := client } := by
  have hafter := hinv.client.written hclient
  obtain ⟨call, hreads, _, _, _, rfl⟩ := hinv.client.written_eq hclient
  refine { hinv with client := hafter, arriving := ?_ }
  intro hpartial
  have hlast := hinv.arriving hpartial
  unfold received at hlast ⊢
  rw [hreads] at hlast
  exact hlast

theorem replies_of_callback {client : Calling.State} {call : Nat} {issued : service.Call}
    (hcallbacks : client.callbacks = state.client.callbacks ++ [call])
    (hissued : state.issued[call]? = some issued) :
    state.replies client = [service.reply issued.1 client.client.mCurrentRequest] := by
  unfold State.replies
  rw [hcallbacks, List.drop_left, List.filterMap_cons, hissued]
  rfl

theorem Inv.returns (hlawful : service.Lawful) (hinv : Inv state) {call : Nat}
    {mCurrentRequest : Memory} {size : Nat} (hcount : state.responses.length = call + 1)
    (hload : state.responses.getLast? = some (load mCurrentRequest 0 size)) :
    ∃ issued executed, state.issued[call]? = some issued ∧
      state.executed[call]? = some executed ∧
      service.Returns executed (service.reply issued.1 mCurrentRequest) := by
  have hlast : state.responses[call]? = some (load mCurrentRequest 0 size) := by
    rw [List.getLast?_eq_getElem?, hcount] at hload
    exact hload
  obtain ⟨executed, hexecuted, hresponds⟩ := hinv.responses call _ hlast
  obtain ⟨issued, hissued, hsame⟩ := hinv.executed call executed hexecuted
  refine ⟨issued, executed, hissued, hexecuted, ?_⟩
  have hcommand : issued.1 = executed.1 := by
    cases hsame
    rfl
  rw [hcommand]
  apply hresponds.reply hlawful
  rw [length_load]

theorem Inv.clientDeliver (hlawful : service.Lawful) (hinv : Inv state) {client : Calling.State}
    {count : Nat} (hclient : Calling.next state.client (.deliver count fresh) = some client) :
    Inv { state with client := client, results := state.results ++ state.replies client } := by
  have hafter := hinv.client.deliver hclient
  obtain ⟨call, bytesRead, frame, hdelivered⟩ := hinv.client.delivered hclient
  obtain ⟨_, _, hsame, hcount⟩ := hdelivered.kept
  have hcalls := hsame ▸ hinv.calls
  have hresponded := hcount.trans hinv.responded
  have hlast := hinv.arriving hdelivered.stream
  unfold received at hlast
  rw [hdelivered.reads, hdelivered.before, ← hdelivered.arrived] at hlast
  rcases hdelivered.ended with ⟨hempty, _, hcallback⟩ | ⟨hmore, hread, hnone⟩
  · rw [hempty, List.append_nil] at hlast
    obtain ⟨issued, executed, hissued, hexecuted, hreturns⟩ :=
      hinv.returns hlawful (hinv.responded.symm.trans hdelivered.responded) hlast
    rw [replies_of_callback hcallback hissued]
    have hresults : state.results.length = call := by
      rw [← hinv.callbacks, hdelivered.callbacks, List.length_range]
    refine { hinv with
      client := hafter
      calls := hcalls
      responded := hresponded
      arriving := fun hrest => absurd hempty hrest
      callbacks := ?_
      results := hinv.results.push (hresults ▸ hexecuted) hreturns }
    rw [hcallback, List.length_append, List.length_append, hinv.callbacks]
    rfl
  · have hreplies : state.replies client = [] := by
      unfold State.replies
      rw [hnone, List.drop_length]
      rfl
    rw [hreplies, List.append_nil]
    refine { hinv with
      client := hafter
      calls := hcalls
      responded := hresponded
      arriving := ?_
      callbacks := hnone ▸ hinv.callbacks }
    intro _
    unfold received
    rw [hread]
    exact hlast

theorem Inv.phase_executing (hinv : Inv state)
    (hphase : state.server.server.phase = .executing) :
    state.server.answered + 1 = state.server.sent.length ∧
      state.server.server.dispatched = state.server.sent.map Serving.dispatchOf := by
  have hok := hinv.server.phase
  unfold Serving.PhaseOk at hok
  simp only [hphase] at hok
  exact ⟨hok.1, hok.2.2⟩

theorem Inv.serverDeliver (hlawful : service.Lawful) (hinv : Inv state) {count : Nat}
    (hadmits : Admits state (.serverDeliver count fresh))
    (hnext : state.serverDeliver count fresh = some after) : Inv after := by
  obtain ⟨server, hserver, rfl⟩ := Option.map_eq_some_iff.mp hnext
  have hafter := hinv.server.deliver hadmits hserver
  obtain ⟨⟨bytesRead, hreading⟩, hsent, hanswered, hcases⟩ := serverDeliver_cases hserver
  have hidle : state.executing = none := by
    rw [hinv.executing, hreading, if_neg (by simp)]
  rcases hcases with ⟨size, hphase, hdispatched⟩ | ⟨⟨more, hphase⟩, hdispatched⟩
  · have hok := hafter.phase
    unfold Serving.PhaseOk at hok
    simp only [hphase] at hok
    obtain ⟨hopen, _, hall⟩ := hok
    rw [hdispatched, hsent] at hall
    have hcount : state.server.sent.length = state.executed.length + 1 := by
      rw [hinv.dispatched, ← List.length_map Serving.dispatchOf, ← hall, List.length_append]
      rfl
    obtain ⟨frame, hframe⟩ : ∃ frame, state.server.sent[state.executed.length]? = some frame :=
      ⟨_, List.getElem?_eq_getElem (by omega)⟩
    -- the dispatch that was recorded last is the one of the last request
    have hbytes : load server.server.mBuffer 0 size = frame := by
      have hlast := congrArg (fun list => list[state.executed.length]?) hall
      simp only [hinv.dispatched, List.getElem?_concat_length, List.getElem?_map] at hlast
      rw [← hinv.dispatched, hframe] at hlast
      exact congrArg Serving.Dispatch.request (Option.some.inj hlast)
    obtain ⟨call, hcall, hrequests⟩ := hinv.requests _ frame hframe
    obtain ⟨executed, hdispatch, hexecutes⟩ := hrequests.dispatch hlawful (by
      rw [← hbytes, length_load])
    simp only [hphase, hdispatch, Option.toList_some]
    exact { hinv with
      server := hafter
      sent := by
        rw [hsent]
        exact hinv.sent
      requests := by
        rw [hsent]
        exact hinv.requests
      dispatched := by
        rw [hdispatched, List.length_append, List.length_append, hinv.dispatched]
        rfl
      executed := hinv.executed.push hcall hexecutes
      executing := by
        rw [if_pos hphase, List.getLast?_concat]
      answered := hanswered.trans hinv.answered
      responses := hinv.responses.extend executed
      results := hinv.results.extend executed }
  · simp only [hphase]
    exact { hinv with
      server := hafter
      sent := by
        rw [hsent]
        exact hinv.sent
      requests := by
        rw [hsent]
        exact hinv.requests
      dispatched := by
        rw [hdispatched]
        exact hinv.dispatched
      executing := by
        rw [hphase, if_neg (by simp)]
        exact hidle
      answered := hanswered.trans hinv.answered }

theorem Inv.respond (hinv : Inv state) {frame : List UInt8}
    (hphase : state.server.server.phase = .executing) (hframed : SizeFramed frame)
    (hfits : frame.length ≤ state.client.client.mCurrSize) :
    Calling.Inv { state.client with
        stream := state.client.stream ++ frame
        responded := state.client.responded + 1 } ∧
      received state.client = [] ∧ state.client.stream = [] := by
  have hopen := (hinv.phase_executing hphase).1
  have hresponded : state.client.responded + 1 = state.client.calls.length := by
    rw [hinv.responded, ← hinv.answered, hopen, hinv.sent, hinv.calls]
  obtain ⟨void, hvoid⟩ : ∃ void, state.client.calls[state.client.responded]? = some void :=
    ⟨_, List.getElem?_eq_getElem (by omega)⟩
  have hresult : void = false := hinv.client.results void (List.mem_of_getElem? hvoid)
  subst hresult
  refine ⟨hinv.client.respond hfits ?_, ?_⟩
  · simp only [Calling.next, hvoid]
    exact if_pos hframed
  · unfold received
    cases hinv.client.stage with
    | idle _ _ _ hdone => omega
    | writing call _ hreads hcalls _ hwaits =>
        rcases hwaits with ⟨_, hstream, _⟩ | ⟨hdone, _⟩
        · rw [hreads]
          exact ⟨rfl, hstream⟩
        · omega
    | reading call bytesRead _ hreads hcalls _ hwaits =>
        rcases hwaits with ⟨_, hstream, hzero⟩ | ⟨hdone, _⟩
        · rw [hreads, hzero]
          exact ⟨rfl, hstream⟩
        · omega

theorem Inv.executing_call (hinv : Inv state) {call : service.Call}
    (hexecuting : state.executing = some call)
    (hphase : state.server.server.phase = .executing) :
    state.executed[state.responses.length]? = some call := by
  have hlast := hinv.executing
  have hcount := hinv.phase_executing hphase
  have hdispatched := congrArg List.length hcount.2
  rw [List.length_map, ← hinv.dispatched, ← hcount.1, hinv.answered] at hdispatched
  rw [hexecuting, if_pos hphase, List.getLast?_eq_getElem?, hdispatched] at hlast
  exact hlast.symm

theorem Inv.answer (hinv : Inv state) (hadmits : Admits state (.answer fresh))
    (hnext : state.answer fresh = some after) :
    Inv after := by
  unfold State.answer at hnext
  split at hnext
  · contradiction
  · rename_i call hexecuting
    obtain ⟨hencodable, hfits⟩ := hadmits call hexecuting
    dsimp only at hnext
    generalize (if state.server.server.mBufSize < Calling.responseSize (service.code call.1)
      (service.execute call.1 call.2) then fresh else state.server.server.mBuffer) = memory
      at hnext
    obtain ⟨server, hserver, rfl⟩ := Option.map_eq_some_iff.mp hnext
    have hafter : Serving.Inv server := by
      refine hinv.server.next ?_ hserver
      trivial
    simp only [Serving.next] at hserver
    split at hserver
    · rename_i hphase
      cases hserver
      have hlength := Calling.length_responseFrame (service.code call.1)
        (service.execute call.1 call.2) memory 0
      have hsize := hinv.client.size_lt
      have hframed := Calling.responseFrame_framed (service.code call.1)
        (service.execute call.1 call.2) memory 0 (by omega)
      obtain ⟨hclient, hnone, hstream⟩ := hinv.respond hphase hframed (by omega)
      have horigin := hinv.executing_call hexecuting hphase
      exact { hinv with
        client := hclient
        server := hafter
        executing := (if_neg (by simp [Serving.Server.respond])).symm
        answered := by simp [hinv.answered]
        responded := by simp [hinv.responded]
        responses := hinv.responses.push horigin ⟨hencodable, hframed, memory, rfl⟩
        arriving := by
          intro _
          have hsame : received { state.client with
              stream := state.client.stream ++ Calling.responseFrame (service.code call.1)
                (service.execute call.1 call.2) memory 0
              responded := state.client.responded + 1 } = [] := hnone
          rw [List.getLast?_concat, hsame, hstream]
          rfl }
    · contradiction

theorem Inv.serverWritten (hinv : Inv state) {server : Serving.State}
    (hserver : Serving.next state.server (.written fresh) = some server) :
    Inv { state with server := server } := by
  have hafter : Serving.Inv server := by
    refine hinv.server.next ?_ hserver
    trivial
  simp only [Serving.next] at hserver
  split at hserver
  · rename_i hphase
    cases hserver
    have hidle := hinv.executing
    rw [hphase, if_neg (by simp)] at hidle
    have hread : (state.server.server.read 0 fresh).phase ≠ .executing ∧
        (state.server.server.read 0 fresh).dispatched = state.server.server.dispatched := by
      unfold Serving.Server.read
      split
      · exact ⟨by simp, rfl⟩
      · simp
    exact { hinv with
      server := hafter
      dispatched := by
        rw [hread.2]
        exact hinv.dispatched
      executing := by
        rw [if_neg hread.1]
        exact hidle }
  · contradiction

theorem Inv.next (hlawful : service.Lawful) (hinv : Inv state) {label : Label service}
    (hadmits : Admits state label) (hnext : next state label = some after) : Inv after := by
  cases label with
  | execute call fresh => exact hinv.execute hadmits hnext
  | clientWritten fresh =>
      obtain ⟨client, hclient, rfl⟩ := Option.map_eq_some_iff.mp hnext
      exact hinv.clientWritten hclient
  | clientDeliver count fresh =>
      obtain ⟨client, hclient, rfl⟩ := Option.map_eq_some_iff.mp hnext
      exact hinv.clientDeliver hlawful hclient
  | serverDeliver count fresh => exact hinv.serverDeliver hlawful hadmits hnext
  | answer fresh => exact hinv.answer hadmits hnext
  | serverWritten fresh =>
      obtain ⟨server, hserver, rfl⟩ := Option.map_eq_some_iff.mp hnext
      exact hinv.serverWritten hserver
  | quit =>
      cases hnext
      exact { hinv with
        server := ⟨hinv.server.bufSize, hinv.server.bufSize_lt, hinv.server.phase⟩ }

theorem inv_start (service : Service Command) (mCurrentRequest mBuffer : Memory) :
    Inv (start service mCurrentRequest mBuffer) where
  client := Calling.inv_start mCurrentRequest
  server := Serving.inv_start mBuffer
  calls := rfl
  sent := rfl
  requests := .nil _ _
  dispatched := rfl
  executed := .nil _ _
  executing := rfl
  answered := rfl
  responded := rfl
  responses := .nil _ _
  arriving := fun hpartial => absurd rfl hpartial
  callbacks := rfl
  results := .nil _ _

theorem inv_of_reachable (hlawful : service.Lawful)
    (hreach : (machine service).ReachableUnder Admits state) : Inv state := by
  refine hreach.invariant Inv ?_ ?_
  · rintro _ ⟨mCurrentRequest, mBuffer, rfl⟩
    exact inv_start service mCurrentRequest mBuffer
  · intro middle label last hinv hadmits hnext
    exact hinv.next hlawful hadmits hnext

end Steps

section Results

variable {state : State service}

/-- The calls are executed in order, each at most once and with the arguments they were
issued with, and each callback gets the result that its own call was executed to. -/
theorem calls_return_their_results (hlawful : service.Lawful)
    (hreach : (machine service).ReachableUnder Admits state) :
    Follows service.Executes state.issued state.executed ∧
      Follows service.Returns state.executed state.results := by
  have hinv := inv_of_reachable hlawful hreach
  exact ⟨hinv.executed, hinv.results⟩

def reverser : Service Unit where
  Arguments := fun _ => List UInt8 × Unit
  Result := fun _ => List UInt8
  id := fun _ => 1
  pack := fun _ => .cons .crossbowString .nil
  code := fun _ => .crossbowString
  execute := fun _ args => args.1.reverse
  select := fun command => if command = 1 then some () else none
  id_lt := fun _ => by decide
  select_id := fun _ => rfl

theorem reverser_lawful : reverser.Lawful := fun _ => ⟨⟨trivial, trivial⟩, trivial⟩

instance (state : State reverser) (label : Label reverser) : Decidable (Admits state label) :=
  match label with
  | .execute call _ => inferInstanceAs (Decidable ((call.2.1.length < wordRange ∧ True) ∧
      (call.2.1.length < 2 ^ 32 ∧ True) ∧ (True ∧ True)))
  | .answer _ => inferInstanceAs (Decidable (∀ call ∈ state.executing,
      (call.2.1.reverse.length < wordRange ∧ call.2.1.reverse.length < 2 ^ 32 ∧ True) ∧
        Calling.responseSize .crossbowString call.2.1.reverse ≤ state.client.client.mCurrSize))
  | .serverDeliver count fresh =>
      inferInstanceAs (Decidable (Serving.Harmless state.server (.deliver count fresh)))
  | .clientWritten _ | .clientDeliver _ _ | .serverWritten _ | .quit => isTrue trivial

/-- Two calls; the second one is issued before the server has finished its first write. -/
def twoCalls : List (Label reverser) :=
  [.execute ⟨(), [1, 2], ()⟩ fun _ => 0, .clientWritten fun _ => 0, .serverDeliver 10 fun _ => 0,
    .serverDeliver 8 fun _ => 0, .answer fun _ => 0, .clientDeliver 3 fun _ => 0,
    .clientDeliver 11 fun _ => 0, .execute ⟨(), [7], ()⟩ fun _ => 0, .serverWritten fun _ => 0]

def issuedStrings (state : State reverser) : List (List UInt8) :=
  state.issued.map fun call => call.2.1

def returnedStrings (state : State reverser) : List (List UInt8) :=
  state.results.map fun reply => reply.2

theorem first_of_two_calls_returned :
    ∃ state, (machine reverser).ReachableUnder Admits state ∧
      issuedStrings state = [[1, 2], [7]] ∧ returnedStrings state = [[2, 1]] ∧
      Follows reverser.Returns state.executed state.results := by
  obtain ⟨state, hreach, htest⟩ := (machine reverser).exists_reachableUnder_of_replay Admits
    (start reverser (fun _ => 0) fun _ => 0) twoCalls
    (fun state => decide (issuedStrings state = [[1, 2], [7]] ∧
      returnedStrings state = [[2, 1]])) ⟨_, _, rfl⟩ (by decide +kernel)
  obtain ⟨hissued, hreturned⟩ := of_decide_eq_true htest
  exact ⟨state, hreach, hissued, hreturned, (calls_return_their_results reverser_lawful hreach).2⟩

end Results
end Crossbow.Protocol.Session
