import Crossbow.Kernel.Machine
import Crossbow.Protocol.Request
import Crossbow.Serializer.Decoded

/-! The response loop of the client for a command with a result. The response is read
into the buffer of the request; `mCurrSize` bounds every read, and a larger array that
is allocated for a long response is not recorded there. -/
namespace Crossbow.Protocol.Calling
open Kernel Serializer

/-- `allocated` is the length of the array behind `mCurrentRequest`. -/
structure Client where
  mCurrSize : Nat
  mCurrentRequest : Memory
  allocated : Nat

/-- `readResponse` up to the asynchronous read, and whether the response is complete. -/
def Client.readResponse (client : Client) (bytesRead : Nat) (fresh : Memory) : Client × Bool :=
  let respSize := decodeLE (load client.mCurrentRequest 0 8)
  if bytesRead ≥ 8 ∧ respSize = bytesRead then (client, true)
  else if bytesRead ≥ 8 ∧ respSize > client.mCurrSize then
    ({ client with
      mCurrentRequest := store fresh 0 (load client.mCurrentRequest 0 client.mCurrSize)
      allocated := respSize }, false)
  else (client, false)

def Client.readSize (client : Client) (bytesRead : Nat) : Nat := wrapSub client.mCurrSize bytesRead

def Client.receive (client : Client) (bytesRead : Nat) (bytes : List UInt8) : Client :=
  { client with mCurrentRequest := store client.mCurrentRequest bytesRead bytes }

variable {T : Type}

def responseSize (code : Code .type T) (value : T) : Nat :=
  sizerAdd (sizerAdd 0 (sizePolicy (.pod 8)) (numberBytes 8 0)) (sizePolicy code) value

def writeResponse (code : Code .type T) (value : T) (memory : Memory) (buffer : Nat) : Archive :=
  let ser := Archive.put ⟨memory, buffer⟩ (serializePolicy (.pod 8))
    (numberBytes 8 (responseSize code value))
  ser.put (serializePolicy code) value

def responseFrame (code : Code .type T) (value : T) (memory : Memory) (buffer : Nat) :
    List UInt8 :=
  load (writeResponse code value memory buffer).memory buffer (responseSize code value)

/-- The reading of one response. `outstanding` is the `bytes_read` of the pending read,
`results` are the values passed to the callback. -/
structure Reception (T : Type) where
  client : Client
  outstanding : Option Nat
  stream : List UInt8
  results : List T

/-- The continuation after a read, with the value that the callback gets. -/
def Reception.resume (code : Code .type T) (state : Reception T) (bytesRead : Nat)
    (fresh : Memory) : Reception T :=
  let (client, complete) := state.client.readResponse bytesRead fresh
  if complete then
    { state with
      client := client
      outstanding := none
      results := state.results ++ [(deserialize code code.fresh client.mCurrentRequest 8).1] }
  else { state with client := client, outstanding := some bytesRead }

/-- The socket delivers some of the next bytes, at most as many as asked for. -/
structure Delivery where
  count : Nat
  fresh : Memory

def nextDelivery (code : Code .type T) (state : Reception T) (delivery : Delivery) :
    Option (Reception T) :=
  match state.outstanding with
  | some bytesRead =>
      if 1 ≤ delivery.count ∧ delivery.count ≤ state.client.readSize bytesRead ∧
          delivery.count ≤ state.stream.length then
        let received := { state with
          client := state.client.receive bytesRead (state.stream.take delivery.count)
          stream := state.stream.drop delivery.count }
        some (received.resume code (bytesRead + delivery.count) delivery.fresh)
      else none
  | none => none

/-- The runs of `readResponse(callback)` while the bytes of `frame` arrive. -/
def reception (code : Code .type T) (client : Client) (frame : List UInt8) :
    Machine (Reception T) Delivery where
  initial := fun state => ∃ fresh, state = Reception.resume code ⟨client, none, frame, []⟩ 0 fresh
  next := nextDelivery code

/-- While bytes are missing at least one is asked for and no callback ran; with the last
byte the callback ran once, with the value of the server. -/
def Delivers (code : Code .type T) (value : T) (state : Reception T) : Prop :=
  (state.stream ≠ [] → state.results = [] ∧ ∃ bytesRead, state.outstanding = some bytesRead ∧
    0 < state.client.readSize bytesRead) ∧
  (state.stream = [] → state.outstanding = none ∧
    ∃ result, state.results = [result] ∧ code.Equal result value)

section Frames

theorem responseSize_eq (code : Code .type T) (value : T) :
    responseSize code value = 8 + code.fullSize value :=
  addSize_sizePolicy code _ value

theorem writeResponse_eq (code : Code .type T) (value : T) (memory : Memory) (buffer : Nat) :
    writeResponse code value memory buffer = Archive.append ⟨memory, buffer⟩
      (natLE 8 (responseSize code value) ++ code.encode value) := by
  have hsize := put_serializePolicy (.pod 8) ⟨memory, buffer⟩
    (numberBytes 8 (responseSize code value))
  have hvalue := put_serializePolicy code
    (Archive.append ⟨memory, buffer⟩ (natLE 8 (responseSize code value))) value
  simp only [Kind.put, encode_numberBytes] at hsize hvalue
  simp only [writeResponse, hsize, hvalue, append_append]

theorem length_responseFrame (code : Code .type T) (value : T) (memory : Memory) (buffer : Nat) :
    (responseFrame code value memory buffer).length = responseSize code value := by
  unfold responseFrame
  exact length_load ..

theorem responseFrame_framed (code : Code .type T) (value : T) (memory : Memory) (buffer : Nat)
    (hfits : (responseFrame code value memory buffer).length < wordRange) :
    SizeFramed (responseFrame code value memory buffer) := by
  have hsize := responseSize_eq code value
  have hlength := length_responseFrame code value memory buffer
  refine ⟨by omega, hfits, ?_⟩
  rw [hlength, responseFrame, take_load _ _ (by omega), writeResponse_eq]
  have hload := load_store_take memory buffer
    (show 8 ≤ (natLE 8 (responseSize code value) ++ code.encode value).length by simp)
  rw [List.take_left' (length_natLE 8 _)] at hload
  exact hload

theorem responseFrame_eq (code : Code .type T) {value : T} (hshort : code.Short value)
    (memory : Memory) (buffer : Nat) :
    responseFrame code value memory buffer =
      natLE 8 (responseSize code value) ++ code.encode value := by
  have hlength : responseSize code value =
      (natLE 8 (responseSize code value) ++ code.encode value).length := by
    rw [List.length_append, length_natLE, (encode_le_iff code value).2.mpr hshort]
    exact responseSize_eq code value
  have hload := load_store memory buffer
    (natLE 8 (responseSize code value) ++ code.encode value)
  rw [← hlength] at hload
  unfold responseFrame
  rw [writeResponse_eq]
  exact hload

theorem load_payload (code : Code .type T) {value : T} (hshort : code.Short value)
    {source memory : Memory} {buffer bytesRead : Nat}
    (hreceived : load memory 0 bytesRead = responseFrame code value source buffer) :
    load memory 8 (code.encode value).length = code.encode value := by
  rw [responseFrame_eq code hshort] at hreceived
  have hlength : bytesRead = 8 + (code.encode value).length := by
    rw [← length_load memory 0 bytesRead, hreceived, List.length_append, length_natLE]
  rw [hlength, load_append] at hreceived
  exact (List.append_inj hreceived (by simp)).2

end Frames

section Reading

variable (client : Client) (bytesRead : Nat) (fresh : Memory) {frame stream : List UInt8}

theorem readResponse_keeps (hroom : bytesRead ≤ client.mCurrSize) :
    (client.readResponse bytesRead fresh).1.mCurrSize = client.mCurrSize ∧
      load (client.readResponse bytesRead fresh).1.mCurrentRequest 0 bytesRead =
        load client.mCurrentRequest 0 bytesRead := by
  unfold Client.readResponse
  simp only
  split
  · exact ⟨rfl, rfl⟩
  · split
    · refine ⟨rfl, ?_⟩
      rw [load_store_take _ _ (by rw [length_load]; exact hroom), take_load _ _ hroom]
    · exact ⟨rfl, rfl⟩

theorem readResponse_complete_iff (hframed : SizeFramed frame)
    (hreceived : load client.mCurrentRequest 0 bytesRead ++ stream = frame) :
    (client.readResponse bytesRead fresh).2 = true ↔ stream = [] := by
  have hlength : bytesRead + stream.length = frame.length := by
    rw [← hreceived, List.length_append, length_load]
  have hsize := hframed.size_le
  have hfield : 8 ≤ bytesRead →
      decodeLE (load client.mCurrentRequest 0 8) = frame.length :=
    fun hle => hframed.decode hle hreceived
  rw [← List.length_eq_zero_iff]
  unfold Client.readResponse
  simp only
  split
  · rename_i hdone
    have := hfield hdone.1
    simp only [true_iff]
    omega
  · rename_i hopen
    have hpartial : stream.length ≠ 0 := by
      intro hzero
      exact hopen ⟨by omega, by rw [hfield (by omega)]; omega⟩
    split <;> simpa using hpartial

theorem readResponse_of_complete (hdone : (client.readResponse bytesRead fresh).2 = true) :
    (client.readResponse bytesRead fresh).1 = client := by
  unfold Client.readResponse at hdone ⊢
  simp only at hdone ⊢
  split
  · rfl
  · rename_i hopen
    rw [if_neg hopen] at hdone
    split at hdone <;> contradiction

end Reading

section Runs

variable {code : Code .type T} {value : T} {frame : List UInt8} {size : Nat}
  {state after : Reception T}

/-- The state of a reception: bytes are missing, or the callback ran. -/
structure Arriving (code : Code .type T) (value : T) (frame : List UInt8) (size : Nat)
    (state : Reception T) : Prop where
  size_eq : state.client.mCurrSize = size
  progress : (∃ bytesRead, state.outstanding = some bytesRead ∧ state.results = [] ∧
      load state.client.mCurrentRequest 0 bytesRead ++ state.stream = frame ∧
      state.stream ≠ []) ∨
    (state.outstanding = none ∧ state.stream = [] ∧
      ∃ result, state.results = [result] ∧ code.Equal result value)

theorem resume_of_complete (state : Reception T) (bytesRead : Nat) (fresh : Memory)
    (hdone : (state.client.readResponse bytesRead fresh).2 = true) :
    state.resume code bytesRead fresh = { state with
      outstanding := none
      results := state.results ++
        [(deserialize code code.fresh state.client.mCurrentRequest 8).1] } := by
  have hclient := readResponse_of_complete state.client bytesRead fresh hdone
  unfold Reception.resume
  simp only [hdone, hclient, if_true]

theorem resume_of_incomplete (state : Reception T) (bytesRead : Nat) (fresh : Memory)
    (hopen : (state.client.readResponse bytesRead fresh).2 = false) :
    state.resume code bytesRead fresh = { state with
      client := (state.client.readResponse bytesRead fresh).1
      outstanding := some bytesRead } := by
  unfold Reception.resume
  simp [hopen]

theorem arriving_resume (hlawful : code.Lawful) (hvalid : code.Valid value)
    (hshort : code.Short value) (habsorbs : code.Absorbs value code.fresh) {memory : Memory}
    {buffer : Nat}
    (hframe : frame = responseFrame code value memory buffer) (hframed : SizeFramed frame)
    (state : Reception T) (bytesRead : Nat) (fresh : Memory)
    (hsize : state.client.mCurrSize = size) (hresults : state.results = [])
    (hroom : bytesRead ≤ size)
    (hreceived : load state.client.mCurrentRequest 0 bytesRead ++ state.stream = frame) :
    Arriving code value frame size (state.resume code bytesRead fresh) := by
  obtain ⟨hkeepSize, hkeepBytes⟩ :=
    readResponse_keeps state.client bytesRead fresh (hsize ▸ hroom)
  have hcomplete := readResponse_complete_iff state.client bytesRead fresh hframed hreceived
  cases hdone : (state.client.readResponse bytesRead fresh).2 with
  | true =>
      have hstream := hcomplete.mp hdone
      rw [resume_of_complete state bytesRead fresh hdone]
      refine ⟨hsize, .inr ⟨rfl, hstream, ?_⟩⟩
      rw [hstream, List.append_nil, hframe] at hreceived
      obtain ⟨result, hread, hfate⟩ := deserialize_encode code hlawful hvalid hshort
        (fresh_valid code hlawful) (load_payload code hshort hreceived)
      refine ⟨result, ?_, hfate.equal habsorbs⟩
      rw [hresults, List.nil_append]
      exact congrArg (fun read => [read.1]) hread
  | false =>
      rw [resume_of_incomplete state bytesRead fresh hdone]
      refine ⟨hkeepSize.trans hsize, .inl ⟨bytesRead, rfl, hresults, ?_, ?_⟩⟩
      · rw [hkeepBytes]
        exact hreceived
      · intro hempty
        rw [hcomplete.mpr hempty] at hdone
        contradiction

theorem load_received (client : Client) (bytesRead : Nat) (bytes : List UInt8) :
    load (client.receive bytesRead bytes).mCurrentRequest 0 (bytesRead + bytes.length) =
      load client.mCurrentRequest 0 bytesRead ++ bytes :=
  load_store_end client.mCurrentRequest bytesRead bytes

theorem Arriving.next (hlawful : code.Lawful) (hvalid : code.Valid value)
    (hshort : code.Short value) (habsorbs : code.Absorbs value code.fresh) {memory : Memory}
    {buffer : Nat}
    (hframe : frame = responseFrame code value memory buffer) (hframed : SizeFramed frame)
    (hfits : frame.length ≤ size) (harriving : Arriving code value frame size state)
    {delivery : Delivery} (hnext : nextDelivery code state delivery = some after) :
    Arriving code value frame size after := by
  unfold nextDelivery at hnext
  split at hnext
  · rename_i bytesRead houtstanding
    split at hnext
    · rename_i hchunk
      cases hnext
      rcases harriving.progress with ⟨count, hcount, hresults, hreceived, hpartial⟩ | ⟨hnone, _⟩
      · rw [houtstanding] at hcount
        cases hcount
        have hlength : (state.stream.take delivery.count).length = delivery.count := by
          rw [List.length_take]
          omega
        have htotal : bytesRead + state.stream.length = frame.length := by
          rw [← hreceived, List.length_append, length_load]
        have hload := load_received state.client bytesRead (state.stream.take delivery.count)
        rw [hlength] at hload
        refine arriving_resume hlawful hvalid hshort habsorbs hframe hframed _ _ delivery.fresh
          harriving.size_eq hresults (by omega) ?_
        simp only
        rw [hload, List.append_assoc, List.take_append_drop]
        exact hreceived
      · rw [houtstanding] at hnone
        contradiction
    · contradiction
  · contradiction

theorem Arriving.delivers (hfits : frame.length ≤ size) (hrange : size < wordRange)
    (harriving : Arriving code value frame size state) : Delivers code value state := by
  have hsize := harriving.size_eq
  rcases harriving.progress with ⟨bytesRead, hread, hresults, hreceived, hpartial⟩ |
    ⟨hnone, hempty, hresult⟩
  · refine ⟨fun _ => ⟨hresults, bytesRead, hread, ?_⟩, fun hempty => absurd hempty hpartial⟩
    have htotal : bytesRead + state.stream.length = frame.length := by
      rw [← hreceived, List.length_append, length_load]
    have hpos := List.length_pos_iff.mpr hpartial
    unfold Client.readSize
    rw [hsize, wrapSub_of_le (by omega) hrange]
    omega
  · exact ⟨fun hpartial => absurd hempty hpartial, fun _ => ⟨hnone, hresult⟩⟩

theorem resume_zero (client : Client) (stream : List UInt8) (fresh : Memory) :
    Reception.resume code ⟨client, none, stream, []⟩ 0 fresh = ⟨client, some 0, stream, []⟩ := by
  simp [Reception.resume, Client.readResponse]

/-- The state after the first bytes of the response came in one chunk. -/
def firstChunk (code : Code .type T) (client : Client) (frame : List UInt8) (count : Nat) :
    Reception T :=
  Reception.resume code ⟨client.receive 0 (frame.take count), some 0, frame.drop count, []⟩
    count fun _ => 0

theorem reachable_firstChunk (code : Code .type T) (client : Client)
    (hrange : client.mCurrSize < wordRange) {count : Nat} (hcount : 1 ≤ count)
    (hroom : count ≤ client.mCurrSize) (havail : count ≤ frame.length) :
    (reception code client frame).Reachable (firstChunk code client frame count) := by
  have hstart : (reception code client frame).initial ⟨client, some 0, frame, []⟩ :=
    ⟨fun _ => 0, (resume_zero client frame fun _ => 0).symm⟩
  have hask : count ≤ client.readSize 0 := by
    unfold Client.readSize
    rw [wrapSub_of_le (Nat.zero_le _) hrange]
    omega
  have hnext : (reception code client frame).next ⟨client, some 0, frame, []⟩
      ⟨count, fun _ => 0⟩ = some (firstChunk code client frame count) := by
    simp only [reception, nextDelivery, if_pos (show 1 ≤ count ∧ count ≤ client.readSize 0 ∧
      count ≤ frame.length from ⟨hcount, hask, havail⟩), Nat.zero_add]
    rfl
  exact ⟨_, hstart, .step .refl trivial hnext⟩

theorem load_firstChunk (client : Client) {count : Nat} (havail : count ≤ frame.length) :
    load (client.receive 0 (frame.take count)).mCurrentRequest 0 count ++ frame.drop count =
      frame := by
  have hload := load_received client 0 (frame.take count)
  rw [List.length_take, Nat.min_eq_left havail, Nat.zero_add] at hload
  rw [hload, List.append_assoc, List.take_append_drop]
  rfl

theorem firstChunk_stuck (code : Code .type T) (value : T) (client : Client)
    (hrange : client.mCurrSize < wordRange) (hframed : SizeFramed frame)
    (hlong : client.mCurrSize < frame.length) :
    ¬ Delivers code value (firstChunk code client frame client.mCurrSize) := by
  have hreceived := load_firstChunk client (Nat.le_of_lt hlong)
  have hpartial : frame.drop client.mCurrSize ≠ [] := by
    rw [← List.length_pos_iff, List.length_drop]
    omega
  have hopen := Bool.eq_false_iff.mpr (mt (readResponse_complete_iff
    (client.receive 0 (frame.take client.mCurrSize)) client.mCurrSize (fun _ => 0) hframed
    hreceived).mp hpartial)
  have hsize : (client.receive 0 (frame.take client.mCurrSize)).mCurrSize = client.mCurrSize := rfl
  have hkeep := (readResponse_keeps (client.receive 0 (frame.take client.mCurrSize))
    client.mCurrSize (fun _ => 0) (Nat.le_of_eq hsize.symm)).1
  intro hdelivers
  unfold firstChunk at hdelivers
  rw [resume_of_incomplete ⟨client.receive 0 (frame.take client.mCurrSize), some 0,
    frame.drop client.mCurrSize, []⟩ client.mCurrSize (fun _ => 0) hopen] at hdelivers
  obtain ⟨_, bytesRead, hread, hask⟩ := hdelivers.1 hpartial
  have hsame : client.mCurrSize = bytesRead := Option.some.inj hread
  unfold Client.readSize at hask
  rw [hkeep.trans hsize, ← hsame, wrapSub_of_le (Nat.le_refl _) hrange, Nat.sub_self] at hask
  contradiction

theorem firstChunk_equal (client : Client) (hframed : SizeFramed frame)
    (hdelivers : Delivers code value (firstChunk code client frame frame.length)) :
    code.Equal (deserialize code code.fresh (client.receive 0 frame).mCurrentRequest 8).1
      value := by
  have hreceived := load_firstChunk client (Nat.le_refl frame.length)
  have hdone := (readResponse_complete_iff (client.receive 0 (frame.take frame.length))
    frame.length (fun _ => 0) hframed hreceived).mpr List.drop_length
  unfold firstChunk at hdelivers
  rw [resume_of_complete ⟨client.receive 0 (frame.take frame.length), some 0,
    frame.drop frame.length, []⟩ frame.length (fun _ => 0) hdone] at hdelivers
  obtain ⟨_, result, hresults, hequal⟩ := hdelivers.2 List.drop_length
  rw [List.nil_append, List.singleton_inj, List.take_length] at hresults
  rw [hresults]
  exact hequal

theorem firstChunk_absorbs (hlawful : code.Lawful) (hvalid : code.Valid value)
    (hshort : code.Short value) (hneutral : code.NeutralKeys) {memory : Memory} {buffer : Nat}
    (hframe : frame = responseFrame code value memory buffer) (client : Client)
    (hequal : code.Equal
      (deserialize code code.fresh (client.receive 0 frame).mCurrentRequest 8).1 value) :
    code.Absorbs value code.fresh := by
  have hreceived : load (client.receive 0 frame).mCurrentRequest 0 frame.length =
      responseFrame code value memory buffer := by
    rw [← hframe]
    exact load_store client.mCurrentRequest 0 frame
  obtain ⟨result, hread, hfate⟩ := deserialize_encode code hlawful hvalid hshort
    (fresh_valid code hlawful) (load_payload code hshort hreceived)
  rw [hread] at hequal
  exact hfate.absorbs hneutral hequal

end Runs

/-- A response reaches the callback under every fragmentation if it fits the recorded
buffer size, has no string that the serializer cuts, and the default object of its type
leaves no trace. The first condition is needed, the second as far as no default object
has such a string, and the third as far as the keys are neutral. -/
theorem response_reassembled_iff (code : Code .type T) (hlawful : code.Lawful) (value : T)
    (hvalid : code.Valid value) (client : Client) (hsize : 1024 ≤ client.mCurrSize)
    (hrange : client.mCurrSize < wordRange) (memory : Memory) (buffer : Nat)
    (frame : List UInt8) (hframe : frame = responseFrame code value memory buffer)
    (hlength : frame.length < wordRange) :
    ((frame.length ≤ client.mCurrSize ∧ code.Short value ∧ code.Absorbs value code.fresh) →
      ∀ state, (reception code client frame).Reachable state → Delivers code value state) ∧
    ((∀ state, (reception code client frame).Reachable state → Delivers code value state) →
      frame.length ≤ client.mCurrSize ∧ (code.ShortDefaults → code.Short value ∧
        (code.NeutralKeys → code.Absorbs value code.fresh))) := by
  have hframed : SizeFramed frame := by
    rw [hframe] at hlength ⊢
    exact responseFrame_framed code value memory buffer hlength
  have hpos := hframed.size_le
  constructor
  · rintro ⟨hfits, hshort, habsorbs⟩ state hreach
    apply Arriving.delivers hfits hrange
    apply hreach.invariant (Arriving code value frame client.mCurrSize)
    · rintro _ ⟨fresh, rfl⟩
      exact arriving_resume hlawful hvalid hshort habsorbs hframe hframed
        ⟨client, none, frame, []⟩ 0 fresh rfl rfl (Nat.zero_le _) rfl
    · intro before delivery after harriving _ hnext
      exact harriving.next hlawful hvalid hshort habsorbs hframe hframed hfits hnext
  · intro hall
    have hfits : frame.length ≤ client.mCurrSize := by
      by_contra hlong
      apply firstChunk_stuck code value client hrange hframed (by omega)
      apply hall
      exact reachable_firstChunk code client hrange (by omega) (Nat.le_refl _) (by omega)
    have hequal := firstChunk_equal client hframed
      (hall _ (reachable_firstChunk code client hrange (by omega) hfits (Nat.le_refl _)))
    refine ⟨hfits, fun hdefaults => ?_⟩
    have hshort := short_of_deserialized code hlawful hdefaults hequal
    exact ⟨hshort, fun hneutral =>
      firstChunk_absorbs hlawful hvalid hshort hneutral hframe client hequal⟩

def newClient : Client := ⟨1024, fun _ => 0, 1024⟩

theorem short_response_delivered :
    (responseFrame .crossbowString [104, 105] (fun _ => 0) 0).length = 14 ∧
      ∀ state, (reception .crossbowString newClient
          (responseFrame .crossbowString [104, 105] (fun _ => 0) 0)).Reachable state →
        Delivers .crossbowString [104, 105] state := by
  have hlength : (responseFrame .crossbowString [104, 105] (fun _ => 0) 0).length = 14 := by decide
  refine ⟨hlength, (response_reassembled_iff .crossbowString trivial [104, 105]
    (by simp [Code.Valid, wordRange]) newClient (Nat.le_refl 1024) (by decide) (fun _ => 0) 0 _ rfl
    ?_).1 ⟨?_, by simp [Code.Short], trivial⟩⟩
  · rw [hlength]
    decide
  · rw [hlength]
    decide

/-- A string of 2000 characters does not fit the 1024 bytes of a new client. -/
theorem long_response_stuck :
    ∃ state, (reception .crossbowString newClient
        (responseFrame .crossbowString (List.replicate 2000 7) (fun _ => 0) 0)).Reachable state ∧
      ¬ Delivers .crossbowString (List.replicate 2000 7) state := by
  have hlength : (responseFrame .crossbowString (List.replicate 2000 7) (fun _ => 0) 0).length =
      2012 := by
    rw [length_responseFrame, responseSize_eq]
    simp only [Code.fullSize, List.length_replicate]
  have hrange : newClient.mCurrSize < wordRange := by decide
  have hframed := responseFrame_framed .crossbowString (List.replicate 2000 7) (fun _ => 0) 0
    (by rw [hlength]; decide)
  have hlong : newClient.mCurrSize <
      (responseFrame .crossbowString (List.replicate 2000 7) (fun _ => 0) 0).length := by
    rw [hlength]
    decide
  exact ⟨_, reachable_firstChunk .crossbowString newClient hrange (by decide) (Nat.le_refl _)
    (Nat.le_of_lt hlong), firstChunk_stuck .crossbowString _ newClient hrange hframed hlong⟩

end Crossbow.Protocol.Calling
