import Crossbow.Infinio.FlushSchedule
import Crossbow.Infinio.Framing
import Mathlib.Data.List.Forall2

/-! What the receiver gets is what `writeMessage` accepted. Every posted buffer and
the written part of the current one are batches of whole frames, and together
they hold the accepted messages in order. -/
namespace Crossbow.Infinio.BatchingMessageSocket
open Kernel

/-- An aligned buffer that ends four gigabytes before the end of the address space, so
that no frame length added to a pointer into it wraps around. -/
structure Buffer.Proper (buffer : Buffer) : Prop where
  aligned : 8 ∣ buffer.addr
  whole : 8 ∣ buffer.length
  short : buffer.length < 2 ^ 32
  range : buffer.addr + buffer.length + 2 ^ 32 ≤ wordRange

/-- The environment of the round trip: sends succeed, send buffers are proper and
`HEADER_SIZE + messageLength` does not overflow. -/
def Assumed (_ : State) : Label → Prop
  | .write call =>
      call.length.toNat < 2 ^ 32 - 16 ∧ call.sendFails = false ∧
        ∀ buffer, call.acquired = some buffer → buffer.Proper
  | .flush sendFails => sendFails = false

/-- The part of a send buffer before the cursor holds the pending messages. -/
structure Filled (memory : Memory) (cursor : Cursor) (buffer : Buffer)
    (pending : List Message) : Prop where
  proper : buffer.Proper
  addr_le : buffer.addr ≤ cursor.pos
  pos_le : cursor.pos ≤ cursor.stop
  stop_eq : cursor.stop = buffer.addr + buffer.length
  frames : Frames (load memory buffer.addr (cursor.pos - buffer.addr)) pending

structure Framed (state : State) (groups : List (List Message)) (pending : List Message) :
    Prop where
  sent : List.Forall₂ Frames state.sent groups
  accepted : state.accepted = groups.flatten ++ pending
  closed : state.buffer = none → state.sendBuffer = Cursor.ofLength 0 0 ∧ pending = []
  opened : ∀ buffer, state.buffer = some buffer →
    Filled state.memory state.sendBuffer buffer pending

theorem framed_start (memory : Memory) : Framed (start memory) [] [] where
  sent := .nil
  accepted := rfl
  closed := fun _ => ⟨rfl, rfl⟩
  opened := fun _ hbuffer => nomatch hbuffer

theorem filled_fresh (memory : Memory) {buffer : Buffer} (hproper : buffer.Proper) :
    Filled memory (Cursor.ofLength buffer.addr buffer.length) buffer [] where
  proper := hproper
  addr_le := Nat.le_refl _
  pos_le := by
    have hrange := hproper.range
    rw [Cursor.ofLength_eq (by omega)]
    exact Nat.le_add_right _ _
  stop_eq := by
    have hrange := hproper.range
    rw [Cursor.ofLength_eq (by omega)]
  frames := by
    rw [Cursor.ofLength, Nat.sub_self]
    exact .nil

variable {pending : List Message} {state : State} {groups : List (List Message)}

theorem Filled.shrink {memory : Memory} {cursor : Cursor} {buffer : Buffer}
    (hfilled : Filled memory cursor buffer pending) :
    load memory (buffer.shrink (wrapSub cursor.pos buffer.addr)).addr
        (buffer.shrink (wrapSub cursor.pos buffer.addr)).length =
      load memory buffer.addr (cursor.pos - buffer.addr) := by
  have hshort := hfilled.proper.short
  have hrange := hfilled.proper.range
  have hpos := hfilled.pos_le
  have hstop := hfilled.stop_eq
  unfold Buffer.shrink
  rw [wrapSub_of_le hfilled.addr_le (by omega), Nat.mod_eq_of_lt (by omega)]
  split
  · rw [show cursor.pos - buffer.addr = buffer.length by omega]
  · rfl

theorem Framed.sendCurrentBuffer (hframed : Framed state groups pending) :
    (sendCurrentBuffer false state).2 = false ∧
      (sendCurrentBuffer false state).1.buffer = none ∧
      ∃ posted, Framed (sendCurrentBuffer false state).1 posted [] := by
  unfold BatchingMessageSocket.sendCurrentBuffer
  cases hbuffer : state.buffer with
  | none =>
      refine ⟨rfl, hbuffer, groups, ?_⟩
      have hpending := (hframed.closed hbuffer).2
      rwa [hpending] at hframed
  | some buffer =>
      have hfilled := hframed.opened buffer hbuffer
      refine ⟨rfl, rfl, groups ++ [pending], ?_, ?_, fun _ => ⟨rfl, rfl⟩, ?_⟩
      · apply List.rel_append hframed.sent
        rw [hfilled.shrink]
        exact .cons hfilled.frames .nil
      · simp [hframed.accepted, State.dropBuffer]
      · intro _ hnone
        cases hnone

theorem Framed.acquire {call : Call} (hframed : Framed state groups [])
    (hscheduled : Scheduled state)
    (hproper : ∀ buffer, call.acquired = some buffer → buffer.Proper) :
    Framed (acquire state call).1 groups [] ∧
      ((acquire state call).2 = none →
        (acquire state call).1.sendBuffer.canAccess call.frameLength = true ∧
          (acquire state call).1.buffer = call.acquired ∧ call.acquired.isSome) := by
  unfold BatchingMessageSocket.acquire
  cases hacquired : call.acquired with
  | none =>
      refine ⟨⟨hframed.sent, hframed.accepted, fun _ => ⟨rfl, rfl⟩, ?_⟩, ?_⟩
      · intro _ hnone
        cases hnone
      · intro hnone
        cases hnone
  | some buffer =>
      have hscheduled := @scheduleFlush_eq { state with
        batchSize := 0
        buffer := some buffer
        sendBuffer := Cursor.ofLength buffer.addr buffer.length } hscheduled.tasks
      simp only [hscheduled]
      have hinstalled : Framed { state with
          batchSize := 0
          buffer := some buffer
          sendBuffer := Cursor.ofLength buffer.addr buffer.length
          flush := true
          flushTasks := 1 } groups [] := by
        refine ⟨hframed.sent, hframed.accepted, (nomatch ·), ?_⟩
        intro other hother
        cases hother
        exact filled_fresh state.memory (hproper buffer hacquired)
      split
      · rename_i hroom
        exact ⟨hinstalled, fun _ => ⟨hroom, rfl, rfl⟩⟩
      · exact ⟨hinstalled, fun hnone => nomatch hnone⟩

theorem Filled.frame {memory : Memory} {cursor : Cursor} {buffer : Buffer}
    {pending : List Message} (hfilled : Filled memory cursor buffer pending)
    {message : Message} {length : UInt32} (hpayload : message.payload.length = length.toNat)
    (hroom : cursor.pos + 16 + length.toNat ≤ cursor.stop) :
    Filled (store memory cursor.pos (header message.id message.type length ++ message.payload))
      { cursor with pos := align (cursor.pos + 16 + length.toNat) 8 } buffer
      (pending ++ [message]) := by
  obtain ⟨⟨haligned, hwhole, hshort, hrange⟩, haddr, hpos, hstop, hframes⟩ := hfilled
  have hwritten := hframes.eight_dvd
  rw [length_load] at hwritten
  have hword : wordRange = 8 * 2 ^ 61 := rfl
  have hnext : align (cursor.pos + 16 + length.toNat) 8 =
      cursor.pos + 16 + (length.toNat + 7) / 8 * 8 := by
    rw [align_eight (by omega)]
    omega
  simp only [hnext]
  refine ⟨⟨haligned, hwhole, hshort, hrange⟩, by simp only; omega, by simp only; omega, hstop, ?_⟩
  -- old frames, then the stored bytes, then whatever lies in the padding
  have hsplit : cursor.pos + 16 + (length.toNat + 7) / 8 * 8 - buffer.addr =
      (cursor.pos - buffer.addr) + (16 + length.toNat +
        ((length.toNat + 7) / 8 * 8 - length.toNat)) := by
    omega
  have hbytes : (header message.id message.type length ++ message.payload).length =
      16 + length.toNat := by
    rw [List.length_append, length_header, hpayload]
  simp only
  rw [hsplit, load_append, load_append _ _ (16 + length.toNat),
    load_store_disjoint memory (.inl (by omega)), show buffer.addr + (cursor.pos - buffer.addr) =
      cursor.pos by omega, ← hbytes, load_store]
  apply hframes.append
  rw [List.append_assoc, ← List.append_nil (load _ (cursor.pos + _) _)]
  exact .cons length hpayload (length_load ..) .nil

theorem Call.frameLength_lt (call : Call) : call.frameLength < wordRange :=
  Nat.lt_of_lt_of_le (Nat.mod_lt _ (Nat.two_pow_pos 32))
    (Nat.pow_le_pow_right (by decide) (show 32 ≤ 64 by decide))

theorem Filled.fits {memory : Memory} {cursor : Cursor} {buffer : Buffer}
    (hfilled : Filled memory cursor buffer pending) {call : Call}
    (haccess : cursor.canAccess call.frameLength = true) :
    cursor.pos + call.frameLength ≤ cursor.stop := by
  have hframe : call.frameLength < 2 ^ 32 := Nat.mod_lt _ (Nat.two_pow_pos 32)
  have hrange := hfilled.proper.range
  have hpos := hfilled.pos_le
  have hstop := hfilled.stop_eq
  exact (Cursor.canAccess_iff (by omega)).mp haccess

theorem Filled.rewind {memory : Memory} {cursor : Cursor} {buffer : Buffer}
    (hfilled : Filled memory cursor buffer pending) (bytes : List UInt8) :
    Filled (store memory cursor.pos bytes) cursor buffer pending := by
  obtain ⟨hproper, haddr, hpos, hstop, hframes⟩ := hfilled
  refine ⟨hproper, haddr, hpos, hstop, ?_⟩
  rwa [load_store_disjoint memory (.inl (by omega))]

theorem store_frame (memory : Memory) (pos : Nat) (id : UInt64) (type length : UInt32)
    (payload : List UInt8) :
    store (store (store (store memory pos (natLE 8 id.toNat)) (pos + 8) (natLE 4 type.toNat))
      (pos + 8 + 4) (natLE 4 length.toNat)) (pos + 8 + 4 + 4) payload =
      store memory pos (header id type length ++ payload) := by
  have hsecond := store_append memory pos (natLE 8 id.toNat) (natLE 4 type.toNat)
  have hthird := store_append memory pos (natLE 8 id.toNat ++ natLE 4 type.toNat)
    (natLE 4 length.toNat)
  have hlast := store_append memory pos (header id type length) payload
  simp only [length_natLE, List.length_append, length_header] at hsecond hthird hlast
  rw [hsecond, ← hlast]
  exact congrArg (fun stored => store stored (pos + 16) payload) hthird

theorem Framed.writeFrame (hframed : Framed state groups pending) {buffer : Buffer}
    (hbuffer : state.buffer = some buffer) (id : UInt64) (type length : UInt32)
    (callback : Callback)
    (hroom : state.sendBuffer.pos + 16 + length.toNat ≤ state.sendBuffer.stop) :
    ∃ written, Framed (writeFrame state id type length callback).1 groups written := by
  have hfilled := hframed.opened buffer hbuffer
  have hbase : state.base = buffer.addr := by simp [State.base, hbuffer]
  have hlength : state.bufferLength = buffer.length := by simp [State.bufferLength, hbuffer]
  have hrange := hfilled.proper.range
  have hstop := hfilled.stop_eq
  unfold BatchingMessageSocket.writeFrame
  simp only [Cursor.write, Cursor.advance_advance]
  rw [Cursor.advance_eq (show state.sendBuffer.pos + 8 < wordRange by omega),
    Cursor.advance_eq (show state.sendBuffer.pos + (8 + 4) < wordRange by omega),
    Cursor.advance_eq (show state.sendBuffer.pos + (8 + 4 + 4) < wordRange by omega),
    Cursor.advance_eq (show state.sendBuffer.pos + (8 + 4 + 4 + length.toNat) < wordRange by omega)]
  simp only [Cursor.align, ← Nat.add_assoc, store_frame, hbase, hlength]
  generalize hregion : load _ (state.sendBuffer.pos + 8 + 4 + 4) length.toNat = region
  have hpayload : (callback.fill region).length = length.toNat := by
    rw [callback.length_fill, ← hregion, length_load]
  split
  · refine ⟨pending, hframed.sent, hframed.accepted, ?_, ?_⟩
    · intro hnone
      cases hbuffer.symm.trans hnone
    · intro other hother
      cases hbuffer.symm.trans hother
      rw [Cursor.ofLength_rewind hfilled.addr_le hfilled.pos_le hfilled.stop_eq
        hfilled.proper.short (by omega)]
      exact hfilled.rewind _
  · refine ⟨pending ++ [⟨id, type, callback.fill region⟩], hframed.sent, ?_, ?_, ?_⟩
    · simp only [hframed.accepted, List.append_assoc]
    · intro hnone
      cases hbuffer.symm.trans hnone
    · intro other hother
      cases hbuffer.symm.trans hother
      exact @Filled.frame _ _ _ _ hfilled ⟨id, type, callback.fill region⟩ length hpayload hroom

theorem Framed.makeRoom {maxBatchSize : Nat} {state : State} {groups : List (List Message)}
    {pending : List Message} {call : Call} (hframed : Framed state groups pending)
    (hscheduled : Scheduled state) (hsend : call.sendFails = false) (hlength : 0 < call.frameLength)
    (hproper : ∀ buffer, call.acquired = some buffer → buffer.Proper) :
    ∃ posted written, Framed (makeRoom maxBatchSize state call).1 posted written ∧
      ((makeRoom maxBatchSize state call).2 = none →
        (makeRoom maxBatchSize state call).1.sendBuffer.canAccess call.frameLength = true ∧
          (makeRoom maxBatchSize state call).1.buffer.isSome) := by
  unfold BatchingMessageSocket.makeRoom
  split
  · split
    · exact ⟨groups, pending, hframed, (nomatch ·)⟩
    · obtain ⟨hok, _, posted, hposted⟩ := hframed.sendCurrentBuffer
      have hqueue := hscheduled.sendCurrentBuffer false
      rw [hsend]
      cases hresult : BatchingMessageSocket.sendCurrentBuffer false state with
      | mk after failed =>
          rw [hresult] at hok hposted hqueue
          cases hok
          obtain ⟨hacquired, hroom⟩ := hposted.acquire hqueue hproper
          refine ⟨posted, [], hacquired, fun hnone => ?_⟩
          obtain ⟨haccess, hbuffer, hsome⟩ := hroom hnone
          exact ⟨haccess, hbuffer ▸ hsome⟩
  · rename_i hroom
    rw [not_or, Bool.not_eq_false] at hroom
    refine ⟨groups, pending, hframed, fun _ => ⟨hroom.1, ?_⟩⟩
    -- the null writer of an invalid buffer has no room
    cases hbuffer : state.buffer with
    | some buffer => rfl
    | none =>
        have hnull := hroom.1
        rw [(hframed.closed hbuffer).1] at hnull
        have hzero := (Cursor.canAccess_null call.frameLength_lt).mp hnull
        omega

theorem Framed.writeMessage {maxBatchSize : Nat} {call : Call}
    (hframed : Framed state groups pending) (hscheduled : Scheduled state)
    (hshort : call.length.toNat < 2 ^ 32 - 16) (hsend : call.sendFails = false)
    (hproper : ∀ buffer, call.acquired = some buffer → buffer.Proper) :
    ∃ posted written, Framed (writeMessage maxBatchSize state call).1 posted written := by
  have hlength : call.frameLength = 16 + call.length.toNat :=
    Nat.mod_eq_of_lt (by simp only [headerSize]; omega)
  obtain ⟨posted, written, hroomy, hroom⟩ :=
    @Framed.makeRoom maxBatchSize _ _ _ _ hframed hscheduled hsend (by omega) hproper
  unfold BatchingMessageSocket.writeMessage
  cases hresult : BatchingMessageSocket.makeRoom maxBatchSize state call with
  | mk after error =>
      rw [hresult] at hroomy hroom
      cases error with
      | some error => exact ⟨posted, written, hroomy⟩
      | none =>
          obtain ⟨haccess, hsome⟩ := hroom rfl
          obtain ⟨buffer, hbuffer⟩ := Option.isSome_iff_exists.mp hsome
          have hfits := (hroomy.opened buffer hbuffer).fits haccess
          rw [hlength, ← Nat.add_assoc] at hfits
          exact ⟨posted, hroomy.writeFrame hbuffer _ _ _ _ hfits⟩

theorem Framed.setFlush (hframed : Framed state groups pending) (flush : Bool) (flushTasks : Nat) :
    Framed { state with flush := flush, flushTasks := flushTasks } groups pending :=
  ⟨hframed.sent, hframed.accepted, hframed.closed, hframed.opened⟩

theorem Framed.flushTask (hframed : Framed state groups pending) :
    ∃ posted, Framed (flushTask false state) posted [] := by
  have hidle := hframed.setFlush false (state.flushTasks - 1)
  obtain ⟨hok, _, posted, hposted⟩ := hidle.sendCurrentBuffer
  unfold BatchingMessageSocket.flushTask
  simp only
  split
  · rename_i hopen
    obtain ⟨buffer, hbuffer⟩ := Option.isSome_iff_exists.mp hopen
    split
    · rename_i hempty
      -- nothing lies before the cursor, so nothing is pending
      have hframes := (hframed.opened buffer hbuffer).frames
      have hbase : state.sendBuffer.pos = buffer.addr := by
        simpa [State.base, hbuffer] using hempty
      rw [hbase, Nat.sub_self] at hframes
      have hpending : pending = [] :=
        List.eq_nil_of_length_eq_zero (Nat.le_zero.mp hframes.length_le)
      rw [hpending] at hframed
      exact ⟨groups, hframed.sent, hframed.accepted, fun _ => ⟨rfl, rfl⟩, fun _ hnone =>
        nomatch hnone⟩
    · split
      · rename_i hresult
        rw [hresult] at hok
        cases hok
      · rename_i hresult
        rw [hresult] at hposted
        exact ⟨posted, hposted⟩
  · rename_i hclosed
    have hpending := (hframed.closed (Option.not_isSome_iff_eq_none.mp hclosed)).2
    rw [hpending] at hidle
    exact ⟨groups, hidle⟩

theorem framed_of_reachable {maxBatchSize : Nat}
    (hreach : (machine maxBatchSize).ReachableUnder Assumed state) :
    ∃ groups pending, Framed state groups pending := by
  have hboth : Scheduled state ∧ ∃ groups pending, Framed state groups pending := by
    apply hreach.invariant fun state =>
      Scheduled state ∧ ∃ groups pending, Framed state groups pending
    · rintro _ ⟨memory, rfl⟩
      exact ⟨scheduled_start memory, [], [], framed_start memory⟩
    · rintro state label after ⟨hscheduled, groups, pending, hframed⟩ hassumed hnext
      refine ⟨hscheduled.next hnext, ?_⟩
      cases label with
      | write call =>
          cases hnext
          obtain ⟨hshort, hsend, hproper⟩ := hassumed
          exact hframed.writeMessage hscheduled hshort hsend hproper
      | flush sendFails =>
          cases hassumed
          simp only [machine, next] at hnext
          split at hnext
          · contradiction
          · cases hnext
            obtain ⟨posted, hposted⟩ := hframed.flushTask
            exact ⟨posted, [], hposted⟩
  exact hboth.2

theorem delivered_groups {receivers : List (Memory × Nat)} {sent : List (List UInt8)}
    (hsent : List.Forall₂ Frames sent groups) (hreceives : List.Forall₂ Receives receivers sent) :
    List.zipWith delivered receivers sent = groups ∧
      ∀ ending ∈ List.zipWith (fun receiver bytes =>
        (onReceive receiver.1 receiver.2 bytes.length).ending) receivers sent,
      ending = .finished := by
  induction hreceives generalizing groups with
  | nil =>
      cases hsent
      exact ⟨rfl, fun _ hmem => nomatch hmem⟩
  | cons hreceiver _ ih =>
      cases hsent with
      | cons hframes hrest =>
          obtain ⟨hfinished, hmessages⟩ := hframes.onReceive hreceiver
          obtain ⟨hgroups, hendings⟩ := ih hrest
          refine ⟨?_, ?_⟩
          · rw [List.zipWith_cons_cons, hmessages, hgroups]
          · rw [List.zipWith_cons_cons, List.forall_mem_cons]
            exact ⟨hfinished, hendings⟩

theorem makeRoom_accepted (maxBatchSize : Nat) (state : State) (call : Call) :
    (makeRoom maxBatchSize state call).1.accepted = state.accepted := by
  have hsent := (sendCurrentBuffer_frame call.sendFails state).2.2.2
  unfold makeRoom
  split
  · split
    · rfl
    · split
      · rename_i hresult
        rwa [hresult] at hsent
      · rename_i after hresult
        rw [hresult] at hsent
        rw [← hsent]
        unfold acquire scheduleFlush
        dsimp only
        repeat' split
        all_goals rfl
  · rfl

theorem writeMessage_accepted (maxBatchSize : Nat) (state : State) (call : Call) :
    ((writeMessage maxBatchSize state call).2 = none →
        ∃ region : List UInt8, region.length = call.length.toNat ∧
          (writeMessage maxBatchSize state call).1.accepted =
            state.accepted ++ [⟨call.id, call.type, call.callback.fill region⟩]) ∧
      ((writeMessage maxBatchSize state call).2 ≠ none →
        (writeMessage maxBatchSize state call).1.accepted = state.accepted) := by
  have hroom := makeRoom_accepted maxBatchSize state call
  unfold writeMessage
  split
  · rename_i hresult
    rw [hresult] at hroom
    exact ⟨(nomatch ·), fun _ => hroom⟩
  · rename_i hresult
    rw [hresult] at hroom
    rw [← hroom]
    unfold writeFrame
    dsimp only
    split
    · exact ⟨(nomatch ·), fun _ => rfl⟩
    · exact ⟨fun _ => ⟨_, length_load .., rfl⟩, fun herror => absurd rfl herror⟩

/-- The calls that report no error are recorded in order, and the receiver gets just
these messages, up to those that still wait in the open send buffer; the queued
flush task sends these too. -/
theorem delivers_accepted {maxBatchSize : Nat} {state : State}
    (hreach : (machine maxBatchSize).ReachableUnder Assumed state)
    {receivers : List (Memory × Nat)}
    (hreceives : List.Forall₂ Receives receivers state.sent) :
    (∀ call, ((writeMessage maxBatchSize state call).2 = none →
        ∃ region : List UInt8, region.length = call.length.toNat ∧
          (writeMessage maxBatchSize state call).1.accepted =
            state.accepted ++ [⟨call.id, call.type, call.callback.fill region⟩]) ∧
        ((writeMessage maxBatchSize state call).2 ≠ none →
          (writeMessage maxBatchSize state call).1.accepted = state.accepted)) ∧
      (∃ pending, state.accepted =
        (List.zipWith delivered receivers state.sent).flatten ++ pending ∧
        (state.buffer = none → pending = [])) ∧
      (∀ ending ∈ List.zipWith (fun receiver bytes =>
        (onReceive receiver.1 receiver.2 bytes.length).ending) receivers state.sent,
          ending = .finished) ∧
      (state.buffer ≠ none → ∃ after, next maxBatchSize state (.flush false) = some after ∧
        after.buffer = none ∧ after.accepted = state.accepted) := by
  have hscheduled := scheduled_of_reachable hreach
  obtain ⟨groups, pending, hframed⟩ := framed_of_reachable hreach
  obtain ⟨hgroups, hendings⟩ := delivered_groups hframed.sent hreceives
  refine ⟨writeMessage_accepted maxBatchSize state,
    ⟨pending, ?_, fun hclosed => (hframed.closed hclosed).2⟩, hendings, ?_⟩
  · rw [hgroups, hframed.accepted]
  · intro hopen
    have hqueued : state.flushTasks ≠ 0 := by
      rw [hscheduled.tasks, hscheduled.opened (Option.isSome_iff_ne_none.mpr hopen)]
      decide
    obtain ⟨hbuffer, _, _, haccepted⟩ := flushTask_closes false state
    exact ⟨flushTask false state, if_neg hqueued, hbuffer, haccepted⟩

def constantCallback (byte : UInt8) (fails : Bool) : Callback where
  fill := fun region => region.map fun _ => byte
  length_fill := fun _ => List.length_map _
  fails := fun _ => fails

def mixedBatch : List Label :=
  [.write ⟨5, 1, 3, constantCallback 7 false, false, some ⟨64, 80⟩⟩,
    .write ⟨6, 1, 8, constantCallback 9 true, false, none⟩,
    .write ⟨7, 2, 1, constantCallback 4 false, false, none⟩, .flush false]

def permitMixed (_ : State) : Label → Bool
  | .write call => decide (call.length.toNat < 2 ^ 32 - 16 ∧ call.sendFails = false ∧
      (call.acquired = none ∨ call.acquired = some ⟨64, 80⟩))
  | .flush sendFails => !sendFails

theorem assumed_of_permitMixed (state : State) (label : Label)
    (hpermit : permitMixed state label = true) : Assumed state label := by
  cases label with
  | write call =>
      obtain ⟨hshort, hsend, hacquired⟩ := of_decide_eq_true hpermit
      refine ⟨hshort, hsend, ?_⟩
      intro buffer hbuffer
      rcases hacquired with hnone | hsome
      · cases hbuffer.symm.trans hnone
      · cases hbuffer.symm.trans hsome
        exact ⟨by decide, by decide, by decide, by decide⟩
  | flush sendFails => simpa [permitMixed, Assumed] using hpermit

theorem mixed_batch_delivered :
    ∃ state receivers, (machine 8).ReachableUnder Assumed state ∧
      state.accepted = [⟨5, 1, [7, 7, 7]⟩, ⟨7, 2, [4]⟩] ∧
      List.Forall₂ Receives receivers state.sent ∧
      (List.zipWith delivered receivers state.sent).flatten = state.accepted := by
  obtain ⟨state, hpath, htest⟩ := (machine 8).exists_path_of_replay Assumed permitMixed
    (start fun _ => 0) mixedBatch
    (fun state => decide (state.accepted = [⟨5, 1, [7, 7, 7]⟩, ⟨7, 2, [4]⟩] ∧
      state.buffer = none ∧ ∀ bytes ∈ state.sent, bytes.length < 100))
    assumed_of_permitMixed (by decide +kernel)
  obtain ⟨haccepted, hclosed, hshort⟩ := of_decide_eq_true htest
  have hreach : (machine 8).ReachableUnder Assumed state := ⟨_, ⟨_, rfl⟩, hpath⟩
  have hreceives : List.Forall₂ Receives
      (state.sent.map fun bytes => (store (fun _ => 0) 4096 bytes, 4096)) state.sent := by
    rw [List.forall₂_map_left_iff, List.forall₂_same]
    intro bytes hmem
    have haligned : 8 ∣ 4096 := by decide
    have hrange : 4096 + 116 < wordRange := by decide
    have hbytes := hshort bytes hmem
    exact ⟨haligned, show 4096 + bytes.length + 16 < wordRange by omega, load_store ..⟩
  obtain ⟨_, ⟨pending, hdelivered, hnone⟩, _⟩ := delivers_accepted hreach hreceives
  rw [hnone hclosed, List.append_nil] at hdelivered
  exact ⟨state, _, hreach, haccepted, hreceives, hdelivered.symm⟩

/-- One empty message, received 24 bytes before the end of the address space. Behind it the
end of the next header wraps around and the receiver goes on. In a send buffer as far up
a message of almost four gigabytes passes the check of 64 bytes. -/
theorem wrapped_header_delivered :
    (∃ state receivers, (machine 8).ReachableUnder Assumed state ∧ state.buffer = none ∧
      List.Forall₂ (fun receiver bytes => 8 ∣ receiver.2 ∧
        receiver.2 + bytes.length ≤ wordRange ∧
        load receiver.1 receiver.2 bytes.length = bytes) receivers state.sent ∧
      (List.zipWith delivered receivers state.sent).flatten ≠ state.accepted) ∧
    (makeRoom 8 (start fun _ => 0) ⟨5, 1, 4294967279, constantCallback 7 false, false,
      some ⟨2 ^ 64 - 128, 64⟩⟩).2 = none := by
  refine ⟨?_, by decide +kernel⟩
  obtain ⟨state, hpath, htest⟩ := (machine 8).exists_path_of_replay Assumed permitMixed
    (start fun _ => 0)
    [.write ⟨5, 1, 0, constantCallback 7 false, false, some ⟨64, 80⟩⟩, .flush false]
    (fun state => decide (state.accepted = [⟨5, 1, []⟩] ∧ state.buffer = none ∧
      state.sent = [header 5 1 0]))
    assumed_of_permitMixed (by decide +kernel)
  obtain ⟨haccepted, hclosed, hsent⟩ := of_decide_eq_true htest
  refine ⟨state, [(store (fun _ => 0) (2 ^ 64 - 24) (header 5 1 0), 2 ^ 64 - 24)],
    ⟨_, ⟨_, rfl⟩, hpath⟩, hclosed, ?_, ?_⟩
  · rw [hsent]
    exact .cons ⟨by decide, by decide, load_store ..⟩ .nil
  · rw [hsent, haccepted]
    decide +kernel

end Crossbow.Infinio.BatchingMessageSocket
