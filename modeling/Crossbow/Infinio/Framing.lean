import Crossbow.Infinio.BatchingMessageSocket

/-! The wire format of a batch, and the receiver on it. A frame is a header, the
payload and padding of any content up to the next multiple of eight. -/
namespace Crossbow.Infinio.BatchingMessageSocket
open Kernel

def header (id : UInt64) (type length : UInt32) : List UInt8 :=
  natLE 8 id.toNat ++ natLE 4 type.toNat ++ natLE 4 length.toNat

@[simp] theorem length_header (id : UInt64) (type length : UInt32) :
    (header id type length).length = 16 := by
  simp [header]

inductive Frames : List UInt8 → List Message → Prop where
  | nil : Frames [] []
  | cons {bytes padding : List UInt8} {messages : List Message} {message : Message}
      (length : UInt32) :
      message.payload.length = length.toNat →
      padding.length = (length.toNat + 7) / 8 * 8 - length.toNat →
      Frames bytes messages →
      Frames (header message.id message.type length ++ (message.payload ++ (padding ++ bytes)))
        (message :: messages)

variable {bytes : List UInt8} {messages : List Message}

theorem Frames.append {more : List UInt8} {others : List Message} (hbytes : Frames bytes messages)
    (hmore : Frames more others) :
    Frames (bytes ++ more) (messages ++ others) := by
  induction hbytes with
  | nil => exact hmore
  | cons length hpayload hpadding _ ih =>
      simp only [List.append_assoc, List.cons_append]
      exact .cons length hpayload hpadding ih

theorem Frames.eight_dvd (hframes : Frames bytes messages) : 8 ∣ bytes.length := by
  induction hframes with
  | nil => exact Nat.dvd_zero 8
  | cons length hpayload hpadding _ ih =>
      simp only [List.length_append, length_header, hpayload, hpadding]
      omega

theorem Frames.length_le (hframes : Frames bytes messages) : messages.length ≤ bytes.length := by
  induction hframes with
  | nil => exact Nat.le_refl 0
  | cons length _ _ _ ih =>
      simp only [List.length_append, length_header, List.length_cons]
      omega

theorem read_header {memory : Memory} {pos : Nat} {id : UInt64} {type length : UInt32}
    (hload : load memory pos 16 = header id type length) :
    decodeLE (load memory pos 8) = id.toNat ∧
      decodeLE (load memory (pos + 8) 4) = type.toNat ∧
      decodeLE (load memory (pos + 12) 4) = length.toNat := by
  have hall : load memory pos (header id type length).length = header id type length := by
    rw [length_header]
    exact hload
  have houter := load_eq_append hall
  have hinner := load_eq_append houter.1
  simp only [length_natLE, List.length_append] at houter hinner
  rw [hinner.1, hinner.2, houter.2]
  refine ⟨decodeLE_natLE_of_lt ?_, decodeLE_natLE_of_lt ?_, decodeLE_natLE_of_lt ?_⟩
  · exact id.toNat_lt
  · exact type.toNat_lt
  · exact length.toNat_lt

def announced (memory : Memory) (header : Nat) : Nat := decodeLE (load memory (header + 12) 4)

/-- The call of `onMessage` for the header at an address, where no pointer wraps. -/
def frameAt (memory : Memory) (header : Nat) : Frame :=
  ⟨header, UInt64.ofNat (decodeLE (load memory header 8)),
    UInt32.ofNat (decodeLE (load memory (header + 8) 4)),
    ⟨header + 16, header + 16 + announced memory header⟩⟩

/-- The pointers of a round do not wrap: neither the end of the header and of the message
that is announced in it, nor the next multiple of eight. -/
structure Unwrapped (memory : Memory) (pos stop : Nat) : Prop where
  header : pos + 16 < wordRange
  body : pos + 16 ≤ stop → pos + 16 + announced memory pos < wordRange
  aligned : stop + 8 ≤ wordRange

theorem receiveLoop_round {memory : Memory} {pos stop : Nat}
    (hunwrapped : Unwrapped memory pos stop) (fuel : Nat) :
    receiveLoop memory (fuel + 1) ⟨pos, stop⟩ =
      if pos + 16 ≤ stop then
        if pos + 16 + announced memory pos ≤ stop then
          let rest := receiveLoop memory fuel
            ⟨(pos + 16 + announced memory pos + 7) / 8 * 8, stop⟩
          { rest with
            headers := pos :: rest.headers
            frames := frameAt memory pos :: rest.frames }
        else ⟨[pos], [], ⟨pos + 16, stop⟩, .invalidMessage⟩
      else ⟨[], [], ⟨pos, stop⟩, .finished⟩ := by
  obtain ⟨hheader, hbody, hstop⟩ := hunwrapped
  have hread := @Cursor.canAccess_iff ⟨pos, stop⟩ headerSize hheader
  rw [receiveLoop]
  by_cases hroom : pos + 16 ≤ stop
  · have hfits := hbody hroom
    have hid : (Cursor.mk pos stop).advance 8 = ⟨pos + 8, stop⟩ :=
      Cursor.advance_eq (show pos + 8 < wordRange by omega)
    have htype : (Cursor.mk (pos + 8) stop).advance 4 = ⟨pos + 12, stop⟩ :=
      Cursor.advance_eq (show pos + 12 < wordRange by omega)
    have hlast : (Cursor.mk (pos + 12) stop).advance 4 = ⟨pos + 16, stop⟩ :=
      Cursor.advance_eq hheader
    have hlength : decodeLE (load memory (pos + 12) 4) = announced memory pos := rfl
    have hextract := @Cursor.canAccess_iff ⟨pos + 16, stop⟩ (announced memory pos) hfits
    have hbehind : (Cursor.mk (pos + 16) stop).advance (announced memory pos) =
        ⟨pos + 16 + announced memory pos, stop⟩ := Cursor.advance_eq hfits
    have hmessage : Cursor.ofLength (pos + 16) (announced memory pos) =
        ⟨pos + 16, pos + 16 + announced memory pos⟩ := Cursor.ofLength_eq hfits
    rw [if_pos (hread.mpr hroom), if_pos hroom]
    simp only [Cursor.read, hid, htype, hlast, hlength, hbehind, hmessage, hextract]
    split
    · have halign := align_eight (show pos + 16 + announced memory pos + 8 ≤ wordRange by omega)
      simp only [Cursor.align, halign]
      rfl
    · rfl
  · rw [if_neg (mt hread.mp hroom), if_neg hroom]

theorem receiveLoop_done (memory : Memory) (fuel : Nat) {reader : Cursor}
    (hrange : reader.pos + 16 < wordRange) (hshort : reader.stop < reader.pos + 16) :
    receiveLoop memory (fuel + 1) reader = ⟨[], [], reader, .finished⟩ := by
  have hread := @Cursor.canAccess_iff reader headerSize hrange
  rw [receiveLoop, if_neg (mt hread.mp (Nat.not_le.mpr hshort))]

/-- On a batch at an aligned address the loop stays in step with the frames. The
induction is on the frames, with the address and the fuel free. -/
theorem receiveLoop_frames {memory : Memory} (hframes : Frames bytes messages) (pos fuel : Nat)
    (haligned : 8 ∣ pos) (hrange : pos + bytes.length + 16 < wordRange)
    (hfuel : messages.length < fuel) (hload : load memory pos bytes.length = bytes) :
    (receiveLoop memory fuel ⟨pos, pos + bytes.length⟩).ending = .finished ∧
      (receiveLoop memory fuel ⟨pos, pos + bytes.length⟩).deliveries.map
        (Delivery.content memory) = messages := by
  induction hframes generalizing pos fuel with
  | nil =>
      obtain ⟨fuel, rfl⟩ := Nat.exists_eq_succ_of_ne_zero (Nat.ne_zero_of_lt hfuel)
      rw [receiveLoop_done memory fuel hrange (Nat.lt_add_of_pos_right (by decide))]
      exact ⟨rfl, rfl⟩
  | @cons bytes padding messages message length hpayload hpadding hframes ih =>
      obtain ⟨fuel, rfl⟩ := Nat.exists_eq_succ_of_ne_zero (Nat.ne_zero_of_lt hfuel)
      -- cut the memory at the seams of the frame
      obtain ⟨hheader, hrest⟩ := load_eq_append hload
      obtain ⟨hbody, hrest⟩ := load_eq_append hrest
      obtain ⟨_, hrest⟩ := load_eq_append hrest
      rw [length_header] at hheader hbody hrest
      rw [hpayload] at hbody hrest
      obtain ⟨hid, htype, hlength⟩ := read_header hheader
      have htail := hframes.eight_dvd
      simp only [List.length_append, length_header, hpayload] at hrange ⊢
      have hannounced : announced memory pos = length.toNat := hlength
      have hnext : (pos + 16 + length.toNat + 7) / 8 * 8 =
          pos + 16 + length.toNat + padding.length := by
        omega
      have hstop : pos + (16 + (length.toNat + (padding.length + bytes.length))) =
          pos + 16 + length.toNat + padding.length + bytes.length := by
        omega
      have hih := ih (pos + 16 + length.toNat + padding.length) fuel (by omega) (by omega)
        (Nat.lt_of_succ_lt_succ hfuel) hrest
      have hframe : (frameAt memory pos).delivery.content memory = message := by
        simp only [frameAt, Delivery.content, hid, htype, hannounced, UInt64.ofNat_toNat,
          UInt32.ofNat_toNat]
        rw [wrapSub_of_le (Nat.le_add_right _ _) (by omega), Nat.add_sub_cancel_left, hbody]
      rw [hstop, receiveLoop_round ⟨by omega, by rw [hannounced]; omega, by omega⟩, hannounced,
        if_pos (by omega), if_pos (by omega), hnext]
      refine ⟨hih.1, ?_⟩
      simp only [Trace.deliveries, List.map_cons, hframe]
      exact congrArg (message :: ·) hih.2

/-- A buffer that received the given bytes, at an aligned address. Behind it there is room
for one more header in the address space. -/
structure Receives (receiver : Memory × Nat) (bytes : List UInt8) : Prop where
  aligned : 8 ∣ receiver.2
  range : receiver.2 + bytes.length + 16 < wordRange
  arrived : load receiver.1 receiver.2 bytes.length = bytes

def delivered (receiver : Memory × Nat) (bytes : List UInt8) : List Message :=
  (onReceive receiver.1 receiver.2 bytes.length).deliveries.map (Delivery.content receiver.1)

theorem Frames.onReceive {receiver : Memory × Nat} (hframes : Frames bytes messages)
    (hreceives : Receives receiver bytes) :
    (onReceive receiver.1 receiver.2 bytes.length).ending = .finished ∧
      delivered receiver bytes = messages := by
  have hrange := hreceives.range
  unfold delivered BatchingMessageSocket.onReceive
  rw [Cursor.ofLength_eq (by omega)]
  exact receiveLoop_frames hframes _ _ hreceives.aligned hrange
    (Nat.lt_succ_of_le hframes.length_le) hreceives.arrived

end Crossbow.Infinio.BatchingMessageSocket
