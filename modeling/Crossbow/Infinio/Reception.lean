import Crossbow.Infinio.Framing

/-! `onReceive` on arbitrary bytes, with every header it reads and every slice it hands out.
The lengths come from the wire, so the sums in `canRead` and `extract` may wrap around; for
a buffer that is not in the last four gigabytes of the address space they do not. -/
namespace Crossbow.Infinio.Reception
open Kernel BatchingMessageSocket

theorem announced_lt (memory : Memory) (header : Nat) : announced memory header < 2 ^ 32 := by
  have hlt := decodeLE_lt (load memory (header + 12) 4)
  rw [length_load] at hlt
  exact hlt

theorem frameAt_message (memory : Memory) (header : Nat) :
    (frameAt memory header).message = ⟨header + 16, header + 16 + announced memory header⟩ := rfl

section Rounds

variable {memory : Memory} {pos stop : Nat}

theorem unwrapped (hrange : stop + 2 ^ 32 ≤ wordRange) (hpos : pos ≤ stop + 7) :
    Unwrapped memory pos stop := by
  have hlength := announced_lt memory pos
  exact ⟨by omega, by omega, by omega⟩

theorem rounded_le {length : Nat} (hfits : pos + 16 + length ≤ stop) :
    (pos + 16 + length + 7) / 8 * 8 ≤ stop + 7 := by
  omega

end Rounds

section Loops

variable {memory : Memory} {stop : Nat}

theorem receiveLoop_ends (hrange : stop + 2 ^ 32 ≤ wordRange) (fuel pos : Nat)
    (hpos : pos ≤ stop + 7) (hpositive : 0 < fuel) (hfuel : stop < pos + fuel) :
    (receiveLoop memory fuel ⟨pos, stop⟩).ending ≠ .outOfFuel := by
  induction fuel generalizing pos with
  | zero => contradiction
  | succ fuel ih =>
      rw [receiveLoop_round (unwrapped hrange hpos)]
      split
      · split
        · rename_i hfits
          exact ih _ (rounded_le hfits) (by omega) (by omega)
        · nofun
      · nofun

structure Sliced (memory : Memory) (pos stop : Nat) (trace : Trace) : Prop where
  headers : ∀ header ∈ trace.headers, pos ≤ header ∧ header + 16 ≤ stop
  frames : ∀ frame ∈ trace.frames, frame = frameAt memory frame.header ∧ pos ≤ frame.header ∧
    frame.message.stop ≤ stop
  increasing : trace.frames.Pairwise fun earlier later => earlier.message.stop ≤ later.header
  refused : ∀ header ∈ trace.headers, stop < header + 16 + announced memory header →
    ∀ frame ∈ trace.frames, frame.message.stop ≤ header

theorem Sliced.cons {pos next : Nat} {trace : Trace} (hsliced : Sliced memory next stop trace)
    (hfits : pos + 16 + announced memory pos ≤ stop)
    (hnext : pos + 16 + announced memory pos ≤ next) :
    Sliced memory pos stop
      { trace with
        headers := pos :: trace.headers
        frames := frameAt memory pos :: trace.frames } where
  headers := by
    intro header hheader
    rcases List.mem_cons.mp hheader with rfl | hmem
    · omega
    · have hinside := hsliced.headers header hmem
      omega
  frames := by
    intro frame hframe
    rcases List.mem_cons.mp hframe with rfl | hmem
    · exact ⟨rfl, Nat.le_refl _, hfits⟩
    · obtain ⟨hframe, hlow, hhigh⟩ := hsliced.frames frame hmem
      exact ⟨hframe, by omega, hhigh⟩
  increasing := by
    refine .cons ?_ hsliced.increasing
    intro later hlater
    exact hnext.trans (hsliced.frames later hlater).2.1
  refused := by
    intro header hheader hlong frame hframe
    rcases List.mem_cons.mp hheader with rfl | hmem
    · omega
    · rcases List.mem_cons.mp hframe with rfl | hlater
      · exact hnext.trans (hsliced.headers header hmem).1
      · exact hsliced.refused header hmem hlong frame hlater

theorem receiveLoop_sliced (hrange : stop + 2 ^ 32 ≤ wordRange) (fuel pos : Nat)
    (hpos : pos ≤ stop + 7) : Sliced memory pos stop (receiveLoop memory fuel ⟨pos, stop⟩) := by
  induction fuel generalizing pos with
  | zero => exact ⟨nofun, nofun, .nil, nofun⟩
  | succ fuel ih =>
      rw [receiveLoop_round (unwrapped hrange hpos)]
      split
      · rename_i hheader
        split
        · rename_i hfits
          exact (ih _ (rounded_le hfits)).cons hfits (by omega)
        · refine ⟨?_, nofun, .nil, nofun⟩
          intro header hmem
          rw [List.mem_singleton.mp hmem]
          omega
      · exact ⟨nofun, nofun, .nil, nofun⟩

end Loops

structure Safe (memory : Memory) (buffer length : Nat) : Prop where
  terminates : (onReceive memory buffer length).ending ≠ .outOfFuel
  reads_inside : ∀ read ∈ (onReceive memory buffer length).reads,
    buffer ≤ read.1 ∧ read.1 + read.2 ≤ buffer + length
  slices_inside : ∀ frame ∈ (onReceive memory buffer length).frames,
    buffer ≤ frame.header ∧ frame.message.pos = frame.header + 16 ∧
      frame.message.stop = frame.message.pos + announced memory frame.header ∧
      frame.message.stop ≤ buffer + length
  increasing : (onReceive memory buffer length).frames.Pairwise
    fun earlier later => earlier.message.stop ≤ later.header
  refused : ∀ header ∈ (onReceive memory buffer length).headers,
    buffer + length < header + 16 + announced memory header →
      ∀ frame ∈ (onReceive memory buffer length).frames, frame.message.stop ≤ header

section Buffers

variable (memory : Memory) {buffer length : Nat}

theorem onReceive_eq (hrange : buffer + length + 2 ^ 32 ≤ wordRange) :
    onReceive memory buffer length =
      receiveLoop memory (length + 1) ⟨buffer, buffer + length⟩ := by
  rw [onReceive, Cursor.ofLength_eq (by omega)]

theorem onReceive_sliced (hrange : buffer + length + 2 ^ 32 ≤ wordRange) :
    Sliced memory buffer (buffer + length) (onReceive memory buffer length) := by
  rw [onReceive_eq memory hrange]
  exact receiveLoop_sliced hrange _ _ (by omega)

end Buffers

/-- On every content of every buffer that ends four gigabytes before the end of the address
space, `onReceive` returns, reads inside the buffer only, and hands out slices inside the
buffer, each behind its header and behind all earlier ones; a header that announces too
much ends the delivery. -/
theorem onReceive_safe (memory : Memory) (buffer length : Nat)
    (hrange : buffer + length + 2 ^ 32 ≤ wordRange) : Safe memory buffer length := by
  have hsliced := onReceive_sliced memory hrange
  refine ⟨?_, ?_, ?_, hsliced.increasing, hsliced.refused⟩
  · rw [onReceive_eq memory hrange]
    exact receiveLoop_ends hrange _ _ (by omega) (Nat.succ_pos length) (by omega)
  · rintro ⟨address, width⟩ hread
    obtain ⟨header, hheader, hmem⟩ := List.mem_flatMap.mp hread
    have hinside := hsliced.headers header hheader
    rw [wrap_of_lt (show header + 8 < wordRange by omega),
      wrap_of_lt (show header + 12 < wordRange by omega)] at hmem
    simp only [List.mem_cons, Prod.mk.injEq, List.not_mem_nil, or_false] at hmem
    omega
  · intro frame hframe
    obtain ⟨hat, hlow, hhigh⟩ := hsliced.frames frame hframe
    have hmessage := (congrArg Frame.message hat).trans (frameAt_message memory frame.header)
    exact ⟨hlow, by rw [hmessage], by rw [hmessage], hhigh⟩

/-- A frame with three bytes and a header that announces more than is left. -/
theorem truncated_batch_safe :
    (onReceive (store (fun _ => 255) 64 (header 5 1 3)) 64 48).frames.length = 1 ∧
      Safe (store (fun _ => 255) 64 (header 5 1 3)) 64 48 :=
  ⟨by decide +kernel, onReceive_safe _ _ _ (by decide +kernel)⟩

/-- A buffer of 32 bytes, 64 bytes before the end of the address space, whose header
announces the largest length. The sum in `canRead` wraps around, the slice is accepted, and
the next header is read below four gigabytes. -/
theorem wrapped_length_accepted :
    ¬ Safe (fun address => if 2 ^ 64 - 64 ≤ address then 255 else 0) (2 ^ 64 - 64) 32 := by
  intro hsafe
  have hread := hsafe.reads_inside (2 ^ 32 - 48, 8) (by decide +kernel)
  omega

end Crossbow.Infinio.Reception
