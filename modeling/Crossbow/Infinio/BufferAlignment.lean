import Crossbow.Infinio.MemoryRegion

/-! Where the buffers of a device start. Send and receive buffers are cut from page-aligned
regions at multiples of the configured buffer length, which no constructor checks. -/
namespace Crossbow.Infinio.BufferAlignment
open Kernel SendBufferPool MemoryRegion

/-- The part of a `DeviceContext` that serves receive buffers. -/
structure Device where
  receiveBufferCount : Nat
  bufferLength : Nat
  mReceiveData : LocalMemoryRegion
  count_lt : receiveBufferCount < 2 ^ 16
  length_lt : bufferLength < 2 ^ 32
  allocated : mReceiveData.length = receiveBufferCount * bufferLength

def Device.acquireReceiveBuffer (device : Device) (id : Nat) : InfinibandBuffer :=
  device.mReceiveData.acquireBuffer id (wrap (id * device.bufferLength)) device.bufferLength

/-- The bytes that aligning a cursor to `sizeof(uint64_t)` skips. -/
def padding (pos : Nat) : Nat := wrapSub (align pos 8) pos

/-- Buffers at all valid ids start at a multiple of eight. -/
def EvenlyCut (count length : Nat) : Prop := count ≤ 1 ∨ 8 ∣ length

instance (count length : Nat) : Decidable (EvenlyCut count length) :=
  inferInstanceAs (Decidable (_ ∨ _))

theorem EvenlyCut.dvd_mul {count length id : Nat} (hcut : EvenlyCut count length)
    (hid : id < count) : 8 ∣ id * length := by
  rcases hcut with hone | hlength
  · rw [show id = 0 by omega, Nat.zero_mul]
    exact Nat.dvd_zero 8
  · exact hlength.mul_left id

theorem padding_eq {pos : Nat} (hpos : pos < wordRange) : padding pos = (8 - pos % 8) % 8 := by
  have hword : wordRange = 8 * 2 ^ 61 := rfl
  have hround : wrap (pos + 7) = if pos + 7 < wordRange then pos + 7 else pos + 7 - wordRange := by
    split
    · exact wrap_of_lt ‹_›
    · unfold wrap
      rw [Nat.mod_eq_sub_mod (by omega), Nat.mod_eq_of_lt (by omega)]
  unfold padding
  rw [align_eight_wrap, hround]
  split
  · rename_i hlow
    by_cases hfits : (pos + 7) / 8 * 8 < wordRange
    · rw [wrapSub_of_le (by omega) hfits]
      omega
    · unfold wrapSub
      omega
  · unfold wrapSub
    rw [Nat.mod_eq_of_lt (by omega)]
    omega

theorem padding_congr {left right : Nat} (hleft : left < wordRange) (hright : right < wordRange)
    (hmod : left % 8 = right % 8) : padding left = padding right := by
  rw [padding_eq hleft, padding_eq hright, hmod]

section Receive

variable {device : Device} {id : Nat}

theorem acquireReceiveBuffer_eq (hid : id < device.receiveBufferCount) :
    device.acquireReceiveBuffer id =
      ⟨⟨wrap (device.mReceiveData.addr + id * device.bufferLength), device.bufferLength,
        device.mReceiveData.lkey⟩, id⟩ := by
  have hinside : id * device.bufferLength + device.bufferLength ≤ device.mReceiveData.length := by
    rw [device.allocated, ← Nat.succ_mul]
    exact Nat.mul_le_mul_right _ hid
  have hlength := device.mReceiveData.length_lt
  unfold Device.acquireReceiveBuffer LocalMemoryRegion.acquireBuffer
  rw [wrap_of_lt (show id * device.bufferLength < wordRange by omega),
    exceeds_of_le hlength hinside]
  rfl

theorem wrap_mod_eight (value : Nat) : wrap value % 8 = value % 8 := by
  unfold wrap
  exact Nat.mod_mod_of_dvd value ⟨2 ^ 61, rfl⟩

/-- Receive buffers all start at a multiple of eight if the region does and the length cuts
it evenly, and only then. -/
theorem receive_aligned_iff (hpage : 4096 ∣ device.mReceiveData.addr) :
    (∀ id < device.receiveBufferCount, 8 ∣ (device.acquireReceiveBuffer id).handle.addr) ↔
      EvenlyCut device.receiveBufferCount device.bufferLength := by
  constructor
  · intro hall
    by_cases hone : device.receiveBufferCount ≤ 1
    · exact .inl hone
    · have hsecond := hall 1 (by omega)
      rw [acquireReceiveBuffer_eq (by omega)] at hsecond
      have hmod := wrap_mod_eight (device.mReceiveData.addr + 1 * device.bufferLength)
      simp only at hsecond
      exact .inr (by omega)
  · intro hcut id hid
    rw [acquireReceiveBuffer_eq hid]
    have hproduct := hcut.dvd_mul hid
    have hmod := wrap_mod_eight (device.mReceiveData.addr + id * device.bufferLength)
    simp only
    omega

end Receive

section Send

variable {Sock : Type} [DecidableEq Sock] {limits : Limits}

omit [DecidableEq Sock] in
theorem offered_of_cons {context : Context Sock} {id : Nat} {rest : List Nat}
    (hqueue : context.sendBufferQueue = id :: rest) (hid : id < limits.sendBufferCount)
    (hcount : limits.sendBufferCount ≤ 65535) :
    context.offered limits = some (limits.buffer id) := by
  have hinside : id * limits.bufferLength + limits.bufferLength ≤
      limits.sendBufferCount * limits.bufferLength := by
    rw [← Nat.succ_mul]
    exact Nat.mul_le_mul_right _ hid
  unfold Context.offered
  rw [hqueue, acquireSendBuffer, if_neg (Nat.not_lt.mpr hinside)]
  exact if_neg (show id ≠ 65535 by omega)

theorem queue_after_first_write (memory : Sock → Memory) (maxBatchSize : Nat) (sock : Sock) :
    ((start limits memory).writeMessage limits maxBatchSize sock plainCall).sendBufferQueue =
      (acquireSendBuffer limits (start limits memory : Context Sock).sendBufferQueue).2 := by
  have hidle : (start limits memory : Context Sock).sendCurrentBuffer limits sock
      plainCall.sendFails = (start limits memory, false) := by
    unfold Context.sendCurrentBuffer
    exact if_pos rfl
  have hroom : (start limits memory : Context Sock).makeRoom limits maxBatchSize sock plainCall =
      (start limits memory).acquire limits sock plainCall := by
    have hfull : (Cursor.ofLength 0 0).canAccess plainCall.frameLength = false := by
      decide +kernel
    unfold Context.makeRoom
    rw [if_pos (.inl hfull), if_neg (fun hopen => hopen.1 rfl), hidle]
  have hacquire : ((start limits memory : Context Sock).acquire limits sock
      plainCall).1.sendBufferQueue =
        (acquireSendBuffer limits (start limits memory : Context Sock).sendBufferQueue).2 := rfl
  unfold Context.writeMessage
  split
  · rename_i hresult
    rw [hroom] at hresult
    rwa [hresult] at hacquire
  · rename_i hresult
    rw [hroom] at hresult
    rwa [hresult] at hacquire

theorem offered_neighbours (sock : Sock) {count : Nat} (hlimit : limits.sendBufferCount = count + 2)
    (hcount : limits.sendBufferCount ≤ 65535) :
    ∃ first second : Context Sock, (machine limits 1).Reachable first ∧
      (machine limits 1).Reachable second ∧
      first.offered limits = some (limits.buffer (count + 1)) ∧
      second.offered limits = some (limits.buffer count) := by
  have hstart : (machine limits 1).Reachable (start limits fun _ : Sock => fun _ => 0) :=
    ⟨_, ⟨_, rfl⟩, .refl⟩
  have hqueue : (start limits fun _ : Sock => fun _ => 0).sendBufferQueue =
      (count + 1) :: count :: (List.range count).reverse := by
    simp [start, hlimit, List.range_succ]
  have hnext : (machine limits 1).next (start limits fun _ : Sock => fun _ => 0)
      (.writeMessage sock plainCall) =
        some ((start limits fun _ => fun _ => 0).writeMessage limits 1 sock plainCall) := rfl
  have hinside : (count + 1) * limits.bufferLength + limits.bufferLength ≤
      limits.sendBufferCount * limits.bufferLength := by
    rw [← Nat.succ_mul, hlimit]
  have hrest : ((start limits fun _ : Sock => fun _ => 0).writeMessage limits 1 sock
      plainCall).sendBufferQueue = count :: (List.range count).reverse := by
    rw [queue_after_first_write, hqueue, acquireSendBuffer, if_neg (Nat.not_lt.mpr hinside)]
  exact ⟨_, _, hstart, hstart.extend (.step .refl trivial hnext),
    offered_of_cons hqueue (by omega) hcount, offered_of_cons hrest (by omega) hcount⟩

theorem send_aligned_iff [Nonempty Sock] (hcount : limits.sendBufferCount ≤ 65535)
    (hpage : 4096 ∣ limits.addr) :
    (∀ maxBatchSize (context : Context Sock), (machine limits maxBatchSize).Reachable context →
      ∀ buffer ∈ context.offered limits, 8 ∣ buffer.addr) ↔
      EvenlyCut limits.sendBufferCount limits.bufferLength := by
  constructor
  · intro hall
    by_cases hone : limits.sendBufferCount ≤ 1
    · exact .inl hone
    · obtain ⟨count, hlimit⟩ : ∃ count, limits.sendBufferCount = count + 2 :=
        ⟨limits.sendBufferCount - 2, by omega⟩
      obtain ⟨first, second, hfirst, hsecond, hupper, hlower⟩ :=
        offered_neighbours (Classical.arbitrary Sock) hlimit hcount
      have habove := hall 1 first hfirst _ hupper
      have hbelow := hall 1 second hsecond _ hlower
      simp only [Limits.buffer, Nat.succ_mul] at habove hbelow
      exact .inr (by omega)
  · intro hcut maxBatchSize context hreach buffer hoffered
    have hconserved := (inv_of_reachable hcount hreach).conserved
    cases hqueue : context.sendBufferQueue with
    | nil =>
        simp [Context.offered, hqueue, acquireSendBuffer] at hoffered
    | cons id rest =>
        have hid : id < limits.sendBufferCount :=
          hconserved.free_lt (by rw [hqueue]; exact List.mem_cons_self)
        rw [offered_of_cons hqueue hid hcount] at hoffered
        cases hoffered
        have hproduct := hcut.dvd_mul hid
        simp only [Limits.buffer]
        omega

end Send

/-- All send buffers of one host and all receive buffers of another start at a multiple of
eight, and sender and receiver skip the same padding at every position of every pair, if
and only if both buffer lengths cut their regions evenly. -/
theorem buffers_aligned_iff (Sock : Type) [DecidableEq Sock] [Nonempty Sock] (limits : Limits)
    (device : Device) (hcount : limits.sendBufferCount ≤ 65535) (hsend : 4096 ∣ limits.addr)
    (hreceive : 4096 ∣ device.mReceiveData.addr) :
    ((∀ maxBatchSize (context : Context Sock), (machine limits maxBatchSize).Reachable context →
        ∀ buffer ∈ context.offered limits, 8 ∣ buffer.addr) ∧
      (∀ id < device.receiveBufferCount, 8 ∣ (device.acquireReceiveBuffer id).handle.addr) ∧
      ∀ maxBatchSize (context : Context Sock), (machine limits maxBatchSize).Reachable context →
        ∀ buffer ∈ context.offered limits, ∀ id < device.receiveBufferCount, ∀ position,
          buffer.addr + position < wordRange →
          (device.acquireReceiveBuffer id).handle.addr + position < wordRange →
            padding (buffer.addr + position) =
              padding ((device.acquireReceiveBuffer id).handle.addr + position)) ↔
      EvenlyCut limits.sendBufferCount limits.bufferLength ∧
        EvenlyCut device.receiveBufferCount device.bufferLength := by
  have hsends := @send_aligned_iff Sock _ limits _ hcount hsend
  have hreceives := receive_aligned_iff hreceive
  constructor
  · rintro ⟨hsent, hreceived, _⟩
    exact ⟨hsends.mp hsent, hreceives.mp hreceived⟩
  · rintro ⟨hcut, hcutReceive⟩
    have hsent := hsends.mpr hcut
    have hreceived := hreceives.mpr hcutReceive
    refine ⟨hsent, hreceived, ?_⟩
    intro maxBatchSize context hreach buffer hoffered id hid position hleft hright
    have hnear := hsent maxBatchSize context hreach buffer hoffered
    have hfar := hreceived id hid
    exact padding_congr hleft hright (by omega)

def sampleDevice (count length : Nat) (hcount : count < 2 ^ 16) (hlength : length < 2 ^ 32)
    (hfits : 65536 + count * length ≤ wordRange) : Device where
  receiveBufferCount := count
  bufferLength := length
  mReceiveData := ⟨65536, count * length, 9, by omega, hfits⟩
  count_lt := hcount
  length_lt := hlength
  allocated := rfl

/-- With 64 buffers of 256 bytes the first send buffer of a run agrees on the padding with
the last receive buffer. -/
theorem default_buffers_aligned :
    ∃ context : Context Unit, (machine ⟨64, 256, 4096, 7⟩ 1).Reachable context ∧
      ∃ buffer ∈ context.offered ⟨64, 256, 4096, 7⟩, 8 ∣ buffer.addr ∧
        padding (buffer.addr + 21) =
          padding (((sampleDevice 64 256 (by decide) (by decide)
            (by decide)).acquireReceiveBuffer 63).handle.addr + 21) := by
  obtain ⟨hsent, _, hpadding⟩ := (buffers_aligned_iff Unit ⟨64, 256, 4096, 7⟩
    (sampleDevice 64 256 (by decide) (by decide) (by decide)) (by decide) (by decide)
    (by decide)).mpr (by decide)
  have hreach : (machine ⟨64, 256, 4096, 7⟩ 1).Reachable
      (start ⟨64, 256, 4096, 7⟩ fun _ : Unit => fun _ => 0) := ⟨_, ⟨_, rfl⟩, .refl⟩
  have hoffered : ⟨20224, 256⟩ ∈ (start ⟨64, 256, 4096, 7⟩ fun _ : Unit => fun _ => 0).offered
      ⟨64, 256, 4096, 7⟩ := by decide +kernel
  exact ⟨_, hreach, _, hoffered, hsent 1 _ hreach _ hoffered,
    hpadding 1 _ hreach _ hoffered 63 (by decide) 21 (by decide +kernel) (by decide +kernel)⟩

/-- With two buffers of 100 bytes the first send buffer of a run starts at an odd multiple of
four. The padding behind a message of eight bytes then differs from that in a receive
buffer with id 0. -/
theorem uneven_buffers_misaligned :
    ∃ context : Context Unit, (machine ⟨2, 100, 4096, 7⟩ 1).Reachable context ∧
      ∃ buffer ∈ context.offered ⟨2, 100, 4096, 7⟩, ¬ 8 ∣ buffer.addr ∧
        padding (buffer.addr + 24) ≠
          padding (((sampleDevice 2 100 (by decide) (by decide)
            (by decide)).acquireReceiveBuffer 0).handle.addr + 24) :=
  ⟨start ⟨2, 100, 4096, 7⟩ fun _ => fun _ => 0, ⟨_, ⟨_, rfl⟩, .refl⟩, ⟨4196, 100⟩,
    by decide +kernel, by decide, by decide +kernel⟩

end Crossbow.Infinio.BufferAlignment
