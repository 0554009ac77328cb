import Crossbow.Infinio.SendBufferPool

/-! Memory regions and the requests on them. Five places check that `offset + length` does
not exceed the length of a region or buffer, and all five form the sum in `size_t`. -/
namespace Crossbow.Infinio.MemoryRegion
open Kernel SendBufferPool

structure Sge where
  addr : Nat
  length : Nat
  lkey : Nat
  deriving DecidableEq, Repr

def Sge.Within (sge : Sge) (addr length : Nat) : Prop :=
  ∀ byte, sge.addr ≤ byte → byte < sge.addr + sge.length → addr ≤ byte ∧ byte < addr + length

structure InfinibandBuffer where
  handle : Sge
  id : Nat
  deriving DecidableEq, Repr

/-- `InfinibandBuffer(uint16_t id)` clears the handle. -/
def InfinibandBuffer.ofId (id : Nat) : InfinibandBuffer := ⟨⟨0, 0, 0⟩, id⟩

def InfinibandBuffer.valid (buffer : InfinibandBuffer) : Bool := decide (buffer.id ≠ invalidId)

/-- A registered region lies inside the address space. -/
structure LocalMemoryRegion where
  addr : Nat
  length : Nat
  lkey : Nat
  length_lt : length < wordRange
  fits : addr + length ≤ wordRange

structure RemoteMemoryRegion where
  address : Nat
  length : Nat
  key : Nat
  length_lt : length < wordRange
  fits : address + length ≤ wordRange

/-- `mLength` adds up in 64 bits. -/
structure ScatterGatherBuffer where
  handle : List Sge
  length : Nat
  id : Nat
  deriving DecidableEq, Repr

/-- `offset + length > limit` in `size_t`. -/
def exceeds (offset length limit : Nat) : Bool := decide (limit < wrap (offset + length))

def LocalMemoryRegion.acquireBuffer (region : LocalMemoryRegion) (id offset length : Nat) :
    InfinibandBuffer :=
  if exceeds offset length region.length then .ofId invalidId
  else ⟨⟨wrap (region.addr + offset), length, region.lkey⟩, id⟩

def ScatterGatherBuffer.add (list : ScatterGatherBuffer) (buffer : InfinibandBuffer)
    (offset length : Nat) : ScatterGatherBuffer :=
  if exceeds offset length buffer.handle.length then list
  else
    { list with
      handle := list.handle ++
        [⟨wrap (buffer.handle.addr + offset), length, buffer.handle.lkey⟩]
      length := wrap (list.length + length) }

inductive Opcode where
  | rdmaRead
  | rdmaWrite
  | rdmaWriteWithImm
  deriving DecidableEq, Repr

structure SendRequest where
  opcode : Opcode
  wrId : Nat
  sgList : List Sge
  sendFlags : Nat
  immData : Nat
  remoteAddr : Nat
  rkey : Nat
  deriving DecidableEq, Repr

/-- What the `Buffer` parameter of the requests provides. -/
structure Transfer where
  id : Nat
  length : Nat
  handle : List Sge
  deriving DecidableEq, Repr

def InfinibandBuffer.transfer (buffer : InfinibandBuffer) : Transfer :=
  ⟨buffer.id, buffer.handle.length, [buffer.handle]⟩

def ScatterGatherBuffer.transfer (list : ScatterGatherBuffer) : Transfer :=
  ⟨list.id, list.length, list.handle⟩

/-- The queue pair of a socket, null before it is opened, and the requests it was given. -/
structure SendQueue where
  isOpen : Bool
  posted : List SendRequest
  deriving DecidableEq, Repr

/-- How a request ends; the code of a failed `ibv_post_send` is passed on. -/
inductive Outcome where
  | posted
  | outOfRange
  | postFailed (code : Nat)
  | badFileDescriptor
  deriving DecidableEq, Repr

/-- `result` is what `ibv_post_send` returns. -/
def doSend (queue : SendQueue) (request : SendRequest) (result : Nat) : SendQueue × Outcome :=
  if queue.isOpen then
    if result = 0 then ({ queue with posted := queue.posted ++ [request] }, .posted)
    else (queue, .postFailed result)
  else (queue, .badFileDescriptor)

def htonl (value : Nat) : Nat := decodeLE (natLE 4 value).reverse

structure Arguments where
  region : RemoteMemoryRegion
  offset : Nat
  buffer : Transfer
  userId : Nat
  flags : Nat

def doRequest (queue : SendQueue) (arguments : Arguments) (opcode : Opcode) (type : WorkType)
    (immData result : Nat) : SendQueue × Outcome :=
  if exceeds arguments.offset arguments.buffer.length arguments.region.length then
    (queue, .outOfRange)
  else
    doSend queue
      { opcode := opcode
        wrId := WorkRequestId.buildId arguments.userId arguments.buffer.id type
        sgList := arguments.buffer.handle
        sendFlags := arguments.flags
        immData := immData
        remoteAddr := wrap (arguments.region.address + arguments.offset)
        rkey := arguments.region.key }
      result

def doRead (queue : SendQueue) (arguments : Arguments) (result : Nat) : SendQueue × Outcome :=
  doRequest queue arguments .rdmaRead .read 0 result

def doWrite (queue : SendQueue) (arguments : Arguments) (result : Nat) : SendQueue × Outcome :=
  doRequest queue arguments .rdmaWrite .write 0 result

def doWriteImmediate (queue : SendQueue) (arguments : Arguments) (immediate result : Nat) :
    SendQueue × Outcome :=
  doRequest queue arguments .rdmaWriteWithImm .write (htonl immediate) result

/-! ### What the checks are for -/

/-- The buffer is valid exactly for a range of the region, which it then describes. -/
def LocalMemoryRegion.AcquiresExactly (region : LocalMemoryRegion) (id offset length : Nat) :
    Prop :=
  if offset + length ≤ region.length then
    (region.acquireBuffer id offset length).valid = true ∧
      (region.acquireBuffer id offset length).handle.Within region.addr region.length
  else (region.acquireBuffer id offset length).valid = false

/-- One element of the buffer is added, or the list stays as it is. -/
def ScatterGatherBuffer.AddsExactly (list : ScatterGatherBuffer) (buffer : InfinibandBuffer)
    (offset length : Nat) : Prop :=
  if offset + length ≤ buffer.handle.length then
    ∃ element : Sge, (list.add buffer offset length).handle = list.handle ++ [element] ∧
      element.Within buffer.handle.addr buffer.handle.length
  else list.add buffer offset length = list

/-- The bytes of the region that a request reads or writes. -/
def SendRequest.target (request : SendRequest) (length : Nat) : Sge :=
  ⟨request.remoteAddr, length, request.rkey⟩

/-- A request inside the region is handed on and stays inside it; any other one is refused
and changes nothing. -/
def Arguments.PostsExactly (arguments : Arguments) (queue : SendQueue)
    (ending : SendQueue × Outcome) : Prop :=
  if arguments.offset + arguments.buffer.length ≤ arguments.region.length then
    ending.2 ≠ .outOfRange ∧
      ∀ request, ending.1.posted = queue.posted ++ [request] →
        (request.target arguments.buffer.length).Within arguments.region.address
          arguments.region.length
  else ending = (queue, .outOfRange)

/-- The sum does not overflow, or what is left of it is still too large. -/
def Guarded (offset length limit : Nat) : Prop :=
  offset + length < wordRange ∨ limit < wrap (offset + length)

instance (offset length limit : Nat) : Decidable (Guarded offset length limit) :=
  inferInstanceAs (Decidable (_ ∨ _))

section Checks

variable {offset length limit : Nat}

theorem exceeds_of_lt (hsum : offset + length < wordRange) :
    exceeds offset length limit = decide (limit < offset + length) := by
  unfold exceeds
  rw [wrap_of_lt hsum]

theorem exceeds_of_le (hlimit : limit < wordRange) (hinside : offset + length ≤ limit) :
    exceeds offset length limit = false := by
  rw [exceeds_of_lt (by omega)]
  exact decide_eq_false (Nat.not_lt.mpr hinside)

theorem exceeds_iff_guarded (houtside : limit < offset + length) :
    exceeds offset length limit = true ↔ Guarded offset length limit := by
  unfold Guarded
  constructor
  · intro hexceeds
    exact .inr (of_decide_eq_true hexceeds)
  · rintro (hsum | hwrapped)
    · rw [exceeds_of_lt hsum]
      exact decide_eq_true houtside
    · exact decide_eq_true hwrapped

theorem guarded_of_le (hlimit : limit < wordRange) (hinside : offset + length ≤ limit) :
    Guarded offset length limit := .inl (by omega)

/-- The element of an accepted range. An empty one at the end of the address space starts
at zero, but has no bytes. -/
theorem within_of_le {addr lkey : Nat} (hfits : addr + limit ≤ wordRange)
    (hinside : offset + length ≤ limit) :
    Sge.Within ⟨wrap (addr + offset), length, lkey⟩ addr limit := by
  intro byte hfirst hlast
  simp only at hfirst hlast
  by_cases hempty : length = 0
  · omega
  · rw [wrap_of_lt (by omega)] at hfirst hlast
    omega

end Checks

theorem acquiresExactly_iff (region : LocalMemoryRegion) (id offset length : Nat) :
    region.AcquiresExactly id offset length ↔
      if id = invalidId then region.length < offset + length
      else Guarded offset length region.length := by
  unfold LocalMemoryRegion.AcquiresExactly LocalMemoryRegion.acquireBuffer
  by_cases hinside : offset + length ≤ region.length
  · rw [if_pos hinside, exceeds_of_le region.length_lt hinside]
    have hwithin := @within_of_le offset length region.length region.addr region.lkey
      region.fits hinside
    have hguarded := guarded_of_le region.length_lt hinside
    by_cases hid : id = invalidId
    · simp [InfinibandBuffer.valid, hid, hinside]
    · simp [InfinibandBuffer.valid, hid, hwithin, hguarded]
  · rw [if_neg hinside]
    have hiff := exceeds_iff_guarded (Nat.lt_of_not_le hinside)
    by_cases hid : id = invalidId
    · have houtside := Nat.lt_of_not_le hinside
      split <;> simp [InfinibandBuffer.valid, InfinibandBuffer.ofId, hid, houtside]
    · rw [if_neg hid, ← hiff]
      split <;> simp_all [InfinibandBuffer.valid, InfinibandBuffer.ofId]

theorem addsExactly_iff (list : ScatterGatherBuffer) {buffer : InfinibandBuffer}
    (hlength : buffer.handle.length < wordRange)
    (hfits : buffer.handle.addr + buffer.handle.length ≤ wordRange) (offset length : Nat) :
    list.AddsExactly buffer offset length ↔ Guarded offset length buffer.handle.length := by
  unfold ScatterGatherBuffer.AddsExactly ScatterGatherBuffer.add
  by_cases hinside : offset + length ≤ buffer.handle.length
  · rw [if_pos hinside, exceeds_of_le hlength hinside]
    refine iff_of_true ⟨_, rfl, within_of_le hfits hinside⟩ (guarded_of_le hlength hinside)
  · rw [if_neg hinside, ← exceeds_iff_guarded (Nat.lt_of_not_le hinside)]
    split
    · simp_all
    · rename_i haccepted
      refine iff_of_false ?_ haccepted
      intro hsame
      have hhandle := congrArg (fun list => list.handle.length) hsame
      simp at hhandle

theorem doSend_posted {queue : SendQueue} {request other : SendRequest} {result : Nat}
    (hposted : (doSend queue request result).1.posted = queue.posted ++ [other]) :
    other = request := by
  unfold doSend at hposted
  split at hposted
  · split at hposted <;> simp_all
  · simp_all

theorem doSend_ne_outOfRange (queue : SendQueue) (request : SendRequest) (result : Nat) :
    (doSend queue request result).2 ≠ .outOfRange := by
  unfold doSend
  split
  · split <;> nofun
  · nofun

theorem postsExactly_iff (queue : SendQueue) (arguments : Arguments) (opcode : Opcode)
    (type : WorkType) (immData result : Nat) :
    arguments.PostsExactly queue (doRequest queue arguments opcode type immData result) ↔
      Guarded arguments.offset arguments.buffer.length arguments.region.length := by
  have hlength := arguments.region.length_lt
  unfold Arguments.PostsExactly doRequest
  by_cases hinside : arguments.offset + arguments.buffer.length ≤ arguments.region.length
  · rw [if_pos hinside, exceeds_of_le hlength hinside]
    refine iff_of_true ⟨doSend_ne_outOfRange _ _ _, ?_⟩ (guarded_of_le hlength hinside)
    intro request hposted
    rw [doSend_posted hposted]
    exact within_of_le arguments.region.fits hinside
  · rw [if_neg hinside, ← exceeds_iff_guarded (Nat.lt_of_not_le hinside)]
    split
    · simp_all
    · rename_i haccepted
      refine iff_of_false ?_ haccepted
      intro hrefused
      exact doSend_ne_outOfRange _ _ _ (congrArg Prod.snd hrefused)

/-- Each of the five checks accepts exactly the ranges of its region, and what it accepts
stays inside, if and only if the sum of offset and length is guarded. A valid buffer needs
a valid id besides. -/
theorem range_checks_exact_iff (region : LocalMemoryRegion) (list : ScatterGatherBuffer)
    (buffer : InfinibandBuffer) (hlength : buffer.handle.length < wordRange)
    (hfits : buffer.handle.addr + buffer.handle.length ≤ wordRange) (queue : SendQueue)
    (arguments : Arguments) (id offset length immediate result : Nat) :
    (region.AcquiresExactly id offset length ↔
      if id = invalidId then region.length < offset + length
      else Guarded offset length region.length) ∧
    (list.AddsExactly buffer offset length ↔ Guarded offset length buffer.handle.length) ∧
    (arguments.PostsExactly queue (doRead queue arguments result) ↔
      Guarded arguments.offset arguments.buffer.length arguments.region.length) ∧
    (arguments.PostsExactly queue (doWrite queue arguments result) ↔
      Guarded arguments.offset arguments.buffer.length arguments.region.length) ∧
    (arguments.PostsExactly queue (doWriteImmediate queue arguments immediate result) ↔
      Guarded arguments.offset arguments.buffer.length arguments.region.length) := by
  refine ⟨acquiresExactly_iff region id offset length,
    addsExactly_iff list hlength hfits offset length, ?_, ?_, ?_⟩
  · exact postsExactly_iff queue arguments .rdmaRead .read 0 result
  · exact postsExactly_iff queue arguments .rdmaWrite .write 0 result
  · exact postsExactly_iff queue arguments .rdmaWriteWithImm .write (htonl immediate) result

def sampleRegion : LocalMemoryRegion where
  addr := 8192
  length := 4096
  lkey := 7
  length_lt := by decide
  fits := by decide

def sampleBuffer : InfinibandBuffer := ⟨⟨8192, 256, 7⟩, 3⟩

def sampleRead (offset : Nat) : Arguments where
  region := ⟨65536, 4096, 9, by decide, by decide⟩
  offset := offset
  buffer := ⟨3, 16, [⟨8192, 16, 7⟩]⟩
  userId := 1
  flags := 2

/-- The last bytes of a region, a buffer and a remote region are accepted. -/
theorem last_bytes_accepted :
    sampleRegion.AcquiresExactly 3 4080 16 ∧
      ScatterGatherBuffer.AddsExactly ⟨[], 0, 3⟩ sampleBuffer 240 16 ∧
      (sampleRead 4080).PostsExactly ⟨true, []⟩ (doRead ⟨true, []⟩ (sampleRead 4080) 0) := by
  have hchecks (id offset : Nat) := range_checks_exact_iff sampleRegion ⟨[], 0, 3⟩ sampleBuffer
    (by decide) (by decide) ⟨true, []⟩ (sampleRead 4080) id offset 16 0 0
  exact ⟨(hchecks 3 4080).1.mpr (by decide), (hchecks 3 240).2.1.mpr (by decide),
    (hchecks 3 0).2.2.1.mpr (by decide)⟩

/-- An offset eight below `2 ^ 64` passes the checks and addresses the bytes in front. -/
theorem overflowing_offset_accepted :
    (sampleRegion.acquireBuffer 3 (2 ^ 64 - 8) 16 = ⟨⟨8184, 16, 7⟩, 3⟩ ∧
      ¬ sampleRegion.AcquiresExactly 3 (2 ^ 64 - 8) 16) ∧
    (ScatterGatherBuffer.add ⟨[], 0, 3⟩ sampleBuffer (2 ^ 64 - 8) 16 =
        ⟨[⟨8184, 16, 7⟩], 16, 3⟩ ∧
      ¬ ScatterGatherBuffer.AddsExactly ⟨[], 0, 3⟩ sampleBuffer (2 ^ 64 - 8) 16) ∧
    ((doRead ⟨true, []⟩ (sampleRead (2 ^ 64 - 8)) 0).2 = .posted ∧
      ¬ (sampleRead (2 ^ 64 - 8)).PostsExactly ⟨true, []⟩
        (doRead ⟨true, []⟩ (sampleRead (2 ^ 64 - 8)) 0)) ∧
    ¬ (sampleRead (2 ^ 64 - 8)).PostsExactly ⟨true, []⟩
      (doWrite ⟨true, []⟩ (sampleRead (2 ^ 64 - 8)) 0) ∧
    ¬ (sampleRead (2 ^ 64 - 8)).PostsExactly ⟨true, []⟩
      (doWriteImmediate ⟨true, []⟩ (sampleRead (2 ^ 64 - 8)) 5 0) := by
  refine ⟨⟨by decide +kernel, ?_⟩, ⟨by decide +kernel, ?_⟩, ⟨by decide +kernel, ?_⟩, ?_, ?_⟩
  · rw [acquiresExactly_iff]
    decide +kernel
  · rw [addsExactly_iff _ (by decide) (by decide)]
    decide +kernel
  · unfold doRead
    rw [postsExactly_iff]
    decide +kernel
  · unfold doWrite
    rw [postsExactly_iff]
    decide +kernel
  · unfold doWriteImmediate
    rw [postsExactly_iff]
    decide +kernel

end Crossbow.Infinio.MemoryRegion
