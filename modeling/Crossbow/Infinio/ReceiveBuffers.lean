import Crossbow.Infinio.CompletionContext
import Crossbow.Kernel.Placement

/-! Who may touch a receive buffer. Every buffer belongs to the device, to a completion
that no handler has seen yet, to one running handler, or could not be posted again. So a
handler never reads bytes that the device may still write. -/
namespace Crossbow.Infinio.CompletionContext
open Kernel SendBufferPool MemoryRegion

inductive Place (Ctx : Type) where
  | absent
  | device
  | completed (ctx : Ctx)
  | handled (ctx : Ctx)
  | lost
  deriving DecidableEq, Repr

def Place.Listed {Ctx : Type} : Place Ctx → Prop
  | .absent => False
  | _ => True

def Completion.receiveId (wc : Completion) : Option Nat :=
  if WorkRequestId.workType wc.wrId = .receive then some (WorkRequestId.bufferId wc.wrId) else none

def ReceiveRequest.bufferId (request : ReceiveRequest) : Nat :=
  WorkRequestId.bufferId request.wrId

section Places

variable {Ctx Sock : Type}

def State.lists (state : State Ctx Sock) : Place Ctx → List Nat
  | .absent => []
  | .device => state.receiveQueue.map ReceiveRequest.bufferId
  | .completed ctx => (state.contexts ctx).pending.filterMap Completion.receiveId
  | .handled ctx => ((state.contexts ctx).stage.buffer.map InfinibandBuffer.id).toList
  | .lost => state.lost

theorem State.listed_of_mem {state : State Ctx Sock} {position : Place Ctx} {id : Nat}
    (hmem : id ∈ state.lists position) : position.Listed := by
  cases position with
  | absent => contradiction
  | _ => trivial

def Device.Owns (device : Device) (buffer : InfinibandBuffer) : Prop :=
  ∃ id < device.receiveBufferCount, buffer = device.acquireReceiveBuffer id

structure Held (device : Device) (state : State Ctx Sock) (place : Nat → Place Ctx) : Prop where
  lists : Placement Place.Listed state.lists place
  absent : ∀ id, place id = .absent ↔ device.receiveBufferCount ≤ id
  requests : ∀ request ∈ state.receiveQueue,
    ∃ buffer, device.Owns buffer ∧ request = receiveRequest buffer
  buffers : ∀ ctx buffer, (state.contexts ctx).stage.buffer = some buffer → device.Owns buffer

end Places

def Apart (first second : Sge) : Prop :=
  ∀ byte, first.addr ≤ byte → byte < first.addr + first.length →
    ¬ (second.addr ≤ byte ∧ byte < second.addr + second.length)

section Buffers

variable {device : Device} {id : Nat}

theorem Device.length_lt_wordRange (device : Device) :
    device.receiveBufferCount * device.receiveBufferLength < 2 ^ 48 := by
  have hcount := device.count_lt
  have hlength := device.length_lt
  calc device.receiveBufferCount * device.receiveBufferLength
      ≤ device.receiveBufferCount * 2 ^ 32 := Nat.mul_le_mul_left _ (by omega)
    _ < 2 ^ 48 := by omega

theorem Device.slice_le (device : Device) (hid : id < device.receiveBufferCount) :
    id * device.receiveBufferLength + device.receiveBufferLength ≤
      device.receiveBufferCount * device.receiveBufferLength := by
  rw [← Nat.succ_mul]
  exact Nat.mul_le_mul_right _ hid

theorem acquireReceiveBuffer_eq (hid : id < device.receiveBufferCount) :
    device.acquireReceiveBuffer id =
      ⟨⟨wrap (device.receiveData.addr + id * device.receiveBufferLength),
        device.receiveBufferLength, device.receiveData.lkey⟩, id⟩ := by
  have hslice := device.slice_le hid
  have hrange := device.length_lt_wordRange
  have hoffset : wrap (id * device.receiveBufferLength) = id * device.receiveBufferLength := by
    unfold wrap wordRange
    omega
  have hfits : exceeds (id * device.receiveBufferLength) device.receiveBufferLength
      device.receiveData.length = false := by
    unfold exceeds wrap wordRange
    rw [device.length_eq]
    simp only [decide_eq_false_iff_not]
    omega
  unfold Device.acquireReceiveBuffer LocalMemoryRegion.acquireBuffer
  rw [hoffset, hfits]
  rfl

theorem id_acquireReceiveBuffer (hid : id < device.receiveBufferCount) :
    (device.acquireReceiveBuffer id).id = id := by
  rw [acquireReceiveBuffer_eq hid]

theorem valid_acquireReceiveBuffer (hid : id < device.receiveBufferCount) :
    (device.acquireReceiveBuffer id).valid = true := by
  have hcount := device.count_lt
  rw [acquireReceiveBuffer_eq hid]
  unfold InfinibandBuffer.valid invalidId
  simp only [decide_eq_true_eq]
  omega

theorem addr_acquireReceiveBuffer (hid : id < device.receiveBufferCount)
    (hlength : 0 < device.receiveBufferLength) :
    (device.acquireReceiveBuffer id).handle.addr =
      device.receiveData.addr + id * device.receiveBufferLength := by
  have hslice := device.slice_le hid
  have hfits := device.receiveData.fits
  rw [device.length_eq] at hfits
  rw [acquireReceiveBuffer_eq hid]
  unfold wordRange at hfits
  unfold wrap wordRange
  simp only
  omega

theorem length_acquireReceiveBuffer (hid : id < device.receiveBufferCount) :
    (device.acquireReceiveBuffer id).handle.length = device.receiveBufferLength := by
  rw [acquireReceiveBuffer_eq hid]

theorem Device.Owns.within {buffer : InfinibandBuffer} (howns : device.Owns buffer) :
    buffer.handle.Within device.receiveData.addr device.receiveData.length := by
  obtain ⟨id, hid, rfl⟩ := howns
  intro byte hfirst hlast
  rw [length_acquireReceiveBuffer hid] at hlast
  have hlength : 0 < device.receiveBufferLength := by omega
  rw [addr_acquireReceiveBuffer hid hlength] at hfirst hlast
  have hslice := device.slice_le hid
  rw [device.length_eq]
  omega

theorem Device.Owns.apart {first second : InfinibandBuffer} (hfirst : device.Owns first)
    (hsecond : device.Owns second) (hne : first.id ≠ second.id) :
    Apart first.handle second.handle := by
  obtain ⟨one, hone, rfl⟩ := hfirst
  obtain ⟨other, hother, rfl⟩ := hsecond
  rw [id_acquireReceiveBuffer hone, id_acquireReceiveBuffer hother] at hne
  rintro byte hlow hhigh ⟨hlow', hhigh'⟩
  rw [length_acquireReceiveBuffer hone] at hhigh
  rw [length_acquireReceiveBuffer hother] at hhigh'
  have hlength : 0 < device.receiveBufferLength := by omega
  rw [addr_acquireReceiveBuffer hone hlength] at hlow hhigh
  rw [addr_acquireReceiveBuffer hother hlength] at hlow' hhigh'
  rcases Nat.lt_or_gt_of_ne hne with hlt | hgt
  · have hslice := Nat.mul_le_mul_right device.receiveBufferLength hlt
    rw [Nat.succ_mul] at hslice
    omega
  · have hslice := Nat.mul_le_mul_right device.receiveBufferLength hgt
    rw [Nat.succ_mul] at hslice
    omega

theorem Device.Owns.id_lt {buffer : InfinibandBuffer} (howns : device.Owns buffer) :
    buffer.id < device.receiveBufferCount := by
  obtain ⟨id, hid, rfl⟩ := howns
  rw [id_acquireReceiveBuffer hid]
  exact hid

theorem Device.Owns.valid {buffer : InfinibandBuffer} (howns : device.Owns buffer) :
    buffer.valid = true := by
  obtain ⟨id, hid, rfl⟩ := howns
  exact valid_acquireReceiveBuffer hid

theorem Device.Owns.bufferId_receiveRequest {buffer : InfinibandBuffer}
    (howns : device.Owns buffer) : (receiveRequest buffer).bufferId = buffer.id := by
  have hlt := howns.id_lt
  have hcount := device.count_lt
  exact WorkRequestId.bufferId_buildId 0 (by omega) .receive

theorem Device.Owns.workType_receiveRequest {buffer : InfinibandBuffer}
    (howns : device.Owns buffer) :
    WorkRequestId.workType (receiveRequest buffer).wrId = .receive := by
  have hlt := howns.id_lt
  have hcount := device.count_lt
  exact WorkRequestId.workType_buildId 0 (by omega) .receive

end Buffers

section Moves

variable {Ctx Sock : Type} {device : Device} {state after : State Ctx Sock}
  {place : Nat → Place Ctx} {id : Nat}

structure State.SameBuffers (state after : State Ctx Sock) : Prop where
  receiveQueue : after.receiveQueue = state.receiveQueue
  lost : after.lost = state.lost
  pending : ∀ ctx, (after.contexts ctx).pending.filterMap Completion.receiveId =
    (state.contexts ctx).pending.filterMap Completion.receiveId
  buffer : ∀ ctx, (after.contexts ctx).stage.buffer = (state.contexts ctx).stage.buffer

theorem State.SameBuffers.refl (state : State Ctx Sock) : state.SameBuffers state :=
  ⟨rfl, rfl, fun _ => rfl, fun _ => rfl⟩

theorem Held.same (hheld : Held device state place) (hsame : state.SameBuffers after) :
    Held device after place where
  lists := by
    have hlists : after.lists = state.lists := by
      funext position
      cases position <;>
        simp only [State.lists, hsame.receiveQueue, hsame.lost, hsame.pending, hsame.buffer]
    rw [hlists]
    exact hheld.lists
  absent := hheld.absent
  requests := by
    rw [hsame.receiveQueue]
    exact hheld.requests
  buffers := by
    intro ctx
    rw [hsame.buffer]
    exact hheld.buffers ctx

theorem Held.lt_of_mem (hheld : Held device state place) {position : Place Ctx}
    (hmem : id ∈ state.lists position) : id < device.receiveBufferCount := by
  have hlisted := State.listed_of_mem hmem
  refine Nat.lt_of_not_le (mt (hheld.absent id).mpr ?_)
  rw [(hheld.lists.mem position hlisted id).mp hmem]
  rintro rfl
  exact hlisted

theorem Held.move (hheld : Held device state place) {source : Place Ctx} (target : Place Ctx)
    (hmem : id ∈ state.lists source) (hne : source ≠ target) (htarget : target ≠ .absent)
    (hsame : ∀ position, position ≠ source → position ≠ target →
      after.lists position = state.lists position)
    (hdepart : (state.lists source).Perm (id :: after.lists source))
    (harrive : (after.lists target).Perm (id :: state.lists target))
    (hrequests : ∀ request ∈ after.receiveQueue,
      ∃ buffer, device.Owns buffer ∧ request = receiveRequest buffer)
    (hbuffers : ∀ ctx buffer, (after.contexts ctx).stage.buffer = some buffer →
      device.Owns buffer) :
    Held device after (Function.update place id target) where
  lists := by
    have hlisted := State.listed_of_mem hmem
    refine hheld.lists.move ((hheld.lists.mem source hlisted id).mp hmem) hne ?_
      (fun _ => hdepart) (fun _ => harrive)
    intro position hsource htarget
    rw [hsame position hsource htarget]
  absent := by
    intro other
    by_cases hother : other = id
    · have hlt := hheld.lt_of_mem hmem
      rw [hother, Function.update_self]
      exact iff_of_false htarget (by omega)
    · rw [Function.update_of_ne hother]
      exact hheld.absent other
  requests := hrequests
  buffers := hbuffers

theorem Held.receiveQueue_length_lt (hheld : Held device state place) {source : Place Ctx}
    (hsource : source ≠ .device) (hmem : id ∈ state.lists source) :
    state.receiveQueue.length < device.receiveBufferCount := by
  have hnodup := hheld.lists.nodup .device trivial
  have hlisted := State.listed_of_mem hmem
  have hother : id ∉ state.lists .device := by
    rw [hheld.lists.mem .device trivial, (hheld.lists.mem source hlisted id).mp hmem]
    exact hsource
  have hsubset : id :: state.lists .device ⊆ List.range device.receiveBufferCount := by
    intro other hother
    rw [List.mem_range]
    rcases List.mem_cons.mp hother with rfl | hposted
    · exact hheld.lt_of_mem hmem
    · exact hheld.lt_of_mem hposted
  have hlength := (List.nodup_cons.mpr ⟨hother, hnodup⟩).length_le_of_subset hsubset
  rw [List.length_cons, List.length_range] at hlength
  unfold State.lists at hlength
  rw [List.length_map] at hlength
  exact hlength

theorem Held.post (hheld : Held device state place) (source : Place Ctx)
    {buffer : InfinibandBuffer} (howns : device.Owns buffer) (hdevice : source ≠ .device)
    (hlost : source ≠ .lost) (hqueue : after.receiveQueue = state.receiveQueue)
    (hsame : ∀ position, position ≠ source → after.lists position = state.lists position)
    (hdepart : (state.lists source).Perm (buffer.id :: after.lists source))
    (hbuffers : ∀ ctx other, (after.contexts ctx).stage.buffer = some other → device.Owns other)
    (fault : Bool) :
    ∃ place, Held device (after.postReceiveBuffer device buffer fault) place := by
  have hmem : buffer.id ∈ state.lists source := hdepart.mem_iff.mpr (List.mem_cons_self ..)
  unfold State.postReceiveBuffer
  split
  · refine ⟨_, hheld.move .device hmem hdevice nofun ?_ ?_ ?_ ?_ hbuffers⟩
    · intro position hsource hother
      rw [← hsame position hsource]
      cases position with
      | device => contradiction
      | _ => rfl
    · cases source with
      | device => contradiction
      | _ => exact hdepart
    · have hposted := hsame .device (Ne.symm hdevice)
      simp only [State.lists] at hposted ⊢
      rw [List.map_append, hposted, List.map_singleton, howns.bufferId_receiveRequest]
      exact List.perm_append_singleton _ _
    · intro request hrequest
      rcases List.mem_append.mp hrequest with hold | hnew
      · rw [hqueue] at hold
        exact hheld.requests request hold
      · exact ⟨buffer, howns, List.mem_singleton.mp hnew⟩
  · refine ⟨_, hheld.move .lost hmem hlost nofun ?_ ?_ ?_ ?_ hbuffers⟩
    · intro position hsource hother
      rw [← hsame position hsource]
      cases position with
      | lost => contradiction
      | _ => rfl
    · cases source with
      | lost => contradiction
      | _ => exact hdepart
    · exact .cons _ (.of_eq (hsame .lost (Ne.symm hlost)))
    · rw [hqueue]
      exact hheld.requests

end Moves

section Steps

variable {Ctx Sock : Type} [DecidableEq Ctx] [DecidableEq Sock] {device : Device}
  {home : Sock → Ctx} {state after : State Ctx Sock} {place : Nat → Place Ctx} {ctx : Ctx}
  {context : Context Sock} {draining : List Sock} {rest : List Completion} {wc : Completion}

omit [DecidableEq Sock] in
@[simp] theorem lists_setContext_completed : (state.setContext ctx context).lists (.completed ctx) =
    context.pending.filterMap Completion.receiveId := by
  simp only [State.lists, contexts_setContext_self]

omit [DecidableEq Sock] in
@[simp] theorem lists_setContext_handled : (state.setContext ctx context).lists (.handled ctx) =
    (context.stage.buffer.map InfinibandBuffer.id).toList := by
  simp only [State.lists, contexts_setContext_self]

omit [DecidableEq Sock] in
theorem lists_setContext {position : Place Ctx} (hcompleted : position ≠ .completed ctx)
    (hhandled : position ≠ .handled ctx) :
    (state.setContext ctx context).lists position = state.lists position := by
  cases position with
  | completed other =>
      have hother : other ≠ ctx := fun heq => hcompleted (heq ▸ rfl)
      simp only [State.lists, contexts_setContext_of_ne _ hother]
  | handled other =>
      have hother : other ≠ ctx := fun heq => hhandled (heq ▸ rfl)
      simp only [State.lists, contexts_setContext_of_ne _ hother]
  | _ => rfl

omit [DecidableEq Ctx] in
@[simp] theorem lists_setSocket (state : State Ctx Sock) (sock : Sock) (socket : Socket) :
    (state.setSocket sock socket).lists = state.lists := by
  funext position
  cases position <;> rfl

omit [DecidableEq Sock] in
theorem Held.owns_setContext (hheld : Held device state place)
    (hbuffer : ∀ buffer, context.stage.buffer = some buffer → device.Owns buffer) :
    ∀ other buffer, ((state.setContext ctx context).contexts other).stage.buffer = some buffer →
      device.Owns buffer := by
  intro other buffer hother
  by_cases heq : other = ctx
  · rw [heq, contexts_setContext_self] at hother
    exact hbuffer buffer hother
  · rw [contexts_setContext_of_ne _ heq] at hother
    exact hheld.buffers other buffer hother

omit [DecidableEq Sock] in
theorem sameBuffers_setContext
    (hpending : context.pending.filterMap Completion.receiveId =
      (state.contexts ctx).pending.filterMap Completion.receiveId)
    (hbuffer : context.stage.buffer = (state.contexts ctx).stage.buffer) :
    state.SameBuffers (state.setContext ctx context) where
  receiveQueue := rfl
  lost := rfl
  pending := by
    intro other
    by_cases hother : other = ctx
    · subst hother
      rw [contexts_setContext_self, hpending]
    · rw [contexts_setContext_of_ne _ hother]
  buffer := by
    intro other
    by_cases hother : other = ctx
    · subst hother
      rw [contexts_setContext_self, hbuffer]
    · rw [contexts_setContext_of_ne _ hother]

omit [DecidableEq Ctx] in
theorem State.SameBuffers.setSocket (hsame : state.SameBuffers after) (sock : Sock)
    (socket : Socket) : state.SameBuffers (after.setSocket sock socket) :=
  ⟨hsame.receiveQueue, hsame.lost, hsame.pending, hsame.buffer⟩

omit [DecidableEq Ctx] [DecidableEq Sock] in
theorem State.SameBuffers.trans {middle : State Ctx Sock} (hfirst : state.SameBuffers middle)
    (hsecond : middle.SameBuffers after) : state.SameBuffers after where
  receiveQueue := hsecond.receiveQueue.trans hfirst.receiveQueue
  lost := hsecond.lost.trans hfirst.lost
  pending := fun ctx => (hsecond.pending ctx).trans (hfirst.pending ctx)
  buffer := fun ctx => (hsecond.buffer ctx).trans (hfirst.buffer ctx)

theorem sameBuffers_removeConnection (state : State Ctx Sock) (ctx : Ctx) (sock : Sock) :
    state.SameBuffers (state.removeConnection ctx sock) := by
  unfold State.removeConnection
  split
  · exact .refl state
  · apply State.SameBuffers.setSocket
    exact sameBuffers_setContext rfl rfl

theorem sameBuffers_addConnection (state : State Ctx Sock) (sock : Sock) (qpNum : Nat) :
    state.SameBuffers (state.addConnection home sock qpNum) := by
  apply State.SameBuffers.setSocket
  exact sameBuffers_setContext rfl rfl

theorem sameBuffers_enter (sock : Sock) (hid : wc.receiveId = none) :
    state.SameBuffers (state.enter home sock wc) := by
  apply State.SameBuffers.setSocket
  apply sameBuffers_setContext
  · simp [Context.pending, hid]
  · rfl

omit [DecidableEq Sock] in
theorem sameBuffers_skip (hstage : (state.contexts ctx).stage = .loop draining (wc :: rest))
    (hid : wc.receiveId = none) : state.SameBuffers (state.setStage ctx (.loop draining rest)) := by
  apply sameBuffers_setContext
  · simp [Context.pending, hstage, Stage.completions, hid]
  · rw [hstage]
    rfl

section Preserved

variable (hheld : Held device state place)
include hheld

omit [DecidableEq Ctx] [DecidableEq Sock] in
theorem Held.next_receive (hstage : (state.contexts ctx).stage = .loop draining (wc :: rest))
    (hreceive : WorkRequestId.workType wc.wrId = .receive) :
    device.Owns (device.acquireReceiveBuffer (WorkRequestId.bufferId wc.wrId)) ∧
      state.lists (.completed ctx) =
        (device.acquireReceiveBuffer (WorkRequestId.bufferId wc.wrId)).id ::
          (rest ++ (state.contexts ctx).completionQueue).filterMap Completion.receiveId := by
  have hlist : state.lists (.completed ctx) = WorkRequestId.bufferId wc.wrId ::
      (rest ++ (state.contexts ctx).completionQueue).filterMap Completion.receiveId := by
    simp [State.lists, Context.pending, hstage, Stage.completions, Completion.receiveId, hreceive]
  have hlt : WorkRequestId.bufferId wc.wrId < device.receiveBufferCount := by
    apply hheld.lt_of_mem
    rw [hlist]
    exact List.mem_cons_self ..
  rw [id_acquireReceiveBuffer hlt]
  exact ⟨⟨_, hlt, rfl⟩, hlist⟩

omit [DecidableEq Sock] in
theorem Held.post_completed (hstage : (state.contexts ctx).stage = .loop draining (wc :: rest))
    (hreceive : WorkRequestId.workType wc.wrId = .receive) (fault : Bool) :
    ∃ place, Held device ((state.setStage ctx (.loop draining rest)).postReceiveBuffer device
      (device.acquireReceiveBuffer (WorkRequestId.bufferId wc.wrId)) fault) place := by
  obtain ⟨howns, hlist⟩ := hheld.next_receive hstage hreceive
  refine hheld.post (.completed ctx) howns nofun nofun ?_ ?_ ?_ ?_ fault
  · rfl
  · intro position hposition
    by_cases hhandled : position = .handled ctx
    · subst hhandled
      simp [State.setStage, State.lists, hstage, Stage.buffer]
    · exact lists_setContext hposition hhandled
  · rw [hlist]
    simp [State.setStage, Context.pending, Stage.completions]
  · exact hheld.owns_setContext nofun

omit [DecidableEq Sock] in
theorem Held.post_handled {buffer : InfinibandBuffer}
    (hstage : (state.contexts ctx).stage = .handler draining rest buffer) (fault : Bool) :
    ∃ place, Held device ((state.setStage ctx (.loop draining rest)).postReceiveBuffer device
      buffer fault) place := by
  have howns : device.Owns buffer := by
    apply hheld.buffers ctx
    rw [hstage]
    rfl
  refine hheld.post (.handled ctx) howns nofun nofun ?_ ?_ ?_ ?_ fault
  · rfl
  · intro position hposition
    by_cases hcompleted : position = .completed ctx
    · subst hcompleted
      simp [State.setStage, State.lists, Context.pending, hstage, Stage.completions]
    · exact lists_setContext hcompleted hposition
  · simp [State.setStage, State.lists, hstage, Stage.buffer]
  · exact hheld.owns_setContext nofun

omit [DecidableEq Sock] in
theorem Held.handle (hstage : (state.contexts ctx).stage = .loop draining (wc :: rest))
    (hreceive : WorkRequestId.workType wc.wrId = .receive) :
    ∃ place, Held device (state.setStage ctx (.handler draining rest
      (device.acquireReceiveBuffer (WorkRequestId.bufferId wc.wrId)))) place := by
  obtain ⟨howns, hlist⟩ := hheld.next_receive hstage hreceive
  have hmem : (device.acquireReceiveBuffer (WorkRequestId.bufferId wc.wrId)).id ∈
      state.lists (.completed ctx) := by
    rw [hlist]
    exact List.mem_cons_self ..
  refine ⟨_, hheld.move (.handled ctx) hmem nofun nofun ?_ ?_ ?_ hheld.requests ?_⟩
  · intro position hcompleted hhandled
    exact lists_setContext hcompleted hhandled
  · rw [hlist]
    simp [State.setStage, Context.pending, Stage.completions]
  · simp [State.setStage, State.lists, hstage, Stage.buffer]
  · refine hheld.owns_setContext ?_
    intro buffer hbuffer
    cases hbuffer
    exact howns

theorem Held.processWorkComplete (hstage : (state.contexts ctx).stage = .loop draining (wc :: rest))
    (fault : Bool) :
    ∃ place, Held device (state.processWorkComplete device ctx draining rest wc fault) place := by
  unfold State.processWorkComplete
  by_cases hreceive : WorkRequestId.workType wc.wrId = .receive
  · have hvalid := (hheld.next_receive hstage hreceive).1.valid
    simp only [hreceive, hvalid, if_true]
    split
    · exact hheld.post_completed hstage hreceive fault
    · rename_i sock _
      obtain ⟨place, hnotified⟩ := hheld.handle hstage hreceive
      exact ⟨place, hnotified.same (.setSocket (.refl _) sock _)⟩
  · have hid : wc.receiveId = none := if_neg hreceive
    have hskip := hheld.same (sameBuffers_skip hstage hid)
    split
    · split
      · contradiction
      · exact ⟨place, hskip⟩
    · rename_i sock _
      split
      · contradiction
      · exact ⟨place, hskip.same (.setSocket (.refl _) sock _)⟩

theorem Held.advance (ctx : Ctx) (fault : Bool) :
    ∃ place, Held device (state.advance device home ctx fault) place := by
  cases hstage : (state.contexts ctx).stage with
  | idle =>
      simp only [State.advance, hstage]
      refine ⟨place, hheld.same (sameBuffers_setContext ?_ ?_)⟩ <;>
        simp [Context.pending, hstage, Stage.completions, Stage.buffer]
  | swapped draining =>
      simp only [State.advance, hstage]
      split
      · refine ⟨place, hheld.same (sameBuffers_setContext ?_ ?_)⟩ <;>
          simp [Context.pending, hstage, Stage.completions, Stage.buffer]
      · refine ⟨place, hheld.same (sameBuffers_setContext ?_ ?_)⟩
        · simp only [Context.pending, hstage, Stage.completions, List.take_append_drop,
            List.nil_append]
        · rw [hstage]
          rfl
  | handler draining rest buffer =>
      simp only [State.advance, hstage]
      exact hheld.post_handled hstage fault
  | loop draining wc =>
      cases wc with
      | cons wc rest =>
          simp only [State.advance, hstage]
          exact hheld.processWorkComplete hstage fault
      | nil =>
          have hstaged (stage : Stage Sock) (hcompletions : stage.completions = [])
              (hbuffer : stage.buffer = none) : state.SameBuffers (state.setStage ctx stage) := by
            apply sameBuffers_setContext
            · simp only [Context.pending, hcompletions, hstage]
              rfl
            · rw [hbuffer, hstage]
              rfl
          cases draining with
          | nil =>
              simp only [State.advance, hstage]
              exact ⟨place, hheld.same (hstaged .idle rfl rfl)⟩
          | cons sock draining =>
              simp only [State.advance, hstage]
              have hremoved := (hstaged (.loop draining []) rfl rfl).trans
                (sameBuffers_removeConnection _ (home sock) sock)
              exact ⟨place, hheld.same (hremoved.setSocket sock _)⟩

theorem Held.receive {index : Nat} {request : ReceiveRequest}
    (hrequest : state.receiveQueue[index]? = some request) (sock : Sock)
    (hwrId : wc.wrId = request.wrId) :
    ∃ place, Held device ({ state with
      receiveQueue := state.receiveQueue.eraseIdx index }.enter home sock wc) place := by
  obtain ⟨hlt, hget⟩ := List.getElem?_eq_some_iff.mp hrequest
  obtain ⟨buffer, howns, hbuffer⟩ := hheld.requests request (List.mem_of_getElem? hrequest)
  have hid : wc.receiveId = some request.bufferId := by
    unfold Completion.receiveId
    rw [hwrId, if_pos (by rw [hbuffer, howns.workType_receiveRequest])]
    rfl
  have hperm : (state.lists .device).Perm (request.bufferId ::
      (state.receiveQueue.eraseIdx index).map ReceiveRequest.bufferId) := by
    have herase := (List.getElem_cons_eraseIdx_perm hlt).map ReceiveRequest.bufferId
    rw [List.map_cons, hget] at herase
    exact herase.symm
  have hmem : request.bufferId ∈ state.lists .device :=
    hperm.mem_iff.mpr (List.mem_cons_self ..)
  unfold State.enter
  refine ⟨_, hheld.move (.completed (home sock)) hmem nofun nofun ?_ hperm ?_ ?_ ?_⟩
  · intro position hdevice hcompleted
    rw [lists_setSocket]
    by_cases hhandled : position = .handled (home sock)
    · subst hhandled
      exact lists_setContext_handled
    · rw [lists_setContext hcompleted hhandled]
      cases position with
      | device => contradiction
      | _ => rfl
  · rw [lists_setSocket, lists_setContext_completed]
    simp only [Context.pending, State.lists, List.filterMap_append, List.filterMap_cons, hid,
      List.filterMap_nil, ← List.append_assoc]
    exact List.perm_append_singleton _ _
  · intro other hother
    exact hheld.requests other (List.mem_of_mem_eraseIdx hother)
  · refine hheld.owns_setContext ?_
    exact hheld.buffers (home sock)

theorem Held.next {label : Label Ctx Sock}
    (hnext : next device home state label = some after) : ∃ place, Held device after place := by
  cases label with
  | advance ctx fault =>
      cases hnext
      exact hheld.advance ctx fault
  | addConnection sock qpNum =>
      simp only [CompletionContext.next] at hnext
      split at hnext
      · cases hnext
        exact ⟨place, hheld.same (sameBuffers_addConnection state sock qpNum)⟩
      · contradiction
  | removeConnection sock =>
      cases hnext
      exact ⟨place, hheld.same (sameBuffers_removeConnection state (home sock) sock)⟩
  | receive sock index status withImm byteLen immData =>
      simp only [CompletionContext.next] at hnext
      split at hnext
      · rename_i hrequest
        cases hnext
        exact hheld.receive hrequest sock rfl
      · contradiction
  | complete sock wrId status =>
      simp only [CompletionContext.next] at hnext
      split at hnext
      · split at hnext
        · contradiction
        · rename_i hsend
          cases hnext
          exact ⟨place, hheld.same (sameBuffers_enter sock (if_neg hsend))⟩
      · contradiction
  | timewaitExit sock =>
      cases hnext
      refine ⟨place, hheld.same (.setSocket ?_ sock _)⟩
      exact sameBuffers_setContext rfl rfl
  | drain ctx =>
      simp only [CompletionContext.next] at hnext
      split at hnext
      · contradiction
      · cases hnext
        exact ⟨place, hheld.same (sameBuffers_setContext rfl rfl)⟩

end Preserved

omit [DecidableEq Ctx] [DecidableEq Sock] in
theorem held_start (device : Device) :
    ∃ place, Held device (start device : State Ctx Sock) place := by
  have hdevice : (start device : State Ctx Sock).lists .device =
      List.range device.receiveBufferCount := by
    simp only [State.lists, start, List.map_map]
    refine (List.map_congr_left ?_).trans (List.map_id _)
    intro id hid
    have howns : device.Owns (device.acquireReceiveBuffer id) := ⟨id, List.mem_range.mp hid, rfl⟩
    exact howns.bufferId_receiveRequest.trans (id_acquireReceiveBuffer (List.mem_range.mp hid))
  refine ⟨fun id => if id < device.receiveBufferCount then .device else .absent, ?_, ?_, ?_, ?_⟩
  · constructor
    · intro position _
      cases position with
      | device =>
          rw [hdevice]
          exact List.nodup_range
      | _ => exact List.nodup_nil
    · intro position hlisted id
      cases position with
      | absent => contradiction
      | device =>
          rw [hdevice, List.mem_range]
          split <;> simp_all
      | _ =>
          refine iff_of_false List.not_mem_nil ?_
          split <;> nofun
  · intro id
    split
    · exact iff_of_false nofun (by omega)
    · exact iff_of_true rfl (by omega)
  · intro request hrequest
    obtain ⟨id, hid, rfl⟩ := List.mem_map.mp hrequest
    exact ⟨_, ⟨id, List.mem_range.mp hid, rfl⟩, rfl⟩
  · nofun

theorem held_of_reachable (hreach : (machine device home).Reachable state) :
    ∃ place, Held device state place := by
  refine hreach.invariant (fun state => ∃ place, Held device state place) ?_ ?_
  · rintro _ rfl
    exact held_start device
  · rintro middle label last ⟨place, hheld⟩ _ hnext
    exact hheld.next hnext

end Steps

section Results

variable {Ctx Sock : Type} [DecidableEq Ctx] [DecidableEq Sock] {device : Device}
  {home : Sock → Ctx} {state : State Ctx Sock}

/-- Every buffer of the device is in exactly one place, whatever the contexts, the
connections and the device do. -/
theorem receive_buffers_conserved (hreach : (machine device home).Reachable state) :
    (∀ id < device.receiveBufferCount, ∃! position, id ∈ state.lists position) ∧
      ∀ position, (state.lists position).Nodup := by
  obtain ⟨place, hheld⟩ := held_of_reachable hreach
  constructor
  · intro id hid
    have hplace : (place id).Listed := by
      cases hposition : place id with
      | absent =>
          have hle := (hheld.absent id).mp hposition
          omega
      | _ => trivial
    refine ⟨place id, (hheld.lists.mem _ hplace id).mpr rfl, ?_⟩
    intro position hmem
    exact ((hheld.lists.mem position (State.listed_of_mem hmem) id).mp hmem).symm
  · intro position
    cases position with
    | absent => exact List.nodup_nil
    | _ => exact hheld.lists.nodup _ trivial

def twoBuffers : Device where
  receiveBufferCount := 2
  receiveBufferLength := 16
  receiveData := ⟨8192, 32, 5, by decide, by decide⟩
  completionQueueLength := 4
  count_lt := by decide
  length_lt := by decide
  length_eq := rfl

def bothHandle : List (Label Bool Bool) :=
  [.addConnection false 10, .addConnection true 11, .receive false 1 0 false 4 0,
    .receive true 0 0 false 3 0, .advance false false, .advance true false, .advance true false,
    .advance true false, .advance false false, .advance false false]

theorem conserved_while_both_handle :
    ∃ state : State Bool Bool, (machine twoBuffers id).Reachable state ∧
      state.receiveQueue = [] ∧ ∃! position, 0 ∈ state.lists position := by
  obtain ⟨state, hreach, hqueue⟩ := (machine twoBuffers id).exists_reachable_of_replay
    (start twoBuffers) bothHandle (fun state => state.receiveQueue.isEmpty) rfl
    (by decide +kernel)
  exact ⟨state, hreach, List.isEmpty_iff.mp hqueue,
    (receive_buffers_conserved hreach).1 0 (by decide)⟩

/-- The buffer that a handler reads lies in the region of the device, no posted request
and no other handler shares a byte with it, and there is room to post it again. -/
theorem handlers_own_their_buffer (hreach : (machine device home).Reachable state) {ctx : Ctx}
    {buffer : InfinibandBuffer} (hbuffer : (state.contexts ctx).stage.buffer = some buffer) :
    buffer.handle.Within device.receiveData.addr device.receiveData.length ∧
      (∀ request ∈ state.receiveQueue, Apart request.sge buffer.handle) ∧
      (∀ other second, other ≠ ctx → (state.contexts other).stage.buffer = some second →
        Apart second.handle buffer.handle) ∧
      state.receiveQueue.length < device.receiveBufferCount := by
  obtain ⟨place, hheld⟩ := held_of_reachable hreach
  have howns := hheld.buffers ctx buffer hbuffer
  have hmem : buffer.id ∈ state.lists (.handled ctx) := by simp [State.lists, hbuffer]
  have hplace := (hheld.lists.mem (.handled ctx) trivial _).mp hmem
  have hroom : state.receiveQueue.length < device.receiveBufferCount := by
    refine hheld.receiveQueue_length_lt ?_ hmem
    nofun
  refine ⟨howns.within, ?_, ?_, hroom⟩
  · intro request hrequest
    obtain ⟨posted, hposted, rfl⟩ := hheld.requests request hrequest
    refine hposted.apart howns ?_
    have hdevice : posted.id ∈ state.lists .device := by
      rw [← hposted.bufferId_receiveRequest]
      exact List.mem_map_of_mem hrequest
    intro heq
    rw [heq, hheld.lists.mem .device trivial, hplace] at hdevice
    contradiction
  · intro other second hother hsecond
    refine (hheld.buffers other second hsecond).apart howns ?_
    have hhandled : second.id ∈ state.lists (.handled other) := by simp [State.lists, hsecond]
    intro heq
    rw [heq, hheld.lists.mem (.handled other) trivial, hplace] at hhandled
    injection hhandled with hctx
    exact hother hctx.symm

theorem both_handlers_own_their_buffer :
    ∃ (state : State Bool Bool) (first second : InfinibandBuffer),
      (machine twoBuffers id).Reachable state ∧
      (state.contexts true).stage.buffer = some first ∧
      (state.contexts false).stage.buffer = some second ∧
      Apart second.handle first.handle := by
  obtain ⟨state, hreach, htest⟩ := (machine twoBuffers id).exists_reachable_of_replay
    (start twoBuffers) bothHandle
    (fun state => decide ((state.contexts true).stage.buffer = some ⟨⟨8192, 16, 5⟩, 0⟩ ∧
      (state.contexts false).stage.buffer = some ⟨⟨8208, 16, 5⟩, 1⟩)) rfl (by decide +kernel)
  obtain ⟨hfirst, hsecond⟩ := of_decide_eq_true htest
  exact ⟨state, _, _, hreach, hfirst, hsecond,
    (handlers_own_their_buffer hreach hfirst).2.2.1 false _ (by decide) hsecond⟩

end Results
end Crossbow.Infinio.CompletionContext
