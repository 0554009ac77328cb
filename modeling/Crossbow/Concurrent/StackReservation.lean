import Crossbow.Concurrent.StackConservation

/-! The slots that pushes hold between reserving and publishing. A stack whose capacity is
less than the range of its heads never wraps them, so slot ownership holds in every run,
also where pops return wrong elements. -/
namespace Crossbow.Concurrent.FixedSizeStack
open Kernel

variable {Thread T : Type} [DecidableEq Thread]

/-- Pops read inside the vector, whose size does not change. -/
structure InBounds (size : Nat) (state : State Thread T) : Prop where
  length : state.vec.length = size
  popRead : ∀ thread head, state.pc thread = .popRead head → head.readHead ≤ size

omit [DecidableEq Thread] in
theorem inBounds_start (size : Nat) (nullValue : T) :
    InBounds size (start size nullValue : State Thread T) where
  length := by simp [start]
  popRead := by simp [start]

theorem InBounds.update {size : Nat} {state after : State Thread T} {thread : Thread} {pc : Pc T}
    (hbounds : InBounds size state) (hlength : after.vec.length = state.vec.length)
    (hafter : after.pc = Function.update state.pc thread pc)
    (hpc : ∀ head, pc = .popRead head → head.readHead ≤ size) : InBounds size after := by
  refine ⟨hlength.trans hbounds.length, ?_⟩
  intro other head hother
  rw [hafter] at hother
  by_cases hsame : other = thread
  · subst hsame
    exact hpc head (by simpa using hother)
  · exact hbounds.popRead other head (by simpa [hsame] using hother)

theorem InBounds.move {size : Nat} {state after : State Thread T} {thread : Thread}
    (hbounds : InBounds size state) (hslots : Slots state) (hmove : Move state thread after) :
    InBounds size after := by
  cases hmove with
  | popBusy => exact hbounds
  | popLoaded =>
      refine hbounds.update rfl rfl ?_
      rintro _ ⟨rfl⟩
      rw [← hbounds.length]
      exact hslots.read_le_write.trans hslots.write_le_size
  | pushStores => exact hbounds.update (List.length_set ..) rfl (by simp)
  | _ => exact hbounds.update rfl rfl (by simp)

omit [DecidableEq Thread] in
theorem Slots.noWrap {state : State Thread T} (hslots : Slots state)
    (hsmall : state.vec.length < unsignedRange)
    (hfull : state.head.writeHead ≠ state.vec.length) (thread : Thread) :
    (state.pc thread).NoWrap state := by
  have hsize := hslots.write_le_size
  cases state.pc thread with
  | pushReserve element head =>
      rintro rfl
      omega
  | _ => trivial

theorem slots_of_reachable {size : Nat} {nullValue : T} {state : State Thread T}
    (hsize : size < unsignedRange) (hreach : (machine size nullValue).Reachable state) :
    Slots state ∧ InBounds size state := by
  apply hreach.invariant fun state => Slots state ∧ InBounds size state
  · rintro _ rfl
    exact ⟨slots_start size nullValue, inBounds_start size nullValue⟩
  · rintro before label after ⟨hslots, hbounds⟩ _ hnext
    rcases next_cases hnext with ⟨thread, pc, hidle, hslot, hcall, hagrees, rfl⟩ |
      ⟨thread, rfl, hmove⟩
    · refine ⟨hslots.goto (by rw [hidle, hslot]; rfl) (hagrees _ _), hbounds.update rfl rfl ?_⟩
      -- a call that begins has loaded nothing yet
      exact fun head hpc => absurd hpc (hcall head)
    · refine ⟨hslots.move (fun hfull => ?_) hmove, hbounds.move hslots hmove⟩
      exact hslots.noWrap (by rw [hbounds.length]; exact hsize) hfull thread

/-- In every run the slots between the heads are held by one push each, the push that
publishes holds the first of them, all accesses are inside the vector, and a pop exchanges
the heads only when no slot is held. -/
theorem reserved_slots (size : Nat) (nullValue : T) (state : State Thread T)
    (hsize : size < unsignedRange) (hreach : (machine size nullValue).Reachable state) :
    state.head.readHead ≤ state.head.writeHead ∧ state.head.writeHead ≤ state.vec.length ∧
      state.vec.length = size ∧
      (∀ slot, state.head.readHead ≤ slot ∧ slot < state.head.writeHead ↔
        ∃ thread, (state.pc thread).slot = some slot) ∧
      (∀ left right slot, (state.pc left).slot = some slot →
        (state.pc right).slot = some slot → left = right) ∧
      (∀ thread element wHead, state.pc thread = .pushPublish element wHead state.head →
        wHead = state.head.readHead) ∧
      (∀ thread element wHead head, state.pc thread = .pushStore element wHead head →
        wHead < state.vec.length) ∧
      (∀ thread head, state.pc thread = .popRead head →
        0 < head.readHead ∧ head.readHead - 1 < state.vec.length) ∧
      ∀ thread result, state.pc thread = .popExchange state.head result →
        ∀ other, (state.pc other).slot = none := by
  obtain ⟨hslots, hbounds⟩ := slots_of_reachable hsize hreach
  refine ⟨hslots.read_le_write, hslots.write_le_size, hbounds.length, ?_, hslots.unique,
    ?_, ?_, ?_, ?_⟩
  · intro slot
    constructor
    · exact fun hheld => hslots.covered slot hheld.1 hheld.2
    · exact fun ⟨thread, hslot⟩ => hslots.held thread slot hslot
  · intro thread element wHead hpc
    have hagrees := hslots.agrees thread
    rw [hpc] at hagrees
    exact hagrees.2.symm
  · intro thread element wHead head hpc
    have hheld := hslots.held thread wHead (by rw [hpc]; rfl)
    exact Nat.lt_of_lt_of_le hheld.2 hslots.write_le_size
  · intro thread head hpc
    have hagrees := hslots.agrees thread
    rw [hpc] at hagrees
    have hread := hbounds.popRead thread head hpc
    have hlength := hbounds.length
    have hpositive := hagrees.2
    omega
  · intro thread result hpc
    exact hslots.noneHeld hpc

def twoReservations (first second : Thread) : List (Label Thread Nat) :=
  [.push first 7, .push second 8, .step first, .step first, .step second, .step second,
    .step second]

theorem two_reservations_held :
    ∃ state : State Bool Nat, (machine 2 0).Reachable state ∧ state.head = ⟨0, 2⟩ ∧
      ∀ slot < 2, ∃ thread, (state.pc thread).slot = some slot := by
  obtain ⟨state, hreach, htest⟩ := Machine.exists_reachable_of_replay
    (machine 2 0) (start 2 0) (twoReservations false true)
    (fun state : State Bool Nat => decide (state.head = ⟨0, 2⟩))
    rfl (by decide)
  have hhead : state.head = ⟨0, 2⟩ := of_decide_eq_true htest
  have hheld := (reserved_slots 2 0 state (by decide) hreach).2.2.2.1
  rw [hhead] at hheld
  exact ⟨state, hreach, hhead, fun slot hslot => (hheld slot).mp ⟨Nat.zero_le slot, hslot⟩⟩

end Crossbow.Concurrent.FixedSizeStack
