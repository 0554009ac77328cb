import Crossbow.Concurrent.FixedSizeStack

/-! Slot ownership and conservation of elements. A push owns the slot it
reserved until it publishes it. A pop validates only the pair of heads, so its
element is right exactly as long as the slot it read has not been refilled. -/
namespace Crossbow.Concurrent.FixedSizeStack
open Kernel

variable {Thread T : Type} [DecidableEq Thread] {state after : State Thread T} {thread : Thread}

/-- The transitions of a running thread, one constructor per outcome. -/
inductive Move (state : State Thread T) (thread : Thread) : State Thread T → Prop where
  | popBusy : state.pc thread = .popLoad → state.head.writeHead ≠ state.head.readHead →
      Move state thread state
  | popEmpty : state.pc thread = .popLoad → state.head.readHead = 0 →
      Move state thread (state.goto thread .idle)
  | popLoaded : state.pc thread = .popLoad → state.head.writeHead = state.head.readHead →
      state.head.readHead ≠ 0 → Move state thread (state.goto thread (.popRead state.head))
  | popReads (head : Head) (result : T) : state.pc thread = .popRead head →
      state.vec[head.readHead - 1]? = some result →
      Move state thread (state.goto thread (.popExchange head result))
  | popWins (result : T) : state.pc thread = .popExchange state.head result →
      Move state thread { state.goto thread .idle with
        head := ⟨state.head.readHead - 1, state.head.writeHead - 1⟩
        popped := state.popped ++ [result] }
  | popLoses (head : Head) (result : T) : state.pc thread = .popExchange head result →
      Move state thread (state.goto thread .popLoad)
  | pushLoaded (element : T) : state.pc thread = .pushLoad element →
      Move state thread (state.goto thread (.pushReserve element state.head))
  | pushFull (element : T) (head : Head) : state.pc thread = .pushReserve element head →
      Move state thread (state.goto thread .idle)
  | pushReserves (element : T) : state.pc thread = .pushReserve element state.head →
      state.head.writeHead ≠ state.vec.length →
      Move state thread
        { state.goto thread (.pushStore element state.head.writeHead state.head) with
          head := ⟨state.head.readHead, (state.head.writeHead + 1) % unsignedRange⟩ }
  | pushRetries (element : T) (head : Head) : state.pc thread = .pushReserve element head →
      Move state thread (state.goto thread (.pushReserve element state.head))
  | pushStores (element : T) (wHead : Nat) (head : Head) :
      state.pc thread = .pushStore element wHead head → wHead < state.vec.length →
      Move state thread { state.goto thread (.pushWait element wHead head) with
        vec := state.vec.set wHead element }
  | pushTurn (element : T) (head : Head) :
      state.pc thread = .pushWait element head.readHead head →
      Move state thread (state.goto thread (.pushPublish element head.readHead head))
  | pushSpins (element : T) (wHead : Nat) (head : Head) :
      state.pc thread = .pushWait element wHead head →
      Move state thread (state.goto thread (.pushWait element wHead state.head))
  | pushPublishes (element : T) (wHead : Nat) :
      state.pc thread = .pushPublish element wHead state.head →
      Move state thread { state.goto thread .idle with
        head := ⟨(wHead + 1) % unsignedRange, state.head.writeHead⟩
        pushed := state.pushed ++ [element] }
  | pushRepublishes (element : T) (wHead : Nat) (head : Head) :
      state.pc thread = .pushPublish element wHead head →
      Move state thread (state.goto thread (.pushPublish element wHead state.head))

theorem move_of_advance
    (hadvance : advance state thread = some after) : Move state thread after := by
  unfold advance at hadvance
  split at hadvance
  case h_1 => contradiction
  case h_2 hpc =>
    dsimp only at hadvance
    split at hadvance
    · cases hadvance
      exact .popBusy hpc ‹_›
    · split at hadvance
      · cases hadvance
        exact .popEmpty hpc ‹_›
      · cases hadvance
        exact .popLoaded hpc (not_ne_iff.mp ‹_›) ‹_›
  case h_3 head hpc =>
    split at hadvance
    · cases hadvance
      exact .popReads head _ hpc ‹_›
    · contradiction
  case h_4 head result hpc =>
    split at hadvance
    · rename_i hhead
      subst hhead
      cases hadvance
      exact .popWins result hpc
    · cases hadvance
      exact .popLoses head result hpc
  case h_5 element hpc =>
    cases hadvance
    exact .pushLoaded element hpc
  case h_6 element head hpc =>
    split at hadvance
    · cases hadvance
      exact .pushFull element head hpc
    · rename_i hfull
      split at hadvance
      · rename_i hhead
        subst hhead
        cases hadvance
        exact .pushReserves element hpc hfull
      · cases hadvance
        exact .pushRetries element head hpc
  case h_7 element wHead head hpc =>
    split at hadvance
    · cases hadvance
      exact .pushStores element wHead head hpc ‹_›
    · contradiction
  case h_8 element wHead head hpc =>
    split at hadvance
    · rename_i hturn
      subst hturn
      cases hadvance
      exact .pushTurn element head hpc
    · cases hadvance
      exact .pushSpins element wHead head hpc
  case h_9 element wHead head hpc =>
    split at hadvance
    · rename_i hhead
      subst hhead
      cases hadvance
      exact .pushPublishes element wHead hpc
    · cases hadvance
      exact .pushRepublishes element wHead head hpc

def Pc.slot : Pc T → Option Nat
  | .pushStore _ wHead _ | .pushWait _ wHead _ | .pushPublish _ wHead _ => some wHead
  | _ => none

def Pc.Agrees (vec : List T) (head : Head) : Pc T → Prop
  | .popRead seen | .popExchange seen _ => seen.readHead = seen.writeHead ∧ seen.readHead ≠ 0
  | .pushStore _ wHead seen => seen.readHead = wHead → head.readHead = wHead
  | .pushWait element wHead seen =>
      vec[wHead]? = some element ∧ (seen.readHead = wHead → head.readHead = wHead)
  | .pushPublish element wHead _ => vec[wHead]? = some element ∧ head.readHead = wHead
  | _ => True

theorem Pc.Agrees.transport {vec vec' : List T} {head head' : Head} {pc : Pc T}
    (hagrees : pc.Agrees vec head)
    (hvec : ∀ slot, pc.slot = some slot → vec'[slot]? = vec[slot]?)
    (hhead : ∀ slot, pc.slot = some slot → head.readHead = slot → head'.readHead = slot) :
    pc.Agrees vec' head' := by
  cases pc with
  | idle => trivial
  | popLoad => trivial
  | popRead seen => exact hagrees
  | popExchange seen result => exact hagrees
  | pushLoad element => trivial
  | pushReserve element seen => trivial
  | pushStore element wHead seen =>
      intro hseen
      exact hhead wHead rfl (hagrees hseen)
  | pushWait element wHead seen =>
      refine ⟨(hvec wHead rfl).trans hagrees.1, ?_⟩
      intro hseen
      exact hhead wHead rfl (hagrees.2 hseen)
  | pushPublish element wHead seen =>
      exact ⟨(hvec wHead rfl).trans hagrees.1, hhead wHead rfl hagrees.2⟩

structure Slots (state : State Thread T) : Prop where
  read_le_write : state.head.readHead ≤ state.head.writeHead
  write_le_size : state.head.writeHead ≤ state.vec.length
  write_in_range : state.head.writeHead < unsignedRange
  held : ∀ thread slot, (state.pc thread).slot = some slot →
    state.head.readHead ≤ slot ∧ slot < state.head.writeHead
  unique : ∀ left right slot, (state.pc left).slot = some slot →
    (state.pc right).slot = some slot → left = right
  covered : ∀ slot, state.head.readHead ≤ slot → slot < state.head.writeHead →
    ∃ thread, (state.pc thread).slot = some slot
  agrees : ∀ thread, (state.pc thread).Agrees state.vec state.head

omit [DecidableEq Thread] in
theorem slots_start (size : Nat) (nullValue : T) :
    Slots (start size nullValue : State Thread T) where
  read_le_write := by simp [start]
  write_le_size := by simp [start]
  write_in_range := by simp [start, unsignedRange]
  held := by simp [start, Pc.slot]
  unique := by simp [start, Pc.slot]
  covered := by simp [start]
  agrees := by simp [start, Pc.Agrees]

/-- A move that keeps the heads, the vector and the thread's slot only has to
show that the thread's new local variables agree. -/
theorem Slots.goto (hslots : Slots state) {pc : Pc T} (hslot : pc.slot = (state.pc thread).slot)
    (hagrees : pc.Agrees state.vec state.head) : Slots (state.goto thread pc) := by
  have hsame : ∀ other, ((state.goto thread pc).pc other).slot = (state.pc other).slot := by
    intro other
    by_cases hother : other = thread
    · subst hother
      simpa [State.goto] using hslot
    · simp [State.goto, hother]
  refine ⟨hslots.read_le_write, hslots.write_le_size, hslots.write_in_range, ?_, ?_, ?_, ?_⟩
  · intro other slot hother
    rw [hsame] at hother
    exact hslots.held other slot hother
  · intro left right slot hleft hright
    rw [hsame] at hleft hright
    exact hslots.unique left right slot hleft hright
  · intro slot hlow hhigh
    obtain ⟨owner, howner⟩ := hslots.covered slot hlow hhigh
    exact ⟨owner, by rw [hsame]; exact howner⟩
  · intro other
    by_cases hother : other = thread
    · subst hother
      simpa [State.goto] using hagrees
    · simpa [State.goto, hother] using hslots.agrees other

theorem Slots.reserve (hslots : Slots state) {element : T}
    (hpc : state.pc thread = .pushReserve element state.head)
    (hfull : state.head.writeHead ≠ state.vec.length)
    (hwrap : state.head.writeHead + 1 < unsignedRange) :
    Slots { state.goto thread (.pushStore element state.head.writeHead state.head) with
      head := ⟨state.head.readHead, (state.head.writeHead + 1) % unsignedRange⟩ } := by
  have horder := hslots.read_le_write
  have hsize := hslots.write_le_size
  have hfree : ∀ owner slot, (state.pc owner).slot = some slot →
      slot ≠ state.head.writeHead := by
    intro owner slot howner
    have := (hslots.held owner slot howner).2
    omega
  rw [Nat.mod_eq_of_lt hwrap]
  refine ⟨by simp only; omega, by simp only [State.goto]; omega, hwrap, ?_, ?_, ?_, ?_⟩
  · intro owner slot howner
    by_cases hother : owner = thread
    · subst hother
      simp only [State.goto, Function.update_self, Pc.slot, Option.some.injEq] at howner
      subst howner
      exact ⟨horder, Nat.lt_succ_self _⟩
    · simp only [State.goto, Function.update_of_ne hother] at howner
      obtain ⟨hlow, hhigh⟩ := hslots.held owner slot howner
      exact ⟨hlow, Nat.lt_succ_of_lt hhigh⟩
  · intro left right slot hleft hright
    by_cases hl : left = thread <;> by_cases hr : right = thread
    · rw [hl, hr]
    · subst hl
      simp only [State.goto, Function.update_self, Function.update_of_ne hr, Pc.slot,
        Option.some.injEq] at hleft hright
      exact absurd hleft.symm (hfree right slot hright)
    · subst hr
      simp only [State.goto, Function.update_self, Function.update_of_ne hl, Pc.slot,
        Option.some.injEq] at hleft hright
      exact absurd hright.symm (hfree left slot hleft)
    · simp only [State.goto, Function.update_of_ne hl, Function.update_of_ne hr] at hleft hright
      exact hslots.unique left right slot hleft hright
  · intro slot hlow hhigh
    by_cases hlast : slot = state.head.writeHead
    · exact ⟨thread, by simp [State.goto, Pc.slot, hlast]⟩
    · obtain ⟨owner, howner⟩ := hslots.covered slot hlow (by simp only at hhigh; omega)
      have hne : owner ≠ thread := by
        rintro rfl
        simp [hpc, Pc.slot] at howner
      exact ⟨owner, by simpa [State.goto, hne] using howner⟩
  · intro owner
    by_cases hother : owner = thread
    · subst hother
      simp [State.goto, Pc.Agrees]
    · simp only [State.goto, Function.update_of_ne hother]
      exact (hslots.agrees owner).transport (fun _ _ => rfl) (fun _ _ h => h)

theorem Slots.store (hslots : Slots state) {element : T} {wHead : Nat} {head : Head}
    (hpc : state.pc thread = .pushStore element wHead head) (hsize : wHead < state.vec.length) :
    Slots { state.goto thread (.pushWait element wHead head) with
      vec := state.vec.set wHead element } := by
  have hown : (state.pc thread).slot = some wHead := by rw [hpc]; rfl
  have hsame : ∀ owner, ((state.goto thread (.pushWait element wHead head)).pc owner).slot =
      (state.pc owner).slot := by
    intro owner
    by_cases hother : owner = thread
    · subst hother
      rw [hown]
      simp [State.goto, Pc.slot]
    · simp [State.goto, hother]
  refine ⟨hslots.read_le_write, ?_, hslots.write_in_range, ?_, ?_, ?_, ?_⟩
  · rw [List.length_set]
    exact hslots.write_le_size
  · intro owner slot howner
    exact hslots.held owner slot ((hsame owner).symm.trans howner)
  · intro left right slot hleft hright
    exact hslots.unique left right slot ((hsame left).symm.trans hleft)
      ((hsame right).symm.trans hright)
  · intro slot hlow hhigh
    obtain ⟨owner, howner⟩ := hslots.covered slot hlow hhigh
    exact ⟨owner, (hsame owner).trans howner⟩
  · intro owner
    by_cases hother : owner = thread
    · subst hother
      have := hslots.agrees owner
      rw [hpc] at this
      simp only [State.goto, Function.update_self, Pc.Agrees]
      exact ⟨by simp [hsize], this⟩
    · simp only [State.goto, Function.update_of_ne hother]
      refine (hslots.agrees owner).transport ?_ (fun _ _ h => h)
      intro slot hslot
      have hne : wHead ≠ slot := by
        rintro rfl
        exact hother (hslots.unique owner thread wHead hslot hown)
      rw [List.getElem?_set_ne hne]

/-- Only the owner of the slot at the read head publishes, so no other waiting
push believes it is its turn. -/
theorem Slots.publish (hslots : Slots state) {element : T} {wHead : Nat}
    (hpc : state.pc thread = .pushPublish element wHead state.head) (pushed : List T) :
    Slots { state.goto thread .idle with
      head := ⟨(wHead + 1) % unsignedRange, state.head.writeHead⟩
      pushed := pushed } := by
  have hown : (state.pc thread).slot = some wHead := by rw [hpc]; rfl
  have hturn : state.head.readHead = wHead := by
    have := hslots.agrees thread
    rw [hpc] at this
    exact this.2
  obtain ⟨hlow, hhigh⟩ := hslots.held thread wHead hown
  have hrange := hslots.write_in_range
  have hothers : ∀ owner, owner ≠ thread → ∀ slot, (state.pc owner).slot = some slot →
      slot ≠ wHead := by
    rintro owner hother slot howner rfl
    exact hother (hslots.unique owner thread slot howner hown)
  rw [Nat.mod_eq_of_lt (show wHead + 1 < unsignedRange by omega)]
  refine ⟨by simp only; omega, hslots.write_le_size, hrange, ?_, ?_, ?_, ?_⟩
  · intro owner slot howner
    by_cases hother : owner = thread
    · subst hother
      simp [State.goto, Pc.slot] at howner
    · simp only [State.goto, Function.update_of_ne hother] at howner
      have hbounds := hslots.held owner slot howner
      have hne := hothers owner hother slot howner
      simp only
      omega
  · intro left right slot hleft hright
    by_cases hl : left = thread
    · subst hl
      simp [State.goto, Pc.slot] at hleft
    · by_cases hr : right = thread
      · subst hr
        simp [State.goto, Pc.slot] at hright
      · simp only [State.goto, Function.update_of_ne hl, Function.update_of_ne hr] at hleft hright
        exact hslots.unique left right slot hleft hright
  · intro slot hfrom hto
    simp only at hfrom hto
    obtain ⟨owner, howner⟩ := hslots.covered slot (by omega) hto
    have hne : owner ≠ thread := by
      rintro rfl
      rw [hown] at howner
      cases howner
      omega
    exact ⟨owner, by simpa [State.goto, hne] using howner⟩
  · intro owner
    by_cases hother : owner = thread
    · subst hother
      simp [State.goto, Pc.Agrees]
    · simp only [State.goto, Function.update_of_ne hother]
      refine (hslots.agrees owner).transport (fun _ _ => rfl) ?_
      intro slot hslot hread
      exact absurd (hread.symm.trans hturn) (hothers owner hother slot hslot)

omit [DecidableEq Thread] in
theorem Slots.noneHeld (hslots : Slots state) {result : T}
    (hpc : state.pc thread = .popExchange state.head result) (owner : Thread) :
    (state.pc owner).slot = none := by
  have hequal := hslots.agrees thread
  rw [hpc] at hequal
  cases hslot : (state.pc owner).slot with
  | none => rfl
  | some slot =>
      have hheld := hslots.held owner slot hslot
      have heads := hequal.1
      omega

theorem Slots.pop (hslots : Slots state) {result : T}
    (hpc : state.pc thread = .popExchange state.head result) (popped : List T) :
    Slots { state.goto thread .idle with
      head := ⟨state.head.readHead - 1, state.head.writeHead - 1⟩
      popped := popped } := by
  have heads := hslots.agrees thread
  rw [hpc] at heads
  obtain ⟨hequal, hpositive⟩ := heads
  have hnone := hslots.noneHeld hpc
  have hnone' : ∀ owner, ((state.goto thread .idle).pc owner).slot = none := by
    intro owner
    by_cases hother : owner = thread
    · subst hother
      simp [State.goto, Pc.slot]
    · simpa [State.goto, hother] using hnone owner
  have hsize := hslots.write_le_size
  have hrange := hslots.write_in_range
  refine ⟨by simp only; omega, by simp only [State.goto]; omega, by simp only; omega,
    ?_, ?_, ?_, ?_⟩
  · intro owner slot howner
    simp [hnone'] at howner
  · intro left right slot hleft
    simp [hnone'] at hleft
  · intro slot hlow hhigh
    simp only at hlow hhigh
    omega
  · intro owner
    by_cases hother : owner = thread
    · subst hother
      simp [State.goto, Pc.Agrees]
    · simp only [State.goto, Function.update_of_ne hother]
      refine (hslots.agrees owner).transport (fun _ _ => rfl) ?_
      intro slot hslot
      simp [hnone owner] at hslot

def Pc.NoWrap (state : State Thread T) : Pc T → Prop
  | .pushReserve _ head => state.head = head → head.writeHead + 1 < unsignedRange
  | _ => True

/-- A pop that is about to win still finds in its slot the element it read. -/
def Pc.ReadsCurrent (state : State Thread T) : Pc T → Prop
  | .popExchange head result => state.head = head → state.vec[head.readHead - 1]? = some result
  | _ => True

def Unwrapped (state : State Thread T) : Label Thread T → Prop
  | .step thread => (state.pc thread).NoWrap state
  | _ => True

def Undisturbed (state : State Thread T) (label : Label Thread T) : Prop :=
  Unwrapped state label ∧
    match label with
    | .step thread => (state.pc thread).ReadsCurrent state
    | _ => True

theorem Slots.move (hslots : Slots state)
    (hwrap : state.head.writeHead ≠ state.vec.length → (state.pc thread).NoWrap state)
    (hmove : Move state thread after) :
    Slots after := by
  have hagrees := hslots.agrees thread
  cases hmove with
  | popBusy => exact hslots
  | popEmpty hpc => exact hslots.goto (by simp [hpc, Pc.slot]) trivial
  | popLoaded hpc hequal hpositive =>
      exact hslots.goto (by simp [hpc, Pc.slot]) ⟨hequal.symm, hpositive⟩
  | popReads head result hpc =>
      rw [hpc] at hagrees
      exact hslots.goto (by simp [hpc, Pc.slot]) hagrees
  | popWins result hpc => exact hslots.pop hpc _
  | popLoses head result hpc => exact hslots.goto (by simp [hpc, Pc.slot]) trivial
  | pushLoaded element hpc => exact hslots.goto (by simp [hpc, Pc.slot]) trivial
  | pushFull element head hpc => exact hslots.goto (by simp [hpc, Pc.slot]) trivial
  | pushReserves element hpc hfull =>
      rw [hpc] at hwrap
      exact hslots.reserve hpc hfull (hwrap hfull rfl)
  | pushRetries element head hpc => exact hslots.goto (by simp [hpc, Pc.slot]) trivial
  | pushStores element wHead head hpc hsize => exact hslots.store hpc hsize
  | pushTurn element head hpc =>
      rw [hpc] at hagrees
      exact hslots.goto (by simp [hpc, Pc.slot]) ⟨hagrees.1, hagrees.2 rfl⟩
  | pushSpins element wHead head hpc =>
      rw [hpc] at hagrees
      exact hslots.goto (by simp [hpc, Pc.slot]) ⟨hagrees.1, id⟩
  | pushPublishes element wHead hpc => exact hslots.publish hpc _
  | pushRepublishes element wHead head hpc =>
      rw [hpc] at hagrees
      exact hslots.goto (by simp [hpc, Pc.slot]) hagrees

theorem next_cases {label : Label Thread T} (hnext : next state label = some after) :
    (∃ thread pc, state.pc thread = .idle ∧ pc.slot = none ∧ (∀ head, pc ≠ .popRead head) ∧
      (∀ vec head, pc.Agrees vec head) ∧ after = state.goto thread pc) ∨
    ∃ thread, label = .step thread ∧ Move state thread after := by
  cases label with
  | push thread element =>
      left
      simp only [next] at hnext
      split at hnext
      · cases hnext
        exact ⟨thread, .pushLoad element, ‹_›, rfl, by simp, fun _ _ => trivial, rfl⟩
      · contradiction
  | pop thread =>
      left
      simp only [next] at hnext
      split at hnext
      · cases hnext
        exact ⟨thread, .popLoad, ‹_›, rfl, by simp, fun _ _ => trivial, rfl⟩
      · contradiction
  | step thread => exact .inr ⟨thread, rfl, move_of_advance hnext⟩

theorem Slots.next {label : Label Thread T} (hslots : Slots state) (hwrap : Unwrapped state label)
    (hnext : FixedSizeStack.next state label = some after) : Slots after := by
  rcases next_cases hnext with ⟨thread, pc, hidle, hslot, _, hagrees, rfl⟩ | ⟨thread, rfl, hmove⟩
  · exact hslots.goto (by rw [hidle, hslot]; rfl) (hagrees _ _)
  · exact hslots.move (fun _ => hwrap) hmove

/-- Elements of returned pushes are either returned by pops or below the read head. -/
def Conserves (state : State Thread T) : Prop :=
  (state.pushed : Multiset T) = state.popped + (state.vec.take state.head.readHead : List T)

theorem conserves_move (hslots : Slots state) (hcurrent : (state.pc thread).ReadsCurrent state)
    (hconserves : Conserves state) (hmove : Move state thread after) : Conserves after := by
  unfold Conserves at hconserves ⊢
  cases hmove with
  | popWins result hpc =>
      have heads := hslots.agrees thread
      rw [hpc] at heads hcurrent
      have htop : state.vec[state.head.readHead - 1]? = some result := hcurrent rfl
      have hsplit : state.vec.take state.head.readHead =
          state.vec.take (state.head.readHead - 1) ++ [result] := by
        have hpositive := heads.2
        conv_lhs => rw [show state.head.readHead = state.head.readHead - 1 + 1 by omega]
        rw [List.take_add_one, htop]
        rfl
      simp only [State.goto]
      rw [hconserves, hsplit, ← Multiset.coe_add, ← Multiset.coe_add]
      rw [Multiset.add_assoc, Multiset.add_comm (([result] : List T) : Multiset T)]
  | pushStores element wHead head hpc hsize =>
      have hheld := hslots.held thread wHead (by rw [hpc]; rfl)
      simp only [State.goto]
      rw [hconserves, List.take_set_of_le hheld.1]
  | pushPublishes element wHead hpc =>
      have hagrees := hslots.agrees thread
      have hheld := hslots.held thread wHead (by rw [hpc]; rfl)
      have hrange := hslots.write_in_range
      rw [hpc] at hagrees
      obtain ⟨hstored, hturn⟩ := hagrees
      simp only [State.goto]
      rw [Nat.mod_eq_of_lt (show wHead + 1 < unsignedRange by omega), List.take_add_one,
        hstored, ← Multiset.coe_add, hconserves, hturn, Multiset.add_assoc, ← Multiset.coe_add]
      rfl
  | _ => exact hconserves

theorem slots_and_conserves {size : Nat} {nullValue : T}
    (hreach : (machine size nullValue).ReachableUnder Undisturbed state) :
    Slots state ∧ Conserves state := by
  apply hreach.invariant fun state => Slots state ∧ Conserves state
  · rintro state rfl
    exact ⟨slots_start size nullValue, by simp [Conserves, start]⟩
  · rintro state label after ⟨hslots, hconserves⟩ hallowed hnext
    refine ⟨hslots.next hallowed.1 hnext, ?_⟩
    rcases next_cases hnext with ⟨thread, pc, _, _, _, _, rfl⟩ | ⟨thread, rfl, hmove⟩
    · exact hconserves
    · exact conserves_move hslots hallowed.2 hconserves hmove

/-- Nothing is lost or duplicated as long as every winning pop still finds the
element it read and the write head does not wrap. -/
theorem conserved_when_undisturbed (size : Nat) (nullValue : T) (state : State Thread T)
    (hreach : (machine size nullValue).ReachableUnder Undisturbed state) :
    (state.pushed : Multiset T) =
      state.popped + (state.vec.take state.head.readHead : List T) :=
  (slots_and_conserves hreach).2

/-- Steps of one `push` that no other thread delays. -/
def wholePush (thread : Fin 3) (element : Nat) : List (Label (Fin 3) Nat) :=
  .push thread element :: List.replicate 6 (.step thread)

/-- Thread 1 reads the top element, thread 2 pops it, thread 0 refills the slot,
and only then does thread 1 exchange the heads. -/
def overtakenPop : List (Label (Fin 3) Nat) :=
  wholePush 0 7 ++ [.pop 1, .step 1, .step 1] ++ [.pop 2, .step 2, .step 2, .step 2] ++
    wholePush 0 8 ++ [.step 1]

/-- The refilled element is lost and the earlier one is returned twice. -/
theorem overtaken_pop_duplicates :
    ∃ state : State (Fin 3) Nat, (machine 1 0).Reachable state ∧
      (∀ thread, state.pc thread = .idle) ∧
      (state.pushed : Multiset Nat) ≠
        state.popped + (state.vec.take state.head.readHead : List Nat) := by
  obtain ⟨state, hreach, htest⟩ := Machine.exists_reachable_of_replay
    (machine 1 0) (start 1 0) overtakenPop
    (fun state : State (Fin 3) Nat => decide ((∀ thread, state.pc thread = .idle) ∧
      (state.pushed : Multiset Nat) ≠
        state.popped + (state.vec.take state.head.readHead : List Nat)))
    rfl (by decide)
  exact ⟨state, hreach, of_decide_eq_true htest⟩

instance [DecidableEq T] (state : State Thread T) (pc : Pc T) :
    Decidable (pc.ReadsCurrent state) :=
  match pc with
  | .popExchange head result =>
      inferInstanceAs (Decidable (state.head = head → state.vec[head.readHead - 1]? = some result))
  | .idle | .popLoad | .popRead _ | .pushLoad _ | .pushReserve _ _ | .pushStore _ _ _
  | .pushWait _ _ _ | .pushPublish _ _ _ => isTrue trivial

instance (state : State Thread T) (pc : Pc T) : Decidable (pc.NoWrap state) :=
  match pc with
  | .pushReserve _ head =>
      inferInstanceAs (Decidable (state.head = head → head.writeHead + 1 < unsignedRange))
  | .idle | .popLoad | .popRead _ | .popExchange _ _ | .pushLoad _ | .pushStore _ _ _
  | .pushWait _ _ _ | .pushPublish _ _ _ => isTrue trivial

instance [DecidableEq T] (state : State Thread T) (label : Label Thread T) :
    Decidable (Undisturbed state label) :=
  match label with
  | .step thread => inferInstanceAs (Decidable
      ((state.pc thread).NoWrap state ∧ (state.pc thread).ReadsCurrent state))
  | .push _ _ | .pop _ => isTrue ⟨trivial, trivial⟩

def racingPushes : List (Label (Fin 3) Nat) :=
  [.push 0 7, .step 0, .push 1 8, .step 1] ++ List.replicate 5 (.step 0) ++
    List.replicate 6 (.step 1) ++ [.pop 2, .step 2, .step 2, .step 2]

theorem conserved_when_racing :
    ∃ state : State (Fin 3) Nat, (machine 2 0).ReachableUnder Undisturbed state ∧
      (∀ thread, state.pc thread = .idle) ∧ state.popped = [8] ∧
      (state.pushed : Multiset Nat) =
        state.popped + (state.vec.take state.head.readHead : List Nat) := by
  obtain ⟨state, hreach, htest⟩ := Machine.exists_reachableUnder_of_replay
    (machine 2 0) Undisturbed
    (start 2 0) racingPushes
    (fun state : State (Fin 3) Nat => decide ((∀ thread, state.pc thread = .idle) ∧
      state.popped = [8]))
    rfl (by decide)
  obtain ⟨hquiet, hpopped⟩ := of_decide_eq_true htest
  exact ⟨state, hreach, hquiet, hpopped, conserved_when_undisturbed 2 0 state hreach⟩

end Crossbow.Concurrent.FixedSizeStack
