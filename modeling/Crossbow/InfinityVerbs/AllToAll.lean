import Mathlib.Algebra.Order.BigOperators.Group.Finset
import Crossbow.InfinityVerbs.MeshInvariant

/-! The outcome of `connectAllToAll`. Every run of the machines ends, with a full mesh of
connected queue pairs; the check of the user tokens at the end fails all the same. -/
namespace Crossbow.InfinityVerbs.QueuePairFactory
open Kernel

variable {contexts : Nat → Context} {count : Nat} {state after : State}

/-! ### Runs end -/

def weight (count machine : Nat) : Phase → Nat
  | .accepting i .called => 3 * (machine - i) + 4 * count + 3
  | .accepting i (.receiving _) => 3 * (machine - i) + 4 * count + 2
  | .accepting i (.replying _ _) => 3 * (machine - i) + 4 * count + 1
  | .connecting i .called => 3 * (i - machine) + count + 2
  | .connecting i .opened => 3 * (i - machine) + count + 1
  | .connecting i (.sent _) => 3 * (i - machine) + count
  | .checking i => count - i + 1
  | .exited _ | .returned => 0

def remaining (count : Nat) (state : State) : Nat :=
  ∑ machine ∈ Finset.range count, weight count machine (state.phase machine)

theorem Step.weight_lt {machine : Nat} (hmachine : machine < count)
    (hinv : Inv contexts count state) (hstep : Step contexts count state machine after) :
    weight count machine (after.phase machine) < weight count machine (state.phase machine) := by
  have hwithin := hinv.within machine hmachine
  cases hstep <;> simp_all [weight, Within] <;> omega

theorem remaining_lt {label : Label} (hinv : Inv contexts count state)
    (hnext : next contexts count state label = some after) :
    remaining count after < remaining count state := by
  obtain ⟨hmachine, hmove⟩ := Option.ite_none_right_eq_some.mp hnext
  have hstep := step_of_move hmove
  have hless := Step.weight_lt hmachine hinv hstep
  apply Finset.sum_lt_sum
  · intro other _
    by_cases hsame : other = label.machine
    · rw [hsame]
      exact hless.le
    · rw [hstep.phase_ne hsame]
  · exact ⟨label.machine, Finset.mem_range.mpr hmachine, hless⟩

def Stuck (state : State) (machine : Nat) : Phase → Prop
  | .accepting i .called => i < machine ∧ state.backlog machine = []
  | .accepting _ (.receiving caller) => state.request caller = none
  | .connecting _ (.sent _) => state.reply machine = none
  | .exited _ | .returned => True
  | _ => False

theorem stuck_of_move {machine : Nat} (hinv : Inv contexts count state) (hmachine : machine < count)
    (hnone : ∀ label, next contexts count state label = none) :
    Stuck state machine (state.phase machine) := by
  have hmove := hnone ⟨machine, ⟨0, 0⟩⟩
  simp only [next, if_pos hmachine] at hmove
  cases hphase : state.phase machine with
  | checking i =>
      rw [hphase] at hmove
      simp only [move] at hmove
      split at hmove
      · obtain ⟨queuePair, hentry, _⟩ := hinv.tokens hmachine ‹i < count› (by rw [hphase]; rfl)
        simp [hentry] at hmove
      · contradiction
  | accepting i call =>
      simp only [hphase, move] at hmove
      split at hmove
      · contradiction
      · rename_i hcall
        have hwaits := Option.map_eq_none_iff.mp hmove
        cases call with
        | called =>
            simp only [acceptIncomingConnection] at hwaits
            split at hwaits
            · exact ⟨by simpa using hcall, ‹_›⟩
            · contradiction
        | receiving caller => exact Option.map_eq_none_iff.mp hwaits
        | replying => contradiction
  | connecting i call =>
      simp only [hphase, move] at hmove
      split at hmove
      · contradiction
      · have hwaits := Option.map_eq_none_iff.mp hmove
        cases call with
        | sent => exact Option.map_eq_none_iff.mp hwaits
        | _ => contradiction
  | _ => trivial

theorem not_receiving {machine i caller : Nat} (hinv : Inv contexts count state)
    (hmachine : machine < count) (hnone : ∀ label, next contexts count state label = none) :
    state.phase machine ≠ .accepting i (.receiving caller) := by
  intro hphase
  obtain ⟨_, hlt, hwaits⟩ := hinv.caller_eq hmachine hphase
  have hstuck := stuck_of_move hinv hmachine hnone
  have hcaller := stuck_of_move hinv (Nat.lt_trans hlt hmachine) hnone
  have hmail := hinv.mail caller (Nat.lt_trans hlt hmachine)
  rcases hwaits with hopen | ⟨_, hsent, hreply⟩ <;> simp_all [Stuck, Mail]

theorem not_sent {machine i : Nat} {queuePair : QueuePair} (hinv : Inv contexts count state)
    (hmachine : machine < count) (hnone : ∀ label, next contexts count state label = none) :
    state.phase machine ≠ .connecting i (.sent queuePair) := by
  intro hphase
  have hstuck := stuck_of_move hinv hmachine hnone
  have hwithin := hinv.within machine hmachine
  rw [hphase] at hstuck hwithin
  obtain ⟨hlt, hi⟩ := hwithin
  have hwaits : Waits state machine i := .inr ⟨queuePair, hphase, hstuck⟩
  have hmem := hinv.queued machine i hmachine hwaits
  have hreplies := hinv.next_caller hlt hi hwaits.replies_eq hwaits.not_answered
  have hcallee := stuck_of_move hinv hi hnone
  cases hthere : state.phase i with
  | accepting j call =>
      cases call with
      | called => simp_all [Stuck, incoming]
      | receiving caller => exact not_receiving hinv hi hnone hthere
      | replying => simp [hthere, Stuck] at hcallee
  | checking j => simp [hthere, Stuck] at hcallee
  | _ =>
      simp only [hthere, replies] at hreplies
      omega

/-- If no machine can move, all have ended. A machine in front of `accept` waits for one
with a lower id that has not ended. -/
theorem ended_of_stuck (hinv : Inv contexts count state)
    (hnone : ∀ label, next contexts count state label = none) (machine : Nat)
    (hmachine : machine < count) : state.phase machine = .exited 0 := by
  induction machine using Nat.strongRecOn with
  | ind machine ih =>
      have hstuck := stuck_of_move hinv hmachine hnone
      have hfirst := hinv.first machine hmachine
      cases hphase : state.phase machine with
      | accepting i call =>
          cases call with
          | receiving caller => exact absurd hphase (not_receiving hinv hmachine hnone)
          | replying => simp [hphase, Stuck] at hstuck
          | called =>
              rw [hphase] at hstuck
              have hended := ih i hstuck.1 (Nat.lt_trans hstuck.1 hmachine)
              have hanswered := hinv.answered i machine hstuck.1 hmachine
                (.inl (by rw [hended]; trivial))
              rw [hphase] at hanswered
              exact absurd hanswered (Nat.lt_irrefl i)
      | connecting i call =>
          cases call with
          | sent queuePair => exact absurd hphase (not_sent hinv hmachine hnone)
          | _ => simp [hphase, Stuck] at hstuck
      | exited i =>
          rw [hphase] at hfirst
          rw [show i = 0 from hfirst]
      | _ => simp_all [Stuck, AtFirst]

/-- `connectAllToAll` on any number of machines. Every run comes to an end, at which all
tables describe one mesh: entry `i` of machine `m` and entry `m` of machine `i` are
connected to each other. Of the assertions only the one at index 1 holds, and not
on machine 1 itself, so that every machine exits at index 0. -/
theorem connects_all_to_all (contexts : Nat → Context) (count : Nat) (state : State)
    (hreach : (machine contexts count).Reachable state) :
    (∀ label after, next contexts count state label = some after →
      remaining count after < remaining count state) ∧
    ((∀ label, next contexts count state label = none) →
      ∀ m < count, state.phase m = .exited 0 ∧ ∀ i < count, Connected contexts state m i) ∧
    (∀ m < count, built (state.phase m) = true → ∀ i < count,
      ∃ queuePair, state.queuePairs m i = some queuePair ∧
        (tokenMatches queuePair i = true ↔ i = 1 ∧ m ≠ 1)) := by
  have hinv := reachable_inv hreach
  refine ⟨fun label after hnext => remaining_lt hinv hnext, ?_, ?_⟩
  · intro hnone m hm
    have hended := ended_of_stuck hinv hnone
    refine ⟨hended m hm, ?_⟩
    intro i hi
    apply hinv.connected hm hi
    · rw [hended m hm]
      rfl
    · rw [hended i hi]
      rfl
  · intro m hm hbuilt i hi
    exact hinv.tokens hm hi hbuilt

theorem next_none_of_exited (hended : ∀ m < count, state.phase m = .exited 0) (label : Label) :
    next contexts count state label = none := by
  unfold next
  split
  · rw [hended _ ‹_›]
    rfl
  · rfl

def sampleContexts (m : Nat) : Context := ⟨m + 1, some ⟨64 * m, m, 64⟩, ⟨0, 7⟩⟩

def schedule (machines : List Nat) : List Label :=
  machines.mapIdx fun k m => ⟨m, ⟨k, 100 + k⟩⟩

/-- Machine 2 is called by both others, and machine 1 goes on before machine 0 has read
the answer. -/
def threeMachines : List Nat :=
  [0, 0, 0, 2, 2, 2, 0, 0, 0, 1, 1, 1, 1, 1, 0, 1, 2, 2, 0, 2, 0, 1, 1, 1, 2, 2, 2]

theorem three_machines_connected :
    ∃ state, (machine sampleContexts 3).Reachable state ∧
      (∀ m < 3, state.phase m = .exited 0) ∧
      ∀ m < 3, ∀ i < 3, Connected sampleContexts state m i := by
  obtain ⟨state, hreach, htest⟩ := (machine sampleContexts 3).exists_reachable_of_replay
    start (schedule threeMachines)
    (fun state => (List.range 3).all fun m => decide (state.phase m = .exited 0))
    rfl (by decide +kernel)
  have hended : ∀ m < 3, state.phase m = .exited 0 := by
    intro m hm
    exact of_decide_eq_true (List.all_eq_true.mp htest m (List.mem_range.mpr hm))
  have hall := (connects_all_to_all sampleContexts 3 state hreach).2.1
    (next_none_of_exited hended)
  exact ⟨state, hreach, hended, fun m hm => (hall m hm).2⟩

/-- One machine fails on its loopback queue pair. Of two, machine 1 also fails on the
connection from machine 0, whose token does not count as set. -/
theorem assertions_fail :
    (∃ state, (machine sampleContexts 1).Reachable state ∧ state.phase 0 = .exited 0) ∧
    ∃ state, (machine sampleContexts 2).Reachable state ∧ state.phase 0 = .exited 0 ∧
      state.phase 1 = .exited 0 ∧
      ((state.queuePairs 1 0).map fun queuePair =>
        (queuePair.remote.map Address.localDeviceId, queuePair.remoteUserTokenSet)) =
          some (some 1, false) := by
  constructor
  · obtain ⟨state, hreach, htest⟩ := (machine sampleContexts 1).exists_reachable_of_replay
      start (schedule [0, 0, 0])
      (fun state => decide (state.phase 0 = .exited 0)) rfl (by decide +kernel)
    exact ⟨state, hreach, of_decide_eq_true htest⟩
  · obtain ⟨state, hreach, htest⟩ := (machine sampleContexts 2).exists_reachable_of_replay
      start (schedule [0, 0, 0, 1, 1, 1, 0, 0, 0, 1, 1, 1])
      (fun state => decide (state.phase 0 = .exited 0 ∧ state.phase 1 = .exited 0 ∧
        ((state.queuePairs 1 0).map fun queuePair =>
          (queuePair.remote.map Address.localDeviceId, queuePair.remoteUserTokenSet)) =
            some (some 1, false))) rfl (by decide +kernel)
    exact ⟨state, hreach, of_decide_eq_true htest⟩

end Crossbow.InfinityVerbs.QueuePairFactory
