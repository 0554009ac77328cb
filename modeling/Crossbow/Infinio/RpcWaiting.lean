import Crossbow.Infinio.RpcClient

/-! Waiting requests. Nobody waits while the condition of the wait holds, provided that
no wake-up is lost: `onSyncResponse` wakes one request for each entry it pops, the loop of
`onSocketDisconnected` wakes none. A failed connection attempt wakes none either, but
leaves its handler by an exception. -/
namespace Crossbow.Infinio.RpcClient
open Kernel

def NoneForgotten (maxPending : Nat) (state : State) : Prop :=
  ready maxPending state .sync = true → state.waiting = []

variable {maxPending : Nat} {state : State}

theorem ready_sync :
    ready maxPending state .sync = true ↔
      state.conn ≠ .connecting ∧ state.queue.length < maxPending :=
  decide_eq_true_iff

/-- Only the connection, the pending and the waiting requests matter, and more
pending requests do not hurt. -/
theorem NoneForgotten.of_same {before after : State} (hnone : NoneForgotten maxPending before)
    (hconn : after.conn = before.conn) (hqueue : before.queue.length ≤ after.queue.length)
    (hwaiting : after.waiting = before.waiting) :
    NoneForgotten maxPending after := by
  intro hready
  obtain ⟨hstate, hroom⟩ := ready_sync.mp hready
  rw [hwaiting]
  exact hnone (ready_sync.mpr ⟨hconn ▸ hstate, Nat.lt_of_le_of_lt hqueue hroom⟩)

theorem ready_of_ready_sync {kind : Kind}
    (hready : ready maxPending state .sync = true) : ready maxPending state kind = true := by
  cases kind with
  | sync => exact hready
  | async => exact decide_eq_true (ready_sync.mp hready).1

theorem NoneForgotten.trySend (hnone : NoneForgotten maxPending state) (kind : Kind) (request : Nat)
    (writeFails : Bool) :
    NoneForgotten maxPending (trySend maxPending state kind request writeFails) := by
  unfold RpcClient.trySend
  split
  · split
    · exact hnone.of_same rfl (Nat.le_refl _) rfl
    · cases kind with
      | sync =>
          dsimp only
          split
          · exact hnone.of_same rfl (Nat.le_refl _) rfl
          · exact hnone.of_same rfl (by simp) rfl
      | async =>
          dsimp only
          split <;> exact hnone.of_same rfl (Nat.le_refl _) rfl
  · rename_i hwait
    intro hready
    exact absurd (ready_of_ready_sync hready) hwait

theorem noneForgotten_trySend_last (hwaiting : state.waiting = []) (kind : Kind) (request : Nat)
    (writeFails : Bool) :
    NoneForgotten maxPending (RpcClient.trySend maxPending state kind request writeFails) :=
  NoneForgotten.trySend (fun _ => hwaiting) kind request writeFails

theorem noneForgotten_trySend_written (request : Nat) (hconn : state.conn = .connected)
    (hfull : maxPending ≤ state.queue.length + 1) :
    NoneForgotten maxPending (RpcClient.trySend maxPending state .sync request false) := by
  intro hready
  obtain ⟨hstate, hroom⟩ := ready_sync.mp hready
  unfold RpcClient.trySend at hroom hready
  split at hroom
  · rename_i hroomBefore
    rw [if_neg (by simp [hconn])] at hroom
    simp only [Bool.false_eq_true, if_false, List.length_append, List.length_singleton] at hroom
    omega
  · rename_i hwait
    rw [if_neg hwait] at hready
    exact absurd hready hwait

/-- The condition on the steps. A request that `onSyncResponse` wakes is enqueued if
others still wait, `onSocketDisconnected` aborts a response and a connection
attempt fails only when nobody waits; while a connection attempt is under way
all may wait. -/
def WakeUpsKept (state : State) : Label → Prop
  | .connectFailed => state.waiting = []
  | .handle writeFails _ =>
      match state.handler with
      | some .draining => state.queue ≠ [] → state.waiting = [] ∨ state.conn = .connecting
      | some (.matching _ _ _) =>
          ∀ kind woken others, state.queue ≠ [] → state.waiting = (kind, woken) :: others →
            others = [] ∨ state.conn = .connecting ∨
              kind = .sync ∧ state.conn = .connected ∧ writeFails = false
      | _ => True
  | _ => True

theorem noneForgotten_of_connecting
    (hconn : state.conn = .connecting) : NoneForgotten maxPending state := by
  intro hready
  exact absurd hconn (ready_sync.mp hready).1

theorem trySend_conn (maxPending : Nat) (state : State) (kind : Kind) (request : Nat)
    (writeFails : Bool) :
    (trySend maxPending state kind request writeFails).conn = state.conn := by
  unfold trySend
  repeat' split
  all_goals rfl

/-- A pop of `onSyncResponse` frees a slot. If somebody waits the queue was full, and
the slot goes to the request that is woken. -/
theorem NoneForgotten.stepMatching (hnone : NoneForgotten maxPending state) {userId type : UInt32}
    {payload : List UInt8} {writeFails resume : Bool}
    (hhandler : state.handler = some (.matching userId type payload))
    (hkept : WakeUpsKept state (.handle writeFails resume)) :
    NoneForgotten maxPending
      (stepMatching maxPending state userId type payload writeFails) := by
  simp only [WakeUpsKept, hhandler] at hkept
  unfold RpcClient.stepMatching
  split
  · exact hnone.of_same rfl (Nat.le_refl _) rfl
  · rename_i responseId request rest hqueue
    have hpending : state.queue ≠ [] := by simp [hqueue]
    unfold notifyOne
    split
    · rename_i hwaiting
      intro _
      exact hwaiting
    · rename_i kind woken others hwaiting
      rcases hkept kind woken others hpending hwaiting with
        hlast | hconnecting | ⟨rfl, hconnected, rfl⟩
      · exact noneForgotten_trySend_last hlast kind woken writeFails
      · apply noneForgotten_of_connecting
        rw [trySend_conn]
        exact hconnecting
      · refine noneForgotten_trySend_written woken hconnected ?_
        have hfull : ¬ ready maxPending state .sync = true := by
          intro hready
          rw [hnone hready] at hwaiting
          contradiction
        rw [ready_sync, hqueue, List.length_cons, hconnected] at hfull
        dsimp only
        have hnot : ¬ rest.length + 1 < maxPending := fun hroom => hfull ⟨by decide, hroom⟩
        omega

theorem NoneForgotten.stepHandler (hnone : NoneForgotten maxPending state) {handler : Handler}
    {writeFails resume : Bool} (hhandler : state.handler = some handler)
    (hkept : WakeUpsKept state (.handle writeFails resume)) :
    NoneForgotten maxPending (stepHandler maxPending state writeFails resume handler) := by
  cases handler with
  | notifying rest draining =>
      cases rest with
      | nil => cases draining <;> exact hnone.of_same rfl (Nat.le_refl _) rfl
      | cons waiter rest =>
          apply NoneForgotten.trySend
          exact hnone.of_same rfl (Nat.le_refl _) rfl
  | draining =>
      simp only [WakeUpsKept, hhandler] at hkept
      simp only [RpcClient.stepHandler, stepDraining]
      split
      · exact hnone.of_same rfl (Nat.le_refl _) rfl
      · rename_i hqueue
        rcases hkept (by simp [hqueue]) with hempty | hconnecting
        · intro _
          exact hempty
        · exact noneForgotten_of_connecting hconnecting
  | drainingAsync =>
      simp only [RpcClient.stepHandler]
      split <;> exact hnone.of_same rfl (Nat.le_refl _) rfl
  | matching userId type payload => exact hnone.stepMatching hhandler hkept
  | popped userId type payload responseId request =>
      simp only [RpcClient.stepHandler, stepPopped]
      split <;> exact hnone.of_same rfl (Nat.le_refl _) rfl
  | thrown => exact hnone

theorem NoneForgotten.next {after : State} {label : Label} (hnone : NoneForgotten maxPending state)
    (hkept : WakeUpsKept state label)
    (hnext : next maxPending state label = some after) : NoneForgotten maxPending after := by
  cases label with
  | spawn | suspend =>
      simp only [RpcClient.next] at hnext
      split at hnext
      · cases hnext
        exact hnone.of_same rfl (Nat.le_refl _) rfl
      · contradiction
  | send kind writeFails =>
      simp only [RpcClient.next] at hnext
      split at hnext
      · cases hnext
        apply NoneForgotten.trySend
        exact hnone.of_same rfl (Nat.le_refl _) rfl
      · contradiction
  | connect =>
      simp only [RpcClient.next] at hnext
      split at hnext
      · cases hnext
        exact noneForgotten_of_connecting rfl
      · contradiction
  | shutdown =>
      simp only [RpcClient.next] at hnext
      split at hnext
      · rename_i hcall
        cases hnext
        intro hready
        obtain ⟨_, hroom⟩ := ready_sync.mp hready
        exact hnone (ready_sync.mpr ⟨by simp [hcall.2], hroom⟩)
      · contradiction
  | connected | disconnected =>
      simp only [RpcClient.next] at hnext
      split at hnext
      · cases hnext
        intro _
        rfl
      · contradiction
  | connectFailed =>
      simp only [RpcClient.next] at hnext
      split at hnext
      · cases hnext
        intro _
        exact hkept
      · contradiction
  | receive index type payload =>
      simp only [RpcClient.next] at hnext
      split at hnext
      · obtain ⟨entry, _, hafter⟩ := Option.map_eq_some_iff.mp hnext
        rw [← hafter]
        exact hnone.of_same rfl (Nat.le_refl _) rfl
      · contradiction
  | handle writeFails resume =>
      simp only [RpcClient.next] at hnext
      split at hnext
      · obtain ⟨handler, hhandler, hafter⟩ := Option.map_eq_some_iff.mp hnext
        rw [← hafter]
        exact hnone.stepHandler hhandler hkept
      · contradiction

/-- No request waits while it could go on, in particular when nothing runs. -/
theorem no_request_forgotten {maxPending : Nat} {state : State}
    (hreach : (machine maxPending).ReachableUnder WakeUpsKept state)
    (hready : ready maxPending state .sync = true) : state.waiting = [] := by
  have hnone : NoneForgotten maxPending state := by
    apply hreach.invariant (NoneForgotten maxPending)
    · intro _ hstart _
      rw [hstart]
      rfl
    · intro _ _ _ hnone hkept hnext
      exact hnone.next hkept hnext
  exact hnone hready

def permitWakeUps (state : State) : Label → Bool
  | .connectFailed => decide (state.waiting = [])
  | .handle _ _ =>
      match state.handler with
      | some .draining => decide (state.waiting = [])
      | some (.matching _ _ _) => decide (state.waiting.length ≤ 1)
      | _ => true
  | _ => true

theorem wakeUpsKept_of_permit (state : State) (label : Label)
    (hpermit : permitWakeUps state label = true) : WakeUpsKept state label := by
  cases label with
  | connectFailed =>
      rw [permitWakeUps, decide_eq_true_eq] at hpermit
      exact hpermit
  | handle writeFails resume =>
      simp only [permitWakeUps, WakeUpsKept] at hpermit ⊢
      split at hpermit
      · intro _
        exact .inl (of_decide_eq_true hpermit)
      · intro kind woken others _ hwaiting
        have hshort := of_decide_eq_true hpermit
        rw [hwaiting, List.length_cons] at hshort
        exact .inl (List.eq_nil_of_length_eq_zero (by omega))
      · trivial
  | _ => trivial

def secondRequestWaits : List Label :=
  [.connect, .connected, .handle false false, .spawn, .send .sync false, .suspend,
    .spawn, .send .sync false, .receive 0 7 [], .handle false false, .suspend,
    .handle false false, .receive 0 7 [], .handle false false, .handle false false]

theorem second_request_not_forgotten :
    ∃ state, (machine 1).ReachableUnder WakeUpsKept state ∧
      state.completed.length = 2 ∧ state.waiting = [] := by
  obtain ⟨state, hpath, htest⟩ := (machine 1).exists_path_of_replay WakeUpsKept permitWakeUps
    start secondRequestWaits
    (fun state => decide (state.completed.length = 2 ∧ ready 1 state .sync = true))
    wakeUpsKept_of_permit (by decide)
  obtain ⟨hcompleted, hready⟩ := of_decide_eq_true htest
  exact ⟨state, ⟨start, rfl, hpath⟩, hcompleted,
    no_request_forgotten ⟨start, rfl, hpath⟩ hready⟩

/-- A run with these events leaves a request waiting with one pending response allowed,
although nothing executes and nothing holds the request back. -/
def Forgets (trace : List Event) : Prop :=
  ∃ state, (machine 1).Reachable state ∧ state.trace = trace ∧ state.idle = true ∧
    ready 1 state .sync = true ∧ state.waiting ≠ []

theorem forgets_of_replay (trace : List Event) (labels : List Label)
    (hrun : ((machine 1).replay (fun _ _ => true) start labels).any
      (fun state => decide (state.trace = trace ∧ state.idle = true ∧
        ready 1 state .sync = true ∧ state.waiting ≠ [])) = true) : Forgets trace := by
  obtain ⟨state, hreach, htest⟩ := (machine 1).exists_reachable_of_replay start labels _ rfl hrun
  exact ⟨state, hreach, of_decide_eq_true htest⟩

def failedWrite : List Label :=
  [.connect, .connected, .handle false false, .spawn, .send .sync false, .suspend,
    .spawn, .send .sync false, .spawn, .send .sync false, .receive 0 7 [],
    .handle true false, .suspend, .handle false false]

def fullDisconnect : List Label :=
  [.connect, .connected, .handle false false, .spawn, .send .sync false, .suspend,
    .spawn, .send .sync false, .disconnected, .handle false false, .handle false false,
    .handle false false, .handle false false, .handle false false]

theorem requests_forgotten :
    Forgets [.enqueue 0, .answer 0 7 []] ∧ Forgets [.enqueue 0, .close] :=
  ⟨forgets_of_replay _ failedWrite (by decide), forgets_of_replay _ fullDisconnect (by decide)⟩

end Crossbow.Infinio.RpcClient
