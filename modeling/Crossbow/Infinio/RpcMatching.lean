import Crossbow.Infinio.RpcSpec
import Mathlib.Data.List.Perm.Subperm

/-! Matching of synchronous responses. As long as no two pending requests share an id,
the client gives every request what the events on the connection specify. Ids
are also used up by requests that are never sent, so they can come back. -/
namespace Crossbow.Infinio.RpcClient
open Kernel
open BatchingMessageSocket (ConnectionState)

def Handler.resting : Option Handler → List Nat
  | some (.notifying rest _) => rest.map Prod.snd
  | _ => []

/-- Every request has one place: it is enqueued, refused, or still waits. -/
def numbers (state : State) : List Nat :=
  enqueued state.trace ++ state.refused.map Prod.fst ++ state.waiting.map Prod.snd ++
    Handler.resting state.handler

theorem numbers_trySend (maxPending : Nat) (state : State) (kind : Kind) (request : Nat)
    (writeFails : Bool) :
    (numbers (trySend maxPending state kind request writeFails)).Subperm
      (request :: numbers state) := by
  have hrefused : (enqueued state.trace ++ (state.refused.map Prod.fst ++ [request]) ++
      state.waiting.map Prod.snd ++ Handler.resting state.handler).Perm
        (request :: numbers state) := by
    simp only [numbers, ← List.append_assoc]
    simp only [List.append_assoc, List.cons_append, List.nil_append]
    rw [← List.append_assoc, ← List.append_assoc (enqueued state.trace)]
    exact List.perm_middle
  have henqueued : (enqueued (state.trace ++ [.enqueue request]) ++
      state.refused.map Prod.fst ++ state.waiting.map Prod.snd ++
        Handler.resting state.handler).Perm (request :: numbers state) := by
    simp only [numbers, enqueued, List.filterMap_append, List.filterMap_cons,
      List.filterMap_nil, List.append_assoc, List.cons_append, List.nil_append]
    exact List.perm_middle
  have hwaiting : (enqueued state.trace ++ state.refused.map Prod.fst ++
      (state.waiting ++ [(kind, request)]).map Prod.snd ++
        Handler.resting state.handler).Perm (request :: numbers state) := by
    simp only [numbers, List.map_append, List.map_cons, List.map_nil, List.append_assoc,
      List.cons_append, List.nil_append]
    rw [← List.append_assoc, ← List.append_assoc, ← List.append_assoc, ← List.append_assoc]
    exact List.perm_middle
  unfold trySend
  split
  · split
    · simpa [numbers, State.refuse] using hrefused.subperm
    · cases kind with
      | sync =>
          dsimp only
          split
          · simpa [numbers, State.refuse] using hrefused.subperm
          · exact henqueued.subperm
      | async =>
          dsimp only
          split
          · simpa [numbers, State.refuse] using hrefused.subperm
          · exact (List.sublist_cons_self ..).subperm
  · exact hwaiting.subperm

structure Numbered (state : State) : Prop where
  nodup : (numbers state).Nodup
  old : ∀ request ∈ numbers state, request < state.nextRequest

theorem Numbered.of_numbers {before after : State} (hnumbered : Numbered before)
    (hnumbers : numbers after = numbers before)
    (hnext : after.nextRequest = before.nextRequest) : Numbered after := by
  refine ⟨?_, ?_⟩
  · rw [hnumbers]
    exact hnumbered.nodup
  · rw [hnumbers, hnext]
    exact hnumbered.old

theorem trySend_nextRequest (maxPending : Nat) (state : State) (kind : Kind) (request : Nat)
    (writeFails : Bool) :
    (trySend maxPending state kind request writeFails).nextRequest = state.nextRequest := by
  unfold trySend
  repeat' split
  all_goals rfl

variable {maxPending : Nat} {state : State} {writeFails resume : Bool}

theorem Numbered.trySend {kind : Kind} {request : Nat} (hnodup : (request :: numbers state).Nodup)
    (hold : ∀ other ∈ request :: numbers state, other < state.nextRequest) :
    Numbered (trySend maxPending state kind request writeFails) := by
  obtain ⟨kept, hperm, hsublist⟩ := numbers_trySend maxPending state kind request writeFails
  refine ⟨hperm.nodup_iff.mp (hnodup.sublist hsublist), ?_⟩
  intro other hmem
  rw [trySend_nextRequest]
  exact hold other (hsublist.subset (hperm.mem_iff.mpr hmem))

structure Inv (maxPending : Nat) (state : State) : Prop where
  limit : state.queue.length ≤ maxPending
  ids : (state.queue.map Prod.fst).Nodup
  agrees : Agrees state.conn state.queue state.wire state.completed (specOf state.trace)
    state.handler
  ledger : (specOf state.trace).outcomes.map Prod.fst ++ (specOf state.trace).pending =
    enqueued state.trace
  numbered : Numbered state

/-- What sending does to the matching, the numbers aside: it enqueues on an
established connection, or leaves all of it alone. -/
theorem trySend_cases (maxPending : Nat) (state : State) (kind : Kind) (request : Nat)
    (writeFails : Bool) :
    let after := trySend maxPending state kind request writeFails
    after.conn = state.conn ∧ after.handler = state.handler ∧
      after.completed = state.completed ∧
      (after.queue = state.queue ∧ after.wire = state.wire ∧ after.trace = state.trace ∨
        kind = .sync ∧ writeFails = false ∧ state.conn = .connected ∧
        state.queue.length < maxPending ∧
        after.queue = state.queue ++ [(state.userId + 1, request)] ∧
        after.wire = state.wire ++ [(buildId (state.userId + 1) false, request)] ∧
        after.trace = state.trace ++ [.enqueue request]) := by
  unfold trySend
  split
  · rename_i hready
    split
    · exact ⟨rfl, rfl, rfl, .inl ⟨rfl, rfl, rfl⟩⟩
    · rename_i hconn
      cases kind with
      | sync =>
          dsimp only
          split
          · exact ⟨rfl, rfl, rfl, .inl ⟨rfl, rfl, rfl⟩⟩
          · rename_i hwrites
            refine ⟨rfl, rfl, rfl, .inr ⟨rfl, Bool.not_eq_true _ ▸ hwrites,
              Decidable.not_not.mp hconn, ?_, rfl, rfl, rfl⟩⟩
            exact (of_decide_eq_true hready).2
      | async =>
          dsimp only
          split <;> exact ⟨rfl, rfl, rfl, .inl ⟨rfl, rfl, rfl⟩⟩
  · exact ⟨rfl, rfl, rfl, .inl ⟨rfl, rfl, rfl⟩⟩

theorem ledger_enqueue {trace : List Event} (request : Nat)
    (hledger : (specOf trace).outcomes.map Prod.fst ++ (specOf trace).pending = enqueued trace) :
    (specOf (trace ++ [.enqueue request])).outcomes.map Prod.fst ++
      (specOf (trace ++ [.enqueue request])).pending =
        enqueued (trace ++ [.enqueue request]) := by
  rw [specOf_append, Spec.apply, ← List.append_assoc, hledger]
  simp [enqueued]

/-- A synchronous request that is enqueued now gets an id that none of the pending
requests has. -/
def FreshId (maxPending : Nat) (conn : ConnectionState) (queue : List (UInt32 × Nat))
    (userId : UInt32) : Prop :=
  conn = .connected → queue.length < maxPending → userId + 1 ∉ queue.map Prod.fst

instance (maxPending : Nat) (conn : ConnectionState) (queue : List (UInt32 × Nat))
    (userId : UInt32) : Decidable (FreshId maxPending conn queue userId) :=
  inferInstanceAs (Decidable (_ → _ → _))

theorem Inv.trySend {kind : Kind} {request : Nat} (hlimit : state.queue.length ≤ maxPending)
    (hids : (state.queue.map Prod.fst).Nodup)
    (hagrees : Agrees state.conn state.queue state.wire state.completed (specOf state.trace)
      state.handler)
    (hledger : (specOf state.trace).outcomes.map Prod.fst ++ (specOf state.trace).pending =
      enqueued state.trace)
    (hnodup : (request :: numbers state).Nodup)
    (hold : ∀ other ∈ request :: numbers state, other < state.nextRequest)
    (hfresh : kind = .sync → writeFails = false →
      FreshId maxPending state.conn state.queue state.userId) :
    Inv maxPending (trySend maxPending state kind request writeFails) := by
  refine ⟨?_, ?_, ?_, ?_, Numbered.trySend hnodup hold⟩
  all_goals
    obtain ⟨hconn, hhandler, hcompleted, hcases⟩ :=
      trySend_cases maxPending state kind request writeFails
    rcases hcases with ⟨hqueue, hwire, htrace⟩ |
      ⟨hkind, hwrites, hconnected, hroom, hqueue, hwire, htrace⟩
  · rwa [hqueue]
  · rw [hqueue, List.length_append]
    exact hroom
  · rwa [hqueue]
  · rw [hqueue, List.map_append, List.nodup_append]
    refine ⟨hids, List.nodup_singleton _, ?_⟩
    rintro id hid _ hlast rfl
    rw [List.map_singleton, List.mem_singleton] at hlast
    rw [hlast] at hid
    exact hfresh hkind hwrites hconnected hroom hid
  · rwa [hconn, hqueue, hwire, hcompleted, htrace, hhandler]
  · rw [hconnected] at hagrees
    rw [hconn, hconnected, hqueue, hwire, hcompleted, htrace, hhandler, specOf_append]
    exact hagrees.enqueue _ _
  · rwa [htrace]
  · rw [htrace]
    exact ledger_enqueue request hledger

theorem Inv.advance {before after : State} (hinv : Inv maxPending before)
    (hlimit : after.queue.length ≤ before.queue.length)
    (hids : (after.queue.map Prod.fst).Nodup)
    (hagrees : Agrees after.conn after.queue after.wire after.completed (specOf before.trace)
      after.handler)
    (htrace : after.trace = before.trace) (hnumbers : numbers after = numbers before)
    (hnext : after.nextRequest = before.nextRequest) : Inv maxPending after := by
  refine ⟨Nat.le_trans hlimit hinv.limit, hids, ?_, ?_, ?_⟩
  · rwa [htrace]
  · rw [htrace]
    exact hinv.ledger
  · exact hinv.numbered.of_numbers hnumbers hnext

/-- A request that a step enqueues gets an id that no pending request has. In
`onSyncResponse` the entry in front is popped before the woken request is sent. -/
def DistinctIds (maxPending : Nat) (state : State) : Label → Prop
  | .send .sync false => FreshId maxPending state.conn state.queue state.userId
  | .handle false _ =>
      match state.handler, state.waiting with
      | some (.notifying ((.sync, _) :: _) _), _ =>
          FreshId maxPending state.conn state.queue state.userId
      | some (.matching _ _ _), (.sync, _) :: _ =>
          FreshId maxPending state.conn state.queue.tail state.userId
      | _, _ => True
  | _ => True

section Steps

variable (hinv : Inv maxPending state)
include hinv

theorem Inv.stepNotifying {rest : List (Kind × Nat)} {draining : Bool}
    (hhandler : state.handler = some (.notifying rest draining))
    (hdistinct : DistinctIds maxPending state (.handle writeFails resume)) :
    Inv maxPending (stepHandler maxPending state writeFails resume (.notifying rest draining)) := by
  have hagrees := hinv.agrees
  rw [hhandler] at hagrees
  cases rest with
  | nil =>
      cases draining <;>
        exact hinv.advance (Nat.le_refl _) hinv.ids hagrees rfl
          (by simp [numbers, hhandler, Handler.resting, stepHandler]) rfl
  | cons waiter rest =>
      obtain ⟨kind, request⟩ := waiter
      have hperm : (numbers state).Perm (request ::
          numbers { state with handler := some (.notifying rest draining) }) := by
        simp only [numbers, hhandler, Handler.resting, List.map_cons]
        exact List.perm_middle
      refine Inv.trySend hinv.limit hinv.ids ?_ hinv.ledger
        (hperm.nodup_iff.mp hinv.numbered.nodup) ?_ ?_
      · cases draining <;> exact hagrees
      · intro other hmem
        exact hinv.numbered.old other (hperm.mem_iff.mpr hmem)
      · rintro rfl rfl
        simpa only [DistinctIds, hhandler] using hdistinct

theorem Inv.stepDraining (hhandler : state.handler = some .draining) :
    Inv maxPending (stepDraining state resume) := by
  have hagrees := hinv.agrees
  have hids := hinv.ids
  rw [hhandler] at hagrees
  obtain ⟨hconn, hwire, hpending, houtcomes⟩ := hagrees
  unfold RpcClient.stepDraining
  split
  · rename_i hqueue
    rw [hqueue, List.map_nil, List.append_nil] at houtcomes
    exact hinv.advance (Nat.le_refl _) hids ⟨hconn, hqueue, hwire, hpending, houtcomes⟩ rfl
      (by simp [numbers, hhandler, Handler.resting]) rfl
  · rename_i id request rest hqueue
    rw [hqueue, List.map_cons, List.nodup_cons] at hids
    refine hinv.advance ?_ hids.2 ?_ rfl (by simp [numbers, State.complete]) rfl
    · simp [hqueue, State.complete]
    · simp only [State.complete, hhandler]
      refine ⟨hconn, hwire, hpending, ?_⟩
      rw [houtcomes, hqueue]
      simp

theorem Inv.stepMatching {userId type : UInt32} {payload : List UInt8}
    (hhandler : state.handler = some (.matching userId type payload))
    (hdistinct : DistinctIds maxPending state (.handle writeFails resume)) :
    Inv maxPending (stepMatching maxPending state userId type payload writeFails) := by
  have hagrees := hinv.agrees
  have hids := hinv.ids
  rw [hhandler] at hagrees
  unfold RpcClient.stepMatching
  split
  · rename_i hqueue
    obtain ⟨skipped, request, newer, hahead, _⟩ := hagrees
    rw [hqueue] at hahead
    simp at hahead
  · rename_i responseId request rest hqueue
    rw [hqueue] at hagrees
    rw [hqueue, List.map_cons, List.nodup_cons] at hids
    have hlimit := hinv.limit
    rw [hqueue, List.length_cons] at hlimit
    unfold notifyOne
    dsimp only
    split
    · refine hinv.advance ?_ hids.2 hagrees rfl ?_ rfl
      · simp [hqueue]
      · simp [numbers, hhandler, Handler.resting]
    · rename_i kind woken others hwaiting
      have hperm : (numbers state).Perm (woken :: numbers { state with
          queue := rest
          waiting := others
          handler := some (.popped userId type payload responseId request) }) := by
        simp only [numbers, hhandler, Handler.resting, hwaiting, List.map_cons, List.append_nil]
        exact List.perm_middle
      refine Inv.trySend (Nat.le_of_succ_le hlimit) hids.2 hagrees hinv.ledger
        (hperm.nodup_iff.mp hinv.numbered.nodup) ?_ ?_
      · intro other hmem
        exact hinv.numbered.old other (hperm.mem_iff.mpr hmem)
      · rintro rfl rfl
        simpa only [DistinctIds, hhandler, hwaiting, hqueue, List.tail_cons] using hdistinct

theorem Inv.stepPopped {userId type responseId : UInt32} {payload : List UInt8} {request : Nat}
    (hhandler : state.handler = some (.popped userId type payload responseId request)) :
    Inv maxPending (stepPopped state userId type payload responseId request resume) := by
  have hagrees := hinv.agrees
  have hids := hinv.ids
  rw [hhandler] at hagrees
  obtain ⟨skipped, answered, newer, hahead, hskipped, hwire, hpending, houtcomes⟩ := hagrees
  unfold RpcClient.stepPopped
  split
  · rename_i hother
    refine hinv.advance (Nat.le_refl _) hids ?_ rfl
      (by simp [numbers, hhandler, Handler.resting, State.complete]) rfl
    cases skipped with
    | nil =>
        rw [List.nil_append, List.cons.injEq, Prod.mk.injEq] at hahead
        exact absurd hahead.1.1.symm hother
    | cons first skipped =>
        rw [List.cons_append, List.cons.injEq] at hahead
        refine ⟨skipped, answered, newer, hahead.2, ?_, hwire, hpending, ?_⟩
        · intro entry hmem
          exact hskipped entry (List.mem_cons_of_mem _ hmem)
        · rw [houtcomes]
          simp [State.complete, ← hahead.1]
  · rename_i hsame
    refine hinv.advance (Nat.le_refl _) hids ?_ rfl
      (by simp [numbers, hhandler, Handler.resting, State.complete]) rfl
    cases skipped with
    | nil =>
        rw [List.nil_append, List.cons.injEq, Prod.mk.injEq] at hahead
        refine ⟨hwire.trans (by rw [← hahead.2]; rfl), ?_, ?_⟩
        · rw [hpending, ← hahead.2]
          rfl
        · rw [houtcomes, ← hahead.1.2]
          rfl
    | cons first skipped =>
        rw [List.cons_append, List.cons.injEq] at hahead
        have hfirst := hskipped first (List.mem_cons_self ..)
        rw [← hahead.1] at hfirst
        exact absurd (Decidable.not_not.mp hsame).symm hfirst

theorem Inv.stepHandler {handler : Handler} (hhandler : state.handler = some handler)
    (hdistinct : DistinctIds maxPending state (.handle writeFails resume)) :
    Inv maxPending (stepHandler maxPending state writeFails resume handler) := by
  cases handler with
  | notifying rest draining => exact hinv.stepNotifying hhandler hdistinct
  | draining => exact hinv.stepDraining hhandler
  | matching userId type payload => exact hinv.stepMatching hhandler hdistinct
  | popped userId type payload responseId request => exact hinv.stepPopped hhandler
  | thrown => exact hinv
  | drainingAsync =>
      have hagrees := hinv.agrees
      have hids := hinv.ids
      rw [hhandler] at hagrees
      simp only [RpcClient.stepHandler]
      split
      · refine hinv.advance (Nat.le_refl _) hids ?_ rfl rfl rfl
        rwa [hhandler]
      · obtain ⟨_, hqueue, hwire, hpending, houtcomes⟩ := hagrees
        refine hinv.advance (Nat.le_refl _) hids ⟨?_, ?_, houtcomes⟩ rfl
          (by simp [numbers, hhandler, Handler.resting]) rfl
        · simp [hwire, hqueue, onWire]
        · simp [hpending, hqueue]

theorem Inv.enqueued_nodup :
    (enqueued state.trace).Nodup := by
  have hnodup := hinv.numbered.nodup
  rw [numbers, List.append_assoc, List.append_assoc] at hnodup
  exact hnodup.sublist (List.sublist_append_left ..)

theorem Inv.pending_nodup :
    (specOf state.trace).pending.Nodup := by
  have hnodup := hinv.enqueued_nodup
  rw [← hinv.ledger] at hnodup
  exact hnodup.sublist (List.sublist_append_right ..)

end Steps

theorem Inv.receive {maxPending index : Nat} {state : State} (hinv : Inv maxPending state)
    (hhandler : state.handler = none) {id : UInt64} {request : Nat}
    (hentry : state.wire[index]? = some (id, request)) (type : UInt32) (payload : List UInt8) :
    Inv maxPending { state with
      wire := state.wire.drop (index + 1)
      handler := if isAsync id then none else some (.matching (userIdOf id) type payload)
      trace := state.trace ++ [.answer request type payload] } := by
  have hagrees := hinv.agrees
  rw [hhandler] at hagrees
  obtain ⟨hwire, hpending, houtcomes⟩ := hagrees
  rw [hwire, onWire, List.getElem?_map] at hentry
  obtain ⟨⟨userId, asked⟩, hget, hpair⟩ := Option.map_eq_some_iff.mp hentry
  cases hpair
  obtain ⟨hindex, hget⟩ := List.getElem?_eq_some_iff.mp hget
  -- the queue in front of the answered request, and behind it
  obtain ⟨skipped, newer, hqueue, hdrop⟩ : ∃ skipped newer,
      state.queue = skipped ++ (userId, asked) :: newer ∧
        state.queue.drop (index + 1) = newer := by
    refine ⟨state.queue.take index, state.queue.drop (index + 1), ?_, rfl⟩
    rw [← hget, List.getElem_cons_drop, List.take_append_drop]
  have hanswer := Spec.apply_answer (show (specOf state.trace).pending =
      skipped.map Prod.snd ++ asked :: newer.map Prod.snd by rw [hpending, hqueue]; simp)
    hinv.pending_nodup type payload
  have hother : ∀ entry ∈ skipped, entry.1 ≠ userId := by
    have hids := hinv.ids
    rw [hqueue, List.map_append, List.map_cons, List.nodup_middle, List.nodup_cons] at hids
    intro entry hmem hsame
    have hid : entry.1 ∈ skipped.map Prod.fst := List.mem_map_of_mem hmem
    rw [hsame] at hid
    exact hids.1 (List.mem_append_left _ hid)
  refine ⟨hinv.limit, hinv.ids, ?_, ?_, ?_⟩
  · simp only [isAsync_buildId, userIdOf_buildId, specOf_append, hanswer]
    refine ⟨skipped, asked, newer, hqueue, hother, ?_, rfl, ?_⟩
    · rw [hwire, ← hdrop]
      exact List.map_drop.symm
    · simp [houtcomes]
  · have hledger := hinv.ledger
    rw [hpending, hqueue] at hledger
    simp only [specOf_append, hanswer]
    simpa [enqueued, Function.comp_def] using hledger
  · refine hinv.numbered.of_numbers ?_ rfl
    simp [numbers, enqueued, isAsync_buildId, hhandler, Handler.resting]

theorem Inv.disconnected (hinv : Inv maxPending state) (hhandler : state.handler = none) :
    Inv maxPending { state with
      conn := .disconnected
      handler := some (.notifying state.waiting true)
      waiting := []
      wire := []
      trace := state.trace ++ [.close] } := by
  have hagrees := hinv.agrees
  rw [hhandler] at hagrees
  obtain ⟨_, hpending, houtcomes⟩ := hagrees
  refine ⟨hinv.limit, hinv.ids, ?_, ?_, ?_⟩
  · simp only [specOf_append]
    refine ⟨by decide, rfl, rfl, ?_⟩
    simp [Spec.apply, houtcomes, hpending, Function.comp_def]
  · have hledger := hinv.ledger
    simp only [specOf_append]
    simpa [Spec.apply, enqueued, Function.comp_def] using hledger
  · refine hinv.numbered.of_numbers ?_ rfl
    simp [numbers, enqueued, hhandler, Handler.resting]

theorem Inv.next {after : State} {label : Label} (hinv : Inv maxPending state)
    (hdistinct : DistinctIds maxPending state label)
    (hnext : next maxPending state label = some after) : Inv maxPending after := by
  have hids := hinv.ids
  cases label with
  | spawn | suspend =>
      simp only [RpcClient.next] at hnext
      split at hnext
      · cases hnext
        exact hinv.advance (Nat.le_refl _) hids hinv.agrees rfl rfl rfl
      · contradiction
  | send kind writeFails =>
      simp only [RpcClient.next] at hnext
      split at hnext
      · cases hnext
        refine Inv.trySend hinv.limit hids hinv.agrees hinv.ledger ?_ ?_ ?_
        · refine List.nodup_cons.mpr ⟨?_, hinv.numbered.nodup⟩
          intro hmem
          exact absurd (hinv.numbered.old _ hmem) (Nat.lt_irrefl _)
        · rw [List.forall_mem_cons]
          refine ⟨Nat.lt_succ_self _, ?_⟩
          intro other hmem
          exact Nat.lt_succ_of_lt (hinv.numbered.old other hmem)
        · rintro rfl rfl
          exact hdistinct
      · contradiction
  | connect | shutdown =>
      simp only [RpcClient.next] at hnext
      split at hnext
      · cases hnext
        refine hinv.advance (Nat.le_refl _) hids ?_ rfl rfl rfl
        exact hinv.agrees.setConn (by simp)
      · contradiction
  | connected | connectFailed =>
      simp only [RpcClient.next] at hnext
      split at hnext
      · rename_i hcall
        have hhandler := (of_decide_eq_true hcall.1).2
        have hagrees := hinv.agrees
        rw [hhandler] at hagrees
        cases hnext
        exact hinv.advance (Nat.le_refl _) hids hagrees rfl
          (by simp [numbers, hhandler, Handler.resting]) rfl
      · contradiction
  | disconnected =>
      simp only [RpcClient.next] at hnext
      split at hnext
      · rename_i hcall
        cases hnext
        exact hinv.disconnected (of_decide_eq_true hcall.1).2
      · contradiction
  | receive index type payload =>
      simp only [RpcClient.next] at hnext
      split at hnext
      · rename_i hidle
        obtain ⟨⟨id, request⟩, hentry, hafter⟩ := Option.map_eq_some_iff.mp hnext
        rw [← hafter]
        exact hinv.receive (of_decide_eq_true hidle).2 hentry type payload
      · contradiction
  | handle writeFails resume =>
      simp only [RpcClient.next] at hnext
      split at hnext
      · obtain ⟨handler, hhandler, hafter⟩ := Option.map_eq_some_iff.mp hnext
        rw [← hafter]
        exact hinv.stepHandler hhandler hdistinct
      · contradiction

theorem inv_start (maxPending : Nat) : Inv maxPending start where
  limit := Nat.zero_le maxPending
  ids := List.nodup_nil
  agrees := ⟨rfl, rfl, rfl⟩
  ledger := rfl
  numbered := ⟨List.nodup_nil, fun _ hmem => nomatch hmem⟩

section Progress

def ahead (userId : UInt32) (queue : List (UInt32 × Nat)) : Nat :=
  (queue.takeWhile fun entry => decide (entry.1 ≠ userId)).length

/-- The steps that the running handler takes at most, the aborts of asynchronous responses
aside. -/
def Handler.work (queue : List (UInt32 × Nat)) : Option Handler → Nat
  | none | some .thrown => 0
  | some (.notifying rest false) => rest.length + 1
  | some (.notifying rest true) => rest.length + queue.length + 3
  | some .draining => queue.length + 2
  | some .drainingAsync => 1
  | some (.matching userId _ _) => 2 * ahead userId queue + 2
  | some (.popped userId _ _ responseId request) =>
      2 * ahead userId ((responseId, request) :: queue) + 1

def State.work (state : State) : Nat := Handler.work state.queue state.handler

/-- Every step of a handler is a step towards its end, and nothing that fibers do in between
makes it longer. Only the loop over `mAsyncResponses` goes on for as long as resumed fibers
start further asynchronous requests. -/
structure HandlerEnds (maxPending : Nat) (state : State) : Prop where
  enabled : state.fibers = 0 → state.handler ≠ none → state.handler ≠ some .thrown →
    ∀ writeFails resume, ∃ after, next maxPending state (.handle writeFails resume) = some after
  advances : ∀ writeFails resume after,
    next maxPending state (.handle writeFails resume) = some after →
      after.work < state.work ∨ state.handler = some .drainingAsync ∧ resume = true
  keeps : state.handler ≠ none → ∀ label after, next maxPending state label = some after →
    after.work ≤ state.work

theorem Answering.ahead_append {wire : List (UInt64 × Nat)} {completed : List (Nat × Outcome)}
    {spec : Spec} {userId type : UInt32} {payload : List UInt8} {queue : List (UInt32 × Nat)}
    (hanswering : Answering wire completed spec userId type payload queue)
    (more : List (UInt32 × Nat)) : ahead userId (queue ++ more) = ahead userId queue := by
  obtain ⟨skipped, request, newer, rfl, hskipped, _⟩ := hanswering
  have hbefore : ∀ entry ∈ skipped, decide (entry.1 ≠ userId) = true :=
    fun entry hmem => decide_eq_true (hskipped entry hmem)
  unfold ahead
  rw [List.append_assoc, List.takeWhile_append_of_pos hbefore, List.takeWhile_append_of_pos hbefore]
  simp

theorem Agrees.work_append {queue : List (UInt32 × Nat)} {wire : List (UInt64 × Nat)}
    {completed : List (Nat × Outcome)} {spec : Spec} {handler : Option Handler}
    (hagrees : Agrees .connected queue wire completed spec handler)
    (more : List (UInt32 × Nat)) :
    Handler.work (queue ++ more) handler = Handler.work queue handler := by
  match handler with
  | none | some .thrown | some (.notifying _ false) => rfl
  | some (.notifying _ true) | some .draining | some .drainingAsync =>
      exact absurd rfl hagrees.1
  | some (.matching userId _ _) =>
      simp only [Handler.work, Answering.ahead_append hagrees]
  | some (.popped userId _ _ _ _) =>
      simp only [Handler.work, ← List.cons_append, Answering.ahead_append hagrees]

theorem work_trySend (hagrees : Agrees state.conn state.queue state.wire state.completed
      (specOf state.trace) state.handler) (kind : Kind) (request : Nat) (writeFails : Bool) :
    (trySend maxPending state kind request writeFails).work = state.work := by
  obtain ⟨_, hhandler, _, hcases⟩ := trySend_cases maxPending state kind request writeFails
  unfold State.work
  rcases hcases with ⟨hqueue, _⟩ | ⟨_, _, hconnected, _, hqueue, _⟩
  · rw [hqueue, hhandler]
  · rw [hconnected] at hagrees
    rw [hqueue, hhandler, hagrees.work_append]

theorem Inv.work_stepHandler (hinv : Inv maxPending state) {handler : Handler}
    {writeFails resume : Bool} (hhandler : state.handler = some handler)
    (hrunning : handler ≠ .thrown) :
    (RpcClient.stepHandler maxPending state writeFails resume handler).work < state.work ∨
      handler = .drainingAsync ∧ resume = true := by
  have hagrees := hinv.agrees
  rw [hhandler] at hagrees
  have hwork : state.work = Handler.work state.queue (some handler) := by
    rw [State.work, hhandler]
  cases handler with
  | thrown => exact absurd rfl hrunning
  | drainingAsync =>
      cases resume with
      | true => exact .inr ⟨rfl, rfl⟩
      | false =>
          left
          rw [hwork]
          exact Nat.zero_lt_one
  | draining =>
      left
      rw [hwork, RpcClient.stepHandler, RpcClient.stepDraining]
      split
      · simp [State.work, Handler.work]
      · rename_i hqueue
        simp [State.work, State.complete, hhandler, Handler.work, hqueue]
  | popped userId type payload responseId request =>
      left
      rw [hwork, RpcClient.stepHandler, RpcClient.stepPopped]
      split
      · rename_i hother
        simp [State.work, State.complete, Handler.work, ahead, Ne.symm hother]
        omega
      · simp [State.work, State.complete, Handler.work]
  | notifying rest draining =>
      left
      rw [hwork]
      cases rest with
      | nil => cases draining <;> simp [RpcClient.stepHandler, State.work, Handler.work]
      | cons waiter rest =>
          obtain ⟨kind, request⟩ := waiter
          have hsame := @work_trySend maxPending
            { state with handler := some (.notifying rest draining) }
            (by cases draining <;> exact hagrees) kind request writeFails
          rw [RpcClient.stepHandler, hsame]
          cases draining <;> simp [State.work, Handler.work]
  | matching userId type payload =>
      left
      rw [hwork, RpcClient.stepHandler, RpcClient.stepMatching]
      split
      · simp [State.work, Handler.work]
      · rename_i responseId request rest hqueue
        rw [hqueue] at hagrees
        have hpopped : State.work { state with
            queue := rest
            handler := some (.popped userId type payload responseId request) } <
              Handler.work state.queue (some (.matching userId type payload)) := by
          rw [hqueue]
          exact Nat.lt_succ_self _
        unfold notifyOne
        dsimp only
        split
        · exact hpopped
        · rename_i kind woken others _
          refine Nat.lt_of_le_of_lt (Nat.le_of_eq ?_) hpopped
          exact work_trySend hagrees kind woken writeFails

theorem Inv.handler_ends (hinv : Inv maxPending state) : HandlerEnds maxPending state where
  enabled := by
    intro hfibers hrunning hthrown writeFails resume
    obtain ⟨handler, hhandler⟩ := Option.ne_none_iff_exists'.mp hrunning
    exact ⟨RpcClient.stepHandler maxPending state writeFails resume handler, by
      simp [RpcClient.next, hfibers, hhandler, hhandler ▸ hthrown]⟩
  advances := by
    intro writeFails resume after hnext
    simp only [RpcClient.next] at hnext
    split at hnext
    · rename_i hrunning
      obtain ⟨handler, hhandler, rfl⟩ := Option.map_eq_some_iff.mp hnext
      rw [hhandler]
      exact (hinv.work_stepHandler hhandler fun hthrown =>
        hrunning.2 (hthrown ▸ hhandler)).imp_right fun hlast => ⟨congrArg some hlast.1, hlast.2⟩
    · contradiction
  keeps := by
    intro hrunning label after hnext
    have hbusy : state.idle ≠ true := fun hidle => hrunning (of_decide_eq_true hidle).2
    cases label with
    | spawn | suspend | connect | shutdown =>
        simp only [RpcClient.next] at hnext
        split at hnext
        · cases hnext
          exact Nat.le_refl _
        · contradiction
    | send kind writeFails =>
        simp only [RpcClient.next] at hnext
        split at hnext
        · cases hnext
          exact Nat.le_of_eq (@work_trySend maxPending { state with
            fibers := state.fibers - 1
            nextRequest := state.nextRequest + 1 } hinv.agrees kind _ writeFails)
        · contradiction
    | connected | connectFailed | disconnected | receive =>
        simp [RpcClient.next, hbusy] at hnext
    | handle writeFails resume =>
        simp only [RpcClient.next] at hnext
        split at hnext
        · rename_i hhandle
          obtain ⟨handler, hhandler, rfl⟩ := Option.map_eq_some_iff.mp hnext
          have hthrown : handler ≠ .thrown := fun hthrown => hhandle.2 (hthrown ▸ hhandler)
          rcases @Inv.work_stepHandler _ _ hinv _ writeFails resume hhandler hthrown with
            hless | ⟨rfl, rfl⟩
          · exact Nat.le_of_lt hless
          · exact Nat.le_refl _
        · contradiction

end Progress

/-- The client has completed an initial part of the specified outcomes, and between
handlers all of them: each enqueued request is among the outcomes or pending, once, and
only refused requests were completed otherwise. The running handler ends, and all outcomes
are there when it comes to the asynchronous responses. -/
theorem responses_matched {maxPending : Nat} {state : State}
    (hreach : (machine maxPending).ReachableUnder (DistinctIds maxPending) state) :
    state.queue.length ≤ maxPending ∧
      (enqueued state.trace).Nodup ∧
      (∀ request ∈ enqueued state.trace, request ∉ state.refused.map Prod.fst) ∧
      (specOf state.trace).outcomes.map Prod.fst ++ (specOf state.trace).pending =
        enqueued state.trace ∧
      (∃ rest, (specOf state.trace).outcomes = state.completed ++ rest) ∧
      (state.handler = none ∨ state.handler = some .drainingAsync →
        state.completed = (specOf state.trace).outcomes ∧
          state.queue.map Prod.snd = (specOf state.trace).pending) ∧
      HandlerEnds maxPending state := by
  have hinv : Inv maxPending state := by
    apply hreach.invariant (Inv maxPending)
    · intro _ hstart
      rw [hstart]
      exact inv_start maxPending
    · intro _ _ _ hinv hdistinct hnext
      exact hinv.next hdistinct hnext
  refine ⟨hinv.limit, hinv.enqueued_nodup, ?_, hinv.ledger, ?_, ?_, hinv.handler_ends⟩
  · intro request hmem hrefused
    have hnodup := hinv.numbered.nodup
    rw [numbers, List.append_assoc] at hnodup
    have happart := (List.nodup_append.mp (hnodup.sublist (List.sublist_append_left ..))).2.2
    exact happart request hmem request hrefused rfl
  · have hagrees := hinv.agrees
    match hhandler : state.handler with
    | none | some (.notifying _ false) | some .thrown =>
        rw [hhandler] at hagrees
        exact ⟨[], by rw [hagrees.2.2, List.append_nil]⟩
    | some (.notifying _ true) | some .draining =>
        rw [hhandler] at hagrees
        exact ⟨_, hagrees.2.2.2⟩
    | some .drainingAsync =>
        rw [hhandler] at hagrees
        exact ⟨[], by rw [hagrees.2.2.2.2, List.append_nil]⟩
    | some (.matching _ _ _) | some (.popped _ _ _ _ _) =>
        rw [hhandler] at hagrees
        obtain ⟨_, _, _, _, _, _, _, houtcomes⟩ := hagrees
        exact ⟨_, houtcomes⟩
  · have hagrees := hinv.agrees
    rintro (hhandler | hhandler)
    · rw [hhandler] at hagrees
      exact ⟨hagrees.2.2.symm, hagrees.2.1.symm⟩
    · rw [hhandler] at hagrees
      obtain ⟨_, hqueue, _, hpending, houtcomes⟩ := hagrees
      exact ⟨houtcomes.symm, by rw [hqueue, hpending]; rfl⟩

instance (maxPending : Nat) (state : State) (label : Label) :
    Decidable (DistinctIds maxPending state label) := by
  unfold DistinctIds
  repeat' split
  all_goals infer_instance

/-- The second of two requests is answered, and a third one is cut off. -/
theorem skipped_request_gets_no_response :
    ∃ state, (machine 4).ReachableUnder (DistinctIds 4) state ∧
      state.trace = [.enqueue 0, .enqueue 1, .answer 1 7 [42], .enqueue 2, .close] ∧
      state.completed = [(0, .noResponse), (1, .response 7 [42]), (2, .connectionAborted)] := by
  obtain ⟨state, hreach, htest⟩ := (machine 4).exists_reachableUnder_of_replay (DistinctIds 4)
    start
    [.connect, .connected, .handle false false, .spawn, .send .sync false, .send .sync false,
      .suspend, .receive 1 7 [42], .handle false false, .handle false true, .send .sync false,
      .suspend, .handle false false, .handle false false, .disconnected, .handle false false,
      .handle false false, .handle false false, .handle false false]
    (fun state => decide (state.handler = none ∧
      state.trace = [.enqueue 0, .enqueue 1, .answer 1 7 [42], .enqueue 2, .close]))
    rfl (by decide +kernel)
  obtain ⟨hhandler, htrace⟩ := of_decide_eq_true htest
  obtain ⟨_, _, _, _, _, hdone, _⟩ := responses_matched hreach
  refine ⟨state, hreach, htrace, ?_⟩
  rw [(hdone (.inl hhandler)).1, htrace]
  rfl

def flooded (count : Nat) (refused : List (Nat × Outcome)) : State where
  conn := .connected
  userId := UInt32.ofNat (1 + count)
  queue := [(1, 0)]
  waiting := []
  fibers := 1
  handler := none
  nextRequest := 1 + count
  wire := [(buildId 1 false, 0)]
  completed := []
  refused := refused
  trace := [.enqueue 0]

theorem failed_writes (count : Nat) :
    ∃ refused, (machine 2).Path Machine.anyStep (flooded 0 []) (flooded count refused) := by
  induction count with
  | zero => exact ⟨[], .refl⟩
  | succ count ih =>
      obtain ⟨refused, hpath⟩ := ih
      have hsend : (machine 2).next (flooded count refused) (.send .sync true) =
          some (flooded (count + 1) (refused ++ [(1 + count, .writeError)])) := by
        simp [machine, next, trySend, ready, flooded, State.refuse, ← Nat.add_assoc,
          UInt32.ofNat_add]
      exact ⟨_, hpath.step trivial hsend⟩

/-- After 2^32 - 1 failed writes the next request gets the id of the pending one, and
the server answers only the new one. -/
theorem reused_id_mismatches_response :
    ∃ state, (machine 2).Reachable state ∧ state.handler = none ∧
      (0, .response 7 [42]) ∈ state.completed ∧
      ∀ type payload, Event.answer 0 type payload ∉ state.trace := by
  have hpermit : ∀ (state : State) (label : Label), true = true → Machine.anyStep state label :=
    fun _ _ _ => trivial
  have hfirst : (machine 2).replay (fun _ _ => true) start
      [.connect, .connected, .handle false false, .spawn, .send .sync false] =
        some (flooded 0 []) := by
    decide
  obtain ⟨refused, hflood⟩ := failed_writes (2 ^ 32 - 1)
  have hlast : (machine 2).replay (fun _ _ => true) (flooded (2 ^ 32 - 1) refused)
      [.send .sync false, .suspend, .receive 1 7 [42], .handle false false,
        .handle false false] =
      some { flooded (2 ^ 32 - 1) refused with
        userId := 1
        queue := [(1, 2 ^ 32)]
        fibers := 0
        nextRequest := 2 ^ 32 + 1
        wire := []
        completed := [(0, .response 7 [42])]
        trace := [.enqueue 0, .enqueue (2 ^ 32), .answer (2 ^ 32) 7 [42]] } := by
    simp [Machine.replay, machine, next, trySend, ready, flooded, State.idle, State.complete,
      stepHandler, stepMatching, notifyOne, stepPopped, isAsync_buildId, userIdOf_buildId]
  refine ⟨_, ⟨start, rfl, ((Machine.path_of_replay hpermit hfirst).trans hflood).trans
    (Machine.path_of_replay hpermit hlast)⟩, rfl, List.mem_singleton_self _, ?_⟩
  intro type payload
  simp

end Crossbow.Infinio.RpcClient
