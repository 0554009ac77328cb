import Crossbow.Infinio.RpcClient
import Mathlib.Data.List.Nodup

/-! What the matching of synchronous responses is for. The server answers some of the
requests in the order it received them, and what each request must get follows
from the events on the connection alone. `Agrees` says how far the client is. -/
namespace Crossbow.Infinio.RpcClient
open Kernel
open BatchingMessageSocket (ConnectionState)

/-- The purpose of the matching: the requests without an outcome yet, and the outcomes
in the order of the requests. -/
structure Spec where
  pending : List Nat
  outcomes : List (Nat × Outcome)

/-- An answer settles the request and, without a response, all requests before it; the
end of the connection aborts the rest. -/
def Spec.apply (spec : Spec) : Event → Spec
  | .enqueue request => { spec with pending := spec.pending ++ [request] }
  | .answer request type payload =>
      { pending := (spec.pending.dropWhile (· ≠ request)).tail
        outcomes := spec.outcomes ++
          ((spec.pending.takeWhile (· ≠ request)).map (·, Outcome.noResponse) ++
            [(request, .response type payload)]) }
  | .close =>
      { pending := []
        outcomes := spec.outcomes ++ spec.pending.map (·, Outcome.connectionAborted) }

def specOf (trace : List Event) : Spec := trace.foldl Spec.apply ⟨[], []⟩

theorem specOf_append (trace : List Event) (event : Event) :
    specOf (trace ++ [event]) = (specOf trace).apply event := by
  unfold specOf
  rw [List.foldl_append]
  rfl

def enqueued (trace : List Event) : List Nat :=
  trace.filterMap fun
    | .enqueue request => some request
    | _ => none

theorem Spec.apply_answer {spec : Spec} {skipped newer : List Nat} {request : Nat}
    (hpending : spec.pending = skipped ++ request :: newer) (hdistinct : spec.pending.Nodup)
    (type : UInt32) (payload : List UInt8) :
    spec.apply (.answer request type payload) =
      { pending := newer
        outcomes := spec.outcomes ++ (skipped.map (·, Outcome.noResponse) ++
          [(request, .response type payload)]) } := by
  have hskipped : ∀ other ∈ skipped, decide (other ≠ request) = true := by
    rw [hpending, List.nodup_middle, List.nodup_cons] at hdistinct
    intro other hmem
    apply decide_eq_true
    intro hsame
    exact hdistinct.1 (List.mem_append_left _ (hsame ▸ hmem))
  rw [Spec.apply, hpending, List.takeWhile_append_of_pos hskipped,
    List.dropWhile_append_of_pos hskipped]
  simp

theorem toNat_buildId (userId : UInt32) :
    (buildId userId false).toNat = userId.toNat * 2 ^ 32 := by
  have hlt := userId.toNat_lt
  simp [buildId, UInt64.toNat_shiftLeft, Nat.shiftLeft_eq]
  omega

theorem userIdOf_buildId (userId : UInt32) : userIdOf (buildId userId false) = userId := by
  apply UInt32.toNat_inj.mp
  simp [userIdOf, toNat_buildId, UInt64.toNat_shiftRight, Nat.shiftRight_eq_div_pow]

theorem isAsync_buildId (userId : UInt32) : isAsync (buildId userId false) = false := by
  have hlow : buildId userId false &&& 0xFFFFFFFF = 0 := by
    apply UInt64.toNat_inj.mp
    rw [UInt64.toNat_and, toNat_buildId]
    show (userId.toNat * 2 ^ 32) &&& (2 ^ 32 - 1) = 0
    rw [Nat.and_two_pow_sub_one_eq_mod, Nat.mul_mod_left]
  rw [isAsync, hlow]
  rfl

def onWire (queue : List (UInt32 × Nat)) : List (UInt64 × Nat) :=
  queue.map fun entry => (buildId entry.1 false, entry.2)

/-- The rest of the work of `onSyncResponse`: skip the entries in front of the answered
request and complete this one. -/
def Answering (wire : List (UInt64 × Nat)) (completed : List (Nat × Outcome)) (spec : Spec)
    (userId type : UInt32) (payload : List UInt8) (ahead : List (UInt32 × Nat)) : Prop :=
  ∃ skipped request newer, ahead = skipped ++ (userId, request) :: newer ∧
    (∀ entry ∈ skipped, entry.1 ≠ userId) ∧ wire = onWire newer ∧
    spec.pending = newer.map Prod.snd ∧
    spec.outcomes = completed ++ (skipped.map (fun entry => (entry.2, Outcome.noResponse)) ++
      [(request, .response type payload)])

/-- What the client has done of its specification, and what the handler will do. -/
def Agrees (conn : ConnectionState) (queue : List (UInt32 × Nat)) (wire : List (UInt64 × Nat))
    (completed : List (Nat × Outcome)) (spec : Spec) : Option Handler → Prop
  | none | some (.notifying _ false) | some .thrown =>
      wire = onWire queue ∧ spec.pending = queue.map Prod.snd ∧ spec.outcomes = completed
  | some (.notifying _ true) | some .draining =>
      conn ≠ .connected ∧ wire = [] ∧ spec.pending = [] ∧ spec.outcomes =
        completed ++ queue.map (fun entry => (entry.2, Outcome.connectionAborted))
  | some .drainingAsync =>
      conn ≠ .connected ∧ queue = [] ∧ wire = [] ∧ spec.pending = [] ∧ spec.outcomes = completed
  | some (.matching userId type payload) =>
      Answering wire completed spec userId type payload queue
  | some (.popped userId type payload responseId request) =>
      Answering wire completed spec userId type payload ((responseId, request) :: queue)

theorem Agrees.setConn {conn other : ConnectionState} {queue : List (UInt32 × Nat)}
    {wire : List (UInt64 × Nat)} {completed : List (Nat × Outcome)} {spec : Spec}
    {handler : Option Handler} (hagrees : Agrees conn queue wire completed spec handler)
    (hother : other ≠ .connected) : Agrees other queue wire completed spec handler := by
  match handler with
  | none | some (.notifying _ false) | some (.matching _ _ _) | some (.popped _ _ _ _ _)
  | some .thrown =>
      exact hagrees
  | some (.notifying _ true) | some .draining | some .drainingAsync =>
      exact ⟨hother, hagrees.2⟩

theorem Answering.enqueue {wire : List (UInt64 × Nat)} {completed : List (Nat × Outcome)}
    {spec : Spec} {userId type : UInt32} {payload : List UInt8} {ahead : List (UInt32 × Nat)}
    (hanswering : Answering wire completed spec userId type payload ahead) (id : UInt32)
    (request : Nat) :
    Answering (wire ++ [(buildId id false, request)]) completed (spec.apply (.enqueue request))
      userId type payload (ahead ++ [(id, request)]) := by
  obtain ⟨skipped, answered, newer, rfl, hskipped, rfl, hpending, houtcomes⟩ := hanswering
  refine ⟨skipped, answered, newer ++ [(id, request)], by simp, hskipped, by simp [onWire], ?_,
    houtcomes⟩
  simp [Spec.apply, hpending]

theorem Agrees.enqueue {queue : List (UInt32 × Nat)} {wire : List (UInt64 × Nat)}
    {completed : List (Nat × Outcome)} {spec : Spec} {handler : Option Handler}
    (hagrees : Agrees .connected queue wire completed spec handler) (id : UInt32)
    (request : Nat) :
    Agrees .connected (queue ++ [(id, request)]) (wire ++ [(buildId id false, request)]) completed
      (spec.apply (.enqueue request)) handler := by
  match handler with
  | none | some (.notifying _ false) | some .thrown =>
      obtain ⟨hwire, hpending, houtcomes⟩ := hagrees
      refine ⟨?_, ?_, houtcomes⟩
      · simp [hwire, onWire]
      · simp [Spec.apply, hpending]
  | some (.notifying _ true) | some .draining | some .drainingAsync =>
      exact absurd rfl hagrees.1
  | some (.matching _ _ _) | some (.popped _ _ _ _ _) =>
      exact Answering.enqueue hagrees id request

end Crossbow.Infinio.RpcClient
