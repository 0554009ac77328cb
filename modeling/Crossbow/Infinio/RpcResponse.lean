import Crossbow.Kernel.Machine

/-! The future that a fiber waits on for the response of its request. Completing it
resumes the fiber in the middle of the event handler, which goes on later. Seen from
the fiber it is a cell that is filled once and whose value can be taken once. -/
namespace Crossbow.Infinio.RpcResponse
open Kernel

/-- `other` is an error given to `onAbort`, or by the handler to `setError`. -/
inductive ErrorCode where
  | remote (value : Int)
  | wrongType
  | brokenPromise
  | other (value : Nat)
  deriving DecidableEq, Repr

inductive Outcome (Value : Type) where
  | set (value : Value)
  | error (ec : ErrorCode)
  deriving DecidableEq, Repr

inductive Query where
  | wait
  | waitForResult
  | get
  | error
  deriving DecidableEq, Repr

inductive Answer (Value : Type) where
  | received (done : Bool)
  | valid (valid : Bool)
  | value (value : Value)
  | systemError (ec : ErrorCode)
  | alreadyRetrieved
  | code (ec : Option ErrorCode)
  deriving DecidableEq, Repr

/-- `asking` is the call in which the fiber is suspended, and `fault` an assertion that
failed. The completions and the answers are history. -/
structure Response (Value : Type) where
  mPending : Bool
  mWaiting : Bool
  mResult : Option (Outcome Value)
  mRetrieved : Bool
  asking : Option Query
  fault : Bool
  completions : List (Outcome Value)
  answers : List (Query × Answer Value)

variable {Value : Type}

namespace Response

def fail (response : Response Value) : Response Value := { response with fault := true }

def answer (response : Response Value) (query : Query) (answer : Answer Value) : Response Value :=
  { response with answers := response.answers ++ [(query, answer)] }

def finish (response : Response Value) (query : Query) : Response Value :=
  match query, response.mResult with
  | .wait, _ => response.answer query (.received true)
  | _, none => response.fail
  | .waitForResult, some (.set _) => response.answer query (.valid true)
  | .waitForResult, some (.error _) => response.answer query (.valid false)
  | .get, some (.error ec) => response.answer query (.systemError ec)
  | .get, some (.set value) =>
      if response.mRetrieved then response.answer query .alreadyRetrieved
      else { response with mRetrieved := true }.answer query (.value value)
  | .error, some (.set _) => response.answer query (.code none)
  | .error, some (.error ec) => response.answer query (.code (some ec))

/-- `wait`, alone or as the condition of a loop, up to the point where the fiber is
suspended. -/
def ask (response : Response Value) (query : Query) : Response Value :=
  if response.mWaiting then response.fail
  else if response.mPending then { response with mWaiting := true, asking := some query }
  else response.finish query

def notify (response : Response Value) : Response Value :=
  match response.mWaiting, response.asking with
  | true, some query =>
      let resumed := { response with mWaiting := false, asking := none }
      if query = .wait ∧ resumed.mPending then resumed.answer .wait (.received false)
      else resumed.ask query
  | _, _ => response

def complete (response : Response Value) (outcome : Outcome Value) : Response Value :=
  if response.mPending then
    { response with
      mPending := false
      completions := response.completions ++ [outcome] }.notify
  else response.fail

def setInternalResult (response : Response Value) (outcome : Outcome Value) : Response Value :=
  if response.mPending then { response with mResult := some outcome }.complete outcome
  else response

end Response

/-- The call of the client: `code` stands at the front of the message. -/
inductive Cause where
  | response (messageType : UInt32) (code : UInt64)
  | abort (ec : ErrorCode)
  deriving DecidableEq, Repr

/-- While `handling`, `processResponse` runs; `sets` is what it tried to set. -/
structure State (Value : Type) where
  response : Response Value
  handling : Bool
  cause : Option Cause
  sets : List (Outcome Value)

inductive Label (Value : Type) where
  | ask (query : Query)
  | notify
  | call (cause : Cause)
  | set (outcome : Outcome Value)
  | processed
  deriving DecidableEq, Repr

/-- The `uint64_t` is narrowed to the `int` of an error code. -/
def remoteError (code : UInt64) : ErrorCode := .remote ((code.toNat : Int).bmod (2 ^ 32))

/-- `onResponse` up to `processResponse`, and `onAbort`. -/
def State.call (handlerType : UInt32) (state : State Value) (cause : Cause) : State Value :=
  let called := { state with cause := some cause }
  if state.response.mPending = false ∨ state.response.mResult.isSome then
    { called with response := state.response.fail }
  else
    match cause with
    | .abort ec => { called with response := state.response.setInternalResult (.error ec) }
    | .response messageType code =>
        if messageType = 0xFFFFFFFF then
          { called with response := state.response.setInternalResult (.error (remoteError code)) }
        else if messageType ≠ handlerType then
          { called with response := state.response.setInternalResult (.error .wrongType) }
        else { called with handling := true }

/-- The rest of `onResponse`. -/
def State.processed (state : State Value) : State Value :=
  { state with
    handling := false
    response :=
      if state.response.mResult.isSome then state.response
      else if state.response.mPending then state.response.setInternalResult (.error .brokenPromise)
      else state.response.fail }

def next (handlerType : UInt32) (state : State Value) : Label Value → Option (State Value)
  | .ask query =>
      if state.response.asking = none then
        some { state with response := state.response.ask query }
      else none
  | .notify => some { state with response := state.response.notify }
  | .call cause => some (state.call handlerType cause)
  | .set outcome =>
      if state.handling then
        some { state with
          response := state.response.setInternalResult outcome
          sets := state.sets ++ [outcome] }
      else none
  | .processed => if state.handling then some state.processed else none

def start : State Value := ⟨⟨true, false, none, false, none, false, [], []⟩, false, none, []⟩

def machine (handlerType : UInt32) : Machine (State Value) (Label Value) where
  initial := fun state => state = start
  next := next handlerType

/-- The client calls `onResponse` or `onAbort` once. -/
def Once (state : State Value) : Label Value → Prop
  | .call _ => state.cause = none
  | _ => True

instance (state : State Value) (label : Label Value) : Decidable (Once state label) :=
  match label with
  | .call _ => inferInstanceAs (Decidable (state.cause = none))
  | .ask _ | .notify | .set _ | .processed => inferInstanceAs (Decidable True)

section Future

/-- The answers of a future that was filled, where `get` takes the value once. -/
def Outcome.reply (outcome : Outcome Value) (taken : Bool) : Query → Answer Value
  | .wait => .received true
  | .waitForResult => .valid (match outcome with | .set _ => true | .error _ => false)
  | .get =>
      match outcome with
      | .set value => if taken then .alreadyRetrieved else .value value
      | .error ec => .systemError ec
  | .error => .code (match outcome with | .set _ => none | .error ec => some ec)

inductive Outcome.Serves (outcome : Outcome Value) : Bool → List (Query × Answer Value) → Prop where
  | nil : Serves outcome false []
  | snoc {taken : Bool} {earlier : List (Query × Answer Value)} (query : Query)
      (hearlier : Serves outcome taken earlier) :
      Serves outcome (taken || query = .get) (earlier ++ [(query, outcome.reply taken query)])

/-- What a call of the client fills the future with, once it has been filled. -/
def State.filled (handlerType : UInt32) (state : State Value) : List (Outcome Value) :=
  match state.cause with
  | none => []
  | some (.abort ec) => [.error ec]
  | some (.response messageType code) =>
      if messageType = 0xFFFFFFFF then [.error (remoteError code)]
      else if messageType ≠ handlerType then [.error .wrongType]
      else match state.sets with
        | outcome :: _ => [outcome]
        | [] => if state.handling then [] else [.error .brokenPromise]

/-- A response is as it was made, or filled, and the answers before it was filled are those
of `wait` to a fiber that was notified. -/
inductive Response.Shape : Response Value → Prop where
  | pending (asking : Option Query) (early : Nat) :
      Shape ⟨true, asking.isSome, none, false, asking, false, [],
        List.replicate early (.wait, .received false)⟩
  | filled (outcome : Outcome Value) (retrieved taken : Bool) (early : Nat)
      (late : List (Query × Answer Value)) (hserves : outcome.Serves taken late)
      (hretrieved : ∀ value, outcome = .set value → retrieved = taken) :
      Shape ⟨false, false, some outcome, retrieved, none, false, [outcome],
        List.replicate early (.wait, .received false) ++ late⟩

end Future

section Steps

variable {response : Response Value} {handlerType : UInt32} {state after : State Value}

namespace Response

theorem shape_finish {outcome : Outcome Value} {retrieved taken : Bool} (early : Nat)
    {late : List (Query × Answer Value)} (hserves : outcome.Serves taken late)
    (hretrieved : ∀ value, outcome = .set value → retrieved = taken) (query : Query) :
    Shape (finish ⟨false, false, some outcome, retrieved, none, false, [outcome],
      List.replicate early (.wait, .received false) ++ late⟩ query) := by
  have hsnoc := hserves.snoc query
  have hfilled (after : Bool) := Shape.filled outcome after _ early _ hsnoc
  rw [← List.append_assoc] at hfilled
  cases outcome with
  | error ec => cases query <;> exact hfilled retrieved nofun
  | set value =>
      cases hretrieved value rfl
      cases query with
      | get => cases retrieved <;> exact hfilled true fun _ _ => by simp
      | _ => exact hfilled retrieved fun _ _ => by simp

@[simp] theorem completions_finish (response : Response Value) (query : Query) :
    (response.finish query).completions = response.completions := by
  unfold finish
  repeat' split
  all_goals rfl

theorem Shape.fields (hshape : Shape response) : response.fault = false ∧
    response.mPending = response.completions.isEmpty ∧
    response.mResult = response.completions.head? := by
  cases hshape <;> exact ⟨rfl, rfl, rfl⟩

theorem Shape.ask (hshape : Shape response) (hfree : response.asking = none) (query : Query) :
    Shape (response.ask query) ∧ (response.ask query).completions = response.completions := by
  cases hshape with
  | pending asking early =>
      cases hfree
      exact ⟨.pending (some query) early, rfl⟩
  | filled outcome retrieved taken early late hserves hretrieved =>
      exact ⟨shape_finish early hserves hretrieved query, completions_finish _ query⟩

theorem Shape.notify (hshape : Shape response) :
    Shape response.notify ∧ response.notify.completions = response.completions := by
  cases hshape with
  | pending asking early =>
      cases asking with
      | none => exact ⟨.pending none early, rfl⟩
      | some query =>
          cases query with
          | wait =>
              have hone := @Shape.pending Value none (early + 1)
              rw [List.replicate_succ'] at hone
              exact ⟨hone, rfl⟩
          | _ => exact ⟨.pending (some _) early, rfl⟩
  | filled _ _ _ _ _ hserves hretrieved => exact ⟨.filled _ _ _ _ _ hserves hretrieved, rfl⟩

theorem Shape.setInternalResult (hshape : Shape response) (outcome : Outcome Value) :
    Shape (response.setInternalResult outcome) ∧
      (response.setInternalResult outcome).completions =
        response.completions ++ if response.completions = [] then [outcome] else [] := by
  cases hshape with
  | pending asking early =>
      cases asking with
      | none =>
          refine ⟨?_, rfl⟩
          have hfilled := Shape.filled outcome false false early [] .nil fun _ _ => rfl
          rw [List.append_nil] at hfilled
          exact hfilled
      | some query =>
          have hfinish := shape_finish early (@Outcome.Serves.nil Value outcome)
            (fun _ _ => rfl) query
          rw [List.append_nil] at hfinish
          have hsame := @completions_finish Value ⟨false, false, some outcome, false, none,
            false, [outcome], List.replicate early (.wait, .received false)⟩ query
          cases query <;> exact ⟨hfinish, hsame⟩
  | filled _ _ _ _ _ hserves hretrieved => exact ⟨.filled _ _ _ _ _ hserves hretrieved, rfl⟩

end Response

structure Inv (handlerType : UInt32) (state : State Value) : Prop where
  shape : state.response.Shape
  completions : state.response.completions = state.filled handlerType
  uncalled : state.cause = none → state.sets = [] ∧ state.handling = false
  handling : state.handling = true → handlerType ≠ 0xFFFFFFFF ∧
    ∃ code, state.cause = some (.response handlerType code)

theorem Inv.call (hinv : Inv handlerType state) (honce : state.cause = none) (cause : Cause) :
    Inv handlerType (state.call handlerType cause) := by
  obtain ⟨hsets, hidle⟩ := hinv.uncalled honce
  have hempty : state.response.completions = [] := by
    rw [hinv.completions, State.filled, honce]
  have hset (outcome : Outcome Value) := hinv.shape.setInternalResult outcome
  simp only [hempty, if_true, List.nil_append] at hset
  have hfresh : ¬ (state.response.mPending = false ∨ state.response.mResult.isSome) := by
    rw [hinv.shape.fields.2.1, hinv.shape.fields.2.2, hempty]
    simp
  unfold State.call
  simp only [if_neg hfresh]
  cases cause with
  | abort ec => exact ⟨(hset _).1, (hset _).2, nofun, fun hhandling => by simp_all⟩
  | response messageType code =>
      simp only
      split
      · rename_i hmax
        refine ⟨(hset _).1, (hset _).2.trans ?_, nofun, fun hhandling => by simp_all⟩
        simp [State.filled, hmax]
      · rename_i hmax
        split
        · rename_i hother
          refine ⟨(hset _).1, (hset _).2.trans ?_, nofun, fun hhandling => by simp_all⟩
          simp [State.filled, hmax, hother]
        · rename_i hsame
          cases not_not.mp hsame
          refine ⟨hinv.shape, ?_, nofun, fun _ => ⟨hmax, code, rfl⟩⟩
          simp [State.filled, hmax, hsets, hempty]

theorem Inv.set (hinv : Inv handlerType state) (hhandling : state.handling = true)
    (outcome : Outcome Value) : Inv handlerType { state with
      response := state.response.setInternalResult outcome
      sets := state.sets ++ [outcome] } := by
  obtain ⟨hmax, code, hcause⟩ := hinv.handling hhandling
  obtain ⟨hshape, hcompletions⟩ := hinv.shape.setInternalResult outcome
  refine ⟨hshape, hcompletions.trans ?_, fun hnone => by simp_all, hinv.handling⟩
  rw [hinv.completions]
  cases hsets : state.sets <;> simp [State.filled, hcause, hmax, hsets, hhandling]

theorem Inv.processed (hinv : Inv handlerType state) (hhandling : state.handling = true) :
    Inv handlerType state.processed := by
  obtain ⟨hmax, code, hcause⟩ := hinv.handling hhandling
  obtain ⟨hshape, hcompletions⟩ := hinv.shape.setInternalResult (.error .brokenPromise)
  have hcalled : state.cause ≠ none := hcause ▸ nofun
  unfold State.processed
  rw [hinv.shape.fields.2.1, hinv.shape.fields.2.2]
  cases hsets : state.sets with
  | nil =>
      have hempty : state.response.completions = [] := by
        rw [hinv.completions]
        simp [State.filled, hcause, hmax, hsets, hhandling]
      rw [hempty] at hcompletions ⊢
      refine ⟨hshape, hcompletions.trans ?_, fun hnone => absurd hnone hcalled, nofun⟩
      simp [State.filled, hcause, hmax]
  | cons outcome rest =>
      have hone : state.response.completions = [outcome] := by
        rw [hinv.completions]
        simp [State.filled, hcause, hmax, hsets]
      rw [hone]
      refine ⟨hinv.shape, hone.trans ?_, fun hnone => absurd hnone hcalled, nofun⟩
      simp [State.filled, hcause, hmax]

theorem Inv.next (hinv : Inv handlerType state) {label : Label Value} (honce : Once state label)
    (hnext : next handlerType state label = some after) : Inv handlerType after := by
  cases label with
  | ask query =>
      obtain ⟨hfree, hafter⟩ := Option.ite_none_right_eq_some.mp hnext
      cases hafter
      obtain ⟨hshape, hsame⟩ := hinv.shape.ask hfree query
      exact ⟨hshape, hsame.trans hinv.completions, hinv.uncalled, hinv.handling⟩
  | notify =>
      cases hnext
      obtain ⟨hshape, hsame⟩ := hinv.shape.notify
      exact ⟨hshape, hsame.trans hinv.completions, hinv.uncalled, hinv.handling⟩
  | call cause =>
      cases hnext
      exact hinv.call honce cause
  | set outcome =>
      obtain ⟨hhandling, hafter⟩ := Option.ite_none_right_eq_some.mp hnext
      cases hafter
      exact hinv.set hhandling outcome
  | processed =>
      obtain ⟨hhandling, hafter⟩ := Option.ite_none_right_eq_some.mp hnext
      cases hafter
      exact hinv.processed hhandling

end Steps

/-- If the client calls `onResponse` or `onAbort` once, no assertion fails, the future is
filled once and with what the call demands, no fiber stays suspended in a filled one, and
from then on it answers as a future whose value is taken once. -/
theorem responses_refine_future (handlerType : UInt32) (state : State Value)
    (hreach : (machine handlerType).ReachableUnder Once state) :
    state.response.fault = false ∧ state.response.completions = state.filled handlerType ∧
      (state.response.asking ≠ none → state.response.completions = []) ∧
      ∃ early late, state.response.answers =
          List.replicate early (.wait, .received false) ++ late ∧
        (late ≠ [] → ∃ outcome taken, state.response.completions = [outcome] ∧
          outcome.Serves taken late) := by
  have hinv : Inv handlerType state := by
    refine hreach.invariant (Inv handlerType) ?_ fun _ _ _ hinv honce => hinv.next honce
    rintro _ rfl
    exact ⟨.pending none 0, rfl, fun _ => ⟨rfl, rfl⟩, nofun⟩
  refine ⟨hinv.shape.fields.1, hinv.completions, ?_⟩
  have hshape := hinv.shape
  generalize state.response = response at hshape
  cases hshape with
  | pending asking early => exact ⟨fun _ => rfl, early, [], (List.append_nil _).symm, nofun⟩
  | filled outcome retrieved taken early late hserves =>
      exact ⟨nofun, early, late, rfl, fun _ => ⟨outcome, taken, rfl, hserves⟩⟩

/-- The handler fills the future, which answers the waiting fiber, and fails to do so again. -/
theorem second_get_is_refused :
    ∃ state : State Nat, (machine 7).ReachableUnder Once state ∧
      state.response.answers = [(.get, .value 5), (.get, .alreadyRetrieved)] ∧
      state.response.completions = state.filled 7 := by
  obtain ⟨state, hreach, hanswers⟩ := (machine 7).exists_reachableUnder_of_replay Once
    (start : State Nat) [.ask .get, .notify, .call (.response 7 0), .set (.set 5),
      .set (.error .wrongType), .ask .get, .processed]
    (fun state => decide (state.response.answers = [(.get, .value 5), (.get, .alreadyRetrieved)]))
    rfl (by decide)
  exact ⟨state, hreach, of_decide_eq_true hanswers, (responses_refine_future 7 state hreach).2.1⟩

end Crossbow.Infinio.RpcResponse
