import Mathlib.Data.List.Nodup
import Crossbow.Infinio.RpcClient

/-! The asynchronous half of `RpcClientSocket`. A response is registered from
`startAsyncRequest` on, and three places complete it: a send that fails, the
message that answers it, and the loop of `onSocketDisconnected`. Only the last
of them removes it; otherwise that is left to its owner. -/
namespace Crossbow.Infinio.AsyncRequests
open Kernel RpcClient
open BatchingMessageSocket (ConnectionState)

abbrev Entry := UInt32 × Nat

/-- Where the handler that the poll loop called stands: `notify_all` with the rest of
its local queue, and the last loop of `onSocketDisconnected`. An exception that left a
handler is not caught by the poll loop. -/
inductive Handler where
  | notifying (rest : List Entry) (aborting : Bool)
  | aborting
  | thrown
  deriving DecidableEq, Repr

/-- `running` is the owners' view: the requests that were started and for which
`completeAsyncRequest` was not called yet. `called` are the requests that
were passed to `sendAsyncRequest`, `waiting` those blocked in it, and `wire`
the ones that the server may still answer. `completed` logs the calls of
`onResponse` and `onAbort`. -/
structure State where
  conn : ConnectionState
  running : List Entry
  asyncResponses : List Entry
  called : List Nat
  waiting : List Entry
  fibers : Nat
  handler : Option Handler
  nextRequest : Nat
  wire : List Entry
  completed : List Nat
  deriving DecidableEq, Repr

/-- `onResponse` or `onAbort`. Completing a response resumes its fiber if that waits
for it. -/
def State.complete (state : State) (request : Nat) (resume : Bool) : State :=
  { state with
    completed := state.completed ++ [request]
    fibers := if resume then state.fibers + 1 else state.fibers }

def startAsyncRequest (state : State) (id : UInt32) : State :=
  if state.asyncResponses.any fun entry => entry.1 == id then state
  else
    { state with
      running := state.running ++ [(id, state.nextRequest)]
      asyncResponses := state.asyncResponses ++ [(id, state.nextRequest)]
      nextRequest := state.nextRequest + 1 }

/-- `sendAsyncRequest` from the test of its `wait` on, at the start of the call or when
the fiber is resumed. An aborted response stays registered. -/
def trySend (state : State) (entry : Entry) (writeFails : Bool) : State :=
  if state.conn = .connecting then { state with waiting := state.waiting ++ [entry] }
  else if state.conn ≠ .connected then state.complete entry.2 true
  else if writeFails then state.complete entry.2 true
  else { state with fibers := state.fibers + 1, wire := state.wire ++ [entry] }

def completeAsyncRequest (state : State) (entry : Entry) : State :=
  { state with
    running := state.running.erase entry
    asyncResponses := state.asyncResponses.filter fun other => other.1 != entry.1 }

def onAsyncResponse (state : State) (id : UInt32) (resume : Bool) : State :=
  match state.asyncResponses.find? fun entry => entry.1 == id with
  | none => state
  | some entry => state.complete entry.2 resume

/-- The steps of the poll loop and of the fibers. `spawn` is a fiber that starts or is
resumed for another reason, also by the synchronous half of a handler. -/
inductive Label where
  | spawn
  | suspend
  | startAsyncRequest (id : UInt32)
  | sendAsyncRequest (entry : Entry) (writeFails : Bool)
  | completeAsyncRequest (entry : Entry)
  | connect
  | shutdown
  | connected
  | connectFailed
  | disconnected
  | receive (entry : Entry) (resume : Bool)
  | notify (writeFails : Bool)
  | abort (entry : Entry) (resume : Bool)
  | advance
  deriving DecidableEq, Repr

/-- An id is free for a new request unless it belongs to one that is running; if that
one is registered, the insertion refuses the id. -/
def State.fresh (state : State) (id : UInt32) : Bool :=
  state.running.all fun entry => entry.1 != id || state.asyncResponses.contains entry

def State.idle (state : State) : Bool := decide (state.fibers = 0 ∧ state.handler = none)

def next (state : State) : Label → Option State
  | .spawn =>
      if state.handler ≠ some .thrown then some { state with fibers := state.fibers + 1 } else none
  | .suspend =>
      if 0 < state.fibers then some { state with fibers := state.fibers - 1 } else none
  | .startAsyncRequest id =>
      if 0 < state.fibers ∧ state.fresh id = true then some (startAsyncRequest state id) else none
  | .sendAsyncRequest entry writeFails =>
      -- a started request is sent once, also after it was aborted
      if 0 < state.fibers ∧ entry ∈ state.running ∧ entry.2 ∉ state.called then
        some (trySend
          { state with fibers := state.fibers - 1, called := state.called ++ [entry.2] }
          entry writeFails)
      else none
  | .completeAsyncRequest entry =>
      if 0 < state.fibers ∧ entry ∈ state.running ∧ entry.2 ∈ state.completed then
        some (completeAsyncRequest state entry)
      else none
  | .connect =>
      if 0 < state.fibers ∧ state.conn = .disconnected then
        some { state with conn := .connecting }
      else none
  | .shutdown =>
      if 0 < state.fibers ∧ state.conn = .connected then some { state with conn := .shutdown }
      else none
  | .connected =>
      if state.idle = true ∧ state.conn = .connecting then
        some { state with
          conn := .connected
          handler := some (.notifying state.waiting false)
          waiting := [] }
      else none
  | .connectFailed =>
      -- the error is handled by `shutdown()`, which throws in this state
      if state.idle = true ∧ state.conn = .connecting then
        some { state with conn := .disconnected, handler := some .thrown }
      else none
  | .disconnected =>
      if state.idle = true ∧ state.conn ≠ .disconnected then
        some { state with
          conn := .disconnected
          handler := some (.notifying state.waiting true)
          waiting := []
          wire := [] }
      else none
  | .receive entry resume =>
      -- a request is answered at most once
      if state.idle = true ∧ entry ∈ state.wire then
        some (onAsyncResponse { state with wire := state.wire.erase entry } entry.1 resume)
      else none
  | .notify writeFails =>
      match state.handler with
      | some (.notifying (entry :: rest) aborting) =>
          if state.fibers = 0 then
            some (trySend { state with handler := some (.notifying rest aborting) } entry
              writeFails)
          else none
      | _ => none
  | .abort entry resume =>
      -- `begin()` of the hash map is any of its entries
      if state.fibers = 0 ∧ state.handler = some .aborting ∧ entry ∈ state.asyncResponses then
        some ({ state with
          asyncResponses := state.asyncResponses.erase entry }.complete entry.2 resume)
      else none
  | .advance =>
      if state.fibers = 0 then
        match state.handler with
        | some (.notifying [] false) => some { state with handler := none }
        | some (.notifying [] true) => some { state with handler := some .aborting }
        | some .aborting =>
            if state.asyncResponses = [] then some { state with handler := none } else none
        | _ => none
      else none

def start : State where
  conn := .disconnected
  running := []
  asyncResponses := []
  called := []
  waiting := []
  fibers := 0
  handler := none
  nextRequest := 0
  wire := []
  completed := []

def machine : Machine State Label where
  initial := fun state => state = start
  next := next

def notified : Option Handler → List Entry
  | some (.notifying rest _) => rest
  | _ => []

/-- What the owners keep to. An owner whose response is done removes it with
`completeAsyncRequest` before a round of the last loop of `onSocketDisconnected`, and
`sendAsyncRequest` is neither called nor resumed with a response that is done. -/
def Tidy (state : State) : Label → Prop
  | .abort _ _ => ∀ entry ∈ state.running, entry.2 ∈ state.completed →
      entry ∉ state.asyncResponses
  | .sendAsyncRequest entry _ => entry.2 ∉ state.completed
  | .notify _ => ∀ entry ∈ (notified state.handler).head?, entry.2 ∉ state.completed
  | _ => True

instance (state : State) (label : Label) : Decidable (Tidy state label) :=
  match label with
  | .abort _ _ => inferInstanceAs (Decidable (∀ entry ∈ state.running,
      entry.2 ∈ state.completed → entry ∉ state.asyncResponses))
  | .sendAsyncRequest entry _ => inferInstanceAs (Decidable (entry.2 ∉ state.completed))
  | .notify _ => inferInstanceAs (Decidable (∀ entry ∈ (notified state.handler).head?,
      entry.2 ∉ state.completed))
  | .spawn | .suspend | .startAsyncRequest _ | .completeAsyncRequest _ | .connect | .shutdown
  | .connected | .connectFailed | .disconnected | .receive _ _ | .advance => isTrue trivial

/-! ### What the requests and their responses agree on -/

/-- The bookkeeping of the requests. `queued` are the ones blocked in `sendAsyncRequest`. -/
structure Sound (running responses queued wire : List Entry) (called completed : List Nat) :
    Prop where
  ids : (running.map Prod.fst).Nodup
  registered : ∀ entry ∈ responses, entry ∈ running
  pending : ∀ entry ∈ running, entry.2 ∉ completed → entry ∈ responses
  flight : ((queued ++ wire).map Prod.snd).Nodup
  calls : ∀ entry ∈ queued ++ wire, entry.2 ∈ called
  blocked : ∀ entry ∈ queued, entry ∈ running ∨ entry.2 ∈ completed
  sent : ∀ entry ∈ wire, entry ∈ running ∧ entry.2 ∉ completed
  once : completed.Nodup

section Bookkeeping

variable {running responses queued wire : List Entry} {called completed : List Nat}
  {entry : Entry}

section Places

variable (hsound : Sound running responses queued wire called completed)
include hsound

theorem Sound.of_perm {queued' wire' : List Entry} (hqueued : queued.Perm queued')
    (hwire : wire.Perm wire') :
    Sound running responses queued' wire' called completed :=
  { hsound with
    flight := (((hqueued.append hwire).map Prod.snd).nodup_iff).mp hsound.flight
    calls := fun entry hentry => hsound.calls entry ((hqueued.append hwire).mem_iff.mpr hentry)
    blocked := fun entry hentry => hsound.blocked entry (hqueued.mem_iff.mpr hentry)
    sent := fun entry hentry => hsound.sent entry (hwire.mem_iff.mpr hentry) }

theorem Sound.eq_of_id {other : Entry} (hentry : entry ∈ running) (hother : other ∈ running)
    (hid : entry.1 = other.1) :
    entry = other :=
  List.inj_on_of_nodup_map hsound.ids hentry hother hid

theorem Sound.start {id : UInt32} {request : Nat} (hid : ∀ entry ∈ running, entry.1 ≠ id) :
    Sound (running ++ [(id, request)]) (responses ++ [(id, request)]) queued wire called
      completed :=
  { hsound with
    ids := by
      rw [List.map_append, List.nodup_append]
      refine ⟨hsound.ids, by simp, ?_⟩
      intro first hfirst second hsecond
      obtain ⟨entry, hentry, rfl⟩ := List.mem_map.mp hfirst
      rw [List.mem_singleton.mp hsecond]
      exact hid entry hentry
    registered := by
      intro entry hentry
      rcases List.mem_append.mp hentry with hold | hnew
      · exact List.mem_append_left _ (hsound.registered entry hold)
      · exact List.mem_append_right _ hnew
    pending := by
      intro entry hentry hdone
      rcases List.mem_append.mp hentry with hold | hnew
      · exact List.mem_append_left _ (hsound.pending entry hold hdone)
      · exact List.mem_append_right _ hnew
    blocked := fun entry hentry =>
      (hsound.blocked entry hentry).imp_left (List.mem_append_left _)
    sent := fun entry hentry =>
      ⟨List.mem_append_left _ (hsound.sent entry hentry).1, (hsound.sent entry hentry).2⟩ }

theorem Sound.call (hrunning : entry ∈ running) (hcalled : entry.2 ∉ called) :
    Sound running responses (entry :: queued) wire (called ++ [entry.2]) completed :=
  { hsound with
    flight := by
      rw [List.cons_append, List.map_cons, List.nodup_cons]
      refine ⟨?_, hsound.flight⟩
      intro hmem
      obtain ⟨other, hother, heq⟩ := List.mem_map.mp hmem
      exact hcalled (heq ▸ hsound.calls other hother)
    calls := by
      intro other hother
      rcases List.mem_cons.mp hother with rfl | hold
      · exact List.mem_append_right _ (List.mem_singleton_self _)
      · exact List.mem_append_left _ (hsound.calls other hold)
    blocked := by
      intro other hother
      rcases List.mem_cons.mp hother with rfl | hold
      · exact .inl hrunning
      · exact hsound.blocked other hold }

theorem Sound.complete {request : Nat} (hpending : request ∉ completed)
    (hwire : ∀ entry ∈ wire, entry.2 ≠ request) :
    Sound running responses queued wire called (completed ++ [request]) :=
  { hsound with
    pending := fun entry hentry hdone =>
      hsound.pending entry hentry fun hmem => hdone (List.mem_append_left _ hmem)
    blocked := fun entry hentry =>
      (hsound.blocked entry hentry).imp_right (List.mem_append_left _)
    sent := by
      intro entry hentry
      refine ⟨(hsound.sent entry hentry).1, ?_⟩
      rw [List.mem_append, List.mem_singleton, not_or]
      exact ⟨(hsound.sent entry hentry).2, hwire entry hentry⟩
    once := by
      rw [List.nodup_append]
      refine ⟨hsound.once, by simp, ?_⟩
      intro first hfirst second hsecond heq
      rw [← List.mem_singleton.mp hsecond, ← heq] at hpending
      exact hpending hfirst }

end Places

theorem Sound.dequeue (hsound : Sound running responses (entry :: queued) wire called completed) :
    Sound running responses queued wire called completed :=
  { hsound with
    flight := (List.nodup_cons.mp hsound.flight).2
    calls := fun other hother => hsound.calls other (List.mem_cons_of_mem _ hother)
    blocked := fun other hother => hsound.blocked other (List.mem_cons_of_mem _ hother) }

theorem Sound.not_sent (hsound : Sound running responses (entry :: queued) wire called completed) :
    ∀ other ∈ wire, other.2 ≠ entry.2 := by
  intro other hother heq
  apply (List.nodup_cons.mp hsound.flight).1
  exact List.mem_map.mpr ⟨other, List.mem_append_right _ hother, heq⟩

theorem Sound.write (hsound : Sound running responses (entry :: queued) wire called completed)
    (hpending : entry.2 ∉ completed) :
    Sound running responses queued (wire ++ [entry]) called completed :=
  { hsound with
    flight := by
      have hperm : (queued ++ (wire ++ [entry])).Perm (entry :: queued ++ wire) := by
        rw [← List.append_assoc]
        exact List.perm_append_singleton _ _
      exact ((hperm.map Prod.snd).nodup_iff).mpr hsound.flight
    calls := by
      intro other hother
      rw [← List.append_assoc] at hother
      exact hsound.calls other ((List.perm_append_singleton _ _).mem_iff.mp hother)
    blocked := fun other hother => hsound.blocked other (List.mem_cons_of_mem _ hother)
    sent := by
      intro other hother
      rcases List.mem_append.mp hother with hold | hnew
      · exact hsound.sent other hold
      · rw [List.mem_singleton.mp hnew]
        have hrunning := (hsound.blocked entry (List.mem_cons_self)).resolve_right hpending
        exact ⟨hrunning, hpending⟩ }

theorem Sound.answer (hsound : Sound running responses queued (entry :: wire) called completed) :
    Sound running responses queued wire called completed ∧
      ∀ other ∈ wire, other.2 ≠ entry.2 := by
  have hperm : (queued ++ entry :: wire).Perm (entry :: (queued ++ wire)) := List.perm_middle
  have hnodup := List.nodup_cons.mp (((hperm.map Prod.snd).nodup_iff).mp hsound.flight)
  refine ⟨⟨hsound.ids, hsound.registered, hsound.pending, hnodup.2, ?_, hsound.blocked, ?_,
    hsound.once⟩, ?_⟩
  · intro other hother
    exact hsound.calls other (hperm.mem_iff.mpr (List.mem_cons_of_mem _ hother))
  · intro other hother
    exact hsound.sent other (List.mem_cons_of_mem _ hother)
  · intro other hother heq
    apply hnodup.1
    exact List.mem_map.mpr ⟨other, List.mem_append_right _ hother, heq⟩

theorem Sound.find (hsound : Sound running responses queued wire called completed)
    (hentry : entry ∈ wire) :
    responses.find? (fun other => other.1 == entry.1) = some entry := by
  obtain ⟨hrunning, hpending⟩ := hsound.sent entry hentry
  have hregistered := hsound.pending entry hrunning hpending
  cases hfind : responses.find? fun other => other.1 == entry.1 with
  | none =>
      have hnone := List.find?_eq_none.mp hfind entry hregistered
      simp at hnone
  | some other =>
      have hid := List.find?_some hfind
      have hother := hsound.registered other (List.mem_of_find?_eq_some hfind)
      rw [hsound.eq_of_id hother hrunning (beq_iff_eq.mp hid)]

theorem Sound.finish (hsound : Sound running responses queued wire called completed)
    (hrunning : entry ∈ running) (hdone : entry.2 ∈ completed) :
    Sound (running.erase entry) (responses.filter fun other => other.1 != entry.1) queued wire
      called completed :=
  { hsound with
    ids := hsound.ids.sublist (List.erase_sublist.map _)
    registered := by
      intro other hother
      obtain ⟨hmem, hid⟩ := List.mem_filter.mp hother
      apply (List.mem_erase_of_ne ?_).mpr (hsound.registered other hmem)
      rintro rfl
      simp at hid
    pending := by
      intro other hother hpending
      have hmem := List.mem_of_mem_erase hother
      refine List.mem_filter.mpr ⟨hsound.pending other hmem hpending, bne_iff_ne.mpr ?_⟩
      intro hid
      rw [hsound.eq_of_id hmem hrunning hid] at hpending
      exact hpending hdone
    blocked := by
      intro other hother
      by_cases hsame : other = entry
      · exact .inr (hsame ▸ hdone)
      · exact (hsound.blocked other hother).imp_left (List.mem_erase_of_ne hsame).mpr
    sent := by
      intro other hother
      obtain ⟨hmem, hpending⟩ := hsound.sent other hother
      refine ⟨(List.mem_erase_of_ne ?_).mpr hmem, hpending⟩
      rintro rfl
      exact hpending hdone }

theorem Sound.remove (hsound : Sound running responses queued wire called completed)
    (hdone : entry.2 ∈ completed) :
    Sound running (responses.erase entry) queued wire called completed :=
  { hsound with
    registered := fun other hother => hsound.registered other (List.mem_of_mem_erase hother)
    pending := by
      intro other hother hpending
      apply (List.mem_erase_of_ne ?_).mpr (hsound.pending other hother hpending)
      rintro rfl
      exact hpending hdone }

theorem Sound.close (hsound : Sound running responses queued wire called completed) :
    Sound running responses queued [] called completed :=
  { hsound with
    flight := by
      have hflight := hsound.flight
      rw [List.map_append] at hflight
      rw [List.append_nil]
      exact (List.nodup_append.mp hflight).1
    calls := fun entry hentry =>
      hsound.calls entry (List.mem_append_left _ (by simpa using hentry))
    sent := by simp }

end Bookkeeping

/-! ### The invariant of the machine -/

def closing : Option Handler → Bool
  | some (.notifying _ aborting) => aborting
  | some .aborting => true
  | some .thrown | none => false

structure Inv (state : State) : Prop where
  sound : Sound state.running state.asyncResponses (notified state.handler ++ state.waiting)
    state.wire state.called state.completed
  -- nothing is written between the loss of the connection and the end of the handler
  closed : closing state.handler = true → state.conn ≠ .connected ∧ state.wire = []

theorem start_inv : Inv start where
  sound := by constructor <;> simp [start, notified]
  closed := by simp [start, closing]

variable {state : State}

theorem trySend_inv {entry : Entry} (writeFails : Bool)
    (hsound : Sound state.running state.asyncResponses
      (entry :: (notified state.handler ++ state.waiting)) state.wire state.called
      state.completed)
    (hclosed : closing state.handler = true → state.conn ≠ .connected ∧ state.wire = [])
    (htidy : entry.2 ∉ state.completed) : Inv (trySend state entry writeFails) := by
  unfold trySend
  split
  · refine ⟨?_, hclosed⟩
    apply hsound.of_perm ?_ (List.Perm.refl _)
    change List.Perm _ (notified state.handler ++ (state.waiting ++ [entry]))
    rw [← List.append_assoc]
    exact (List.perm_append_singleton _ _).symm
  · have haborted := hsound.dequeue.complete htidy hsound.not_sent
    split
    · exact ⟨haborted, hclosed⟩
    · rename_i hconnected
      split
      · exact ⟨haborted, hclosed⟩
      · refine ⟨hsound.write htidy, ?_⟩
        intro hclosing
        exact absurd (hclosed hclosing).1 hconnected

theorem startAsyncRequest_inv {id : UInt32} (hinv : Inv state)
    (hfresh : state.fresh id = true) : Inv (startAsyncRequest state id) := by
  unfold startAsyncRequest
  split
  · exact hinv
  · rename_i hfree
    refine ⟨hinv.sound.start ?_, hinv.closed⟩
    intro entry hentry hid
    have hcase := List.all_eq_true.mp hfresh entry hentry
    rw [hid, bne_self_eq_false, Bool.false_or, List.contains_iff_mem] at hcase
    exact hfree (List.any_eq_true.mpr ⟨entry, hcase, beq_iff_eq.mpr hid⟩)

theorem receive_inv {entry : Entry} (resume : Bool) (hinv : Inv state)
    (hentry : entry ∈ state.wire) :
    Inv (onAsyncResponse { state with wire := state.wire.erase entry } entry.1 resume) := by
  have hfind := hinv.sound.find hentry
  have hpending := (hinv.sound.sent entry hentry).2
  have hanswer := (hinv.sound.of_perm (List.Perm.refl _) (List.perm_cons_erase hentry)).answer
  simp only [onAsyncResponse, hfind]
  refine ⟨hanswer.1.complete hpending hanswer.2, ?_⟩
  intro hclosing
  rw [(hinv.closed hclosing).2] at hentry
  contradiction

theorem abort_inv {entry : Entry} (resume : Bool) (hinv : Inv state)
    (hhandler : state.handler = some .aborting) (hpending : entry.2 ∉ state.completed) :
    Inv ({ state with
      asyncResponses := state.asyncResponses.erase entry }.complete entry.2 resume) := by
  have hwire : state.wire = [] := (hinv.closed (by rw [hhandler]; rfl)).2
  have hdone : entry.2 ∈ state.completed ++ [entry.2] :=
    List.mem_append_right _ (List.mem_singleton_self _)
  refine ⟨(hinv.sound.complete hpending ?_).remove hdone, hinv.closed⟩
  rw [hwire]
  simp

theorem advance_inv {after : State} (hinv : Inv state)
    (hnext : next state .advance = some after) : Inv after := by
  have hsound := hinv.sound
  have hclosed := hinv.closed
  simp only [next] at hnext
  split at hnext
  · split at hnext
    · rename_i hhandler
      cases hnext
      rw [hhandler] at hsound
      exact ⟨hsound, nofun⟩
    · rename_i hhandler
      cases hnext
      rw [hhandler] at hsound hclosed
      exact ⟨hsound, fun _ => hclosed rfl⟩
    · rename_i hhandler
      split at hnext
      · cases hnext
        rw [hhandler] at hsound
        exact ⟨hsound, nofun⟩
      · contradiction
    · contradiction
  · contradiction

theorem next_inv {after : State} {label : Label} (hinv : Inv state) (htidy : Tidy state label)
    (hnext : next state label = some after) : Inv after := by
  cases label with
  | advance => exact advance_inv hinv hnext
  | spawn | suspend =>
      obtain ⟨_, ⟨⟩⟩ := Option.ite_none_right_eq_some.mp hnext
      exact ⟨hinv.sound, hinv.closed⟩
  | notify writeFails =>
      simp only [next] at hnext
      split at hnext
      · rename_i entry rest aborting hhandler
        obtain ⟨_, ⟨⟩⟩ := Option.ite_none_right_eq_some.mp hnext
        have hsound := hinv.sound
        have hclosed := hinv.closed
        rw [hhandler] at hsound hclosed
        exact trySend_inv writeFails hsound hclosed (htidy entry (by simp [notified, hhandler]))
      · contradiction
  | startAsyncRequest id =>
      obtain ⟨⟨_, hfresh⟩, ⟨⟩⟩ := Option.ite_none_right_eq_some.mp hnext
      exact startAsyncRequest_inv hinv hfresh
  | sendAsyncRequest entry writeFails =>
      obtain ⟨⟨_, hrunning, hcalled⟩, ⟨⟩⟩ := Option.ite_none_right_eq_some.mp hnext
      exact trySend_inv writeFails (hinv.sound.call hrunning hcalled) hinv.closed htidy
  | completeAsyncRequest entry =>
      obtain ⟨⟨_, hrunning, hdone⟩, ⟨⟩⟩ := Option.ite_none_right_eq_some.mp hnext
      exact ⟨hinv.sound.finish hrunning hdone, hinv.closed⟩
  | connect | shutdown =>
      obtain ⟨_, ⟨⟩⟩ := Option.ite_none_right_eq_some.mp hnext
      exact ⟨hinv.sound, fun hclosing => ⟨by simp, (hinv.closed hclosing).2⟩⟩
  | connected =>
      obtain ⟨⟨hidle, _⟩, ⟨⟩⟩ := Option.ite_none_right_eq_some.mp hnext
      refine ⟨?_, nofun⟩
      have hsound := hinv.sound
      rw [(of_decide_eq_true hidle).2] at hsound
      exact hsound.of_perm (by simp [notified]) (List.Perm.refl _)
  | connectFailed =>
      obtain ⟨⟨hidle, _⟩, ⟨⟩⟩ := Option.ite_none_right_eq_some.mp hnext
      have hsound := hinv.sound
      rw [(of_decide_eq_true hidle).2] at hsound
      exact ⟨hsound, nofun⟩
  | disconnected =>
      obtain ⟨⟨hidle, _⟩, ⟨⟩⟩ := Option.ite_none_right_eq_some.mp hnext
      refine ⟨?_, fun _ => ⟨by simp, rfl⟩⟩
      have hsound := hinv.sound
      rw [(of_decide_eq_true hidle).2] at hsound
      exact hsound.close.of_perm (by simp [notified]) (List.Perm.refl _)
  | receive entry resume =>
      obtain ⟨⟨_, hentry⟩, ⟨⟩⟩ := Option.ite_none_right_eq_some.mp hnext
      exact receive_inv resume hinv hentry
  | abort entry resume =>
      obtain ⟨⟨_, hhandler, hregistered⟩, ⟨⟩⟩ := Option.ite_none_right_eq_some.mp hnext
      refine abort_inv resume hinv hhandler fun hdone => ?_
      exact htidy entry (hinv.sound.registered entry hregistered) hdone hregistered

theorem reachable_inv (hreach : machine.ReachableUnder Tidy state) :
    Inv state := by
  apply hreach.invariant Inv
  · rintro _ rfl
    exact start_inv
  · intro state label after hinv htidy hnext
    exact next_inv hinv htidy hnext

/-! ### Completions -/

theorem trySend_completed (state : State) (entry : Entry) (writeFails : Bool) :
    (trySend state entry writeFails).completed = state.completed ∨
      (trySend state entry writeFails).completed = state.completed ++ [entry.2] := by
  unfold trySend State.complete
  split <;> [left; split <;> [right; split <;> [right; left]]] <;> rfl

theorem not_nodup_of_done {completed : List Nat} {request : Nat} (hdone : request ∈ completed) :
    ¬ (completed ++ [request]).Nodup := by
  intro hnodup
  exact (List.nodup_append.mp hnodup).2.2 request hdone request (List.mem_singleton_self _) rfl

/-- Where the owners do not keep to it and a response is completed, a response that is done
can be completed: by the send itself, or by the loop, which may start with any entry. -/
theorem completes_done {after : State} {label : Label} (huntidy : ¬ Tidy state label)
    (hnext : next state label = some after) (hchanged : after.completed ≠ state.completed) :
    ∃ other result, next state other = some result ∧ ¬ result.completed.Nodup := by
  cases label with
  | sendAsyncRequest entry writeFails =>
      have hdone := Classical.not_not.mp huntidy
      refine ⟨_, after, hnext, ?_⟩
      obtain ⟨_, ⟨⟩⟩ := Option.ite_none_right_eq_some.mp hnext
      rw [(trySend_completed _ entry writeFails).resolve_left hchanged]
      exact not_nodup_of_done hdone
  | notify writeFails =>
      refine ⟨_, after, hnext, ?_⟩
      simp only [next] at hnext
      split at hnext
      · rename_i entry rest aborting hhandler
        have hdone : entry.2 ∈ state.completed := by
          simpa [Tidy, notified, hhandler] using huntidy
        obtain ⟨_, ⟨⟩⟩ := Option.ite_none_right_eq_some.mp hnext
        rw [(trySend_completed _ entry writeFails).resolve_left hchanged]
        exact not_nodup_of_done hdone
      · contradiction
  | abort entry resume =>
      obtain ⟨⟨hfibers, hhandler, _⟩, _⟩ := Option.ite_none_right_eq_some.mp hnext
      have hleft : ∃ done ∈ state.running, done.2 ∈ state.completed ∧
          done ∈ state.asyncResponses := by
        simpa [Tidy] using huntidy
      obtain ⟨done, _, hdone, hregistered⟩ := hleft
      exact ⟨.abort done resume, _, if_pos ⟨hfibers, hhandler, hregistered⟩,
        not_nodup_of_done hdone⟩
  | spawn | suspend | startAsyncRequest _ | completeAsyncRequest _ | connect | shutdown
  | connected | connectFailed | disconnected | receive _ _ | advance =>
      exact absurd trivial huntidy

/-- In a run in which the owners remove what is done before a round of the last loop of
`onSocketDisconnected`, and send nothing that is done, no response is completed twice.
Conversely, at the first step at which they do not and a response is completed, a response
that is done can be. -/
theorem async_responses_complete_once (state : State)
    (hreach : machine.ReachableUnder Tidy state) :
    state.completed.Nodup ∧
      ∀ label after, next state label = some after →
        (Tidy state label → after.completed.Nodup) ∧
        (¬ Tidy state label → after.completed ≠ state.completed →
          ∃ other result, next state other = some result ∧ ¬ result.completed.Nodup) := by
  have hinv := reachable_inv hreach
  refine ⟨hinv.sound.once, ?_⟩
  intro label after hnext
  exact ⟨fun htidy => (next_inv hinv htidy hnext).sound.once,
    fun huntidy => completes_done huntidy hnext⟩

def sendFirst : List Label :=
  [.spawn, .connect, .suspend, .connected, .advance, .spawn, .startAsyncRequest 1,
    .sendAsyncRequest (1, 0) false, .suspend]

/-- The first response is answered and removed by its owner. A second request is sent,
its connection is lost and the loop aborts it; a third one is refused and removed. -/
def tidySchedule : List Label :=
  sendFirst ++ [.receive (1, 0) true, .completeAsyncRequest (1, 0), .startAsyncRequest 1,
    .sendAsyncRequest (1, 1) false, .suspend, .disconnected, .advance, .abort (1, 1) true,
    .completeAsyncRequest (1, 1), .startAsyncRequest 2, .sendAsyncRequest (2, 2) false,
    .completeAsyncRequest (2, 2), .suspend, .advance]

theorem tidy_owners_complete_once :
    ∃ state, machine.ReachableUnder Tidy state ∧ state.completed = [0, 1, 2] ∧
      state.completed.Nodup := by
  obtain ⟨state, hreach, htest⟩ := machine.exists_reachableUnder_of_replay Tidy
    start tidySchedule
    (fun state => state.completed == [0, 1, 2])
    rfl (by decide +kernel)
  exact ⟨state, hreach, beq_iff_eq.mp htest, (async_responses_complete_once state hreach).1⟩

/-- The answer arrives, and the connection is lost before the owner removes the
response: the loop aborts it again. -/
def answeredThenAborted : List Label :=
  sendFirst ++ [.receive (1, 0) false, .disconnected, .advance, .abort (1, 0) false]

/-- The connection is lost between `startAsyncRequest` and `sendAsyncRequest`: the loop
aborts the response, and the refused send aborts it again. -/
def abortedThenRefused : List Label :=
  [.spawn, .connect, .suspend, .connected, .advance, .spawn, .startAsyncRequest 1, .suspend,
    .disconnected, .advance, .abort (1, 0) false, .advance, .spawn,
    .sendAsyncRequest (1, 0) false]

theorem reachable_of_schedule {labels : List Label} {completed : List Nat}
    (hreplay : (machine.replay (fun _ _ => true) start labels).map State.completed =
      some completed) :
    ∃ state, machine.replay (fun _ _ => true) start labels = some state ∧
      machine.Reachable state ∧ state.completed = completed := by
  obtain ⟨state, hstate, hcompleted⟩ := Option.map_eq_some_iff.mp hreplay
  have hpath := Machine.path_of_replay (fun _ _ _ => trivial) hstate
  exact ⟨state, hstate, ⟨start, rfl, hpath⟩, hcompleted⟩

theorem response_completed_twice :
    (∃ state, machine.replay (fun _ _ => true) start answeredThenAborted = some state ∧
      machine.Reachable state ∧ state.completed = [0, 0]) ∧
    ∃ state, machine.replay (fun _ _ => true) start abortedThenRefused = some state ∧
      machine.Reachable state ∧ state.completed = [0, 0] := by
  constructor
  · apply reachable_of_schedule
    decide +kernel
  · apply reachable_of_schedule
    decide +kernel

end Crossbow.Infinio.AsyncRequests
