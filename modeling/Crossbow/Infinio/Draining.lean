import Crossbow.Infinio.CompletionContext

/-! Draining a connection. A connection that left the timewait state gets no further
completion, and `poll` takes the draining queue before it polls the completion queue. As
long as one batch takes all completions that wait, the handler sees every completion of the
connection, each once and in order, before it is told that the connection is gone. -/
namespace Crossbow.Infinio.CompletionContext
open Kernel SendBufferPool MemoryRegion

section Invariant

variable {Ctx Sock : Type}

/-- The completion queue was polled since the draining queue was taken. -/
def Stage.polled : Stage Sock → Bool
  | .idle | .swapped _ => false
  | .loop _ _ | .handler _ _ _ => true

def Stage.polls : Stage Sock → Bool
  | .swapped _ => true
  | .idle | .loop _ _ | .handler _ _ _ => false

def Context.leaving (context : Context Sock) : List Sock :=
  context.stage.draining ++ context.drainingQueue ++ context.tasks

def Context.pendingOf (context : Context Sock) : Option Nat → List Completion
  | none => []
  | some qpNum => context.pending.filter fun wc => wc.qpNum = qpNum

def Socket.ending (socket : Socket) : List Call :=
  if socket.exited ∧ socket.qp = none then [.onDisconnected] else []

/-- What is assumed of the device and of the callers: polling does not fail, numbers of
queue pairs are not reused while they are in use, never more than `completionQueueLength`
completions wait in a queue (`ibv_create_cq` may create a larger one), and `removeConnection`
and `drainConnection` are called as their comments demand. -/
def Admits (device : Device) (home : Sock → Ctx) (state : State Ctx Sock) :
    Label Ctx Sock → Prop
  | .advance ctx fault => (state.contexts ctx).stage.polls = true → fault = false
  | .addConnection sock qpNum =>
      (state.sockets sock).exited = false ∧ ∀ other, (state.sockets other).qp ≠ some qpNum
  | .removeConnection sock =>
      (state.sockets sock).exited = false ∧
        (state.contexts (home sock)).pendingOf (state.sockets sock).qp = []
  | .receive sock _ _ _ _ _ | .complete sock _ _ =>
      (state.sockets sock).exited = false ∧
        (state.contexts (home sock)).completionQueue.length < device.completionQueueLength
  | .timewaitExit sock => (state.sockets sock).exited = false ∧ (state.sockets sock).qp ≠ none
  | .drain _ => True

structure Sound (device : Device) (home : Sock → Ctx) (sockets : Sock → Socket) (ctx : Ctx)
    (context : Context Sock) : Prop where
  mapped : ∀ qpNum sock, context.socketMap qpNum = some sock ↔
    home sock = ctx ∧ (sockets sock).qp = some qpNum
  known : ∀ wc ∈ context.pending, context.socketMap wc.qpNum ≠ none
  length : context.completionQueue.length ≤ device.completionQueueLength
  leaving : ∀ sock ∈ context.leaving,
    home sock = ctx ∧ (sockets sock).exited = true ∧ (sockets sock).qp ≠ none
  nodup : context.leaving.Nodup
  settled : context.stage.polled = true → ∀ sock ∈ context.stage.draining,
    ∀ wc ∈ context.completionQueue, (sockets sock).qp ≠ some wc.qpNum

/-- The completions of a socket were delivered up to those that are pending. -/
def Recorded (device : Device) (context : Context Sock) (socket : Socket) : Prop :=
  ∃ delivered, socket.entered = delivered ++ context.pendingOf socket.qp ∧
    socket.calls = delivered.filterMap device.call ++ socket.ending

structure Drains (device : Device) (home : Sock → Ctx) (state : State Ctx Sock) : Prop where
  sound : ∀ ctx, Sound device home state.sockets ctx (state.contexts ctx)
  recorded : ∀ sock, Recorded device (state.contexts (home sock)) (state.sockets sock)

theorem Context.mem_leaving_of_draining {context : Context Sock} {sock : Sock}
    (hmem : sock ∈ context.stage.draining) : sock ∈ context.leaving :=
  List.mem_append_left _ (List.mem_append_left _ hmem)

theorem pendingOf_congr {context context' : Context Sock}
    (hpending : context'.pending = context.pending) : context'.pendingOf = context.pendingOf := by
  funext qp
  cases qp with
  | none => rfl
  | some qpNum => simp only [Context.pendingOf, hpending]

end Invariant

section Frames

variable {Ctx Sock : Type} [DecidableEq Ctx] [DecidableEq Sock] {device : Device}
  {home : Sock → Ctx} {state after : State Ctx Sock} {sockets : Sock → Socket} {ctx : Ctx}
  {context : Context Sock} {sock : Sock} {socket : Socket}

omit [DecidableEq Ctx] [DecidableEq Sock] in
theorem Sound.same_socket (hsound : Sound device home sockets ctx context) {other : Sock}
    (hsock : home sock = ctx) (hother : home other = ctx) {qpNum : Nat}
    (hqp : (sockets sock).qp = some qpNum) (hsame : (sockets other).qp = some qpNum) :
    other = sock := by
  have hfirst := (hsound.mapped qpNum sock).mpr ⟨hsock, hqp⟩
  rw [(hsound.mapped qpNum other).mpr ⟨hother, hsame⟩] at hfirst
  exact Option.some.inj hfirst

omit [DecidableEq Ctx] in
theorem Sound.update (hsound : Sound device home sockets ctx context)
    (hleaving : sock ∉ context.leaving) {socketMap : Nat → Option Sock}
    (hmapped : ∀ qpNum other, socketMap qpNum = some other ↔
      home other = ctx ∧ (Function.update sockets sock socket other).qp = some qpNum)
    (hknown : ∀ wc ∈ context.pending, socketMap wc.qpNum ≠ none) :
    Sound device home (Function.update sockets sock socket) ctx
      { context with socketMap := socketMap } where
  mapped := hmapped
  known := hknown
  length := hsound.length
  leaving := by
    intro other hother
    have hne : other ≠ sock := fun heq => hleaving (heq ▸ hother)
    rw [Function.update_of_ne hne]
    exact hsound.leaving other hother
  nodup := hsound.nodup
  settled := by
    intro hpolled other hother
    have hne : other ≠ sock := fun heq =>
      hleaving (heq ▸ Context.mem_leaving_of_draining hother)
    rw [Function.update_of_ne hne]
    exact hsound.settled hpolled other hother

omit [DecidableEq Ctx] in
theorem Sound.elsewhere (hsound : Sound device home sockets ctx context) (hhome : home sock ≠ ctx) :
    Sound device home (Function.update sockets sock socket) ctx context := by
  refine hsound.update (fun hmem => hhome (hsound.leaving sock hmem).1) ?_ hsound.known
  intro qpNum other
  rw [hsound.mapped]
  by_cases hother : other = sock
  · rw [hother]
    exact iff_of_false (fun hboth => hhome hboth.1) (fun hboth => hhome hboth.1)
  · rw [Function.update_of_ne hother]

theorem Drains.update (hdrains : Drains device home state) (sock : Sock)
    (hcontexts : after.contexts = Function.update state.contexts (home sock) context)
    (hsockets : after.sockets = Function.update state.sockets sock socket)
    (hsound : Sound device home (Function.update state.sockets sock socket) (home sock) context)
    (hrecorded : Recorded device context socket)
    (hothers : ∀ other, other ≠ sock → home other = home sock →
      context.pendingOf (state.sockets other).qp =
        (state.contexts (home sock)).pendingOf (state.sockets other).qp) :
    Drains device home after where
  sound := by
    intro ctx
    rw [hcontexts, hsockets]
    by_cases hctx : ctx = home sock
    · rw [hctx, Function.update_self]
      exact hsound
    · rw [Function.update_of_ne hctx]
      exact (hdrains.sound ctx).elsewhere (Ne.symm hctx)
  recorded := by
    intro other
    rw [hcontexts, hsockets]
    by_cases hother : other = sock
    · rw [hother, Function.update_self, Function.update_self]
      exact hrecorded
    · rw [Function.update_of_ne hother]
      by_cases hhome : home other = home sock
      · rw [hhome, Function.update_self]
        unfold Recorded
        rw [hothers other hother hhome, ← hhome]
        exact hdrains.recorded other
      · rw [Function.update_of_ne hhome]
        exact hdrains.recorded other

omit [DecidableEq Sock] in
theorem Drains.reschedule (hdrains : Drains device home state)
    (hcontexts : after.contexts = Function.update state.contexts ctx context)
    (hsockets : after.sockets = state.sockets)
    (hmap : context.socketMap = (state.contexts ctx).socketMap)
    (hpending : context.pending = (state.contexts ctx).pending)
    (hlength : context.completionQueue.length ≤ (state.contexts ctx).completionQueue.length)
    (hleaving : context.leaving = (state.contexts ctx).leaving)
    (hsettled : context.stage.polled = true → ∀ sock ∈ context.stage.draining,
      ∀ wc ∈ context.completionQueue, (state.sockets sock).qp ≠ some wc.qpNum) :
    Drains device home after where
  sound := by
    intro other
    have hsound := hdrains.sound other
    rw [hcontexts, hsockets]
    by_cases hother : other = ctx
    · subst hother
      rw [Function.update_self]
      refine ⟨?_, ?_, hlength.trans hsound.length, ?_, ?_, hsettled⟩
      · rw [hmap]
        exact hsound.mapped
      · rw [hmap, hpending]
        exact hsound.known
      · rw [hleaving]
        exact hsound.leaving
      · rw [hleaving]
        exact hsound.nodup
    · rw [Function.update_of_ne hother]
      exact hsound
  recorded := by
    intro sock
    rw [hcontexts, hsockets]
    by_cases hhome : home sock = ctx
    · rw [hhome, Function.update_self]
      unfold Recorded
      rw [pendingOf_congr hpending, ← hhome]
      exact hdrains.recorded sock
    · rw [Function.update_of_ne hhome]
      exact hdrains.recorded sock

end Frames

section Sockets

variable {Ctx Sock : Type} [DecidableEq Sock] {device : Device} {home : Sock → Ctx}
  {sockets : Sock → Socket} {ctx : Ctx} {context : Context Sock} {sock : Sock} {socket : Socket}
  {qpNum : Nat} {wc : Completion}

omit [DecidableEq Sock] in
theorem Sound.not_leaving (hsound : Sound device home sockets ctx context)
    (hexited : (sockets sock).exited = false) : sock ∉ context.leaving := by
  intro hmem
  rw [(hsound.leaving sock hmem).2.1] at hexited
  contradiction

omit [DecidableEq Sock] in
theorem ending_of_qp (hqp : socket.qp ≠ none) : socket.ending = [] :=
  if_neg fun hboth => hqp hboth.2

omit [DecidableEq Sock] in
theorem ending_of_not_exited (hexited : socket.exited = false) : socket.ending = [] := by
  unfold Socket.ending
  rw [hexited]
  rfl

omit [DecidableEq Sock] in
theorem pendingOf_eq_nil_iff :
    context.pendingOf (some qpNum) = [] ↔ ∀ wc ∈ context.pending, wc.qpNum ≠ qpNum := by
  simp [Context.pendingOf, List.filter_eq_nil_iff]

section Contexts

variable (hsound : Sound device home sockets ctx context)
include hsound

theorem Sound.setSocket (hqp : socket.qp = (sockets sock).qp)
    (hexited : socket.exited = (sockets sock).exited) :
    Sound device home (Function.update sockets sock socket) ctx context := by
  have hqps (other : Sock) : (Function.update sockets sock socket other).qp =
      (sockets other).qp := by
    by_cases hother : other = sock
    · rw [hother, Function.update_self, hqp]
    · rw [Function.update_of_ne hother]
  have hexits (other : Sock) : (Function.update sockets sock socket other).exited =
      (sockets other).exited := by
    by_cases hother : other = sock
    · rw [hother, Function.update_self, hexited]
    · rw [Function.update_of_ne hother]
  refine ⟨?_, hsound.known, hsound.length, ?_, hsound.nodup, ?_⟩
  · intro number other
    rw [hqps]
    exact hsound.mapped number other
  · intro other
    rw [hqps, hexits]
    exact hsound.leaving other
  · intro hpolled other
    rw [hqps]
    exact hsound.settled hpolled other

omit [DecidableEq Sock] in
theorem Sound.take {stage : Stage Sock} {rest : List Completion} {draining : List Sock}
    (hstage : context.stage = .loop draining (wc :: rest)) (hdraining : stage.draining = draining)
    (hrest : stage.completions = rest) :
    Sound device home sockets ctx { context with stage := stage } where
  mapped := hsound.mapped
  known := by
    intro other hother
    apply hsound.known other
    unfold Context.pending at hother ⊢
    rw [hstage]
    rw [hrest] at hother
    exact List.mem_cons_of_mem _ hother
  length := hsound.length
  leaving := by
    have hleaving := hsound.leaving
    unfold Context.leaving at hleaving ⊢
    rw [hdraining]
    rw [hstage] at hleaving
    exact hleaving
  nodup := by
    have hnodup := hsound.nodup
    unfold Context.leaving at hnodup ⊢
    rw [hdraining]
    rw [hstage] at hnodup
    exact hnodup
  settled := by
    have hsettled := hsound.settled
    rw [hstage] at hsettled
    intro _
    rw [hdraining]
    exact hsettled rfl

omit [DecidableEq Sock] in
theorem Sound.pop {draining : List Sock} (hstage : context.stage = .loop (sock :: draining) []) :
    Sound device home sockets ctx { context with stage := .loop draining [] } ∧
      sock ∉ ({ context with stage := .loop draining [] } : Context Sock).leaving := by
  have hleaving : context.leaving = sock ::
      ({ context with stage := .loop draining [] } : Context Sock).leaving := by
    unfold Context.leaving
    rw [hstage]
    rfl
  have hnodup := hsound.nodup
  rw [hleaving, List.nodup_cons] at hnodup
  refine ⟨⟨hsound.mapped, ?_, hsound.length, ?_, hnodup.2, ?_⟩, hnodup.1⟩
  · have hknown := hsound.known
    unfold Context.pending at hknown ⊢
    rw [hstage] at hknown
    exact hknown
  · intro other hother
    apply hsound.leaving other
    rw [hleaving]
    exact List.mem_cons_of_mem _ hother
  · intro _ other hother
    have hsettled := hsound.settled
    rw [hstage] at hsettled
    exact hsettled rfl other (List.mem_cons_of_mem _ hother)

theorem Sound.remove (hhome : home sock = ctx) (hqp : (sockets sock).qp = some qpNum)
    (hnone : context.pendingOf (some qpNum) = []) (hleaving : sock ∉ context.leaving)
    (socket : Socket) (hremoved : socket.qp = none) :
    Sound device home (Function.update sockets sock socket) ctx
      { context with socketMap := Function.update context.socketMap qpNum none } := by
  refine hsound.update hleaving ?_ ?_
  · intro number other
    by_cases hother : other = sock
    · rw [hother, Function.update_self, hremoved]
      refine iff_of_false ?_ (fun hboth => nomatch hboth.2)
      by_cases hnumber : number = qpNum
      · rw [hnumber, Function.update_self]
        nofun
      · rw [Function.update_of_ne hnumber, hsound.mapped, hqp]
        exact fun hboth => hnumber (Option.some.inj hboth.2).symm
    · rw [Function.update_of_ne hother]
      by_cases hnumber : number = qpNum
      · rw [hnumber, Function.update_self]
        refine iff_of_false nofun ?_
        rintro ⟨hsame, hother'⟩
        exact hother (hsound.same_socket hhome hsame hqp hother')
      · rw [Function.update_of_ne hnumber]
        exact hsound.mapped number other
  · intro wc hwc
    rw [Function.update_of_ne (pendingOf_eq_nil_iff.mp hnone wc hwc)]
    exact hsound.known wc hwc

theorem Sound.add (hhome : home sock = ctx) (hexited : (sockets sock).exited = false)
    (hqp : (sockets sock).qp = none) (hfresh : context.socketMap qpNum = none)
    (hadded : socket.qp = some qpNum) :
    Sound device home (Function.update sockets sock socket) ctx
      { context with socketMap := Function.update context.socketMap qpNum (some sock) } := by
  refine hsound.update (hsound.not_leaving hexited) ?_ ?_
  · intro number other
    by_cases hother : other = sock
    · rw [hother, Function.update_self, hadded]
      by_cases hnumber : number = qpNum
      · rw [hnumber, Function.update_self]
        simp [hhome]
      · rw [Function.update_of_ne hnumber, hsound.mapped, hqp]
        exact iff_of_false (fun hboth => nomatch hboth.2)
          (fun hboth => hnumber (Option.some.inj hboth.2).symm)
    · rw [Function.update_of_ne hother]
      by_cases hnumber : number = qpNum
      · rw [hnumber, Function.update_self, ← hsound.mapped, hfresh]
        exact iff_of_false (fun heq => hother (Option.some.inj heq).symm) nofun
      · rw [Function.update_of_ne hnumber]
        exact hsound.mapped number other
  · intro wc hwc
    by_cases hnumber : wc.qpNum = qpNum
    · rw [hnumber, Function.update_self]
      nofun
    · rw [Function.update_of_ne hnumber]
      exact hsound.known wc hwc

omit [DecidableEq Sock] in
theorem Sound.enter (hhome : home sock = ctx) (hqp : (sockets sock).qp = some wc.qpNum)
    (hexited : (sockets sock).exited = false)
    (hroom : context.completionQueue.length < device.completionQueueLength) :
    Sound device home sockets ctx
      { context with completionQueue := context.completionQueue ++ [wc] } where
  mapped := hsound.mapped
  known := by
    intro other hother
    unfold Context.pending at hother
    rw [← List.append_assoc] at hother
    rcases List.mem_append.mp hother with hold | hnew
    · exact hsound.known other hold
    · rw [List.mem_singleton.mp hnew, (hsound.mapped wc.qpNum sock).mpr ⟨hhome, hqp⟩]
      nofun
  length := by
    rw [List.length_append]
    exact hroom
  leaving := hsound.leaving
  nodup := hsound.nodup
  settled := by
    intro hpolled other hother entry hentry
    rcases List.mem_append.mp hentry with hold | hnew
    · exact hsound.settled hpolled other hother entry hold
    · rw [List.mem_singleton.mp hnew]
      intro hsame
      have hmem := Context.mem_leaving_of_draining hother
      have heq := hsound.same_socket hhome (hsound.leaving other hmem).1 hqp hsame
      exact hsound.not_leaving hexited (heq ▸ hmem)

theorem Sound.exit (hhome : home sock = ctx) (hexited : (sockets sock).exited = false)
    (hqp : (sockets sock).qp ≠ none) :
    Sound device home
      (Function.update sockets sock { sockets sock with exited := true }) ctx
      { context with tasks := context.tasks ++ [sock] } where
  mapped := by
    intro number other
    rw [hsound.mapped]
    by_cases hother : other = sock
    · rw [hother, Function.update_self]
    · rw [Function.update_of_ne hother]
  known := hsound.known
  length := hsound.length
  leaving := by
    intro other hother
    unfold Context.leaving at hother
    rw [← List.append_assoc] at hother
    by_cases hne : other = sock
    · rw [hne, Function.update_self]
      exact ⟨hhome, rfl, hqp⟩
    · rw [Function.update_of_ne hne]
      rcases List.mem_append.mp hother with hold | hnew
      · exact hsound.leaving other hold
      · exact absurd (List.mem_singleton.mp hnew) hne
  nodup := by
    unfold Context.leaving
    rw [← List.append_assoc, (List.perm_append_singleton _ _).nodup_iff, List.nodup_cons]
    exact ⟨hsound.not_leaving hexited, hsound.nodup⟩
  settled := by
    intro hpolled other hother
    have hne : other ≠ sock := fun heq =>
      hsound.not_leaving hexited (heq ▸ Context.mem_leaving_of_draining hother)
    rw [Function.update_of_ne hne]
    exact hsound.settled hpolled other hother

end Contexts

end Sockets

section Histories

variable {Sock : Type} {device : Device} {context context' : Context Sock} {socket : Socket}
  {qpNum : Nat} {wc : Completion}

theorem pendingOf_cons_self (hpending : context.pending = wc :: context'.pending) :
    context.pendingOf (some wc.qpNum) = wc :: context'.pendingOf (some wc.qpNum) := by
  simp only [Context.pendingOf, hpending, List.filter_cons, decide_true, if_true]

theorem pendingOf_cons_of_ne (hpending : context.pending = wc :: context'.pending)
    {qp : Option Nat} (hne : qp ≠ some wc.qpNum) :
    context.pendingOf qp = context'.pendingOf qp := by
  cases qp with
  | none => rfl
  | some qpNum =>
      have hother : ¬ wc.qpNum = qpNum := fun heq => hne (heq ▸ rfl)
      simp [Context.pendingOf, hpending, hother]

theorem pendingOf_append_self (hpending : context'.pending = context.pending ++ [wc]) :
    context'.pendingOf (some wc.qpNum) = context.pendingOf (some wc.qpNum) ++ [wc] := by
  simp [Context.pendingOf, hpending]

theorem pendingOf_append_of_ne (hpending : context'.pending = context.pending ++ [wc])
    {qp : Option Nat} (hne : qp ≠ some wc.qpNum) :
    context'.pendingOf qp = context.pendingOf qp := by
  cases qp with
  | none => rfl
  | some qpNum =>
      have hother : ¬ wc.qpNum = qpNum := fun heq => hne (heq ▸ rfl)
      simp [Context.pendingOf, hpending, hother]

section Records

variable (hrecorded : Recorded device context socket)
include hrecorded

theorem Recorded.deliver (hqp : socket.qp = some wc.qpNum)
    (hpending : context.pending = wc :: context'.pending) :
    Recorded device context'
      { socket with calls := socket.calls ++ (device.call wc).toList } := by
  obtain ⟨delivered, hentered, hcalls⟩ := hrecorded
  rw [hqp, pendingOf_cons_self hpending] at hentered
  have hsome (calls : List Call) : ({ socket with calls := calls } : Socket).ending = [] :=
    ending_of_qp (hqp ▸ nofun)
  rw [ending_of_qp (hqp ▸ nofun), List.append_nil] at hcalls
  refine ⟨delivered ++ [wc], ?_, ?_⟩
  · dsimp only
    rw [hqp, hentered, List.append_assoc]
    rfl
  · rw [hsome, List.append_nil, List.filterMap_append, hcalls]
    cases hcall : device.call wc <;> simp [hcall]

theorem Recorded.enter (hqp : socket.qp = some wc.qpNum)
    (hpending : context'.pending = context.pending ++ [wc]) :
    Recorded device context' { socket with entered := socket.entered ++ [wc] } := by
  obtain ⟨delivered, hentered, hcalls⟩ := hrecorded
  refine ⟨delivered, ?_, hcalls⟩
  dsimp only
  rw [hqp] at hentered ⊢
  rw [pendingOf_append_self hpending, hentered, List.append_assoc]

theorem Recorded.remove (hexited : socket.exited = false)
    (hnone : context.pendingOf socket.qp = []) :
    Recorded device context' { socket with qp := none } := by
  obtain ⟨delivered, hentered, hcalls⟩ := hrecorded
  rw [hnone] at hentered
  rw [ending_of_not_exited hexited] at hcalls
  refine ⟨delivered, hentered, ?_⟩
  have hending : ({ socket with qp := none } : Socket).ending = [] := ending_of_not_exited hexited
  rw [hending]
  exact hcalls

theorem Recorded.disconnect (hexited : socket.exited = true) (hsome : socket.qp ≠ none)
    (hnone : context.pendingOf socket.qp = []) :
    Recorded device context'
      { socket with qp := none, calls := socket.calls ++ [.onDisconnected] } := by
  obtain ⟨delivered, hentered, hcalls⟩ := hrecorded
  rw [hnone] at hentered
  rw [ending_of_qp hsome, List.append_nil] at hcalls
  refine ⟨delivered, hentered, ?_⟩
  unfold Socket.ending
  rw [if_pos ⟨hexited, rfl⟩, ← hcalls]

theorem Recorded.add (hexited : socket.exited = false) (hqp : socket.qp = none)
    (hnone : context'.pendingOf (some qpNum) = []) :
    Recorded device context' { socket with qp := some qpNum } := by
  obtain ⟨delivered, hentered, hcalls⟩ := hrecorded
  rw [hqp] at hentered
  rw [ending_of_not_exited hexited] at hcalls
  refine ⟨delivered, ?_, ?_⟩
  · dsimp only
    rw [hnone]
    exact hentered
  · have hending : ({ socket with qp := some qpNum } : Socket).ending = [] :=
      ending_of_not_exited hexited
    rw [hending]
    exact hcalls

theorem Recorded.exit (hsome : socket.qp ≠ none) (hpending : context'.pending = context.pending) :
    Recorded device context' { socket with exited := true } := by
  obtain ⟨delivered, hentered, hcalls⟩ := hrecorded
  rw [← pendingOf_congr hpending] at hentered
  rw [ending_of_qp hsome] at hcalls
  refine ⟨delivered, hentered, ?_⟩
  have hending : ({ socket with exited := true } : Socket).ending = [] := ending_of_qp hsome
  rw [hending]
  exact hcalls

end Records

end Histories

section Steps

variable {Ctx Sock : Type} [DecidableEq Ctx] [DecidableEq Sock] {device : Device}
  {home : Sock → Ctx} {state after : State Ctx Sock} {ctx : Ctx} {sock : Sock}
  {draining : List Sock} {rest : List Completion} {wc : Completion}

section Preserved

variable (hdrains : Drains device home state)
include hdrains

omit [DecidableEq Ctx] [DecidableEq Sock] in
theorem Drains.qp_ne {other : Sock} (hother : other ≠ sock) (hhome : home other = home sock)
    {qpNum : Nat} (hqp : (state.sockets sock).qp = some qpNum) :
    (state.sockets other).qp ≠ some qpNum :=
  fun hsame => hother ((hdrains.sound (home sock)).same_socket rfl hhome hqp hsame)

theorem Drains.deliver (hstage : (state.contexts ctx).stage = .loop draining (wc :: rest))
    (hmap : (state.contexts ctx).socketMap wc.qpNum = some sock) (stage : Stage Sock)
    (hdraining : stage.draining = draining) (hrest : stage.completions = rest) :
    Drains device home ((state.notify sock (device.call wc)).setStage ctx stage) := by
  have hsound := hdrains.sound ctx
  obtain ⟨rfl, hqp⟩ := (hsound.mapped wc.qpNum sock).mp hmap
  have hpending : (state.contexts (home sock)).pending =
      wc :: ({ state.contexts (home sock) with stage := stage } : Context Sock).pending := by
    unfold Context.pending
    rw [hstage, hrest]
    rfl
  refine hdrains.update sock rfl rfl ((hsound.take hstage hdraining hrest).setSocket rfl rfl) ?_ ?_
  · exact (hdrains.recorded sock).deliver hqp hpending
  · intro other hother hhome
    exact (pendingOf_cons_of_ne hpending (hdrains.qp_ne hother hhome hqp)).symm

theorem Drains.processWorkComplete
    (hstage : (state.contexts ctx).stage = .loop draining (wc :: rest)) (fault : Bool) :
    Drains device home (state.processWorkComplete device ctx draining rest wc fault) := by
  have hknown : (state.contexts ctx).socketMap wc.qpNum ≠ none := by
    apply (hdrains.sound ctx).known
    unfold Context.pending
    rw [hstage]
    exact List.mem_cons_self ..
  have hloop {sock : Sock} (hmap : (state.contexts ctx).socketMap wc.qpNum = some sock) :=
    hdrains.deliver hstage hmap (.loop draining rest) rfl rfl
  unfold State.processWorkComplete
  dsimp only
  split
  · contradiction
  · rename_i sock hmap
    split
    · split
      · exact hdrains.deliver hstage hmap _ rfl rfl
      · exact ⟨(hloop hmap).sound, (hloop hmap).recorded⟩
    · exact hloop hmap

omit [DecidableEq Ctx] [DecidableEq Sock] in
theorem Drains.postReceiveBuffer (buffer : InfinibandBuffer)
    (fault : Bool) : Drains device home (state.postReceiveBuffer device buffer fault) := by
  unfold State.postReceiveBuffer
  split
  · exact ⟨hdrains.sound, hdrains.recorded⟩
  · exact ⟨hdrains.sound, hdrains.recorded⟩

theorem Drains.onDrained (hstage : (state.contexts ctx).stage = .loop (sock :: draining) []) :
    Drains device home
      ((state.setStage ctx (.loop draining [])).onDrained (home sock) sock) := by
  have hsound := hdrains.sound ctx
  have hmem : sock ∈ (state.contexts ctx).leaving := by
    apply Context.mem_leaving_of_draining
    rw [hstage]
    exact List.mem_cons_self ..
  obtain ⟨rfl, hexited, hsome⟩ := hsound.leaving sock hmem
  obtain ⟨qpNum, hqp⟩ := Option.ne_none_iff_exists'.mp hsome
  obtain ⟨hpopped, hleft⟩ := hsound.pop hstage
  have hsettled := hsound.settled
  rw [hstage] at hsettled
  have hpending : ({ state.contexts (home sock) with
      stage := .loop draining [] } : Context Sock).pending =
        (state.contexts (home sock)).pending := by
    unfold Context.pending
    rw [hstage]
    rfl
  have hnone : ({ state.contexts (home sock) with
      stage := .loop draining [] } : Context Sock).pendingOf (some qpNum) = [] := by
    rw [pendingOf_eq_nil_iff]
    intro wc hwc heq
    exact hsettled rfl sock (List.mem_cons_self ..) wc hwc (heq ▸ hqp)
  have hstaged : ((state.setStage (home sock) (.loop draining [])).sockets sock).qp = some qpNum :=
    hqp
  have hremoved := hpopped.remove rfl hqp hnone hleft { state.sockets sock with
    qp := none, calls := (state.sockets sock).calls ++ [.onDisconnected] } rfl
  unfold State.onDrained State.removeConnection
  rw [hstaged]
  refine hdrains.update sock ?_ ?_ hremoved ?_ ?_
  · simp [State.notify, State.setSocket, State.setContext, State.setStage]
  · simp [State.notify, State.setSocket, State.setContext, State.setStage]
  · refine (hdrains.recorded sock).disconnect hexited hsome ?_
    rw [hqp, ← pendingOf_congr hpending]
    exact hnone
  · intro other _ _
    exact congrFun (pendingOf_congr hpending) _

theorem Drains.advance {fault : Bool} (hadmits : Admits device home state (.advance ctx fault)) :
    Drains device home (state.advance device home ctx fault) := by
  have hsound := hdrains.sound ctx
  cases hstage : (state.contexts ctx).stage with
  | idle =>
      simp only [State.advance, hstage]
      refine hdrains.reschedule rfl rfl rfl ?_ (Nat.le_refl _) ?_ nofun
      · simp [Context.pending, hstage, Stage.completions]
      · simp [Context.leaving, hstage, Stage.draining]
  | swapped draining =>
      have hpolls : fault = false := by
        apply hadmits
        rw [hstage]
        rfl
      simp only [State.advance, hstage, hpolls, Bool.false_eq_true, if_false]
      refine hdrains.reschedule rfl rfl rfl ?_ ?_ ?_ ?_
      · simp [Context.pending, hstage, Stage.completions]
      · simp
      · simp [Context.leaving, hstage, Stage.draining]
      · -- the whole queue was polled, because no more completions wait than one batch takes
        intro _ sock _ wc hwc
        rw [List.drop_of_length_le hsound.length] at hwc
        contradiction
  | handler draining rest buffer =>
      have hsettled := hsound.settled
      rw [hstage] at hsettled
      simp only [State.advance, hstage]
      refine Drains.postReceiveBuffer ?_ buffer fault
      refine hdrains.reschedule rfl rfl rfl ?_ (Nat.le_refl _) ?_ hsettled
      · simp [Context.pending, hstage, Stage.completions]
      · simp [Context.leaving, hstage, Stage.draining]
  | loop draining wc =>
      cases wc with
      | cons wc rest =>
          simp only [State.advance, hstage]
          exact hdrains.processWorkComplete hstage fault
      | nil =>
          cases draining with
          | nil =>
              simp only [State.advance, hstage]
              refine hdrains.reschedule rfl rfl rfl ?_ (Nat.le_refl _) ?_ nofun
              · simp [Context.pending, hstage, Stage.completions]
              · simp [Context.leaving, hstage, Stage.draining]
          | cons sock draining =>
              simp only [State.advance, hstage]
              exact hdrains.onDrained hstage

theorem Drains.enter (hqp : (state.sockets sock).qp = some wc.qpNum)
    (hexited : (state.sockets sock).exited = false)
    (hroom : (state.contexts (home sock)).completionQueue.length < device.completionQueueLength) :
    Drains device home (state.enter home sock wc) := by
  have hpending : ({ state.contexts (home sock) with
      completionQueue := (state.contexts (home sock)).completionQueue ++ [wc] } :
        Context Sock).pending = (state.contexts (home sock)).pending ++ [wc] := by
    simp [Context.pending]
  have hsound := (hdrains.sound (home sock)).enter rfl hqp hexited hroom
  refine hdrains.update sock rfl rfl (hsound.setSocket rfl rfl) ?_ ?_
  · exact (hdrains.recorded sock).enter hqp hpending
  · intro other hother hhome
    exact pendingOf_append_of_ne hpending (hdrains.qp_ne hother hhome hqp)

theorem Drains.removeConnection (hexited : (state.sockets sock).exited = false)
    (hnone : (state.contexts (home sock)).pendingOf (state.sockets sock).qp = []) :
    Drains device home (state.removeConnection (home sock) sock) := by
  have hsound := hdrains.sound (home sock)
  unfold State.removeConnection
  split
  · exact hdrains
  · rename_i qpNum hqp
    refine hdrains.update sock rfl rfl ?_ ?_ ?_
    · rw [hqp] at hnone
      exact hsound.remove rfl hqp hnone (hsound.not_leaving hexited) _ rfl
    · exact (hdrains.recorded sock).remove hexited hnone
    · intro other _ _
      exact congrFun (pendingOf_congr rfl) _

theorem Drains.addConnection {qpNum : Nat} (hqp : (state.sockets sock).qp = none)
    (hexited : (state.sockets sock).exited = false)
    (hfresh : ∀ other, (state.sockets other).qp ≠ some qpNum) :
    Drains device home (state.addConnection home sock qpNum) := by
  have hsound := hdrains.sound (home sock)
  have hfree : (state.contexts (home sock)).socketMap qpNum = none := by
    cases hmap : (state.contexts (home sock)).socketMap qpNum with
    | none => rfl
    | some other => exact absurd ((hsound.mapped qpNum other).mp hmap).2 (hfresh other)
  unfold State.addConnection
  dsimp only
  rw [hfree]
  refine hdrains.update sock rfl rfl (hsound.add rfl hexited hqp hfree rfl) ?_ ?_
  · apply (hdrains.recorded sock).add hexited hqp
    rw [pendingOf_eq_nil_iff]
    rintro wc hwc rfl
    exact hsound.known wc hwc hfree
  · intro other _ _
    exact congrFun (pendingOf_congr rfl) _

theorem Drains.next {label : Label Ctx Sock} (hadmits : Admits device home state label)
    (hnext : next device home state label = some after) : Drains device home after := by
  cases label with
  | advance ctx fault =>
      cases hnext
      exact hdrains.advance hadmits
  | addConnection sock qpNum =>
      simp only [CompletionContext.next] at hnext
      split at hnext
      · rename_i hqp
        cases hnext
        exact hdrains.addConnection hqp hadmits.1 hadmits.2
      · contradiction
  | removeConnection sock =>
      cases hnext
      exact hdrains.removeConnection hadmits.1 hadmits.2
  | receive sock index status withImm byteLen immData =>
      simp only [CompletionContext.next] at hnext
      split at hnext
      · rename_i hqp _
        cases hnext
        have hsame : Drains device home { state with
            receiveQueue := state.receiveQueue.eraseIdx index } :=
          ⟨hdrains.sound, hdrains.recorded⟩
        exact hsame.enter hqp hadmits.1 hadmits.2
      · contradiction
  | complete sock wrId status =>
      simp only [CompletionContext.next] at hnext
      split at hnext
      · rename_i hqp
        split at hnext
        · contradiction
        · cases hnext
          exact hdrains.enter hqp hadmits.1 hadmits.2
      · contradiction
  | timewaitExit sock =>
      cases hnext
      refine hdrains.update sock rfl rfl ?_ ?_ ?_
      · exact (hdrains.sound (home sock)).exit rfl hadmits.1 hadmits.2
      · exact (hdrains.recorded sock).exit hadmits.2 rfl
      · intro other _ _
        exact congrFun (pendingOf_congr rfl) _
  | drain ctx =>
      simp only [CompletionContext.next] at hnext
      split at hnext
      · contradiction
      · rename_i sock tasks htasks
        cases hnext
        refine hdrains.reschedule rfl rfl rfl rfl (Nat.le_refl _) ?_ (hdrains.sound ctx).settled
        simp [Context.leaving, htasks]

end Preserved

omit [DecidableEq Ctx] [DecidableEq Sock] in
theorem drains_start (device : Device) (home : Sock → Ctx) :
    Drains device home (start device) where
  sound := by
    intro ctx
    refine ⟨?_, nofun, Nat.zero_le _, nofun, List.nodup_nil, nofun⟩
    intro qpNum sock
    exact iff_of_false nofun (fun hboth => nomatch hboth.2)
  recorded := fun _ => ⟨[], rfl, rfl⟩

end Steps

section Results

variable {Ctx Sock : Type} [DecidableEq Ctx] [DecidableEq Sock] {device : Device}
  {home : Sock → Ctx} {state : State Ctx Sock}

/-- The calls on a handler are those for the completions of its connection, each once and
in the order in which the device entered them. `onDisconnected` is the last call, made
when none of them is pending, and every completion finds its socket. -/
theorem completions_delivered_before_disconnected
    (hreach : (machine device home).ReachableUnder (Admits device home) state) :
    (∀ sock, ∃ delivered,
      (state.sockets sock).entered =
        delivered ++ (state.contexts (home sock)).pendingOf (state.sockets sock).qp ∧
      ((state.sockets sock).calls = delivered.filterMap device.call ∨
        delivered = (state.sockets sock).entered ∧
          (state.sockets sock).calls = delivered.filterMap device.call ++ [.onDisconnected])) ∧
      ∀ ctx, ∀ wc ∈ (state.contexts ctx).pending,
        (state.contexts ctx).socketMap wc.qpNum ≠ none := by
  have hdrains : Drains device home state := by
    refine hreach.invariant (Drains device home) ?_ ?_
    · rintro _ rfl
      exact drains_start device home
    · intro middle label last hdrains hadmits hnext
      exact hdrains.next hadmits hnext
  refine ⟨?_, fun ctx => (hdrains.sound ctx).known⟩
  intro sock
  obtain ⟨delivered, hentered, hcalls⟩ := hdrains.recorded sock
  refine ⟨delivered, hentered, ?_⟩
  unfold Socket.ending at hcalls
  split at hcalls
  · rename_i hgone
    rw [hgone.2, Context.pendingOf, List.append_nil] at hentered
    exact Or.inr ⟨hentered.symm, hcalls⟩
  · rw [List.append_nil] at hcalls
    exact Or.inl hcalls

instance (device : Device) (home : Bool → Ctx) (state : State Ctx Bool) (label : Label Ctx Bool) :
    Decidable (Admits device home state label) :=
  match label with
  | .advance ctx fault =>
      inferInstanceAs (Decidable ((state.contexts ctx).stage.polls = true → fault = false))
  | .addConnection sock qpNum =>
      inferInstanceAs (Decidable ((state.sockets sock).exited = false ∧
        ∀ other, (state.sockets other).qp ≠ some qpNum))
  | .removeConnection sock =>
      inferInstanceAs (Decidable ((state.sockets sock).exited = false ∧
        (state.contexts (home sock)).pendingOf (state.sockets sock).qp = []))
  | .receive sock _ _ _ _ _ | .complete sock _ _ =>
      inferInstanceAs (Decidable ((state.sockets sock).exited = false ∧
        (state.contexts (home sock)).completionQueue.length < device.completionQueueLength))
  | .timewaitExit sock =>
      inferInstanceAs (Decidable ((state.sockets sock).exited = false ∧
        (state.sockets sock).qp ≠ none))
  | .drain _ => inferInstanceAs (Decidable True)

def oneBuffer : Device where
  receiveBufferCount := 1
  receiveBufferLength := 4
  receiveData := ⟨4096, 4, 7, by decide, by decide⟩
  completionQueueLength := 2
  count_lt := by decide
  length_lt := by decide
  length_eq := rfl

/-- A connection leaves while one of its completions is being handled and another one is
still in the queue. -/
def leavesWhileHandled : List (Label Unit Bool) :=
  [.addConnection false 10, .addConnection true 11, .receive false 0 0 false 3 0,
    .advance () false, .advance () false, .advance () false,
    .complete false (WorkRequestId.buildId 9 0 .send) 5, .timewaitExit false, .drain (),
    .advance () false, .advance () false, .advance () false, .advance () false,
    .advance () false, .advance () false]

theorem both_completions_delivered_before_disconnected :
    ∃ state : State Unit Bool,
      (machine oneBuffer fun _ => ()).ReachableUnder (Admits oneBuffer fun _ => ()) state ∧
      (state.sockets false).calls =
        [.onReceive (some 4096) 3 none, .onSend 9 (some (.status 5)), .onDisconnected] ∧
      ∃ delivered, (state.sockets false).entered =
        delivered ++ (state.contexts ()).pendingOf (state.sockets false).qp := by
  obtain ⟨state, hreach, hcalls⟩ := (machine oneBuffer fun _ => ()).exists_reachableUnder_of_replay
    (Admits oneBuffer fun _ => ()) (start oneBuffer) leavesWhileHandled
    (fun state => decide ((state.sockets false).calls =
      [.onReceive (some 4096) 3 none, .onSend 9 (some (.status 5)), .onDisconnected])) rfl
    (by decide +kernel)
  obtain ⟨delivered, hentered, _⟩ := (completions_delivered_before_disconnected hreach).1 false
  exact ⟨state, hreach, of_decide_eq_true hcalls, delivered, hentered⟩

end Results
end Crossbow.Infinio.CompletionContext
