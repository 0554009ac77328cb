import Crossbow.Allocator.EpochInvariant

/-! Safety of the reclamation. The exchange of a destructor may succeed long after
its checks, so the old counter can be in use again; if it is not, a node
outlives every guard that was live when it was freed. -/
namespace Crossbow.Allocator
open Kernel

variable {Thread Node : Type} {state after : State Thread Node} {thread : Thread} {list : Nat}
  {node : Node}

/-- What one step can do to the guards and the homes: a new guard gets a new number,
and a node finds its home when `own` succeeds. -/
structure Effects (before after : State Thread Node) : Prop where
  nextGuard : before.nextGuard ≤ after.nextGuard
  guards : ∀ guard ∈ after.guards, guard ∈ before.guards ∨ guard.id = before.nextGuard
  homes : ∀ node list, after.home node = some list → before.home node = some list ∨
    ∃ thread bucket, before.pc thread = .ownSwap list node bucket

theorem Effects.of_same {before : State Thread Node}
    (hnextGuard : after.nextGuard = before.nextGuard) (hguards : after.guards = before.guards)
    (hhome : after.home = before.home) : Effects before after := by
  refine ⟨Nat.le_of_eq hnextGuard.symm, ?_, ?_⟩
  · intro guard hmem
    exact .inl (hguards ▸ hmem)
  · intro node list hnode
    exact .inl (hhome ▸ hnode)

variable [DecidableEq Thread]

theorem effects_stepDestroy {remaining : Nat} {current : Option Node} {stack : List Node}
    (hstep : stepDestroy state thread list remaining current stack = some after) :
    Effects state after := by
  unfold stepDestroy at hstep
  split at hstep
  · split at hstep
    · contradiction
    · cases hstep
      exact .of_same rfl rfl rfl
    · cases hstep
      exact .of_same rfl rfl rfl
  · cases hstep
    exact .of_same rfl rfl rfl
  · cases hstep
    exact .of_same rfl rfl rfl

theorem Inv.move {before : State Thread Node} (hinv : Inv before)
    {pc : Pc Node} (hpcs : after.pc = Function.update before.pc thread pc)
    (hpc : PcOk after thread pc)
    (hguards : ∀ guard ∈ before.guards, guard.thread ≠ thread → guard ∈ after.guards)
    (hhome : ∀ node list, before.home node = some list → after.home node = some list)
    (hepoch : before.epoch ≤ after.epoch)
    (hrotor : ∀ other, other ≠ thread → before.rotor = some other →
      after.rotor = some other ∧ after.epoch = before.epoch ∧ after.globals = before.globals) :
    ∀ other, PcOk after other (after.pc other) := by
  intro other
  rw [hpcs]
  by_cases hother : other = thread
  · rw [hother, Function.update_self]
    exact hpc
  · rw [Function.update_of_ne hother]
    apply (hinv.pcs other).frame _ hhome hepoch (hrotor other hother)
    intro guard hmem hthread
    exact hguards guard hmem (hthread ▸ hother)

theorem Inv.moveLists {before : State Thread Node} (hinv : Inv before) {pc : Pc Node}
    (hpcs : after.pc = Function.update before.pc thread pc) (hpc : PcOk after thread pc)
    (hguards : after.guards = before.guards) (hepoch : after.epoch = before.epoch)
    (hrotor : after.rotor = before.rotor) (hglobals : after.globals = before.globals)
    (hhome : ∀ node list, before.home node = some list → after.home node = some list) :
    ∀ other, PcOk after other (after.pc other) := by
  apply hinv.move hpcs hpc (fun _ hmem _ => hguards ▸ hmem) hhome (Nat.le_of_eq hepoch.symm)
  intro other _ hother
  exact ⟨hrotor.trans hother, hepoch, hglobals⟩

theorem Inv.rotor_move (hinv : Inv state) (hcalm : ∀ rotation, state.pc thread ≠ .rotate rotation)
    (pc : Pc Node) (rotor : Thread) (hrotor : state.rotor = some rotor) :
    ∃ rotation, Function.update state.pc thread pc rotor = .rotate rotation := by
  obtain ⟨rotation, hrotation⟩ := hinv.rotor rotor hrotor
  have hother : rotor ≠ thread := by
    intro hsame
    exact hcalm rotation (hsame ▸ hrotation)
  exact ⟨rotation, by rw [Function.update_of_ne hother, hrotation]⟩

theorem Inv.goto (hinv : Inv state) {pc : Pc Node}
    (hcalm : ∀ rotation, state.pc thread ≠ .rotate rotation) (hpc : PcOk state thread pc) :
    Inv (state.goto thread pc) := by
  refine ⟨hinv.counted, hinv.linked, hinv.settled, hinv.rotor_move hcalm pc, ?_⟩
  refine hinv.moveLists rfl ?_ rfl rfl rfl rfl (fun _ _ hhome => hhome)
  exact hpc.frame (fun _ hmem _ => hmem) (fun _ _ hhome => hhome) (Nat.le_refl _)
    (fun hrotor => ⟨hrotor, rfl, rfl⟩)

theorem Inv.enter (hinv : Inv state) {cnt : Nat}
    (hpc : state.pc thread = .enterSwap cnt (state.count cnt)) :
    Inv { (state.setCount cnt (state.count cnt + 2)).goto thread .idle with
      guards := ⟨state.nextGuard, thread, cnt, state.epoch⟩ :: state.guards
      nextGuard := state.nextGuard + 1 } := by
  have hodd := hinv.pcs thread
  rw [hpc] at hodd
  refine ⟨hinv.counted.enter hodd thread, hinv.linked, hinv.settled,
    hinv.rotor_move (by simp [hpc]) .idle, ?_⟩
  refine hinv.move rfl trivial (fun _ hmem _ => List.mem_cons_of_mem _ hmem)
    (fun _ _ hhome => hhome) (Nat.le_refl _) (fun _ _ hrotor => ⟨hrotor, rfl, rfl⟩)

theorem Inv.leave (hinv : Inv state) {guard : Guard Thread} (hidle : state.pc guard.thread = .idle)
    (hmem : guard ∈ state.guards) :
    Inv { (state.setCount guard.cnt (state.count guard.cnt - 2)).goto guard.thread .leaveOld with
      guards := state.guards.erase guard } := by
  refine ⟨?_, hinv.linked, hinv.settled, hinv.rotor_move (by simp [hidle]) .leaveOld, ?_⟩
  · obtain ⟨hguard, hfresh, hcount⟩ := hinv.counted.leave hmem
    exact ⟨hguard, hfresh, hcount⟩
  · refine hinv.move rfl trivial ?_ (fun _ _ hhome => hhome) (Nat.le_refl _)
      (fun _ _ hrotor => ⟨hrotor, rfl, rfl⟩)
    intro other hother hthread
    apply (List.mem_erase_of_ne _).mpr hother
    intro hsame
    exact hthread (hsame ▸ rfl)

theorem Inv.swap (hinv : Inv state) {ac : Nat}
    (hpc : state.pc thread = .leaveSwap ac (state.count ac))
    (hold : state.count state.globals.oldCnt = 0) :
    Inv { (state.setCount ac (state.count ac - 1)).goto thread (.rotate .loadActive) with
      epoch := state.epoch + 1
      rotor := some thread } := by
  have hodd := hinv.pcs thread
  rw [hpc] at hodd
  have hnone : state.rotor = none :=
    Option.not_isSome_iff_eq_none.mp (by rw [(hinv.counted.of_odd hodd).1]; decide)
  have hglobals := hinv.settled hnone
  rw [hglobals] at hold
  refine ⟨hinv.counted.rotate hodd hold, ?_, (nomatch ·), ?_, ?_⟩
  · refine ⟨hinv.linked.mark, hinv.linked.link, hinv.linked.head, ?_⟩
    intro node hmem
    obtain ⟨list, hhome, hlist⟩ := hinv.linked.destroyed node hmem
    exact ⟨list, hhome, Nat.lt_succ_of_lt hlist⟩
  · intro rotor hrotor
    cases hrotor
    exact ⟨.loadActive, Function.update_self ..⟩
  · refine hinv.move rfl ⟨rfl, state.epoch, rfl, hglobals⟩ (fun _ hmem _ => hmem)
      (fun _ _ hhome => hhome) (Nat.le_succ _) ?_
    intro other _ hother
    rw [hnone] at hother
    contradiction

theorem Inv.rotation (hinv : Inv state) {rotation : Rotation}
    (hpc : state.pc thread = .rotate rotation) :
    Inv (stepRotation state thread rotation) := by
  have hthread := hinv.pcs thread
  rw [hpc] at hthread
  obtain ⟨hrotor, epoch, hepoch, hexpects⟩ := hthread
  have hcounted := hinv.counted
  rw [hrotor] at hcounted
  by_cases hlast : ∃ todelete cnt, rotation = .increment todelete cnt
  · obtain ⟨todelete, cnt, rfl⟩ := hlast
    obtain ⟨hglobals, htodelete, hcnt⟩ := hexpects
    rw [← hepoch] at hglobals hcnt
    refine ⟨hcnt ▸ hcounted.finish, hinv.linked, fun _ => hglobals,
      fun _ hnone => (nomatch hnone), ?_⟩
    refine hinv.move rfl ?_ (fun _ hmem _ => hmem) (fun _ _ hhome => hhome) (Nat.le_refl _) ?_
    · show todelete < state.epoch
      omega
    · intro other hother hsome
      exact absurd (Option.some.inj (hsome.symm.trans hrotor)) hother
  · have hstep : stepRotation state thread rotation =
        { state.goto thread (.rotate (rotation.advance state.globals).2) with
          globals := (rotation.advance state.globals).1 } := by
      cases rotation with
      | increment todelete cnt => exact absurd ⟨todelete, cnt, rfl⟩ hlast
      | _ => rfl
    rw [hstep]
    refine ⟨hinv.counted, hinv.linked, ?_, ?_, ?_⟩
    · intro hnone
      cases hrotor.symm.trans hnone
    · intro rotor hother
      cases hrotor.symm.trans hother
      exact ⟨_, Function.update_self ..⟩
    · refine hinv.move rfl ⟨hrotor, epoch, hepoch, hexpects.advance⟩ (fun _ hmem _ => hmem)
        (fun _ _ hhome => hhome) (Nat.le_refl _) ?_
      intro other hother hsome
      exact absurd (Option.some.inj (hsome.symm.trans hrotor)) hother

theorem Inv.destroy (hinv : Inv state) {remaining : Nat} {current : Option Node} {stack : List Node}
    (hpc : state.pc thread = .destroyWalk list remaining current stack)
    (hstep : stepDestroy state thread list remaining current stack = some after) :
    Inv after := by
  have hthread := hinv.pcs thread
  rw [hpc] at hthread
  obtain ⟨hlist, hcurrent, hstack⟩ := hthread
  have hcalm : ∀ rotation, state.pc thread ≠ .rotate rotation := by simp [hpc]
  cases current with
  | some node =>
      have hnode := hcurrent node rfl
      have hpushed : ∀ other ∈ node :: stack, state.home other = some list := by
        rw [List.forall_mem_cons]
        exact ⟨hnode, hstack⟩
      simp only [stepDestroy] at hstep
      split at hstep
      · contradiction
      · cases hstep
        exact hinv.goto hcalm ⟨hlist, fun _ hnone => (nomatch hnone), hpushed⟩
      · rename_i target hlink
        cases hstep
        refine hinv.goto hcalm ⟨hlist, ?_, hpushed⟩
        intro other hother
        cases hother
        rw [hinv.linked.link node target hlink, hnode]
  | none =>
      cases stack with
      | cons node stack =>
          cases hstep
          obtain ⟨hnode, hrest⟩ := List.forall_mem_cons.mp hstack
          refine ⟨hinv.counted, hinv.linked.destroy hnode hlist, hinv.settled,
            hinv.rotor_move hcalm _, ?_⟩
          exact hinv.moveLists rfl ⟨hlist, fun _ hnone => (nomatch hnone), hrest⟩ rfl rfl rfl rfl
            (fun _ _ hhome => hhome)
      | nil =>
          cases hstep
          exact hinv.goto hcalm hlist

theorem Inv.push (hinv : Inv state) {bucket : Fin numLists} {head : Option Node}
    (hpc : state.pc thread = .appendSwap list node bucket head) :
    Inv { state.goto thread .idle with
      head := Function.update state.head list
        (Function.update (state.head list) bucket (some node)) } := by
  have hthread := hinv.pcs thread
  rw [hpc] at hthread
  refine ⟨hinv.counted, hinv.linked.push hthread.1 bucket, hinv.settled,
    hinv.rotor_move (by simp [hpc]) _, ?_⟩
  exact hinv.moveLists rfl trivial rfl rfl rfl rfl (fun _ _ hhome => hhome)

variable [DecidableEq Node]

theorem Inv.own (hinv : Inv state) {bucket : Fin numLists}
    (hpc : state.pc thread = .ownSwap list node bucket) (hmark : state.next node = .mark) :
    Inv { state.goto thread (.appendHead list node bucket) with
      next := Function.update state.next node .null
      home := Function.update state.home node (some list) } := by
  refine ⟨hinv.counted, hinv.linked.own hmark list, hinv.settled,
    hinv.rotor_move (by simp [hpc]) _, ?_⟩
  refine hinv.moveLists rfl (Function.update_self ..) rfl rfl rfl rfl ?_
  intro other home hhome
  have hother : other ≠ node := by
    intro hsame
    rw [hsame, (hinv.linked.mark node).mp hmark] at hhome
    contradiction
  rw [← hhome]
  exact Function.update_of_ne hother ..

theorem Inv.setNext (hinv : Inv state) {bucket : Fin numLists} {head : Option Node}
    (hpc : state.pc thread = .appendNext list node bucket head) :
    Inv { state.goto thread (.appendSwap list node bucket head) with
      next := Function.update state.next node (.ofHead head) } := by
  have hthread := hinv.pcs thread
  rw [hpc] at hthread
  refine ⟨hinv.counted, hinv.linked.setNext hthread.1 hthread.2, hinv.settled,
    hinv.rotor_move (by simp [hpc]) _, ?_⟩
  exact hinv.moveLists rfl hthread rfl rfl rfl rfl (fun _ _ hhome => hhome)

/-- When the exchange of `~allocator` succeeds, `old_cnt` points to an empty counter. -/
def OldCounterEmpty (state : State Thread Node) : Label Thread Node → Prop
  | .step thread => ∀ ac oac, state.pc thread = .leaveSwap ac oac → state.count ac = oac →
      state.count state.globals.oldCnt = 0
  | _ => True

theorem Inv.stepThread (hinv : Inv state) (hempty : OldCounterEmpty state (.step thread))
    (hstep : stepThread state thread = some after) : Inv after := by
  have hthread := hinv.pcs thread
  cases hpc : state.pc thread with
  | idle => simp [Allocator.stepThread, hpc] at hstep
  | enterLoad | leaveOld | leaveOldest oldcnt | leaveActive oldcnt oldestcnt
  | leaveValue oldcnt oldestcnt ac =>
      simp only [Allocator.stepThread, hpc, Option.some.injEq] at hstep
      rw [← hstep]
      exact hinv.goto (by simp [hpc]) trivial
  | enterRead cnt =>
      simp only [Allocator.stepThread, hpc] at hstep
      split at hstep
      · rename_i hodd
        cases hstep
        exact hinv.goto (by simp [hpc]) hodd
      · cases hstep
        exact hinv.goto (by simp [hpc]) trivial
  | enterSwap cnt mycnt =>
      simp only [Allocator.stepThread, hpc] at hstep
      split at hstep
      · rename_i hcount
        subst hcount
        cases hstep
        exact hinv.enter hpc
      · cases hstep
        exact hinv.goto (by simp [hpc]) trivial
  | leaveCheckOldest oldcnt oldestcnt ac oac =>
      simp only [Allocator.stepThread, hpc] at hstep
      split at hstep <;> cases hstep <;> exact hinv.goto (by simp [hpc]) trivial
  | leaveCheckOld oldcnt ac oac =>
      simp only [Allocator.stepThread, hpc] at hstep
      split at hstep
      · rename_i hchecks
        cases hstep
        exact hinv.goto (by simp [hpc]) hchecks.2
      · cases hstep
        exact hinv.goto (by simp [hpc]) trivial
  | leaveSwap ac oac =>
      simp only [Allocator.stepThread, hpc] at hstep
      split at hstep
      · rename_i hcount
        have hold := hempty ac oac hpc hcount
        subst hcount
        cases hstep
        exact hinv.swap hpc hold
      · cases hstep
        exact hinv.goto (by simp [hpc]) trivial
  | rotate rotation =>
      simp only [Allocator.stepThread, hpc, Option.some.injEq] at hstep
      rw [← hstep]
      exact hinv.rotation hpc
  | destroyHead list remaining =>
      rw [hpc] at hthread
      cases remaining with
      | zero =>
          simp only [Allocator.stepThread, hpc, Option.some.injEq] at hstep
          rw [← hstep]
          exact hinv.goto (by simp [hpc]) trivial
      | succ remaining =>
          simp only [Allocator.stepThread, hpc, Option.some.injEq] at hstep
          rw [← hstep]
          exact hinv.goto (by simp [hpc])
            ⟨hthread, hinv.linked.head list remaining, fun _ hmem => (nomatch hmem)⟩
  | destroyWalk list remaining current stack =>
      simp only [Allocator.stepThread, hpc] at hstep
      exact hinv.destroy hpc hstep
  | ownLoad list node bucket =>
      rw [hpc] at hthread
      simp only [Allocator.stepThread, hpc] at hstep
      split at hstep
      · cases hstep
        exact hinv.goto (by simp [hpc]) hthread
      · cases hstep
        exact hinv.goto (by simp [hpc]) trivial
  | ownSwap list node bucket =>
      rw [hpc] at hthread
      simp only [Allocator.stepThread, hpc] at hstep
      split at hstep
      · rename_i hmark
        cases hstep
        exact hinv.own hpc hmark
      · cases hstep
        exact hinv.goto (by simp [hpc]) hthread
  | appendHead list node bucket =>
      rw [hpc] at hthread
      simp only [Allocator.stepThread, hpc, Option.some.injEq] at hstep
      rw [← hstep]
      exact hinv.goto (by simp [hpc]) ⟨hthread, hinv.linked.head list bucket⟩
  | appendNext list node bucket head =>
      simp only [Allocator.stepThread, hpc, Option.some.injEq] at hstep
      rw [← hstep]
      exact hinv.setNext hpc
  | appendSwap list node bucket head =>
      rw [hpc] at hthread
      simp only [Allocator.stepThread, hpc] at hstep
      split at hstep
      · cases hstep
        exact hinv.push hpc
      · cases hstep
        exact hinv.goto (by simp [hpc]) hthread.1

theorem Inv.next (hinv : Inv state) {label : Label Thread Node}
    (hempty : OldCounterEmpty state label) (hnext : next state label = some after) : Inv after := by
  cases label with
  | enter thread =>
      simp only [Allocator.next] at hnext
      split at hnext
      · rename_i hidle
        cases hnext
        exact hinv.goto (by simp [hidle]) trivial
      · contradiction
  | leave thread guard =>
      simp only [Allocator.next] at hnext
      split at hnext
      · rename_i hcall
        obtain ⟨hidle, hmem, hthread⟩ := hcall
        subst hthread
        cases hnext
        exact hinv.leave hidle hmem
      · contradiction
  | free thread node bucket =>
      simp only [Allocator.next] at hnext
      split at hnext
      · rename_i hcall
        obtain ⟨hidle, guard, hmem, hthread⟩ := hcall
        cases hnext
        exact hinv.goto (by simp [hidle]) ⟨guard, hmem, hthread, hinv.activeList hmem⟩
      · contradiction
  | step thread => exact hinv.stepThread hempty hnext

theorem inv_of_reachable (hreach : machine.ReachableUnder OldCounterEmpty state) : Inv state := by
  apply hreach.invariant Inv
  · intro _ hstart
    rw [hstart]
    exact inv_start
  · intro _ _ _ hinv hempty hnext
    exact hinv.next hempty hnext

theorem effects_stepThread
    (hstep : stepThread state thread = some after) : Effects state after := by
  cases hpc : state.pc thread with
  | idle => simp [stepThread, hpc] at hstep
  | enterSwap cnt mycnt =>
      simp only [stepThread, hpc] at hstep
      split at hstep
      · cases hstep
        refine ⟨Nat.le_succ _, ?_, fun _ _ => .inl⟩
        intro guard hmem
        rcases List.mem_cons.mp hmem with rfl | hold
        · exact .inr rfl
        · exact .inl hold
      · cases hstep
        exact .of_same rfl rfl rfl
  | rotate rotation =>
      simp only [stepThread, hpc, Option.some.injEq] at hstep
      rw [← hstep]
      cases rotation <;> exact .of_same rfl rfl rfl
  | destroyHead list remaining =>
      cases remaining <;>
      · simp only [stepThread, hpc, Option.some.injEq] at hstep
        rw [← hstep]
        exact .of_same rfl rfl rfl
  | destroyWalk list remaining current stack =>
      simp only [stepThread, hpc] at hstep
      exact effects_stepDestroy hstep
  | ownSwap list node bucket =>
      simp only [stepThread, hpc] at hstep
      split at hstep
      · cases hstep
        refine ⟨Nat.le_refl _, fun _ => .inl, ?_⟩
        intro other home hhome
        by_cases hsame : other = node
        · simp only [hsame, Function.update_self, Option.some.injEq] at hhome
          rw [hsame, ← hhome]
          exact .inr ⟨thread, bucket, hpc⟩
        · simp only [Function.update_of_ne hsame] at hhome
          exact .inl hhome
      · cases hstep
        exact .of_same rfl rfl rfl
  | enterLoad | leaveOld | leaveOldest oldcnt | leaveActive oldcnt oldestcnt
  | leaveValue oldcnt oldestcnt ac | appendHead list node bucket
  | appendNext list node bucket head =>
      simp only [stepThread, hpc, Option.some.injEq] at hstep
      rw [← hstep]
      exact .of_same rfl rfl rfl
  | enterRead cnt | leaveCheckOldest oldcnt oldestcnt ac oac | leaveCheckOld oldcnt ac oac
  | leaveSwap ac oac | ownLoad list node bucket | appendSwap list node bucket head =>
      simp only [stepThread, hpc] at hstep
      split at hstep <;> cases hstep <;> exact .of_same rfl rfl rfl

theorem effects_next {label : Label Thread Node}
    (hnext : next state label = some after) : Effects state after := by
  cases label with
  | enter thread | free thread node bucket =>
      simp only [next] at hnext
      split at hnext
      · cases hnext
        exact .of_same rfl rfl rfl
      · contradiction
  | leave thread guard =>
      simp only [next] at hnext
      split at hnext
      · cases hnext
        exact ⟨Nat.le_refl _, fun _ hmem => .inl (List.mem_of_mem_erase hmem), fun _ _ => .inl⟩
      · contradiction
  | step thread => exact effects_stepThread hnext

/-- As long as the guard lives, the node's list is at most one epoch older. -/
structure Covered (guard : Guard Thread) (node : Node) (state : State Thread Node) : Prop where
  known : guard.id < state.nextGuard
  home : guard ∈ state.guards → ∀ list, state.home node = some list → guard.epoch + 1 ≤ list

theorem Covered.next {guard : Guard Thread} {label : Label Thread Node}
    (hcovered : Covered guard node state) (hinv : Inv state)
    (hnext : next state label = some after) : Covered guard node after := by
  have heffects := effects_next hnext
  refine ⟨Nat.lt_of_lt_of_le hcovered.known heffects.nextGuard, ?_⟩
  intro hafter list hhome
  have hlive : guard ∈ state.guards := by
    rcases heffects.guards guard hafter with hold | hnew
    · exact hold
    · exact absurd hcovered.known (hnew ▸ Nat.lt_irrefl _)
  rcases heffects.homes node list hhome with hold | ⟨thread, bucket, hpc⟩
  · exact hcovered.home hlive list hold
  · have hthread := hinv.pcs thread
    rw [hpc] at hthread
    obtain ⟨mine, hmine, _, hlist⟩ := hthread
    obtain ⟨_, _, hlow, _⟩ := hinv.counted.guard guard hlive
    obtain ⟨_, _, _, hhigh⟩ := hinv.counted.guard mine hmine
    omega

/-- A node outlives every guard that was live when it was freed. -/
theorem freed_node_outlives_guards {before called after : State Thread Node} {thread : Thread}
    {node : Node} {bucket : Fin numLists} {guard : Guard Thread}
    (hreach : machine.ReachableUnder OldCounterEmpty before)
    (hcall : next before (.free thread node bucket) = some called)
    (hmark : before.next node = .mark)
    (hpath : machine.Path OldCounterEmpty called after)
    (hbefore : guard ∈ before.guards) (hafter : guard ∈ after.guards) :
    node ∉ after.destroyed := by
  have hinv := inv_of_reachable hreach
  have hcovered : Covered guard node before := by
    refine ⟨(hinv.counted.guard guard hbefore).2.1, ?_⟩
    intro _ list hhome
    rw [(hinv.linked.mark node).mp hmark] at hhome
    contradiction
  obtain ⟨hinvAfter, hcoveredAfter⟩ : Inv after ∧ Covered guard node after := by
    apply hpath.preserves fun state => Inv state ∧ Covered guard node state
    · intro state label next hboth hempty hnext
      exact ⟨hboth.1.next hempty hnext, hboth.2.next hboth.1 hnext⟩
    · refine ⟨hinv.next ?_ hcall, hcovered.next hinv hcall⟩
      trivial
  intro hdestroyed
  obtain ⟨list, hhome, hlist⟩ := hinvAfter.linked.destroyed node hdestroyed
  have hcover := hcoveredAfter.home hafter list hhome
  obtain ⟨_, _, _, hrecent⟩ := hinvAfter.counted.guard guard hafter
  omega

def steps (thread count : Nat) : List (Label Nat Unit) := List.replicate count (.step thread)

def permitOldCounterEmpty (state : State Nat Unit) : Label Nat Unit → Bool
  | .step thread =>
      match state.pc thread with
      | .leaveSwap ac oac =>
          decide (state.count ac = oac → state.count state.globals.oldCnt = 0)
      | _ => true
  | _ => true

theorem oldCounterEmpty_of_permit (state : State Nat Unit) (label : Label Nat Unit)
    (hpermit : permitOldCounterEmpty state label = true) : OldCounterEmpty state label := by
  cases label with
  | step thread =>
      intro ac oac hpc hcount
      simp only [permitOldCounterEmpty, hpc, decide_eq_true_eq] at hpermit
      exact hpermit hcount
  | _ => trivial

/-- Thread 1 has a guard while thread 2 frees a node, leaves and rotates. -/
theorem node_survives_rotation :
    ∃ before called after : State Nat Unit,
      machine.ReachableUnder OldCounterEmpty before ∧
      next before (.free 2 () ⟨0, by decide⟩) = some called ∧
      machine.Path OldCounterEmpty called after ∧ after.epoch = 1 ∧ () ∉ after.destroyed := by
  obtain ⟨before, called, after, hpath, hcall, hrest, htest⟩ :=
    machine.exists_paths_around_call OldCounterEmpty permitOldCounterEmpty start
      (.enter 1 :: steps 1 3 ++ .enter 2 :: steps 2 3) (.free 2 () ⟨0, by decide⟩)
      (steps 2 5 ++ .leave 2 ⟨1, 2, 0, 0⟩ :: steps 2 21)
      (fun before after => decide (before.next () = .mark ∧ after.epoch = 1 ∧
        ⟨0, 1, 0, 0⟩ ∈ before.guards ∧ ⟨0, 1, 0, 0⟩ ∈ after.guards))
      oldCounterEmpty_of_permit (by decide +kernel)
  obtain ⟨hmark, hepoch, hbefore, hafter⟩ := of_decide_eq_true htest
  exact ⟨before, called, after, ⟨start, rfl, hpath⟩, hcall, hrest, hepoch,
    freed_node_outlives_guards ⟨start, rfl, hpath⟩ hcall hmark hrest hbefore hafter⟩

def permitAll (_ : State Nat Unit) (_ : Label Nat Unit) : Bool := true

def visit (thread : Nat) (guard : Guard Nat) : List (Label Nat Unit) :=
  .enter thread :: steps thread 3 ++ .leave thread guard :: steps thread 6

/-- Threads 1 and 2 stop before their exchange, in epochs 0 and 1, and threads 3 and 4
rotate. Then threads 5 and 6 have guards of epoch 2. -/
def staleSchedule : List (Label Nat Unit) :=
  visit 1 ⟨0, 1, 0, 0⟩ ++ visit 3 ⟨1, 3, 0, 0⟩ ++ steps 3 15 ++
    visit 2 ⟨2, 2, 1, 1⟩ ++ visit 4 ⟨3, 4, 1, 1⟩ ++ steps 4 15 ++
    .enter 5 :: steps 5 3 ++ .enter 6 :: steps 6 3

/-- Thread 6 finishes `free`, leaves and rotates; the counters of epochs 0 and 1 are
active again when threads 1 and 2 go on. -/
def lateSwaps : List (Label Nat Unit) :=
  steps 6 5 ++ .leave 6 ⟨5, 6, 2, 2⟩ :: steps 6 21 ++ steps 1 15 ++ steps 2 19

theorem late_swaps_destroy_guarded_node :
    ∃ (before called after : State Nat Unit) (guard : Guard Nat),
      machine.Reachable before ∧ before.next () = .mark ∧
      next before (.free 6 () ⟨63, by decide⟩) = some called ∧
      machine.Path Machine.anyStep called after ∧
      guard ∈ before.guards ∧ guard ∈ after.guards ∧ () ∈ after.destroyed := by
  obtain ⟨before, called, after, hpath, hcall, hrest, htest⟩ :=
    machine.exists_paths_around_call Machine.anyStep permitAll start staleSchedule
      (.free 6 () ⟨63, by decide⟩) lateSwaps
      (fun before after => decide (before.next () = .mark ∧ ⟨4, 5, 2, 2⟩ ∈ before.guards ∧
        ⟨4, 5, 2, 2⟩ ∈ after.guards ∧ () ∈ after.destroyed))
      (fun _ _ _ => trivial) (by decide +kernel)
  obtain ⟨hmark, hbefore, hafter, hdestroyed⟩ := of_decide_eq_true htest
  exact ⟨before, called, after, _, ⟨start, rfl, hpath⟩, hmark, hcall, hrest, hbefore, hafter,
    hdestroyed⟩

end Crossbow.Allocator
