import Mathlib.Algebra.Ring.Nat
import Mathlib.Logic.Function.Basic

/-! Labelled machines. A label carries every choice of the environment, such as
the thread that moves and the call it makes, so a step is a partial function and
a finite execution can be replayed by evaluation. -/
namespace Crossbow.Kernel

universe u v

structure Machine (State : Type u) (Label : Type v) where
  initial : State → Prop
  next : State → Label → Option State

namespace Machine

variable {State : Type u} {Label : Type v}

/-- Executions all of whose steps satisfy `allowed` in the state they leave. -/
inductive Path (machine : Machine State Label) (allowed : State → Label → Prop)
    (source : State) : State → Prop where
  | refl : Path machine allowed source source
  | step {middle target : State} {label : Label} :
      Path machine allowed source middle → allowed middle label →
      machine.next middle label = some target → Path machine allowed source target

def ReachableUnder (machine : Machine State Label) (allowed : State → Label → Prop)
    (target : State) : Prop :=
  ∃ source, machine.initial source ∧ machine.Path allowed source target

def anyStep : State → Label → Prop := fun _ _ => True

def Reachable (machine : Machine State Label) (target : State) : Prop :=
  machine.ReachableUnder anyStep target

variable {machine : Machine State Label} {allowed : State → Label → Prop}

theorem Path.trans {first second third : State}
    (hfirst : machine.Path allowed first second)
    (hsecond : machine.Path allowed second third) :
    machine.Path allowed first third := by
  induction hsecond with
  | refl => exact hfirst
  | step _ hallowed hnext ih => exact .step ih hallowed hnext

theorem Path.mono {other : State → Label → Prop}
    (hmono : ∀ state label, allowed state label → other state label) {source target : State}
    (hpath : machine.Path allowed source target) : machine.Path other source target := by
  induction hpath with
  | refl => exact .refl
  | step _ hallowed hnext ih => exact .step ih (hmono _ _ hallowed) hnext

theorem Path.preserves {source target : State}
    (hpath : machine.Path allowed source target) (invariant : State → Prop)
    (hstep : ∀ state label after, invariant state → allowed state label →
      machine.next state label = some after → invariant after)
    (hsource : invariant source) : invariant target := by
  induction hpath with
  | refl => exact hsource
  | step _ hallowed hnext ih => exact hstep _ _ _ ih hallowed hnext

theorem ReachableUnder.extend {middle target : State}
    (hreach : machine.ReachableUnder allowed middle)
    (hpath : machine.Path allowed middle target) :
    machine.ReachableUnder allowed target := by
  obtain ⟨source, hinitial, hleading⟩ := hreach
  exact ⟨source, hinitial, hleading.trans hpath⟩

theorem ReachableUnder.mono {other : State → Label → Prop}
    (hmono : ∀ state label, allowed state label → other state label) {target : State}
    (hreach : machine.ReachableUnder allowed target) : machine.ReachableUnder other target := by
  obtain ⟨source, hinitial, hpath⟩ := hreach
  exact ⟨source, hinitial, hpath.mono hmono⟩

theorem ReachableUnder.invariant {state : State}
    (hreach : machine.ReachableUnder allowed state) (invariant : State → Prop)
    (hinitial : ∀ state, machine.initial state → invariant state)
    (hstep : ∀ state label after, invariant state → allowed state label →
      machine.next state label = some after → invariant after) :
    invariant state := by
  obtain ⟨source, hsource, hpath⟩ := hreach
  exact hpath.preserves invariant hstep (hinitial source hsource)

/-- Replay a schedule, stopping at a step that is undefined or not permitted. -/
def replay (machine : Machine State Label) (permit : State → Label → Bool) :
    State → List Label → Option State
  | state, [] => some state
  | state, label :: labels =>
      if permit state label then
        (machine.next state label).bind fun after => replay machine permit after labels
      else none

theorem path_of_replay {permit : State → Label → Bool}
    (hpermit : ∀ state label, permit state label = true → allowed state label)
    {labels : List Label} {source target : State}
    (hreplay : machine.replay permit source labels = some target) :
    machine.Path allowed source target := by
  induction labels generalizing source with
  | nil =>
      cases hreplay
      exact .refl
  | cons label labels ih =>
      rw [replay] at hreplay
      split at hreplay
      · rename_i hallowed
        obtain ⟨middle, hnext, hrest⟩ := Option.bind_eq_some_iff.mp hreplay
        exact (Path.step .refl (hpermit _ _ hallowed) hnext).trans (ih hrest)
      · contradiction

theorem exists_path_of_replay (machine : Machine State Label)
    (allowed : State → Label → Prop) (permit : State → Label → Bool)
    (source : State) (labels : List Label) (test : State → Bool)
    (hpermit : ∀ state label, permit state label = true → allowed state label)
    (htest : (machine.replay permit source labels).any test = true) :
    ∃ target, machine.Path allowed source target ∧ test target = true := by
  cases hreplay : machine.replay permit source labels with
  | none => simp [hreplay] at htest
  | some target =>
      rw [hreplay] at htest
      exact ⟨target, path_of_replay hpermit hreplay, htest⟩

theorem exists_reachableUnder_of_replay (machine : Machine State Label)
    (allowed : State → Label → Prop) [∀ state label, Decidable (allowed state label)]
    (source : State) (labels : List Label) (test : State → Bool)
    (hsource : machine.initial source)
    (htest : (machine.replay (fun state label => decide (allowed state label)) source
      labels).any test = true) :
    ∃ target, machine.ReachableUnder allowed target ∧ test target = true := by
  obtain ⟨target, hpath, htarget⟩ := machine.exists_path_of_replay allowed _ source labels test
    (fun _ _ => of_decide_eq_true) htest
  exact ⟨target, ⟨source, hsource, hpath⟩, htarget⟩

theorem exists_reachable_of_replay (machine : Machine State Label)
    (source : State) (labels : List Label) (test : State → Bool)
    (hsource : machine.initial source)
    (htest : (machine.replay (fun _ _ => true) source labels).any test = true) :
    ∃ target, machine.Reachable target ∧ test target = true := by
  obtain ⟨target, hpath, htarget⟩ := machine.exists_path_of_replay anyStep _ source labels test
    (fun _ _ _ => trivial) htest
  exact ⟨target, ⟨source, hsource, hpath⟩, htarget⟩

theorem exists_paths_around_call (machine : Machine State Label)
    (allowed : State → Label → Prop) (permit : State → Label → Bool)
    (source : State) (labels : List Label) (call : Label) (rest : List Label)
    (test : State → State → Bool)
    (hpermit : ∀ state label, permit state label = true → allowed state label)
    (htest : ((machine.replay permit source labels).any fun before =>
      (machine.next before call).any fun called =>
        (machine.replay permit called rest).any (test before)) = true) :
    ∃ before called target, machine.Path allowed source before ∧
      machine.next before call = some called ∧ machine.Path allowed called target ∧
      test before target = true := by
  cases hreplay : machine.replay permit source labels with
  | none => simp [hreplay] at htest
  | some before =>
      rw [hreplay, Option.any_some] at htest
      cases hcall : machine.next before call with
      | none => simp [hcall] at htest
      | some called =>
          rw [hcall, Option.any_some] at htest
          obtain ⟨target, hpath, hpair⟩ :=
            machine.exists_path_of_replay allowed permit called rest (test before) hpermit htest
          exact ⟨before, called, target, path_of_replay hpermit hreplay, hcall, hpath, hpair⟩

end Machine
end Crossbow.Kernel
