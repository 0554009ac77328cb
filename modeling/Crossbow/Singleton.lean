import Crossbow.Kernel.Machine
import Mathlib.Data.List.Nodup
import Mathlib.Data.Option.Basic

/-! The life cycle of a singleton. Its state is a pointer, a flag and the exit callbacks that
were registered; a failed access leaves the flag reset, so that the pointer and the flag no
longer agree. -/
namespace Crossbow.Singleton
open Kernel

inductive Lifetime where
  | default
  | phoenix
  | infinite
  deriving DecidableEq, Repr

/-- `schedule_destruction` registers an exit callback. -/
def Lifetime.schedules : Lifetime → Bool
  | .default | .phoenix => true
  | .infinite => false

def Lifetime.refuses : Lifetime → Bool
  | .default => true
  | .phoenix | .infinite => false

inductive Creation where
  | object
  | null
  | throws
  deriving DecidableEq, Repr

inductive Access where
  | reference (object : Nat)
  | nullReference
  | deadReference
  | creationFailed
  deriving DecidableEq, Repr

/-- Objects are numbered in the order of their creation. `callbacks` counts the callbacks
that are registered and have not run; `destroyCalls` are the arguments of `Create::destroy`,
and `refused` tells that `on_dead_ref` has thrown. -/
structure State where
  destroyed_ : Bool
  instance_ : Option Nat
  callbacks : Nat
  created : Nat
  destroyCalls : List (Option Nat)
  refused : Bool
  deriving DecidableEq, Repr

def destroy (state : State) : State :=
  if state.destroyed_ then state
  else { state with
    destroyCalls := state.destroyCalls ++ [state.instance_]
    instance_ := none
    destroyed_ := true }

/-- The creation in `instance()` and the registration of the callback. -/
def create (lifetime : Lifetime) (creation : Creation) (state : State) : State × Access :=
  let callbacks := if lifetime.schedules then state.callbacks + 1 else state.callbacks
  match creation with
  | .object =>
      ({ state with
          instance_ := some state.created
          created := state.created + 1
          callbacks := callbacks }, .reference state.created)
  | .null => ({ state with callbacks := callbacks }, .nullReference)
  | .throws => (state, .creationFailed)

/-- `instance()`. The flag is reset before `on_dead_ref` is called. -/
def instanceOf (lifetime : Lifetime) (creation : Creation) (state : State) : State × Access :=
  match state.instance_ with
  | some object => (state, .reference object)
  | none =>
      if state.destroyed_ then
        if lifetime.refuses then
          ({ state with destroyed_ := false, refused := true }, .deadReference)
        else create lifetime creation { state with destroyed_ := false }
      else create lifetime creation state

def destroyInstance (state : State) : State :=
  if state.instance_.isSome then destroy state else state

inductive Label where
  | instanceOf (creation : Creation)
  | destroyInstance
  | callback
  deriving DecidableEq, Repr

def next (lifetime : Lifetime) (state : State) : Label → Option State
  | .instanceOf creation => some (instanceOf lifetime creation state).1
  | .destroyInstance => some (destroyInstance state)
  | .callback =>
      if state.callbacks = 0 then none
      else some (destroy { state with callbacks := state.callbacks - 1 })

def start : State := ⟨false, none, 0, 0, [], false⟩

def machine (lifetime : Lifetime) : Machine State Label where
  initial := fun state => state = start
  next := next lifetime

/-- An object is alive until `Create::destroy` is called on it. -/
def State.Alive (state : State) (object : Nat) : Prop :=
  object < state.created ∧ some object ∉ state.destroyCalls

/-- After a dead reference nobody accesses the singleton again and no callback runs; a
creation gives an object, or throws while no callback is registered. -/
def Undisturbed (state : State) : Label → Prop
  | .instanceOf creation =>
      state.refused = false ∧ (creation = .object ∨ creation = .throws ∧ state.callbacks = 0)
  | .destroyInstance => True
  | .callback => state.refused = false

instance (state : State) (label : Label) : Decidable (Undisturbed state label) :=
  match label with
  | .instanceOf _ => inferInstanceAs (Decidable (_ ∧ _))
  | .destroyInstance => inferInstanceAs (Decidable True)
  | .callback => inferInstanceAs (Decidable (_ = _))

/-- The objects were destroyed in the order of their creation, all but the current one. The
flag is set once there is none, unless nothing was created or an access failed. -/
structure Inv (lifetime : Lifetime) (state : State) : Prop where
  calls : state.destroyCalls = (List.range state.destroyCalls.length).map some
  current : ∀ object, state.instance_ = some object → object = state.destroyCalls.length ∧
    state.created = state.destroyCalls.length + 1 ∧ state.destroyed_ = false ∧
    state.refused = false
  absent : state.instance_ = none → state.created = state.destroyCalls.length
  -- a callback that finds the flag unset finds the object
  armed : state.refused = false → state.destroyed_ = false → 0 < state.callbacks →
    state.instance_ ≠ none
  registered : lifetime.schedules = true → state.instance_ ≠ none → 0 < state.callbacks
  -- an object that is refused stays refused
  dead : lifetime.refuses = true → state.refused = false → state.destroyCalls ≠ [] →
    state.instance_ = none ∧ state.destroyed_ = true

section Steps

variable {lifetime : Lifetime} {state : State}

theorem inv_start : Inv lifetime start where
  calls := rfl
  current := fun _ hcurrent => by contradiction
  absent := fun _ => rfl
  armed := fun _ _ hcallbacks => absurd hcallbacks (Nat.lt_irrefl 0)
  registered := fun _ hcurrent => absurd rfl hcurrent
  dead := fun _ _ hcalls => absurd rfl hcalls

/-- `destroy` finds the flag set or the current object, and leaves none. A callback that calls
it is not registered any more. -/
theorem Inv.destroy (hinv : Inv lifetime state) {callbacks : Nat}
    (hfewer : callbacks ≤ state.callbacks)
    (harmed : state.destroyed_ = false → state.instance_ ≠ none) :
    Inv lifetime (destroy { state with callbacks := callbacks }) := by
  unfold Singleton.destroy
  split
  · rename_i hflag
    have hnone : state.instance_ = none := by
      rw [Option.eq_none_iff_forall_ne_some]
      intro object hobject
      exact absurd (hflag.symm.trans (hinv.current object hobject).2.2.1) (by simp)
    constructor
    · exact hinv.calls
    · exact hinv.current
    · exact hinv.absent
    · intro hrefused hunset hpending
      exact hinv.armed hrefused hunset (Nat.lt_of_lt_of_le hpending hfewer)
    · exact fun _ hcurrent => absurd hnone hcurrent
    · exact hinv.dead
  · rename_i hflag
    obtain ⟨object, hobject⟩ := Option.ne_none_iff_exists'.mp (harmed (by simpa using hflag))
    obtain ⟨hlast, hcreated, _, _⟩ := hinv.current object hobject
    constructor
    · simp only [List.length_append, List.length_singleton, List.range_succ, List.map_append,
        List.map_singleton, ← hinv.calls, hobject, hlast]
    · simp
    · simp [hcreated]
    · simp
    · simp
    · simp

theorem Inv.create (hinv : Inv lifetime state) (hnone : state.instance_ = none)
    (hrefused : state.refused = false)
    (hpolicy : lifetime.refuses = true → state.destroyCalls = []) {creation : Creation}
    (hcreation : creation = .object ∨ creation = .throws ∧ state.callbacks = 0) :
    Inv lifetime (create lifetime creation { state with destroyed_ := false }).1 := by
  have hcreated := hinv.absent hnone
  rcases hcreation with rfl | ⟨rfl, hcallbacks⟩
  · constructor
    · exact hinv.calls
    · intro object hobject
      cases hobject
      exact ⟨hcreated, congrArg (· + 1) hcreated, rfl, hrefused⟩
    · simp [Singleton.create]
    · simp [Singleton.create]
    · intro hschedules _
      simp [Singleton.create, hschedules]
    · intro hrefuses _ hcalls
      exact absurd (hpolicy hrefuses) hcalls
  · constructor
    · exact hinv.calls
    · intro object hobject
      exact absurd (hnone.symm.trans hobject) (by simp)
    · exact fun _ => hcreated
    · intro _ _ (hpending : 0 < state.callbacks)
      omega
    · exact fun _ hcurrent => absurd hnone hcurrent
    · intro hrefuses _ hcalls
      exact absurd (hpolicy hrefuses) hcalls

theorem Inv.instanceOf (hinv : Inv lifetime state) {creation : Creation}
    (hallowed : Undisturbed state (.instanceOf creation)) :
    Inv lifetime (instanceOf lifetime creation state).1 := by
  obtain ⟨hrefused, hcreation⟩ := hallowed
  unfold Singleton.instanceOf
  split
  · exact hinv
  · rename_i hnone
    split
    · split
      · -- the access fails and only the flag and the history change
        constructor
        · exact hinv.calls
        · intro object hobject
          exact absurd (hnone.symm.trans hobject) (by simp)
        · exact fun _ => hinv.absent hnone
        · simp
        · exact fun _ hcurrent => absurd hnone hcurrent
        · simp
      · rename_i hpolicy
        exact hinv.create hnone hrefused (fun hrefuses => absurd hrefuses hpolicy) hcreation
    · rename_i hflag
      have hfirst : lifetime.refuses = true → state.destroyCalls = [] := by
        intro hrefuses
        by_contra hcalls
        exact hflag (hinv.dead hrefuses hrefused hcalls).2
      have hsame : state = { state with destroyed_ := false } := by
        rw [Bool.not_eq_true] at hflag
        rw [← hflag]
      have hcreate := hinv.create hnone hrefused hfirst hcreation
      rwa [← hsame] at hcreate

theorem Inv.next {label : Label} {after : State} (hinv : Inv lifetime state)
    (hallowed : Undisturbed state label) (hnext : next lifetime state label = some after) :
    Inv lifetime after := by
  cases label with
  | instanceOf creation =>
      cases hnext
      exact hinv.instanceOf hallowed
  | destroyInstance =>
      cases hnext
      unfold Singleton.destroyInstance
      split
      · rename_i hsome
        exact hinv.destroy (Nat.le_refl _) fun _ => Option.isSome_iff_ne_none.mp hsome
      · exact hinv
  | callback =>
      simp only [Singleton.next] at hnext
      split at hnext
      · contradiction
      · rename_i hpending
        cases hnext
        exact hinv.destroy (Nat.sub_le _ 1) fun hflag =>
          hinv.armed hallowed hflag (Nat.pos_of_ne_zero hpending)

theorem inv_of_reachable (hreach : (machine lifetime).ReachableUnder Undisturbed state) :
    Inv lifetime state := by
  apply hreach.invariant (Inv lifetime)
  · rintro _ rfl
    exact inv_start
  · intro before label after hinv hallowed hnext
    exact hinv.next hallowed hnext

theorem Inv.count_calls (hinv : Inv lifetime state) (object : Nat) :
    state.destroyCalls.count (some object) =
      if object < state.destroyCalls.length then 1 else 0 := by
  have honce : ((List.range state.destroyCalls.length).map some).Nodup :=
    List.nodup_range.map (Option.some_injective Nat)
  rw [← hinv.calls] at honce
  have hmember : some object ∈ state.destroyCalls ↔ object < state.destroyCalls.length := by
    rw [hinv.calls]
    simp
  rw [honce.count]
  simp only [hmember]

theorem Inv.calls_le (hinv : Inv lifetime state) : state.destroyCalls.length ≤ state.created := by
  cases hcurrent : state.instance_ with
  | none => exact Nat.le_of_eq (hinv.absent hcurrent).symm
  | some object =>
      have hcreated := (hinv.current object hcurrent).2.1
      omega

theorem Inv.alive_iff (hinv : Inv lifetime state) (object : Nat) :
    state.Alive object ↔ state.instance_ = some object := by
  have hcalls : some object ∉ state.destroyCalls ↔ state.destroyCalls.length ≤ object := by
    rw [← List.count_eq_zero, hinv.count_calls]
    split <;> omega
  rw [State.Alive, hcalls]
  cases hcurrent : state.instance_ with
  | none =>
      have hcreated := hinv.absent hcurrent
      simp
      omega
  | some current =>
      obtain ⟨hlast, hcreated, _⟩ := hinv.current current hcurrent
      rw [Option.some.injEq]
      omega

end Steps

/-- `Create::destroy` is called on the current object, once on each object that is not
current any more, and of two objects one is dead. Once the exit callbacks have run, nothing
is alive. A dead object of the default lifetime is refused. -/
theorem destroyed_once_each (lifetime : Lifetime) (state : State)
    (hreach : (machine lifetime).ReachableUnder Undisturbed state) :
    (∀ argument ∈ state.destroyCalls, ∃ object < state.created, argument = some object) ∧
      (∀ object < state.created, state.destroyCalls.count (some object) =
        if state.instance_ = some object then 0 else 1) ∧
      (∀ first second, state.Alive first → state.Alive second →
        first = second ∧ state.instance_ = some first) ∧
      (lifetime.schedules = true → state.callbacks = 0 → ∀ object, ¬ state.Alive object) ∧
      (lifetime = .default → state.destroyCalls ≠ [] → ∀ creation,
        Undisturbed state (.instanceOf creation) →
          (instanceOf lifetime creation state).2 = .deadReference) := by
  have hinv := inv_of_reachable hreach
  refine ⟨?_, ?_, ?_, ?_, ?_⟩
  · intro argument hargument
    rw [hinv.calls, List.mem_map] at hargument
    obtain ⟨object, hobject, rfl⟩ := hargument
    refine ⟨object, ?_, rfl⟩
    rw [List.mem_range] at hobject
    exact Nat.lt_of_lt_of_le hobject hinv.calls_le
  · intro object hobject
    have halive := hinv.alive_iff object
    rw [State.Alive, ← List.count_eq_zero] at halive
    rw [hinv.count_calls] at halive ⊢
    split <;> split <;> simp_all
  · intro first second hfirst hsecond
    have hcurrent := (hinv.alive_iff first).mp hfirst
    have hother := (hinv.alive_iff second).mp hsecond
    exact ⟨Option.some.inj (hcurrent.symm.trans hother), hcurrent⟩
  · intro hschedules hcallbacks object halive
    have hcurrent := (hinv.alive_iff object).mp halive
    have hpending := hinv.registered hschedules (by simp [hcurrent])
    omega
  · rintro rfl hcalls creation ⟨hrefused, _⟩
    obtain ⟨hnone, hflag⟩ := hinv.dead rfl hrefused hcalls
    simp [instanceOf, hnone, hflag, Lifetime.refuses]

/-- Two objects after one another, the second destroyed by its exit callback. -/
def rebirth : List Label :=
  [.instanceOf .object, .destroyInstance, .instanceOf .object, .callback, .callback]

theorem rebirth_destroyed_once_each :
    ∃ state : State, (machine .phoenix).ReachableUnder Undisturbed state ∧
      state.created = 2 ∧ state.callbacks = 0 ∧ ∀ object < 2,
        state.destroyCalls.count (some object) =
          if state.instance_ = some object then 0 else 1 := by
  obtain ⟨state, hreach, htest⟩ := Machine.exists_reachableUnder_of_replay (machine .phoenix)
    Undisturbed start rebirth
    (fun state => decide (state.created = 2 ∧ state.callbacks = 0))
    rfl (by decide)
  obtain ⟨hcreated, hcallbacks⟩ := of_decide_eq_true htest
  have honce := (destroyed_once_each .phoenix state hreach).2.1
  rw [hcreated] at honce
  exact ⟨state, hreach, hcreated, hcallbacks, honce⟩

/-- An access that fails resets the flag. The exit callback of the dead object then calls
`Create::destroy` on the null pointer, and the next access creates a second object. -/
theorem dead_reference_forgotten :
    (∃ state, (machine .default).Reachable state ∧ none ∈ state.destroyCalls) ∧
      ∃ state, (machine .default).Reachable state ∧ some 0 ∈ state.destroyCalls ∧
        (instanceOf .default .object state).2 = .reference 1 := by
  constructor
  · obtain ⟨state, hreach, htest⟩ := Machine.exists_reachable_of_replay (machine .default) start
      [.instanceOf .object, .destroyInstance, .instanceOf .object, .callback]
      (fun state => decide (none ∈ state.destroyCalls)) rfl (by decide)
    exact ⟨state, hreach, of_decide_eq_true htest⟩
  · obtain ⟨state, hreach, htest⟩ := Machine.exists_reachable_of_replay (machine .default) start
      [.instanceOf .object, .destroyInstance, .instanceOf .object]
      (fun state => decide (some 0 ∈ state.destroyCalls ∧
        (instanceOf .default .object state).2 = .reference 1)) rfl (by decide)
    exact ⟨state, hreach, of_decide_eq_true htest⟩

end Crossbow.Singleton
