import Mathlib.Logic.Function.Basic

/-! Commands on a state. A command has no outcome where its behaviour is
undefined; otherwise it ends in a state, with a value or with a fault. `Returns`
and `Throws` are total: they say that the command ends, and how. -/
namespace Crossbow.Kernel

def Command (State Fault Value : Type) : Type :=
  State → Option (Except Fault Value × State)

namespace Command

variable {State Fault Value Result : Type} {post : Value → State → Prop}

instance : Monad (Command State Fault) where
  pure value := fun state => some (.ok value, state)
  bind command next := fun state =>
    match command state with
    | none => none
    | some (.error fault, after) => some (.error fault, after)
    | some (.ok value, after) => next value after

def get : Command State Fault State := fun state => some (.ok state, state)

def modify (change : State → State) : Command State Fault Unit :=
  fun state => some (.ok (), change state)

def throw (fault : Fault) : Command State Fault Value := fun state => some (.error fault, state)

def undefined : Command State Fault Value := fun _ => none

def Returns (command : Command State Fault Value) (state : State)
    (post : Value → State → Prop) : Prop :=
  ∃ value after, command state = some (.ok value, after) ∧ post value after

def Throws (command : Command State Fault Value) (state : State)
    (post : Fault → State → Prop) : Prop :=
  ∃ fault after, command state = some (.error fault, after) ∧ post fault after

variable {state : State} {command : Command State Fault Value}
  {next : Value → Command State Fault Result}

theorem Returns.pure {value : Value} (hpost : post value state) :
    Returns (Pure.pure value : Command State Fault Value) state post :=
  ⟨value, state, rfl, hpost⟩

theorem Returns.bind {post : Result → State → Prop}
    (hcommand : Returns command state fun value middle => Returns (next value) middle post) :
    Returns (command >>= next) state post := by
  obtain ⟨value, middle, hrun, result, after, hnext, hpost⟩ := hcommand
  refine ⟨result, after, ?_, hpost⟩
  simp only [Bind.bind, hrun, hnext]

theorem Returns.mono {weaker : Value → State → Prop} (hcommand : Returns command state post)
    (himplies : ∀ value after, post value after → weaker value after) :
    Returns command state weaker := by
  obtain ⟨value, after, hrun, hpost⟩ := hcommand
  exact ⟨value, after, hrun, himplies value after hpost⟩

theorem Returns.seq {middle : Value → State → Prop} {post : Result → State → Prop}
    (hcommand : Returns command state middle)
    (hnext : ∀ value after, middle value after → Returns (next value) after post) :
    Returns (command >>= next) state post :=
  Returns.bind (hcommand.mono hnext)

theorem Returns.get {post : State → State → Prop} (hpost : post state state) :
    Returns (Command.get : Command State Fault State) state post :=
  ⟨state, state, rfl, hpost⟩

theorem Returns.ofGet {next : State → Command State Fault Result} {post : Result → State → Prop}
    (hnext : Returns (next state) state post) : Returns (Command.get >>= next) state post :=
  Returns.bind (Returns.get hnext)

theorem Returns.modify {change : State → State} {post : Unit → State → Prop}
    (hpost : post () (change state)) :
    Returns (Command.modify change : Command State Fault Unit) state post :=
  ⟨(), change state, rfl, hpost⟩

theorem Throws.throw {fault : Fault} {post : Fault → State → Prop} (hpost : post fault state) :
    Throws (Command.throw fault : Command State Fault Value) state post :=
  ⟨fault, state, rfl, hpost⟩

theorem Throws.later {post : Fault → State → Prop}
    (hcommand : Returns command state fun value middle => Throws (next value) middle post) :
    Throws (command >>= next) state post := by
  obtain ⟨value, middle, hrun, fault, after, hnext, hpost⟩ := hcommand
  refine ⟨fault, after, ?_, hpost⟩
  simp only [Bind.bind, hrun, hnext]

theorem Throws.now {post : Fault → State → Prop} (hcommand : Throws command state post) :
    Throws (command >>= next) state post := by
  obtain ⟨fault, after, hrun, hpost⟩ := hcommand
  refine ⟨fault, after, ?_, hpost⟩
  simp only [Bind.bind, hrun]

theorem Returns.isSome (hcommand : Returns command state post) :
    (command state).isSome := by
  obtain ⟨value, after, hrun, _⟩ := hcommand
  rw [hrun]
  rfl

theorem Throws.isSome {post : Fault → State → Prop} (hcommand : Throws command state post) :
    (command state).isSome := by
  obtain ⟨fault, after, hrun, _⟩ := hcommand
  rw [hrun]
  rfl

theorem Returns.congr {other : Command State Fault Value} (hsame : command state = other state)
    (hother : Returns other state post) :
    Returns command state post := by
  unfold Returns
  rwa [hsame]

theorem bind_congr {other : Value → Command State Fault Result}
    (hcommand : Returns command state post)
    (hsame : ∀ value after, post value after → next value after = other value after) :
    (command >>= next) state = (command >>= other) state := by
  obtain ⟨value, after, hrun, hpost⟩ := hcommand
  simp only [Bind.bind, hrun, hsame value after hpost]

theorem bind_undefined (hcommand : Returns command state post)
    (hundefined : ∀ value after, post value after → next value after = none) :
    (command >>= next) state = none := by
  obtain ⟨value, after, hrun, hpost⟩ := hcommand
  simp only [Bind.bind, hrun, hundefined value after hpost]

theorem Returns.and {other : Value → State → Prop} (hcommand : Returns command state post)
    (hother : ∀ value after, command state = some (.ok value, after) → other value after) :
    Returns command state fun value after => post value after ∧ other value after := by
  obtain ⟨value, after, hrun, hpost⟩ := hcommand
  exact ⟨value, after, hrun, hpost, hother value after hrun⟩

theorem get_bind (next : State → Command State Fault Result) :
    (Command.get >>= next) state = next state state := rfl

theorem pure_bind (value : Value) :
    ((Pure.pure value : Command State Fault Value) >>= next) state = next value state := rfl

theorem bind_of_ok {value : Value} {after : State}
    (hrun : command state = some (.ok value, after)) :
    (command >>= next) state = next value after := by
  simp only [Bind.bind, hrun]

theorem bind_of_none (hrun : command state = none) : (command >>= next) state = none := by
  simp only [Bind.bind, hrun]

theorem bind_assoc {Last : Type} (last : Result → Command State Fault Last) :
    ((command >>= next) >>= last) = command >>= fun value => next value >>= last := by
  funext state
  simp only [Bind.bind]
  rcases command state with _ | ⟨fault | value, after⟩ <;> rfl

theorem bind_eq_ok {result : Result} {after : State} :
    (command >>= next) state = some (.ok result, after) ↔
      ∃ value middle, command state = some (.ok value, middle) ∧
        next value middle = some (.ok result, after) := by
  simp only [Bind.bind]
  rcases hrun : command state with _ | ⟨thrown | value, middle⟩
  · simp
  · simp
  · simp [and_assoc]

/-- A sequence throws what its first command throws, or what the second one throws
in the state that the first has left. -/
theorem bind_eq_error {fault : Fault} {after : State} :
    (command >>= next) state = some (.error fault, after) ↔
      command state = some (.error fault, after) ∨
        ∃ value middle, command state = some (.ok value, middle) ∧
          next value middle = some (.error fault, after) := by
  simp only [Bind.bind]
  rcases hrun : command state with _ | ⟨thrown | value, middle⟩
  · simp
  · simp
  · simp [and_assoc]

/-- Every fault that a command can end with is one of those allowed. -/
structure Faults (allowed : Fault → Prop) (command : Command State Fault Value) : Prop where
  only : ∀ {state fault after}, command state = some (.error fault, after) → allowed fault

section Faults

variable {allowed : Fault → Prop}

theorem Faults.bind (hcommand : Faults allowed command)
    (hnext : ∀ value, Faults allowed (next value)) : Faults allowed (command >>= next) := by
  constructor
  intro state fault after hrun
  rcases bind_eq_error.mp hrun with hfirst | ⟨value, middle, _, hsecond⟩
  · exact hcommand.only hfirst
  · exact (hnext value).only hsecond

theorem Faults.pure (value : Value) :
    Faults allowed (Pure.pure value : Command State Fault Value) :=
  ⟨fun hrun => by simp [Pure.pure] at hrun⟩

theorem Faults.get : Faults allowed (Command.get : Command State Fault State) :=
  ⟨fun hrun => by simp [Command.get] at hrun⟩

theorem Faults.modify (change : State → State) :
    Faults allowed (Command.modify change : Command State Fault Unit) :=
  ⟨fun hrun => by simp [Command.modify] at hrun⟩

theorem Faults.undefined : Faults allowed (Command.undefined : Command State Fault Value) :=
  ⟨fun hrun => by simp [Command.undefined] at hrun⟩

theorem Faults.ite {condition : Prop} [Decidable condition]
    {other : Command State Fault Value} (hcommand : Faults allowed command)
    (hother : Faults allowed other) : Faults allowed (if condition then command else other) := by
  split
  · exact hcommand
  · exact hother

theorem Faults.mono {weaker : Fault → Prop} (hcommand : Faults allowed command)
    (himplies : ∀ fault, allowed fault → weaker fault) : Faults weaker command :=
  ⟨fun hrun => himplies _ (hcommand.only hrun)⟩

end Faults

/-- However a command ends, a part of the state is as it was. -/
structure Keeps {Part : Type} (part : State → Part) (command : Command State Fault Value) :
    Prop where
  same : ∀ {state outcome after}, command state = some (outcome, after) → part after = part state

section Keeps

variable {Part : Type} {part : State → Part}

theorem Keeps.bind (hcommand : Keeps part command) (hnext : ∀ value, Keeps part (next value)) :
    Keeps part (command >>= next) := by
  constructor
  intro state outcome after hrun
  simp only [Bind.bind] at hrun
  rcases hfirst : command state with _ | ⟨fault | value, middle⟩
  · simp [hfirst] at hrun
  · rw [hfirst] at hrun
    cases hrun
    exact hcommand.same hfirst
  · rw [hfirst] at hrun
    exact ((hnext value).same hrun).trans (hcommand.same hfirst)

theorem Keeps.pure (value : Value) : Keeps part (Pure.pure value : Command State Fault Value) := by
  constructor
  intro state outcome after hrun
  cases hrun
  rfl

theorem Keeps.get : Keeps part (Command.get : Command State Fault State) := by
  constructor
  intro state outcome after hrun
  cases hrun
  rfl

theorem Keeps.modify {change : State → State}
    (hchange : ∀ state, part (change state) = part state) :
    Keeps part (Command.modify change : Command State Fault Unit) := by
  constructor
  intro state outcome after hrun
  cases hrun
  exact hchange state

theorem Keeps.undefined : Keeps part (Command.undefined : Command State Fault Value) := by
  constructor
  intro state outcome after hrun
  cases hrun

theorem Keeps.throw (fault : Fault) :
    Keeps part (Command.throw fault : Command State Fault Value) := by
  constructor
  intro state outcome after hrun
  cases hrun
  rfl

theorem Keeps.ite {condition : Prop} [Decidable condition] {other : Command State Fault Value}
    (hcommand : Keeps part command) (hother : Keeps part other) :
    Keeps part (if condition then command else other) := by
  split
  · exact hcommand
  · exact hother

end Keeps

/-- Where a command throws, `post` holds. It may as well return, or be undefined. -/
structure OnFault (command : Command State Fault Value) (state : State)
    (post : Fault → State → Prop) : Prop where
  leaves : ∀ {fault after}, command state = some (.error fault, after) → post fault after

section OnFault

variable {post : Fault → State → Prop}

theorem OnFault.mono {weaker : Fault → State → Prop} (hcommand : OnFault command state post)
    (himplies : ∀ fault after, post fault after → weaker fault after) :
    OnFault command state weaker :=
  ⟨fun hrun => himplies _ _ (hcommand.leaves hrun)⟩

theorem OnFault.bind (hcommand : OnFault command state post)
    (hnext : ∀ value after, command state = some (.ok value, after) →
      OnFault (next value) after post) : OnFault (command >>= next) state post := by
  constructor
  intro fault after hrun
  rcases bind_eq_error.mp hrun with hfirst | ⟨value, middle, hfirst, hsecond⟩
  · exact hcommand.leaves hfirst
  · exact (hnext value middle hfirst).leaves hsecond

theorem OnFault.get {next : State → Command State Fault Result}
    (hnext : OnFault (next state) state post) : OnFault (Command.get >>= next) state post :=
  ⟨hnext.leaves⟩

theorem OnFault.silent (hsilent : Faults (fun _ => False) command) : OnFault command state post :=
  ⟨fun hrun => (hsilent.only hrun).elim⟩

theorem OnFault.first (hcommand : OnFault command state post)
    (hnext : ∀ value, Faults (fun _ => False) (next value)) :
    OnFault (command >>= next) state post :=
  hcommand.bind fun value _ _ => .silent (hnext value)

theorem OnFault.throw {fault : Fault} (hpost : post fault state) :
    OnFault (Command.throw fault : Command State Fault Value) state post := by
  constructor
  intro other after hrun
  obtain ⟨rfl, rfl⟩ : fault = other ∧ state = after := by simpa [Command.throw] using hrun
  exact hpost

theorem OnFault.ite {condition : Prop} [Decidable condition]
    {other : Command State Fault Value} (hcommand : OnFault command state post)
    (hother : OnFault other state post) :
    OnFault (if condition then command else other) state post := by
  split
  · exact hcommand
  · exact hother

theorem onFault_congr {other : Command State Fault Value} (hsame : command state = other state) :
    OnFault command state post ↔ OnFault other state post :=
  ⟨fun hcommand => ⟨fun hrun => hcommand.leaves (hsame.trans hrun)⟩,
    fun hother => ⟨fun hrun => hother.leaves (hsame.symm.trans hrun)⟩⟩

end OnFault

end Command
end Crossbow.Kernel
