import Crossbow.BasicString.Strings

/-! The invariant of a run: each live string holds its list, and the allocated
blocks are owned by the live strings, each by exactly one. -/
namespace Crossbow.BasicString
open Kernel

structure Sound (strings : Nat → Option Memory) (heap : Heap)
    (lists : Nat → Option (List UInt8)) : Prop where
  holds : ∀ id, Option.Rel (fun arr list => Holds arr heap list) (strings id) (lists id)
  apart : ∀ id other address, Owns (strings id) address → Owns (strings other) address →
    id = other
  owned : ∀ address, heap address ≠ none → ∃ id, Owns (strings id) address

variable {strings : Nat → Option Memory} {heap : Heap} {lists : Nat → Option (List UInt8)}

theorem Sound.start : Sound (fun _ => none) (fun _ => none) (fun _ => none) :=
  ⟨fun _ => .none, fun _ _ address howns => absurd howns (owns_none address),
    fun _ hne => absurd rfl hne⟩

theorem Sound.exists_holds (hsound : Sound strings heap lists) {id : Nat} {list : List UInt8}
    (hlist : lists id = some list) : ∃ arr, strings id = some arr ∧ Holds arr heap list := by
  have hrel := hsound.holds id
  rw [hlist] at hrel
  generalize strings id = string at hrel ⊢
  cases hrel with
  | some hholds => exact ⟨_, rfl, hholds⟩

theorem Sound.dead (hsound : Sound strings heap lists) {id : Nat} (hlist : lists id = none) :
    strings id = none := by
  have hrel := hsound.holds id
  rw [hlist] at hrel
  generalize strings id = string at hrel ⊢
  cases hrel
  rfl

theorem Sound.live (hsound : Sound strings heap lists) {id address : Nat}
    (howns : Owns (strings id) address) : heap address ≠ none := by
  have hrel := hsound.holds id
  generalize strings id = string at hrel howns
  generalize lists id = list at hrel
  intro hfree
  cases hrel with
  | some hholds => exact hholds.shaped.ptr_ne_free hfree ((owns_some ..).mp howns)
  | none => exact owns_none address howns

theorem Sound.update (hsound : Sound strings heap lists) {id : Nat} {after : Option Memory}
    {newHeap : Heap} {list : Option (List UInt8)}
    (htransfer : Transfer (strings id) heap after newHeap)
    (hholds : Option.Rel (fun arr text => Holds arr newHeap text) after list) :
    Sound (Function.update strings id after) newHeap (Function.update lists id list) := by
  -- the blocks of the others are neither taken over nor released
  have hothers : ∀ other address, other ≠ id → Owns (strings other) address →
      ¬ Owns (strings id) address ∧ ¬ Owns after address := by
    intro other address hne howns
    have hapart : ¬ Owns (strings id) address :=
      fun hid => hne (hsound.apart other id address howns hid)
    refine ⟨hapart, fun hafter => ?_⟩
    rcases htransfer.fresh address hafter with hbefore | hfree
    · exact hapart hbefore
    · exact hsound.live howns hfree
  constructor
  · intro other
    by_cases hne : other = id
    · rw [hne, Function.update_self, Function.update_self]
      exact hholds
    · rw [Function.update_of_ne hne, Function.update_of_ne hne]
      have hrel := hsound.holds other
      have hkeep := hothers other
      generalize strings other = string at hrel hkeep ⊢
      generalize lists other = text at hrel ⊢
      cases hrel with
      | none => exact .none
      | some hother =>
          refine .some (hother.heap_congr fun address hptr => ?_)
          obtain ⟨hbefore, hafter⟩ := hkeep address hne ((owns_some ..).mpr hptr)
          exact htransfer.others address hbefore hafter
  · intro first second address hfirst hsecond
    by_cases hone : first = id
    · by_cases htwo : second = id
      · rw [hone, htwo]
      · rw [hone, Function.update_self] at hfirst
        rw [Function.update_of_ne htwo] at hsecond
        exact absurd hfirst (hothers second address htwo hsecond).2
    · rw [Function.update_of_ne hone] at hfirst
      by_cases htwo : second = id
      · rw [htwo, Function.update_self] at hsecond
        exact absurd hsecond (hothers first address hone hfirst).2
      · rw [Function.update_of_ne htwo] at hsecond
        exact hsound.apart first second address hfirst hsecond
  · intro address hlive
    by_cases hafter : Owns after address
    · exact ⟨id, by rw [Function.update_self]; exact hafter⟩
    · have hbefore : ¬ Owns (strings id) address :=
        fun hbefore => hlive (htransfer.released address hbefore hafter)
      rw [htransfer.others address hbefore hafter] at hlive
      obtain ⟨owner, howner⟩ := hsound.owned address hlive
      have hne : owner ≠ id := fun heq => hbefore (heq ▸ howner)
      exact ⟨owner, by rw [Function.update_of_ne hne]; exact howner⟩

theorem Sound.rename (hsound : Sound strings heap lists) (names : Equiv.Perm Nat) :
    Sound (strings ∘ names) heap (lists ∘ names) := by
  constructor
  · intro id
    exact hsound.holds (names id)
  · intro id other address hid hother
    exact names.injective (hsound.apart _ _ address hid hother)
  · intro address hlive
    obtain ⟨owner, howner⟩ := hsound.owned address hlive
    exact ⟨names.symm owner, by rwa [Function.comp_apply, Equiv.apply_symm_apply]⟩

theorem comp_swap {α : Type} (values : Nat → α) (id other : Nat) :
    values ∘ Equiv.swap id other =
      Function.update (Function.update values id (values other)) other (values id) := by
  funext place
  rw [Function.comp_apply]
  by_cases hother : place = other
  · rw [hother, Equiv.swap_apply_right, Function.update_self]
  · rw [Function.update_of_ne hother]
    by_cases hid : place = id
    · rw [hid, Equiv.swap_apply_left, Function.update_self]
    · rw [Function.update_of_ne hid, Equiv.swap_apply_of_ne_of_ne hid hother]

theorem Sound.swap (hsound : Sound strings heap lists) (id other : Nat) :
    Sound (Function.update (Function.update strings id (strings other)) other (strings id)) heap
      (Function.update (Function.update lists id (lists other)) other (lists id)) := by
  have hrenamed := hsound.rename (Equiv.swap id other)
  rwa [comp_swap, comp_swap] at hrenamed

theorem Sound.move (hsound : Sound strings heap lists) {id other : Nat} {newHeap : Heap}
    (hne : id ≠ other) (htransfer : Transfer (strings id) heap none newHeap) :
    Sound (Function.update (Function.update strings id (strings other)) other (some zeroArr))
      newHeap (Function.update (Function.update lists id (lists other)) other (some [])) := by
  have hempty : Transfer (strings id) heap (some zeroArr) newHeap := by
    refine htransfer.trans (.keep fun address => ?_)
    have hmark : zeroArr 0 ≠ nullchar := by decide
    exact iff_of_false (not_owns_inline hmark address) (owns_none address)
  have hmoved := (hsound.update hempty (.some (holds_zeroArr newHeap))).swap id other
  rwa [Function.update_self, Function.update_self, Function.update_of_ne hne.symm,
    Function.update_of_ne hne.symm, Function.update_idem, Function.update_idem] at hmoved

/-! ### Steps -/

theorem State.contents_eq {state : State} {arr : Memory} {list : List UInt8}
    (hholds : Holds arr state.heap list) : state.contents arr = some list := by
  have hfits := hholds.fits
  have hedited := @Edited.refl (state.mem arr none) _ hholds.shaped
  obtain ⟨text, after, hrun, htext, _⟩ :=
    hedited.readChars (show 0 + list.length ≤ getCapacity arr + 1 by omega)
  have hcontent : text = list := htext.trans hholds.content
  unfold State.contents
  rw [hholds.size, show readChars (getPtr arr) 0 list.length (state.mem arr none) = _ from hrun,
    hcontent]

theorem Sound.read {state : State} (hsound : Sound state.strings state.heap state.lists)
    {source : Source} {arg : List UInt8} (harg : state.listOf source = some arg) :
    state.read source = some arg := by
  cases source with
  | chars text => exact harg
  | string id =>
      obtain ⟨arr, hstring, hholds⟩ := hsound.exists_holds harg
      show (state.strings id).bind state.contents = some arg
      rw [hstring, Option.bind_some]
      exact State.contents_eq hholds

def Label.AssignsString : Label → Prop
  | .call _ member _ _ => member = .assignString
  | _ => False

instance : (label : Label) → Decidable label.AssignsString
  | .call _ member _ _ => inferInstanceAs (Decidable (member = .assignString))
  | .construct .. | .constructCopy .. | .constructMove .. | .assignMove .. | .swap ..
  | .destroy .. => isFalse id

def State.Sound (state : State) : Prop :=
  BasicString.Sound state.strings state.heap state.lists

section Steps

variable {maxSize : Nat} {state : State} (hsound : state.Sound)
include hsound

theorem step_construct {id : Nat} {ctor : Ctor} {source : Source} {raw : Memory}
    {supply : Option (Nat × Memory)}
    (hpermitted : Permitted maxSize state (.construct id ctor source raw supply)) :
    ∃ after, next maxSize state (.construct id ctor source raw supply) = some after ∧
      after.Sound := by
  obtain ⟨hnew, hsupplied, arg, harg, hallowed⟩ := hpermitted
  have hlist : state.lists id = none := Option.isNone_iff_eq_none.mp hnew
  have hdead := hsound.dead hlist
  have hlists : listNext state (.construct id ctor source raw supply) =
      Function.update state.lists id (outcomeOr (ctor.onList arg) none) := by
    simp only [listNext, show state.listOf source = some arg from harg]
  have hdoes := @Ctor.does (state.mem raw supply) hsupplied ctor arg hallowed
  simp only [next, hsound.read harg, Option.bind_eq_bind, Option.bind_some, hlists]
  cases houtcome : ctor.onList arg with
  | ok text =>
      rw [houtcome] at hdoes
      obtain ⟨_, mem, hrun, hholds, htransfer⟩ := hdoes
      rw [hrun]
      refine ⟨_, rfl, Sound.update hsound ?_ (.some hholds)⟩
      rw [hdead]
      exact htransfer
  | error fault =>
      rw [houtcome] at hdoes
      obtain ⟨_, mem, hrun, _, hmem⟩ := hdoes
      rw [hrun, hmem]
      refine ⟨_, rfl, ?_⟩
      unfold outcomeOr State.Sound
      rw [← hlist, Function.update_eq_self]
      exact hsound

theorem step_constructCopy {id other : Nat} {raw : Memory} {supply : Option (Nat × Memory)}
    (hpermitted : Permitted maxSize state (.constructCopy id other raw supply)) :
    ∃ after, next maxSize state (.constructCopy id other raw supply) = some after ∧
      after.Sound := by
  obtain ⟨hnew, hsupplied, arg, harg, hdouble⟩ := hpermitted
  have hdead := hsound.dead (Option.isNone_iff_eq_none.mp hnew)
  obtain ⟨arr, hstring, hother⟩ := hsound.exists_holds harg
  obtain ⟨_, mem, hrun, hholds, htransfer⟩ :=
    @constructCopy_returns (state.mem raw supply) arr arg hsupplied hother hdouble
  simp only [next, hstring, State.contents_eq hother, Option.bind_eq_bind, Option.bind_some, hrun]
  refine ⟨_, rfl, ?_⟩
  simp only [listNext, show state.lists other = some arg from harg]
  refine Sound.update hsound ?_ (.some hholds)
  rw [hdead]
  exact htransfer

theorem step_call {id : Nat} {call : Call} {source : Source} {supply : Option (Nat × Memory)}
    (hpermitted : Permitted maxSize state (.call id call source supply))
    (hdefined : call ≠ .assignString) :
    ∃ after, next maxSize state (.call id call source supply) = some after ∧ after.Sound := by
  obtain ⟨_, hsupplied, arg, harg, list, hlist, hallowed⟩ := hpermitted
  obtain ⟨arr, hstring, hholds⟩ := hsound.exists_holds hlist
  have hlists : listNext state (.call id call source supply) =
      Function.update state.lists id (outcomeOr (call.onList arg list) (some list)) := by
    simp only [listNext, show state.listOf source = some arg from harg,
      show state.lists id = some list from hlist]
  have hdoes := @Call.does (state.mem arr supply) list hholds hsupplied maxSize call arg hallowed
    hdefined
  simp only [next, hstring, hsound.read harg, Option.bind_eq_bind, Option.bind_some, hlists]
  cases houtcome : call.onList arg list with
  | ok text =>
      rw [houtcome] at hdoes
      obtain ⟨_, mem, hrun, hholds', htransfer⟩ := hdoes
      rw [hrun]
      refine ⟨_, rfl, Sound.update hsound ?_ (.some hholds')⟩
      rw [hstring]
      exact htransfer
  | error fault =>
      rw [houtcome] at hdoes
      obtain ⟨_, mem, hrun, _, hmem⟩ := hdoes
      rw [hrun, hmem]
      refine ⟨_, rfl, Sound.update hsound ?_ (.some hholds)⟩
      rw [hstring]
      exact .keep fun _ => Iff.rfl

theorem step_assignMove {id other : Nat}
    (hpermitted : Permitted maxSize state (.assignMove id other)) :
    ∃ after, next maxSize state (.assignMove id other) = some after ∧ after.Sound := by
  obtain ⟨hne, hid, hother⟩ := hpermitted
  obtain ⟨list, hlist⟩ := Option.isSome_iff_exists.mp hid
  obtain ⟨text, htext⟩ := Option.isSome_iff_exists.mp hother
  obtain ⟨arr, hstring, hholds⟩ := hsound.exists_holds hlist
  obtain ⟨moved, hmoved, _⟩ := hsound.exists_holds htext
  obtain ⟨_, mem, hrun, htransfer⟩ := @moveRelease_returns (state.mem arr none) list hholds
  simp only [next, hstring, hmoved, Option.bind_eq_bind, Option.bind_some, hrun]
  refine ⟨_, rfl, ?_⟩
  have hafter := Sound.move hsound hne (hstring ▸ htransfer)
  rwa [hmoved] at hafter

theorem step_destroy {id : Nat} (hpermitted : Permitted maxSize state (.destroy id)) :
    ∃ after, next maxSize state (.destroy id) = some after ∧ after.Sound := by
  obtain ⟨list, hlist⟩ := Option.isSome_iff_exists.mp hpermitted
  obtain ⟨arr, hstring, hholds⟩ := hsound.exists_holds hlist
  obtain ⟨_, mem, hrun, htransfer⟩ := @destruct_returns (state.mem arr none) list hholds
  simp only [next, hstring, Option.bind_eq_bind, Option.bind_some, hrun]
  exact ⟨_, rfl, Sound.update hsound (hstring ▸ htransfer) .none⟩

theorem step_sound {label : Label} (hpermitted : Permitted maxSize state label)
    (hdefined : ¬ label.AssignsString) :
    ∃ after, next maxSize state label = some after ∧ after.Sound := by
  cases label with
  | construct id ctor source raw supply => exact step_construct hsound hpermitted
  | constructCopy id other raw supply => exact step_constructCopy hsound hpermitted
  | constructMove id other =>
      obtain ⟨hnew, hother⟩ := hpermitted
      have hlist : state.lists id = none := Option.isNone_iff_eq_none.mp hnew
      obtain ⟨text, htext⟩ := Option.isSome_iff_exists.mp hother
      obtain ⟨moved, hmoved, _⟩ := hsound.exists_holds htext
      have hne : id ≠ other := by
        intro heq
        rw [heq, htext] at hlist
        contradiction
      simp only [next, hmoved, Option.bind_eq_bind, Option.bind_some]
      refine ⟨_, rfl, ?_⟩
      have hafter := Sound.move hsound hne
        (show Transfer (state.strings id) state.heap none state.heap from
          .keep fun _ => by rw [hsound.dead hlist])
      rwa [hmoved] at hafter
  | call id call source supply => exact step_call hsound hpermitted hdefined
  | assignMove id other => exact step_assignMove hsound hpermitted
  | swap id other =>
      obtain ⟨_, hid, hother⟩ := hpermitted
      obtain ⟨list, hlist⟩ := Option.isSome_iff_exists.mp hid
      obtain ⟨text, htext⟩ := Option.isSome_iff_exists.mp hother
      obtain ⟨arr, hstring, _⟩ := hsound.exists_holds hlist
      obtain ⟨swapped, hswapped, _⟩ := hsound.exists_holds htext
      simp only [next, hstring, hswapped, Option.bind_eq_bind, Option.bind_some]
      refine ⟨_, rfl, ?_⟩
      have hafter := Sound.swap hsound id other
      rwa [hstring, hswapped] at hafter
  | destroy id => exact step_destroy hsound hpermitted

end Steps

/-- A step within the preconditions of the interface, other than the call that
falls off its end. -/
def Regular (maxSize : Nat) (state : State) (label : Label) : Prop :=
  Permitted maxSize state label ∧ ¬ label.AssignsString

instance (maxSize : Nat) (state : State) (label : Label) :
    Decidable (Regular maxSize state label) := by
  unfold Regular
  infer_instance

theorem sound_of_reachable {maxSize : Nat} {state : State}
    (hreach : (machine maxSize).ReachableUnder (Regular maxSize) state) : state.Sound := by
  apply hreach.invariant State.Sound
  · rintro _ rfl
    exact Sound.start
  · intro before label after hbefore hregular hnext
    obtain ⟨_, hnext', hafter⟩ := step_sound hbefore hregular.1 hregular.2
    cases hnext'.symm.trans hnext
    exact hafter

theorem Holds.mark_iff {arr : Memory} {list : List UInt8} (hholds : Holds arr heap list) :
    arr 0 = nullchar ↔
      ∃ address block, getPtr arr = .block address ∧ heap address = some block ∧
        maxInBufferSize < getCapacity arr ∧ list.length ≤ getCapacity arr ∧
        getCapacity arr + 1 ≤ block.length := by
  constructor
  · intro hmark
    cases hholds.shaped with
    | inline hinline _ => contradiction
    | onHeap address block _ hptr hblock _ hroom hlength =>
        exact ⟨address, block, hptr, hblock, hroom, hholds.fits, hlength⟩
  · rintro ⟨address, _, hptr, _⟩
    by_contra hmark
    rw [getPtr_inline hmark] at hptr
    contradiction

/-- Over any run, strings stand for the lists that the same operations give, inline
and on the heap alike; heap blocks belong to exactly one live string, and no step
touches or releases anything else. -/
theorem strings_refine_lists {maxSize : Nat} {state : State}
    (hreach : (machine maxSize).ReachableUnder (Regular maxSize) state) :
    (∀ id, (state.strings id = none ∧ state.lists id = none) ∨
      ∃ arr list, state.strings id = some arr ∧ state.lists id = some list ∧
        state.contents arr = some list ∧ getSize arr = list.length ∧
        (arr 0 ≠ nullchar → list.length ≤ maxInBufferSize) ∧
        (arr 0 = nullchar ↔
          ∃ address block, getPtr arr = .block address ∧ state.heap address = some block ∧
            maxInBufferSize < getCapacity arr ∧ list.length ≤ getCapacity arr ∧
            getCapacity arr + 1 ≤ block.length) ∧
        chars arr state.heap list.length = 0) ∧
    (∀ id other address, Owns (state.strings id) address → Owns (state.strings other) address →
      id = other) ∧
    (∀ address, state.heap address ≠ none ↔ ∃ id, Owns (state.strings id) address) ∧
    ((∀ id, state.strings id = none) → ∀ address, state.heap address = none) ∧
    (∀ label, Regular maxSize state label → ∃ after, next maxSize state label = some after) := by
  have hsound := sound_of_reachable hreach
  refine ⟨?_, hsound.apart, ?_, ?_, ?_⟩
  · intro id
    cases hlist : state.lists id with
    | none => exact Or.inl ⟨hsound.dead hlist, rfl⟩
    | some list =>
        obtain ⟨arr, hstring, hholds⟩ := hsound.exists_holds hlist
        refine Or.inr ⟨arr, list, hstring, rfl, State.contents_eq hholds, hholds.size, ?_,
          hholds.mark_iff, hholds.terminated⟩
        intro hmark
        rw [← getCapacity_inline hmark]
        exact hholds.fits
  · intro address
    exact ⟨hsound.owned address, fun ⟨_, howns⟩ => hsound.live howns⟩
  · intro hempty address
    by_contra hlive
    obtain ⟨id, howns⟩ := hsound.owned address hlive
    rw [hempty id] at howns
    exact owns_none address howns
  · intro label hregular
    obtain ⟨after, hnext, _⟩ := step_sound hsound hregular.1 hregular.2
    exact ⟨after, hnext⟩

/-- A long string, a copy of it that is cut and shrunk back into its array, and the
long one destroyed. -/
def cutCopy : List Label :=
  [.construct 0 (.fill 40 97) (.chars []) zeroArr (some (4096, zeroArr)),
    .constructCopy 1 0 zeroArr (some (8192, zeroArr)),
    .call 1 (.replaceFill 2 38 1 98) (.chars []) (some (12288, zeroArr)),
    .call 1 .shrinkToFit (.chars []) (some (12288, zeroArr)),
    .destroy 0]

theorem cut_copy_is_inline :
    ∃ state arr, (machine 1000).ReachableUnder (Regular 1000) state ∧
      state.strings 1 = some arr ∧ state.contents arr = some [97, 97, 98, 97, 97] ∧
      (∀ address, state.heap address ≠ none ↔ ∃ id, Owns (state.strings id) address) := by
  obtain ⟨state, hreach, htest⟩ := (machine 1000).exists_reachableUnder_of_replay (Regular 1000)
    start cutCopy
    (fun state => decide (state.lists 1 = some [97, 97, 98, 97, 97]))
    rfl (by decide +kernel)
  obtain ⟨hstrings, _, howned, _⟩ := strings_refine_lists hreach
  have hlist := of_decide_eq_true htest
  rcases hstrings 1 with ⟨_, hnone⟩ | ⟨arr, list, hstring, hsome, hcontents, _⟩
  · rw [hlist] at hnone
    contradiction
  · rw [hlist] at hsome
    cases hsome
    exact ⟨state, arr, hreach, hstring, hcontents, howned⟩

/-- `assign(const basic_string&)` is permitted and has no defined outcome. -/
theorem assign_string_undefined :
    ∃ state, (machine 1000).ReachableUnder (Permitted 1000) state ∧
      Permitted 1000 state (.call 0 .assignString (.string 1) (some (4096, zeroArr))) ∧
      next 1000 state (.call 0 .assignString (.string 1) (some (4096, zeroArr))) = none := by
  obtain ⟨state, hreach, htest⟩ := (machine 1000).exists_reachableUnder_of_replay (Permitted 1000)
    start
    [.construct 0 .default (.chars []) zeroArr (some (4096, zeroArr)),
      .construct 1 .chars (.chars [97]) zeroArr (some (4096, zeroArr))]
    (fun state => decide (Permitted 1000 state
      (.call 0 .assignString (.string 1) (some (4096, zeroArr)))) &&
      (next 1000 state (.call 0 .assignString (.string 1) (some (4096, zeroArr)))).isNone)
    rfl (by decide +kernel)
  rw [Bool.and_eq_true] at htest
  exact ⟨state, hreach, of_decide_eq_true htest.1,
    Option.isNone_iff_eq_none.mp htest.2⟩

end Crossbow.BasicString
