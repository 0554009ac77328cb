import Mathlib.Data.List.Basic
import Mathlib.Logic.Function.Basic

/-! A pool of numbered resources. Each number is free, with a holder or in flight, and
the operations move one number from one of these places to another. -/
namespace Crossbow.Kernel

variable {Holder : Type}

open Classical in
noncomputable def holding (held : Holder → Option Nat) (id : Nat) : Nat :=
  if ∃ holder, held holder = some id then 1 else 0

/-- Each number below `size` is in one place, once, and no other number is anywhere. -/
structure Conserved (size : Nat) (free : List Nat) (held : Holder → Option Nat)
    (flying : List Nat) : Prop where
  once : ∀ id, free.count id + holding held id + flying.count id = if id < size then 1 else 0
  held_once : ∀ first second id, held first = some id → held second = some id → first = second

theorem holding_of_held {held : Holder → Option Nat} {holder : Holder} {id : Nat}
    (hheld : held holder = some id) : holding held id = 1 :=
  if_pos ⟨holder, hheld⟩

section Places

variable {size id : Nat} {free flying : List Nat} {held : Holder → Option Nat}

theorem Conserved.start (hfree : ∀ id, free.count id = if id < size then 1 else 0) :
    Conserved size free (fun _ : Holder => none) [] where
  once := by
    intro id
    have hnone : holding (fun _ : Holder => none) id = 0 := if_neg (by simp)
    rw [hfree, hnone, List.count_nil, Nat.add_zero]
  held_once := by
    intro first second id hfirst
    contradiction

theorem Conserved.sum_le (hconserved : Conserved size free held flying) (id : Nat) :
    free.count id + holding held id + flying.count id ≤ 1 := by
  rw [hconserved.once]
  split <;> omega

theorem Conserved.free_lt (hconserved : Conserved size free held flying) (hfree : id ∈ free) :
    id < size := by
  have honce := hconserved.once id
  have hcount := List.count_pos_iff.mpr hfree
  split at honce <;> omega

theorem Conserved.held_lt (hconserved : Conserved size free held flying) {holder : Holder}
    (hheld : held holder = some id) : id < size := by
  have honce := hconserved.once id
  rw [holding_of_held hheld] at honce
  split at honce <;> omega

theorem Conserved.flying_lt (hconserved : Conserved size free held flying)
    (hflying : id ∈ flying) : id < size := by
  have honce := hconserved.once id
  have hcount := List.count_pos_iff.mpr hflying
  split at honce <;> omega

end Places

section Moves

variable [DecidableEq Holder] {size id : Nat} {free flying : List Nat}
  {held : Holder → Option Nat} {holder : Holder}

theorem holding_update
    (honce : ∀ first second id, held first = some id → held second = some id → first = second)
    (holder : Holder) (new : Option Nat) (id : Nat) :
    holding (Function.update held holder new) id =
      if new = some id then 1 else if held holder = some id then 0 else holding held id := by
  have hexists : (∃ someone, Function.update held holder new someone = some id) ↔
      new = some id ∨ ∃ someone, someone ≠ holder ∧ held someone = some id := by
    constructor
    · rintro ⟨someone, hsomeone⟩
      by_cases hself : someone = holder
      · rw [hself, Function.update_self] at hsomeone
        exact .inl hsomeone
      · rw [Function.update_of_ne hself] at hsomeone
        exact .inr ⟨someone, hself, hsomeone⟩
    · rintro (hnew | ⟨someone, hself, hsomeone⟩)
      · exact ⟨holder, by rw [Function.update_self, hnew]⟩
      · exact ⟨someone, by rw [Function.update_of_ne hself, hsomeone]⟩
  by_cases hnew : new = some id
  · rw [if_pos hnew]
    exact if_pos (hexists.mpr (.inl hnew))
  rw [if_neg hnew]
  by_cases hheld : held holder = some id
  · rw [if_pos hheld]
    apply if_neg
    intro hsome
    obtain ⟨someone, hself, hsomeone⟩ := (hexists.mp hsome).resolve_left hnew
    exact hself (honce someone holder id hsomeone hheld)
  rw [if_neg hheld]
  by_cases hany : ∃ someone, held someone = some id
  · obtain ⟨someone, hsomeone⟩ := hany
    have hself : someone ≠ holder := fun hself => hheld (hself ▸ hsomeone)
    rw [holding_of_held hsomeone]
    exact if_pos (hexists.mpr (.inr ⟨someone, hself, hsomeone⟩))
  · rw [show holding held id = 0 from if_neg hany]
    apply if_neg
    intro hsome
    obtain ⟨someone, _, hsomeone⟩ := (hexists.mp hsome).resolve_left hnew
    exact hany ⟨someone, hsomeone⟩

theorem holding_take
    (honce : ∀ first second id, held first = some id → held second = some id → first = second)
    (hnone : held holder = none) (id other : Nat) :
    holding (Function.update held holder (some id)) other =
      if other = id then 1 else holding held other := by
  rw [holding_update honce, hnone]
  by_cases hsame : other = id
  · rw [if_pos (congrArg some hsame.symm), if_pos hsame]
  · rw [if_neg (fun heq => hsame (Option.some.inj heq).symm), if_neg (by simp), if_neg hsame]

theorem holding_drop
    (honce : ∀ first second id, held first = some id → held second = some id → first = second)
    (hheld : held holder = some id) (other : Nat) :
    holding (Function.update held holder none) other =
      if other = id then 0 else holding held other := by
  rw [holding_update honce, hheld, if_neg (by simp)]
  by_cases hsame : other = id
  · rw [if_pos (congrArg some hsame.symm), if_pos hsame]
  · rw [if_neg (fun heq => hsame (Option.some.inj heq).symm), if_neg hsame]

theorem held_once_drop
    (honce : ∀ first second id, held first = some id → held second = some id → first = second) :
    ∀ first second id, Function.update held holder none first = some id →
      Function.update held holder none second = some id → first = second := by
  have hothers : ∀ someone id, Function.update held holder none someone = some id →
      held someone = some id := by
    intro someone id hsomeone
    by_cases hself : someone = holder
    · subst hself
      rw [Function.update_self] at hsomeone
      contradiction
    · rwa [Function.update_of_ne hself] at hsomeone
  intro first second id hfirst hsecond
  exact honce first second id (hothers first id hfirst) (hothers second id hsecond)

theorem Conserved.take (hconserved : Conserved size (id :: free) held flying)
    (hnone : held holder = none) :
    Conserved size free (Function.update held holder (some id)) flying where
  once := by
    intro other
    have honce := hconserved.once other
    have hsum := hconserved.sum_le id
    rw [List.count_cons_self] at hsum
    rw [holding_take hconserved.held_once hnone]
    by_cases hsame : other = id
    · subst hsame
      rw [List.count_cons_self] at honce
      rw [if_pos rfl]
      omega
    · rw [List.count_cons_of_ne (Ne.symm hsame)] at honce
      rw [if_neg hsame]
      exact honce
  held_once := by
    have hfree : ∀ someone, held someone ≠ some id := by
      intro someone hsomeone
      have hsum := hconserved.sum_le id
      rw [List.count_cons_self, holding_of_held hsomeone] at hsum
      omega
    intro first second other hfirst hsecond
    by_cases hone : first = holder
    · by_cases htwo : second = holder
      · rw [hone, htwo]
      · rw [hone, Function.update_self] at hfirst
        rw [Function.update_of_ne htwo, ← Option.some.inj hfirst] at hsecond
        exact absurd hsecond (hfree second)
    · by_cases htwo : second = holder
      · rw [htwo, Function.update_self] at hsecond
        rw [Function.update_of_ne hone, ← Option.some.inj hsecond] at hfirst
        exact absurd hfirst (hfree first)
      · rw [Function.update_of_ne hone] at hfirst
        rw [Function.update_of_ne htwo] at hsecond
        exact hconserved.held_once first second other hfirst hsecond

theorem Conserved.giveBack (hconserved : Conserved size free held flying)
    (hheld : held holder = some id) :
    Conserved size (id :: free) (Function.update held holder none) flying where
  once := by
    intro other
    have honce := hconserved.once other
    rw [holding_drop hconserved.held_once hheld]
    by_cases hsame : other = id
    · subst hsame
      rw [holding_of_held hheld] at honce
      rw [if_pos rfl, List.count_cons_self]
      omega
    · rw [if_neg hsame, List.count_cons_of_ne (Ne.symm hsame)]
      exact honce
  held_once := held_once_drop hconserved.held_once

theorem Conserved.launch (hconserved : Conserved size free held flying)
    (hheld : held holder = some id) :
    Conserved size free (Function.update held holder none) (flying ++ [id]) where
  once := by
    intro other
    have honce := hconserved.once other
    rw [holding_drop hconserved.held_once hheld, List.count_append]
    by_cases hsame : other = id
    · subst hsame
      rw [holding_of_held hheld] at honce
      rw [if_pos rfl, List.count_singleton_self]
      omega
    · rw [if_neg hsame, List.count_singleton, if_neg (by simpa using Ne.symm hsame)]
      exact honce
  held_once := held_once_drop hconserved.held_once

omit [DecidableEq Holder] in
theorem Conserved.land {before after : List Nat}
    (hconserved : Conserved size free held (before ++ id :: after)) :
    Conserved size (id :: free) held (before ++ after) where
  once := by
    intro other
    have honce := hconserved.once other
    rw [List.count_append] at honce ⊢
    by_cases hsame : other = id
    · subst hsame
      rw [List.count_cons_self] at honce ⊢
      omega
    · rw [List.count_cons_of_ne (Ne.symm hsame)] at honce ⊢
      exact honce
  held_once := hconserved.held_once

end Moves

end Crossbow.Kernel
