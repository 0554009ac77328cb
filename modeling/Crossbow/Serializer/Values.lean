import Crossbow.Serializer.Encoding
import Crossbow.Kernel.Word
import Mathlib.Data.List.Perm.Basic

/-! The values of the types: when two are equal, which ones a program can hold, and what
has to be in an object before a value is read into it. -/
namespace Crossbow.Serializer
open Kernel

/-- Equality of the C++ values: hash tables are compared as maps. -/
def Code.Equal {kind : Kind} {T : Type} : Code kind T → T → T → Prop
  | .pod _ | .bool | .stdString | .crossbowString => Eq
  | .pair first second => fun p q => first.Equal p.1 q.1 ∧ second.Equal p.2 q.2
  | .tuple members => members.Equal
  | .user split _ members => fun left right => members.Equal (split left) (split right)
  | .vector element => List.Forall₂ element.Equal
  | .optional element => Option.Rel element.Equal
  | .map key value _ | .multimap key value _ =>
      List.Forall₂ fun e f => key.Equal e.1 f.1 ∧ value.Equal e.2 f.2
  | .unorderedMap key value _ _ => fun left right => ∃ order, left.Perm order ∧
      List.Forall₂ (fun e f => key.Equal e.1 f.1 ∧ value.Equal e.2 f.2) order right
  | .noMembers => Eq
  | .snoc init last => fun v w => init.Equal v.1 w.1 ∧ last.Equal v.2 w.2

/-- What holds of every value of the type: sizes fit `size_t`, the keys of a map
are in order and those of a hash table are distinct. -/
def Code.Valid {kind : Kind} {T : Type} : Code kind T → T → Prop
  | .pod _ | .bool => fun _ => True
  | .stdString | .crossbowString => fun obj => obj.length < wordRange
  | .pair first second => fun p => first.Valid p.1 ∧ second.Valid p.2
  | .tuple members => members.Valid
  | .user split _ members => fun obj => members.Valid (split obj)
  | .vector element => fun items =>
      items.length < wordRange ∧ ∀ item ∈ items, element.Valid item
  | .optional element => fun obj => ∀ value ∈ obj, element.Valid value
  | .map key value less => fun items => items.length < wordRange ∧
      (∀ item ∈ items, key.Valid item.1 ∧ value.Valid item.2) ∧
      items.Pairwise fun e f => less e.1 f.1 = true
  | .multimap key value less => fun items => items.length < wordRange ∧
      (∀ item ∈ items, key.Valid item.1 ∧ value.Valid item.2) ∧
      items.Pairwise fun e f => less f.1 e.1 = false
  | .unorderedMap key value same _ => fun items => items.length < wordRange ∧
      (∀ item ∈ items, key.Valid item.1 ∧ value.Valid item.2) ∧
      items.Pairwise fun e f => same e.1 f.1 = false
  | .noMembers => fun _ => True
  | .snoc init last => fun v => init.Valid v.1 ∧ last.Valid v.2

/-- What the parameters of a type have to keep: the predicates of the containers meet the
standard and do not tell equal keys apart, a hash table that gains an entry keeps the
others, and the default object of a user type is one of its values. -/
def Code.Lawful {kind : Kind} {T : Type} : Code kind T → Prop
  | .pod _ | .bool | .stdString | .crossbowString => True
  | .pair first second => first.Lawful ∧ second.Lawful
  | .tuple members => members.Lawful
  | .user split initial members => members.Lawful ∧ members.Valid (split initial)
  | .vector element => element.Lawful
  | .optional element => element.Lawful
  | .map key value less | .multimap key value less => key.Lawful ∧ value.Lawful ∧
      (∀ a a' b b', key.Equal a a' → key.Equal b b' → less a b = less a' b') ∧
      ∀ a b, less a b = true → less b a = false
  | .unorderedMap key value same insertEntry => key.Lawful ∧ value.Lawful ∧
      (∀ a a' b b', key.Equal a a' → key.Equal b b' → same a b = same a' b') ∧
      (∀ a, same a a = true) ∧ (∀ a b, same a b = same b a) ∧
      ∀ entries entry, (insertEntry entries entry).Perm (entry :: entries)
  | .noMembers => True
  | .snoc init last => init.Lawful ∧ last.Lawful

/-- The second object leaves no trace when the first one is read into it. Containers that
are appended to are empty, a map holds entries of the value only, and an optional is unset
if the value is. The elements of a container are read into default objects, unless their
key is there already. -/
def Code.Absorbs {kind : Kind} {T : Type} : Code kind T → T → T → Prop
  | .pod _ | .bool | .stdString | .crossbowString => fun _ _ => True
  | .pair first second => fun p old => first.Absorbs p.1 old.1 ∧ second.Absorbs p.2 old.2
  | .tuple members => members.Absorbs
  | .user split _ members => fun obj old => members.Absorbs (split obj) (split old)
  | .vector element => fun items old =>
      old = [] ∧ ∀ item ∈ items, element.Absorbs item element.fresh
  | .optional element => fun obj old =>
      (obj = none → old = none) ∧ ∀ value ∈ obj, element.Absorbs value element.fresh
  | .multimap key value _ => fun items old => old = [] ∧
      ∀ f ∈ items, key.Absorbs f.1 key.fresh ∧ value.Absorbs f.2 value.fresh
  | .map key value _ | .unorderedMap key value _ _ => fun items old =>
      (∀ e ∈ old, ∃ f ∈ items, key.Equal e.1 f.1 ∧ value.Equal e.2 f.2) ∧
      ∀ f ∈ items, key.Absorbs f.1 key.fresh ∧ (value.Absorbs f.2 value.fresh ∨
        ∃ e ∈ old, key.Equal e.1 f.1 ∧ value.Equal e.2 f.2)
  | .noMembers => fun _ _ => True
  | .snoc init last => fun v old => init.Absorbs v.1 old.1 ∧ last.Absorbs v.2 old.2

/-- A key that is read into a default object is read right. -/
def Code.NeutralKeys {kind : Kind} {T : Type} : Code kind T → Prop
  | .pod _ | .bool | .stdString | .crossbowString => True
  | .pair first second => first.NeutralKeys ∧ second.NeutralKeys
  | .tuple members => members.NeutralKeys
  | .user _ _ members => members.NeutralKeys
  | .vector element => element.NeutralKeys
  | .optional element => element.NeutralKeys
  | .map key value _ | .multimap key value _ | .unorderedMap key value _ _ =>
      value.NeutralKeys ∧ ∀ k, key.Absorbs k key.fresh
  | .noMembers => True
  | .snoc init last => init.NeutralKeys ∧ last.NeutralKeys

/-- No default object holds a string of `2 ^ 32` or more characters. -/
def Code.ShortDefaults {kind : Kind} {T : Type} : Code kind T → Prop
  | .pod _ | .bool | .stdString | .crossbowString => True
  | .pair first second => first.ShortDefaults ∧ second.ShortDefaults
  | .tuple members => members.ShortDefaults
  | .user split initial members => members.ShortDefaults ∧ members.Short (split initial)
  | .vector element => element.ShortDefaults
  | .optional element => element.ShortDefaults
  | .map key value _ | .multimap key value _ | .unorderedMap key value _ _ =>
      key.ShortDefaults ∧ value.ShortDefaults
  | .noMembers => True
  | .snoc init last => init.ShortDefaults ∧ last.ShortDefaults

variable {T K V : Type} {kind : Kind}

theorem fresh_valid (code : Code kind T) (hlawful : code.Lawful) :
    code.Valid code.fresh := by
  induction code with
  | pod | bool | noMembers => trivial
  | stdString | crossbowString => exact wordRange_pos
  | pair first second hfirst hsecond => exact ⟨hfirst hlawful.1, hsecond hlawful.2⟩
  | tuple members ih => exact ih hlawful
  | user split initial members _ => exact hlawful.2
  | vector | optional | map | multimap | unorderedMap =>
      simp [Code.Valid, Code.fresh, wordRange_pos]
  | snoc init last hinit hlast => exact ⟨hinit hlawful.1, hlast hlawful.2⟩

theorem fresh_short (code : Code kind T) (hdefaults : code.ShortDefaults) :
    code.Short code.fresh := by
  induction code with
  | pod | bool | noMembers => trivial
  | stdString | crossbowString => exact Nat.two_pow_pos 32
  | pair first second hfirst hsecond => exact ⟨hfirst hdefaults.1, hsecond hdefaults.2⟩
  | tuple members ih => exact ih hdefaults
  | user split initial members _ => exact hdefaults.2
  | vector | optional | map | multimap | unorderedMap => simp [Code.Short, Code.fresh]
  | snoc init last hinit hlast => exact ⟨hinit hdefaults.1, hlast hdefaults.2⟩

section Lists

variable {equal : T → T → Prop} {left right : List T}

theorem exists_equal_of_forall₂ (hequal : List.Forall₂ equal left right) {item : T}
    (hitem : item ∈ left) : ∃ other ∈ right, equal item other := by
  induction hequal with
  | nil => cases hitem
  | cons hhead _ ih =>
      rcases List.mem_cons.mp hitem with rfl | hrest
      · exact ⟨_, List.mem_cons_self, hhead⟩
      · obtain ⟨other, hother, hequal⟩ := ih hrest
        exact ⟨other, List.mem_cons_of_mem _ hother, hequal⟩

theorem exists_of_forall₂ (hequal : List.Forall₂ equal left right) {item : T}
    (hitem : item ∈ right) : ∃ other ∈ left, equal other item :=
  exists_equal_of_forall₂ hequal.flip hitem

theorem forall_of_forall₂ {good : T → Prop} (hequal : List.Forall₂ equal left right)
    (hgood : ∀ a b, equal a b → good a → good b)
    (hleft : ∀ item ∈ left, good item) : ∀ item ∈ right, good item := by
  intro item hitem
  obtain ⟨other, hother, hsame⟩ := exists_of_forall₂ hequal hitem
  exact hgood other item hsame (hleft other hother)

theorem forall₂_of_both {items : List T} (hboth : ∀ a b c, equal a c → equal b c → equal a b)
    (hleft : List.Forall₂ equal left items)
    (hright : List.Forall₂ equal right items) : List.Forall₂ equal left right := by
  induction hleft generalizing right with
  | nil =>
      cases hright
      exact .nil
  | cons hhead _ ih =>
      cases hright with
      | cons hother hrest => exact .cons (hboth _ _ _ hhead hother) (ih hrest)

end Lists

theorem equal_of_both (code : Code kind T) {left right value : T} (hleft : code.Equal left value)
    (hright : code.Equal right value) :
    code.Equal left right := by
  induction code with
  | pod | bool | stdString | crossbowString | noMembers => exact hleft.trans hright.symm
  | pair first second hfirst hsecond =>
      exact ⟨hfirst hleft.1 hright.1, hsecond hleft.2 hright.2⟩
  | tuple members ih => exact ih hleft hright
  | user split initial members ih => exact ih hleft hright
  | vector element ih => exact forall₂_of_both (fun _ _ _ => ih) hleft hright
  | optional element ih =>
      cases hleft with
      | some hvalue =>
          cases hright with
          | some hother => exact .some (ih hvalue hother)
      | none =>
          cases hright
          exact .none
  | map key value less hkey hvalue | multimap key value less hkey hvalue =>
      exact forall₂_of_both (fun _ _ _ he hf => ⟨hkey he.1 hf.1, hvalue he.2 hf.2⟩) hleft hright
  | unorderedMap key val same insertEntry hkey hvalue =>
      obtain ⟨order, hperm, horder⟩ := hleft
      obtain ⟨other, hpermOther, hother⟩ := hright
      have hboth := forall₂_of_both
        (fun _ _ _ he hf => ⟨hkey he.1 hf.1, hvalue he.2 hf.2⟩) horder hother
      -- the second object is a rearrangement of `other`, so rearrange `order` alike
      have hcomp : Relation.Comp (List.Forall₂ fun e f => key.Equal e.1 f.1 ∧ val.Equal e.2 f.2)
          List.Perm order right := ⟨other, hboth, hpermOther.symm⟩
      rw [List.forall₂_comp_perm_eq_perm_comp_forall₂] at hcomp
      obtain ⟨moved, hmoved, hequal⟩ := hcomp
      exact ⟨moved, hperm.trans hmoved, hequal⟩
  | snoc init last hinit hlast => exact ⟨hinit hleft.1 hright.1, hlast hleft.2 hright.2⟩

theorem short_of_equal (code : Code kind T) {left right : T} (hequal : code.Equal left right)
    (hshort : code.Short left) : code.Short right := by
  induction code with
  | pod | bool | noMembers => trivial
  | stdString | crossbowString =>
      cases hequal
      exact hshort
  | pair first second hfirst hsecond =>
      exact ⟨hfirst hequal.1 hshort.1, hsecond hequal.2 hshort.2⟩
  | tuple members ih => exact ih hequal hshort
  | user split initial members ih => exact ih hequal hshort
  | vector element ih =>
      exact forall_of_forall₂ hequal (fun _ _ => ih) hshort
  | optional element ih =>
      cases hequal with
      | some hvalue =>
          intro value hvalue'
          cases hvalue'
          exact ih hvalue (hshort _ rfl)
      | none => exact hshort
  | map key value less hkey hvalue | multimap key value less hkey hvalue =>
      exact forall_of_forall₂ hequal
        (fun _ _ hentry hgood => ⟨hkey hentry.1 hgood.1, hvalue hentry.2 hgood.2⟩) hshort
  | unorderedMap key value same insertEntry hkey hvalue =>
      obtain ⟨order, hperm, horder⟩ := hequal
      exact forall_of_forall₂ horder
        (fun _ _ hentry hgood => ⟨hkey hentry.1 hgood.1, hvalue hentry.2 hgood.2⟩)
        fun item hitem => hshort item (hperm.mem_iff.mpr hitem)
  | snoc init last hinit hlast => exact ⟨hinit hequal.1 hshort.1, hlast hequal.2 hshort.2⟩

end Crossbow.Serializer
