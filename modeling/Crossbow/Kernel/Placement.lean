import Mathlib.Data.List.Basic
import Mathlib.Data.List.Perm.Basic
import Mathlib.Logic.Function.Basic

/-! Places. Every object is in one place at a time, and the list that stands for a place
holds the objects of the place, each once. Places without a list are allowed, for
objects that do not exist. -/
namespace Crossbow.Kernel

universe u v

variable {Id : Type u} {Place : Type v}

structure Placement (listed : Place → Prop) (lists : Place → List Id) (place : Id → Place) :
    Prop where
  nodup : ∀ position, listed position → (lists position).Nodup
  mem : ∀ position, listed position → ∀ id, id ∈ lists position ↔ place id = position

namespace Placement

variable {listed : Place → Prop} {lists lists' : Place → List Id} {place : Id → Place}

theorem move [DecidableEq Id] (hplaced : Placement listed lists place) {id : Id}
    {source target : Place} (hsource : place id = source) (hne : source ≠ target)
    (hsame : ∀ position, position ≠ source → position ≠ target →
      (lists' position).Perm (lists position))
    (hdepart : listed source → (lists source).Perm (id :: lists' source))
    (harrive : listed target → (lists' target).Perm (id :: lists target)) :
    Placement listed lists' (Function.update place id target) where
  nodup := by
    intro position hlisted
    by_cases hdeparts : position = source
    · subst hdeparts
      exact ((hdepart hlisted).nodup_iff.mp (hplaced.nodup position hlisted)).of_cons
    · by_cases harrives : position = target
      · subst harrives
        rw [(harrive hlisted).nodup_iff, List.nodup_cons, hplaced.mem position hlisted, hsource]
        exact ⟨hne, hplaced.nodup position hlisted⟩
      · rw [(hsame position hdeparts harrives).nodup_iff]
        exact hplaced.nodup position hlisted
  mem := by
    intro position hlisted other
    by_cases hother : other = id
    · subst hother
      rw [Function.update_self]
      by_cases harrives : position = target
      · subst harrives
        rw [(harrive hlisted).mem_iff]
        simp
      · refine iff_of_false ?_ (Ne.symm harrives)
        by_cases hdeparts : position = source
        · subst hdeparts
          have hnodup := (hdepart hlisted).nodup_iff.mp (hplaced.nodup position hlisted)
          exact (List.nodup_cons.mp hnodup).1
        · rw [(hsame position hdeparts harrives).mem_iff, hplaced.mem position hlisted, hsource]
          exact Ne.symm hdeparts
    · rw [Function.update_of_ne hother, ← hplaced.mem position hlisted]
      by_cases hdeparts : position = source
      · subst hdeparts
        rw [(hdepart hlisted).mem_iff]
        simp [hother]
      · by_cases harrives : position = target
        · subst harrives
          rw [(harrive hlisted).mem_iff]
          simp [hother]
        · rw [(hsame position hdeparts harrives).mem_iff]

end Placement
end Crossbow.Kernel
