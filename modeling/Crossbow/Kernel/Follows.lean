import Mathlib.Data.List.Basic

/-! Lists that follow each other. A later list is built entry by entry from an earlier
one, in its order and possibly behind it, such as the answers to a list of questions. -/
namespace Crossbow.Kernel

universe u v

variable {α : Type u} {β : Type v}

/-- Every entry of `later` comes from the entry at the same place of `earlier`. -/
def Follows (related : α → β → Prop) (earlier : List α) (later : List β) : Prop :=
  ∀ (index : Nat) (entry : β), later[index]? = some entry →
    ∃ origin, earlier[index]? = some origin ∧ related origin entry

namespace Follows

variable {related : α → β → Prop} {earlier : List α} {later : List β}

theorem nil (related : α → β → Prop) (earlier : List α) : Follows related earlier [] := by
  intro index entry hentry
  rw [List.getElem?_nil] at hentry
  contradiction

theorem extend (hfollows : Follows related earlier later) (origin : α) :
    Follows related (earlier ++ [origin]) later := by
  intro index entry hentry
  obtain ⟨source, hsource, hrelated⟩ := hfollows index entry hentry
  refine ⟨source, ?_, hrelated⟩
  rw [List.getElem?_append_left (List.getElem?_eq_some_iff.mp hsource).1]
  exact hsource

theorem push (hfollows : Follows related earlier later) {origin : α} {entry : β}
    (horigin : earlier[later.length]? = some origin) (hrelated : related origin entry) :
    Follows related earlier (later ++ [entry]) := by
  intro index other hother
  by_cases hindex : index < later.length
  · rw [List.getElem?_append_left hindex] at hother
    exact hfollows index other hother
  · rw [List.getElem?_append_right (Nat.le_of_not_lt hindex)] at hother
    obtain ⟨hlt, hvalue⟩ := List.getElem?_eq_some_iff.mp hother
    have hlast : index = later.length := by
      rw [List.length_singleton] at hlt
      omega
    subst hlast
    rw [List.getElem_singleton] at hvalue
    exact ⟨origin, horigin, hvalue ▸ hrelated⟩

end Follows
end Crossbow.Kernel
