import Mathlib.Data.List.Basic
import Mathlib.Data.List.Perm.Basic

/-! Unordered association lists up to an equivalence of keys, and the finite maps
they represent. A change at one key is described by what was found and what was
put there, so every operation on one key is an instance of the same rule. -/
namespace Crossbow.Kernel.Assoc

variable {K V : Type}

abbrev Table (K V : Type) := K → Option (K × V)

section Definitions

variable [BEq K]

def Distinct (entries : List (K × V)) : Prop :=
  entries.Pairwise fun left right => (left.1 == right.1) = false

/-- The list holds exactly the bindings of the table, each of them once. -/
structure Represents (entries : List (K × V)) (table : Table K V) : Prop where
  distinct : Distinct entries
  lookup : ∀ key entry, table key = some entry ↔ entry ∈ entries ∧ (entry.1 == key) = true

def Table.set (table : Table K V) (key : K) (put : Option (K × V)) : Table K V :=
  fun other => if other == key then put else table other

/-- The entries at `key` change from `found` to `put`, the rest stays. -/
def Edit (key : K) (found put : Option (K × V)) (before after : List (K × V)) : Prop :=
  ∃ rest, before.Perm (found.toList ++ rest) ∧ after.Perm (put.toList ++ rest) ∧
    (∀ entry ∈ found, (entry.1 == key) = true) ∧ (∀ entry ∈ put, (entry.1 == key) = true) ∧
    ∀ entry ∈ rest, (entry.1 == key) = false

variable {before after : List (K × V)} {key : K} {put : Option (K × V)}

theorem Represents.of_perm {table : Table K V} [PartialEquivBEq K] (hrep : Represents before table)
    (hperm : before.Perm after) :
    Represents after table := by
  constructor
  · refine (hperm.pairwise_iff ?_).mp hrep.distinct
    intro left right hne
    rw [BEq.comm]
    exact hne
  · intro key entry
    rw [hrep.lookup, hperm.mem_iff]

theorem Edit.of_perm {found : Option (K × V)} {before' after' : List (K × V)}
    (hedit : Edit key found put before after) (hbefore : before'.Perm before)
    (hafter : after'.Perm after) :
    Edit key found put before' after' := by
  obtain ⟨rest, hfound, hput, hkeys⟩ := hedit
  exact ⟨rest, hbefore.trans hfound, hafter.trans hput, hkeys⟩

theorem Edit.frame {key : K} {found put : Option (K × V)} {before after : List (K × V)}
    (hedit : Edit key found put before after) (others : List (K × V))
    (hothers : ∀ entry ∈ others, (entry.1 == key) = false) :
    Edit key found put (before ++ others) (after ++ others) := by
  obtain ⟨rest, hfound, hput, hfoundKey, hputKey, hrest⟩ := hedit
  refine ⟨rest ++ others, ?_, ?_, hfoundKey, hputKey, ?_⟩
  · rw [← List.append_assoc]
    exact hfound.append_right others
  · rw [← List.append_assoc]
    exact hput.append_right others
  · intro entry hentry
    rcases List.mem_append.mp hentry with hmem | hmem
    · exact hrest entry hmem
    · exact hothers entry hmem

theorem Edit.length {found : Option (K × V)} (hedit : Edit key found put before after) :
    after.length + found.toList.length = before.length + put.toList.length := by
  obtain ⟨rest, hfound, hput, _⟩ := hedit
  have hbefore := hfound.length_eq
  have hafter := hput.length_eq
  rw [List.length_append] at hbefore hafter
  omega

theorem Edit.forall_after {found : Option (K × V)} (hedit : Edit key found put before after)
    {good : K × V → Prop} (hbefore : ∀ entry ∈ before, good entry)
    (hput : ∀ entry : K × V, (entry.1 == key) = true → good entry) :
    ∀ entry ∈ after, good entry := by
  obtain ⟨rest, hfound, hafter, _, hputKey, _⟩ := hedit
  intro entry hentry
  rcases List.mem_append.mp (hafter.mem_iff.mp hentry) with hmem | hmem
  · exact hput entry (hputKey entry (Option.mem_toList.mp hmem))
  · exact hbefore entry (hfound.mem_iff.mpr (List.mem_append_right _ hmem))

theorem Edit.of_absent (habsent : ∀ entry ∈ before, (entry.1 == key) = false)
    (hput : ∀ entry ∈ put, (entry.1 == key) = true)
    (hafter : after.Perm (put.toList ++ before)) : Edit key none put before after :=
  ⟨before, List.Perm.refl _, hafter, by simp, hput, habsent⟩

theorem represents_nil : Represents ([] : List (K × V)) (fun _ => none) where
  distinct := List.Pairwise.nil
  lookup := by simp

end Definitions

section Equivalence

variable [BEq K] [EquivBEq K]

theorem Edit.of_present {key : K} {found : K × V} {put : Option (K × V)}
    {before after rest : List (K × V)} (hdistinct : Distinct before)
    (hbefore : before.Perm (found :: rest)) (hfound : (found.1 == key) = true)
    (hput : ∀ entry ∈ put, (entry.1 == key) = true)
    (hafter : after.Perm (put.toList ++ rest)) : Edit key (some found) put before after := by
  refine ⟨rest, hbefore, hafter, ?_, hput, ?_⟩
  · rintro entry ⟨⟩
    exact hfound
  · intro entry hentry
    have hpairs := (hbefore.pairwise_iff fun {left right} hne => by
      rw [BEq.comm]
      exact hne).mp hdistinct
    have hne := (List.pairwise_cons.mp hpairs).1 entry hentry
    rw [BEq.comm, ← BEq.congr_left hfound]
    exact hne

theorem Edit.distinct {key : K} {found put : Option (K × V)} {before after : List (K × V)}
    (hedit : Edit key found put before after) (hdistinct : Distinct before) :
    Distinct after := by
  obtain ⟨rest, hfound, hafter, _, hputKey, hrest⟩ := hedit
  have hsymm : ∀ {left right : K × V}, (left.1 == right.1) = false →
      (right.1 == left.1) = false := by
    intro left right hne
    rw [BEq.comm]
    exact hne
  have hrestDistinct : Distinct rest :=
    (List.pairwise_append.mp ((hfound.pairwise_iff hsymm).mp hdistinct)).2.1
  refine (hafter.pairwise_iff hsymm).mpr ?_
  cases put with
  | none => exact hrestDistinct
  | some entry =>
      refine List.Pairwise.cons ?_ hrestDistinct
      intro other hother
      have hkey := hputKey entry rfl
      have hne := hrest other hother
      rw [BEq.congr_left hkey, BEq.comm]
      exact hne

theorem Represents.edit {key : K} {found put : Option (K × V)} {before after : List (K × V)}
    {table : Table K V} (hrep : Represents before table)
    (hedit : Edit key found put before after) :
    table key = found ∧ Represents after (table.set key put) := by
  have hdistinct := hedit.distinct hrep.distinct
  obtain ⟨rest, hbefore, hafter, hfoundKey, hputKey, hrest⟩ := hedit
  constructor
  · cases found with
    | some entry =>
        rw [hrep.lookup]
        exact ⟨hbefore.mem_iff.mpr (by simp), hfoundKey entry rfl⟩
    | none =>
        rw [Option.eq_none_iff_forall_ne_some]
        intro entry hentry
        obtain ⟨hmem, hkey⟩ := (hrep.lookup key entry).mp hentry
        have hne := hrest entry (hbefore.mem_iff.mp hmem)
        rw [hne] at hkey
        contradiction
  · refine ⟨hdistinct, ?_⟩
    intro other entry
    unfold Table.set
    rw [hafter.mem_iff, List.mem_append, Option.mem_toList]
    by_cases hother : (other == key) = true
    · rw [if_pos hother]
      constructor
      · intro hentry
        have hkey := hputKey entry hentry
        rw [BEq.congr_right hother]
        exact ⟨.inl hentry, hkey⟩
      · rintro ⟨hmem | hmem, hkey⟩
        · exact hmem
        · rw [BEq.congr_right hother, hrest entry hmem] at hkey
          contradiction
    · rw [if_neg hother, hrep.lookup, hbefore.mem_iff, List.mem_append, Option.mem_toList]
      -- an entry at the edited key is not one at the other key
      have hdiffer : (entry.1 == key) = true → (entry.1 == other) ≠ true := by
        intro hkey hsame
        exact hother (BEq.trans (BEq.symm hsame) hkey)
      constructor
      · rintro ⟨hmem | hmem, hkey⟩
        · exact absurd hkey (hdiffer (hfoundKey entry hmem))
        · exact ⟨.inr hmem, hkey⟩
      · rintro ⟨hmem | hmem, hkey⟩
        · exact absurd hkey (hdiffer (hputKey entry hmem))
        · exact ⟨.inr hmem, hkey⟩

end Equivalence

theorem Represents.mapValues [BEq K] {entries : List (K × V)} {table : Table K V}
    (hrep : Represents entries table) (change : K → V → V) :
    Represents (entries.map fun entry => (entry.1, change entry.1 entry.2))
      (fun key => (table key).map fun entry => (entry.1, change entry.1 entry.2)) := by
  constructor
  · exact List.pairwise_map.mpr hrep.distinct
  · intro key entry
    simp only [Option.map_eq_some_iff, List.mem_map, hrep.lookup]
    constructor
    · rintro ⟨old, ⟨hmem, hkey⟩, rfl⟩
      exact ⟨⟨old, hmem, rfl⟩, hkey⟩
    · rintro ⟨⟨old, hmem, rfl⟩, hkey⟩
      exact ⟨old, ⟨hmem, hkey⟩, rfl⟩

end Crossbow.Kernel.Assoc
