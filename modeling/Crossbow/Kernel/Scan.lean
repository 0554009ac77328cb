import Mathlib.Order.Bounds.Basic

/-! Linear search for a position that passes a test. The test may be undefined
at a position, and so is then a search that comes there. `Best` describes a search
that ends: it gives the extremal position of a set, or says that the set is empty. -/
namespace Crossbow.Kernel

/-- The first of `count` positions from `start` on that passes the test. -/
def scanUp (test : Nat → Option Bool) (start : Nat) : Nat → Option (Option Nat)
  | 0 => some none
  | count + 1 => do
      if ← test start then some (some start) else scanUp test (start + 1) count

/-- The last of the positions below a bound that passes the test. -/
def scanDown (test : Nat → Option Bool) : Nat → Option (Option Nat)
  | 0 => some none
  | count + 1 => do
      if ← test count then some (some count) else scanDown test count

section Runs

variable {test : Nat → Option Bool} {start count : Nat} {result : Option Nat}

theorem scanUp_sound (hscan : scanUp test start count = some result) :
    (∀ found ∈ result, start ≤ found ∧ found < start + count ∧ test found = some true) ∧
      ∀ place, start ≤ place → place < start + count → (∀ found ∈ result, place < found) →
        test place = some false := by
  induction count generalizing start with
  | zero =>
      cases hscan
      exact ⟨nofun, fun place hlow hhigh => by omega⟩
  | succ count ih =>
      unfold scanUp at hscan
      cases htest : test start with
      | none => simp [htest] at hscan
      | some passed =>
          cases passed with
          | true =>
              obtain rfl : some start = result := by simpa [htest] using hscan
              simp only [Option.mem_some_iff, forall_eq']
              exact ⟨⟨Nat.le_refl _, by omega, htest⟩, fun place hlow _ hbefore => by omega⟩
          | false =>
              obtain ⟨hfound, hfailed⟩ := ih (by simpa [htest] using hscan)
              refine ⟨fun found hmem => ?_, fun place hlow hhigh hbefore => ?_⟩
              · obtain ⟨hlow, hhigh, hpassed⟩ := hfound found hmem
                exact ⟨by omega, by omega, hpassed⟩
              · by_cases heq : place = start
                · rw [heq, htest]
                · exact hfailed place (by omega) (by omega) hbefore

theorem scanDown_sound (hscan : scanDown test count = some result) :
    (∀ found ∈ result, found < count ∧ test found = some true) ∧
      ∀ place < count, (∀ found ∈ result, found < place) → test place = some false := by
  induction count with
  | zero =>
      cases hscan
      exact ⟨nofun, fun place hhigh => by omega⟩
  | succ count ih =>
      unfold scanDown at hscan
      cases htest : test count with
      | none => simp [htest] at hscan
      | some passed =>
          cases passed with
          | true =>
              obtain rfl : some count = result := by simpa [htest] using hscan
              simp only [Option.mem_some_iff, forall_eq']
              exact ⟨⟨Nat.lt_succ_self _, htest⟩, fun place hhigh hbehind => by omega⟩
          | false =>
              obtain ⟨hfound, hfailed⟩ := ih (by simpa [htest] using hscan)
              refine ⟨fun found hmem => ?_, fun place hhigh hbehind => ?_⟩
              · obtain ⟨hlow, hpassed⟩ := hfound found hmem
                exact ⟨by omega, hpassed⟩
              · by_cases heq : place = count
                · rw [heq, htest]
                · exact hfailed place (by omega) hbehind

theorem scanUp_defined (htest : ∀ place, start ≤ place → place < start + count →
    ∃ passed, test place = some passed) : ∃ result, scanUp test start count = some result := by
  induction count generalizing start with
  | zero => exact ⟨none, rfl⟩
  | succ count ih =>
      obtain ⟨passed, hpassed⟩ := htest start (Nat.le_refl _) (by omega)
      obtain ⟨result, hresult⟩ := @ih (start + 1) fun place hlow hhigh =>
        htest place (by omega) (by omega)
      unfold scanUp
      cases passed <;> simp [hpassed, hresult]

theorem scanDown_defined (htest : ∀ place < count, ∃ passed, test place = some passed) :
    ∃ result, scanDown test count = some result := by
  induction count with
  | zero => exact ⟨none, rfl⟩
  | succ count ih =>
      obtain ⟨passed, hpassed⟩ := htest count (Nat.lt_succ_self _)
      obtain ⟨result, hresult⟩ := ih fun place hhigh => htest place (by omega)
      unfold scanDown
      cases passed <;> simp [hpassed, hresult]

theorem scanUp_congr {other : Nat → Option Bool} (hsame : ∀ place, start ≤ place →
    place < start + count → test place = other place) :
    scanUp test start count = scanUp other start count := by
  induction count generalizing start with
  | zero => rfl
  | succ count ih =>
      unfold scanUp
      rw [hsame start (Nat.le_refl _) (by omega),
        ih fun place hlow hhigh => hsame place (by omega) (by omega)]

theorem scanUp_undefined {place : Nat} (hlow : start ≤ place) (hhigh : place < start + count)
    (hplace : test place = none)
    (hbefore : ∀ other, start ≤ other → other < place → test other ≠ some true) :
    scanUp test start count = none := by
  cases hscan : scanUp test start count with
  | none => rfl
  | some result =>
      obtain ⟨hfound, hfailed⟩ := scanUp_sound hscan
      have hhere := hfailed place hlow hhigh
      rw [hplace] at hhere
      refine nomatch hhere fun found hmem => ?_
      obtain ⟨hstart, _, hpassed⟩ := hfound found hmem
      rcases Nat.lt_trichotomy found place with hlt | heq | hgt
      · exact absurd hpassed (hbefore found hstart hlt)
      · rw [heq, hplace] at hpassed
        contradiction
      · exact hgt

end Runs

def Best (extremal : Set Nat → Nat → Prop) (places : Set Nat) : Option Nat → Prop
  | some place => extremal places place
  | none => places = ∅

theorem Best.notMem {extremal : Set Nat → Nat → Prop} {places : Set Nat}
    (hbest : Best extremal places none) (place : Nat) : place ∉ places := by
  have hempty : places = ∅ := hbest
  exact hempty ▸ Set.notMem_empty place

section Extremal

variable {passes : Nat → Prop} {start low high : Nat} {result : Option Nat}

theorem best_greatest_iff (hbest : Best IsGreatest {place | place < low ∧ passes place} result) :
    Best IsGreatest {place | place < high ∧ passes place} result ↔
      ∀ place, min low high ≤ place → place < max low high → ¬ passes place := by
  constructor
  · intro hother place hmin hmax hpasses
    cases result with
    | none =>
        rcases Nat.lt_or_ge place low with hlt | hge
        · exact hbest.notMem place ⟨hlt, hpasses⟩
        · exact hother.notMem place ⟨by omega, hpasses⟩
    | some found =>
        have hfoundLow := hbest.1.1
        have hfoundHigh := hother.1.1
        rcases Nat.lt_or_ge place low with hlt | hge
        · have := hbest.2 ⟨hlt, hpasses⟩
          omega
        · have := hother.2 (show place < high ∧ passes place from ⟨by omega, hpasses⟩)
          omega
  · intro hnone
    have hsame : {place | place < high ∧ passes place} = {place | place < low ∧ passes place} := by
      ext place
      simp only [Set.mem_ofPred_eq]
      constructor
      · rintro ⟨hlt, hpasses⟩
        exact ⟨by by_contra hge; exact hnone place (by omega) (by omega) hpasses, hpasses⟩
      · rintro ⟨hlt, hpasses⟩
        exact ⟨by by_contra hge; exact hnone place (by omega) (by omega) hpasses, hpasses⟩
    rwa [hsame]

/-- A search that stops one position early is right unless the only position that
passes is the one left out. -/
theorem best_least_succ_iff (horder : start ≤ high)
    (hbest : Best IsLeast {place | start ≤ place ∧ place < high ∧ passes place} result) :
    Best IsLeast {place | start ≤ place ∧ place < high + 1 ∧ passes place} result ↔
      (∃ place, start ≤ place ∧ place < high ∧ passes place) ∨ ¬ passes high := by
  cases result with
  | none =>
      constructor
      · intro hother
        exact Or.inr fun hpasses => hother.notMem high ⟨horder, Nat.lt_succ_self _, hpasses⟩
      · rintro (⟨place, hplace⟩ | hnot)
        · exact absurd hplace (hbest.notMem place)
        · refine Set.eq_empty_iff_forall_notMem.mpr fun place ⟨hlow, hlt, hpasses⟩ => ?_
          have hlast : place ≠ high := fun heq => hnot (heq ▸ hpasses)
          exact hbest.notMem place ⟨hlow, by omega, hpasses⟩
  | some found =>
      obtain ⟨hlow, hlt, hpasses⟩ := hbest.1
      refine iff_of_true ⟨⟨hlow, by omega, hpasses⟩, fun place hplace => ?_⟩
        (Or.inl ⟨found, hlow, hlt, hpasses⟩)
      rcases Nat.lt_or_ge place high with hbefore | hbehind
      · exact hbest.2 ⟨hplace.1, hbefore, hplace.2.2⟩
      · omega

end Extremal

section Tests

variable {test : Nat → Option Bool} {passes : Nat → Prop} [DecidablePred passes]
  {start count : Nat}

theorem scanUp_best
    (htest : ∀ place, start ≤ place → place < start + count →
      test place = some (decide (passes place))) :
    ∃ result, scanUp test start count = some result ∧
      Best IsLeast {place | start ≤ place ∧ place < start + count ∧ passes place} result := by
  obtain ⟨result, hscan⟩ := scanUp_defined fun place hlow hhigh => ⟨_, htest place hlow hhigh⟩
  obtain ⟨hfound, hfailed⟩ := scanUp_sound hscan
  have hfails : ∀ place, start ≤ place → place < start + count →
      (∀ found ∈ result, place < found) → ¬ passes place := by
    intro place hlow hhigh hbefore
    simpa [htest place hlow hhigh] using hfailed place hlow hhigh hbefore
  refine ⟨result, hscan, ?_⟩
  cases result with
  | none =>
      exact Set.eq_empty_iff_forall_notMem.mpr fun place hplace =>
        hfails place hplace.1 hplace.2.1 nofun hplace.2.2
  | some found =>
      obtain ⟨hlow, hhigh, hpassed⟩ := hfound found rfl
      rw [htest found hlow hhigh, Option.some.injEq, decide_eq_true_eq] at hpassed
      refine ⟨⟨hlow, hhigh, hpassed⟩, fun place hplace => ?_⟩
      by_contra hlt
      refine hfails place hplace.1 hplace.2.1 ?_ hplace.2.2
      rintro _ ⟨⟩
      omega

theorem scanDown_best (htest : ∀ place < count, test place = some (decide (passes place))) :
    ∃ result, scanDown test count = some result ∧
      Best IsGreatest {place | place < count ∧ passes place} result := by
  obtain ⟨result, hscan⟩ := scanDown_defined fun place hhigh => ⟨_, htest place hhigh⟩
  obtain ⟨hfound, hfailed⟩ := scanDown_sound hscan
  have hfails : ∀ place < count, (∀ found ∈ result, found < place) → ¬ passes place := by
    intro place hhigh hbehind
    simpa [htest place hhigh] using hfailed place hhigh hbehind
  refine ⟨result, hscan, ?_⟩
  cases result with
  | none =>
      exact Set.eq_empty_iff_forall_notMem.mpr fun place hplace =>
        hfails place hplace.1 nofun hplace.2
  | some found =>
      obtain ⟨hhigh, hpassed⟩ := hfound found rfl
      rw [htest found hhigh, Option.some.injEq, decide_eq_true_eq] at hpassed
      refine ⟨⟨hhigh, hpassed⟩, fun place hplace => ?_⟩
      by_contra hlt
      refine hfails place hplace.1 ?_ hplace.2
      rintro _ ⟨⟩
      omega

end Tests
end Crossbow.Kernel
