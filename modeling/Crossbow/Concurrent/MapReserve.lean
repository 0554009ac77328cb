import Crossbow.Concurrent.MapClear

/-! When `reserve` returns. Its loop doubles `new_size` until the load factor admits the
count. Both the doubling and the product with the load factor wrap around, so the loop
passes at most 63 sizes before it stays at zero. -/
namespace Crossbow.Concurrent.ConcurrentMap
open Kernel

section Reserve

variable {K V : Type} [Inhabited K] [Inhabited V] {params : Params} {hash : K → UInt64}
  {map : Map K V} {count : Nat}

omit [Inhabited K] [Inhabited V] in
theorem growable_of_growSize {fuel final : Nat}
    (hgrow : growSize params.loadFactor count fuel (wrap (map.buckets.length * 2)) = some final)
    (hpos : final ≠ 0) : map.Growable params count := by
  rw [← newSizeAfter_zero] at hgrow
  obtain ⟨total, rfl, hadmits⟩ := growSize_sound hgrow
  have htotal : total < 64 := by
    by_contra hmany
    exact hpos (newSizeAfter_eq_zero (by omega))
  exact .inr ⟨total, htotal, hpos, hadmits⟩

omit [Inhabited K] [Inhabited V] in
/-- With the default load factor the size `2 ^ 62` admits most, as the product of the next
one with 75 wraps to less. -/
theorem default_growable_iff {exponent : Nat} (hexponent : exponent < 62)
    (hlength : map.buckets.length = 2 ^ exponent)
    (hupper : map.upperBound = wrap (2 ^ exponent * 75) / 100) :
    map.Growable defaultParams count ↔ count ≤ 138350580552821637 := by
  have hbounds : ∀ power < 64, 2 ^ power * 75 % 2 ^ 64 / 100 ≤ 138350580552821637 := by decide
  have hsize (doublings : Nat) :
      newSizeAfter map.buckets.length doublings = wrap (2 ^ (exponent + (doublings + 1))) := by
    rw [newSizeAfter, hlength, ← Nat.pow_add]
  constructor
  · rintro (hbound | ⟨doublings, _, hpos, hadmits⟩)
    · have hbest := hbounds exponent (by omega)
      rw [hupper] at hbound
      unfold wrap wordRange at hbound
      omega
    · have hpower : exponent + (doublings + 1) < 64 := by
        by_contra hlarge
        apply hpos
        rw [hsize]
        unfold wrap
        exact Nat.mod_eq_zero_of_dvd (Nat.pow_dvd_pow 2 (by omega))
      have hbest := hbounds _ hpower
      rw [hsize, wrap_wrap_mul] at hadmits
      unfold wrap wordRange at hadmits
      exact hadmits.trans hbest
  · intro hcount
    refine .inr ⟨61 - exponent, by omega, ?_, ?_⟩
    · rw [hsize, show exponent + (61 - exponent + 1) = 62 by omega]
      decide +kernel
    · rw [hsize, show exponent + (61 - exponent + 1) = 62 by omega]
      exact hcount.trans (by decide +kernel)

end Reserve

/-- From every reachable map `reserve` returns exactly for the counts that one of the sizes
of its loop admits, and then the bound admits the count. For other counts the loop ends at
no size but zero, however long it runs. -/
theorem reserve_returns_iff (Thread : Type) {K V : Type} [DecidableEq Thread] [BEq K]
    [Inhabited K] [Inhabited V] (params : Params) (hash : K → UInt64)
    (hcapacity : 1 ≤ params.initialCapacity) (state : State Thread K V)
    (hreach : (operations params hash).Reachable state) (count : Nat) :
    ((∃ after, state.map.reserve hash params count = some after) ↔
        state.map.Growable params count) ∧
      (∀ after, state.map.reserve hash params count = some after → count ≤ after.upperBound) ∧
      (¬ state.map.Growable params count → ∀ fuel size,
        growSize params.loadFactor count fuel (wrap (state.map.buckets.length * 2)) = some size →
          size = 0) := by
  have hsound := sound_of_reachable hcapacity hreach
  refine ⟨⟨?_, reserve_of_growable hsound.buckets⟩, ?_, ?_⟩
  · rintro ⟨after, hreserve⟩
    rcases reserve_cases hsound hreserve with ⟨hbound, _⟩ | ⟨newSize, hpos, hgrow, _⟩
    · exact .inl hbound
    · exact growable_of_growSize hgrow (Nat.ne_of_gt hpos)
  · intro after hreserve
    rcases reserve_cases hsound hreserve with ⟨hbound, rfl⟩ | ⟨newSize, _, hgrow, hupper, _⟩
    · exact Nat.le_of_lt hbound
    · rw [← newSizeAfter_zero] at hgrow
      obtain ⟨_, _, hadmits⟩ := growSize_sound hgrow
      rw [hupper]
      exact hadmits
  · intro hstuck fuel size hgrow
    by_contra hpos
    exact hstuck (growable_of_growSize hgrow hpos)

/-- A map of the default size can grow to a billion elements. -/
theorem default_reserve_billion :
    ∃ after, (construct defaultParams : Map Nat Nat).reserve (fun _ => 0) defaultParams
        1000000000 = some after ∧ 1000000000 ≤ after.upperBound := by
  have hreserve := reserve_returns_iff Unit defaultParams (fun _ : Nat => 0) (by decide)
    (⟨construct defaultParams, fun _ => .idle, []⟩ : State Unit Nat Nat) ⟨_, rfl, .refl⟩ 1000000000
  have hlength : (construct defaultParams : Map Nat Nat).buckets.length = 2 ^ 5 := rfl
  obtain ⟨after, hafter⟩ := hreserve.1.mpr
    ((default_growable_iff (by decide) hlength rfl).mpr (by decide))
  exact ⟨after, hafter, hreserve.2.1 after hafter⟩

/-- With the largest count the loop of a new map never ends. -/
theorem default_reserve_diverges :
    (construct defaultParams : Map Nat Nat).reserve (fun _ => 0) defaultParams (2 ^ 64 - 1) =
        none ∧
      ∀ fuel, growSize 75 (2 ^ 64 - 1) fuel (wrap (32 * 2)) = none := by
  have hloops (fuel : Nat) : growSize 75 (2 ^ 64 - 1) fuel (wrap (32 * 2)) = none := by
    rw [Option.eq_none_iff_forall_ne_some]
    intro final hgrow
    rw [← newSizeAfter_zero] at hgrow
    obtain ⟨_, _, hadmits⟩ := growSize_sound hgrow
    have hrange := wrap_lt (final * 75)
    unfold wordRange at hrange
    omega
  refine ⟨?_, hloops⟩
  have hbound : ¬ 2 ^ 64 - 1 < (construct defaultParams : Map Nat Nat).upperBound := by
    decide +kernel
  rw [Map.reserve, if_neg hbound]
  exact congrArg (Option.bind · _) (hloops 65)

end Crossbow.Concurrent.ConcurrentMap
