import Crossbow.Concurrent.MapBuckets
import Mathlib.Data.List.Flatten

/-! The invariant of the whole map: a power of two of sound buckets, every key in
the bucket its hash selects, distinct keys, and an exact counter. Sections edit
one bucket, and `reserve` permutes the bindings. -/
namespace Crossbow.Concurrent.ConcurrentMap
open Kernel Kernel.Assoc

variable {K V : Type}

def bindingsOf (buckets : List (Bucket K V)) : List (K × V) := buckets.flatMap Bucket.entries

def Map.bindings (map : Map K V) : List (K × V) := bindingsOf map.buckets

/-- Buckets that `getBucket` can address with the given flag. -/
structure Placed (hash : K → UInt64) (flag : Nat) (buckets : List (Bucket K V)) : Prop where
  flag_lt : flag < buckets.length
  sound : ∀ bucket ∈ buckets, bucket.Sound
  at_index : ∀ (index : Nat) (bucket : Bucket K V), buckets[index]? = some bucket →
    ∀ entry ∈ bucket.entries, bucketIndex hash flag entry.1 = index

structure Map.Wf [BEq K] (hash : K → UInt64) (map : Map K V) : Prop where
  size : ∃ exponent, 5 ≤ exponent ∧ exponent < 64 ∧ map.buckets.length = 2 ^ exponent
  upper : map.upperBound = wrap (map.buckets.length * defaultParams.loadFactor) / 100
  placed : Placed hash map.bucketFlag map.buckets
  distinct : Distinct map.bindings
  counted : map.count = wrap map.bindings.length

section Buckets

variable {hash : K → UInt64} {flag : Nat} {buckets : List (Bucket K V)}

theorem Placed.index_lt (hplaced : Placed hash flag buckets) (key : K) :
    bucketIndex hash flag key < buckets.length :=
  Nat.lt_of_le_of_lt Nat.and_le_right hplaced.flag_lt

theorem bindingsOf_perm {index : Nat} {bucket : Bucket K V}
    (hindex : buckets[index]? = some bucket) :
    (bindingsOf buckets).Perm (bucket.entries ++ bindingsOf (buckets.eraseIdx index)) := by
  obtain ⟨hlt, hget⟩ := List.getElem?_eq_some_iff.mp hindex
  have hperm := List.getElem_cons_eraseIdx_perm hlt
  rw [hget] at hperm
  exact hperm.symm.flatMap_right Bucket.entries

theorem bindingsOf_set_perm {index : Nat} (hlt : index < buckets.length) (changed : Bucket K V) :
    (bindingsOf (buckets.set index changed)).Perm
      (changed.entries ++ bindingsOf (buckets.eraseIdx index)) := by
  have hget : (buckets.set index changed)[index]? = some changed := by
    rw [List.getElem?_set_self hlt]
  have hperm := bindingsOf_perm hget
  rwa [List.eraseIdx_set_eq] at hperm

theorem Placed.set (hplaced : Placed hash flag buckets) {index : Nat} {changed : Bucket K V}
    (hsound : changed.Sound)
    (hentries : ∀ entry ∈ changed.entries, bucketIndex hash flag entry.1 = index) :
    Placed hash flag (buckets.set index changed) where
  flag_lt := by
    rw [List.length_set]
    exact hplaced.flag_lt
  sound := by
    intro bucket hbucket
    rcases List.mem_or_eq_of_mem_set hbucket with hmem | rfl
    · exact hplaced.sound bucket hmem
    · exact hsound
  at_index := by
    intro other bucket hbucket
    by_cases hsame : index = other
    · subst hsame
      rw [List.getElem?_set] at hbucket
      simp only [if_true] at hbucket
      split at hbucket
      · cases hbucket
        exact hentries
      · contradiction
    · rw [List.getElem?_set_ne hsame] at hbucket
      exact hplaced.at_index other bucket hbucket

theorem Placed.others [BEq K] (hplaced : Placed hash flag buckets)
    (hconsistent : ∀ left right : K, (left == right) = true → hash left = hash right) (key : K) :
    ∀ entry ∈ bindingsOf (buckets.eraseIdx (bucketIndex hash flag key)),
      (entry.1 == key) = false := by
  intro entry hentry
  obtain ⟨bucket, hbucket, hmem⟩ := List.mem_flatMap.mp hentry
  obtain ⟨index, hne, hindex⟩ := List.mem_eraseIdx_iff_getElem?.mp hbucket
  rw [Bool.eq_false_iff]
  intro hequal
  have hplace := hplaced.at_index index bucket hindex entry hmem
  unfold bucketIndex at hplace hne
  rw [hconsistent entry.1 key hequal] at hplace
  exact hne hplace.symm

end Buckets

section Rehash

variable {hash : K → UInt64} {flag : Nat} {buckets : List (Bucket K V)}

/-- The buckets still address all keys and have gained the given bindings. -/
structure Gains (hash : K → UInt64) (flag : Nat) (buckets after : List (Bucket K V))
    (added : List (K × V)) : Prop where
  length : after.length = buckets.length
  placed : Placed hash flag after
  perm : (bindingsOf after).Perm (added ++ bindingsOf buckets)

/-- The rule for both loops of `resize`: if one iteration gains what its element
holds, the loop gains what the elements hold together. -/
theorem gains_foldlM {El : Type} {step : List (Bucket K V) → El → Option (List (Bucket K V))}
    {held : El → List (K × V)} {elements : List El}
    (hstep : ∀ el ∈ elements, ∀ current, Placed hash flag current →
      ∃ after, step current el = some after ∧ Gains hash flag current after (held el))
    (hplaced : Placed hash flag buckets) :
    ∃ after, elements.foldlM step buckets = some after ∧
      Gains hash flag buckets after (elements.flatMap held) := by
  induction elements generalizing buckets with
  | nil => exact ⟨buckets, rfl, rfl, hplaced, List.Perm.refl _⟩
  | cons el rest ih =>
      obtain ⟨middle, hmiddle, hfirst⟩ := hstep el (by simp) buckets hplaced
      obtain ⟨after, hafter, hrest⟩ :=
        ih (fun other hother => hstep other (by simp [hother])) hfirst.placed
      refine ⟨after, ?_, hrest.length.trans hfirst.length, hrest.placed, ?_⟩
      · rw [List.foldlM_cons, hmiddle]
        exact hafter
      · rw [List.flatMap_cons]
        rw [List.append_assoc]
        apply hrest.perm.trans
        apply (hfirst.perm.append_left _).trans
        exact List.perm_append_comm_assoc ..

theorem placeElement_gains {el : KeyValueElement K V} (hvalid : el.state = .valid)
    (hplaced : Placed hash flag buckets) :
    ∃ after, placeElement hash flag buckets el = some after ∧
      Gains hash flag buckets after [el.binding] := by
  have hlt := hplaced.index_lt el.key
  obtain ⟨bucket, hbucket⟩ : ∃ bucket, buckets[bucketIndex hash flag el.key]? = some bucket :=
    ⟨_, List.getElem?_eq_getElem hlt⟩
  have hsound := hplaced.sound bucket (List.mem_of_getElem? hbucket)
  have hperm := insertNoDuplicateCheck_entries hsound hvalid
  refine ⟨buckets.set (bucketIndex hash flag el.key) (bucket.insertNoDuplicateCheck el), ?_,
    List.length_set, hplaced.set (insertNoDuplicateCheck_sound hsound hvalid) ?_, ?_⟩
  · simp only [placeElement, hbucket, Option.bind_eq_bind, Option.bind_some]
  · intro entry hentry
    rcases List.mem_cons.mp (hperm.mem_iff.mp hentry) with rfl | hmem
    · rfl
    · exact hplaced.at_index _ bucket hbucket entry hmem
  · refine (bindingsOf_set_perm hlt _).trans ((hperm.append_right _).trans ?_)
    rw [List.cons_append]
    exact ((bindingsOf_perm hbucket).symm).cons el.binding

theorem moveBucket_gains {old : Bucket K V} (hsound : old.Sound)
    (hplaced : Placed hash flag buckets) :
    ∃ after, moveBucket hash flag buckets old = some after ∧
      Gains hash flag buckets after old.entries := by
  unfold moveBucket
  split
  · rename_i harr
    rw [hsound.entries_of_unassigned harr]
    exact ⟨buckets, rfl, rfl, hplaced, List.Perm.refl _⟩
  · rename_i harr
    have hvalid := hsound.valid_of_assigned harr
    have hentries : old.entries =
        (old.arr :: old.overflow).flatMap fun el => [el.binding] := by
      rw [← List.map_eq_flatMap, List.map_cons]
      exact entries_of_valid hvalid hsound.overflow_valid
    rw [hentries]
    apply gains_foldlM _ hplaced
    intro el hel current hcurrent
    apply placeElement_gains _ hcurrent
    rcases List.mem_cons.mp hel with rfl | hmem
    · exact hvalid
    · exact hsound.overflow_valid el hmem

section Empty

variable [Inhabited K] [Inhabited V]

theorem entries_emptyBucket : (emptyBucket : Bucket K V).entries = [] := by
  simp [emptyBucket, Bucket.entries]

theorem placed_empty (hash : K → UInt64) {size : Nat} (hflag : flag < size) :
    Placed hash flag (List.replicate size (emptyBucket : Bucket K V)) where
  flag_lt := by
    rw [List.length_replicate]
    exact hflag
  sound := by
    intro bucket hbucket
    rw [List.eq_of_mem_replicate hbucket]
    exact ⟨by simp [emptyBucket], by simp [emptyBucket], fun _ => rfl⟩
  at_index := by
    intro index bucket hbucket entry hentry
    rw [List.eq_of_mem_replicate (List.mem_of_getElem? hbucket), entries_emptyBucket] at hentry
    contradiction

theorem bindingsOf_empty (size : Nat) :
    bindingsOf (List.replicate size (emptyBucket : Bucket K V)) = [] := by
  unfold bindingsOf
  rw [List.flatMap_eq_nil_iff]
  intro bucket hbucket
  rw [List.eq_of_mem_replicate hbucket]
  exact entries_emptyBucket

end Empty

end Rehash

section Reserve

variable {count exponent : Nat}

theorem upper_pos (hlow : 5 ≤ exponent) (hhigh : exponent < 64) :
    0 < wrap (2 ^ exponent * defaultParams.loadFactor) / 100 := by
  have hall : ∀ exponent < 64, 5 ≤ exponent → 0 < (2 ^ exponent * 75 % 2 ^ 64) / 100 := by
    decide
  unfold wrap
  exact hall exponent hhigh hlow

theorem growSize_zero {loadFactor : Nat} (hcount : 0 < count) (fuel : Nat) :
    growSize loadFactor count fuel 0 = none := by
  induction fuel with
  | zero => rfl
  | succ fuel ih =>
      have hzero : wrap 0 = 0 := wrap_of_lt wordRange_pos
      rw [growSize, Nat.zero_mul, Nat.zero_mul, hzero, Nat.zero_div, if_pos hcount]
      exact ih

theorem wrap_double (hexponent : exponent < 64) :
    wrap (2 ^ exponent * 2) = if exponent + 1 < 64 then 2 ^ (exponent + 1) else 0 := by
  rw [← Nat.pow_succ]
  split
  · rename_i hlt
    exact wrap_of_lt (Nat.pow_lt_pow_right (by decide) hlt)
  · rw [show exponent.succ = 64 by omega]
    unfold wrap
    exact Nat.mod_self _

theorem growSize_pow {loadFactor : Nat} (hcount : 0 < count) {fuel size : Nat}
    (hexponent : exponent < 64)
    (hgrow : growSize loadFactor count fuel (2 ^ exponent) = some size) :
    ∃ final, exponent ≤ final ∧ final < 64 ∧ size = 2 ^ final := by
  induction fuel generalizing exponent with
  | zero => contradiction
  | succ fuel ih =>
      rw [growSize] at hgrow
      split at hgrow
      · rw [wrap_double hexponent] at hgrow
        split at hgrow
        · rename_i hlt
          obtain ⟨final, hle, hfinal, hsize⟩ := ih hlt hgrow
          exact ⟨final, by omega, hfinal, hsize⟩
        · rw [growSize_zero hcount] at hgrow
          contradiction
      · cases hgrow
        exact ⟨exponent, Nat.le_refl _, hexponent, rfl⟩

def newSizeAfter (buckets doublings : Nat) : Nat := wrap (buckets * 2 ^ (doublings + 1))

/-- The count is below the bound, or one of the sizes of the loop admits it. -/
def Map.Growable {K V : Type} (params : Params) (map : Map K V) (count : Nat) : Prop :=
  count < map.upperBound ∨
    ∃ doublings < 64, newSizeAfter map.buckets.length doublings ≠ 0 ∧
      count ≤ wrap (newSizeAfter map.buckets.length doublings * params.loadFactor) / 100

instance {K V : Type} (params : Params) (map : Map K V) (count : Nat) :
    Decidable (map.Growable params count) :=
  inferInstanceAs (Decidable (_ ∨ _))

section Sizes

variable {buckets loadFactor : Nat}

theorem newSizeAfter_zero : newSizeAfter buckets 0 = wrap (buckets * 2) := rfl

theorem newSizeAfter_succ (doublings : Nat) :
    wrap (newSizeAfter buckets doublings * 2) = newSizeAfter buckets (doublings + 1) := by
  unfold newSizeAfter
  rw [wrap_wrap_mul, Nat.mul_assoc, ← Nat.pow_succ]

theorem newSizeAfter_eq_zero {doublings : Nat} (hmany : 63 ≤ doublings) :
    newSizeAfter buckets doublings = 0 := by
  unfold newSizeAfter wrap
  apply Nat.mod_eq_zero_of_dvd
  exact (Nat.pow_dvd_pow 2 (show 64 ≤ doublings + 1 by omega)).mul_left buckets

theorem newSizeAfter_ne_zero {first second : Nat} (hle : first ≤ second)
    (hsecond : newSizeAfter buckets second ≠ 0) : newSizeAfter buckets first ≠ 0 := by
  intro hfirst
  apply hsecond
  induction second, hle using Nat.le_induction with
  | base => exact hfirst
  | succ second _ ih =>
      by_cases hzero : newSizeAfter buckets second = 0
      · rw [← newSizeAfter_succ, hzero, Nat.zero_mul]
        exact wrap_of_lt wordRange_pos
      · exact absurd (ih hzero) hzero

theorem growSize_sound {fuel doublings final : Nat}
    (hgrow : growSize loadFactor count fuel (newSizeAfter buckets doublings) = some final) :
    ∃ total, final = newSizeAfter buckets total ∧ count ≤ wrap (final * loadFactor) / 100 := by
  induction fuel generalizing doublings with
  | zero => contradiction
  | succ fuel ih =>
      rw [growSize] at hgrow
      split at hgrow
      · rw [newSizeAfter_succ] at hgrow
        exact ih hgrow
      · rename_i hadmits
        cases hgrow
        exact ⟨doublings, rfl, Nat.le_of_not_lt hadmits⟩

theorem growSize_complete {fuel doublings more : Nat} (hfuel : more < fuel)
    (hadmits : count ≤
      wrap (newSizeAfter buckets (doublings + more) * loadFactor) / 100) :
    ∃ total ≤ doublings + more,
      growSize loadFactor count fuel (newSizeAfter buckets doublings) =
        some (newSizeAfter buckets total) := by
  induction fuel generalizing doublings more with
  | zero => contradiction
  | succ fuel ih =>
      rw [growSize]
      split
      · rename_i hsmall
        rw [newSizeAfter_succ]
        cases more with
        | zero => exact absurd hadmits (Nat.not_le_of_lt hsmall)
        | succ more =>
            rw [show doublings + (more + 1) = doublings + 1 + more by omega] at hadmits ⊢
            exact ih (by omega) hadmits
      · exact ⟨doublings, by omega, rfl⟩

end Sizes

variable [BEq K] [PartialEquivBEq K] [Inhabited K] [Inhabited V] {hash : K → UInt64} {map : Map K V}

omit [BEq K] [PartialEquivBEq K] in
theorem resize_gains (hash : K → UInt64) (params : Params)
    (hsound : ∀ bucket ∈ map.buckets, bucket.Sound)
    {newSize : Nat} (hpos : 0 < newSize) :
    ∃ buckets, map.resize hash params newSize =
        some ⟨buckets, map.count, wrap (newSize * params.loadFactor) / 100,
          (wordRange - 1) % newSize⟩ ∧
      buckets.length = newSize ∧ Placed hash ((wordRange - 1) % newSize) buckets ∧
      (bindingsOf buckets).Perm map.bindings := by
  have hflag : (wordRange - 1) % newSize < newSize := Nat.mod_lt _ hpos
  obtain ⟨buckets, hbuckets, hgains⟩ : ∃ buckets, map.buckets.foldlM
      (moveBucket hash ((wordRange - 1) % newSize))
      (List.replicate newSize emptyBucket) = some buckets ∧
      Gains hash _ (List.replicate newSize emptyBucket) buckets map.bindings := by
    apply gains_foldlM _ (placed_empty hash hflag)
    intro old hold current hcurrent
    exact moveBucket_gains (hsound old hold) hcurrent
  refine ⟨buckets, ?_, ?_, hgains.placed, ?_⟩
  · unfold Map.resize
    rw [if_neg (Nat.ne_of_gt hpos)]
    simp only [hbuckets, Option.bind_eq_bind, Option.bind_some]
  · rw [hgains.length, List.length_replicate]
  · have hperm := hgains.perm
    rwa [bindingsOf_empty, List.append_nil] at hperm

theorem Map.Wf.resize (hwf : map.Wf hash) (hlow : 5 ≤ exponent) (hhigh : exponent < 64) :
    ∃ after, map.resize hash defaultParams (2 ^ exponent) = some after ∧ after.Wf hash ∧
      after.bindings.Perm map.bindings := by
  obtain ⟨buckets, hresize, hlength, hplaced, hperm⟩ :=
    resize_gains hash defaultParams hwf.placed.sound (Nat.two_pow_pos exponent)
  refine ⟨_, hresize, ⟨⟨exponent, hlow, hhigh, hlength⟩, ?_, hplaced, ?_, ?_⟩, hperm⟩
  · rw [hlength]
  · exact (hperm.pairwise_iff fun {left right} hne => by
      rw [BEq.comm]
      exact hne).mpr hwf.distinct
  · rw [hwf.counted]
    exact congrArg wrap hperm.length_eq.symm

theorem Map.Wf.reserve (hwf : map.Wf hash) {after : Map K V}
    (hreserve : map.reserve hash defaultParams count = some after) :
    after.Wf hash ∧ after.bindings.Perm map.bindings := by
  unfold Map.reserve at hreserve
  split at hreserve
  · cases hreserve
    exact ⟨hwf, List.Perm.refl _⟩
  · rename_i hbound
    obtain ⟨exponent, hlow, hhigh, hlength⟩ := hwf.size
    have hupper := hwf.upper
    rw [hlength] at hupper
    have hpositive := upper_pos hlow hhigh
    have hcount : 0 < count := by omega
    obtain ⟨newSize, hgrow, hresize⟩ := Option.bind_eq_some_iff.mp hreserve
    rw [hlength, wrap_double hhigh] at hgrow
    split at hgrow
    · rename_i hlt
      obtain ⟨final, hle, hfinal, rfl⟩ := growSize_pow hcount hlt hgrow
      obtain ⟨result, hresult, hwf', hperm⟩ := hwf.resize (show 5 ≤ final by omega) hfinal
      rw [hresult] at hresize
      cases hresize
      exact ⟨hwf', hperm⟩
    · rw [growSize_zero hcount] at hgrow
      contradiction

omit [BEq K] [PartialEquivBEq K] in
theorem reserve_of_growable {params : Params} (hsound : ∀ bucket ∈ map.buckets, bucket.Sound)
    (hgrowable : map.Growable params count) :
    ∃ after, map.reserve hash params count = some after := by
  by_cases hbound : count < map.upperBound
  · exact ⟨map, if_pos hbound⟩
  · obtain ⟨doublings, hlt, hpos, hadmits⟩ := hgrowable.resolve_left hbound
    rw [← Nat.zero_add doublings] at hadmits
    obtain ⟨total, hle, hgrow⟩ := growSize_complete (show doublings < 65 by omega) hadmits
    have hsize := newSizeAfter_ne_zero (show total ≤ doublings by omega) hpos
    obtain ⟨buckets, hresize, _⟩ :=
      resize_gains hash params hsound (Nat.pos_of_ne_zero hsize)
    rw [newSizeAfter_zero] at hgrow
    rw [Map.reserve, if_neg hbound, hgrow]
    exact ⟨_, hresize⟩

omit [PartialEquivBEq K] [Inhabited K] [Inhabited V] in
/-- Up to `2 ^ 55` there is a size that admits the count, whichever size the map has. -/
theorem Map.Wf.growable (hwf : map.Wf hash) (hcount : count ≤ 2 ^ 55) :
    map.Growable defaultParams count := by
  have hall : ∀ exponent < 64,
      2 ^ 55 < wrap (2 ^ exponent * defaultParams.loadFactor) / 100 ∨
        ∃ power < 64, exponent < power ∧
          2 ^ 55 ≤ wrap (2 ^ power * defaultParams.loadFactor) / 100 := by
    decide +kernel
  obtain ⟨exponent, _, hexponent, hlength⟩ := hwf.size
  rcases hall exponent hexponent with hbound | ⟨power, hpower, hlt, hadmits⟩
  · left
    rw [hwf.upper, hlength]
    exact Nat.lt_of_le_of_lt hcount hbound
  · right
    have hsize : newSizeAfter map.buckets.length (power - exponent - 1) = 2 ^ power := by
      rw [newSizeAfter, hlength, ← Nat.pow_add,
        show exponent + (power - exponent - 1 + 1) = power by omega]
      exact wrap_of_lt (Nat.pow_lt_pow_right (by decide) hpower)
    refine ⟨power - exponent - 1, by omega, ?_, ?_⟩
    · rw [hsize]
      exact Nat.ne_of_gt (Nat.two_pow_pos power)
    · rw [hsize]
      exact hcount.trans hadmits

end Reserve

section Sections

variable [BEq K] {hash : K → UInt64} {map : Map K V}

theorem countAfter_eq {key : K} {found put : Option (K × V)} {before after : List (K × V)}
    (hedit : Edit key found put before after) :
    countAfter found put (wrap before.length) = wrap after.length := by
  have hlength := hedit.length
  unfold countAfter
  split
  · rw [wrap_wrap_add, show before.length + 1 = after.length from hlength.symm]
  · rw [show before.length = after.length + 1 from hlength.symm, wrapSub_wrap_succ]
  · rename_i hadd hremove
    have hsame : after.length = before.length := by
      cases found with
      | none =>
          cases put with
          | none => exact hlength
          | some entry => exact (hadd entry rfl rfl).elim
      | some old =>
          cases put with
          | none => exact (hremove old rfl rfl).elim
          | some entry => exact Nat.succ.inj hlength
    rw [hsame]

variable [EquivBEq K]

theorem Map.Wf.section (hwf : map.Wf hash)
    (hconsistent : ∀ left right : K, (left == right) = true → hash left = hash right)
    {key : K} {bucket changed : Bucket K V} {found put : Option (K × V)}
    (hbucket : map.buckets[bucketIndex hash map.bucketFlag key]? = some bucket)
    (hsound : changed.Sound) (hedit : Edit key found put bucket.entries changed.entries) :
    Map.Wf hash { map with
        buckets := map.buckets.set (bucketIndex hash map.bucketFlag key) changed
        count := countAfter found put map.count } ∧
      Edit key found put map.bindings
        (bindingsOf (map.buckets.set (bucketIndex hash map.bucketFlag key) changed)) := by
  have hmap : Edit key found put map.bindings
      (bindingsOf (map.buckets.set (bucketIndex hash map.bucketFlag key) changed)) := by
    apply (hedit.frame _ (hwf.placed.others hconsistent key)).of_perm
    · exact bindingsOf_perm hbucket
    · exact bindingsOf_set_perm (hwf.placed.index_lt key) changed
  refine ⟨⟨?_, ?_, hwf.placed.set hsound ?_, hmap.distinct hwf.distinct, ?_⟩, hmap⟩
  · simpa using hwf.size
  · simpa using hwf.upper
  · apply hedit.forall_after (hwf.placed.at_index _ bucket hbucket)
    intro entry hentry
    unfold bucketIndex
    rw [hconsistent entry.1 key hentry]
  · rw [hwf.counted]
    exact countAfter_eq hmap

omit [EquivBEq K] in
theorem Map.Wf.bucket (hwf : map.Wf hash) (key : K) :
    ∃ bucket, map.buckets[bucketIndex hash map.bucketFlag key]? = some bucket ∧
      bucket.Sound ∧ Distinct bucket.entries := by
  obtain ⟨bucket, hbucket⟩ :
      ∃ bucket, map.buckets[bucketIndex hash map.bucketFlag key]? = some bucket :=
    ⟨_, List.getElem?_eq_getElem (hwf.placed.index_lt key)⟩
  refine ⟨bucket, hbucket, hwf.placed.sound bucket (List.mem_of_getElem? hbucket), ?_⟩
  have hsub : bucket.entries.Sublist map.bindings :=
    List.sublist_flatten_of_mem (List.mem_map.mpr ⟨bucket, List.mem_of_getElem? hbucket, rfl⟩)
  exact hwf.distinct.sublist hsub

variable [Inhabited V]
  (hconsistent : ∀ left right : K, (left == right) = true → hash left = hash right)
include hconsistent

theorem Map.Wf.insert (hwf : map.Wf hash) (key : K) (value : V) :
    ∃ after ret found, map.insert hash key value = some (after, ret) ∧ after.Wf hash ∧
      Edit key found (insertAt key value found).1 map.bindings after.bindings ∧
      ret = (insertAt key value found).2 := by
  obtain ⟨bucket, hbucket, hsound, hdistinct⟩ := hwf.bucket key
  obtain ⟨hsound', found, hedit, hret⟩ := insert_edit hsound hdistinct key value
  obtain ⟨hwf', hmap⟩ := hwf.section hconsistent hbucket hsound' hedit
  have hcount : (if (insertAt key value found).2.1 then wrap (map.count + 1) else map.count) =
      countAfter found (insertAt key value found).1 map.count := by
    cases found with
    | none => simp [insertAt, countAfter]
    | some entry => simp [insertAt, countAfter]
  refine ⟨_, _, found, ?_, hwf', hmap, rfl⟩
  simp only [Map.insert, hbucket, Option.bind_eq_bind, Option.bind_some, hret, hcount]

theorem Map.Wf.erase (hwf : map.Wf hash) (key : K) :
    ∃ after ret found, map.erase hash key = some (after, ret) ∧ after.Wf hash ∧
      Edit key found (eraseAt found).1 map.bindings after.bindings ∧
      ret = (eraseAt found).2 := by
  obtain ⟨bucket, hbucket, hsound, hdistinct⟩ := hwf.bucket key
  obtain ⟨hsound', found, hedit, hret⟩ := erase_edit hsound hdistinct key
  obtain ⟨hwf', hmap⟩ := hwf.section hconsistent hbucket hsound' hedit
  have hcount : (if (eraseAt found).2.1 then wrapSub map.count 1 else map.count) =
      countAfter found (eraseAt found).1 map.count := by
    cases found with
    | none => simp [eraseAt, countAfter]
    | some entry => simp [eraseAt, countAfter]
  refine ⟨_, _, found, ?_, hwf', hmap, rfl⟩
  simp only [Map.erase, hbucket, Option.bind_eq_bind, Option.bind_some, hret, hcount]

theorem Map.Wf.at (hwf : map.Wf hash) (key : K) :
    ∃ found, map.at hash key = some (lookupAt found) ∧
      Edit key found found map.bindings map.bindings := by
  obtain ⟨bucket, hbucket, hsound, hdistinct⟩ := hwf.bucket key
  obtain ⟨found, hedit, hret⟩ := at_edit hsound hdistinct key
  refine ⟨found, ?_, ?_⟩
  · simp only [Map.at, hbucket, Option.bind_eq_bind, Option.bind_some, hret]
  · apply (hedit.frame _ (hwf.placed.others hconsistent key)).of_perm
    · exact bindingsOf_perm hbucket
    · exact bindingsOf_perm hbucket

theorem Map.Wf.execOn (hwf : map.Wf hash) (key : K) (fn : V → V × Bool) :
    ∃ after found, map.execOn hash key fn = some after ∧ after.Wf hash ∧
      Edit key found (execAt key fn found) map.bindings after.bindings := by
  obtain ⟨bucket, hbucket, hsound, hdistinct⟩ := hwf.bucket key
  obtain ⟨hsound', found, hedit, hcount⟩ := execOn_edit hsound hdistinct key fn map.count
  obtain ⟨hwf', hmap⟩ := hwf.section hconsistent hbucket hsound' hedit
  refine ⟨_, found, ?_, hwf', hmap⟩
  simp only [Map.execOn, hbucket, Option.bind_eq_bind, Option.bind_some, hcount]

end Sections

section ForEach

variable (fn : K → V → V)

theorem entries_eq_flatMap (bucket : Bucket K V) :
    bucket.entries = (bucket.arr :: bucket.overflow).flatMap fun el => (el.visit fn).2 := by
  unfold Bucket.entries
  generalize bucket.arr :: bucket.overflow = elements
  induction elements with
  | nil => rfl
  | cons el rest ih =>
      rw [List.flatMap_cons, ← ih]
      by_cases hvalid : el.state = .valid
      · simp [KeyValueElement.visit, KeyValueElement.binding, hvalid]
      · simp [KeyValueElement.visit, hvalid]

theorem visit_state (el : KeyValueElement K V) : (el.visit fn).1.state = el.state := by
  unfold KeyValueElement.visit
  split <;> rfl

theorem forEach_visited (bucket : Bucket K V) : (bucket.forEach fn).2 = bucket.entries :=
  (entries_eq_flatMap fn bucket).symm

theorem forEach_entries (bucket : Bucket K V) :
    (bucket.forEach fn).1.entries =
      bucket.entries.map fun entry => (entry.1, fn entry.1 entry.2) := by
  unfold Bucket.entries Bucket.forEach
  simp only [← List.map_cons (f := fun el => (KeyValueElement.visit fn el).1)]
  generalize bucket.arr :: bucket.overflow = elements
  induction elements with
  | nil => rfl
  | cons el rest ih =>
      by_cases hvalid : el.state = .valid
      · simp_all [KeyValueElement.visit, KeyValueElement.binding]
      · simp_all [KeyValueElement.visit]

theorem forEach_sound {bucket : Bucket K V} (hsound : bucket.Sound) :
    (bucket.forEach fn).1.Sound where
  overflow_valid := by
    intro el hel
    obtain ⟨old, hold, rfl⟩ := List.mem_map.mp hel
    rw [visit_state]
    exact hsound.overflow_valid old hold
  not_deleted := by
    simp only [Bucket.forEach, visit_state]
    exact hsound.not_deleted
  packed := by
    simp only [Bucket.forEach, visit_state]
    intro harr
    rw [hsound.packed harr]
    rfl

theorem Map.forEach_bindings (map : Map K V) :
    (map.forEach fn).1.bindings = map.bindings.map fun entry => (entry.1, fn entry.1 entry.2) := by
  unfold Map.bindings bindingsOf Map.forEach
  rw [List.flatMap_map, List.map_flatMap]
  simp only [forEach_entries]

theorem Map.forEach_visited (map : Map K V) : (map.forEach fn).2 = map.bindings := by
  unfold Map.bindings bindingsOf Map.forEach
  simp only [ConcurrentMap.forEach_visited]

theorem Map.Wf.forEach [BEq K] {hash : K → UInt64} {map : Map K V} (hwf : map.Wf hash) :
    (map.forEach fn).1.Wf hash where
  size := by simpa [Map.forEach] using hwf.size
  upper := by simpa [Map.forEach] using hwf.upper
  placed := by
    refine ⟨by simpa [Map.forEach] using hwf.placed.flag_lt, ?_, ?_⟩
    · intro bucket hbucket
      obtain ⟨old, hold, rfl⟩ := List.mem_map.mp hbucket
      exact forEach_sound fn (hwf.placed.sound old hold)
    · intro index bucket hbucket entry hentry
      simp only [Map.forEach, List.getElem?_map, Option.map_eq_some_iff] at hbucket
      obtain ⟨old, hold, rfl⟩ := hbucket
      rw [forEach_entries] at hentry
      obtain ⟨before, hbefore, rfl⟩ := List.mem_map.mp hentry
      exact hwf.placed.at_index index old hold before hbefore
  distinct := by
    rw [Map.forEach_bindings]
    exact List.pairwise_map.mpr hwf.distinct
  counted := by
    rw [Map.forEach_bindings, List.length_map]
    exact hwf.counted

end ForEach

end Crossbow.Concurrent.ConcurrentMap
