import Crossbow.Concurrent.MapInvariant
import Crossbow.Concurrent.MapLocks

/-! What `clear` leaves, for all template parameters and every reachable map. It refills
the inline element from the vector, steps over every second element of the vector, and
leaves `_count` alone. -/
namespace Crossbow.Concurrent.ConcurrentMap
open Kernel

variable {K V : Type}

/-! ### Sound buckets -/

section Sound

variable {bucket : Bucket K V}

theorem Bucket.Sound.of_atFirst (hsound : bucket.Sound) {R : Type}
    {test : KeyValueElement K V → Bool}
    {act : KeyValueElement K V → List (KeyValueElement K V) × R}
    {overflow : List (KeyValueElement K V)} {ret : R}
    (hact : ∀ el ∈ bucket.overflow, ∀ other ∈ (act el).1, other.state = .valid)
    (hfirst : atFirst test act bucket.overflow = some (overflow, ret)) :
    Bucket.Sound { bucket with overflow := overflow } := by
  obtain ⟨front, el, back, hsplit, _, rfl, _⟩ := atFirst_eq_some hfirst
  have hmem : el ∈ bucket.overflow := by simp [hsplit]
  apply sound_of_valid (hsound.arr_valid hmem)
  intro other hother
  simp only [List.mem_append] at hother
  rcases hother with (hfront | hleft) | hback
  · exact hsound.overflow_valid other (by simp [hsplit, hfront])
  · exact hact el hmem other hleft
  · exact hsound.overflow_valid other (by simp [hsplit, hback])

section Keys

variable [BEq K] [Inhabited V]

theorem insert_sound (hsound : bucket.Sound) (key : K) (value : V) :
    (bucket.insert key value).1.Sound := by
  unfold Bucket.insert
  split
  · exact sound_of_valid rfl hsound.overflow_valid
  · rename_i hassigned
    have harr := hsound.valid_of_assigned hassigned
    split
    · exact sound_of_valid harr hsound.overflow_valid
    · split
      · rename_i hfirst
        apply hsound.of_atFirst _ hfirst
        intro el hel other hother
        rw [List.mem_singleton.mp hother]
        exact hsound.overflow_valid el hel
      · apply sound_of_valid harr
        intro el hel
        rcases List.mem_append.mp hel with hmem | hmem
        · exact hsound.overflow_valid el hmem
        · rw [List.mem_singleton.mp hmem]

theorem erase_sound (hsound : bucket.Sound) (key : K) : (bucket.erase key).1.Sound := by
  unfold Bucket.erase
  split
  · exact (eraseArr_entries hsound).1
  · split
    · rename_i hfirst
      exact hsound.of_atFirst (by simp) hfirst
    · exact hsound

theorem execOn_sound (hsound : bucket.Sound) (key : K) (fn : V → V × Bool) (count : Nat) :
    (bucket.execOn key fn count).1.Sound := by
  unfold Bucket.execOn
  split
  · rename_i hmatch
    have hchanged : Bucket.Sound
        { bucket with arr := { bucket.arr with value := (fn bucket.arr.value).1 } } :=
      sound_of_valid (hsound.of_isValidAndEqual hmatch).1 hsound.overflow_valid
    dsimp only
    split
    · exact (eraseArr_entries hchanged).1
    · exact hchanged
  · split
    · rename_i hfirst
      apply hsound.of_atFirst _ hfirst
      intro el hel other hother
      split at hother
      · contradiction
      · rw [List.mem_singleton.mp hother]
        exact hsound.overflow_valid el hel
    · dsimp only
      split
      · exact hsound
      · exact insertNoDuplicateCheck_sound hsound rfl

end Keys

theorem mem_of_mem_clearOverflow {el : KeyValueElement K V}
    {overflow : List (KeyValueElement K V)} (hmem : el ∈ clearOverflow overflow) :
    el ∈ overflow := by
  induction overflow using clearOverflow.induct with
  | case1 => exact hmem
  | case2 last hvalid => simp [clearOverflow, hvalid] at hmem
  | case3 last hvalid => simpa [clearOverflow, hvalid] using hmem
  | case4 first following rest hvalid ih =>
      rw [clearOverflow, if_pos hvalid] at hmem
      rcases List.mem_cons.mp hmem with rfl | hrest
      · simp
      · simp [ih hrest]
  | case5 first following rest hvalid ih =>
      rw [clearOverflow, if_neg hvalid] at hmem
      rcases List.mem_cons.mp hmem with rfl | hrest
      · simp
      · exact List.mem_cons_of_mem _ (ih hrest)

theorem clear_of_nil (hsound : bucket.Sound) (hoverflow : bucket.overflow = []) :
    bucket.clear = ⟨{ bucket.arr with state := .unassigned }, []⟩ := by
  obtain ⟨⟨state, key, value⟩, overflow⟩ := bucket
  cases hoverflow
  cases state with
  | unassigned => rfl
  | deleted => exact absurd rfl hsound.not_deleted
  | valid => rfl

theorem clear_of_cons (hsound : bucket.Sound) {front : List (KeyValueElement K V)}
    {last : KeyValueElement K V} (hoverflow : bucket.overflow = front ++ [last]) :
    bucket.clear = ⟨last, clearOverflow front⟩ := by
  have harr : bucket.arr.state = .valid :=
    hsound.arr_valid (show last ∈ bucket.overflow by simp [hoverflow])
  simp [Bucket.clear, harr, Bucket.eraseArr, hoverflow]

theorem clear_sound (hsound : bucket.Sound) : bucket.clear.Sound := by
  rcases List.eq_nil_or_concat bucket.overflow with hnil | ⟨front, last, hlast⟩
  · rw [clear_of_nil hsound hnil]
    exact ⟨by simp, by simp, fun _ => rfl⟩
  · rw [List.concat_eq_append] at hlast
    have hvalid : ∀ el ∈ front ++ [last], el.state = .valid := by
      rw [← hlast]
      exact hsound.overflow_valid
    rw [clear_of_cons hsound hlast]
    apply sound_of_valid (hvalid last (by simp))
    intro el hel
    exact hvalid el (by simp [mem_of_mem_clearOverflow hel])

theorem clear_entries_eq_nil_iff (hsound : bucket.Sound) :
    bucket.clear.entries = [] ↔ bucket.overflow = [] := by
  rcases List.eq_nil_or_concat bucket.overflow with hnil | ⟨front, last, hlast⟩
  · rw [clear_of_nil hsound hnil]
    simp [Bucket.entries, hnil]
  · rw [List.concat_eq_append] at hlast
    have hvalid : last.state = .valid :=
      hsound.overflow_valid last (by simp [hlast])
    rw [clear_of_cons hsound hlast]
    simp [Bucket.entries, hvalid, hlast]

end Sound

/-! ### Sound maps -/

/-- The buckets are sound and `bucket_flag` selects one of them. -/
structure Map.Sound (map : Map K V) : Prop where
  buckets : ∀ bucket ∈ map.buckets, bucket.Sound
  flag_lt : map.bucketFlag < map.buckets.length

section Maps

variable [Inhabited K] [Inhabited V] {params : Params} {hash : K → UInt64} {map after : Map K V}

omit [Inhabited K] [Inhabited V] in
theorem Map.Sound.set (hsound : map.Sound) {index count : Nat} {changed : Bucket K V}
    (hchanged : changed.Sound) :
    Map.Sound { map with buckets := map.buckets.set index changed, count := count } where
  buckets := by
    intro bucket hbucket
    rcases List.mem_or_eq_of_mem_set hbucket with hmem | rfl
    · exact hsound.buckets bucket hmem
    · exact hchanged
  flag_lt := by
    rw [List.length_set]
    exact hsound.flag_lt

theorem reserve_cases {count : Nat} (hsound : map.Sound)
    (hreserve : map.reserve hash params count = some after) :
    (count < map.upperBound ∧ after = map) ∨
      ∃ newSize, 0 < newSize ∧
        growSize params.loadFactor count 65 (wrap (map.buckets.length * 2)) = some newSize ∧
        after.upperBound = wrap (newSize * params.loadFactor) / 100 ∧ after.Sound ∧
        after.bindings.Perm map.bindings := by
  unfold Map.reserve at hreserve
  split at hreserve
  · rename_i hbound
    cases hreserve
    exact .inl ⟨hbound, rfl⟩
  · obtain ⟨newSize, hgrow, hresize⟩ := Option.bind_eq_some_iff.mp hreserve
    have hpos : 0 < newSize := by
      apply Nat.pos_of_ne_zero
      intro hzero
      rw [Map.resize, if_pos hzero] at hresize
      contradiction
    obtain ⟨buckets, hresult, hlength, hplaced, hperm⟩ :=
      resize_gains hash params hsound.buckets hpos
    rw [hresult] at hresize
    cases hresize
    exact .inr ⟨newSize, hpos, hgrow, rfl, ⟨hplaced.sound, hplaced.flag_lt⟩, hperm⟩

theorem Map.Sound.reserve {count : Nat} (hsound : map.Sound)
    (hreserve : map.reserve hash params count = some after) :
    after.Sound ∧ after.bindings.Perm map.bindings := by
  rcases reserve_cases hsound hreserve with ⟨_, rfl⟩ | ⟨_, _, _, _, hafter, hperm⟩
  · exact ⟨hsound, .refl _⟩
  · exact ⟨hafter, hperm⟩

omit [Inhabited K] [Inhabited V] in
theorem Map.Sound.clear (hsound : map.Sound) : map.clear.Sound where
  buckets := by
    intro bucket hbucket
    obtain ⟨old, hold, rfl⟩ := List.mem_map.mp hbucket
    exact clear_sound (hsound.buckets old hold)
  flag_lt := by
    unfold Map.clear
    rw [List.length_map]
    exact hsound.flag_lt

variable [BEq K]

theorem Map.Sound.step (hsound : map.Sound) (hstep : MapStep params hash map after) :
    after.Sound := by
  cases hstep with
  | same => exact hsound
  | insert hinsert =>
      obtain ⟨bucket, hbucket, hresult⟩ := Option.bind_eq_some_iff.mp hinsert
      cases hresult
      exact hsound.set (insert_sound (hsound.buckets _ (List.mem_of_getElem? hbucket)) _ _)
  | erase herase =>
      obtain ⟨bucket, hbucket, hresult⟩ := Option.bind_eq_some_iff.mp herase
      cases hresult
      exact hsound.set (erase_sound (hsound.buckets _ (List.mem_of_getElem? hbucket)) _)
  | execOn hexec =>
      obtain ⟨bucket, hbucket, hresult⟩ := Option.bind_eq_some_iff.mp hexec
      cases hresult
      exact hsound.set (execOn_sound (hsound.buckets _ (List.mem_of_getElem? hbucket)) _ _ _)
  | forEach fn =>
      refine ⟨?_, ?_⟩
      · intro bucket hbucket
        obtain ⟨old, hold, rfl⟩ := List.mem_map.mp hbucket
        exact forEach_sound fn (hsound.buckets old hold)
      · unfold Map.forEach
        rw [List.length_map]
        exact hsound.flag_lt
  | reserve hreserve => exact (hsound.reserve hreserve).1
  | clear => exact hsound.clear

theorem sound_of_reachable {Thread : Type} [DecidableEq Thread] {state : State Thread K V}
    (hcapacity : 1 ≤ params.initialCapacity)
    (hreach : (operations params hash).Reachable state) : state.map.Sound := by
  apply map_invariant Map.Sound _ (fun _ _ hsound => hsound.step) hreach
  have hplaced := placed_empty (K := K) (V := V) hash
    (Nat.mod_lt (wordRange - 1) hcapacity)
  exact ⟨hplaced.sound, hplaced.flag_lt⟩

end Maps

/-! ### An empty map -/

/-- What is expected of a map after `clear`. An `insert` consists of `reserve(_count)` and
its section. -/
structure Map.Emptied [BEq K] [Inhabited K] [Inhabited V] (params : Params) (hash : K → UInt64)
    (map : Map K V) : Prop where
  lookups : ∀ key, ∃ value, map.at hash key = some (false, value)
  visits : ∀ fn, (map.forEach fn).2 = []
  size : map.count = 0
  inserts : ∀ key value, ∃ reserved after old,
    map.reserve hash params map.count = some reserved ∧
      reserved.insert hash key value = some (after, true, old)

section Emptied

variable {params : Params} {hash : K → UInt64} {map : Map K V}

theorem Bucket.Sound.vacant {bucket : Bucket K V} (hsound : bucket.Sound)
    (hentries : bucket.entries = []) :
    bucket.arr.state = .unassigned ∧ bucket.overflow = [] := by
  have harr : bucket.arr.state = .unassigned := by
    by_contra hassigned
    have hvalid := hsound.valid_of_assigned hassigned
    simp [Bucket.entries, hvalid] at hentries
  exact ⟨harr, hsound.packed harr⟩

theorem Map.Sound.vacant (hsound : map.Sound) (hempty : map.bindings = []) (hash : K → UInt64)
    (key : K) :
    ∃ bucket, map.buckets[bucketIndex hash map.bucketFlag key]? = some bucket ∧
      bucket.arr.state = .unassigned ∧ bucket.overflow = [] := by
  have hlt : bucketIndex hash map.bucketFlag key < map.buckets.length :=
    Nat.lt_of_le_of_lt Nat.and_le_right hsound.flag_lt
  have hmem := List.getElem_mem hlt
  have hentries := List.flatMap_eq_nil_iff.mp hempty _ hmem
  exact ⟨_, List.getElem?_eq_getElem hlt, (hsound.buckets _ hmem).vacant hentries⟩

theorem Map.Sound.clear_bindings_eq_nil_iff (hsound : map.Sound) :
    map.clear.bindings = [] ↔ ∀ bucket ∈ map.buckets, bucket.overflow = [] := by
  unfold Map.bindings bindingsOf Map.clear
  rw [List.flatMap_map, List.flatMap_eq_nil_iff]
  constructor
  · intro hall bucket hbucket
    exact (clear_entries_eq_nil_iff (hsound.buckets bucket hbucket)).mp (hall bucket hbucket)
  · intro hall bucket hbucket
    exact (clear_entries_eq_nil_iff (hsound.buckets bucket hbucket)).mpr (hall bucket hbucket)

section Keys

variable [BEq K] [Inhabited V]

theorem Map.Sound.at_of_empty (hsound : map.Sound) (hempty : map.bindings = []) (key : K) :
    map.at hash key = some (false, default) := by
  obtain ⟨bucket, hbucket, harr, hoverflow⟩ := hsound.vacant hempty hash key
  simp [Map.at, hbucket, Bucket.at, KeyValueElement.isValidAndEqual, harr, hoverflow]

theorem Map.Sound.insert_of_empty (hsound : map.Sound) (hempty : map.bindings = [])
    (hash : K → UInt64) (key : K) (value : V) :
    ∃ after, map.insert hash key value = some (after, true, default) := by
  obtain ⟨bucket, hbucket, harr, _⟩ := hsound.vacant hempty hash key
  have hinsert : bucket.insert key value =
      ({ bucket with arr := ⟨.valid, key, value⟩ }, true, default) := if_pos harr
  simp only [Map.insert, hbucket, Option.bind_eq_bind, Option.bind_some, hinsert]
  exact ⟨_, rfl⟩

end Keys

variable [Inhabited K] [Inhabited V]

theorem reserve_zero_returns_iff (hsound : map.Sound) :
    (∃ after, map.reserve hash params 0 = some after) ↔
      0 < map.upperBound ∨ wrap (map.buckets.length * 2) ≠ 0 := by
  have hgrow : growSize params.loadFactor 0 65 (wrap (map.buckets.length * 2)) =
      some (wrap (map.buckets.length * 2)) := by
    rw [growSize, if_neg (Nat.not_lt_zero _)]
  constructor
  · rintro ⟨after, hreserve⟩
    rcases reserve_cases hsound hreserve with ⟨hbound, _⟩ | ⟨newSize, hpos, hsize, _⟩
    · exact .inl hbound
    · rw [hgrow] at hsize
      cases hsize
      exact .inr (Nat.ne_of_gt hpos)
  · intro hpossible
    by_cases hbound : 0 < map.upperBound
    · exact ⟨map, if_pos hbound⟩
    · have hsize := hpossible.resolve_left hbound
      obtain ⟨buckets, hresize, _⟩ :=
        resize_gains hash params hsound.buckets (Nat.pos_of_ne_zero hsize)
      rw [Map.reserve, if_neg hbound, hgrow]
      exact ⟨_, hresize⟩

end Emptied

/-- `clear` empties a reachable map exactly when `_count` is already zero and no bucket has
an element in its vector; the third condition is that a `reserve(0)` of this size
returns. -/
theorem clear_empties_iff (Thread : Type) [DecidableEq Thread] [BEq K] [Inhabited K]
    [Inhabited V] (params : Params) (hash : K → UInt64)
    (hcapacity : 1 ≤ params.initialCapacity) (state : State Thread K V)
    (hreach : (operations params hash).Reachable state) :
    state.map.clear.Emptied params hash ↔
      state.map.count = 0 ∧ (∀ bucket ∈ state.map.buckets, bucket.overflow = []) ∧
        (0 < state.map.upperBound ∨ wrap (state.map.buckets.length * 2) ≠ 0) := by
  have hsound := sound_of_reachable hcapacity hreach
  have hlength : state.map.clear.buckets.length = state.map.buckets.length := List.length_map _
  have hreserve : (∃ after, state.map.clear.reserve hash params 0 = some after) ↔
      0 < state.map.upperBound ∨ wrap (state.map.buckets.length * 2) ≠ 0 := by
    rw [reserve_zero_returns_iff hsound.clear, hlength]
    rfl
  rw [← hsound.clear_bindings_eq_nil_iff, ← hreserve]
  constructor
  · intro hemptied
    have hcount : state.map.clear.count = 0 := hemptied.size
    obtain ⟨reserved, _, _, hreturns, _⟩ := hemptied.inserts default default
    rw [hcount] at hreturns
    refine ⟨hcount, ?_, reserved, hreturns⟩
    rw [← Map.forEach_visited fun _ value => value]
    exact hemptied.visits _
  · rintro ⟨hcount, hempty, reserved, hreturns⟩
    obtain ⟨hreserved, hperm⟩ := hsound.clear.reserve hreturns
    rw [hempty] at hperm
    refine ⟨?_, ?_, hcount, ?_⟩
    · intro key
      exact ⟨default, hsound.clear.at_of_empty hempty key⟩
    · intro fn
      rw [Map.forEach_visited, hempty]
    · intro key value
      obtain ⟨after, hinsert⟩ := hreserved.insert_of_empty hperm.eq_nil hash key value
      refine ⟨reserved, after, default, ?_, hinsert⟩
      rw [show state.map.clear.count = 0 from hcount]
      exact hreturns

/-- A key is inserted and erased, and the map is cleared afterwards. -/
theorem cleared_after_erase :
    ∃ state : State Unit Nat Nat,
      (operations defaultParams fun _ => 0).Reachable state ∧ state.log.length = 2 ∧
        state.map.clear.Emptied defaultParams fun _ => 0 := by
  obtain ⟨state, hreach, htest⟩ := (operations defaultParams fun _ => 0).exists_reachable_of_replay
    (⟨construct defaultParams, fun _ => .idle, []⟩ : State Unit Nat Nat)
    [.step (.insert () 1 10), .step (.step ()), .step (.step ()), .step (.erase () 1)]
    (fun state => decide (state.log.length = 2 ∧ state.map.count = 0 ∧
      (∀ bucket ∈ state.map.buckets, bucket.overflow = []) ∧ 0 < state.map.upperBound))
    rfl (by decide +kernel)
  obtain ⟨hlog, hcount, hoverflow, hupper⟩ := of_decide_eq_true htest
  exact ⟨state, hreach, hlog, (clear_empties_iff Unit defaultParams _ (by decide) state hreach).mpr
    ⟨hcount, hoverflow, .inl hupper⟩⟩

/-- Two keys with one hash are inserted. After `clear` the second key is still found, the
size is 2, and inserting the key again reports an old entry. -/
theorem clear_keeps_colliding_key :
    ∃ state : State Unit Nat Nat,
      (operations defaultParams fun _ => 0).Reachable state ∧
        state.map.clear.at (fun _ => 0) 2 = some (true, 20) ∧
        (state.map.clear.forEach fun _ value => value).2 = [(2, 20)] ∧
        state.map.clear.count = 2 ∧
        ((state.map.clear.reserve (fun _ => 0) defaultParams 2).bind fun reserved =>
          (reserved.insert (fun _ => 0) 2 30).map Prod.snd) = some (false, 20) := by
  obtain ⟨state, hreach, htest⟩ := (operations defaultParams fun _ => 0).exists_reachable_of_replay
    (⟨construct defaultParams, fun _ => .idle, []⟩ : State Unit Nat Nat)
    [.step (.insert () 1 10), .step (.step ()), .step (.step ()),
      .step (.insert () 2 20), .step (.step ()), .step (.step ())]
    (fun state => decide (state.map.clear.at (fun _ => 0) 2 = some (true, 20) ∧
      (state.map.clear.forEach fun _ value => value).2 = [(2, 20)] ∧ state.map.clear.count = 2 ∧
      ((state.map.clear.reserve (fun _ => 0) defaultParams 2).bind fun reserved =>
        (reserved.insert (fun _ => 0) 2 30).map Prod.snd) = some (false, 20)))
    rfl (by decide +kernel)
  exact ⟨state, hreach, of_decide_eq_true htest⟩

end Crossbow.Concurrent.ConcurrentMap
