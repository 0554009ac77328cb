import Crossbow.Concurrent.ConcurrentMap
import Mathlib.Data.Nat.Prime.Basic
import Mathlib.Data.Nat.Bitwise
import Mathlib.Tactic.Ring

/-! Which stripe guards which bucket. `getBucket` masks a hash with the remainder of
the largest word by the number of buckets, `getMutex` takes it modulo the number of
stripes. The map is run with all its operations, `clear` included. -/
namespace Crossbow.Concurrent.ConcurrentMap
open Kernel

variable {K V : Type}

/-- The loop of `Bucket::clear` over the vector. Erasing moves the following element
to the iterator, which is then advanced past it. -/
def clearOverflow : List (KeyValueElement K V) → List (KeyValueElement K V)
  | [] => []
  | [el] => if el.state = .valid then [] else [el]
  | el :: following :: rest =>
      if el.state = .valid then following :: clearOverflow rest
      else el :: clearOverflow (following :: rest)

def Bucket.clear (bucket : Bucket K V) : Bucket K V :=
  let first := if bucket.arr.state = .valid then bucket.eraseArr else bucket
  { first with overflow := clearOverflow first.overflow }

/-- `_count` keeps its value. -/
def Map.clear (map : Map K V) : Map K V := { map with buckets := map.buckets.map Bucket.clear }

def Map.getBucket (map : Map K V) (hash : UInt64) : Nat := hash.toNat &&& map.bucketFlag

def getMutex (params : Params) (hash : UInt64) : Nat := hash.toNat % params.concurrencyLevel

def Map.OneLockEach (params : Params) (map : Map K V) : Prop :=
  ∀ left right : UInt64, map.getBucket left = map.getBucket right →
    getMutex params left = getMutex params right

inductive Operation (Thread K V : Type) where
  | step (label : Label Thread K V)
  | clear (thread : Thread)

section Machine

variable {Thread : Type} [DecidableEq Thread] [BEq K] [Inhabited K] [Inhabited V]

def nextOperation (params : Params) (hash : K → UInt64) (state : State Thread K V) :
    Operation Thread K V → Option (State Thread K V)
  | .step label => next params hash state label
  | .clear thread =>
      match state.pc thread with
      | .idle => some { state with map := state.map.clear }
      | _ => none

def operations (params : Params) (hash : K → UInt64) :
    Machine (State Thread K V) (Operation Thread K V) where
  initial := (machine params hash).initial
  next := nextOperation params hash

inductive MapStep (params : Params) (hash : K → UInt64) (map : Map K V) : Map K V → Prop where
  | same : MapStep params hash map map
  | insert {after : Map K V} {key : K} {value : V} {ret : Bool × V} :
      map.insert hash key value = some (after, ret) → MapStep params hash map after
  | erase {after : Map K V} {key : K} {ret : Bool × V} :
      map.erase hash key = some (after, ret) → MapStep params hash map after
  | execOn {after : Map K V} {key : K} {fn : V → V × Bool} :
      map.execOn hash key fn = some after → MapStep params hash map after
  | forEach (fn : K → V → V) : MapStep params hash map (map.forEach fn).1
  | reserve {after : Map K V} {count : Nat} :
      map.reserve hash params count = some after → MapStep params hash map after
  | clear : MapStep params hash map map.clear

variable {params : Params} {hash : K → UInt64} {state after : State Thread K V}

theorem mapStep_of_advance {thread : Thread}
    (hadvance : advance params hash state thread = some after) :
    MapStep params hash state.map after.map := by
  unfold advance at hadvance
  split at hadvance
  case h_1 => contradiction
  case h_2 | h_4 =>
    obtain ⟨map, hreserve, hresult⟩ := Option.bind_eq_some_iff.mp hadvance
    cases hresult
    exact .reserve hreserve
  case h_3 =>
    obtain ⟨⟨map, ret⟩, hinsert, hresult⟩ := Option.bind_eq_some_iff.mp hadvance
    cases hresult
    exact .insert hinsert
  case h_5 =>
    obtain ⟨map, hexec, hresult⟩ := Option.bind_eq_some_iff.mp hadvance
    cases hresult
    exact .execOn hexec

theorem mapStep_of_call {label : Label Thread K V}
    (hcall : call params hash state label = some after) :
    MapStep params hash state.map after.map := by
  cases label with
  | insert | execOn =>
      cases hcall
      exact .same
  | erase thread key =>
      obtain ⟨⟨map, ret⟩, herase, hresult⟩ := Option.bind_eq_some_iff.mp hcall
      cases hresult
      exact .erase herase
  | «at» thread key =>
      obtain ⟨ret, hat, hresult⟩ := Option.bind_eq_some_iff.mp hcall
      cases hresult
      exact .same
  | forEach thread fn =>
      cases hcall
      exact .forEach fn
  | reserve thread count =>
      obtain ⟨map, hreserve, hresult⟩ := Option.bind_eq_some_iff.mp hcall
      cases hresult
      exact .reserve hreserve
  | step => contradiction

theorem mapStep_of_next {operation : Operation Thread K V}
    (hnext : nextOperation params hash state operation = some after) :
    MapStep params hash state.map after.map := by
  cases operation with
  | clear thread =>
      rw [nextOperation] at hnext
      split at hnext
      · cases hnext
        exact .clear
      · contradiction
  | step label =>
      replace hnext : next params hash state label = some after := hnext
      unfold next at hnext
      split at hnext
      · exact mapStep_of_advance hnext
      · split at hnext
        · exact mapStep_of_call hnext
        · contradiction

theorem map_invariant (invariant : Map K V → Prop) (hconstruct : invariant (construct params))
    (hstep : ∀ map after, invariant map → MapStep params hash map after → invariant after)
    (hreach : (operations params hash).Reachable state) : invariant state.map := by
  apply hreach.invariant fun state => invariant state.map
  · rintro initial ⟨⟩
    exact hconstruct
  · intro before operation after hbefore _ hnext
    exact hstep _ _ hbefore (mapStep_of_next hnext)

end Machine

section Masks

def LowBitsSet (exponent mask : Nat) : Prop := mask % 2 ^ exponent = 2 ^ exponent - 1

variable {mask : Nat}

theorem lowBitsSet_iff_dvd {exponent : Nat} :
    LowBitsSet exponent mask ↔ 2 ^ exponent ∣ mask + 1 := by
  have hpos := Nat.two_pow_pos exponent
  have hmod : mask % 2 ^ exponent < 2 ^ exponent := Nat.mod_lt _ hpos
  unfold LowBitsSet
  rw [Nat.dvd_iff_mod_eq_zero, Nat.add_mod_eq_ite]
  by_cases hone : exponent = 0
  · subst hone
    simp [Nat.mod_one]
  · have htwo : 1 < 2 ^ exponent := Nat.one_lt_two_pow hone
    rw [Nat.mod_eq_of_lt htwo]
    split <;> omega

theorem and_mod_of_lowBitsSet {exponent : Nat} (hmask : LowBitsSet exponent mask)
    (value : Nat) : (value &&& mask) % 2 ^ exponent = value % 2 ^ exponent := by
  rw [Nat.and_mod_two_pow, hmask, Nat.and_two_pow_sub_one_eq_mod, Nat.mod_mod]

theorem exists_lowest_clear_bit (hmask : mask < wordRange - 1) :
    ∃ bit, bit < 64 ∧ mask.testBit bit = false ∧ LowBitsSet bit mask := by
  have hclear : ∃ bit, bit < 64 ∧ mask.testBit bit = false := by
    by_contra hnone
    push Not at hnone
    have hfull : mask = wordRange - 1 := by
      apply Nat.eq_of_testBit_eq
      intro bit
      rw [show wordRange - 1 = 2 ^ 64 - 1 from rfl, Nat.testBit_two_pow_sub_one]
      by_cases hbit : bit < 64
      · simpa [hbit] using hnone bit hbit
      · have hlarge : mask < 2 ^ bit :=
          Nat.lt_of_lt_of_le (show mask < 2 ^ 64 by unfold wordRange at hmask; omega)
            (Nat.pow_le_pow_right (by decide) (by omega))
        simpa [hbit] using Nat.testBit_lt_two_pow hlarge
    omega
  refine ⟨Nat.find hclear, (Nat.find_spec hclear).1, (Nat.find_spec hclear).2, ?_⟩
  apply Nat.eq_of_testBit_eq
  intro bit
  rw [Nat.testBit_mod_two_pow, Nat.testBit_two_pow_sub_one]
  by_cases hlow : bit < Nat.find hclear
  · have hset := Nat.find_min hclear hlow
    have hbit : bit < 64 := Nat.lt_trans hlow (Nat.find_spec hclear).1
    simpa [hlow, hbit] using hset
  · simp [hlow]

theorem mask_decides_mod_iff {modulus : Nat} (hmask : mask < wordRange - 1) :
    (∀ left right : UInt64, left.toNat &&& mask = right.toNat &&& mask →
      left.toNat % modulus = right.toNat % modulus) ↔
      ∃ exponent, modulus = 2 ^ exponent ∧ LowBitsSet exponent mask := by
  constructor
  · intro hdecides
    obtain ⟨bit, hbit, hclear, hlow⟩ := exists_lowest_clear_bit hmask
    have hword : (UInt64.ofNat (2 ^ bit)).toNat = 2 ^ bit :=
      UInt64.toNat_ofNat_of_lt' (Nat.pow_lt_pow_right (by decide) hbit)
    have hdvd : modulus ∣ 2 ^ bit := by
      have hmod := hdecides (UInt64.ofNat (2 ^ bit)) 0 (by
        rw [hword, Nat.two_pow_and, hclear]
        simp)
      rw [hword] at hmod
      exact Nat.dvd_of_mod_eq_zero (by simpa using hmod)
    obtain ⟨exponent, hle, rfl⟩ := (Nat.dvd_prime_pow Nat.prime_two).mp hdvd
    refine ⟨exponent, rfl, ?_⟩
    rw [lowBitsSet_iff_dvd] at hlow ⊢
    exact hdvd.trans hlow
  · rintro ⟨exponent, rfl, hlow⟩ left right heq
    rw [← and_mod_of_lowBitsSet hlow left.toNat, ← and_mod_of_lowBitsSet hlow right.toNat, heq]

end Masks

section Sizes

/-- A number of buckets for which `bucket_flag` keeps the low bits. -/
def KeepsLowBits (exponent size : Nat) : Prop := LowBitsSet exponent ((wordRange - 1) % size)

variable {size exponent : Nat}

theorem keepsLowBits_iff (hexponent : exponent ≤ 64) :
    KeepsLowBits exponent size ↔ 2 ^ exponent ∣ (wordRange - 1) / size * size := by
  have hword : 2 ^ exponent ∣ wordRange := Nat.pow_dvd_pow 2 hexponent
  have hpos := wordRange_pos
  have hdiv := Nat.div_add_mod' (wordRange - 1) size
  unfold KeepsLowBits
  rw [lowBitsSet_iff_dvd]
  generalize hquotient : (wordRange - 1) / size * size = multiple at hdiv ⊢
  generalize (wordRange - 1) % size = rest at hdiv ⊢
  have hsplit : multiple + (rest + 1) = wordRange := by omega
  constructor
  · intro hdvd
    rw [← hsplit] at hword
    exact (Nat.dvd_add_iff_left hdvd).mpr hword
  · intro hdvd
    rw [← hsplit] at hword
    exact (Nat.dvd_add_iff_right hdvd).mpr hword

theorem keepsLowBits_le (hkeeps : KeepsLowBits exponent size) :
    exponent ≤ 64 := by
  unfold KeepsLowBits at hkeeps
  rw [lowBitsSet_iff_dvd] at hkeeps
  have hle := Nat.le_of_dvd (Nat.succ_pos _) hkeeps
  have hmod := Nat.mod_le (wordRange - 1) size
  have hpow : 2 ^ exponent ≤ 2 ^ 64 := by
    unfold wordRange at hle hmod
    omega
  exact (Nat.pow_le_pow_iff_right (by decide)).mp hpow

theorem keepsLowBits_of_dvd (hexponent : exponent ≤ 64)
    (hdvd : 2 ^ exponent ∣ size) : KeepsLowBits exponent size :=
  (keepsLowBits_iff hexponent).mpr (hdvd.mul_left _)

/-- Without overflow a doubling halves the quotient. If the quotient was odd, the size
itself is a multiple of the power of two. -/
theorem keepsLowBits_double (hkeeps : KeepsLowBits exponent size) :
    KeepsLowBits exponent (size * 2) := by
  have hexponent := keepsLowBits_le hkeeps
  have hdvd := (keepsLowBits_iff hexponent).mp hkeeps
  rcases Nat.even_or_odd ((wordRange - 1) / size) with heven | hodd
  · rw [keepsLowBits_iff hexponent, ← Nat.div_div_eq_div_mul]
    obtain ⟨half, hhalf⟩ := heven
    rw [show (wordRange - 1) / size / 2 * (size * 2) = (wordRange - 1) / size * size by
      rw [hhalf, show (half + half) / 2 = half by omega]
      ring]
    exact hdvd
  · have hcoprime : Nat.Coprime (2 ^ exponent) ((wordRange - 1) / size) :=
      Nat.Coprime.pow_left exponent (Nat.coprime_two_left.mpr hodd)
    exact keepsLowBits_of_dvd hexponent ((hcoprime.dvd_of_dvd_mul_left hdvd).mul_right 2)

theorem keepsLowBits_wrap_double (hkeeps : KeepsLowBits exponent size)
    (hsize : size < wordRange) : KeepsLowBits exponent (wrap (size * 2)) := by
  have hexponent := keepsLowBits_le hkeeps
  by_cases hfits : size * 2 < wordRange
  · rw [wrap_of_lt hfits]
    exact keepsLowBits_double hkeeps
  · have honce : (wordRange - 1) / size = 1 :=
      Nat.div_eq_of_lt_le (by omega) (by omega)
    have hdvd := (keepsLowBits_iff hexponent).mp hkeeps
    rw [honce, Nat.one_mul] at hdvd
    apply keepsLowBits_of_dvd hexponent
    unfold wrap
    exact (Nat.dvd_mod_iff (Nat.pow_dvd_pow 2 hexponent)).mpr (hdvd.mul_right 2)

theorem growSize_invariant {good : Nat → Prop}
    (hdouble : ∀ size, good size → good (wrap (size * 2))) {loadFactor count fuel final : Nat}
    (hsize : good size) (hgrow : growSize loadFactor count fuel size = some final) :
    good final := by
  induction fuel generalizing size with
  | zero => contradiction
  | succ fuel ih =>
      rw [growSize] at hgrow
      split at hgrow
      · exact ih (hdouble size hsize) hgrow
      · cases hgrow
        exact hsize

end Sizes

section Steps

variable [BEq K] [Inhabited K] [Inhabited V]

/-- The parts of a map that `getBucket` reads: they agree after a section. -/
def Map.SameShape (map after : Map K V) : Prop :=
  after.buckets.length = map.buckets.length ∧ after.bucketFlag = map.bucketFlag

variable {hash : K → UInt64} {map after : Map K V} {good : Nat → Prop} {params : Params}

omit [Inhabited K] in
theorem insert_shape {key : K} {value : V} {ret : Bool × V}
    (hinsert : map.insert hash key value = some (after, ret)) :
    map.SameShape after := by
  obtain ⟨bucket, hbucket, hresult⟩ := Option.bind_eq_some_iff.mp hinsert
  cases hresult
  exact ⟨List.length_set, rfl⟩

omit [Inhabited K] in
theorem erase_shape {key : K} {ret : Bool × V} (herase : map.erase hash key = some (after, ret)) :
    map.SameShape after := by
  obtain ⟨bucket, hbucket, hresult⟩ := Option.bind_eq_some_iff.mp herase
  cases hresult
  exact ⟨List.length_set, rfl⟩

omit [Inhabited K] in
theorem execOn_shape {key : K} {fn : V → V × Bool}
    (hexec : map.execOn hash key fn = some after) : map.SameShape after := by
  obtain ⟨bucket, hbucket, hresult⟩ := Option.bind_eq_some_iff.mp hexec
  cases hresult
  exact ⟨List.length_set, rfl⟩

omit [BEq K] [Inhabited K] [Inhabited V] in
theorem forEach_shape (fn : K → V → V) (map : Map K V) : map.SameShape (map.forEach fn).1 :=
  ⟨List.length_map _, rfl⟩

omit [BEq K] [Inhabited K] [Inhabited V] in
theorem clear_shape (map : Map K V) : map.SameShape map.clear := ⟨List.length_map _, rfl⟩

/-- `bucket_flag` belongs to the number of buckets, which satisfies `good`. -/
structure Map.Shaped (good : Nat → Prop) (map : Map K V) : Prop where
  size_pos : 0 < map.buckets.length
  size_good : good map.buckets.length
  flag : map.bucketFlag = (wordRange - 1) % map.buckets.length

omit [BEq K] [Inhabited K] [Inhabited V] in
theorem Map.Shaped.same (hshaped : map.Shaped good)
    (hsame : map.SameShape after) : after.Shaped good where
  size_pos := by
    rw [hsame.1]
    exact hshaped.size_pos
  size_good := by
    rw [hsame.1]
    exact hshaped.size_good
  flag := by
    rw [hsame.1, hsame.2]
    exact hshaped.flag

omit [BEq K] [Inhabited K] [Inhabited V] in
theorem foldlM_length {El : Type} {step : List (Bucket K V) → El → Option (List (Bucket K V))}
    (hstep : ∀ buckets el after, step buckets el = some after → after.length = buckets.length)
    {elements : List El} {buckets after : List (Bucket K V)}
    (hfold : elements.foldlM step buckets = some after) : after.length = buckets.length := by
  induction elements generalizing buckets with
  | nil =>
      cases hfold
      rfl
  | cons el rest ih =>
      obtain ⟨middle, hmiddle, hrest⟩ := Option.bind_eq_some_iff.mp hfold
      exact (ih hrest).trans (hstep buckets el middle hmiddle)

omit [BEq K] [Inhabited K] [Inhabited V] in
theorem placeElement_length {flag : Nat} (buckets : List (Bucket K V)) (el : KeyValueElement K V)
    (after : List (Bucket K V)) (hplace : placeElement hash flag buckets el = some after) :
    after.length = buckets.length := by
  obtain ⟨bucket, hbucket, hresult⟩ := Option.bind_eq_some_iff.mp hplace
  cases hresult
  exact List.length_set

omit [BEq K] [Inhabited K] [Inhabited V] in
theorem moveBucket_length {flag : Nat} (buckets : List (Bucket K V)) (old : Bucket K V)
    (after : List (Bucket K V)) (hmove : moveBucket hash flag buckets old = some after) :
    after.length = buckets.length := by
  unfold moveBucket at hmove
  split at hmove
  · cases hmove
    rfl
  · exact foldlM_length placeElement_length hmove

omit [BEq K] in
theorem resize_shaped {newSize : Nat} (hgood : good newSize)
    (hresize : map.resize hash params newSize = some after) : after.Shaped good := by
  unfold Map.resize at hresize
  split at hresize
  · contradiction
  · rename_i hpos
    obtain ⟨buckets, hbuckets, hresult⟩ := Option.bind_eq_some_iff.mp hresize
    have hlength : buckets.length = newSize := by
      rw [foldlM_length moveBucket_length hbuckets, List.length_replicate]
    cases hresult
    subst hlength
    exact ⟨Nat.pos_of_ne_zero hpos, hgood, rfl⟩

omit [BEq K] in
theorem Map.Shaped.reserve (hdouble : ∀ size, good size → good (wrap (size * 2)))
    (hshaped : map.Shaped good) {count : Nat}
    (hreserve : map.reserve hash params count = some after) : after.Shaped good := by
  unfold Map.reserve at hreserve
  split at hreserve
  · cases hreserve
    exact hshaped
  · obtain ⟨newSize, hgrow, hresize⟩ := Option.bind_eq_some_iff.mp hreserve
    exact resize_shaped
      (growSize_invariant hdouble (hdouble _ hshaped.size_good) hgrow) hresize

theorem Map.Shaped.step (hdouble : ∀ size, good size → good (wrap (size * 2)))
    (hshaped : map.Shaped good) (hstep : MapStep params hash map after) :
    after.Shaped good := by
  cases hstep with
  | same => exact hshaped
  | insert hinsert => exact hshaped.same (insert_shape hinsert)
  | erase herase => exact hshaped.same (erase_shape herase)
  | execOn hexec => exact hshaped.same (execOn_shape hexec)
  | forEach fn => exact hshaped.same (forEach_shape fn map)
  | reserve hreserve => exact hshaped.reserve hdouble hreserve
  | clear => exact hshaped.same (clear_shape map)

theorem shaped_of_reachable {Thread : Type} [DecidableEq Thread] {state : State Thread K V}
    (good : Nat → Prop) (hdouble : ∀ size, good size → good (wrap (size * 2)))
    (hcapacity : 1 ≤ params.initialCapacity) (hgood : good params.initialCapacity)
    (hreach : (operations params hash).Reachable state) : state.map.Shaped good := by
  apply map_invariant (Map.Shaped good) _ (fun _ _ hshaped => hshaped.step hdouble) hreach
  have hlength : (construct params : Map K V).buckets.length = params.initialCapacity :=
    List.length_replicate
  refine ⟨?_, ?_, ?_⟩
  · rw [hlength]
    exact hcapacity
  · rw [hlength]
    exact hgood
  · rw [hlength]
    rfl

end Steps

section Locks

theorem oneLockEach_iff (params : Params) {map : Map K V} {good : Nat → Prop}
    (hshaped : map.Shaped good) (hsize : map.buckets.length < wordRange) :
    map.OneLockEach params ↔
      ∃ exponent, params.concurrencyLevel = 2 ^ exponent ∧
        KeepsLowBits exponent map.buckets.length := by
  have hflag : map.bucketFlag < wordRange - 1 := by
    have hmod := Nat.mod_lt (wordRange - 1) hshaped.size_pos
    rw [← hshaped.flag] at hmod
    omega
  unfold KeepsLowBits
  rw [← hshaped.flag]
  exact mask_decides_mod_iff hflag

/-- Every bucket keeps to one mutex in every run exactly when the number of stripes is
a power of two and the first `bucket_flag` keeps the bits that select the stripe. -/
theorem one_lock_each_bucket_iff (Thread : Type) [DecidableEq Thread] [BEq K] [Inhabited K]
    [Inhabited V] (params : Params)
    (hash : K → UInt64)
    (hcapacity : 1 ≤ params.initialCapacity) (hrange : params.initialCapacity < wordRange) :
    (∀ state : State Thread K V, (operations params hash).Reachable state →
        state.map.OneLockEach params) ↔
      ∃ exponent, params.concurrencyLevel = 2 ^ exponent ∧
        (wordRange - 1) % params.initialCapacity % 2 ^ exponent = 2 ^ exponent - 1 := by
  constructor
  · intro hall
    have hstart : (operations params hash).Reachable
        (⟨construct params, fun _ => .idle, []⟩ : State Thread K V) := ⟨_, rfl, .refl⟩
    have hshaped : (construct params : Map K V).Shaped fun _ => True :=
      shaped_of_reachable _ (fun _ _ => trivial) hcapacity trivial hstart
    have hiff := (oneLockEach_iff params hshaped
      (by simpa [construct] using hrange)).mp (hall _ hstart)
    simpa [construct, KeepsLowBits, LowBitsSet] using hiff
  · rintro ⟨exponent, hpower, hlow⟩ state hreach
    have hshaped := shaped_of_reachable
      (fun size => size < wordRange ∧ KeepsLowBits exponent size)
      (fun size hsize => ⟨wrap_lt _, keepsLowBits_wrap_double hsize.2 hsize.1⟩)
      hcapacity ⟨hrange, hlow⟩ hreach
    exact (oneLockEach_iff params hshaped hshaped.size_good.1).mpr
      ⟨exponent, hpower, hshaped.size_good.2⟩

theorem default_map_one_lock_each_bucket :
    defaultParams.initialCapacity < wordRange ∧
      ∀ state : State Nat Nat Nat,
        (operations defaultParams fun key => UInt64.ofNat key).Reachable state →
          state.map.OneLockEach defaultParams :=
  ⟨by decide, (one_lock_each_bucket_iff Nat defaultParams (fun key => UInt64.ofNat key)
    (by decide) (by decide)).mpr ⟨5, rfl, by decide⟩⟩

/-- With 64 stripes over 32 buckets the hashes 0 and 32 share a bucket, not a mutex. -/
theorem bucket_under_two_locks :
    ∃ state : State Nat Nat Nat,
      (operations ⟨64, 32, 75⟩ fun key => UInt64.ofNat key).Reachable state ∧
        state.map.getBucket 0 = state.map.getBucket 32 ∧
        getMutex ⟨64, 32, 75⟩ 0 ≠ getMutex ⟨64, 32, 75⟩ 32 :=
  ⟨⟨construct ⟨64, 32, 75⟩, fun _ => .idle, []⟩, ⟨_, rfl, .refl⟩, by decide, by decide⟩

end Locks

end Crossbow.Concurrent.ConcurrentMap
