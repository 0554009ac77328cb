import Crossbow.Concurrent.MapInvariant

/-! The map refines a finite table. The abstract table is what the logged sections
make of the empty one, and every logged return value is the abstract one. No section is
ever stuck. -/
namespace Crossbow.Concurrent.ConcurrentMap
open Kernel Kernel.Assoc

variable {Thread K V : Type} [BEq K] [Inhabited V]

def Event.apply (table : Table K V) : Event K V → Table K V
  | .insert key value _ => table.set key (insertAt key value (table key)).1
  | .erase key _ => table.set key (eraseAt (table key)).1
  | .at _ _ => table
  | .execOn key fn => table.set key (execAt key fn (table key))
  | .forEach fn _ => fun key => (table key).map fun entry => (entry.1, fn entry.1 entry.2)

/-- The section returned what the table returns; `for_each` visited every binding
of the table exactly once. -/
def Event.Answers (table : Table K V) : Event K V → Prop
  | .insert key value ret => ret = (insertAt key value (table key)).2
  | .erase key ret => ret = (eraseAt (table key)).2
  | .at key ret => ret = lookupAt (table key)
  | .execOn _ _ => True
  | .forEach _ visited => Represents visited table

def abstractMap (log : List (Event K V)) : Table K V :=
  log.foldl Event.apply fun _ => none

theorem abstractMap_append (log : List (Event K V)) (event : Event K V) :
    abstractMap (log ++ [event]) = event.apply (abstractMap log) := by
  unfold abstractMap
  rw [List.foldl_append]
  rfl

def Answered (log : List (Event K V)) : Prop :=
  ∀ (index : Nat) (event : Event K V), log[index]? = some event →
    event.Answers (abstractMap (log.take index))

theorem Answered.append {log : List (Event K V)} (hlog : Answered log) {event : Event K V}
    (hevent : event.Answers (abstractMap log)) : Answered (log ++ [event]) := by
  intro index other hother
  rcases Nat.lt_trichotomy index log.length with hlt | rfl | hgt
  · rw [List.getElem?_append_left hlt] at hother
    rw [List.take_append_of_le_length (Nat.le_of_lt hlt)]
    exact hlog index other hother
  · rw [List.getElem?_concat_length] at hother
    cases hother
    rw [List.take_left]
    exact hevent
  · have hnone : (log ++ [event])[index]? = none := by
      apply List.getElem?_eq_none
      rw [List.length_append, List.length_singleton]
      exact hgt
    rw [hnone] at hother
    contradiction

def Enabled (state : State Thread K V) : Label Thread K V → Prop
  | .step thread => state.pc thread ≠ .idle
  | label => state.pc label.thread = .idle

def reserved (state : State Thread K V) : Label Thread K V → Option Nat
  | .reserve _ count => some count
  | .step thread =>
      match state.pc thread with
      | .insertReserve _ _ count | .execReserve _ _ count => some count
      | _ => none
  | _ => none

structure Refines (hash : K → UInt64) (state : State Thread K V) : Prop where
  wf : state.map.Wf hash
  bindings : Represents state.map.bindings (abstractMap state.log)
  answered : Answered state.log

section Steps

variable [EquivBEq K] {hash : K → UInt64} {state after : State Thread K V}

omit [EquivBEq K] in
theorem Refines.of_perm [PartialEquivBEq K] (hrefines : Refines hash state)
    (hwf : after.map.Wf hash) (hperm : after.map.bindings.Perm state.map.bindings)
    (hlog : after.log = state.log) : Refines hash after where
  wf := hwf
  bindings := by
    rw [hlog]
    exact hrefines.bindings.of_perm hperm.symm
  answered := by
    rw [hlog]
    exact hrefines.answered

theorem Refines.section (hrefines : Refines hash state) {event : Event K V} {key : K}
    {found put : Option (K × V)} (hwf : after.map.Wf hash)
    (hedit : Edit key found put state.map.bindings after.map.bindings)
    (hlog : after.log = state.log ++ [event])
    (hanswer : abstractMap state.log key = found → event.Answers (abstractMap state.log))
    (happly : abstractMap state.log key = found →
      event.apply (abstractMap state.log) = (abstractMap state.log).set key put) :
    Refines hash after := by
  obtain ⟨hfound, hbindings⟩ := hrefines.bindings.edit hedit
  refine ⟨hwf, ?_, ?_⟩
  · rw [hlog, abstractMap_append, happly hfound]
    exact hbindings
  · rw [hlog]
    exact hrefines.answered.append (hanswer hfound)

omit [EquivBEq K] in
theorem Refines.reserve_defined [Inhabited K] (hrefines : Refines hash state) {count : Nat}
    (hcount : count ≤ 2 ^ 55) : ∃ map, state.map.reserve hash defaultParams count = some map :=
  reserve_of_growable hrefines.wf.placed.sound (hrefines.wf.growable hcount)

variable [DecidableEq Thread] [Inhabited K]
  (hconsistent : ∀ left right : K, (left == right) = true → hash left = hash right)
include hconsistent

theorem Refines.advance (hrefines : Refines hash state) {thread : Thread}
    (hadvance : advance defaultParams hash state thread = some after) : Refines hash after := by
  unfold ConcurrentMap.advance at hadvance
  split at hadvance
  · contradiction
  · obtain ⟨map, hmap, heq⟩ := Option.bind_eq_some_iff.mp hadvance
    cases heq
    obtain ⟨hwf, hperm⟩ := hrefines.wf.reserve hmap
    exact hrefines.of_perm hwf hperm rfl
  · rename_i key value _
    obtain ⟨map, ret, found, hmap, hwf, hedit, hret⟩ :=
      hrefines.wf.insert hconsistent key value
    rw [hmap] at hadvance
    cases hadvance
    apply hrefines.section hwf hedit rfl
    · rintro rfl
      exact hret
    · rintro rfl
      rfl
  · obtain ⟨map, hmap, heq⟩ := Option.bind_eq_some_iff.mp hadvance
    cases heq
    obtain ⟨hwf, hperm⟩ := hrefines.wf.reserve hmap
    exact hrefines.of_perm hwf hperm rfl
  · rename_i key fn _
    obtain ⟨map, found, hmap, hwf, hedit⟩ := hrefines.wf.execOn hconsistent key fn
    rw [hmap] at hadvance
    cases hadvance
    apply hrefines.section hwf hedit rfl
    · intro _
      trivial
    · rintro rfl
      rfl

theorem Refines.call (hrefines : Refines hash state) {label : Label Thread K V}
    (hcall : call defaultParams hash state label = some after) : Refines hash after := by
  cases label with
  | insert thread key value =>
      cases hcall
      exact hrefines.of_perm hrefines.wf (List.Perm.refl _) rfl
  | execOn thread key fn =>
      cases hcall
      exact hrefines.of_perm hrefines.wf (List.Perm.refl _) rfl
  | erase thread key =>
      obtain ⟨map, ret, found, hmap, hwf, hedit, hret⟩ := hrefines.wf.erase hconsistent key
      simp only [ConcurrentMap.call] at hcall
      rw [hmap] at hcall
      cases hcall
      apply hrefines.section hwf hedit rfl
      · rintro rfl
        exact hret
      · rintro rfl
        rfl
  | «at» thread key =>
      obtain ⟨found, hmap, hedit⟩ := hrefines.wf.at hconsistent key
      simp only [ConcurrentMap.call] at hcall
      rw [hmap] at hcall
      cases hcall
      refine ⟨hrefines.wf, ?_, ?_⟩
      · rw [abstractMap_append]
        exact hrefines.bindings
      · apply hrefines.answered.append
        rw [← (hrefines.bindings.edit hedit).1]
        rfl
  | forEach thread fn =>
      cases hcall
      refine ⟨hrefines.wf.forEach fn, ?_, ?_⟩
      · rw [abstractMap_append, Map.forEach_bindings]
        exact hrefines.bindings.mapValues fn
      · apply hrefines.answered.append
        rw [Map.forEach_visited]
        exact hrefines.bindings
  | reserve thread count =>
      obtain ⟨map, hmap, heq⟩ := Option.bind_eq_some_iff.mp hcall
      cases heq
      obtain ⟨hwf, hperm⟩ := hrefines.wf.reserve hmap
      exact hrefines.of_perm hwf hperm rfl
  | step thread => contradiction

theorem Refines.next (hrefines : Refines hash state) {label : Label Thread K V}
    (hnext : next defaultParams hash state label = some after) : Refines hash after := by
  unfold ConcurrentMap.next at hnext
  split at hnext
  · exact hrefines.advance hconsistent hnext
  · split at hnext
    · exact hrefines.call hconsistent hnext
    · contradiction

theorem Refines.advance_defined (hrefines : Refines hash state) {thread : Thread}
    (henabled : state.pc thread ≠ .idle)
    (hcount : ∀ count ∈ reserved state (.step thread), count ≤ 2 ^ 55) :
    ∃ after, ConcurrentMap.advance defaultParams hash state thread = some after := by
  unfold ConcurrentMap.advance
  split
  · contradiction
  · rename_i count hpc
    simp only [reserved, hpc] at hcount
    obtain ⟨map, hmap⟩ := hrefines.reserve_defined (hcount count rfl)
    exact ⟨_, by rw [hmap]; rfl⟩
  · rename_i key value _
    obtain ⟨map, ret, found, hmap, _⟩ := hrefines.wf.insert hconsistent key value
    exact ⟨_, by rw [hmap]; rfl⟩
  · rename_i count hpc
    simp only [reserved, hpc] at hcount
    obtain ⟨map, hmap⟩ := hrefines.reserve_defined (hcount count rfl)
    exact ⟨_, by rw [hmap]; rfl⟩
  · rename_i key fn _
    obtain ⟨map, found, hmap, _⟩ := hrefines.wf.execOn hconsistent key fn
    exact ⟨_, by rw [hmap]; rfl⟩

theorem Refines.next_defined (hrefines : Refines hash state) {label : Label Thread K V}
    (henabled : Enabled state label) (hcount : ∀ count ∈ reserved state label, count ≤ 2 ^ 55) :
    ∃ after, ConcurrentMap.next defaultParams hash state label = some after := by
  cases label with
  | step thread => exact hrefines.advance_defined hconsistent henabled hcount
  | insert thread key value | execOn thread key fn | forEach thread fn =>
      unfold ConcurrentMap.next
      rw [henabled]
      exact ⟨_, rfl⟩
  | erase thread key =>
      obtain ⟨map, ret, found, hmap, _⟩ := hrefines.wf.erase hconsistent key
      unfold ConcurrentMap.next
      simp only [show state.pc (Label.erase thread key).thread = .idle from henabled,
        ConcurrentMap.call, hmap]
      exact ⟨_, rfl⟩
  | «at» thread key =>
      obtain ⟨found, hmap, _⟩ := hrefines.wf.at hconsistent key
      unfold ConcurrentMap.next
      simp only [show state.pc (Label.at thread key).thread = .idle from henabled,
        ConcurrentMap.call, hmap]
      exact ⟨_, rfl⟩
  | reserve thread count =>
      obtain ⟨map, hmap⟩ := hrefines.reserve_defined (hcount count rfl)
      unfold ConcurrentMap.next
      simp only [show state.pc (Label.reserve thread count).thread = .idle from henabled,
        ConcurrentMap.call, hmap]
      exact ⟨_, rfl⟩

end Steps

theorem wf_construct [Inhabited K] (hash : K → UInt64) :
    (construct defaultParams : Map K V).Wf hash where
  size := ⟨5, Nat.le_refl 5, by decide, List.length_replicate⟩
  upper := by
    unfold construct
    rw [List.length_replicate]
  placed := placed_empty hash (Nat.mod_lt _ (by decide))
  distinct := by
    unfold Map.bindings construct
    rw [bindingsOf_empty]
    exact List.Pairwise.nil
  counted := by
    unfold Map.bindings construct
    rw [bindingsOf_empty]
    exact (wrap_of_lt wordRange_pos).symm

/-- In every interleaving the valid bindings are those of the abstract table that the
sections produce in order, every return value is the abstract one, `for_each` visits
every binding once, and `size()` counts the bindings. Whatever a client is about to do it
can do: every section runs, and `reserve` returns for counts up to `2 ^ 55`. -/
theorem refines_table [EquivBEq K] [Inhabited K] [DecidableEq Thread] (hash : K → UInt64)
    (hconsistent : ∀ left right : K, (left == right) = true → hash left = hash right)
    (state : State Thread K V)
    (hreach : (machine defaultParams hash).Reachable state) :
    Represents state.map.bindings (abstractMap state.log) ∧
      (∀ (index : Nat) (event : Event K V), state.log[index]? = some event →
        event.Answers (abstractMap (state.log.take index))) ∧
      state.map.count = wrap state.map.bindings.length ∧
      (state.map.bindings.length < wordRange → state.map.count = state.map.bindings.length) ∧
      ∀ label, Enabled state label → (∀ count ∈ reserved state label, count ≤ 2 ^ 55) →
        ∃ after, (machine defaultParams hash).next state label = some after := by
  have hrefines : Refines hash state := by
    apply hreach.invariant (Refines hash)
    · rintro state rfl
      refine ⟨wf_construct hash, ?_, by simp [Answered]⟩
      unfold Map.bindings construct
      rw [bindingsOf_empty]
      exact represents_nil
    · intro state label after hrefines _ hnext
      exact hrefines.next hconsistent hnext
  refine ⟨hrefines.bindings, hrefines.answered, hrefines.wf.counted, ?_, ?_⟩
  · intro hlength
    rw [hrefines.wf.counted]
    exact wrap_of_lt hlength
  · intro label henabled hcount
    exact hrefines.next_defined hconsistent henabled hcount

/-- Two clients insert colliding keys around a `reserve` that doubles the buckets,
then one of the keys is erased. -/
def collidingInserts : List (Label (Fin 2) Nat Nat) :=
  [.insert 0 1 10, .insert 1 65 20, .step 0, .step 0, .reserve 0 24, .step 1, .step 1,
    .erase 0 1, .at 1 65]

theorem colliding_inserts_refine :
    ∃ state : State (Fin 2) Nat Nat, (machine defaultParams UInt64.ofNat).Reachable state ∧
      state.map.buckets.length = 64 ∧ state.map.bindings = [(65, 20)] ∧
      state.map.count = state.map.bindings.length := by
  obtain ⟨state, hreach, htest⟩ := Machine.exists_reachable_of_replay
    (machine defaultParams UInt64.ofNat)
    (⟨construct defaultParams, fun _ => .idle, []⟩ : State (Fin 2) Nat Nat) collidingInserts
    (fun state => decide (state.map.buckets.length = 64 ∧ state.map.bindings = [(65, 20)]))
    rfl (by decide +kernel)
  obtain ⟨hlength, hbindings⟩ := of_decide_eq_true htest
  have hconsistent : ∀ left right : Nat, (left == right) = true →
      UInt64.ofNat left = UInt64.ofNat right := by
    intro left right hequal
    rw [eq_of_beq hequal]
  refine ⟨state, hreach, hlength, hbindings,
    (refines_table UInt64.ofNat hconsistent state hreach).2.2.2.1 ?_⟩
  rw [hbindings]
  decide

end Crossbow.Concurrent.ConcurrentMap
