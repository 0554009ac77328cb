import Crossbow.Concurrent.ConcurrentMap
import Crossbow.Kernel.Assoc

/-! One bucket. The inline element is assigned whenever the overflow vector is not
empty, and under this condition each operation on a key edits the bindings of the
bucket at that key. -/
namespace Crossbow.Concurrent.ConcurrentMap
open Kernel Kernel.Assoc

variable {K V : Type}

def KeyValueElement.binding (el : KeyValueElement K V) : K × V := (el.key, el.value)

def Bucket.entries (bucket : Bucket K V) : List (K × V) :=
  ((bucket.arr :: bucket.overflow).filter (·.state = .valid)).map KeyValueElement.binding

structure Bucket.Sound (bucket : Bucket K V) : Prop where
  overflow_valid : ∀ el ∈ bucket.overflow, el.state = .valid
  not_deleted : bucket.arr.state ≠ .deleted
  packed : bucket.arr.state = .unassigned → bucket.overflow = []

/-- What each section does to the binding it finds at its key, and its return value. -/
def insertAt [Inhabited V] (key : K) (value : V) : Option (K × V) → Option (K × V) × Bool × V
  | none => (some (key, value), true, default)
  | some entry => (some (entry.1, value), false, entry.2)

def eraseAt [Inhabited V] : Option (K × V) → Option (K × V) × Bool × V
  | none => (none, false, default)
  | some entry => (none, true, entry.2)

def lookupAt [Inhabited V] : Option (K × V) → Bool × V
  | none => (false, default)
  | some entry => (true, entry.2)

def execAt [Inhabited V] (key : K) (fn : V → V × Bool) : Option (K × V) → Option (K × V)
  | none => if (fn default).2 then none else some (key, (fn default).1)
  | some entry => if (fn entry.2).2 then none else some (entry.1, (fn entry.2).1)

/-- `_count` after the binding at one key changed from `found` to `put`. -/
def countAfter (found put : Option (K × V)) (count : Nat) : Nat :=
  match found, put with
  | none, some _ => wrap (count + 1)
  | some _, none => wrapSub count 1
  | _, _ => count

theorem atFirst_eq_some {El R : Type} {test : El → Bool} {act : El → List El × R}
    {elements result : List El} {ret : R}
    (hfirst : atFirst test act elements = some (result, ret)) :
    ∃ front el back, elements = front ++ el :: back ∧ test el = true ∧
      result = front ++ (act el).1 ++ back ∧ ret = (act el).2 := by
  induction elements generalizing result with
  | nil => simp [atFirst] at hfirst
  | cons el rest ih =>
      rw [atFirst] at hfirst
      split at hfirst
      · rename_i htest
        cases hfirst
        exact ⟨[], el, rest, rfl, htest, rfl, rfl⟩
      · obtain ⟨⟨tail, tailRet⟩, htail, heq⟩ := Option.map_eq_some_iff.mp hfirst
        cases heq
        obtain ⟨front, found, back, rfl, htest, rfl, rfl⟩ := ih htail
        exact ⟨el :: front, found, back, rfl, htest, rfl, rfl⟩

theorem atFirst_eq_none {El R : Type} {test : El → Bool} {act : El → List El × R}
    {elements : List El} (hfirst : atFirst test act elements = none) :
    ∀ el ∈ elements, test el = false := by
  induction elements with
  | nil => simp
  | cons el rest ih =>
      rw [atFirst] at hfirst
      split at hfirst
      · contradiction
      · rename_i htest
        intro other hother
        rcases List.mem_cons.mp hother with rfl | hmem
        · exact Bool.eq_false_iff.mpr htest
        · exact ih (Option.map_eq_none_iff.mp hfirst) other hmem

section Entries

variable {bucket : Bucket K V}

theorem entries_of_valid {arr : KeyValueElement K V} {overflow : List (KeyValueElement K V)}
    (harr : arr.state = .valid) (hoverflow : ∀ el ∈ overflow, el.state = .valid) :
    Bucket.entries ⟨arr, overflow⟩ = arr.binding :: overflow.map KeyValueElement.binding := by
  have hfilter : overflow.filter (·.state = .valid) = overflow := by
    apply List.filter_eq_self.mpr
    simpa using hoverflow
  simp [Bucket.entries, harr, hfilter]

theorem Bucket.Sound.entries_of_unassigned (hsound : bucket.Sound)
    (harr : bucket.arr.state = .unassigned) : bucket.entries = [] := by
  simp [Bucket.entries, harr, hsound.packed harr]

theorem Bucket.Sound.valid_of_assigned (hsound : bucket.Sound)
    (harr : bucket.arr.state ≠ .unassigned) : bucket.arr.state = .valid := by
  cases hstate : bucket.arr.state with
  | unassigned => exact absurd hstate harr
  | deleted => exact absurd hstate hsound.not_deleted
  | valid => rfl

theorem Bucket.Sound.arr_valid (hsound : bucket.Sound) {el : KeyValueElement K V}
    (hmem : el ∈ bucket.overflow) : bucket.arr.state = .valid := by
  apply hsound.valid_of_assigned
  intro harr
  rw [hsound.packed harr] at hmem
  contradiction

theorem sound_of_valid {arr : KeyValueElement K V} {overflow : List (KeyValueElement K V)}
    (harr : arr.state = .valid) (hoverflow : ∀ el ∈ overflow, el.state = .valid) :
    Bucket.Sound ⟨arr, overflow⟩ where
  overflow_valid := hoverflow
  not_deleted := by simp [harr]
  packed := by simp [harr]

theorem insertNoDuplicateCheck_sound (hsound : bucket.Sound) {element : KeyValueElement K V}
    (hvalid : element.state = .valid) : (bucket.insertNoDuplicateCheck element).Sound := by
  unfold Bucket.insertNoDuplicateCheck
  split
  · apply sound_of_valid hvalid hsound.overflow_valid
  · rename_i harr
    apply sound_of_valid (hsound.valid_of_assigned harr)
    intro el hel
    rcases List.mem_append.mp hel with hmem | hmem
    · exact hsound.overflow_valid el hmem
    · rw [List.mem_singleton.mp hmem]
      exact hvalid

theorem insertNoDuplicateCheck_entries (hsound : bucket.Sound) {element : KeyValueElement K V}
    (hvalid : element.state = .valid) :
    (bucket.insertNoDuplicateCheck element).entries.Perm (element.binding :: bucket.entries) := by
  unfold Bucket.insertNoDuplicateCheck
  split
  · rename_i harr
    rw [hsound.entries_of_unassigned harr, entries_of_valid hvalid hsound.overflow_valid,
      hsound.packed harr]
    exact List.Perm.refl _
  · rename_i harr
    simp only [Bucket.entries, ← List.cons_append, List.filter_append, List.map_append]
    simp [hvalid]

theorem eraseArr_entries (hsound : bucket.Sound) :
    bucket.eraseArr.Sound ∧
      bucket.eraseArr.entries.Perm (bucket.overflow.map KeyValueElement.binding) := by
  unfold Bucket.eraseArr
  cases hlast : bucket.overflow.getLast? with
  | none =>
      have hempty : bucket.overflow = [] := List.getLast?_eq_none_iff.mp hlast
      refine ⟨⟨hsound.overflow_valid, by simp, fun _ => hempty⟩, ?_⟩
      simp [Bucket.entries, hempty]
  | some last =>
      obtain ⟨front, hfront⟩ := List.getLast?_eq_some_iff.mp hlast
      have hvalid := hsound.overflow_valid
      rw [hfront] at hvalid ⊢
      simp only [List.dropLast_concat]
      have hlastValid : last.state = .valid := hvalid last (by simp)
      have hfrontValid : ∀ el ∈ front, el.state = .valid := fun el hel => hvalid el (by simp [hel])
      refine ⟨sound_of_valid hlastValid hfrontValid, ?_⟩
      rw [entries_of_valid hlastValid hfrontValid, List.map_append]
      exact (List.perm_append_singleton _ _).symm

end Entries

section Operations

variable [BEq K] [EquivBEq K] {bucket : Bucket K V} {key : K}

omit [EquivBEq K] in
theorem isValidAndEqual_eq {el : KeyValueElement K V} (hvalid : el.state = .valid) :
    el.isValidAndEqual key = (el.binding.1 == key) := by
  simp [KeyValueElement.isValidAndEqual, KeyValueElement.binding, hvalid]

omit [EquivBEq K] in
theorem Bucket.Sound.of_isValidAndEqual (hsound : bucket.Sound)
    (hmatch : bucket.arr.isValidAndEqual key = true) :
    bucket.arr.state = .valid ∧ (bucket.arr.binding.1 == key) = true ∧
      bucket.entries = bucket.arr.binding :: bucket.overflow.map KeyValueElement.binding := by
  have hvalid : bucket.arr.state = .valid := by
    unfold KeyValueElement.isValidAndEqual at hmatch
    simp only [Bool.and_eq_true, decide_eq_true_eq] at hmatch
    exact hmatch.1
  rw [isValidAndEqual_eq hvalid] at hmatch
  exact ⟨hvalid, hmatch, entries_of_valid hvalid hsound.overflow_valid⟩

omit [EquivBEq K] in
theorem absent_of_mismatch
    (harr : bucket.arr.isValidAndEqual key = false)
    (hoverflow : ∀ el ∈ bucket.overflow, (el.key == key) = false) :
    ∀ entry ∈ bucket.entries, (entry.1 == key) = false := by
  intro entry hentry
  unfold Bucket.entries at hentry
  obtain ⟨el, hel, rfl⟩ := List.mem_map.mp hentry
  obtain ⟨hmem, hvalid⟩ := List.mem_filter.mp hel
  rcases List.mem_cons.mp hmem with rfl | hmem
  · rw [← isValidAndEqual_eq (of_decide_eq_true hvalid)]
    exact harr
  · exact hoverflow el hmem

theorem Bucket.Sound.edit_overflow (hsound : bucket.Sound) (hdistinct : Distinct bucket.entries)
    (harr : bucket.arr.state = .valid) {front back : List (KeyValueElement K V)}
    {el : KeyValueElement K V} (hsplit : bucket.overflow = front ++ el :: back)
    (hkey : (el.key == key) = true) (left : List (KeyValueElement K V))
    (hleft : ∀ other ∈ left, other.state = .valid) (put : Option (K × V))
    (hput : left.map KeyValueElement.binding = put.toList)
    (hputKey : ∀ entry ∈ put, (entry.1 == key) = true) :
    Bucket.Sound ⟨bucket.arr, front ++ left ++ back⟩ ∧
      Edit key (some el.binding) put bucket.entries
        (Bucket.entries ⟨bucket.arr, front ++ left ++ back⟩) := by
  have hvalid := hsound.overflow_valid
  have hbefore : bucket.entries = _ := entries_of_valid harr hvalid
  rw [hsplit] at hvalid hbefore
  have hresult : ∀ other ∈ front ++ left ++ back, other.state = .valid := by
    intro other hother
    simp only [List.mem_append] at hother
    rcases hother with (hmem | hmem) | hmem
    · exact hvalid other (by simp [hmem])
    · exact hleft other hmem
    · exact hvalid other (by simp [hmem])
  refine ⟨sound_of_valid harr hresult, ?_⟩
  rw [entries_of_valid harr hresult]
  apply Edit.of_present hdistinct _ hkey hputKey
  · rw [List.map_append, List.map_append, hput, List.append_assoc]
    exact (List.perm_append_comm_assoc (bucket.arr.binding :: front.map _) put.toList _)
  · rw [hbefore, List.map_append, List.map_cons]
    rw [← List.cons_append]
    exact List.perm_middle

theorem Bucket.Sound.edit_arr (hsound : bucket.Sound) (hdistinct : Distinct bucket.entries)
    (hmatch : bucket.arr.isValidAndEqual key = true) (value : V) :
    Bucket.Sound { bucket with arr := { bucket.arr with value := value } } ∧
      Edit key (some bucket.arr.binding) (some (bucket.arr.key, value)) bucket.entries
        (Bucket.entries { bucket with arr := { bucket.arr with value := value } }) := by
  obtain ⟨harr, hkey, hentries⟩ := hsound.of_isValidAndEqual hmatch
  refine ⟨sound_of_valid harr hsound.overflow_valid, ?_⟩
  apply Edit.of_present hdistinct (List.Perm.of_eq hentries) hkey
  · rintro entry ⟨⟩
    exact hkey
  · exact List.Perm.of_eq (entries_of_valid harr hsound.overflow_valid)

theorem Bucket.Sound.edit_eraseArr (hsound : bucket.Sound) (hdistinct : Distinct bucket.entries)
    (hmatch : bucket.arr.isValidAndEqual key = true) (value : V) :
    (Bucket.eraseArr { bucket with arr := { bucket.arr with value := value } }).Sound ∧
      Edit key (some bucket.arr.binding) none bucket.entries
        (Bucket.eraseArr { bucket with arr := { bucket.arr with value := value } }).entries := by
  obtain ⟨_, hkey, hentries⟩ := hsound.of_isValidAndEqual hmatch
  obtain ⟨hsound', hperm⟩ := eraseArr_entries (hsound.edit_arr hdistinct hmatch value).1
  refine ⟨hsound', ?_⟩
  apply Edit.of_present hdistinct (List.Perm.of_eq hentries) hkey (by simp)
  exact hperm

theorem Bucket.Sound.edit_insertNoDuplicateCheck (hsound : bucket.Sound) (value : V)
    (habsent : ∀ entry ∈ bucket.entries, (entry.1 == key) = false) :
    (bucket.insertNoDuplicateCheck ⟨.valid, key, value⟩).Sound ∧
      Edit key none (some (key, value)) bucket.entries
        (bucket.insertNoDuplicateCheck ⟨.valid, key, value⟩).entries := by
  refine ⟨insertNoDuplicateCheck_sound hsound rfl, ?_⟩
  apply Edit.of_absent habsent
  · rintro entry ⟨⟩
    exact BEq.refl key
  · exact insertNoDuplicateCheck_entries hsound rfl

variable [Inhabited V]

theorem insert_edit (hsound : bucket.Sound) (hdistinct : Distinct bucket.entries) (key : K)
    (value : V) :
    (bucket.insert key value).1.Sound ∧
      ∃ found, Edit key found (insertAt key value found).1 bucket.entries
          (bucket.insert key value).1.entries ∧
        (bucket.insert key value).2 = (insertAt key value found).2 := by
  unfold Bucket.insert
  split
  · rename_i harr
    have hinsert : bucket.insertNoDuplicateCheck ⟨.valid, key, value⟩ =
        { bucket with arr := ⟨.valid, key, value⟩ } := by
      simp [Bucket.insertNoDuplicateCheck, harr]
    obtain ⟨hsound', hedit⟩ := hsound.edit_insertNoDuplicateCheck value
      (by simp [hsound.entries_of_unassigned harr] : ∀ entry ∈ bucket.entries,
        (entry.1 == key) = false)
    rw [hinsert] at hsound' hedit
    exact ⟨hsound', none, hedit, rfl⟩
  · rename_i hassigned
    have harr := hsound.valid_of_assigned hassigned
    split
    · rename_i hmatch
      obtain ⟨hsound', hedit⟩ := hsound.edit_arr hdistinct hmatch value
      exact ⟨hsound', some bucket.arr.binding, hedit, rfl⟩
    · rename_i hmatch
      split
      · rename_i overflow old hfirst
        obtain ⟨front, el, back, hsplit, htest, rfl, rfl⟩ := atFirst_eq_some hfirst
        have hvalid := hsound.overflow_valid el (by simp [hsplit])
        obtain ⟨hsound', hedit⟩ := hsound.edit_overflow hdistinct harr hsplit htest
          [{ el with value := value }] (by simpa using hvalid) (some (el.key, value)) rfl
          (by rintro entry ⟨⟩; exact htest)
        exact ⟨hsound', some el.binding, hedit, rfl⟩
      · rename_i hfirst
        have hinsert : bucket.insertNoDuplicateCheck ⟨.valid, key, value⟩ =
            { bucket with overflow := bucket.overflow ++ [⟨.valid, key, value⟩] } := by
          simp [Bucket.insertNoDuplicateCheck, hassigned]
        obtain ⟨hsound', hedit⟩ := hsound.edit_insertNoDuplicateCheck value
          (absent_of_mismatch (Bool.eq_false_iff.mpr hmatch) (atFirst_eq_none hfirst))
        rw [hinsert] at hsound' hedit
        exact ⟨hsound', none, hedit, rfl⟩

theorem erase_edit (hsound : bucket.Sound) (hdistinct : Distinct bucket.entries) (key : K) :
    (bucket.erase key).1.Sound ∧
      ∃ found, Edit key found (eraseAt found).1 bucket.entries (bucket.erase key).1.entries ∧
        (bucket.erase key).2 = (eraseAt found).2 := by
  unfold Bucket.erase
  split
  · rename_i hmatch
    obtain ⟨hsound', hedit⟩ := hsound.edit_eraseArr hdistinct hmatch bucket.arr.value
    exact ⟨hsound', some bucket.arr.binding, hedit, rfl⟩
  · rename_i hmatch
    split
    · rename_i overflow old hfirst
      obtain ⟨front, el, back, hsplit, htest, rfl, rfl⟩ := atFirst_eq_some hfirst
      have harr := hsound.arr_valid (show el ∈ bucket.overflow by simp [hsplit])
      obtain ⟨hsound', hedit⟩ := hsound.edit_overflow hdistinct harr hsplit htest
        [] (by simp) none rfl (by simp)
      exact ⟨hsound', some el.binding, hedit, rfl⟩
    · rename_i hfirst
      refine ⟨hsound, none, ?_, rfl⟩
      exact Edit.of_absent
        (absent_of_mismatch (Bool.eq_false_iff.mpr hmatch) (atFirst_eq_none hfirst))
        (by simp [eraseAt]) (List.Perm.refl _)

theorem at_edit (hsound : bucket.Sound) (hdistinct : Distinct bucket.entries) (key : K) :
    ∃ found, Edit key found found bucket.entries bucket.entries ∧
      bucket.at key = lookupAt found := by
  unfold Bucket.at
  split
  · rename_i hmatch
    obtain ⟨_, hedit⟩ := hsound.edit_arr hdistinct hmatch bucket.arr.value
    exact ⟨some bucket.arr.binding, hedit, rfl⟩
  · rename_i hmatch
    split
    · rename_i el hfind
      have hmem := List.mem_of_find?_eq_some hfind
      have htest := List.find?_some hfind
      have hvalid := hsound.overflow_valid el hmem
      rw [isValidAndEqual_eq hvalid] at htest
      obtain ⟨front, back, hsplit⟩ := List.append_of_mem hmem
      obtain ⟨_, hedit⟩ := hsound.edit_overflow hdistinct (hsound.arr_valid hmem) hsplit htest
        [el] (by simpa using hvalid) (some el.binding) rfl (by rintro entry ⟨⟩; exact htest)
      rw [List.append_assoc, List.singleton_append, ← hsplit] at hedit
      exact ⟨some el.binding, hedit, rfl⟩
    · rename_i hfind
      refine ⟨none, ?_, rfl⟩
      apply Edit.of_absent _ (by simp) (List.Perm.refl _)
      apply absent_of_mismatch (Bool.eq_false_iff.mpr hmatch)
      intro el hel
      have hnone := List.find?_eq_none.mp hfind el hel
      rw [isValidAndEqual_eq (hsound.overflow_valid el hel)] at hnone
      exact Bool.eq_false_iff.mpr hnone

omit [BEq K] [EquivBEq K] in
theorem execAt_of_erase {fn : V → V × Bool} (entry : K × V) (hresult : (fn entry.2).2 = true) :
    execAt key fn (some entry) = none :=
  if_pos hresult

omit [BEq K] [EquivBEq K] in
theorem execAt_of_keep {fn : V → V × Bool} (entry : K × V) (hresult : (fn entry.2).2 = false) :
    execAt key fn (some entry) = some (entry.1, (fn entry.2).1) :=
  if_neg (Bool.eq_false_iff.mp hresult)

theorem execOn_edit (hsound : bucket.Sound) (hdistinct : Distinct bucket.entries)
    (key : K) (fn : V → V × Bool) (count : Nat) :
    (bucket.execOn key fn count).1.Sound ∧
      ∃ found, Edit key found (execAt key fn found) bucket.entries
          (bucket.execOn key fn count).1.entries ∧
        (bucket.execOn key fn count).2 = countAfter found (execAt key fn found) count := by
  unfold Bucket.execOn
  split
  · rename_i hmatch
    dsimp only
    split
    · rename_i hresult
      obtain ⟨hsound', hedit⟩ := hsound.edit_eraseArr hdistinct hmatch (fn bucket.arr.value).1
      refine ⟨hsound', some bucket.arr.binding, ?_⟩
      rw [execAt_of_erase bucket.arr.binding hresult]
      exact ⟨hedit, rfl⟩
    · rename_i hresult
      obtain ⟨hsound', hedit⟩ := hsound.edit_arr hdistinct hmatch (fn bucket.arr.value).1
      refine ⟨hsound', some bucket.arr.binding, ?_⟩
      rw [execAt_of_keep bucket.arr.binding (Bool.eq_false_iff.mpr hresult)]
      exact ⟨hedit, rfl⟩
  · rename_i hmatch
    split
    · rename_i overflow erased hfirst
      obtain ⟨front, el, back, hsplit, htest, rfl, rfl⟩ := atFirst_eq_some hfirst
      have hmem : el ∈ bucket.overflow := by simp [hsplit]
      have hvalid := hsound.overflow_valid el hmem
      have harr := hsound.arr_valid hmem
      rw [isValidAndEqual_eq hvalid] at htest
      dsimp only
      split
      · rename_i hresult
        obtain ⟨hsound', hedit⟩ := hsound.edit_overflow hdistinct harr hsplit htest
          [] (by simp) none rfl (by simp)
        refine ⟨hsound', some el.binding, ?_⟩
        rw [execAt_of_erase el.binding hresult]
        exact ⟨hedit, rfl⟩
      · rename_i hresult
        obtain ⟨hsound', hedit⟩ := hsound.edit_overflow hdistinct harr hsplit htest
          [{ el with value := (fn el.value).1 }] (by simpa using hvalid)
          (some (el.key, (fn el.value).1)) rfl (by rintro entry ⟨⟩; exact htest)
        refine ⟨hsound', some el.binding, ?_⟩
        rw [execAt_of_keep el.binding (Bool.eq_false_iff.mpr hresult)]
        exact ⟨hedit, rfl⟩
    · rename_i hfirst
      have habsent : ∀ entry ∈ bucket.entries, (entry.1 == key) = false := by
        apply absent_of_mismatch (Bool.eq_false_iff.mpr hmatch)
        intro el hel
        have hnone := atFirst_eq_none hfirst el hel
        rwa [isValidAndEqual_eq (hsound.overflow_valid el hel)] at hnone
      dsimp only
      split
      · rename_i hresult
        refine ⟨hsound, none, ?_⟩
        rw [execAt, if_pos hresult]
        exact ⟨Edit.of_absent habsent (by simp) (List.Perm.refl _), rfl⟩
      · rename_i hresult
        obtain ⟨hsound', hedit⟩ :=
          hsound.edit_insertNoDuplicateCheck (fn default).1 habsent
        refine ⟨hsound', none, ?_⟩
        rw [execAt, if_neg hresult]
        exact ⟨hedit, rfl⟩

end Operations

end Crossbow.Concurrent.ConcurrentMap
