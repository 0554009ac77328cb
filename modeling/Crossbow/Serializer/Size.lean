import Crossbow.Serializer.Encoding

/-! The sizer against the serializer. The two traversals agree except for strings,
whose length passes through 32 bits in the serializer only. -/
namespace Crossbow.Serializer
open Kernel

variable {T K V : Type}

/-- How a size policy of the given kind is called, as in `Kind.put`. -/
def Kind.addSize {T : Type} (kind : Kind) (policy : SizePolicy T) (size : Nat) (obj : T) : Nat :=
  match kind with
  | .type => sizerAdd size policy obj
  | .members _ => (policy size obj).1

/-- What the sizer adds for a value: the encoding with all strings in full length. -/
def Code.fullSize {kind : Kind} {T : Type} : Code kind T → T → Nat
  | .pod size => fun _ => size
  | .bool => fun _ => 1
  | .stdString | .crossbowString => fun obj => 4 + obj.length
  | .pair first second => fun p => first.fullSize p.1 + second.fullSize p.2
  | .tuple members => members.fullSize
  | .user split _ members => fun obj => members.fullSize (split obj)
  | .vector element => fun items => 8 + (items.map element.fullSize).sum
  | .optional element => fun obj =>
      match obj with
      | none => 1
      | some value => 1 + element.fullSize value
  | .map key value _ | .multimap key value _ | .unorderedMap key value _ _ => fun items =>
      8 + (items.map fun e => key.fullSize e.1 + value.fullSize e.2).sum
  | .noMembers => fun _ => 0
  | .snoc init last => fun v => init.fullSize v.1 + last.fullSize v.2

theorem foldl_size {El : Type} {step : Nat → El → Nat} {measure : El → Nat}
    (hstep : ∀ size el, step size el = size + measure el) (items : List El) (size : Nat) :
    items.foldl step size = size + (items.map measure).sum := by
  induction items generalizing size with
  | nil => rfl
  | cons item rest ih =>
      rw [List.foldl_cons, hstep, ih, List.map_cons, List.sum_cons, Nat.add_assoc]

theorem sizerAdd_of_zero {policy : SizePolicy T} {size total : Nat} {obj : T}
    (hpolicy : policy size obj = (total, 0)) : sizerAdd size policy obj = total := by
  unfold sizerAdd
  rw [hpolicy]
  rfl

theorem sizePolicy_members {walk : Walk} (members : Code (.members walk) T) (size : Nat)
    (obj : T) : (sizePolicy members size obj).2 = 0 := by
  cases members with
  | noMembers => rfl
  | snoc init last => cases walk <;> rfl

theorem sizerAdd_sizeEntries {key : SizePolicy K} {value : SizePolicy V} {sizeKey : K → Nat}
    {sizeValue : V → Nat} (hkey : ∀ size obj, sizerAdd size key obj = size + sizeKey obj)
    (hvalue : ∀ size obj, sizerAdd size value obj = size + sizeValue obj) (size : Nat)
    (items : List (K × V)) :
    sizerAdd size (sizeEntries key value) items =
      size + (8 + (items.map fun e => sizeKey e.1 + sizeValue e.2).sum) := by
  have hstep : ∀ (size : Nat) (e : K × V), sizerAdd (sizerAdd size key e.1) value e.2 =
      size + (sizeKey e.1 + sizeValue e.2) := by
    intro size e
    rw [hkey, hvalue, Nat.add_assoc]
  apply sizerAdd_of_zero
  simp only [sizeEntries, foldl_size hstep, Nat.add_assoc]

theorem addSize_sizePolicy {kind : Kind} (code : Code kind T) (size : Nat) (obj : T) :
    kind.addSize (sizePolicy code) size obj = size + code.fullSize obj := by
  induction code generalizing size with
  | pod bytes => rfl
  | bool => rfl
  | stdString => rfl
  | crossbowString => rfl
  | pair first second hfirst hsecond =>
      simp only [Kind.addSize] at hfirst hsecond ⊢
      apply sizerAdd_of_zero
      simp only [sizePolicy, Code.fullSize, hfirst, hsecond, Nat.add_assoc]
  | tuple members ih =>
      simp only [Kind.addSize] at ih ⊢
      apply sizerAdd_of_zero
      simp only [sizePolicy, Code.fullSize]
      rw [← ih, ← sizePolicy_members members size obj]
  | user split initial members ih =>
      simp only [Kind.addSize] at ih ⊢
      apply sizerAdd_of_zero
      simp only [sizePolicy, Code.fullSize, ih]
  | vector element ih =>
      simp only [Kind.addSize] at ih ⊢
      apply sizerAdd_of_zero
      simp only [sizePolicy, Code.fullSize, foldl_size ih, Nat.add_assoc]
  | optional element ih =>
      simp only [Kind.addSize] at ih ⊢
      cases obj with
      | none => rfl
      | some value =>
          apply sizerAdd_of_zero
          simp only [sizePolicy, Code.fullSize, ih, Nat.add_assoc]
  | map key value less hkey hvalue => exact sizerAdd_sizeEntries hkey hvalue size obj
  | multimap key value less hkey hvalue => exact sizerAdd_sizeEntries hkey hvalue size obj
  | unorderedMap key value same insertEntry hkey hvalue =>
      exact sizerAdd_sizeEntries hkey hvalue size obj
  | noMembers => rfl
  | @snoc walk _ _ init last hinit hlast =>
      simp only [Kind.addSize] at hinit hlast ⊢
      cases walk with
      | tuple =>
          simp only [sizePolicy, Code.fullSize, hinit, hlast]
          omega
      | visit => simp only [sizePolicy, Code.fullSize, hinit, hlast, Nat.add_assoc]

theorem sum_map_eq_iff {El : Type} {small large : El → Nat} (items : List El)
    (hle : ∀ item ∈ items, small item ≤ large item) :
    (items.map small).sum ≤ (items.map large).sum ∧
      ((items.map small).sum = (items.map large).sum ↔
        ∀ item ∈ items, small item = large item) := by
  induction items with
  | nil => simp
  | cons item rest ih =>
      have hhead := hle item (by simp)
      obtain ⟨htail, hiff⟩ := ih fun other hother => hle other (by simp [hother])
      simp only [List.map_cons, List.sum_cons, List.forall_mem_cons, ← hiff]
      omega

theorem length_encodeItems {El : Type} (encode : El → List UInt8) (items : List El) :
    (encodeItems encode items).length = 8 + (items.map fun item => (encode item).length).sum := by
  rw [encodeItems, List.length_append, length_natLE, List.length_flatMap]

theorem encodeItems_le_iff {El : Type} {encode : El → List UInt8} {measure : El → Nat}
    {complete : El → Prop}
    (hitem : ∀ item, (encode item).length ≤ measure item ∧
      ((encode item).length = measure item ↔ complete item)) (items : List El) :
    (encodeItems encode items).length ≤ 8 + (items.map measure).sum ∧
      ((encodeItems encode items).length = 8 + (items.map measure).sum ↔
        ∀ item ∈ items, complete item) := by
  obtain ⟨hle, hiff⟩ := sum_map_eq_iff items fun item _ => (hitem item).1
  rw [length_encodeItems]
  refine ⟨by omega, ?_⟩
  rw [Nat.add_left_cancel_iff, hiff]
  exact forall₂_congr fun item _ => (hitem item).2

theorem pair_le_iff {left right fullLeft fullRight : Nat} {shortLeft shortRight : Prop}
    (hleft : left ≤ fullLeft ∧ (left = fullLeft ↔ shortLeft))
    (hright : right ≤ fullRight ∧ (right = fullRight ↔ shortRight)) :
    left + right ≤ fullLeft + fullRight ∧
      (left + right = fullLeft + fullRight ↔ shortLeft ∧ shortRight) := by
  rw [← hleft.2, ← hright.2]
  omega

theorem encodeString_le_iff (obj : List UInt8) :
    (encodeString obj).length ≤ 4 + obj.length ∧
      ((encodeString obj).length = 4 + obj.length ↔ obj.length < 2 ^ 32) := by
  unfold encodeString
  rw [List.length_append, length_natLE, List.length_take]
  omega

theorem encode_le_iff {kind : Kind} (code : Code kind T) (obj : T) :
    (code.encode obj).length ≤ code.fullSize obj ∧
      ((code.encode obj).length = code.fullSize obj ↔ code.Short obj) := by
  induction code with
  | pod bytes => simp [Code.encode, Code.fullSize, Code.Short]
  | bool => simp [Code.encode, Code.fullSize, Code.Short]
  | stdString => exact encodeString_le_iff obj
  | crossbowString => exact encodeString_le_iff obj
  | pair first second hfirst hsecond =>
      simp only [Code.encode, Code.fullSize, Code.Short, List.length_append]
      exact pair_le_iff (hfirst obj.1) (hsecond obj.2)
  | tuple members ih => exact ih obj
  | user split initial members ih => exact ih (split obj)
  | vector element ih => exact encodeItems_le_iff ih obj
  | optional element ih =>
      cases obj with
      | none => simp [Code.encode, Code.fullSize, Code.Short]
      | some value =>
          obtain ⟨hle, hiff⟩ := ih value
          simp only [Code.encode, Code.fullSize, Code.Short, List.length_cons, Option.mem_some,
            forall_eq', ← hiff]
          omega
  | map key value less hkey hvalue =>
      apply encodeItems_le_iff
      intro e
      rw [List.length_append]
      exact pair_le_iff (hkey e.1) (hvalue e.2)
  | multimap key value less hkey hvalue =>
      apply encodeItems_le_iff
      intro e
      rw [List.length_append]
      exact pair_le_iff (hkey e.1) (hvalue e.2)
  | unorderedMap key value same insertEntry hkey hvalue =>
      apply encodeItems_le_iff
      intro e
      rw [List.length_append]
      exact pair_le_iff (hkey e.1) (hvalue e.2)
  | noMembers => simp [Code.encode, Code.fullSize, Code.Short]
  | snoc init last hinit hlast =>
      simp only [Code.encode, Code.fullSize, Code.Short, List.length_append]
      exact pair_le_iff (hinit obj.1) (hlast obj.2)

theorem serialize_size (code : Code .type T) (obj : T) (memory : Memory) (buffer : Nat) :
    (serialize code obj memory buffer).1 = code.fullSize obj := by
  have hsize := addSize_sizePolicy code 0 obj
  rw [Nat.zero_add] at hsize
  exact hsize

/-- The assertion of `crossbow::serialize` holds exactly for values without a string
of `2 ^ 32` or more characters. -/
theorem assertion_iff_short (code : Code .type T) (obj : T) (memory : Memory) (buffer : Nat) :
    (serialize code obj memory buffer).2.pos = buffer + (serialize code obj memory buffer).1 ↔
      code.Short obj := by
  rw [serialize_size, serialize_archive, ← (encode_le_iff code obj).2]
  exact Nat.add_left_cancel_iff

theorem not_assertion_of_length {text : List UInt8} (hlength : text.length = 2 ^ 32)
    (memory : Memory) (buffer : Nat) :
    (serialize .stdString text memory buffer).2.pos ≠
      buffer + (serialize .stdString text memory buffer).1 := by
  rw [serialize_size, serialize_archive]
  intro hassert
  have hshort : text.length < 2 ^ 32 :=
    (encode_le_iff .stdString text).2.mp (Nat.add_left_cancel hassert)
  omega

/-- A string of `2 ^ 32` characters is written with length zero. -/
theorem long_string_violates_assertion :
    ∃ text : List UInt8, (serialize .stdString text (fun _ => 0) 0).2.pos ≠
      0 + (serialize .stdString text (fun _ => 0) 0).1 :=
  ⟨List.replicate (2 ^ 32) 0, not_assertion_of_length List.length_replicate _ _⟩

end Crossbow.Serializer
