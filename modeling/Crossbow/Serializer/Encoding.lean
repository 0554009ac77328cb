import Crossbow.Serializer.Policies

/-! The wire format as a function from values to bytes. Serializing any value
appends its encoding at the cursor. -/
namespace Crossbow.Serializer
open Kernel

def encodeString (obj : List UInt8) : List UInt8 :=
  natLE 4 (obj.length % 2 ^ 32) ++ obj.take (obj.length % 2 ^ 32)

def encodeItems {T : Type} (encode : T → List UInt8) (items : List T) : List UInt8 :=
  natLE 8 items.length ++ items.flatMap encode

def Code.encode {kind : Kind} {T : Type} : Code kind T → T → List UInt8
  | .pod _ => fun obj => obj.toList
  | .bool => fun b => [if b then 1 else 0]
  | .stdString | .crossbowString => encodeString
  | .pair first second => fun p => first.encode p.1 ++ second.encode p.2
  | .tuple members => members.encode
  | .user split _ members => fun obj => members.encode (split obj)
  | .vector element => encodeItems element.encode
  | .optional element => fun obj =>
      match obj with
      | none => [0]
      | some value => 1 :: element.encode value
  | .map key value _ | .multimap key value _ | .unorderedMap key value _ _ =>
      encodeItems fun e => key.encode e.1 ++ value.encode e.2
  | .noMembers => fun _ => []
  | .snoc init last => fun v => init.encode v.1 ++ last.encode v.2

def Code.Short {kind : Kind} {T : Type} : Code kind T → T → Prop
  | .pod _ | .bool => fun _ => True
  | .stdString | .crossbowString => fun obj => obj.length < 2 ^ 32
  | .pair first second => fun p => first.Short p.1 ∧ second.Short p.2
  | .tuple members => members.Short
  | .user split _ members => fun obj => members.Short (split obj)
  | .vector element => fun items => ∀ item ∈ items, element.Short item
  | .optional element => fun obj => ∀ value ∈ obj, element.Short value
  | .map key value _ | .multimap key value _ | .unorderedMap key value _ _ => fun items =>
      ∀ item ∈ items, key.Short item.1 ∧ value.Short item.2
  | .noMembers => fun _ => True
  | .snoc init last => fun v => init.Short v.1 ∧ last.Short v.2

def Archive.append (ar : Archive) (bytes : List UInt8) : Archive :=
  ⟨store ar.memory ar.pos bytes, ar.pos + bytes.length⟩

/-- How a policy of the given kind is called: through `operator&`, or by the walk over
the members, which drops what it returns. -/
def Kind.put {T : Type} (kind : Kind) (policy : SerializePolicy T) (ar : Archive) (obj : T) :
    Archive :=
  match kind with
  | .type => ar.put policy obj
  | .members _ => (policy ar obj ar.pos).1

variable {T K V : Type}

@[simp] theorem append_nil (ar : Archive) : ar.append [] = ar := by
  simp [Archive.append]

@[simp] theorem append_append (ar : Archive) (left right : List UInt8) :
    (ar.append left).append right = ar.append (left ++ right) := by
  unfold Archive.append
  rw [store_append, List.length_append, Nat.add_assoc]

theorem put_serializeBytes {policy : SerializePolicy T} {ar : Archive} {obj : T}
    {bytes : List UInt8} (hpolicy : policy ar obj ar.pos = serializeBytes ar bytes ar.pos) :
    ar.put policy obj = ar.append bytes := by
  unfold Archive.put
  rw [hpolicy]
  rfl

theorem put_serializeSize (ar : Archive) (size : Nat) :
    ar.put serializeSize size = ar.append (natLE 8 size) :=
  put_serializeBytes rfl

theorem put_serializeBool (ar : Archive) (b : Bool) :
    ar.put serializeBool b = ar.append [if b then 1 else 0] :=
  put_serializeBytes rfl

theorem put_serializeString (ar : Archive) (obj : List UInt8) :
    ar.put serializeString obj = ar.append (encodeString obj) := by
  have hlength : (obj.take (obj.length % 2 ^ 32)).length = obj.length % 2 ^ 32 := by
    rw [List.length_take]
    exact Nat.min_eq_left (Nat.mod_le _ _)
  have hstore := store_append ar.memory ar.pos (natLE 4 (obj.length % 2 ^ 32))
    (obj.take (obj.length % 2 ^ 32))
  rw [length_natLE] at hstore
  simp only [Archive.put, serializeString, Archive.append, encodeString, List.length_append,
    length_natLE, hlength, hstore, Nat.add_assoc]

theorem put_of_archive {policy : SerializePolicy T} {ar after : Archive} {obj : T}
    (hpolicy : policy ar obj ar.pos = (after, after.pos)) : ar.put policy obj = after := by
  unfold Archive.put
  rw [hpolicy]

theorem foldl_append {El : Type} {step : Archive → El → Archive} {encode : El → List UInt8}
    (hstep : ∀ ar el, step ar el = ar.append (encode el)) (items : List El) (ar : Archive) :
    items.foldl step ar = ar.append (items.flatMap encode) := by
  induction items generalizing ar with
  | nil => rw [List.foldl_nil, List.flatMap_nil, append_nil]
  | cons item rest ih =>
      rw [List.foldl_cons, hstep, ih, append_append, List.flatMap_cons]

theorem put_serializeEntries {key : SerializePolicy K} {value : SerializePolicy V}
    {encodeKey : K → List UInt8} {encodeValue : V → List UInt8}
    (hkey : ∀ (ar : Archive) (obj : K), ar.put key obj = ar.append (encodeKey obj))
    (hvalue : ∀ (ar : Archive) (obj : V), ar.put value obj = ar.append (encodeValue obj))
    (ar : Archive)
    (items : List (K × V)) :
    ar.put (serializeEntries key value) items =
      ar.append (encodeItems (fun e => encodeKey e.1 ++ encodeValue e.2) items) := by
  apply put_of_archive
  simp only [serializeEntries, encodeItems]
  have hstep : ∀ (ar : Archive) (e : K × V), (ar.put key e.1).put value e.2 =
      ar.append (encodeKey e.1 ++ encodeValue e.2) := by
    intro ar e
    rw [hkey, hvalue, append_append]
  rw [foldl_append hstep, put_serializeSize, append_append]

theorem put_serializePolicy {kind : Kind} (code : Code kind T) (ar : Archive) (obj : T) :
    kind.put (serializePolicy code) ar obj = ar.append (code.encode obj) := by
  induction code generalizing ar with
  | pod size => exact put_serializeBytes rfl
  | bool => exact put_serializeBool ar obj
  | stdString => exact put_serializeString ar obj
  | crossbowString => exact put_serializeString ar obj
  | pair first second hfirst hsecond =>
      simp only [Kind.put] at hfirst hsecond ⊢
      apply put_of_archive
      simp only [serializePolicy, Code.encode, hfirst, hsecond, append_append]
  | tuple members ih =>
      simp only [Kind.put] at ih ⊢
      apply put_of_archive
      simp only [serializePolicy, Code.encode, ih]
  | user split initial members ih =>
      simp only [Kind.put] at ih ⊢
      apply put_of_archive
      simp only [serializePolicy, Code.encode, ih]
  | vector element ih =>
      simp only [Kind.put] at ih ⊢
      apply put_of_archive
      simp only [serializePolicy, Code.encode, encodeItems]
      rw [foldl_append ih, put_serializeSize, append_append]
  | optional element ih =>
      simp only [Kind.put] at ih ⊢
      apply put_of_archive
      cases obj with
      | none => simp [serializePolicy, Code.encode, put_serializeBool]
      | some value => simp [serializePolicy, Code.encode, put_serializeBool, ih]
  | map key value less hkey hvalue =>
      exact put_serializeEntries hkey hvalue ar obj
  | multimap key value less hkey hvalue =>
      exact put_serializeEntries hkey hvalue ar obj
  | unorderedMap key value same insertEntry hkey hvalue =>
      exact put_serializeEntries hkey hvalue ar obj
  | noMembers => simp [Kind.put, serializePolicy, Code.encode]
  | snoc init last hinit hlast =>
      simp only [Kind.put] at hinit hlast ⊢
      simp only [serializePolicy, Code.encode, hinit, hlast, append_append]

theorem serialize_archive (code : Code .type T) (obj : T) (memory : Memory) (buffer : Nat) :
    (serialize code obj memory buffer).2 = Archive.append ⟨memory, buffer⟩ (code.encode obj) :=
  put_serializePolicy code ⟨memory, buffer⟩ obj

end Crossbow.Serializer
