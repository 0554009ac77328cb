import Crossbow.Kernel.Bytes
import Mathlib.Logic.Equiv.Defs
import Mathlib.Logic.Function.Iterate

/-! The serializer and its policies. A code names a type of the grammar, and the
policies are defined by recursion on it, one case per specialisation. A policy
gets the archive, the object and the cursor. It may move the cursor of the archive
or return a new one, and `operator&` stores what is returned. -/
namespace Crossbow.Serializer
open Kernel

/-- Members are walked by the tuple policies or by the `visit` of a user type. -/
inductive Walk where
  | tuple
  | visit
  deriving DecidableEq, Repr

inductive Kind where
  | type
  | members (walk : Walk)
  deriving DecidableEq, Repr

/-- Types of the grammar. A POD is its object representation. `user` splits a type
into its members in the order in which it visits them, and `initial` is what its default
constructor leaves. An ordered container is its iteration sequence, and `insertEntry` says
where a hash table puts a new entry. -/
inductive Code : Kind → Type → Type 1 where
  | pod (size : Nat) : Code .type (Vector UInt8 size)
  | bool : Code .type Bool
  | stdString : Code .type (List UInt8)
  | crossbowString : Code .type (List UInt8)
  | pair {U V : Type} (first : Code .type U) (second : Code .type V) : Code .type (U × V)
  | tuple {T : Type} (members : Code (.members .tuple) T) : Code .type T
  | user {S T : Type} (split : S ≃ T) (initial : S) (members : Code (.members .visit) T) :
      Code .type S
  | vector {T : Type} (element : Code .type T) : Code .type (List T)
  | optional {T : Type} (element : Code .type T) : Code .type (Option T)
  | map {K V : Type} (key : Code .type K) (value : Code .type V) (less : K → K → Bool) :
      Code .type (List (K × V))
  | multimap {K V : Type} (key : Code .type K) (value : Code .type V) (less : K → K → Bool) :
      Code .type (List (K × V))
  | unorderedMap {K V : Type} (key : Code .type K) (value : Code .type V) (same : K → K → Bool)
      (insertEntry : List (K × V) → K × V → List (K × V)) : Code .type (List (K × V))
  | noMembers {walk : Walk} : Code (.members walk) Unit
  | snoc {walk : Walk} {T U : Type} (init : Code (.members walk) T) (last : Code .type U) :
      Code (.members walk) (T × U)

def Code.fresh {kind : Kind} {T : Type} : Code kind T → T
  | .pod size => Vector.replicate size 0
  | .bool => false
  | .stdString | .crossbowString => []
  | .pair first second => (first.fresh, second.fresh)
  | .tuple members => members.fresh
  | .user _ initial _ => initial
  | .vector _ => []
  | .optional _ => none
  | .map _ _ _ | .multimap _ _ _ | .unorderedMap _ _ _ _ => []
  | .noMembers => ()
  | .snoc init last => (init.fresh, last.fresh)

/-- `serializer` and `deserializer`: a memory and the cursor. -/
structure Archive where
  memory : Memory
  pos : Nat

abbrev SerializePolicy (T : Type) := Archive → T → Nat → Archive × Nat
abbrev DeserializePolicy (T : Type) := Archive → T → Nat → Archive × T × Nat
abbrev SizePolicy (T : Type) := Nat → T → Nat × Nat

variable {T K V : Type}

def Archive.put (ar : Archive) (policy : SerializePolicy T) (obj : T) : Archive :=
  { (policy ar obj ar.pos).1 with pos := (policy ar obj ar.pos).2 }

def Archive.get (ar : Archive) (policy : DeserializePolicy T) (obj : T) : Archive × T :=
  ({ (policy ar obj ar.pos).1 with pos := (policy ar obj ar.pos).2.2 }, (policy ar obj ar.pos).2.1)

def sizerAdd (size : Nat) (policy : SizePolicy T) (obj : T) : Nat :=
  (policy size obj).1 + (policy size obj).2

/-- `memcpy(pos, &obj, sizeof(T))` for an object with the given bytes. -/
def serializeBytes (ar : Archive) (bytes : List UInt8) (pos : Nat) : Archive × Nat :=
  ({ ar with memory := store ar.memory pos bytes }, pos + bytes.length)

def serializeSize : SerializePolicy Nat := fun ar size pos => serializeBytes ar (natLE 8 size) pos

def deserializeSize : DeserializePolicy Nat :=
  fun ar _ ptr => (ar, decodeLE (load ar.memory ptr 8), ptr + 8)

def serializeBool : SerializePolicy Bool :=
  fun ar b pos => serializeBytes ar [if b then 1 else 0] pos

def deserializeBool : DeserializePolicy Bool := fun ar _ ptr => (ar, ar.memory ptr == 1, ptr + 1)

/-- The length goes through `uint32_t`, and so many characters are copied. -/
def serializeString : SerializePolicy (List UInt8) := fun ar obj pos =>
  let len := obj.length % 2 ^ 32
  (⟨store (store ar.memory pos (natLE 4 len)) (pos + 4) (obj.take len), ar.pos⟩, pos + 4 + len)

def deserializeString : DeserializePolicy (List UInt8) := fun ar _ ptr =>
  let s := decodeLE (load ar.memory ptr 4)
  (ar, load ar.memory (ptr + 4) s, ptr + 4 + s)

/-- `std::map::emplace` keeps an equivalent key that is already there. -/
def mapEmplace (less : K → K → Bool) (entries : List (K × V)) (entry : K × V) : List (K × V) :=
  match entries with
  | [] => [entry]
  | head :: rest =>
      if less head.1 entry.1 then head :: mapEmplace less rest entry
      else if less entry.1 head.1 then entry :: head :: rest
      else head :: rest

/-- `std::multimap::emplace` inserts behind the equivalent keys. -/
def multimapEmplace (less : K → K → Bool) (entries : List (K × V)) (entry : K × V) :
    List (K × V) :=
  match entries with
  | [] => [entry]
  | head :: rest =>
      if less entry.1 head.1 then entry :: head :: rest
      else head :: multimapEmplace less rest entry

def unorderedEmplace (same : K → K → Bool)
    (insertEntry : List (K × V) → K × V → List (K × V)) (entries : List (K × V))
    (entry : K × V) : List (K × V) :=
  if entries.any fun old => same old.1 entry.1 then entries else insertEntry entries entry

def serializeEntries (key : SerializePolicy K) (value : SerializePolicy V) :
    SerializePolicy (List (K × V)) := fun ar map _ =>
  let ar := ar.put serializeSize map.length
  let ar := map.foldl (fun ar e => (ar.put key e.1).put value e.2) ar
  (ar, ar.pos)

/-- They read them into fresh keys and values and differ in how they emplace. -/
def deserializeEntries (key : DeserializePolicy K) (value : DeserializePolicy V) (freshKey : K)
    (freshValue : V) (emplace : List (K × V) → K × V → List (K × V)) :
    DeserializePolicy (List (K × V)) := fun ar out _ =>
  let (ar, size) := ar.get deserializeSize 0
  let body := fun state : Archive × List (K × V) =>
    let (ar, f) := state.1.get key freshKey
    let (ar, s) := ar.get value freshValue
    (ar, emplace state.2 (f, s))
  let (ar, out) := body^[size] (ar, out)
  (ar, out, ar.pos)

def sizeEntries (key : SizePolicy K) (value : SizePolicy V) : SizePolicy (List (K × V)) :=
  fun size map =>
    (map.foldl (fun size e => sizerAdd (sizerAdd size key e.1) value e.2) (size + 8), 0)

def serializePolicy {kind : Kind} {T : Type} : Code kind T → SerializePolicy T
  | .pod _ => fun ar obj pos => serializeBytes ar obj.toList pos
  | .bool => serializeBool
  | .stdString | .crossbowString => serializeString
  | .pair first second => fun ar p _ =>
      let ar := ar.put (serializePolicy first) p.1
      let ar := ar.put (serializePolicy second) p.2
      (ar, ar.pos)
  | .tuple members => fun ar v pos =>
      let ar := (serializePolicy members ar v pos).1
      (ar, ar.pos)
  | .user split _ members => fun ar obj _ =>
      let ar := (serializePolicy members ar (split obj) ar.pos).1
      (ar, ar.pos)
  | .vector element => fun ar v _ =>
      let ar := ar.put serializeSize v.length
      let ar := v.foldl (fun ar e => ar.put (serializePolicy element) e) ar
      (ar, ar.pos)
  | .optional element => fun ar obj _ =>
      let ar := ar.put serializeBool obj.isSome
      match obj with
      | none => (ar, ar.pos)
      | some value =>
          let ar := ar.put (serializePolicy element) value
          (ar, ar.pos)
  | .map key value _ => serializeEntries (serializePolicy key) (serializePolicy value)
  | .multimap key value _ => serializeEntries (serializePolicy key) (serializePolicy value)
  | .unorderedMap key value _ _ => serializeEntries (serializePolicy key) (serializePolicy value)
  | .noMembers => fun ar _ pos => (ar, pos)
  | .snoc init last => fun ar v _ =>
      -- what the shorter walk returns is dropped, the archive carries the cursor
      let ar := (serializePolicy init ar v.1 ar.pos).1
      let ar := ar.put (serializePolicy last) v.2
      (ar, ar.pos)

def deserializePolicy {kind : Kind} {T : Type} : Code kind T → DeserializePolicy T
  | .pod size => fun ar _ ptr =>
      (ar, Vector.ofFn fun index : Fin size => ar.memory (ptr + index), ptr + size)
  | .bool => deserializeBool
  | .stdString | .crossbowString => deserializeString
  | .pair first second => fun ar p _ =>
      let (ar, u) := ar.get (deserializePolicy first) p.1
      let (ar, v) := ar.get (deserializePolicy second) p.2
      (ar, (u, v), ar.pos)
  | .tuple members => fun ar out pos =>
      let (ar, out, _) := deserializePolicy members ar out pos
      (ar, out, ar.pos)
  | .user split _ members => fun ar out _ =>
      let (ar, out, _) := deserializePolicy members ar (split out) ar.pos
      (ar, split.symm out, ar.pos)
  | .vector element => fun ar out ptr =>
      let s := decodeLE (load ar.memory ptr 8)
      let ar := { ar with pos := ptr + 8 }
      let body := fun state : Archive × List _ =>
        let (ar, obj) := state.1.get (deserializePolicy element) element.fresh
        (ar, state.2 ++ [obj])
      let (ar, out) := body^[s] (ar, out)
      (ar, out, ar.pos)
  | .optional element => fun ar p _ =>
      let (ar, isSet) := ar.get deserializeBool false
      if isSet then
        let (ar, res) := ar.get (deserializePolicy element) element.fresh
        (ar, some res, ar.pos)
      else (ar, p, ar.pos)
  | .map key value less =>
      deserializeEntries (deserializePolicy key) (deserializePolicy value) key.fresh value.fresh
        (mapEmplace less)
  | .multimap key value less =>
      deserializeEntries (deserializePolicy key) (deserializePolicy value) key.fresh value.fresh
        (multimapEmplace less)
  | .unorderedMap key value same insertEntry =>
      deserializeEntries (deserializePolicy key) (deserializePolicy value) key.fresh value.fresh
        (unorderedEmplace same insertEntry)
  | .noMembers => fun ar out pos => (ar, out, pos)
  | .snoc init last => fun ar v _ =>
      let (ar, u, _) := deserializePolicy init ar v.1 ar.pos
      let (ar, w) := ar.get (deserializePolicy last) v.2
      (ar, (u, w), ar.pos)

def sizePolicy {kind : Kind} {T : Type} : Code kind T → SizePolicy T
  | .pod bytes => fun size _ => (size, bytes)
  | .bool => fun size _ => (size, 1)
  | .stdString | .crossbowString => fun size obj => (size, 4 + obj.length)
  | .pair first second => fun size p =>
      (sizerAdd (sizerAdd size (sizePolicy first) p.1) (sizePolicy second) p.2, 0)
  | .tuple members => fun size obj => sizePolicy members size obj
  | .user split _ members => fun size obj => ((sizePolicy members size (split obj)).1, 0)
  | .vector element => fun size obj =>
      (obj.foldl (fun size e => sizerAdd size (sizePolicy element) e) (size + 8), 0)
  | .optional element => fun size obj =>
      match obj with
      | none => (size + 1, 0)
      | some value => (sizerAdd (size + 1) (sizePolicy element) value, 0)
  | .map key value _ => sizeEntries (sizePolicy key) (sizePolicy value)
  | .multimap key value _ => sizeEntries (sizePolicy key) (sizePolicy value)
  | .unorderedMap key value _ _ => sizeEntries (sizePolicy key) (sizePolicy value)
  | .noMembers => fun size _ => (size, 0)
  -- the tuple policy of the sizer starts at the last member
  | @Code.snoc walk _ _ init last => fun size v =>
      match walk with
      | .tuple => ((sizePolicy init (sizerAdd size (sizePolicy last) v.2) v.1).1, 0)
      | .visit => (sizerAdd (sizePolicy init size v.1).1 (sizePolicy last) v.2, 0)

def deserialize (code : Code .type T) (out : T) (memory : Memory) (buffer : Nat) : T × Nat :=
  let (des, out) := Archive.get ⟨memory, buffer⟩ (deserializePolicy code) out
  (out, des.pos)

/-- The computed size and the serializer afterwards; `buffer` is the address that
`new uint8_t[size]` returns. -/
def serialize (code : Code .type T) (obj : T) (memory : Memory) (buffer : Nat) : Nat × Archive :=
  (sizerAdd 0 (sizePolicy code) obj, Archive.put ⟨memory, buffer⟩ (serializePolicy code) obj)

end Crossbow.Serializer
