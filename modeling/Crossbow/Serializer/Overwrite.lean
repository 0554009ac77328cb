import Crossbow.Serializer.Decoded
import Mathlib.Data.Set.Insert

/-! Deserializing into an object that holds something already. -/
namespace Crossbow.Serializer
open Kernel

variable {T : Type}

/-- Whichever of the objects the bytes are read into, the result is the value. -/
def Code.Overwrites (code : Code .type T) (value : T) (previous : Set T) (memory : Memory)
    (start : Nat) : Prop :=
  ∀ left ∈ previous, ∀ right ∈ previous,
    code.Equal (deserialize code left memory start).1 value ∧
      code.Equal (deserialize code left memory start).1 (deserialize code right memory start).1

section Reading

variable {memory : Memory} {code : Code .type T} {value old : T} {start : Nat}
  (hlawful : code.Lawful) (hvalid : code.Valid value) (hshort : code.Short value)
  (hload : load memory start (code.encode value).length = code.encode value)
include hlawful hvalid hshort hload

theorem deserialize_equal_of_absorbs (hold : code.Valid old) (habsorbs : code.Absorbs value old) :
    code.Equal (deserialize code old memory start).1 value := by
  obtain ⟨result, hread, hfate⟩ := deserialize_encode code hlawful hvalid hshort hold hload
  rw [hread]
  exact hfate.equal habsorbs

theorem absorbs_of_deserialize_equal (hneutral : code.NeutralKeys) (hold : code.Valid old)
    (hequal : code.Equal (deserialize code old memory start).1 value) :
    code.Absorbs value old := by
  obtain ⟨result, hread, hfate⟩ := deserialize_encode code hlawful hvalid hshort hold hload
  rw [hread] at hequal
  exact hfate.absorbs hneutral hequal

end Reading

/-- All objects of a set are overwritten with a value that has no string of `2 ^ 32`
characters and absorbs every one of them. If the keys are neutral and a default object is
among them, no other value overwrites them all. -/
theorem overwrites_iff (code : Code .type T) (hlawful : code.Lawful) (value : T)
    (hvalid : code.Valid value) (previous : Set T)
    (hprevious : ∀ old ∈ previous, code.Valid old) (source memory : Memory) (buffer start : Nat)
    (hcopy : load memory start ((serialize code value source buffer).2.pos - buffer) =
      load (serialize code value source buffer).2.memory buffer
        ((serialize code value source buffer).2.pos - buffer)) :
    ((code.Short value ∧ ∀ old ∈ previous, code.Absorbs value old) →
      code.Overwrites value previous memory start) ∧
    (code.NeutralKeys → code.ShortDefaults → code.fresh ∈ previous →
      code.Overwrites value previous memory start →
        code.Short value ∧ ∀ old ∈ previous, code.Absorbs value old) := by
  simp only [serialize_archive, Archive.append, Nat.add_sub_cancel_left, load_store] at hcopy
  constructor
  · rintro ⟨hshort, habsorbs⟩ left hleft right hright
    have hequal (old : T) (hold : old ∈ previous) :=
      deserialize_equal_of_absorbs hlawful hvalid hshort hcopy (hprevious old hold)
        (habsorbs old hold)
    exact ⟨hequal left hleft, equal_of_both code (hequal left hleft) (hequal right hright)⟩
  · intro hneutral hdefaults hfresh hsame
    have hshort := short_of_deserialized code hlawful hdefaults (hsame _ hfresh _ hfresh).1
    refine ⟨hshort, fun old hold => ?_⟩
    exact absorbs_of_deserialize_equal hlawful hvalid hshort hcopy hneutral (hprevious old hold)
      (hsame old hold old hold).1

/-- An optional beside a map from bytes to strings. -/
def settingsCode : Code .type (Option (Vector UInt8 1) × List (Vector UInt8 1 × List UInt8)) :=
  .pair (.optional (.pod 1)) (.map (.pod 1) .stdString fun a b => decide (a[0] < b[0]))

/-- The option is replaced, and the one entry the map had is an entry of the value. -/
theorem settings_overwritten :
    settingsCode.Overwrites (some #v[7], [(#v[1], [8]), (#v[2], [])])
      {settingsCode.fresh, (some #v[3], [(#v[1], [8])])}
      (serialize settingsCode (some #v[7], [(#v[1], [8]), (#v[2], [])]) (fun _ => 0) 16).2.memory
      16 := by
  have hlawful : settingsCode.Lawful := by
    refine ⟨trivial, trivial, trivial, ?_, fun a b hless => ?_⟩
    · rintro a _ b _ rfl rfl
      rfl
    · exact decide_eq_false (UInt8.lt_asymm (of_decide_eq_true hless))
  have hvalid : settingsCode.Valid (some #v[7], [(#v[1], [8]), (#v[2], [])]) := by
    refine ⟨fun _ _ => trivial, by decide, ?_, by decide⟩
    simp [Code.Valid, wordRange]
  refine (overwrites_iff settingsCode hlawful _ hvalid _ ?_ (fun _ => 0) _ 16 16 rfl).1 ⟨?_, ?_⟩
  · rintro old (rfl | rfl)
    · exact fresh_valid settingsCode hlawful
    · refine ⟨fun _ _ => trivial, by decide, ?_, by decide⟩
      simp [Code.Valid, wordRange]
  · refine ⟨fun _ _ => trivial, ?_⟩
    simp [Code.Short]
  · rintro old (rfl | rfl)
    · simp [settingsCode, Code.fresh, Code.Absorbs]
    · simp [settingsCode, Code.Absorbs, Code.Equal]

/-- The element that a vector had stays in front of the decoded one, a set optional stays
set, a map keeps the value it had under the decoded key, and the optional that an element
leaves unset is the one of its default constructor. -/
theorem previous_contents_stay :
    ¬ (Code.vector (.pod 1)).Equal
        (deserialize (.vector (.pod 1)) [#v[3]]
          (serialize (.vector (.pod 1)) [#v[7]] (fun _ => 0) 16).2.memory 16).1 [#v[7]] ∧
    ¬ (Code.optional (.pod 1)).Equal
        (deserialize (.optional (.pod 1)) (some #v[3])
          (serialize (.optional (.pod 1)) none (fun _ => 0) 16).2.memory 16).1 none ∧
    ¬ settingsCode.Equal
        (deserialize settingsCode (none, [(#v[1], [9])])
          (serialize settingsCode (none, [(#v[1], [8])]) (fun _ => 0) 16).2.memory 16).1
        (none, [(#v[1], [8])]) ∧
    ¬ (Code.vector (presetCode ⟨[], some #v[5]⟩)).Equal
        (deserialize (.vector (presetCode ⟨[], some #v[5]⟩)) []
          (serialize (.vector (presetCode ⟨[], some #v[5]⟩)) [⟨[], none⟩] (fun _ => 0)
            16).2.memory 16).1 [⟨[], none⟩] := by
  refine ⟨fun hequal => ?_, fun hequal => ?_, fun hequal => ?_, fun hequal => ?_⟩
  · have hlength := List.Forall₂.length_eq hequal
    exact absurd hlength (by decide)
  · have hresult : (deserialize (.optional (.pod 1)) (some #v[3])
        (serialize (.optional (.pod 1)) none (fun _ => 0) 16).2.memory 16).1 = some #v[3] := by
      decide
    rw [hresult] at hequal
    cases hequal
  · have hresult : (deserialize settingsCode (none, [(#v[1], [9])])
        (serialize settingsCode (none, [(#v[1], [8])]) (fun _ => 0) 16).2.memory 16).1 =
          (none, [(#v[1], [9])]) := by
      decide
    rw [hresult] at hequal
    cases hequal.2 with
    | cons hentry _ =>
        have hvalue : ([9] : List UInt8) = [8] := hentry.2
        cases hvalue
  · have hresult : (deserialize (.vector (presetCode ⟨[], some #v[5]⟩)) []
        (serialize (.vector (presetCode ⟨[], some #v[5]⟩)) [⟨[], none⟩] (fun _ => 0)
          16).2.memory 16).1 = [⟨[], some #v[5]⟩] := by
      decide
    rw [hresult] at hequal
    cases hequal with
    | cons hpreset _ =>
        have hlimit : Option.Rel Eq (some (#v[5] : Vector UInt8 1)) none := hpreset.2
        cases hlimit

end Crossbow.Serializer
