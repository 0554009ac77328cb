import Crossbow.Serializer.RoundTrip

/-! What every decoded object satisfies. The length of a string is read from four bytes,
so whatever the memory holds, no decoded string is longer than they can say; a longer one
can only come from a default object. -/
namespace Crossbow.Serializer
open Kernel

variable {T K V : Type}

theorem get_snd (policy : DeserializePolicy T) (ar : Archive) (out : T) :
    (ar.get policy out).2 = (policy ar out ar.pos).2.1 := rfl

theorem get_deserializeEntries {key : DeserializePolicy K} {value : DeserializePolicy V}
    {freshKey : K} {freshValue : V} {emplace : List (K × V) → K × V → List (K × V)}
    {goodKey : K → Prop} {goodValue : V → Prop}
    (hkey : ∀ ar : Archive, goodKey (ar.get key freshKey).2)
    (hvalue : ∀ ar : Archive, goodValue (ar.get value freshValue).2)
    (hemplace : ∀ entries entry item, item ∈ emplace entries entry →
      item = entry ∨ item ∈ entries) (ar : Archive) {out : List (K × V)}
    (hout : ∀ item ∈ out, goodKey item.1 ∧ goodValue item.2) :
    ∀ item ∈ (ar.get (deserializeEntries key value freshKey freshValue emplace) out).2,
      goodKey item.1 ∧ goodValue item.2 := by
  simp only [Archive.get, deserializeEntries]
  apply Function.Iterate.rec (fun state : Archive × List (K × V) =>
    ∀ item ∈ state.2, goodKey item.1 ∧ goodValue item.2) hout
  intro state hstate item hitem
  rcases hemplace _ _ item hitem with rfl | hold
  · exact ⟨hkey _, hvalue _⟩
  · exact hstate item hold

theorem short_get_fresh {code : Code .type T}
    (hshort : code.Lawful → code.ShortDefaults → ∀ (ar : Archive) {out : T}, code.Short out →
      code.Short (Kind.type.get (deserializePolicy code) ar out).2)
    (hlawful : code.Lawful) (hdefaults : code.ShortDefaults) (ar : Archive) :
    code.Short (ar.get (deserializePolicy code) code.fresh).2 :=
  hshort hlawful hdefaults ar (fresh_short code hdefaults)

theorem get_short {kind : Kind} (code : Code kind T) (hlawful : code.Lawful)
    (hdefaults : code.ShortDefaults) (ar : Archive) {out : T} (hout : code.Short out) :
    code.Short (kind.get (deserializePolicy code) ar out).2 := by
  induction code generalizing ar with
  | pod | bool | noMembers => trivial
  | stdString | crossbowString =>
      simp only [Kind.get, Archive.get, deserializePolicy, deserializeString, Code.Short,
        length_load]
      have hlt := decodeLE_lt (load ar.memory ar.pos 4)
      rw [length_load] at hlt
      exact hlt
  | pair first second hfirst hsecond =>
      exact ⟨hfirst hlawful.1 hdefaults.1 _ hout.1, hsecond hlawful.2 hdefaults.2 _ hout.2⟩
  | tuple members ih => exact ih hlawful hdefaults ar hout
  | user split initial members ih =>
      simp only [Kind.get, Archive.get, deserializePolicy, Code.Short, Equiv.apply_symm_apply]
      exact ih hlawful.1 hdefaults.1 ar hout
  | vector element ih =>
      simp only [Kind.get, get_snd, deserializePolicy, Code.Short] at hout ⊢
      apply Function.Iterate.rec (fun state : Archive × List _ =>
        ∀ item ∈ state.2, element.Short item) hout
      intro state hstate item hitem
      rcases List.mem_append.mp hitem with hold | hnew
      · exact hstate item hold
      · rw [List.mem_singleton.mp hnew]
        exact ih hlawful hdefaults _ (fresh_short element hdefaults)
  | optional element ih =>
      show (Code.optional element).Short (deserializePolicy (.optional element) ar out ar.pos).2.1
      simp only [deserializePolicy]
      generalize ar.get deserializeBool false = flag
      split
      · intro value hvalue
        cases hvalue
        exact ih hlawful hdefaults _ (fresh_short element hdefaults)
      · exact hout
  | map key value less hkey hvalue =>
      simp only [Kind.get, deserializePolicy, Code.Short] at hout ⊢
      exact get_deserializeEntries (short_get_fresh hkey hlawful.1 hdefaults.1)
        (short_get_fresh hvalue hlawful.2.1 hdefaults.2)
        (fun _ _ _ => mem_mapEmplace) ar hout
  | multimap key value less hkey hvalue =>
      simp only [Kind.get, deserializePolicy, Code.Short] at hout ⊢
      exact get_deserializeEntries (short_get_fresh hkey hlawful.1 hdefaults.1)
        (short_get_fresh hvalue hlawful.2.1 hdefaults.2)
        (fun _ _ _ => mem_multimapEmplace) ar hout
  | unorderedMap key value same insertEntry hkey hvalue =>
      simp only [Kind.get, deserializePolicy, Code.Short] at hout ⊢
      exact get_deserializeEntries (short_get_fresh hkey hlawful.1 hdefaults.1)
        (short_get_fresh hvalue hlawful.2.1 hdefaults.2)
        (fun _ _ _ => mem_unorderedEmplace hlawful.2.2.2.2.2) ar hout
  | snoc init last hinit hlast =>
      exact ⟨hinit hlawful.1 hdefaults.1 ar hout.1, hlast hlawful.2 hdefaults.2 _ hout.2⟩

theorem short_of_deserialized (code : Code .type T) (hlawful : code.Lawful)
    (hdefaults : code.ShortDefaults) {memory : Memory} {start : Nat} {value : T}
    (hequal : code.Equal (deserialize code code.fresh memory start).1 value) :
    code.Short value :=
  short_of_equal code hequal
    (get_short code hlawful hdefaults ⟨memory, start⟩ (fresh_short code hdefaults))

end Crossbow.Serializer
