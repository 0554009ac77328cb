import Crossbow.Serializer.Emplace

/-! Deserializing what was serialized. PODs and strings are assigned, pairs, tuples and
members pass the object on, and the containers read their elements into default objects.
The result is the value that was written as far as these objects leave no trace. -/
namespace Crossbow.Serializer
open Kernel

/-- How a deserialize policy of the given kind is called, as in `Kind.put`. -/
def Kind.get {T : Type} (kind : Kind) (policy : DeserializePolicy T) (ar : Archive) (out : T) :
    Archive × T :=
  match kind with
  | .type => ar.get policy out
  | .members _ => ((policy ar out ar.pos).1, (policy ar out ar.pos).2.1)

variable {T K V : Type}

/-- Reading `bytes` at the cursor yields a value related to `value` and moves past them. -/
def Reads (memory : Memory) (read : Archive → Archive × T) (equal : T → T → Prop)
    (bytes : List UInt8) (value : T) : Prop :=
  ∀ pos, load memory pos bytes.length = bytes →
    ∃ result, read ⟨memory, pos⟩ = (⟨memory, pos + bytes.length⟩, result) ∧ equal result value

/-- What was read into `old` is the value if it absorbs `old`, and with neutral keys only
then. -/
structure Code.EqualIffAbsorbs {kind : Kind} (code : Code kind T) (old result value : T) :
    Prop where
  equal : code.Absorbs value old → code.Equal result value
  absorbs : code.NeutralKeys → code.Equal result value → code.Absorbs value old

theorem Code.EqualIffAbsorbs.of_assigned {kind : Kind} {code : Code kind T}
    {old result value : T} (hequal : code.Equal result value) (habsorbs : code.Absorbs value old) :
    code.EqualIffAbsorbs old result value :=
  ⟨fun _ => hequal, fun _ _ => habsorbs⟩

def Code.ReadsInto {kind : Kind} (memory : Memory) (code : Code kind T) (value old : T) : Prop :=
  Reads memory (fun ar => kind.get (deserializePolicy code) ar old) (code.EqualIffAbsorbs old)
    (code.encode value) value

variable {memory : Memory}

section Primitives

theorem get_of_archive {policy : DeserializePolicy T} {ar after : Archive} {obj out : T}
    (hpolicy : policy ar obj ar.pos = (after, out, after.pos)) :
    ar.get policy obj = (after, out) := by
  unfold Archive.get
  rw [hpolicy]

theorem Reads.imp {read : Archive → Archive × T} {equal equal' : T → T → Prop}
    {bytes : List UInt8} {value : T} (hreads : Reads memory read equal bytes value)
    (himp : ∀ result, equal result value → equal' result value) :
    Reads memory read equal' bytes value := by
  intro pos hload
  obtain ⟨result, hread, hequal⟩ := hreads pos hload
  exact ⟨result, hread, himp result hequal⟩

theorem reads_bool (b old : Bool) :
    Reads memory (fun ar => ar.get deserializeBool old) Eq [if b then 1 else 0] b := by
  intro pos hload
  refine ⟨_, rfl, ?_⟩
  have hbyte : memory pos = if b then 1 else 0 := by
    simpa [load] using hload
  cases b <;> simp [deserializeBool, hbyte]

theorem reads_size {size : Nat} (hsize : size < wordRange) :
    Reads memory (fun ar => ar.get deserializeSize 0) Eq (natLE 8 size) size := by
  intro pos hload
  rw [length_natLE] at hload ⊢
  refine ⟨_, rfl, ?_⟩
  simp only [deserializeSize, hload]
  exact decodeLE_natLE_of_lt hsize

theorem reads_string {text : List UInt8} (hshort : text.length < 2 ^ 32) (old : List UInt8) :
    Reads memory (fun ar => ar.get deserializeString old) Eq (encodeString text) text := by
  intro pos hload
  have hlength : text.length % 2 ^ 32 = text.length := Nat.mod_eq_of_lt hshort
  unfold encodeString at hload ⊢
  rw [hlength, List.take_length] at hload ⊢
  obtain ⟨hleading, htext⟩ := load_eq_append hload
  rw [length_natLE] at hleading htext
  have hdecode : decodeLE (load memory pos 4) = text.length := by
    rw [hleading]
    exact decodeLE_natLE_of_lt hshort
  refine ⟨text, ?_, rfl⟩
  simp only [Archive.get, deserializeString, hdecode, htext, List.length_append, length_natLE,
    Nat.add_assoc]

theorem reads_pod {size : Nat} (value old : Vector UInt8 size) :
    Reads memory (fun ar => ar.get (deserializePolicy (.pod size)) old) Eq value.toList value := by
  intro pos hload
  refine ⟨value, ?_, rfl⟩
  rw [Vector.length_toList] at hload ⊢
  have hbytes : (Vector.ofFn fun index : Fin size => memory (pos + index)) = value := by
    apply Vector.ext
    intro index hindex
    rw [Vector.getElem_ofFn, ← Vector.getElem_toList (by simpa using hindex)]
    simp only [← hload, getElem_load]
  simp only [Archive.get, deserializePolicy, hbytes]

theorem Reads.both {read : Archive → Archive × T} {readNext : Archive → Archive × V}
    {equal : T → T → Prop} {equalNext : V → V → Prop} {bytes bytesNext : List UInt8}
    {value : T} {valueNext : V} (hfirst : Reads memory read equal bytes value)
    (hnext : Reads memory readNext equalNext bytesNext valueNext) :
    Reads memory (fun ar => ((readNext (read ar).1).1, ((read ar).2, (readNext (read ar).1).2)))
      (fun p q => equal p.1 q.1 ∧ equalNext p.2 q.2) (bytes ++ bytesNext)
      (value, valueNext) := by
  intro pos hload
  obtain ⟨hload, hloadNext⟩ := load_eq_append hload
  obtain ⟨result, hread, hequal⟩ := hfirst pos hload
  obtain ⟨resultNext, hreadNext, hequalNext⟩ := hnext _ hloadNext
  refine ⟨(result, resultNext), ?_, hequal, hequalNext⟩
  simp only [hread, hreadNext, List.length_append, Nat.add_assoc]

theorem reads_iterate {Out : Type} {read : Archive → Archive × T} {equal : T → T → Prop}
    {encode : T → List UInt8} (push : Out → T → Out) {items : List T}
    (hread : ∀ item ∈ items, Reads memory read equal (encode item) item) (out : Out) (pos : Nat)
    (hload : load memory pos (items.flatMap encode).length = items.flatMap encode) :
    ∃ results, List.Forall₂ equal results items ∧
      (fun state : Archive × Out =>
          ((read state.1).1, push state.2 (read state.1).2))^[items.length]
          (⟨memory, pos⟩, out) =
        (⟨memory, pos + (items.flatMap encode).length⟩, results.foldl push out) := by
  induction items generalizing out pos with
  | nil => exact ⟨[], .nil, rfl⟩
  | cons item rest ih =>
      rw [List.flatMap_cons] at hload ⊢
      obtain ⟨hitem, hrest⟩ := load_eq_append hload
      obtain ⟨result, hresult, hequal⟩ := hread item (by simp) pos hitem
      obtain ⟨results, hresults, hloop⟩ :=
        ih (fun other hother => hread other (by simp [hother])) (push out result) _ hrest
      refine ⟨result :: results, .cons hequal hresults, ?_⟩
      rw [List.length_cons, Function.iterate_succ_apply]
      simp only [hresult, hloop, List.length_append, Nat.add_assoc, List.foldl_cons]

end Primitives

/-! ### The containers -/

section Containers

theorem forall₂_and {left right : T → T → Prop} {results items : List T}
    (hleft : List.Forall₂ left results items) (hright : List.Forall₂ right results items) :
    List.Forall₂ (fun a b => left a b ∧ right a b) results items :=
  List.forall₂_iff_zip.mpr ⟨hleft.length_eq, fun hpair =>
    ⟨List.forall₂_zip hleft hpair, List.forall₂_zip hright hpair⟩⟩

variable {element : Code .type T}

theorem get_vector {items : List T} (hsize : items.length < wordRange)
    (hread : ∀ item ∈ items, element.ReadsInto memory item element.fresh) (old : List T) (pos : Nat)
    (hload : load memory pos ((Code.vector element).encode items).length =
      (Code.vector element).encode items) :
    ∃ results, List.Forall₂ (element.EqualIffAbsorbs element.fresh) results items ∧
      Archive.get ⟨memory, pos⟩ (deserializePolicy (.vector element)) old =
        (⟨memory, pos + ((Code.vector element).encode items).length⟩, old ++ results) := by
  simp only [Code.encode, encodeItems] at hload ⊢
  obtain ⟨hcount, hentries⟩ := load_eq_append hload
  have hdecode : decodeLE (load memory pos 8) = items.length := by
    rw [length_natLE] at hcount
    rw [hcount]
    exact decodeLE_natLE_of_lt hsize
  obtain ⟨results, hresults, hloop⟩ :=
    reads_iterate (fun out obj => out ++ [obj]) hread old _ hentries
  have hpush : results.foldl (fun out obj => out ++ [obj]) old = old ++ results :=
    foldl_eq_append (fun _ _ _ => rfl) (List.pairwise_of_forall fun _ _ => trivial)
  rw [hpush, length_natLE] at hloop
  refine ⟨results, hresults, ?_⟩
  apply get_of_archive
  rw [List.length_append, length_natLE, ← Nat.add_assoc]
  simp only [deserializePolicy, hdecode]
  exact congrArg (fun state => (state.1, state.2, state.1.pos)) hloop

theorem readsInto_vector {items : List T} (hsize : items.length < wordRange)
    (hread : ∀ item ∈ items, element.ReadsInto memory item element.fresh) (old : List T) :
    (Code.vector element).ReadsInto memory items old := by
  intro pos hload
  obtain ⟨results, hresults, hget⟩ := get_vector hsize hread old pos hload
  refine ⟨_, hget, ?_, ?_⟩
  · rintro ⟨rfl, habsorbs⟩
    exact List.forall₂_iff_zip.mpr ⟨hresults.length_eq, fun hpair =>
      (List.forall₂_zip hresults hpair).equal (habsorbs _ (List.of_mem_zip hpair).2)⟩
  · intro hneutral hequal
    have hlength := List.Forall₂.length_eq hequal
    rw [List.length_append, hresults.length_eq] at hlength
    obtain rfl : old = [] := List.eq_nil_of_length_eq_zero (by omega)
    refine ⟨rfl, fun item hitem => ?_⟩
    obtain ⟨result, _, hfate, hsame⟩ := exists_of_forall₂ (forall₂_and hresults hequal) hitem
    exact hfate.absorbs hneutral hsame

theorem get_optional {value : Option T}
    (hread : ∀ item ∈ value, element.ReadsInto memory item element.fresh) (old : Option T)
    (pos : Nat) (hload : load memory pos ((Code.optional element).encode value).length =
      (Code.optional element).encode value) :
    ∃ decoded, Option.Rel (element.EqualIffAbsorbs element.fresh) decoded value ∧
      Archive.get ⟨memory, pos⟩ (deserializePolicy (.optional element)) old =
        (⟨memory, pos + ((Code.optional element).encode value).length⟩, decoded.or old) := by
  cases value with
  | none =>
      obtain ⟨isSet, hget, rfl⟩ := reads_bool false false pos hload
      refine ⟨none, .none, ?_⟩
      apply get_of_archive
      simp only [deserializePolicy, hget]
      rfl
  | some item =>
      have happend : load memory pos ([1] ++ element.encode item).length =
          [1] ++ element.encode item := hload
      obtain ⟨hflag, helement⟩ := load_eq_append happend
      obtain ⟨isSet, hget, rfl⟩ := reads_bool true false pos hflag
      obtain ⟨result, hresult, hequal⟩ := hread item rfl _ helement
      refine ⟨some result, .some hequal, ?_⟩
      apply get_of_archive
      simp only [deserializePolicy, hget]
      rw [show (Code.encode (.optional element) (some item)).length =
        1 + (element.encode item).length from Nat.add_comm _ 1, ← Nat.add_assoc]
      exact congrArg (fun state => (state.1, some state.2, state.1.pos)) hresult

theorem readsInto_optional {value : Option T}
    (hread : ∀ item ∈ value, element.ReadsInto memory item element.fresh) (old : Option T) :
    (Code.optional element).ReadsInto memory value old := by
  intro pos hload
  obtain ⟨decoded, hdecoded, hget⟩ := get_optional hread old pos hload
  refine ⟨_, hget, ?_⟩
  cases hdecoded with
  | some hfate =>
      refine ⟨fun habsorbs => .some (hfate.equal (habsorbs.2 _ rfl)), ?_⟩
      rintro hneutral ⟨⟩
      refine ⟨by simp, ?_⟩
      rintro _ ⟨⟩
      exact hfate.absorbs hneutral ‹_›
  | none =>
      rw [Option.none_or]
      refine ⟨fun habsorbs => ?_, ?_⟩
      · rw [habsorbs.1 rfl]
        exact .none
      · rintro _ ⟨⟩
        exact ⟨fun _ => rfl, by simp⟩

variable {key : Code .type K} {value : Code .type V} {items old results : List (K × V)}

theorem get_entries (emplace : List (K × V) → K × V → List (K × V))
    (hsize : items.length < wordRange)
    (hread : ∀ item ∈ items, key.ReadsInto memory item.1 key.fresh ∧
      value.ReadsInto memory item.2 value.fresh) (old : List (K × V)) (pos : Nat)
    (hload :
      load memory pos (encodeItems (fun e => key.encode e.1 ++ value.encode e.2) items).length =
      encodeItems (fun e => key.encode e.1 ++ value.encode e.2) items) :
    ∃ results, List.Forall₂ (fun e f => key.EqualIffAbsorbs key.fresh e.1 f.1 ∧
        value.EqualIffAbsorbs value.fresh e.2 f.2) results items ∧
      Archive.get ⟨memory, pos⟩ (deserializeEntries (deserializePolicy key)
          (deserializePolicy value) key.fresh value.fresh emplace) old =
        (⟨memory, pos + (encodeItems (fun e => key.encode e.1 ++ value.encode e.2) items).length⟩,
          results.foldl emplace old) := by
  unfold encodeItems at hload ⊢
  obtain ⟨hcount, hentries⟩ := load_eq_append hload
  obtain ⟨count, hget, rfl⟩ := reads_size hsize pos hcount
  obtain ⟨results, hresults, hloop⟩ := reads_iterate emplace
    (fun item hitem => (hread item hitem).1.both (hread item hitem).2) old _ hentries
  refine ⟨results, hresults, ?_⟩
  rw [List.length_append, ← Nat.add_assoc]
  apply get_of_archive
  simp only [deserializeEntries, hget]
  exact congrArg (fun state => (state.1, state.2, state.1.pos)) hloop

section Entries

variable (hresults : List.Forall₂ (fun e f => key.EqualIffAbsorbs key.fresh e.1 f.1 ∧
  value.EqualIffAbsorbs value.fresh e.2 f.2) results items)
include hresults

theorem keys_of_absorbs (habsorbs : ∀ f ∈ items, key.Absorbs f.1 key.fresh) :
    List.Forall₂ (InvImage key.Equal Prod.fst) results items :=
  List.forall₂_iff_zip.mpr ⟨hresults.length_eq, fun hpair =>
    (List.forall₂_zip hresults hpair).1.equal (habsorbs _ (List.of_mem_zip hpair).2)⟩

theorem decoded_of_absorbs
    (hknown : ∀ e ∈ old, ∃ f ∈ items, key.Equal e.1 f.1 ∧ value.Equal e.2 f.2)
    (habsorbs : ∀ f ∈ items, key.Absorbs f.1 key.fresh ∧ (value.Absorbs f.2 value.fresh ∨
      ∃ e ∈ old, key.Equal e.1 f.1 ∧ value.Equal e.2 f.2)) :
    Decoded key.Equal (fun e f => key.Equal e.1 f.1 ∧ value.Equal e.2 f.2) results items old := by
  refine ⟨keys_of_absorbs hresults fun f hf => (habsorbs f hf).1, ?_, hknown⟩
  intro r f hpair
  obtain ⟨hkey, hvalue⟩ := List.forall₂_zip hresults hpair
  obtain ⟨hkeyAbsorbs, hvalueAbsorbs⟩ := habsorbs f (List.of_mem_zip hpair).2
  exact hvalueAbsorbs.imp (fun hvalueAbsorbs =>
    ⟨hkey.equal hkeyAbsorbs, hvalue.equal hvalueAbsorbs⟩) id

/-- An entry of the value that the table had not is a decoded one, and as no two entries
share a key it is the one decoded for it. -/
theorem absorbs_of_table {table : List (K × V)}
    (hneutral : value.NeutralKeys ∧ ∀ k, key.Absorbs k key.fresh)
    (hdistinct : ∀ f ∈ items, ∀ f' ∈ items, ∀ k, key.Equal k f.1 → key.Equal k f'.1 → f = f')
    (hkept : ∀ e ∈ old, e ∈ table) (horigin : ∀ r ∈ table, r ∈ old ∨ r ∈ results)
    (hsound : ∀ r ∈ table, ∃ f ∈ items, key.Equal r.1 f.1 ∧ value.Equal r.2 f.2)
    (hcomplete : ∀ f ∈ items, ∃ r ∈ table, key.Equal r.1 f.1 ∧ value.Equal r.2 f.2) :
    (∀ e ∈ old, ∃ f ∈ items, key.Equal e.1 f.1 ∧ value.Equal e.2 f.2) ∧
      ∀ f ∈ items, key.Absorbs f.1 key.fresh ∧ (value.Absorbs f.2 value.fresh ∨
        ∃ e ∈ old, key.Equal e.1 f.1 ∧ value.Equal e.2 f.2) := by
  refine ⟨fun e he => hsound e (hkept e he), fun f hf => ⟨hneutral.2 f.1, ?_⟩⟩
  obtain ⟨r, hr, hequal⟩ := hcomplete f hf
  rcases horigin r hr with hold | hnew
  · exact .inr ⟨r, hold, hequal⟩
  · obtain ⟨f', hf', hkey, hvalue⟩ := exists_equal_of_forall₂ hresults hnew
    obtain rfl := hdistinct f hf f' hf' r.1 hequal.1 (hkey.equal (hneutral.2 f'.1))
    exact .inl (hvalue.absorbs hneutral.1 hequal.2)

end Entries

theorem readsInto_map {less : K → K → Bool} (hlawful : (Code.map key value less).Lawful)
    (hvalid : (Code.map key value less).Valid items) (hold : (Code.map key value less).Valid old)
    (hread : ∀ item ∈ items, key.ReadsInto memory item.1 key.fresh ∧
      value.ReadsInto memory item.2 value.fresh) :
    (Code.map key value less).ReadsInto memory items old := by
  intro pos hload
  obtain ⟨_, _, hrespects, hasymm⟩ := hlawful
  obtain ⟨results, hresults, hget⟩ := get_entries (mapEmplace less) hvalid.1 hread old pos hload
  refine ⟨_, hget, ?_, ?_⟩
  · rintro ⟨hknown, habsorbs⟩
    exact foldl_mapEmplace_equal And.left hrespects hasymm
      (decoded_of_absorbs hresults hknown habsorbs) hvalid.2.2 hold.2.2
  · intro hneutral hequal
    refine absorbs_of_table hresults hneutral ?_
      (fun e => mem_foldl_of_step mem_mapEmplace_of_mem results)
      (fun r => mem_of_mem_foldl mem_mapEmplace)
      (fun r => exists_equal_of_forall₂ hequal) (fun f => exists_of_forall₂ hequal)
    intro f hf f' hf' k hkey hkey'
    apply eq_of_pairwise hvalid.2.2 hf hf'
    · rw [← hrespects _ _ _ _ hkey hkey', less_irrefl hasymm]
      simp
    · rw [← hrespects _ _ _ _ hkey' hkey, less_irrefl hasymm]
      simp

theorem readsInto_unorderedMap {same : K → K → Bool}
    {insertEntry : List (K × V) → K × V → List (K × V)}
    (hlawful : (Code.unorderedMap key value same insertEntry).Lawful)
    (hvalid : (Code.unorderedMap key value same insertEntry).Valid items)
    (hold : (Code.unorderedMap key value same insertEntry).Valid old)
    (hread : ∀ item ∈ items, key.ReadsInto memory item.1 key.fresh ∧
      value.ReadsInto memory item.2 value.fresh) :
    (Code.unorderedMap key value same insertEntry).ReadsInto memory items old := by
  intro pos hload
  obtain ⟨_, _, hrespects, hrefl, hsymm, hinsert⟩ := hlawful
  obtain ⟨results, hresults, hget⟩ :=
    get_entries (unorderedEmplace same insertEntry) hvalid.1 hread old pos hload
  refine ⟨_, hget, ?_, ?_⟩
  · rintro ⟨hknown, habsorbs⟩
    exact foldl_unorderedEmplace_equal hinsert And.left hrespects hrefl hsymm
      (decoded_of_absorbs hresults hknown habsorbs) hvalid.2.2 hold.2.2
  · rintro hneutral ⟨order, hperm, hequal⟩
    refine absorbs_of_table hresults hneutral ?_
      (fun e => mem_foldl_of_step (mem_unorderedEmplace_of_mem hinsert) results)
      (fun r => mem_of_mem_foldl (mem_unorderedEmplace hinsert))
      (fun r hr => exists_equal_of_forall₂ hequal (hperm.mem_iff.mp hr)) ?_
    · intro f hf f' hf' k hkey hkey'
      apply eq_of_pairwise hvalid.2.2 hf hf'
      · rw [← hrespects _ _ _ _ hkey hkey', hrefl]
        simp
      · rw [← hrespects _ _ _ _ hkey' hkey, hrefl]
        simp
    · intro f hf
      obtain ⟨r, hr, hsame⟩ := exists_of_forall₂ hequal hf
      exact ⟨r, hperm.mem_iff.mpr hr, hsame⟩

theorem readsInto_multimap {less : K → K → Bool} (hlawful : (Code.multimap key value less).Lawful)
    (hvalid : (Code.multimap key value less).Valid items)
    (hread : ∀ item ∈ items, key.ReadsInto memory item.1 key.fresh ∧
      value.ReadsInto memory item.2 value.fresh) (old : List (K × V)) :
    (Code.multimap key value less).ReadsInto memory items old := by
  intro pos hload
  obtain ⟨_, _, hrespects, _⟩ := hlawful
  obtain ⟨results, hresults, hget⟩ :=
    get_entries (multimapEmplace less) hvalid.1 hread old pos hload
  -- with the right keys the entries are decoded in their order
  have hfold (habsorbs : ∀ f ∈ items, key.Absorbs f.1 key.fresh) :
      results.foldl (multimapEmplace less) [] = results := by
    have hpairs : results.Pairwise fun e f => less f.1 e.1 = false := by
      refine pairwise_of_forall₂ ?_ (keys_of_absorbs hresults habsorbs) hvalid.2.2
      intro e e' f f' he hf hless
      exact (hrespects _ _ _ _ hf he).trans hless
    exact foldl_eq_append multimapEmplace_last hpairs
  refine ⟨_, hget, ?_, ?_⟩
  · rintro ⟨rfl, habsorbs⟩
    rw [hfold fun f hf => (habsorbs f hf).1]
    exact List.forall₂_iff_zip.mpr ⟨hresults.length_eq, fun hpair =>
      ⟨(List.forall₂_zip hresults hpair).1.equal (habsorbs _ (List.of_mem_zip hpair).2).1,
        (List.forall₂_zip hresults hpair).2.equal (habsorbs _ (List.of_mem_zip hpair).2).2⟩⟩
  · intro hneutral hequal
    have hlength := List.Forall₂.length_eq hequal
    rw [length_foldl_multimapEmplace, hresults.length_eq] at hlength
    obtain rfl : old = [] := List.eq_nil_of_length_eq_zero (by omega)
    rw [hfold fun f _ => hneutral.2 f.1] at hequal
    refine ⟨rfl, fun f hf => ⟨hneutral.2 f.1, ?_⟩⟩
    obtain ⟨r, _, hfate, hsame⟩ := exists_of_forall₂ (forall₂_and hresults hequal) hf
    exact hfate.2.absorbs hneutral.1 hsame.2

end Containers

/-- Only pairs, tuples and members pass the object on; the containers read into default
elements. -/
theorem readsInto_policy {kind : Kind} (code : Code kind T) (hlawful : code.Lawful)
    {value old : T} (hvalid : code.Valid value) (hshort : code.Short value)
    (hold : code.Valid old) : code.ReadsInto memory value old := by
  induction code with
  | pod size => exact (reads_pod value old).imp fun _ hequal => .of_assigned hequal trivial
  | bool => exact (reads_bool value old).imp fun _ hequal => .of_assigned hequal trivial
  | stdString | crossbowString =>
      exact (reads_string hshort old).imp fun _ hequal => .of_assigned hequal trivial
  | pair first second hfirst hsecond =>
      intro pos hload
      obtain ⟨result, hread, hfate⟩ :=
        Reads.both (hfirst hlawful.1 hvalid.1 hshort.1 hold.1)
          (hsecond hlawful.2 hvalid.2 hshort.2 hold.2) pos hload
      refine ⟨result, ?_, fun habsorbs => ⟨hfate.1.equal habsorbs.1, hfate.2.equal habsorbs.2⟩,
        fun hneutral hequal => ⟨hfate.1.absorbs hneutral.1 hequal.1,
          hfate.2.absorbs hneutral.2 hequal.2⟩⟩
      apply get_of_archive
      exact congrArg (fun state => (state.1, state.2, state.1.pos)) hread
  | tuple members ih =>
      intro pos hload
      obtain ⟨result, hread, hfate⟩ := ih hlawful hvalid hshort hold pos hload
      refine ⟨result, ?_, hfate.equal, hfate.absorbs⟩
      apply get_of_archive
      exact congrArg (fun state => (state.1, state.2, state.1.pos)) hread
  | user split initial members ih =>
      intro pos hload
      obtain ⟨result, hread, hfate⟩ := ih hlawful.1 hvalid hshort hold pos hload
      refine ⟨split.symm result, ?_, ?_, ?_⟩
      · apply get_of_archive
        exact congrArg (fun state => (state.1, split.symm state.2, state.1.pos)) hread
      · simp only [Code.Equal, split.apply_symm_apply]
        exact hfate.equal
      · simp only [Code.Equal, split.apply_symm_apply]
        exact hfate.absorbs
  | vector element ih =>
      exact readsInto_vector hvalid.1 (fun item hitem => ih hlawful (hvalid.2 item hitem)
        (hshort item hitem) (fresh_valid element hlawful)) old
  | optional element ih =>
      exact readsInto_optional (fun item hitem => ih hlawful (hvalid item hitem)
        (hshort item hitem) (fresh_valid element hlawful)) old
  | map key mapped less hkey hmapped =>
      exact readsInto_map hlawful hvalid hold fun item hitem =>
        ⟨hkey hlawful.1 (hvalid.2.1 item hitem).1 (hshort item hitem).1 (fresh_valid key hlawful.1),
          hmapped hlawful.2.1 (hvalid.2.1 item hitem).2 (hshort item hitem).2
            (fresh_valid mapped hlawful.2.1)⟩
  | multimap key mapped less hkey hmapped =>
      exact readsInto_multimap hlawful hvalid (fun item hitem =>
        ⟨hkey hlawful.1 (hvalid.2.1 item hitem).1 (hshort item hitem).1 (fresh_valid key hlawful.1),
          hmapped hlawful.2.1 (hvalid.2.1 item hitem).2 (hshort item hitem).2
            (fresh_valid mapped hlawful.2.1)⟩) old
  | unorderedMap key mapped same insertEntry hkey hmapped =>
      exact readsInto_unorderedMap hlawful hvalid hold fun item hitem =>
        ⟨hkey hlawful.1 (hvalid.2.1 item hitem).1 (hshort item hitem).1 (fresh_valid key hlawful.1),
          hmapped hlawful.2.1 (hvalid.2.1 item hitem).2 (hshort item hitem).2
            (fresh_valid mapped hlawful.2.1)⟩
  | noMembers =>
      intro pos _
      exact ⟨(), rfl, fun _ => rfl, fun _ _ => trivial⟩
  | snoc init last hinit hlast =>
      refine (Reads.both (hinit hlawful.1 hvalid.1 hshort.1 hold.1)
        (hlast hlawful.2 hvalid.2 hshort.2 hold.2)).imp ?_
      intro result hfate
      exact ⟨fun habsorbs => ⟨hfate.1.equal habsorbs.1, hfate.2.equal habsorbs.2⟩,
        fun hneutral hequal => ⟨hfate.1.absorbs hneutral.1 hequal.1,
          hfate.2.absorbs hneutral.2 hequal.2⟩⟩

theorem deserialize_encode (code : Code .type T) (hlawful : code.Lawful) {value old : T}
    (hvalid : code.Valid value) (hshort : code.Short value) (hold : code.Valid old) {start : Nat}
    (hload : load memory start (code.encode value).length = code.encode value) :
    ∃ result, deserialize code old memory start =
        (result, start + (code.encode value).length) ∧ code.EqualIffAbsorbs old result value := by
  obtain ⟨result, hread, hfate⟩ := readsInto_policy code hlawful hvalid hshort hold start hload
  refine ⟨result, ?_, hfate⟩
  unfold deserialize
  exact congrArg (fun state => (state.2, state.1.pos)) hread

/-- Deserializing the written bytes, wherever they have been copied and whatever follows
them, into a default object consumes exactly them. It gives an equal value if the default
objects it reads into leave no trace, and if the keys are neutral only then. -/
theorem round_trip (code : Code .type T) (hlawful : code.Lawful) (value : T)
    (hvalid : code.Valid value) (hshort : code.Short value) (source memory : Memory)
    (buffer start : Nat)
    (hcopy : load memory start ((serialize code value source buffer).2.pos - buffer) =
      load (serialize code value source buffer).2.memory buffer
        ((serialize code value source buffer).2.pos - buffer)) :
    ∃ result, deserialize code code.fresh memory start =
        (result, start + ((serialize code value source buffer).2.pos - buffer)) ∧
      (code.Absorbs value code.fresh → code.Equal result value) ∧
      (code.NeutralKeys → code.Equal result value → code.Absorbs value code.fresh) := by
  simp only [serialize_archive, Archive.append, Nat.add_sub_cancel_left, load_store] at hcopy ⊢
  obtain ⟨result, hread, hfate⟩ :=
    deserialize_encode code hlawful hvalid hshort (fresh_valid code hlawful) hcopy
  exact ⟨result, hread, hfate.equal, hfate.absorbs⟩

/-- A user type with a vector and an optional, whose default constructor fills them with
`initial`. -/
structure Preset where
  values : List (Vector UInt8 1)
  limit : Option (Vector UInt8 1)
  deriving DecidableEq

def Preset.split : Preset ≃ (Unit × List (Vector UInt8 1)) × Option (Vector UInt8 1) where
  toFun preset := (((), preset.values), preset.limit)
  invFun members := ⟨members.1.2, members.2⟩
  left_inv _ := rfl
  right_inv _ := rfl

def presetCode (initial : Preset) : Code .type Preset :=
  .user Preset.split initial (.snoc (.snoc .noMembers (.vector (.pod 1))) (.optional (.pod 1)))

theorem presetCode_lawful {initial : Preset} (hsize : initial.values.length < wordRange) :
    (presetCode initial).Lawful :=
  ⟨⟨⟨trivial, trivial⟩, trivial⟩, ⟨trivial, hsize, fun _ _ => trivial⟩, fun _ _ => trivial⟩

theorem presetCode_valid {initial preset : Preset} (hsize : preset.values.length < wordRange) :
    (presetCode initial).Valid preset :=
  ⟨⟨trivial, hsize, fun _ _ => trivial⟩, fun _ _ => trivial⟩

theorem presetCode_short (initial preset : Preset) : (presetCode initial).Short preset :=
  ⟨⟨trivial, fun _ _ => trivial⟩, fun _ _ => trivial⟩

/-- Only the optional is filled by default, and the value sets it. -/
theorem round_trip_preset :
    ∃ result, deserialize (presetCode ⟨[], some #v[5]⟩) ⟨[], some #v[5]⟩
        (serialize (presetCode ⟨[], some #v[5]⟩) ⟨[#v[3]], some #v[7]⟩ (fun _ => 0) 16).2.memory
        16 = (result, 27) ∧
      (presetCode ⟨[], some #v[5]⟩).Equal result ⟨[#v[3]], some #v[7]⟩ := by
  have hlength : 16 + ((serialize (presetCode ⟨[], some #v[5]⟩) ⟨[#v[3]], some #v[7]⟩
      (fun _ => 0) 16).2.pos - 16) = 27 := by
    decide
  rw [← hlength]
  obtain ⟨result, hread, hequal, _⟩ := round_trip (presetCode ⟨[], some #v[5]⟩)
    (presetCode_lawful (by decide)) ⟨[#v[3]], some #v[7]⟩ (presetCode_valid (by decide))
    (presetCode_short _ _) (fun _ => 0) _ 16 16 rfl
  refine ⟨result, hread, hequal ?_⟩
  simp [presetCode, Preset.split, Code.Absorbs, Code.fresh]

/-- The elements of the default vector stay in front of the decoded one, and the optional
that the value leaves unset stays set. -/
theorem default_members_stay :
    deserialize (presetCode ⟨[#v[1], #v[2]], some #v[5]⟩)
        (presetCode ⟨[#v[1], #v[2]], some #v[5]⟩).fresh
        (serialize (presetCode ⟨[#v[1], #v[2]], some #v[5]⟩) ⟨[#v[3]], none⟩ (fun _ => 0)
          16).2.memory 16 =
      (⟨[#v[1], #v[2], #v[3]], some #v[5]⟩, 26) := by
  decide

end Crossbow.Serializer
