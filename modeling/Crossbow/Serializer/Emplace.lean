import Crossbow.Serializer.Values
import Mathlib.Data.List.Pairwise

/-! Emplacing decoded entries one after the other, in the order in which the container
they come from had them. Into an empty container this builds that container. A container
that holds something keeps it. -/
namespace Crossbow.Serializer

variable {T K V : Type}

theorem foldl_eq_append {El : Type} {step : List El → El → List El} {behind : El → El → Prop}
    (hstep : ∀ before entry, (∀ head ∈ before, behind head entry) →
      step before entry = before ++ [entry]) {entries before : List El}
    (hpairs : (before ++ entries).Pairwise behind) :
    entries.foldl step before = before ++ entries := by
  induction entries generalizing before with
  | nil => simp
  | cons entry rest ih =>
      have hlast : ∀ head ∈ before, behind head entry := by
        intro head hhead
        exact (List.pairwise_append.mp hpairs).2.2 head hhead entry (by simp)
      rw [List.foldl_cons, hstep before entry hlast, ih (by simpa using hpairs),
        List.append_assoc]
      rfl

theorem multimapEmplace_last {less : K → K → Bool} (before : List (K × V)) (entry : K × V)
    (hlast : ∀ head ∈ before, less entry.1 head.1 = false) :
    multimapEmplace less before entry = before ++ [entry] := by
  induction before with
  | nil => rfl
  | cons head tail ih =>
      rw [multimapEmplace, if_neg (Bool.eq_false_iff.mp (hlast head (by simp))),
        ih fun other hother => hlast other (by simp [hother])]
      rfl

section Respects

variable {equal ordered : T → T → Prop}
  (hrespects : ∀ a a' b b', equal a a' → equal b b' → ordered a' b' → ordered a b)
include hrespects

theorem ordered_of_forall₂ {result item : T} {results items : List T} (hhead : equal result item)
    (htail : List.Forall₂ equal results items) (hfirst : ∀ other ∈ items, ordered item other) :
    ∀ other ∈ results, ordered result other := by
  intro other hother
  obtain ⟨original, horiginal, hequal⟩ := exists_equal_of_forall₂ htail hother
  exact hrespects _ _ _ _ hhead hequal (hfirst original horiginal)

theorem pairwise_of_forall₂ {results items : List T} (hequal : List.Forall₂ equal results items)
    (hitems : items.Pairwise ordered) : results.Pairwise ordered := by
  induction hequal with
  | nil => exact List.Pairwise.nil
  | cons hhead htail ih =>
      obtain ⟨hfirst, hrest⟩ := List.pairwise_cons.mp hitems
      exact .cons (ordered_of_forall₂ hrespects hhead htail hfirst) (ih hrest)

end Respects

theorem eq_of_pairwise {ordered : T → T → Prop} {items : List T} (hitems : items.Pairwise ordered)
    {left right : T} (hleft : left ∈ items) (hright : right ∈ items)
    (hnot : ¬ ordered left right) (hnot' : ¬ ordered right left) : left = right := by
  by_contra hne
  have : Std.Symm fun a b => ordered a b ∨ ordered b a := ⟨fun _ _ => Or.symm⟩
  have hsymm : items.Pairwise fun a b => ordered a b ∨ ordered b a := hitems.imp .inl
  rcases hsymm.forall hleft hright hne with hless | hless
  · exact hnot hless
  · exact hnot' hless

/-! ### Where the entries come from -/

section Origin

variable {less : K → K → Bool}

theorem mem_mapEmplace {entries : List (K × V)} {entry item : K × V}
    (hitem : item ∈ mapEmplace less entries entry) : item = entry ∨ item ∈ entries := by
  induction entries with
  | nil => exact .inl (List.mem_singleton.mp hitem)
  | cons head rest ih =>
      rw [mapEmplace] at hitem
      split at hitem
      · rcases List.mem_cons.mp hitem with rfl | hrest
        · exact .inr List.mem_cons_self
        · exact (ih hrest).imp id (List.mem_cons_of_mem head)
      · split at hitem
        · exact List.mem_cons.mp hitem
        · exact .inr hitem

theorem mem_multimapEmplace {entries : List (K × V)} {entry item : K × V}
    (hitem : item ∈ multimapEmplace less entries entry) : item = entry ∨ item ∈ entries := by
  induction entries with
  | nil => exact .inl (List.mem_singleton.mp hitem)
  | cons head rest ih =>
      rw [multimapEmplace] at hitem
      split at hitem
      · exact List.mem_cons.mp hitem
      · rcases List.mem_cons.mp hitem with rfl | hrest
        · exact .inr List.mem_cons_self
        · exact (ih hrest).imp id (List.mem_cons_of_mem head)

theorem mem_mapEmplace_of_mem (table : List (K × V)) (entry : K × V) :
    ∀ item ∈ table, item ∈ mapEmplace less table entry := by
  induction table with
  | nil => simp
  | cons head rest ih =>
      intro item hitem
      rw [mapEmplace]
      split
      · rcases List.mem_cons.mp hitem with rfl | hrest
        · exact List.mem_cons_self
        · exact List.mem_cons_of_mem head (ih item hrest)
      · split
        · exact List.mem_cons_of_mem entry hitem
        · exact hitem

section Insert

variable {same : K → K → Bool} {insertEntry : List (K × V) → K × V → List (K × V)}
  (hinsert : ∀ entries entry, (insertEntry entries entry).Perm (entry :: entries))
include hinsert

theorem mem_unorderedEmplace {entries : List (K × V)} {entry item : K × V}
    (hitem : item ∈ unorderedEmplace same insertEntry entries entry) :
    item = entry ∨ item ∈ entries := by
  unfold unorderedEmplace at hitem
  split at hitem
  · exact .inr hitem
  · exact List.mem_cons.mp ((hinsert entries entry).mem_iff.mp hitem)

theorem mem_unorderedEmplace_of_mem (table : List (K × V)) (entry : K × V) :
    ∀ item ∈ table, item ∈ unorderedEmplace same insertEntry table entry := by
  intro item hitem
  unfold unorderedEmplace
  split
  · exact hitem
  · exact (hinsert table entry).mem_iff.mpr (List.mem_cons_of_mem entry hitem)

end Insert

theorem mem_foldl_of_step {El : Type} {step : List El → El → List El}
    (hstep : ∀ table entry, ∀ item ∈ table, item ∈ step table entry) (entries : List El)
    {table : List El} {item : El} (hitem : item ∈ table) : item ∈ entries.foldl step table := by
  induction entries generalizing table with
  | nil => exact hitem
  | cons entry rest ih => exact ih (hstep table entry item hitem)

theorem mem_of_mem_foldl {El : Type} {step : List El → El → List El}
    (hstep : ∀ {table entry item}, item ∈ step table entry → item = entry ∨ item ∈ table)
    {entries table : List El} {item : El} (hitem : item ∈ entries.foldl step table) :
    item ∈ table ∨ item ∈ entries := by
  induction entries generalizing table with
  | nil => exact .inl hitem
  | cons entry rest ih =>
      rcases ih hitem with hstepped | hrest
      · rcases hstep hstepped with rfl | hold
        · exact .inr List.mem_cons_self
        · exact .inl hold
      · exact .inr (List.mem_cons_of_mem entry hrest)

theorem length_foldl_multimapEmplace (entries table : List (K × V)) :
    (entries.foldl (multimapEmplace less) table).length = table.length + entries.length := by
  have hstep (table : List (K × V)) (entry : K × V) :
      (multimapEmplace less table entry).length = table.length + 1 := by
    induction table with
    | nil => rfl
    | cons head rest ih =>
        rw [multimapEmplace]
        split
        · rfl
        · rw [List.length_cons, ih, List.length_cons]
  induction entries generalizing table with
  | nil => rfl
  | cons entry rest ih =>
      rw [List.foldl_cons, ih, hstep, List.length_cons]
      omega

end Origin

/-! ### Merging -/

section Merge

/-- `results` are the decoded entries. Their keys are right, and so are the values, except
those of entries that the container has already. -/
structure Decoded (equalKey : K → K → Prop) (equal : K × V → K × V → Prop)
    (results items old : List (K × V)) : Prop where
  keys : List.Forall₂ (InvImage equalKey Prod.fst) results items
  values : ∀ r f, (r, f) ∈ results.zip items → equal r f ∨ ∃ e ∈ old, equal e f
  known : ∀ e ∈ old, ∃ f ∈ items, equal e f

variable {equalKey : K → K → Prop} {equal : K × V → K × V → Prop}
  {result item : K × V} {results items old rest : List (K × V)}

theorem Decoded.tail (hdecoded : Decoded equalKey equal (result :: results) (item :: items) old)
    (hrest : ∀ e ∈ rest, e ∈ old) (hnot : ∀ e ∈ rest, ¬ equal e item)
    (hgone : ∀ e ∈ old, ∀ f ∈ items, equal e f → e ∈ rest) :
    Decoded equalKey equal results items rest := by
  refine ⟨(List.forall₂_cons.mp hdecoded.keys).2, ?_, ?_⟩
  · intro r f hpair
    rcases hdecoded.values r f (List.mem_cons_of_mem _ hpair) with hequal | ⟨e, he, hequal⟩
    · exact .inl hequal
    · exact .inr ⟨e, hgone e he f (List.of_mem_zip hpair).2 hequal, hequal⟩
  · intro e he
    obtain ⟨f, hf, hequal⟩ := hdecoded.known e (hrest e he)
    rcases List.mem_cons.mp hf with rfl | hf
    · exact absurd hequal (hnot e he)
    · exact ⟨f, hf, hequal⟩

theorem Decoded.head (hdecoded : Decoded equalKey equal (result :: results) (item :: items) old)
    (hnot : ∀ e ∈ old, ¬ equal e item) : equal result item := by
  rcases hdecoded.values result item List.mem_cons_self with hequal | ⟨e, he, hequal⟩
  · exact hequal
  · exact absurd hequal (hnot e he)

theorem Decoded.nil (hdecoded : Decoded equalKey equal results [] old) :
    results = [] ∧ old = [] := by
  refine ⟨List.forall₂_nil_right_iff.mp hdecoded.keys, ?_⟩
  cases old with
  | nil => rfl
  | cons head _ =>
      obtain ⟨f, hf, _⟩ := hdecoded.known head List.mem_cons_self
      cases hf

section Ordered

variable {less : K → K → Bool}

theorem foldl_mapEmplace_cons {head : K × V} (entries table : List (K × V))
    (hless : ∀ entry ∈ entries, less head.1 entry.1 = true) :
    entries.foldl (mapEmplace less) (head :: table) =
      head :: entries.foldl (mapEmplace less) table := by
  induction entries generalizing table with
  | nil => rfl
  | cons entry rest ih =>
      rw [List.foldl_cons, mapEmplace, if_pos (hless entry (by simp)),
        ih _ fun other hother => hless other (by simp [hother])]
      rfl

theorem mapEmplace_known {head entry : K × V} (rest : List (K × V))
    (hhead : less head.1 entry.1 = false) (hentry : less entry.1 head.1 = false) :
    mapEmplace less (head :: rest) entry = head :: rest := by
  rw [mapEmplace, hhead, hentry]
  rfl

theorem mapEmplace_front {head entry : K × V} (rest : List (K × V))
    (hhead : less head.1 entry.1 = false) (hentry : less entry.1 head.1 = true) :
    mapEmplace less (head :: rest) entry = entry :: head :: rest := by
  rw [mapEmplace, hhead, hentry]
  rfl

theorem less_irrefl (hasymm : ∀ a b, less a b = true → less b a = false) (a : K) :
    less a a = false := by
  cases hself : less a a with
  | false => rfl
  | true => exact hself.symm.trans (hasymm a a hself)

theorem foldl_mapEmplace_equal (hkey : ∀ {e f}, equal e f → equalKey e.1 f.1)
    (hrespects : ∀ a a' b b', equalKey a a' → equalKey b b' → less a b = less a' b')
    (hasymm : ∀ a b, less a b = true → less b a = false)
    (hdecoded : Decoded equalKey equal results items old)
    (hitems : items.Pairwise fun e f => less e.1 f.1 = true)
    (hold : old.Pairwise fun e f => less e.1 f.1 = true) :
    List.Forall₂ equal (results.foldl (mapEmplace less) old) items := by
  have hirrefl := less_irrefl hasymm
  induction items generalizing results old with
  | nil =>
      obtain ⟨rfl, rfl⟩ := hdecoded.nil
      exact .nil
  | cons item items ih =>
      cases results with
      | nil => cases hdecoded.keys
      | cons result results =>
      obtain ⟨hhead, htail⟩ := List.forall₂_cons.mp hdecoded.keys
      obtain ⟨hfirst, hrest⟩ := List.pairwise_cons.mp hitems
      -- what has the key of the first item is in front of the other decoded entries
      have hfront (e : K × V) (he : equalKey e.1 item.1) :
          ∀ other ∈ results, less e.1 other.1 = true :=
        @ordered_of_forall₂ _ (InvImage equalKey Prod.fst) _
          (fun _ _ _ _ he hf hless => (hrespects _ _ _ _ he hf).trans hless) _ _ _ _ he htail hfirst
      -- nothing equals the first item and a later one
      have hapart {e f : K × V} (he : equal e item) (hf : f ∈ items) : ¬ equal e f := by
        intro hequal
        have hself := hrespects _ _ _ _ (hkey he) (hkey hequal)
        rw [hirrefl, hfirst f hf] at hself
        cases hself
      rw [List.foldl_cons]
      cases old with
      | nil =>
          have hequal := hdecoded.head (by simp)
          rw [mapEmplace, foldl_mapEmplace_cons _ _ (hfront result hhead)]
          exact .cons hequal (ih (hdecoded.tail (by simp) (by simp) (by simp)) hrest .nil)
      | cons head rest =>
          obtain ⟨hless, hrestOld⟩ := List.pairwise_cons.mp hold
          obtain ⟨f, hf, hequal⟩ := hdecoded.known head List.mem_cons_self
          rcases List.mem_cons.mp hf with rfl | hf
          · rw [mapEmplace_known rest (by rw [hrespects _ _ _ _ (hkey hequal) hhead, hirrefl])
                (by rw [hrespects _ _ _ _ hhead (hkey hequal), hirrefl]),
              foldl_mapEmplace_cons _ _ (hfront head (hkey hequal))]
            refine .cons hequal (ih (hdecoded.tail (fun e he => List.mem_cons_of_mem _ he)
              (fun e he hsame => ?_) fun e he f hf hsame => ?_) hrest hrestOld)
            · have hbehind := hless e he
              rw [hrespects _ _ _ _ (hkey hequal) (hkey hsame), hirrefl] at hbehind
              cases hbehind
            · rcases List.mem_cons.mp he with rfl | he
              · exact absurd hsame (hapart hequal hf)
              · exact he
          · -- the first item is missing, so it is in front of everything that is there
            have hitem : less item.1 f.1 = true := hfirst f hf
            have hmissing : ∀ e ∈ head :: rest, ¬ equal e item := by
              intro e he hsame
              rcases List.mem_cons.mp he with rfl | he
              · exact hapart hsame hf hequal
              · have hbehind := hless e he
                rw [hrespects _ _ _ _ (hkey hequal) (hkey hsame), hasymm _ _ hitem] at hbehind
                cases hbehind
            rw [mapEmplace_front rest
                (by rw [hrespects _ _ _ _ (hkey hequal) hhead, hasymm _ _ hitem])
                (by rw [hrespects _ _ _ _ hhead (hkey hequal), hitem]),
              foldl_mapEmplace_cons _ _ (hfront result hhead)]
            exact .cons (hdecoded.head hmissing) (ih (hdecoded.tail (fun _ he => he) hmissing
              fun _ he _ _ _ => he) hrest hold)

end Ordered

section Unordered

variable {same : K → K → Bool} {insertEntry : List (K × V) → K × V → List (K × V)}

theorem unorderedEmplace_known {table : List (K × V)} {old entry : K × V} (hold : old ∈ table)
    (hsame : same old.1 entry.1 = true) :
    unorderedEmplace same insertEntry table entry = table := by
  unfold unorderedEmplace
  rw [if_pos (List.any_eq_true.mpr ⟨old, hold, hsame⟩)]

section Insert

variable (hinsert : ∀ entries entry, (insertEntry entries entry).Perm (entry :: entries))
include hinsert

theorem unorderedEmplace_new {table : List (K × V)} {entry : K × V}
    (hnew : ∀ old ∈ table, same old.1 entry.1 = false) :
    (unorderedEmplace same insertEntry table entry).Perm (entry :: table) := by
  unfold unorderedEmplace
  rw [if_neg]
  · exact hinsert table entry
  · intro hany
    obtain ⟨old, hold, hsame⟩ := List.any_eq_true.mp hany
    rw [hnew old hold] at hsame
    cases hsame

theorem unorderedEmplace_perm {left right : List (K × V)} (hperm : left.Perm right)
    (entry : K × V) :
    (unorderedEmplace same insertEntry left entry).Perm
      (unorderedEmplace same insertEntry right entry) := by
  unfold unorderedEmplace
  rw [hperm.any_eq]
  split
  · exact hperm
  · exact (hinsert left entry).trans ((hperm.cons entry).trans (hinsert right entry).symm)

theorem foldl_unorderedEmplace_perm {left right : List (K × V)} (hperm : left.Perm right)
    (entries : List (K × V)) :
    (entries.foldl (unorderedEmplace same insertEntry) left).Perm
      (entries.foldl (unorderedEmplace same insertEntry) right) := by
  induction entries generalizing left right with
  | nil => exact hperm
  | cons entry rest ih => exact ih (unorderedEmplace_perm hinsert hperm entry)

theorem unorderedEmplace_cons {head entry : K × V} (hne : same head.1 entry.1 = false)
    (table : List (K × V)) :
    (unorderedEmplace same insertEntry (head :: table) entry).Perm
      (head :: unorderedEmplace same insertEntry table entry) := by
  unfold unorderedEmplace
  rw [List.any_cons, hne, Bool.false_or]
  split
  · exact .refl _
  · have hswap : (entry :: head :: table).Perm (head :: entry :: table) := .swap head entry table
    exact (hinsert _ _).trans (hswap.trans ((hinsert table entry).symm.cons head))

theorem foldl_unorderedEmplace_cons {head : K × V} (entries table : List (K × V))
    (hne : ∀ entry ∈ entries, same head.1 entry.1 = false) :
    (entries.foldl (unorderedEmplace same insertEntry) (head :: table)).Perm
      (head :: entries.foldl (unorderedEmplace same insertEntry) table) := by
  induction entries generalizing table with
  | nil => exact .refl _
  | cons entry rest ih =>
      have hstep := unorderedEmplace_cons hinsert (hne entry (by simp)) table
      exact (foldl_unorderedEmplace_perm hinsert hstep rest).trans
        (ih _ fun other hother => hne other (by simp [hother]))

theorem foldl_unorderedEmplace_equal (hkey : ∀ {e f}, equal e f → equalKey e.1 f.1)
    (hrespects : ∀ a a' b b', equalKey a a' → equalKey b b' → same a b = same a' b')
    (hrefl : ∀ a, same a a = true) (hsymm : ∀ a b, same a b = same b a)
    (hdecoded : Decoded equalKey equal results items old)
    (hitems : items.Pairwise fun e f => same e.1 f.1 = false)
    (hold : old.Pairwise fun e f => same e.1 f.1 = false) :
    ∃ order, (results.foldl (unorderedEmplace same insertEntry) old).Perm order ∧
      List.Forall₂ equal order items := by
  induction items generalizing results old with
  | nil =>
      obtain ⟨rfl, rfl⟩ := hdecoded.nil
      exact ⟨[], .nil, .nil⟩
  | cons item items ih =>
      cases results with
      | nil => cases hdecoded.keys
      | cons result results =>
      obtain ⟨hhead, htail⟩ := List.forall₂_cons.mp hdecoded.keys
      obtain ⟨hfirst, hrest⟩ := List.pairwise_cons.mp hitems
      have hother (e : K × V) (he : equalKey e.1 item.1) :
          ∀ other ∈ results, same e.1 other.1 = false :=
        @ordered_of_forall₂ _ (InvImage equalKey Prod.fst) _
          (fun _ _ _ _ he hf hne => (hrespects _ _ _ _ he hf).trans hne) _ _ _ _ he htail hfirst
      rw [List.foldl_cons]
      by_cases hthere : ∃ head ∈ old, equal head item
      · obtain ⟨head, hmem, hequal⟩ := hthere
        rw [unorderedEmplace_known hmem (by rw [hrespects _ _ _ _ (hkey hequal) hhead, hrefl])]
        obtain ⟨before, after, rfl⟩ := List.append_of_mem hmem
        have hmove : (before ++ head :: after).Perm (head :: (before ++ after)) := List.perm_middle
        obtain ⟨hdistinct, hrestOld⟩ := List.pairwise_cons.mp
          (hmove.pairwise hold fun {e f} hne => (hsymm f.1 e.1).trans hne)
        obtain ⟨order, hperm, horder⟩ := ih (hdecoded.tail
          (fun e he => hmove.mem_iff.mpr (List.mem_cons_of_mem _ he))
          (fun e he hsame => by
            have hne := hdistinct e he
            rw [hrespects _ _ _ _ (hkey hequal) (hkey hsame), hrefl] at hne
            cases hne)
          fun e he f hf hsame => by
            rcases List.mem_cons.mp (hmove.mem_iff.mp he) with rfl | he
            · have hne := hfirst f hf
              rw [← hrespects _ _ _ _ (hkey hequal) (hkey hsame), hrefl] at hne
              cases hne
            · exact he) hrest hrestOld
        refine ⟨head :: order, ?_, .cons hequal horder⟩
        exact (foldl_unorderedEmplace_perm hinsert hmove results).trans
          ((foldl_unorderedEmplace_cons hinsert _ _ (hother head (hkey hequal))).trans
            (hperm.cons head))
      · have hmissing : ∀ e ∈ old, ¬ equal e item := fun e he hsame => hthere ⟨e, he, hsame⟩
        have hrestDecoded : Decoded equalKey equal results items old :=
          hdecoded.tail (fun _ he => he) hmissing fun _ he _ _ _ => he
        have hnew : (unorderedEmplace same insertEntry old result).Perm (result :: old) := by
          apply unorderedEmplace_new hinsert
          intro e he
          obtain ⟨f, hf, hequal⟩ := hrestDecoded.known e he
          rw [hrespects _ _ _ _ (hkey hequal) hhead, hsymm]
          exact hfirst f hf
        obtain ⟨order, hperm, horder⟩ := ih hrestDecoded hrest hold
        refine ⟨result :: order, ?_, .cons (hdecoded.head hmissing) horder⟩
        exact (foldl_unorderedEmplace_perm hinsert hnew results).trans
          ((foldl_unorderedEmplace_cons hinsert _ _ (hother result hhead)).trans
            (hperm.cons result))

end Insert

end Unordered

end Merge

end Crossbow.Serializer
