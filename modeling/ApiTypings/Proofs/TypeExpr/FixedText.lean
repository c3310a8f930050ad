/-
# Types that their texts give back

A type whose text is read as the same type has firm terms only.  The bars of a text are counted for
this, whether they cut or not: reading and writing adds none.  So the alternatives of such a text,
read and written, are the spellings of the type and nothing else, each of them once.  Then no
closing bracket was added to any of them, and the spellings were kept together.

* `places_respelled_le` : reading and writing a term adds no bar;
* `perm_respelled_of_same` : what is read from the text of such a type;
* `parse_render_iff` : when the text of a type is read as the same type.
-/
import ApiTypings.Proofs.TypeExpr.OpenText

namespace ApiTypings

namespace TypeExpr

/-! ## Bars -/

/-- The number of places between the bars of a text. -/
def places (cs : List Char) : Nat := cs.count '|' + 1

theorem places_pos (cs : List Char) : 0 < places cs := Nat.succ_pos _

theorem count_bar_trim (cs : List Char) : (Text.trim cs).count '|' = cs.count '|' := by
  obtain ⟨before, after, hbefore, hafter, heq⟩ := Text.exists_blanks cs
  conv_rhs => rw [heq]
  rw [List.count_append, List.count_append,
    List.count_eq_zero_of_not_mem (bar_not_mem_of_blank hbefore),
    List.count_eq_zero_of_not_mem (bar_not_mem_of_blank hafter), Nat.zero_add, Nat.add_zero]

/-- Texts joined by bars have the places of all of them. -/
theorem count_bar_intercalate (ps : List (List Char)) :
    (['|'].intercalate ps).count '|' = (ps.map places).sum - 1 := by
  induction ps with
  | nil => rfl
  | cons p ps ih =>
    cases ps with
    | nil => simp [places]
    | cons q ps =>
      have hrest : (['|'].intercalate (q :: ps)).count '|' + 1 = ((q :: ps).map places).sum := by
        rw [ih, List.map_cons, List.sum_cons]
        have := places_pos q
        omega
      rw [List.map_cons, List.sum_cons, ← hrest, List.intercalate_cons_cons, List.append_assoc,
        List.singleton_append, List.count_append, List.count_cons_self, places]
      omega

/-- A cut keeps all places. -/
theorem sum_places_cutAtBars (depth : Nat) (cs : List Char) :
    ((cutAtBars depth cs).map places).sum = places cs := by
  have hcount := count_bar_intercalate (cutAtBars depth cs)
  obtain ⟨p, ps, hcut⟩ := List.exists_cons_of_ne_nil (cutAtBars_ne_nil depth cs)
  have hpos := places_pos p
  rw [intercalate_cutAtBars] at hcount
  rw [places, hcount, hcut, List.map_cons, List.sum_cons]
  omega

/-- The pieces that are left out are no alternatives. -/
theorem sum_places_alternatives_le (cs : List Char) :
    ((alternatives cs).map places).sum ≤ places cs := by
  have htrim : places ∘ Text.trim = places :=
    funext fun cs => congrArg (· + 1) (count_bar_trim cs)
  calc ((alternatives cs).map places).sum
      ≤ (((cutAtBars 0 cs).map Text.trim).map places).sum :=
        (List.filter_sublist.map places).sum_le_sum fun _ _ => Nat.zero_le _
    _ = places cs := by rw [List.map_map, htrim, sum_places_cutAtBars]

end TypeExpr

namespace TypeTerm

open TypeExpr

theorem count_bar_wrapped (wrapper : String) (ts : List TypeTerm) :
    (wrapped wrapper ts).toChars.count '|' = wrapper.toList.count '|' + (joined ts).count '|' := by
  rw [toChars_wrapped, List.count_append, List.count_cons_of_ne (by decide), List.count_append]
  rfl

theorem count_bar_array (ts : List TypeTerm) :
    (array ts).toChars.count '|' = (joined ts).count '|' := by
  by_cases hone : OneName ts
  · obtain ⟨name, rfl⟩ := hone
    rw [toChars_array_of_oneName, joined_basic, List.count_append]
    rfl
  · rw [toChars_array_of_not_oneName hone, count_bar_wrapped,
      List.count_eq_zero_of_not_mem (a := '|') (by decide), Nat.zero_add]

theorem count_bar_bracketed {raw front inner : List Char}
    (h : outermost (Text.trim raw) = bracketed front inner) :
    (respelled raw).count '|' = front.count '|' + (respelledInside inner).count '|' := by
  rw [respelled, ofChars_eq, h, bracketed]
  by_cases harray : front = "Array".toList
  · have hbars : "Array".toList.count '|' = 0 := by decide
    rw [if_pos harray, harray, hbars, Nat.zero_add]
    exact count_bar_array _
  · rw [if_neg harray]
    dsimp only
    rw [count_bar_wrapped, String.toList_ofList, count_bar_trim]
    rfl

/-- Reading and writing a term adds no bar. -/
theorem places_respelled_le (raw : List Char) : places (respelled raw) ≤ places raw := by
  induction raw using reading_induction with
  | step raw ih =>
    refine Nat.succ_le_succ ?_
    rw [← count_bar_trim raw]
    cases h : (outermost (Text.trim raw)).inner? with
    | none => rw [respelled_of_none h]
    | some inner =>
      have hinside : (respelledInside inner).count '|' ≤ inner.count '|' := by
        have hsum : ((alternatives inner).map fun p => places (respelled p)).sum ≤ places inner :=
          (List.sum_le_sum (ih inner h)).trans (sum_places_alternatives_le inner)
        have hcount := count_bar_intercalate (((alternatives inner).map ofChars).map toChars)
        rw [List.map_map, List.map_map] at hcount
        rw [respelledInside, joined, List.map_map, hcount]
        exact Nat.sub_le_of_le_add hsum
      cases shape h with
      | suffix hterm houter _ =>
        rw [respelled, ofChars_eq, houter]
        dsimp only
        rw [count_bar_array, hterm, List.count_append]
        exact Nat.le_add_right_of_le hinside
      | closed front rest blanks hterm hfront hblanks hinner houter _ =>
        rw [hinner, count_bar_trim] at hinside
        rw [count_bar_bracketed houter, hterm, hinner, List.count_append,
          List.count_cons_of_ne (by decide), List.count_append]
        omega
      | unclosed front rest hterm hfront hinner houter _ =>
        rw [hinner, count_bar_trim] at hinside
        rw [count_bar_bracketed houter, hterm, hinner, List.count_append,
          List.count_cons_of_ne (by decide)]
        omega

end TypeTerm

namespace TypeSet

open TypeExpr TypeTerm

variable {raw : String}

/-! ## Types that are kept -/

/-- A part of a list that has the whole weight of the list is the list. -/
theorem eq_of_sublist_of_sum_le {α : Type} {weight : α → Nat} {xs ys : List α}
    (h : xs.Sublist ys) (hpos : ∀ y ∈ ys, 0 < weight y)
    (hsum : (ys.map weight).sum ≤ (xs.map weight).sum) : xs = ys := by
  induction h with
  | slnil => rfl
  | @cons xs ys y hsub ih =>
    have hle : (xs.map weight).sum ≤ (ys.map weight).sum :=
      (hsub.map weight).sum_le_sum fun _ _ => Nat.zero_le _
    have hy := hpos y List.mem_cons_self
    rw [List.map_cons, List.sum_cons] at hsum
    omega
  | @cons_cons xs ys y hsub ih =>
    rw [List.map_cons, List.sum_cons, List.map_cons, List.sum_cons] at hsum
    rw [ih (fun y hy => hpos y (List.mem_cons_of_mem _ hy)) (Nat.le_of_add_le_add_left hsum)]

/-- The sum over the alternatives of the text of a type goes over its spellings. -/
theorem sum_alternatives_render {M : Type} [AddCommMonoid M] (weight : List Char → M) :
    ((alternatives (parse raw).render.toList).map weight).sum
      = ((parse raw).keys.map fun key => ((alternatives key.toList).map weight).sum).sum := by
  rw [alternatives_render_eq_flatMap isNamed_of_mem_parse, List.map_flatMap, List.flatMap_def,
    List.sum_flatten, List.map_map]
  exact ((List.mergeSort_perm _ _).map _).sum_eq

/-- The alternatives of the text of a type, read and written, are its spellings if they give the
same type. -/
theorem perm_respelled_of_same (h : (parse (parse raw).render == parse raw) = true) :
    ((parse raw).keys.map String.toList).Perm
      ((alternatives (parse raw).render.toList).map respelled) := by
  have hnodup : ((parse raw).keys.map String.toList).Nodup :=
    List.Pairwise.map _ (fun _ _ hne heq => hne (String.toList_inj.1 heq)) (nodup_keys_parse raw)
  have hsubset : (parse raw).keys.map String.toList
      ⊆ (alternatives (parse raw).render.toList).map respelled := by
    intro cs hcs
    obtain ⟨key, hkey, rfl⟩ := List.mem_map.1 hcs
    obtain ⟨p, hp, hspelled⟩ :=
      mem_keys_parse.1 ((mem_keys_of_beq (nodup_keys_parse _) h key).2 hkey)
    rw [hspelled]
    exact List.mem_map_of_mem hp
  obtain ⟨kept, hperm, hsub⟩ := List.subperm_of_subset hnodup hsubset
  -- all places of the spellings are in the part that is kept
  have hsum : (((alternatives (parse raw).render.toList).map respelled).map places).sum
      ≤ (kept.map places).sum := by
    calc (((alternatives (parse raw).render.toList).map respelled).map places).sum
        = ((alternatives (parse raw).render.toList).map fun p => places (respelled p)).sum := by
          rw [List.map_map]
          rfl
      _ ≤ ((alternatives (parse raw).render.toList).map places).sum :=
          List.sum_le_sum fun p _ => places_respelled_le p
      _ = ((parse raw).keys.map fun key => ((alternatives key.toList).map places).sum).sum :=
          sum_alternatives_render places
      _ ≤ ((parse raw).keys.map fun key => places key.toList).sum :=
          List.sum_le_sum fun key _ => sum_places_alternatives_le key.toList
      _ = (kept.map places).sum := by
          rw [(hperm.map places).sum_eq, List.map_map]
          rfl
  have hkept := eq_of_sublist_of_sum_le hsub (fun cs _ => places_pos cs) hsum
  rw [← hkept]
  exact hperm.symm

/-- No closing bracket is added when the text of such a type is read. -/
theorem kept_of_same (h : (parse (parse raw).render == parse raw) = true) :
    ∀ p ∈ alternatives (parse raw).render.toList, ¬ excess (respelled p) < excess p := by
  intro p hp hlt
  have hsum := List.sum_lt_sum (fun p => excess (respelled p)) excess
    (fun p _ => excess_respelled_le p) ⟨p, hp, hlt⟩
  have hspelled : ((alternatives (parse raw).render.toList).map fun p => excess (respelled p)).sum
      = ((parse raw).keys.map fun key => excess key.toList).sum := by
    have hperm := ((perm_respelled_of_same h).map excess).sum_eq
    rw [List.map_map, List.map_map] at hperm
    exact hperm.symm
  have hread : ((alternatives (parse raw).render.toList).map excess).sum
      = ((parse raw).keys.map fun key => excess key.toList).sum := by
    rw [sum_alternatives_render]
    exact congrArg List.sum (List.map_congr_left fun key _ => sum_excess_alternatives key.toList)
  rw [hspelled, hread] at hsum
  exact absurd hsum (lt_irrefl _)

/-- A type that its text gives back has firm terms. -/
theorem isFirm_of_same (h : (parse (parse raw).render == parse raw) = true) :
    ∀ t ∈ (parse raw).terms, t.IsFirm := by
  intro t ht
  obtain ⟨p, hp, rfl⟩ := List.mem_map.1 (mem_of_mem_keepFirst ht)
  refine (isMade_of_mem_alternatives hp).isFirm_of_kept fun q hq => kept_of_same h q ?_
  rw [alternatives_render_eq_flatMap isNamed_of_mem_parse]
  refine List.mem_flatMap.2 ⟨_, List.mem_mergeSort.2 (List.mem_map_of_mem ht), ?_⟩
  rwa [TypeTerm.render, String.toList_ofList]

/-- **Canonical texts.**  The text of a type is read as the same type exactly when its terms are
firm and settled. -/
theorem parse_render_iff (raw : String) :
    (parse (parse raw).render == parse raw) = true ↔
      ∀ t ∈ (parse raw).terms, t.IsFirm ∧ t.IsSettled := by
  constructor
  · intro hsame t ht
    have hfirm := isFirm_of_same hsame
    exact ⟨hfirm t ht, (parse_render_iff_settled hfirm).1 hsame t ht⟩
  · intro h
    exact (parse_render_iff_settled fun t ht => (h t ht).1).2 fun t ht => (h t ht).2

/-- A blank in front of a bracket, and a bracket that closes nothing in front of a bar: the texts of
two balanced types are read as other types. -/
theorem not_parse_render_spacedArray :
    isBalanced "Array <string>".toList = true ∧
      (parse (parse "Array <string>").render == parse "Array <string>") = false ∧
      isBalanced "Promise<Map<Array<A>, Array<B>>|C>".toList = true ∧
      (parse (parse "Promise<Map<Array<A>, Array<B>>|C>").render
        == parse "Promise<Map<Array<A>, Array<B>>|C>") = false := by
  decide +kernel

end TypeSet

end ApiTypings
