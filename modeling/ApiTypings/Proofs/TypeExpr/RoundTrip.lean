/-
# Types are read back

A term in normal form is spelled so that reading gives it back: its names have no brackets, bars or
outer blanks, no name looks like an array, and no wrapper is the name of arrays.  Every part of the
spelling is found again by the reader, because the spelling of a term is one alternative.

* `isAlternative_toChars` : the spelling of a term in normal form is one alternative;
* `ofChars_toChars` : reading the spelling gives the term;
* `parse_render_of_isNormal` : terms and sets of terms are read back from their text.
-/
import ApiTypings.Proofs.TypeExpr.Brackets

namespace ApiTypings

namespace TypeExpr

/-! ## Names -/

/-- A trimmed text without brackets and bars. -/
structure IsToken (cs : List Char) : Prop where
  trimmed : Text.trim cs = cs
  no_open : '<' ∉ cs
  no_close : '>' ∉ cs
  no_bar : '|' ∉ cs

instance (cs : List Char) : Decidable (IsToken cs) :=
  decidable_of_iff (Text.trim cs = cs ∧ '<' ∉ cs ∧ '>' ∉ cs ∧ '|' ∉ cs)
    ⟨fun ⟨h1, h2, h3, h4⟩ => ⟨h1, h2, h3, h4⟩, fun ⟨h1, h2, h3, h4⟩ => ⟨h1, h2, h3, h4⟩⟩

theorem IsToken.balanced {cs : List Char} (h : IsToken cs) : isBalanced cs = true :=
  isBalanced_of_no_bracket h.no_open h.no_close

/-- A name is one alternative. -/
theorem IsToken.isAlternative {cs : List Char} (h : IsToken cs) (hne : cs ≠ []) :
    IsAlternative cs :=
  ⟨hne, Text.trim_eq_self_iff.1 h.trimmed, h.balanced, cutAtBars_of_no_bar h.no_bar⟩

/-- A name with the suffix of arrays is one alternative. -/
theorem IsToken.isAlternative_suffix {cs : List Char} (h : IsToken cs) (hne : cs ≠ []) :
    IsAlternative (cs ++ "[]".toList) where
  ne_nil := by simp
  trimmed := by
    have hend : Text.IsTrimmed [']'] := Text.trim_eq_self_iff.1 (by decide)
    have := (Text.trim_eq_self_iff.1 h.trimmed).append hend hne (by simp) ['[']
    rwa [List.append_assoc] at this
  balanced := (isBalanced_append h.balanced _).trans rfl
  uncut := cutAtBars_of_no_bar (by simpa using h.no_bar)

/-! ## Constructs -/

/-- A wrapper with a balanced text in its brackets is one alternative. -/
theorem IsToken.isAlternative_generic {wrapper inner : List Char} (h : IsToken wrapper)
    (hinner : isBalanced inner = true) : IsAlternative (wrapper ++ '<' :: (inner ++ ['>'])) where
  ne_nil := by simp
  trimmed := by
    have hbracket : Text.IsTrimmed ['>'] := Text.trim_eq_self_iff.1 (by decide)
    cases wrapper with
    | nil =>
      have hopen : Text.IsTrimmed ['<'] := Text.trim_eq_self_iff.1 (by decide)
      exact hopen.append hbracket (by simp) (by simp) inner
    | cons c cs =>
      have := (Text.trim_eq_self_iff.1 h.trimmed).append hbracket (by simp) (by simp) ('<' :: inner)
      rwa [List.append_assoc] at this
  balanced := by rw [isBalanced_append h.balanced, isBalanced_bracketed hinner]
  uncut := by
    refine uncut_append (cutAtBars_of_no_bar h.no_bar) ?_
    rw [depthBehind_of_isBalanced h.balanced]
    exact uncut_bracketed hinner

/-- The inside of a text with its closing bracket. -/
theorem insideBrackets_append_close {inner : List Char} (h : Text.IsTrimmed inner) :
    insideBrackets (inner ++ ['>']) = inner := by
  have hend : Text.trimEnd (inner ++ ['>']) = inner ++ ['>'] := by
    refine Text.trimEnd_of_last fun c hc => ?_
    obtain rfl : '>' = c := by simpa using hc
    rfl
  have hclose : Text.stripSuffix? ['>'] (Text.trimEnd (inner ++ ['>'])) = some inner :=
    Text.stripSuffix?_eq_some.2 hend
  rw [insideBrackets, hclose]
  exact h.trim_eq

/-- A text that ends with a bracket has no suffix of arrays. -/
theorem stripSuffix?_append_close (cs : List Char) :
    Text.stripSuffix? "[]".toList (cs ++ ['>']) = none := by
  rw [Option.eq_none_iff_forall_ne_some]
  intro rest hrest
  rw [Text.stripSuffix?_eq_some] at hrest
  have := congrArg List.getLast? hrest
  simp at this

/-- What stands in front of the first opening bracket. -/
theorem takeWhile_append_open {xs : List Char} (h : '<' ∉ xs) (ys : List Char) :
    (xs ++ '<' :: ys).takeWhile (· ≠ '<') = xs := by
  have hxs : ∀ c ∈ xs, decide (c ≠ '<') = true := fun c hc =>
    decide_eq_true fun heq => h (heq ▸ hc)
  rw [List.takeWhile_append_of_pos hxs, List.takeWhile_cons_of_neg (by simp), List.append_nil]

/-- What stands behind the first opening bracket. -/
theorem afterBracket?_append_open {xs : List Char} (h : '<' ∉ xs) (ys : List Char) :
    afterBracket? (xs ++ '<' :: ys) = some ys := by
  have hxs : ∀ c ∈ xs, decide (c ≠ '<') = true := fun c hc =>
    decide_eq_true fun heq => h (heq ▸ hc)
  rw [afterBracket?, List.dropWhile_append_of_pos hxs, List.dropWhile_cons_of_neg (by simp)]
  rfl

/-- The wrapper of arrays in front of the first opening bracket. -/
theorem stripPrefix?_append_open {front : List Char} (h : '<' ∉ front) (rest : List Char) :
    Text.stripPrefix? "Array<".toList (front ++ '<' :: rest)
      = if front = "Array".toList then some rest else none := by
  split
  · rename_i hfront
    rw [hfront]
    rfl
  · rename_i hne
    rw [Option.eq_none_iff_forall_ne_some]
    intro after hafter
    rw [Text.stripPrefix?_eq_some] at hafter
    -- both sides have the same text in front of their first bracket
    have harray : ("Array<".toList ++ after).takeWhile (· ≠ '<') = "Array".toList := rfl
    rw [← hafter, takeWhile_append_open h] at harray
    exact hne harray

/-- The suffix of arrays comes first. -/
theorem outermost_suffix (cs : List Char) : outermost (cs ++ "[]".toList) = .arrayOf cs := by
  rw [outermost, Text.stripSuffix?_eq_some.2 rfl]

/-- The outer construct of an array that is written as a generic. -/
theorem outermost_array {inner : List Char} (h : Text.IsTrimmed inner) :
    outermost ("Array".toList ++ '<' :: (inner ++ ['>'])) = .arrayOf inner := by
  have hsuffix : Text.stripSuffix? "[]".toList ("Array".toList ++ '<' :: (inner ++ ['>'])) = none :=
    stripSuffix?_append_close ("Array<".toList ++ inner)
  have hprefix : Text.stripPrefix? "Array<".toList ("Array".toList ++ '<' :: (inner ++ ['>']))
      = some (inner ++ ['>']) := rfl
  rw [outermost, hsuffix, hprefix]
  exact congrArg _ (insideBrackets_append_close h)

/-- The outer construct of any other generic. -/
theorem outermost_generic {wrapper inner : List Char} (h : IsToken wrapper)
    (hne : wrapper ≠ "Array".toList) (hinner : Text.IsTrimmed inner) :
    outermost (wrapper ++ '<' :: (inner ++ ['>'])) = .generic wrapper inner := by
  have hsuffix : Text.stripSuffix? "[]".toList (wrapper ++ '<' :: (inner ++ ['>'])) = none := by
    have := stripSuffix?_append_close (wrapper ++ '<' :: inner)
    rwa [List.append_assoc] at this
  have hprefix : Text.stripPrefix? "Array<".toList (wrapper ++ '<' :: (inner ++ ['>'])) = none := by
    rw [stripPrefix?_append_open h.no_open, if_neg hne]
  rw [outermost, hsuffix, hprefix, afterBracket?_append_open h.no_open,
    takeWhile_append_open h.no_open, h.trimmed]
  exact congrArg _ (insideBrackets_append_close hinner)

end TypeExpr

/-! ## Terms in normal form -/

namespace TypeTerm

open TypeExpr

/-- A term whose spelling says what it is. -/
inductive IsNormal : TypeTerm → Prop where
  /-- A plain name, which does not look like an array. -/
  | basic {name : String} (hname : IsToken name.toList) (hne : name ≠ "")
      (hsuffix : Text.withoutSuffix "[]" name = none) : IsNormal (.basic name)
  /-- A generic, whose wrapper is not the name of arrays. -/
  | wrapped {wrapper : String} {inner : List TypeTerm} (hwrapper : IsToken wrapper.toList)
      (hne : wrapper ≠ "Array") (hinner : ∀ t ∈ inner, IsNormal t) :
      IsNormal (.wrapped wrapper inner)
  /-- An array. -/
  | array {inner : List TypeTerm} (hinner : ∀ t ∈ inner, IsNormal t) : IsNormal (.array inner)

/-- The spellings of some terms between bars. -/
def joined (ts : List TypeTerm) : List Char := ['|'].intercalate (ts.map toChars)

theorem joined_basic (name : String) : joined [.basic name] = name.toList := by
  simp [joined, toChars]

theorem toChars_wrapped (wrapper : String) (inner : List TypeTerm) :
    (wrapped wrapper inner).toChars = wrapper.toList ++ '<' :: (joined inner ++ ['>']) := by
  rw [toChars, allToChars_eq_map, joined]

/-- An array is written with a suffix if it is the array of one plain name, and as a generic
otherwise. -/
theorem toChars_array (inner : List TypeTerm) :
    (∃ name, inner = [.basic name] ∧ (array inner).toChars = name.toList ++ "[]".toList) ∨
      (array inner).toChars = "Array".toList ++ '<' :: (joined inner ++ ['>']) := by
  unfold toChars
  split
  · rename_i name
    exact .inl ⟨name, rfl, by rw [allToChars_eq_map]; simp [toChars]⟩
  · exact .inr (by rw [allToChars_eq_map]; simp [joined])

/-- The spellings of terms that are alternatives make a balanced text between bars. -/
theorem balanced_joined {ts : List TypeTerm} (h : ∀ t ∈ ts, IsAlternative t.toChars) :
    isBalanced (joined ts) = true :=
  isBalanced_intercalate rfl (List.forall_mem_map.2 fun t ht => (h t ht).balanced)

theorem isTrimmed_joined {ts : List TypeTerm} (h : ∀ t ∈ ts, IsAlternative t.toChars) :
    Text.IsTrimmed (joined ts) :=
  Text.isTrimmed_intercalate
    (List.forall_mem_map.2 fun t ht => ⟨(h t ht).trimmed, (h t ht).ne_nil⟩)

/-- Spellings between bars are the alternatives of this text. -/
theorem alternatives_joined {ts : List TypeTerm} (h : ∀ t ∈ ts, IsAlternative t.toChars) :
    alternatives (joined ts) = ts.map toChars :=
  have hnil : Text.isBlankText [] = true := rfl
  alternatives_intercalate hnil hnil (List.forall_mem_map.2 h)

/-- The spelling of a term in normal form is one alternative. -/
theorem IsNormal.isAlternative_toChars {t : TypeTerm} (h : IsNormal t) :
    IsAlternative t.toChars := by
  induction h with
  | basic hname hne _ => exact hname.isAlternative (by simpa using hne)
  | wrapped hwrapper _ _ ih =>
    rw [toChars_wrapped]
    exact hwrapper.isAlternative_generic (balanced_joined ih)
  | @array inner hinner ih =>
    rcases toChars_array inner with ⟨name, rfl, hchars⟩ | hchars
    · rw [hchars]
      cases hinner _ List.mem_cons_self with
      | basic hname hne _ => exact hname.isAlternative_suffix (by simpa using hne)
    · rw [hchars]
      have harray : IsToken "Array".toList := by decide
      exact harray.isAlternative_generic (balanced_joined ih)

/-- Terms that are read back one by one are read back from their spellings between bars. -/
theorem map_ofChars_joined {ts : List TypeTerm} (h : ∀ t ∈ ts, IsAlternative t.toChars)
    (hread : ∀ t ∈ ts, ofChars t.toChars = t) : (alternatives (joined ts)).map ofChars = ts := by
  rw [alternatives_joined h, List.map_map]
  calc ts.map (ofChars ∘ toChars) = ts.map id := List.map_congr_left hread
    _ = ts := List.map_id ts

/-- Reading the spelling of a term in normal form gives the term. -/
theorem IsNormal.ofChars_toChars {t : TypeTerm} (h : IsNormal t) : ofChars t.toChars = t := by
  have htrim := h.isAlternative_toChars.trimmed.trim_eq
  induction h with
  | @basic name hname hne hsuffix =>
    have hplain : IsPlain name.toList :=
      ⟨by simpa using hne, hname.no_bar, hname.no_open, by
        simpa [Text.withoutSuffix] using hsuffix⟩
    rw [toChars, ofChars_eq, hname.trimmed, outermost_of_isPlain hplain]
    exact congrArg _ String.ofList_toList
  | @wrapped wrapper inner hwrapper hne hinner ih =>
    have halt : ∀ t ∈ inner, IsAlternative t.toChars := fun t ht =>
      (hinner t ht).isAlternative_toChars
    have hread := map_ofChars_joined halt fun t ht =>
      ih t ht (halt t ht).trimmed.trim_eq
    have hne' : wrapper.toList ≠ "Array".toList := fun heq => hne (String.toList_inj.1 heq)
    rw [toChars_wrapped] at htrim ⊢
    rw [ofChars_eq, htrim, outermost_generic hwrapper hne' (isTrimmed_joined halt)]
    dsimp only
    rw [hread, String.ofList_toList]
  | @array inner hinner ih =>
    have halt : ∀ t ∈ inner, IsAlternative t.toChars := fun t ht =>
      (hinner t ht).isAlternative_toChars
    have hread := map_ofChars_joined halt fun t ht =>
      ih t ht (halt t ht).trimmed.trim_eq
    rw [ofChars_eq, htrim]
    rcases toChars_array inner with ⟨name, rfl, hchars⟩ | hchars
    · -- the text in front of the suffix is the spelling of the one member
      rw [hchars, outermost_suffix, ← joined_basic]
      exact congrArg TypeTerm.array hread
    · rw [hchars, outermost_array (isTrimmed_joined halt)]
      exact congrArg TypeTerm.array hread

theorem IsNormal.parse_render {t : TypeTerm} (h : IsNormal t) : parse t.render = t := by
  rw [parse, render, String.toList_ofList, h.ofChars_toChars]

end TypeTerm

namespace TypeSet

open TypeExpr

/-- The alternatives of the text of a set are its spellings, in order. -/
theorem alternatives_render {s : TypeSet} (h : ∀ t ∈ s.terms, t.IsNormal) :
    alternatives s.render.toList = s.keys.mergeSort.map String.toList := by
  have hblank : Text.isBlankText [' '] = true := by decide
  have halt : ∀ p ∈ s.keys.mergeSort.map String.toList, IsAlternative p := by
    intro p hp
    obtain ⟨key, hkey, rfl⟩ := List.mem_map.1 hp
    obtain ⟨t, ht, rfl⟩ := List.mem_map.1 (List.mem_mergeSort.1 hkey)
    rw [TypeTerm.render, String.toList_ofList]
    exact (h t ht).isAlternative_toChars
  rw [render, String.toList_intercalate]
  exact alternatives_intercalate hblank hblank halt

/-- The spellings that are read from the text of a set are its spellings. -/
theorem mem_keys_parse_render {s : TypeSet} (h : ∀ t ∈ s.terms, t.IsNormal) {key : String} :
    key ∈ (parse s.render).keys ↔ key ∈ s.keys := by
  have hread : s.keys.mergeSort.map (TypeTerm.render ∘ TypeTerm.parse) = s.keys.mergeSort := by
    calc s.keys.mergeSort.map (TypeTerm.render ∘ TypeTerm.parse) = s.keys.mergeSort.map id := by
          refine List.map_congr_left fun key hkey => ?_
          obtain ⟨t, ht, rfl⟩ := List.mem_map.1 (List.mem_mergeSort.1 hkey)
          exact congrArg TypeTerm.render (h t ht).parse_render
      _ = s.keys.mergeSort := List.map_id _
  rw [parse, mem_keys_ofTerms, alternatives_render h, List.map_map, List.map_map]
  show key ∈ s.keys.mergeSort.map (TypeTerm.render ∘ TypeTerm.parse) ↔ _
  rw [hread, List.mem_mergeSort]

/-- **Types are read back.**  Reading the text of a term in normal form gives the term, and reading
the text of a set of such terms, without repeated spellings, gives the same set. -/
theorem parse_render_of_isNormal :
    (∀ t : TypeTerm, t.IsNormal → TypeTerm.parse t.render = t) ∧
      ∀ s : TypeSet, s.keys.Nodup → (∀ t ∈ s.terms, t.IsNormal) → (parse s.render == s) = true := by
  constructor
  · exact fun t h => h.parse_render
  · intro s hnodup h
    have hperm : (parse s.render).keys.Perm s.keys :=
      (List.perm_ext_iff_of_nodup (nodup_keys_parse _) hnodup).2 fun key => mem_keys_parse_render h
    refine beq_iff.2 ⟨?_, fun key hkey => hperm.mem_iff.1 hkey⟩
    simpa [keys] using hperm.length_eq

/-! ## A nested type -/

/-- The type `Map<A|Array<B[]|Promise<>>>`. -/
def nestedTerm : TypeTerm :=
  .wrapped "Map" [.basic "A", .array [.array [.basic "B"], .wrapped "Promise" []]]

theorem isNormal_nestedTerm : nestedTerm.IsNormal := by
  have ha : (TypeTerm.basic "A").IsNormal := .basic (by decide) (by decide) rfl
  have hb : (TypeTerm.basic "B").IsNormal := .basic (by decide) (by decide) rfl
  have hpromise : (TypeTerm.wrapped "Promise" []).IsNormal :=
    .wrapped (by decide) (by decide) (by simp)
  have harray : (TypeTerm.array [.basic "B"]).IsNormal := .array (List.forall_mem_singleton.2 hb)
  have hinner : (TypeTerm.array [.array [.basic "B"], .wrapped "Promise" []]).IsNormal :=
    .array (List.forall_mem_cons.2 ⟨harray, List.forall_mem_singleton.2 hpromise⟩)
  exact .wrapped (by decide) (by decide)
    (List.forall_mem_cons.2 ⟨ha, List.forall_mem_singleton.2 hinner⟩)

theorem parse_render_nestedTerm :
    (∀ t ∈ [nestedTerm, .array [nestedTerm]], t.IsNormal ∧ TypeTerm.parse t.render = t) ∧
      (TypeSet.mk [nestedTerm, .array [nestedTerm]]).keys.Nodup ∧
      (parse (TypeSet.mk [nestedTerm, .array [nestedTerm]]).render
        == TypeSet.mk [nestedTerm, .array [nestedTerm]]) = true := by
  have harray : (TypeTerm.array [nestedTerm]).IsNormal :=
    .array (List.forall_mem_singleton.2 isNormal_nestedTerm)
  have hnormal : ∀ t ∈ [nestedTerm, .array [nestedTerm]], t.IsNormal :=
    List.forall_mem_cons.2 ⟨isNormal_nestedTerm, List.forall_mem_singleton.2 harray⟩
  have hnodup : (TypeSet.mk [nestedTerm, .array [nestedTerm]]).keys.Nodup := by decide
  exact ⟨fun t ht => ⟨hnormal t ht, parse_render_of_isNormal.1 t (hnormal t ht)⟩, hnodup,
    parse_render_of_isNormal.2 _ hnodup hnormal⟩

end TypeSet

end ApiTypings
