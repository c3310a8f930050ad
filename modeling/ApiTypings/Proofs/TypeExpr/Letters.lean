/-
# The characters of types

Reading a type and writing it again adds brackets, bars and the word `Array`, and no other
characters.  So a character that is none of these is missing from the text of a type when it is
missing from the documented text.

* `not_mem_toChars_ofChars` : the characters of a term that was read;
* `lacks_parse`, `Lacks.union` : the characters of the sets that are made;
* `Lacks.render`, `Lacks.renderAsArray` : the characters of the text of a set.
-/
import ApiTypings.Proofs.TypeExpr.Balance
import ApiTypings.Proofs.TypeExpr.Spelling

namespace ApiTypings

/-! ## Pieces of a text -/

namespace Text

variable {c : Char}

theorem not_mem_trim {cs : List Char} (h : c ∉ cs) : c ∉ trim cs :=
  fun hmem => h (TypeExpr.mem_of_mem_trim hmem)

theorem not_mem_of_mem_cut_of_not_mem {stop : Char → Bool} {cs piece : List Char} (h : c ∉ cs)
    (hpiece : piece ∈ cut stop cs) : c ∉ piece := by
  induction cs generalizing piece with
  | nil => simp_all
  | cons d cs ih =>
    rw [List.mem_cons, not_or] at h
    unfold cut at hpiece
    split at hpiece
    · rcases List.mem_cons.1 hpiece with rfl | hpiece
      · exact List.not_mem_nil
      · exact ih h.2 hpiece
    · cases hcut : cut stop cs with
      | nil => exact absurd hcut (cut_ne_nil _ cs)
      | cons first pieces =>
        rw [hcut] at hpiece ih
        rcases List.mem_cons.1 hpiece with rfl | hpiece
        · rw [List.mem_cons, not_or]
          exact ⟨h.1, ih h.2 List.mem_cons_self⟩
        · exact ih h.2 (List.mem_cons_of_mem _ hpiece)

/-- What is missing from the pieces and from what stands between them is missing from the joined
text. -/
theorem not_mem_intercalate {sep : List Char} {ps : List (List Char)} (hsep : c ∉ sep)
    (h : ∀ p ∈ ps, c ∉ p) : c ∉ sep.intercalate ps := by
  induction ps with
  | nil => simp
  | cons p ps ih =>
    rw [List.forall_mem_cons] at h
    cases ps with
    | nil => simpa using h.1
    | cons q ps =>
      rw [List.intercalate_cons_cons, List.mem_append, List.mem_append, not_or, not_or]
      exact ⟨⟨h.1, hsep⟩, ih h.2⟩

end Text

/-! ## Alternatives -/

namespace TypeExpr

variable {c : Char}

theorem not_mem_of_mem_cutAtBars {depth : Nat} {cs piece : List Char} (h : c ∉ cs)
    (hpiece : piece ∈ cutAtBars depth cs) : c ∉ piece := by
  induction cs generalizing depth piece with
  | nil => simp_all [cutAtBars]
  | cons d cs ih =>
    rw [List.mem_cons, not_or] at h
    unfold cutAtBars at hpiece
    split at hpiece
    · rcases List.mem_cons.1 hpiece with rfl | hpiece
      · exact List.not_mem_nil
      · exact ih h.2 hpiece
    · cases hcut : cutAtBars (depthAfter depth d) cs with
      | nil => exact absurd hcut (cutAtBars_ne_nil _ cs)
      | cons first pieces =>
        rw [hcut, pushFront] at hpiece
        rcases List.mem_cons.1 hpiece with rfl | hpiece
        · rw [List.mem_cons, not_or]
          exact ⟨h.1, ih h.2 (hcut ▸ List.mem_cons_self)⟩
        · exact ih h.2 (hcut ▸ List.mem_cons_of_mem _ hpiece)

theorem not_mem_of_mem_alternatives {cs p : List Char} (h : c ∉ cs) (hp : p ∈ alternatives cs) :
    c ∉ p := by
  obtain ⟨-, q, hq, rfl⟩ := mem_alternatives.1 hp
  exact Text.not_mem_trim (not_mem_of_mem_cutAtBars h hq)

/-! ## Constructs -/

/-- A character is neither in the name or wrapper of a construct nor in the text inside it. -/
def Construct.Lacks (c : Char) : Construct → Prop
  | .name text => c ∉ text
  | .generic wrapper inner => c ∉ wrapper ∧ c ∉ inner
  | .arrayOf inner => c ∉ inner

theorem not_mem_insideBrackets {cs : List Char} (h : c ∉ cs) : c ∉ insideBrackets cs := by
  have htrim : c ∉ Text.trimEnd cs := by
    obtain ⟨after, -, heq⟩ := Text.exists_blanks_trimEnd cs
    rw [heq, List.mem_append, not_or] at h
    exact h.1
  unfold insideBrackets
  split
  · rename_i inner hinner
    rw [Text.stripSuffix?_eq_some.1 hinner, List.mem_append, not_or] at htrim
    exact Text.not_mem_trim htrim.1
  · exact Text.not_mem_trim h

/-- A construct is made of the characters of its text. -/
theorem lacks_outermost {term : List Char} (h : c ∉ term) : (outermost term).Lacks c := by
  unfold outermost
  split
  · rename_i element helement
    rw [Text.stripSuffix?_eq_some.1 helement, List.mem_append, not_or] at h
    exact h.1
  · split
    · rename_i rest hrest
      rw [Text.stripPrefix?_eq_some.1 hrest, List.mem_append, not_or] at h
      exact not_mem_insideBrackets h.2
    · split
      · rename_i rest hrest
        have hwrapper : c ∉ term.takeWhile (· ≠ '<') := fun hmem => h (List.takeWhile_subset _ hmem)
        have hbehind : c ∉ rest := by
          intro hmem
          refine h (List.dropWhile_subset (· ≠ '<') ?_)
          unfold afterBracket? at hrest
          cases htail : term.dropWhile (· ≠ '<') with
          | nil =>
            rw [htail] at hrest
            exact absurd hrest (by simp)
          | cons d ds =>
            rw [htail] at hrest
            obtain rfl : ds = rest := Option.some.inj hrest
            exact List.mem_cons_of_mem d hmem
        exact ⟨Text.not_mem_trim hwrapper, not_mem_insideBrackets hbehind⟩
      · exact h

end TypeExpr

/-! ## Terms -/

namespace TypeTerm

open TypeExpr

variable {c : Char}

/-- The characters that the spelling of a term adds to the texts in it. -/
def signs : List Char := "[]".toList ++ ("Array".toList ++ ['<', '|', '>'])

theorem not_mem_joined (hc : c ∉ signs) {ts : List TypeTerm} (h : ∀ t ∈ ts, c ∉ t.toChars) :
    c ∉ joined ts := by
  refine Text.not_mem_intercalate (fun hbar => hc ?_) (List.forall_mem_map.2 h)
  rw [List.mem_singleton.1 hbar]
  decide

theorem not_mem_bracketed (hc : c ∉ signs) {wrapper : List Char} {ts : List TypeTerm}
    (hwrapper : c ∉ wrapper) (h : ∀ t ∈ ts, c ∉ t.toChars) :
    c ∉ wrapper ++ '<' :: (joined ts ++ ['>']) := by
  have hjoined := not_mem_joined hc h
  have hopen : c ≠ '<' := fun heq => hc (by simp [signs, heq])
  have hclose : c ≠ '>' := fun heq => hc (by simp [signs, heq])
  simp [hwrapper, hjoined, hopen, hclose]

theorem not_mem_array (hc : c ∉ signs) {ts : List TypeTerm} (h : ∀ t ∈ ts, c ∉ t.toChars) :
    c ∉ (array ts).toChars := by
  rcases toChars_array ts with ⟨name, rfl, heq⟩ | heq
  · have hname : c ∉ name.toList := h (.basic name) List.mem_cons_self
    have hsuffix : c ∉ "[]".toList := fun hmem => hc (List.mem_append_left _ hmem)
    rw [heq, List.mem_append, not_or]
    exact ⟨hname, hsuffix⟩
  · rw [heq]
    have hword : c ∉ "Array".toList := fun hmem =>
      hc (List.mem_append_right _ (List.mem_append_left _ hmem))
    exact not_mem_bracketed hc hword h

/-- A character that is missing from a text is missing from the term that is read from it. -/
theorem not_mem_toChars_ofChars (hc : c ∉ signs) (raw : List Char) :
    c ∉ raw → c ∉ (ofChars raw).toChars := by
  induction raw using reading_induction with
  | step raw ih =>
    intro hraw
    have hlacks := lacks_outermost (Text.not_mem_trim hraw)
    -- the terms inside lack the character because the text inside does
    have hinside : ∀ inner, (outermost (Text.trim raw)).inner? = some inner → c ∉ inner →
        ∀ t ∈ (alternatives inner).map ofChars, c ∉ t.toChars := fun inner hinner h =>
      List.forall_mem_map.2 fun p hp => ih inner hinner p hp (not_mem_of_mem_alternatives h hp)
    rw [ofChars_eq]
    cases houter : outermost (Text.trim raw) with
    | name text =>
      rw [houter] at hlacks
      show c ∉ (String.ofList text).toList
      rwa [String.toList_ofList]
    | generic wrapper inner =>
      rw [houter] at hlacks hinside
      rw [toChars_wrapped]
      refine not_mem_bracketed hc ?_ (hinside inner rfl hlacks.2)
      rw [String.toList_ofList]
      exact hlacks.1
    | arrayOf inner =>
      rw [houter] at hlacks hinside
      exact not_mem_array hc (hinside inner rfl hlacks)

end TypeTerm

/-! ## Sets -/

namespace TypeSet

open TypeExpr

variable {c : Char} {a b s : TypeSet}

/-- A character is in the spelling of no member. -/
def Lacks (c : Char) (s : TypeSet) : Prop := ∀ t ∈ s.terms, c ∉ t.toChars

theorem lacks_ofTerms {ts : List TypeTerm} (h : ∀ t ∈ ts, c ∉ t.toChars) : (ofTerms ts).Lacks c :=
  fun t ht => h t (mem_of_mem_keepFirst ht)

/-- A character that is missing from a text is missing from the set that is read from it. -/
theorem lacks_parse (hc : c ∉ TypeTerm.signs) {raw : String} (h : c ∉ raw.toList) :
    (parse raw).Lacks c :=
  lacks_ofTerms (List.forall_mem_map.2 fun p hp =>
    TypeTerm.not_mem_toChars_ofChars hc p (not_mem_of_mem_alternatives h hp))

theorem Lacks.union (ha : a.Lacks c) (hb : b.Lacks c) : (a.union b).Lacks c := by
  refine lacks_ofTerms fun t ht => ?_
  rcases List.mem_append.1 ht with ht | ht
  · exact ha t ht
  · exact hb t ht

theorem Lacks.render (hc : c ∉ " | ".toList) (h : s.Lacks c) : c ∉ s.render.toList := by
  rw [TypeSet.render, String.toList_intercalate]
  refine Text.not_mem_intercalate hc (List.forall_mem_map.2 fun key hkey => ?_)
  rw [List.mem_mergeSort, keys] at hkey
  obtain ⟨t, ht, rfl⟩ := List.mem_map.1 hkey
  rw [TypeTerm.render, String.toList_ofList]
  exact h t ht

theorem Lacks.renderAsArray (hc : c ∉ " | ".toList) (hsigns : c ∉ TypeTerm.signs) (h : s.Lacks c) :
    c ∉ s.renderAsArray.toList := by
  unfold TypeSet.renderAsArray
  split
  · exact h.render hc
  · rw [TypeTerm.render, String.toList_ofList]
    exact TypeTerm.not_mem_array hsigns h

end TypeSet

end ApiTypings
