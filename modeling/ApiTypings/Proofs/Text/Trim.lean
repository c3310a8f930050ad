/-
# Laws of trimming

A text is trimmed when it neither begins nor ends with a blank.  Trimming takes blanks off both
ends and nothing else.

* `trim_eq_self_iff` : trimming leaves exactly the trimmed texts as they are;
* `exists_blanks` : a text is its trimmed form between two texts of blanks;
* `trim_blank_append`, `IsTrimmed.trim_append_blank` : blanks at the ends do not matter;
* `trim_eq_nil_iff` : the texts of which nothing is left.
-/
import ApiTypings.Text.Blank
import Mathlib.Data.List.DropRight

namespace ApiTypings.Text

/-! ## Trimmed texts -/

/-- A text that neither begins nor ends with a blank. -/
structure IsTrimmed (cs : List Char) : Prop where
  head : ∀ c ∈ cs.head?, isBlank c = false
  last : ∀ c ∈ cs.getLast?, isBlank c = false

/-- A text that begins with no blank keeps its beginning. -/
theorem trimStart_of_head {cs : List Char} (h : ∀ c ∈ cs.head?, isBlank c = false) :
    trimStart cs = cs := by
  cases cs with
  | nil => rfl
  | cons c cs => exact List.dropWhile_cons_of_neg (by simpa using h c rfl)

/-- A text that ends with no blank keeps its end. -/
theorem trimEnd_of_last {cs : List Char} (h : ∀ c ∈ cs.getLast?, isBlank c = false) :
    trimEnd cs = cs := by
  have hrev : trimStart cs.reverse = cs.reverse :=
    trimStart_of_head fun c hc => h c (by rwa [List.head?_reverse] at hc)
  rw [trimEnd, ← trimStart, hrev, List.reverse_reverse]

/-- What is left without leading blanks begins with no blank. -/
theorem head_trimStart {cs : List Char} : ∀ c ∈ (trimStart cs).head?, isBlank c = false := by
  induction cs with
  | nil => simp [trimStart]
  | cons c cs ih =>
    unfold trimStart at ih ⊢
    by_cases hc : isBlank c = true
    · rwa [List.dropWhile_cons_of_pos hc]
    · rw [List.dropWhile_cons_of_neg hc]
      simpa using hc

/-- A text is blanks and what is left without them. -/
theorem exists_blanks_trimStart (cs : List Char) :
    ∃ before, isBlankText before = true ∧ cs = before ++ trimStart cs := by
  refine ⟨cs.takeWhile isBlank, ?_, (List.takeWhile_append_dropWhile).symm⟩
  rw [isBlankText, List.all_eq_true]
  exact fun c hc => List.mem_takeWhile_imp hc

/-- A text is what is left without trailing blanks, and blanks. -/
theorem exists_blanks_trimEnd (cs : List Char) :
    ∃ after, isBlankText after = true ∧ cs = trimEnd cs ++ after := by
  obtain ⟨before, hbefore, heq⟩ := exists_blanks_trimStart cs.reverse
  refine ⟨before.reverse, by rwa [isBlankText, List.all_reverse], ?_⟩
  rw [trimEnd, ← trimStart, ← List.reverse_append, ← heq, List.reverse_reverse]

theorem last_trimEnd {cs : List Char} : ∀ c ∈ (trimEnd cs).getLast?, isBlank c = false := by
  intro c hc
  rw [trimEnd, List.getLast?_reverse] at hc
  exact head_trimStart c hc

/-- The beginning of a text without trailing blanks is that of the text. -/
theorem head_trimEnd {cs : List Char} (h : ∀ c ∈ cs.head?, isBlank c = false) :
    ∀ c ∈ (trimEnd cs).head?, isBlank c = false := by
  obtain ⟨after, -, heq⟩ := exists_blanks_trimEnd cs
  intro c hc
  cases htrim : trimEnd cs with
  | nil =>
    rw [htrim] at hc
    exact absurd hc (by simp)
  | cons d ds =>
    rw [htrim] at hc heq
    exact h c (by rw [heq]; exact hc)

theorem isTrimmed_trim (cs : List Char) : IsTrimmed (trim cs) :=
  ⟨head_trimEnd head_trimStart, last_trimEnd⟩

theorem IsTrimmed.trim_eq {cs : List Char} (h : IsTrimmed cs) : trim cs = cs := by
  rw [trim, trimStart_of_head h.head, trimEnd_of_last h.last]

/-- Trimming leaves exactly the trimmed texts as they are. -/
theorem trim_eq_self_iff {cs : List Char} : trim cs = cs ↔ IsTrimmed cs :=
  ⟨fun h => h ▸ isTrimmed_trim cs, IsTrimmed.trim_eq⟩

/-- Trimmed texts with anything between them make a trimmed text. -/
theorem IsTrimmed.append {xs ys : List Char} (hx : IsTrimmed xs) (hy : IsTrimmed ys)
    (hxs : xs ≠ []) (hys : ys ≠ []) (between : List Char) : IsTrimmed (xs ++ between ++ ys) where
  head c hc := by
    obtain ⟨x, xs, rfl⟩ := List.exists_cons_of_ne_nil hxs
    exact hx.head c hc
  last c hc := by
    rw [List.getLast?_append_of_ne_nil _ hys] at hc
    exact hy.last c hc

/-- Trimmed texts, joined by anything, make a trimmed text. -/
theorem isTrimmed_intercalate {sep : List Char} {ps : List (List Char)}
    (h : ∀ p ∈ ps, IsTrimmed p ∧ p ≠ []) : IsTrimmed (sep.intercalate ps) := by
  induction ps with
  | nil => exact ⟨fun c hc => by simp at hc, fun c hc => by simp at hc⟩
  | cons p ps ih =>
    obtain ⟨hp, hps⟩ := List.forall_mem_cons.1 h
    cases ps with
    | nil =>
      rw [List.intercalate_singleton]
      exact hp.1
    | cons q ps =>
      rw [List.intercalate_cons_cons]
      have hne : sep.intercalate (q :: ps) ≠ [] := by
        have hq := (hps q List.mem_cons_self).2
        cases ps with
        | nil => rwa [List.intercalate_singleton]
        | cons r ps => simp [List.intercalate_cons_cons, hq]
      exact hp.1.append (ih hps) hp.2 hne sep

/-! ## Blanks at the ends -/

/-- A text is its trimmed form between two texts of blanks. -/
theorem exists_blanks (cs : List Char) :
    ∃ before after, isBlankText before = true ∧ isBlankText after = true ∧
      cs = before ++ trim cs ++ after := by
  obtain ⟨before, hbefore, hstart⟩ := exists_blanks_trimStart cs
  obtain ⟨after, hafter, hend⟩ := exists_blanks_trimEnd (trimStart cs)
  refine ⟨before, after, hbefore, hafter, ?_⟩
  rw [trim, List.append_assoc, ← hend]
  exact hstart

/-- Blanks in front do not matter. -/
theorem trim_blank_append {blanks : List Char} (h : isBlankText blanks = true) (cs : List Char) :
    trim (blanks ++ cs) = trim cs := by
  rw [isBlankText, List.all_eq_true] at h
  rw [trim, trim, trimStart, trimStart, List.dropWhile_append_of_pos h]

/-- Blanks behind a trimmed text do not matter. -/
theorem IsTrimmed.trim_append_blank {cs blanks : List Char} (hcs : IsTrimmed cs) (hne : cs ≠ [])
    (h : isBlankText blanks = true) : trim (cs ++ blanks) = cs := by
  have hstart : trimStart (cs ++ blanks) = cs ++ blanks := by
    obtain ⟨c, rest, rfl⟩ := List.exists_cons_of_ne_nil hne
    exact trimStart_of_head hcs.head
  have hrev : ∀ b ∈ blanks.reverse, isBlank b = true := fun b hb =>
    List.all_eq_true.1 h b (List.mem_reverse.1 hb)
  rw [trim, hstart, trimEnd, List.reverse_append, List.dropWhile_append_of_pos hrev]
  exact trimEnd_of_last hcs.last

/-- There are no blanks at the end of a trimmed text. -/
theorem IsTrimmed.eq_nil_of_blank {cs blanks : List Char} (hcs : IsTrimmed (cs ++ blanks))
    (h : isBlankText blanks = true) : blanks = [] := by
  by_contra hne
  obtain ⟨c, hc⟩ := Option.ne_none_iff_exists'.1 (mt List.getLast?_eq_none_iff.1 hne)
  have hlast := hcs.last c (by rwa [List.getLast?_append_of_ne_nil _ hne])
  rw [isBlankText, List.all_eq_true] at h
  rw [h c (List.mem_of_mem_getLast? hc)] at hlast
  exact absurd hlast (by decide)

/-- Blanks behind any text do not matter. -/
theorem trim_append_blank {blanks : List Char} (h : isBlankText blanks = true) (cs : List Char) :
    trim (cs ++ blanks) = trim cs := by
  obtain ⟨before, after, hbefore, hafter, heq⟩ := exists_blanks cs
  have hbehind : isBlankText (after ++ blanks) = true := by
    rw [isBlankText, List.all_append, Bool.and_eq_true]
    exact ⟨hafter, h⟩
  have hsplit : trim (cs ++ blanks) = trim (trim cs ++ (after ++ blanks)) := by
    conv_lhs => rw [heq]
    rw [List.append_assoc, List.append_assoc, trim_blank_append hbefore]
  rw [hsplit]
  by_cases hne : trim cs = []
  · rw [hne, List.nil_append]
    simpa [trim, trimStart, trimEnd] using trim_blank_append hbehind []
  · exact (isTrimmed_trim cs).trim_append_blank hne hbehind

/-- Nothing is left of blanks, and only of them. -/
theorem trim_eq_nil_iff {cs : List Char} : trim cs = [] ↔ isBlankText cs = true := by
  constructor
  · intro h
    obtain ⟨before, after, hbefore, hafter, heq⟩ := exists_blanks cs
    rw [heq, h, List.append_nil, isBlankText, List.all_append, Bool.and_eq_true]
    exact ⟨hbefore, hafter⟩
  · intro h
    have hnil := trim_append_blank h []
    rw [List.nil_append] at hnil
    exact hnil

end ApiTypings.Text
