/-
# Spellings between separators

The text of a set lists spellings with ` | ` between them.  A spelling may have bars of its own, and
the types that are read may be malformed, with brackets that close nothing or are never closed.
Still no bar of a spelling has a blank in front of it: every part of a term was trimmed, and a bar
outside all brackets would have cut the term.  So the bars of the separators can be told from those
of the spellings, and the spellings are known from the text.

* `barsBehindOpen_of_mem_alternatives` : where bars stand in an alternative;
* `isRead_of_mem_alternatives` : what terms are read from alternatives;
* `IsRead.isSpelling` : the spelling of such a term;
* `intercalate_inj` : spellings between separators are known from the text.
-/
import ApiTypings.Proofs.TypeExpr.Balance
import Mathlib.Data.List.Chain

namespace ApiTypings

namespace TypeExpr

/-! ## Bars and brackets -/

/-- Every bar of a text stands behind an opening bracket. -/
def BarsBehindOpen (cs : List Char) : Prop := ∀ xs ys, cs = xs ++ '|' :: ys → '<' ∈ xs

theorem barsBehindOpen_nil : BarsBehindOpen [] := fun xs ys h => by
  cases xs <;> simp at h

/-- A character that is no bar may be put in front. -/
theorem BarsBehindOpen.cons {c : Char} {cs : List Char} (hc : c ≠ '|')
    (h : c ≠ '<' → BarsBehindOpen cs) : BarsBehindOpen (c :: cs) := by
  intro xs ys heq
  cases xs with
  | nil => exact absurd (List.cons.inj heq).1 hc
  | cons x xs =>
    obtain ⟨rfl, hcs⟩ := List.cons.inj heq
    by_cases hopen : c = '<'
    · exact hopen ▸ List.mem_cons_self
    · exact List.mem_cons_of_mem _ (h hopen xs ys hcs)

/-- In the pieces between outer bars every bar stands behind an opening bracket, but for the first
piece of a text that starts inside of brackets. -/
theorem barsBehindOpen_cutAtBars (depth : Nat) (cs : List Char) :
    ∃ p ps, cutAtBars depth cs = p :: ps ∧ (depth = 0 → BarsBehindOpen p) ∧
      ∀ q ∈ ps, BarsBehindOpen q := by
  induction cs generalizing depth with
  | nil => exact ⟨[], [], rfl, fun _ => barsBehindOpen_nil, fun _ hq => absurd hq List.not_mem_nil⟩
  | cons c cs ih =>
    rw [cutAtBars]
    by_cases hbar : c = '|' ∧ depth = 0
    · obtain ⟨p, ps, hcut, hp, hps⟩ := ih 0
      rw [if_pos hbar, hcut]
      exact ⟨[], p :: ps, rfl, fun _ => barsBehindOpen_nil, List.forall_mem_cons.2 ⟨hp rfl, hps⟩⟩
    · obtain ⟨p, ps, hcut, hp, hps⟩ := ih (depthAfter depth c)
      rw [if_neg hbar, hcut]
      refine ⟨c :: p, ps, rfl, fun hdepth => ?_, hps⟩
      refine BarsBehindOpen.cons (fun hc => hbar ⟨hc, hdepth⟩) fun hopen => hp ?_
      -- the depth is clamped, so it stays zero up to the first opening bracket
      rw [hdepth, depthAfter, if_neg hopen, Nat.zero_sub, ite_self]

/-- Trimming takes no bracket away. -/
theorem BarsBehindOpen.trim {cs : List Char} (h : BarsBehindOpen cs) :
    BarsBehindOpen (Text.trim cs) := by
  intro xs ys heq
  obtain ⟨before, after, hbefore, -, hcs⟩ := Text.exists_blanks cs
  have hsplit : cs = (before ++ xs) ++ '|' :: (ys ++ after) := by
    rw [hcs, heq]
    simp only [List.append_assoc, List.cons_append]
  refine (List.mem_append.1 (h _ _ hsplit)).resolve_left fun hblank => ?_
  exact (ne_of_isBlank (List.all_eq_true.1 hbefore _ hblank)).1 rfl

theorem barsBehindOpen_of_mem_alternatives {cs p : List Char} (h : p ∈ alternatives cs) :
    BarsBehindOpen p := by
  obtain ⟨-, q, hq, rfl⟩ := mem_alternatives.1 h
  obtain ⟨first, rest, hcut, hfirst, hrest⟩ := barsBehindOpen_cutAtBars 0 cs
  rw [hcut] at hq
  rcases List.mem_cons.1 hq with rfl | hq
  · exact (hfirst rfl).trim
  · exact (hrest q hq).trim

/-- In front of the first opening bracket there is no bar. -/
theorem BarsBehindOpen.bar_not_mem_takeWhile {cs : List Char} (h : BarsBehindOpen cs) :
    '|' ∉ cs.takeWhile (· ≠ '<') := by
  intro hbar
  obtain ⟨xs, ys, hfront⟩ := List.append_of_mem hbar
  have hcs : cs = xs ++ '|' :: (ys ++ cs.dropWhile (· ≠ '<')) := by
    rw [← List.cons_append, ← List.append_assoc, ← hfront, List.takeWhile_append_dropWhile]
  have hopen : '<' ∈ cs.takeWhile (· ≠ '<') := by
    rw [hfront]
    exact List.mem_append_left _ (h _ _ hcs)
  simpa using List.mem_takeWhile_imp hopen

/-- Without opening brackets there are no bars. -/
theorem BarsBehindOpen.bar_not_mem {cs : List Char} (h : BarsBehindOpen cs) (hopen : '<' ∉ cs) :
    '|' ∉ cs := by
  intro hbar
  obtain ⟨xs, ys, rfl⟩ := List.append_of_mem hbar
  exact hopen (List.mem_append_left _ (h xs ys rfl))

theorem mem_of_mem_trim {c : Char} {cs : List Char} (h : c ∈ Text.trim cs) : c ∈ cs := by
  obtain ⟨before, after, -, -, heq⟩ := Text.exists_blanks cs
  rw [heq]
  exact List.mem_append_left _ (List.mem_append_right _ h)

/-! ## Spellings -/

/-- A text as it stands between separators: it is trimmed, not empty, and no bar in it has a blank
in front. -/
structure IsSpelling (cs : List Char) : Prop where
  ne_nil : cs ≠ []
  trimmed : Text.IsTrimmed cs
  tight : cs.IsChain fun a b => b = '|' → Text.isBlank a = false

/-- A text without bars is tight. -/
theorem tight_of_no_bar {cs : List Char} (h : '|' ∉ cs) :
    cs.IsChain fun a b => b = '|' → Text.isBlank a = false := by
  induction cs with
  | nil => exact List.IsChain.nil
  | cons c cs ih =>
    rw [List.mem_cons, not_or] at h
    refine List.isChain_cons.2 ⟨fun b hb hbar => ?_, ih h.2⟩
    exact absurd (hbar ▸ List.mem_of_mem_head? hb) h.2

/-- Spellings with bars between them are tight, since no spelling ends with a blank. -/
theorem tight_intercalate {ps : List (List Char)} (h : ∀ p ∈ ps, IsSpelling p) :
    (['|'].intercalate ps).IsChain fun a b => b = '|' → Text.isBlank a = false := by
  induction ps with
  | nil => exact List.IsChain.nil
  | cons p ps ih =>
    obtain ⟨hp, hps⟩ := List.forall_mem_cons.1 h
    cases ps with
    | nil =>
      rw [List.intercalate_singleton]
      exact hp.tight
    | cons q ps =>
      rw [List.intercalate_cons_cons, List.append_assoc, List.isChain_append]
      refine ⟨hp.tight, ?_, fun a ha b _ _ => hp.trimmed.last a ha⟩
      rw [List.singleton_append, List.isChain_cons]
      exact ⟨fun b _ _ => by decide, ih hps⟩

/-- A text in brackets behind a name is a spelling. -/
theorem isSpelling_bracketed {wrapper inner : List Char} (htrim : Text.IsTrimmed wrapper)
    (hbar : '|' ∉ wrapper)
    (hinner : inner.IsChain fun a b => b = '|' → Text.isBlank a = false) :
    IsSpelling (wrapper ++ '<' :: (inner ++ ['>'])) where
  ne_nil := by simp
  trimmed := by
    have hclose : Text.IsTrimmed ['>'] := Text.trim_eq_self_iff.1 (by decide)
    cases wrapper with
    | nil =>
      have hopen : Text.IsTrimmed ['<'] := Text.trim_eq_self_iff.1 (by decide)
      exact hopen.append hclose (by simp) (by simp) inner
    | cons c cs =>
      have := htrim.append hclose (by simp) (by simp) ('<' :: inner)
      rwa [List.append_assoc] at this
  tight := by
    have hclosed : (inner ++ ['>']).IsChain fun a b => b = '|' → Text.isBlank a = false := by
      refine List.isChain_append.2 ⟨hinner, List.IsChain.singleton _, fun a _ b hb hbar => ?_⟩
      obtain rfl : '>' = b := by simpa using hb
      exact absurd hbar (by decide)
    refine List.isChain_append.2 ⟨tight_of_no_bar hbar, ?_, fun a _ b hb hbar => ?_⟩
    · exact List.isChain_cons.2 ⟨fun b _ _ => by decide, hclosed⟩
    · obtain rfl : '<' = b := by simpa using hb
      exact absurd hbar (by decide)

/-! ## Separators -/

/-- The separator between the spellings of a set. -/
def separator : List Char := [' ', '|', ' ']

/-- The text of a set behind its first spelling: nothing, or a separator and the other spellings. -/
def behindFirst : List (List Char) → List Char
  | [] => []
  | p :: ps => separator ++ separator.intercalate (p :: ps)

theorem intercalate_eq_append (p : List Char) (ps : List (List Char)) :
    separator.intercalate (p :: ps) = p ++ behindFirst ps := by
  cases ps with
  | nil => rw [List.intercalate_singleton, behindFirst, List.append_nil]
  | cons q ps => rw [List.intercalate_cons_cons, List.append_assoc, behindFirst]

/-- A spelling does not go on where another one ends. -/
theorem IsSpelling.eq_nil_of_append {p more : List Char} (h : IsSpelling (p ++ more))
    {ps : List (List Char)} {rest : List Char} (heq : behindFirst ps = more ++ rest) :
    more = [] := by
  cases ps with
  | nil => exact (List.append_eq_nil_iff.1 heq.symm).1
  | cons q ps =>
    match more with
    | [] => rfl
    | [c] =>
      -- the spelling would end with the blank of the separator
      have hc : ' ' = c := (List.cons.inj heq).1
      have hlast := h.trimmed.last c (by simp)
      rw [← hc] at hlast
      exact absurd hlast (by decide)
    | c :: b :: more =>
      -- the spelling would have the bar of the separator, and the blank in front of it
      have hc : ' ' = c := (List.cons.inj heq).1
      have hb : '|' = b := (List.cons.inj (List.cons.inj heq).2).1
      have hpair := (List.isChain_append_cons_cons.1 h.tight).2.1 hb.symm
      rw [← hc] at hpair
      exact absurd hpair (by decide)

/-- Where two texts agree, so do their first spellings. -/
theorem IsSpelling.eq_of_append_eq {p q : List Char} (hp : IsSpelling p) (hq : IsSpelling q)
    {ps qs : List (List Char)} (h : p ++ behindFirst ps = q ++ behindFirst qs) : p = q := by
  rcases List.append_eq_append_iff.1 h with ⟨more, rfl, hmore⟩ | ⟨more, rfl, hmore⟩
  · rw [hq.eq_nil_of_append hmore, List.append_nil]
  · rw [hp.eq_nil_of_append hmore, List.append_nil]

/-- Spellings between separators are known from the text. -/
theorem intercalate_inj {ps qs : List (List Char)} (hps : ∀ p ∈ ps, IsSpelling p)
    (hqs : ∀ q ∈ qs, IsSpelling q)
    (h : separator.intercalate ps = separator.intercalate qs) : ps = qs := by
  induction ps generalizing qs with
  | nil =>
    cases qs with
    | nil => rfl
    | cons q qs =>
      rw [intercalate_eq_append, List.intercalate_nil] at h
      exact absurd (List.append_eq_nil_iff.1 h.symm).1 (hqs q List.mem_cons_self).ne_nil
  | cons p ps ih =>
    cases qs with
    | nil =>
      rw [intercalate_eq_append, List.intercalate_nil] at h
      exact absurd (List.append_eq_nil_iff.1 h).1 (hps p List.mem_cons_self).ne_nil
    | cons q qs =>
      obtain ⟨hp, hrest⟩ := List.forall_mem_cons.1 hps
      obtain ⟨hq, hrest'⟩ := List.forall_mem_cons.1 hqs
      rw [intercalate_eq_append, intercalate_eq_append] at h
      obtain rfl := hp.eq_of_append_eq hq h
      have hbehind := List.append_cancel_left h
      cases ps with
      | nil =>
        cases qs with
        | nil => rfl
        | cons q qs => exact absurd hbehind (by simp [behindFirst, separator])
      | cons p' ps =>
        cases qs with
        | nil => exact absurd hbehind (by simp [behindFirst, separator])
        | cons q' qs => rw [ih hrest hrest' (List.append_cancel_left hbehind)]

end TypeExpr

namespace TypeTerm

open TypeExpr

/-! ## Terms that are read -/

/-- A term as it comes from a text: its names are trimmed and have no bars. -/
inductive IsRead : TypeTerm → Prop where
  /-- A plain name, which is not empty. -/
  | basic {name : String} (hne : name.toList ≠ []) (htrim : Text.IsTrimmed name.toList)
      (hbar : '|' ∉ name.toList) : IsRead (.basic name)
  /-- A generic; its wrapper may be empty. -/
  | wrapped {wrapper : String} {inner : List TypeTerm} (htrim : Text.IsTrimmed wrapper.toList)
      (hbar : '|' ∉ wrapper.toList) (hinner : ∀ t ∈ inner, IsRead t) :
      IsRead (.wrapped wrapper inner)
  /-- An array. -/
  | array {inner : List TypeTerm} (hinner : ∀ t ∈ inner, IsRead t) : IsRead (.array inner)

/-- The wrapper of a generic is the text in front of its first opening bracket. -/
theorem wrapper_of_outermost {term wrapper inner : List Char}
    (h : outermost term = .generic wrapper inner) :
    wrapper = Text.trim (term.takeWhile (· ≠ '<')) := by
  unfold outermost at h
  split at h
  · simp at h
  · split at h
    · simp at h
    · split at h
      · exact (Construct.generic.inj h).1.symm
      · simp at h

/-- What is read from a text whose bars stand behind brackets, balanced or not. -/
theorem isRead_ofChars {raw : List Char} (hne : Text.trim raw ≠ [])
    (hbars : BarsBehindOpen (Text.trim raw)) : (ofChars raw).IsRead := by
  induction raw using reading_induction with
  | step raw ih =>
    have hinside : ∀ inner, (outermost (Text.trim raw)).inner? = some inner →
        ∀ t ∈ (alternatives inner).map ofChars, IsRead t := by
      intro inner hinner t ht
      obtain ⟨p, hp, rfl⟩ := List.mem_map.1 ht
      obtain ⟨hpne, q, -, rfl⟩ := mem_alternatives.1 hp
      have htrim := (Text.isTrimmed_trim q).trim_eq
      refine ih inner hinner _ hp (by rwa [htrim]) ?_
      rw [htrim]
      exact barsBehindOpen_of_mem_alternatives hp
    rw [ofChars_eq]
    cases houter : outermost (Text.trim raw) with
    | name text =>
      obtain ⟨rfl, hopen, -⟩ := of_outermost_name houter
      refine .basic ?_ ?_ ?_ <;> rw [String.toList_ofList]
      · exact hne
      · exact Text.isTrimmed_trim raw
      · exact hbars.bar_not_mem hopen
    | generic wrapper inner =>
      have hwrapper := wrapper_of_outermost houter
      refine .wrapped ?_ ?_ (hinside inner (by rw [houter]; rfl)) <;>
        rw [String.toList_ofList, hwrapper]
      · exact Text.isTrimmed_trim _
      · exact fun hbar => hbars.bar_not_mem_takeWhile (mem_of_mem_trim hbar)
    | arrayOf inner => exact .array (hinside inner (by rw [houter]; rfl))

/-- What is read from an alternative. -/
theorem isRead_of_mem_alternatives {cs p : List Char} (h : p ∈ alternatives cs) :
    (ofChars p).IsRead := by
  obtain ⟨hne, q, -, rfl⟩ := mem_alternatives.1 h
  have htrim := (Text.isTrimmed_trim q).trim_eq
  refine isRead_ofChars (by rwa [htrim]) ?_
  rw [htrim]
  exact barsBehindOpen_of_mem_alternatives h

/-- The spelling of a term that is read can be told from its neighbours. -/
theorem IsRead.isSpelling {t : TypeTerm} (h : t.IsRead) : IsSpelling t.toChars := by
  induction h with
  | basic hne htrim hbar => exact ⟨hne, htrim, tight_of_no_bar hbar⟩
  | wrapped htrim hbar _ ih =>
    rw [toChars_wrapped]
    exact isSpelling_bracketed htrim hbar (tight_intercalate (List.forall_mem_map.2 ih))
  | @array inner hinner ih =>
    rcases toChars_array inner with ⟨name, rfl, hchars⟩ | hchars
    · rw [hchars]
      cases hinner _ List.mem_cons_self with
      | basic hne htrim hbar =>
        have hsuffix : Text.IsTrimmed [']'] := Text.trim_eq_self_iff.1 (by decide)
        have htrimmed := htrim.append hsuffix hne (by simp) ['[']
        refine ⟨by simp, by rwa [List.append_assoc] at htrimmed, tight_of_no_bar ?_⟩
        simpa using hbar
    · have harray : Text.IsTrimmed "Array".toList := Text.trim_eq_self_iff.1 (by decide)
      rw [hchars]
      exact isSpelling_bracketed harray (by decide)
        (tight_intercalate (List.forall_mem_map.2 ih))

end TypeTerm

end ApiTypings
