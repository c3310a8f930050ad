/-
# Pieces of a cut

A type expression is cut at its outer bars once.  The pieces have no outer bars left, and behind
every piece but the last all brackets are closed.  What stands at the end of a text, such as the
suffix of arrays, belongs to its last piece.

* `cutAtBars_spec` : the pieces of a cut;
* `alternatives_of_mem_alternatives` : an alternative is its only alternative;
* `alternatives_append_suffix`, `parse_append_suffix_iff` : the suffix of arrays behind a union.
-/
import ApiTypings.Proofs.TypeExpr.Balance

namespace ApiTypings

namespace TypeExpr

/-! ## What a cut leaves -/

/-- The pieces of a text that starts inside `depth` brackets.  No bar cuts a piece again, and behind
every piece but the last the brackets are closed. -/
theorem cutAtBars_spec (depth : Nat) (cs : List Char) :
    ∃ p ps, cutAtBars depth cs = p :: ps ∧ cutAtBars depth p = [p] ∧
      (ps ≠ [] → depthBehind depth p = 0) ∧ (∀ q ∈ ps, cutAtBars 0 q = [q]) ∧
      ps.Pairwise fun q _ => depthBehind 0 q = 0 := by
  induction cs generalizing depth with
  | nil =>
    exact ⟨[], [], rfl, rfl, fun h => absurd rfl h, fun _ hq => absurd hq List.not_mem_nil,
      List.Pairwise.nil⟩
  | cons c cs ih =>
    rw [cutAtBars]
    by_cases hbar : c = '|' ∧ depth = 0
    · obtain ⟨p, ps, hcut, hp, hclosed, hps, hpairs⟩ := ih 0
      rw [if_pos hbar, hcut, hbar.2]
      refine ⟨[], p :: ps, rfl, rfl, fun _ => rfl, List.forall_mem_cons.2 ⟨hp, hps⟩, ?_⟩
      exact List.pairwise_cons.2 ⟨fun q hq => hclosed (List.ne_nil_of_mem hq), hpairs⟩
    · obtain ⟨p, ps, hcut, hp, hclosed, hps, hpairs⟩ := ih (depthAfter depth c)
      rw [if_neg hbar, hcut]
      refine ⟨c :: p, ps, rfl, ?_, hclosed, hps, hpairs⟩
      rw [cutAtBars, if_neg hbar, hp]
      rfl

/-- No bar cuts a piece again. -/
theorem uncut_of_mem_cutAtBars {cs p : List Char} (h : p ∈ cutAtBars 0 cs) :
    cutAtBars 0 p = [p] := by
  obtain ⟨first, rest, hcut, hfirst, -, hrest, -⟩ := cutAtBars_spec 0 cs
  rw [hcut] at h
  rcases List.mem_cons.1 h with rfl | h
  · exact hfirst
  · exact hrest p h

/-- Behind every piece but the last the brackets are closed. -/
theorem pairwise_cutAtBars (cs : List Char) :
    (cutAtBars 0 cs).Pairwise fun p _ => depthBehind 0 p = 0 := by
  obtain ⟨first, rest, hcut, -, hclosed, -, hpairs⟩ := cutAtBars_spec 0 cs
  rw [hcut]
  exact List.pairwise_cons.2 ⟨fun q hq => hclosed (List.ne_nil_of_mem hq), hpairs⟩

theorem pairwise_alternatives (cs : List Char) :
    (alternatives cs).Pairwise fun p _ => depthBehind 0 p = 0 := by
  refine (List.Pairwise.map Text.trim (fun p q hp => ?_) (pairwise_cutAtBars cs)).filter _
  rwa [depthBehind_trim]

/-- The beginning of a text that no bar cuts. -/
theorem uncut_of_append {depth : Nat} {xs ys : List Char}
    (h : cutAtBars depth (xs ++ ys) = [xs ++ ys]) : cutAtBars depth xs = [xs] := by
  induction xs generalizing depth with
  | nil => rfl
  | cons c xs ih =>
    rw [List.cons_append, cutAtBars] at h
    by_cases hbar : c = '|' ∧ depth = 0
    · rw [if_pos hbar] at h
      exact absurd (List.cons.inj h).1 (by simp)
    · rw [if_neg hbar] at h
      rw [cutAtBars, if_neg hbar, ih (pushFront_eq_singleton (cutAtBars_ne_nil _ _) h)]
      rfl

/-- The end of a text that no bar cuts. -/
theorem uncut_of_append_right {depth : Nat} {xs ys : List Char}
    (h : cutAtBars depth (xs ++ ys) = [xs ++ ys]) :
    cutAtBars (depthBehind depth xs) ys = [ys] := by
  induction xs generalizing depth with
  | nil => exact h
  | cons c xs ih =>
    rw [List.cons_append, cutAtBars] at h
    by_cases hbar : c = '|' ∧ depth = 0
    · rw [if_pos hbar] at h
      exact absurd (List.cons.inj h).1 (by simp)
    · rw [if_neg hbar] at h
      exact ih (pushFront_eq_singleton (cutAtBars_ne_nil _ _) h)

theorem uncut_trim {depth : Nat} {cs : List Char} (h : cutAtBars depth cs = [cs]) :
    cutAtBars depth (Text.trim cs) = [Text.trim cs] := by
  obtain ⟨before, after, hbefore, -, heq⟩ := Text.exists_blanks cs
  rw [heq] at h
  have hend := uncut_of_append_right (uncut_of_append h)
  rwa [depthBehind_of_isBalanced (isBalanced_of_blank hbefore)] at hend

/-- No bar cuts an alternative. -/
theorem uncut_of_mem_alternatives {cs p : List Char} (h : p ∈ alternatives cs) :
    cutAtBars 0 p = [p] := by
  obtain ⟨-, q, hq, rfl⟩ := mem_alternatives.1 h
  exact uncut_trim (uncut_of_mem_cutAtBars hq)

/-! ## Pieces put together -/

/-- The pieces, joined by bars, are the text. -/
theorem intercalate_cutAtBars (depth : Nat) (cs : List Char) :
    ['|'].intercalate (cutAtBars depth cs) = cs := by
  induction cs generalizing depth with
  | nil => rfl
  | cons c cs ih =>
    rw [cutAtBars]
    by_cases hbar : c = '|' ∧ depth = 0
    · obtain ⟨p, ps, hcut⟩ := List.exists_cons_of_ne_nil (cutAtBars_ne_nil 0 cs)
      rw [if_pos hbar, hcut, List.intercalate_cons_cons, ← hcut, ih, hbar.1]
      rfl
    · obtain ⟨p, ps, hcut⟩ := List.exists_cons_of_ne_nil (cutAtBars_ne_nil (depthAfter depth c) cs)
      rw [if_neg hbar, hcut, pushFront, Text.intercalate_cons_cons, ← hcut, ih]

/-- Joined texts are all but the last one with a separator behind each, and the last one. -/
theorem intercalate_concat (sep : List Char) (ps : List (List Char)) (last : List Char) :
    sep.intercalate (ps ++ [last]) = ps.flatMap (· ++ sep) ++ last := by
  induction ps with
  | nil => simp
  | cons p ps ih =>
    have hne : ps ++ [last] ≠ [] := by simp
    obtain ⟨q, qs, hqs⟩ := List.exists_cons_of_ne_nil hne
    rw [List.cons_append, hqs, List.intercalate_cons_cons, ← hqs, ih, List.flatMap_cons,
      List.append_assoc, List.append_assoc, List.append_assoc]

/-! ## The alternatives of pieces -/

/-- A text that no bar cuts is one alternative, unless it is blank. -/
theorem alternatives_of_uncut {cs : List Char} (h : cutAtBars 0 cs = [cs]) :
    alternatives cs = if Text.trim cs = [] then [] else [Text.trim cs] := by
  rw [alternatives, h, List.map_singleton]
  split <;> simp_all

/-- An alternative is its only alternative. -/
theorem alternatives_of_mem_alternatives {cs p : List Char} (h : p ∈ alternatives cs) :
    alternatives p = [p] := by
  have hp := uncut_of_mem_alternatives h
  obtain ⟨hne, q, -, rfl⟩ := mem_alternatives.1 h
  rw [alternatives_of_uncut hp, (Text.isTrimmed_trim q).trim_eq, if_neg hne]

/-- The alternatives of a text are those of its pieces. -/
theorem alternatives_eq_flatMap (cs : List Char) :
    alternatives cs = (cutAtBars 0 cs).flatMap alternatives := by
  have hpieces : ∀ ps : List (List Char), (∀ p ∈ ps, cutAtBars 0 p = [p]) →
      (ps.map Text.trim).filter (!·.isEmpty) = ps.flatMap alternatives := by
    intro ps hps
    induction ps with
    | nil => rfl
    | cons p ps ih =>
      obtain ⟨hp, hps⟩ := List.forall_mem_cons.1 hps
      rw [List.flatMap_cons, ← ih hps, alternatives_of_uncut hp, List.map_cons, List.filter_cons]
      cases Text.trim p <;> rfl
  exact hpieces _ fun p hp => uncut_of_mem_cutAtBars hp

/-! ## The suffix of arrays -/

theorem trim_append_suffix (cs : List Char) :
    Text.trim (cs ++ "[]".toList) = Text.trimStart cs ++ "[]".toList := by
  obtain ⟨before, hbefore, heq⟩ := Text.exists_blanks_trimStart cs
  have htrimmed : Text.IsTrimmed (Text.trimStart cs ++ "[]".toList) := by
    refine ⟨fun c hc => ?_, fun c hc => ?_⟩
    · cases hstart : Text.trimStart cs with
      | nil =>
        obtain rfl : '[' = c := by simpa [hstart] using hc
        rfl
      | cons d ds =>
        have hhead : ∀ c ∈ (Text.trimStart cs).head?, Text.isBlank c = false := Text.head_trimStart
        rw [hstart] at hhead hc
        exact hhead c hc
    · obtain rfl : ']' = c := by simpa using hc
      rfl
  conv_lhs => rw [heq]
  rw [List.append_assoc, Text.trim_blank_append hbefore, htrimmed.trim_eq]

/-- The suffix of arrays behind a text stands behind its last piece, without leading blanks. -/
theorem alternatives_append_suffix {cs last : List Char} {front : List (List Char)}
    (h : cutAtBars 0 cs = front ++ [last]) :
    alternatives (cs ++ "[]".toList)
      = front.flatMap alternatives ++ [Text.trimStart last ++ "[]".toList] := by
  have hcut : cutAtBars 0 (cs ++ "[]".toList) = front ++ [last ++ "[]".toList] :=
    cutAtBars_append_of_no_bar (by decide) h
  have hmem : last ++ "[]".toList ∈ cutAtBars 0 (cs ++ "[]".toList) := by
    rw [hcut]
    exact List.mem_append_right _ (List.mem_singleton_self _)
  have hlast := uncut_of_mem_cutAtBars hmem
  rw [alternatives_eq_flatMap, hcut, List.flatMap_append, List.flatMap_singleton,
    alternatives_of_uncut hlast, trim_append_suffix, if_neg (by simp)]

/-- Only the last piece between the outer bars of a text has anything in it. -/
def OnlyLast (cs : List Char) : Prop := ∀ p ∈ (cutAtBars 0 cs).dropLast, Text.trim p = []

instance (cs : List Char) : Decidable (OnlyLast cs) :=
  inferInstanceAs (Decidable (∀ p ∈ (cutAtBars 0 cs).dropLast, Text.trim p = []))

theorem onlyLast_of_uncut {cs : List Char} (h : cutAtBars 0 cs = [cs]) : OnlyLast cs := by
  intro p hp
  rw [h] at hp
  exact absurd hp List.not_mem_nil

/-- The text in front of the suffix of an alternative has no outer bars. -/
theorem uncut_of_suffix_mem_alternatives {cs element : List Char}
    (h : element ++ "[]".toList ∈ alternatives cs) : cutAtBars 0 element = [element] :=
  uncut_of_append (uncut_of_mem_alternatives h)

end TypeExpr

namespace TypeTerm

open TypeExpr

/-- A text with the suffix of arrays is read as the array of its alternatives. -/
theorem ofChars_append_suffix (cs : List Char) :
    ofChars (Text.trimStart cs ++ "[]".toList) = .array ((alternatives cs).map ofChars) := by
  obtain ⟨before, hbefore, heq⟩ := Text.exists_blanks_trimStart cs
  have hinside : alternatives (Text.trimStart cs) = alternatives cs := by
    conv_rhs => rw [heq, alternatives_blank_append hbefore]
  rw [ofChars_eq, trim_append_suffix, Text.trimStart_of_head Text.head_trimStart, outermost_suffix]
  dsimp only
  rw [hinside]

theorem length_le_intercalate {sep p : List Char} {ps : List (List Char)} (h : p ∈ ps) :
    p.length ≤ (sep.intercalate ps).length := by
  induction ps with
  | nil => exact absurd h List.not_mem_nil
  | cons q ps ih =>
    cases ps with
    | nil => rw [List.mem_singleton.1 h, List.intercalate_singleton]
    | cons r ps =>
      rw [List.intercalate_cons_cons, List.length_append, List.length_append]
      rcases List.mem_cons.1 h with rfl | h
      · omega
      · have := ih h
        omega

/-- A member of an array has a shorter spelling than the array. -/
theorem length_toChars_lt_array {t : TypeTerm} {ts : List TypeTerm} (h : t ∈ ts) :
    t.toChars.length < (array ts).toChars.length := by
  rcases toChars_array ts with ⟨name, rfl, hchars⟩ | hchars
  · rw [hchars, List.mem_singleton.1 h, toChars, List.length_append]
    exact Nat.lt_add_of_pos_right (by decide)
  · have hle : t.toChars.length ≤ (joined ts).length :=
      length_le_intercalate (List.mem_map_of_mem h)
    rw [hchars, List.length_append, List.length_cons, List.length_append]
    omega

end TypeTerm

namespace TypeSet

open TypeExpr

/-- An alternative is read as one term. -/
theorem parse_of_mem_alternatives {cs p : List Char} (h : p ∈ alternatives cs) :
    parse (.ofList p) = ⟨[.ofChars p]⟩ := by
  rw [parse, String.toList_ofList, alternatives_of_mem_alternatives h]
  rfl

/-- The suffix of arrays is about the whole type in front of it exactly when no alternative stands
in front of the last outer bar. -/
theorem parse_append_suffix_iff (value : String) :
    (parse (value ++ "[]") == ⟨[.array (parse value).terms]⟩) = true ↔
      OnlyLast value.toList := by
  have hsplit := List.dropLast_concat_getLast (cutAtBars_ne_nil 0 value.toList)
  rw [OnlyLast]
  generalize (cutAtBars 0 value.toList).dropLast = front at hsplit ⊢
  generalize (cutAtBars 0 value.toList).getLast (cutAtBars_ne_nil 0 value.toList) = last at hsplit
  have hpieces : ∀ p ∈ front, p ∈ cutAtBars 0 value.toList := fun p hp =>
    hsplit ▸ List.mem_append_left _ hp
  have hvalue : alternatives value.toList = front.flatMap alternatives ++ alternatives last := by
    rw [alternatives_eq_flatMap, ← hsplit, List.flatMap_append, List.flatMap_singleton]
  have hsuffix : parse (value ++ "[]") = ofTerms ((front.flatMap alternatives).map .ofChars
      ++ [.array ((alternatives last).map .ofChars)]) := by
    rw [parse, String.toList_append, alternatives_append_suffix hsplit.symm, List.map_append,
      List.map_singleton, TypeTerm.ofChars_append_suffix]
  constructor
  · intro hsame p hp
    by_contra hne
    -- the alternative in front would be spelled like an array with this alternative inside
    have hmem : Text.trim p ∈ alternatives value.toList :=
      mem_alternatives.2 ⟨hne, p, hpieces p hp, rfl⟩
    have hfront : Text.trim p ∈ front.flatMap alternatives := by
      refine List.mem_flatMap.2 ⟨p, hp, ?_⟩
      rw [alternatives_of_uncut (uncut_of_mem_cutAtBars (hpieces p hp)), if_neg hne]
      exact List.mem_singleton_self _
    have hkey : (TypeTerm.ofChars (Text.trim p)).render ∈ (parse (value ++ "[]")).keys := by
      rw [hsuffix, mem_keys_ofTerms, List.map_append, List.map_map]
      exact List.mem_append_left _ (List.mem_map_of_mem (f := TypeTerm.render ∘ .ofChars) hfront)
    have harray : (TypeTerm.ofChars (Text.trim p)).render
        = (TypeTerm.array (parse value).terms).render :=
      List.mem_singleton.1 ((beq_iff.1 hsame).2 _ hkey)
    have hin : (TypeTerm.ofChars (Text.trim p)).render ∈ (parse value).keys := by
      rw [parse, mem_keys_ofTerms, List.map_map]
      exact List.mem_map_of_mem (f := TypeTerm.render ∘ .ofChars) hmem
    obtain ⟨t, ht, hspelled⟩ := List.mem_map.1 hin
    have hchars : t.toChars = (TypeTerm.array (parse value).terms).toChars := by
      rw [← String.ofList_inj]
      exact hspelled.trans harray
    exact absurd (TypeTerm.length_toChars_lt_array ht) (by rw [hchars]; exact Nat.lt_irrefl _)
  · intro hblank
    have hfront : front.flatMap alternatives = [] := by
      refine List.flatMap_eq_nil_iff.2 fun p hp => ?_
      rw [alternatives_of_uncut (uncut_of_mem_cutAtBars (hpieces p hp)), if_pos (hblank p hp)]
    have hmem : last ∈ cutAtBars 0 value.toList := by
      rw [← hsplit]
      exact List.mem_append_right _ (List.mem_singleton_self _)
    have hlast := uncut_of_mem_cutAtBars hmem
    -- at most one alternative is left, and no spelling can be repeated
    have hterms : (parse value).terms = (alternatives last).map .ofChars := by
      rw [parse, hvalue, hfront, List.nil_append, alternatives_of_uncut hlast]
      split <;> rfl
    rw [hsuffix, hfront, hterms]
    exact beq_refl _

end TypeSet

end ApiTypings
