/-
# Terms made from texts

Not every term is read from a text.  The alternatives of a text are cut at its outer bars, so behind
every alternative but the last the brackets are closed; and an alternative that stands inside of
brackets cannot have closed them.  So all alternatives but the last are balanced, and the last one
alone may end with a closing bracket of somebody else.

* `balanced_of_uncut` : the pieces of a text that no bar cuts inside of brackets;
* `spelled` : the shapes of a spelling;
* `ownsClosing_ofChars`, `isMade_of_mem_alternatives` : what terms are made from texts.
-/
import ApiTypings.Proofs.TypeExpr.Reread

namespace ApiTypings

namespace TypeExpr

/-! ## Pieces inside of brackets -/

/-- The pieces of a text that no bar cuts inside of one more bracket: the first one closes the
brackets that are open, and all others but the last are balanced. -/
theorem balanced_of_uncut {depth : Nat} {cs : List Char} (h : cutAtBars (depth + 1) cs = [cs]) :
    ∃ p ps, cutAtBars depth cs = p :: ps ∧ (ps ≠ [] → isBalancedFrom depth p = true) ∧
      ps.Pairwise fun q _ => isBalanced q = true := by
  induction cs generalizing depth with
  | nil => exact ⟨[], [], rfl, fun hne => absurd rfl hne, List.Pairwise.nil⟩
  | cons c cs ih =>
    rw [cutAtBars, if_neg (by omega)] at h
    have hrest := pushFront_eq_singleton (cutAtBars_ne_nil _ _) h
    rw [cutAtBars]
    by_cases hbar : c = '|' ∧ depth = 0
    · obtain ⟨rfl, rfl⟩ := hbar
      obtain ⟨p, ps, hcut, hp, hps⟩ := ih hrest
      rw [if_pos ⟨rfl, rfl⟩, hcut]
      refine ⟨[], p :: ps, rfl, fun _ => rfl, ?_⟩
      exact List.pairwise_cons.2 ⟨fun q hq => hp (List.ne_nil_of_mem hq), hps⟩
    · rw [if_neg hbar]
      rcases bracket_cases c with rfl | rfl | ⟨hopen, hclose⟩
      · obtain ⟨p, ps, hcut, hp, hps⟩ := ih hrest
        rw [depthAfter_open, hcut]
        refine ⟨'<' :: p, ps, rfl, fun hne => ?_, hps⟩
        rw [isBalancedFrom, depthAfter_open, hp hne]
        rfl
      · cases depth with
        | zero =>
          -- the one bracket that is open is closed here, and behind it no bar may stand outside
          have hone : cutAtBars 0 cs = [cs] := hrest
          rw [depthAfter_close, hone]
          exact ⟨'>' :: cs, [], rfl, fun hne => absurd rfl hne, List.Pairwise.nil⟩
        | succ depth =>
          obtain ⟨p, ps, hcut, hp, hps⟩ := ih hrest
          rw [depthAfter_close, Nat.add_sub_cancel, hcut]
          exact ⟨'>' :: p, ps, rfl, fun hne => by simp [isBalancedFrom, depthAfter, hp hne], hps⟩
      · rw [depthAfter_of_ne hopen hclose] at hrest ⊢
        obtain ⟨p, ps, hcut, hp, hps⟩ := ih hrest
        rw [hcut]
        refine ⟨c :: p, ps, rfl, fun hne => ?_, hps⟩
        rw [isBalancedFrom, beq_eq_false_iff_ne.2 hclose, depthAfter_of_ne hopen hclose, hp hne]
        rfl

/-- All pieces but the last are balanced, in a text that no bar cuts inside of brackets. -/
theorem pairwise_balanced_cutAtBars {cs : List Char} (h : cutAtBars 1 cs = [cs]) :
    (cutAtBars 0 cs).Pairwise fun p _ => isBalanced p = true := by
  obtain ⟨p, ps, hcut, hp, hps⟩ := balanced_of_uncut h
  rw [hcut]
  exact List.pairwise_cons.2 ⟨fun q hq => hp (List.ne_nil_of_mem hq), hps⟩

/-- So are all alternatives but the last. -/
theorem pairwise_balanced_alternatives {cs : List Char} (h : cutAtBars 1 cs = [cs]) :
    (alternatives cs).Pairwise fun p _ => isBalanced p = true := by
  refine (List.Pairwise.map Text.trim (fun p q hp => ?_) (pairwise_balanced_cutAtBars h)).filter _
  rwa [isBalanced_trim]

/-- No bar cuts what stands behind the first opening bracket of a term that no bar cuts. -/
theorem uncut_behind_open {front rest : List Char} (hfront : '<' ∉ front)
    (h : cutAtBars 0 (front ++ '<' :: rest) = [front ++ '<' :: rest]) :
    cutAtBars 1 rest = [rest] := by
  rw [List.append_cons] at h
  have hrest := uncut_of_append_right h
  rwa [depthBehind_append, depthBehind_of_no_open hfront] at hrest

/-- The text inside a term that no bar cuts has such alternatives. -/
theorem pairwise_balanced_inside {raw inside : List Char}
    (h : (outermost (Text.trim raw)).inner? = some inside) (huncut : cutAtBars 0 raw = [raw]) :
    (alternatives inside).Pairwise fun p _ => isBalanced p = true := by
  have hterm := uncut_trim huncut
  cases shape h with
  | suffix heq _ _ =>
    rw [heq] at hterm
    rw [alternatives_of_uncut (uncut_of_append hterm)]
    split
    · exact List.Pairwise.nil
    · exact List.pairwise_singleton _ _
  | closed front rest blanks heq hfront _ hinner _ _ =>
    rw [heq] at hterm
    rw [hinner]
    exact pairwise_balanced_alternatives
      (uncut_trim (uncut_of_append (uncut_behind_open hfront hterm)))
  | unclosed front rest heq hfront hinner _ _ =>
    rw [heq] at hterm
    rw [hinner]
    exact pairwise_balanced_alternatives (uncut_trim (uncut_behind_open hfront hterm))

/-- When all members but the last are balanced, the last one has the excess of all. -/
theorem excess_getLast {ps : List (List Char)} (h : ps.Pairwise fun p _ => isBalanced p = true)
    {last : List Char} (hlast : last ∈ ps.getLast?) : excess last = (ps.map excess).sum := by
  induction ps with
  | nil => exact absurd hlast (by simp)
  | cons p ps ih =>
    obtain ⟨hp, hps⟩ := List.pairwise_cons.1 h
    cases ps with
    | nil =>
      obtain rfl : p = last := by simpa using hlast
      simp
    | cons q ps =>
      rw [List.map_cons, List.sum_cons, excess_of_isBalanced (hp q List.mem_cons_self), zero_add]
      exact ih hps hlast

/-- The end of a text: it neither ends with the suffix of arrays nor with a closing bracket. -/
def EndsPlain (cs : List Char) : Prop :=
  Text.stripSuffix? "[]".toList cs = none ∧ cs.getLast? ≠ some '>'

/-- A text that ends with a plain end has one, if it is not empty. -/
theorem EndsPlain.of_append {before cs : List Char} (h : EndsPlain (before ++ cs)) (hne : cs ≠ []) :
    EndsPlain cs := by
  refine ⟨?_, fun hlast => h.2 ?_⟩
  · rw [Option.eq_none_iff_forall_ne_some]
    intro rest hrest
    have hsuffix : Text.stripSuffix? "[]".toList (before ++ cs) = some (before ++ rest) := by
      rw [Text.stripSuffix?_eq_some, Text.stripSuffix?_eq_some.1 hrest, List.append_assoc]
    rw [h.1] at hsuffix
    exact absurd hsuffix (by simp)
  · rwa [List.getLast?_append_of_ne_nil _ hne]

/-- A term that lacks its closing bracket ends with neither. -/
theorem endsPlain_of_lacksClosing {front rest : List Char} (hfront : '<' ∉ front)
    (htrim : Text.IsTrimmed (front ++ '<' :: rest))
    (h : lacksClosing (front ++ '<' :: rest) = true) : EndsPlain (front ++ '<' :: rest) := by
  have hsuffix : Text.stripSuffix? "[]".toList (front ++ '<' :: rest) = none := by
    by_contra hsome
    obtain ⟨element, helement⟩ := Option.ne_none_iff_exists'.1 hsome
    rw [lacksClosing, helement] at h
    exact absurd h (by simp)
  refine ⟨hsuffix, fun hlast => ?_⟩
  rw [(outermost_append_open hfront hsuffix).2, Bool.not_eq_true'] at h
  have hrest : rest ≠ [] := by
    rintro rfl
    rw [List.getLast?_append_of_ne_nil _ (by simp)] at hlast
    exact absurd hlast (by decide)
  rw [List.append_cons, List.getLast?_append_of_ne_nil _ hrest] at hlast
  obtain ⟨inner, hinner⟩ := List.getLast?_eq_some_iff.1 hlast
  -- the closing bracket is no blank, and so it is there without trailing blanks too
  have hclosing : hasClosing rest = true := by
    rw [hasClosing, Text.trimEnd_of_last (fun c hc => ?_), Option.isSome_iff_exists]
    · exact ⟨inner, Text.stripSuffix?_eq_some.2 hinner⟩
    · refine htrim.last c ?_
      rwa [List.append_cons, List.getLast?_append_of_ne_nil _ hrest]
  rw [hclosing] at h
  exact absurd h (by simp)

/-- The last alternative of a trimmed text ends it, or is balanced like those in front of it. -/
theorem last_alternative {cs last : List Char} (htrim : Text.IsTrimmed cs)
    (huncut : cutAtBars 1 cs = [cs]) (hlast : last ∈ (alternatives cs).getLast?) :
    isBalanced last = true ∨ last ≠ [] ∧ ∃ before, cs = before ++ last := by
  have hsplit := List.dropLast_concat_getLast (cutAtBars_ne_nil 0 cs)
  have hbalanced := pairwise_balanced_cutAtBars huncut
  generalize (cutAtBars 0 cs).dropLast = front at hsplit
  generalize (cutAtBars 0 cs).getLast (cutAtBars_ne_nil 0 cs) = piece at hsplit
  have hcs : cs = front.flatMap (· ++ ['|']) ++ piece := by
    rw [← intercalate_concat, hsplit, intercalate_cutAtBars]
  have hmem : piece ∈ cutAtBars 0 cs := by
    rw [← hsplit]
    exact List.mem_append_right _ (List.mem_singleton_self _)
  rw [alternatives_eq_flatMap, ← hsplit, List.flatMap_append, List.flatMap_singleton,
    alternatives_of_uncut (uncut_of_mem_cutAtBars hmem)] at hlast
  by_cases hblank : Text.trim piece = []
  · -- the last alternative is in a piece in front of the last one
    left
    rw [if_pos hblank, List.append_nil] at hlast
    obtain ⟨p, hp, hin⟩ := List.mem_flatMap.1 (List.mem_of_mem_getLast? hlast)
    rw [← hsplit] at hbalanced
    exact isBalanced_of_mem_alternatives
      ((List.pairwise_append.1 hbalanced).2.2 p hp piece (List.mem_singleton_self _)) hin
  · right
    rw [if_neg hblank, List.getLast?_append_of_ne_nil _ (by simp)] at hlast
    obtain rfl : Text.trim piece = last := by simpa using hlast
    obtain ⟨before, after, -, hafter, hpiece⟩ := Text.exists_blanks piece
    rw [hcs, hpiece, ← List.append_assoc] at htrim
    obtain rfl := htrim.eq_nil_of_blank hafter
    refine ⟨hblank, front.flatMap (· ++ ['|']) ++ before, ?_⟩
    rw [List.append_nil] at hpiece
    conv_lhs => rw [hcs, hpiece]
    rw [List.append_assoc]

theorem excess_le_zero_of_no_open {cs : List Char} (h : '<' ∉ cs) : excess cs ≤ 0 := by
  rw [excess, List.count_eq_zero_of_not_mem h]
  omega

/-- The last alternative inside a term that no bar cuts.  It has no closing bracket too many, or no
end that looks like one, if the term has not. -/
theorem last_inside {raw inside last : List Char}
    (hinside : (outermost (Text.trim raw)).inner? = some inside)
    (huncut : cutAtBars 0 raw = [raw]) (hlast : last ∈ (alternatives inside).getLast?)
    (h : 0 ≤ excess raw ∨ EndsPlain (Text.trim raw)) : 0 ≤ excess last ∨ EndsPlain last := by
  have hexcess : excess last = excess inside :=
    (excess_getLast (pairwise_balanced_inside hinside huncut) hlast).trans
      (sum_excess_alternatives inside)
  have htrim := Text.isTrimmed_trim raw
  rw [← excess_trim raw] at h
  cases shape hinside with
  | suffix heq _ _ =>
    rw [heq] at h
    rcases h with hraw | hplain
    · rw [excess_append, show excess "[]".toList = 0 from rfl] at hraw
      exact Or.inl (by omega)
    · rw [EndsPlain, Text.stripSuffix?_eq_some.2 rfl] at hplain
      exact absurd hplain.1 (by simp)
  | closed front rest blanks heq hfront hblanks hinner _ _ =>
    rw [heq] at h htrim
    rcases h with hraw | hplain
    · have hle := excess_le_zero_of_no_open hfront
      rw [excess_append, excess_cons_open, excess_append, excess_cons_close,
        excess_of_blank hblanks] at hraw
      rw [hexcess, hinner, excess_trim]
      exact Or.inl (by omega)
    · have hsplit : front ++ '<' :: (rest ++ '>' :: blanks)
          = (front ++ '<' :: (rest ++ ['>'])) ++ blanks := by simp
      rw [hsplit] at htrim
      rw [htrim.eq_nil_of_blank hblanks, ← List.cons_append, ← List.append_assoc] at hplain
      exact absurd List.getLast?_concat hplain.2
  | unclosed front rest heq hfront hinner _ hclosing =>
    have hterm := uncut_trim huncut
    rw [heq] at hterm htrim hclosing
    have hplain := endsPlain_of_lacksClosing hfront htrim hclosing
    have hrest := uncut_trim (uncut_behind_open hfront hterm)
    rw [hinner] at hlast
    rcases last_alternative (Text.isTrimmed_trim rest) hrest hlast with
      hbalanced | ⟨hne, before, hin⟩
    · rw [excess_of_isBalanced hbalanced]
      exact Or.inl (Int.le_refl 0)
    · obtain ⟨start, after, -, hafter, hsplit⟩ := Text.exists_blanks rest
      have hwhole :
          front ++ '<' :: rest = (front ++ '<' :: (start ++ Text.trim rest)) ++ after := by
        conv_lhs => rw [hsplit]
        simp
      rw [hwhole] at htrim hplain
      rw [htrim.eq_nil_of_blank hafter, List.append_nil, hin, ← List.append_assoc start,
        ← List.cons_append, ← List.append_assoc] at hplain
      exact Or.inr (hplain.of_append hne)

end TypeExpr

namespace TypeTerm

open TypeExpr

/-! ## Terms inside a term -/

/-- The terms inside a term. -/
def inner : TypeTerm → List TypeTerm
  | .basic _ => []
  | .wrapped _ ts => ts
  | .array ts => ts

theorem sizeOf_lt_of_mem_inner {t u : TypeTerm} (h : u ∈ t.inner) : sizeOf u < sizeOf t := by
  cases t with
  | basic name => exact absurd h List.not_mem_nil
  | wrapped wrapper ts =>
    have := List.sizeOf_lt_of_mem (show u ∈ ts from h)
    simp only [wrapped.sizeOf_spec]
    omega
  | array ts =>
    have := List.sizeOf_lt_of_mem (show u ∈ ts from h)
    simp only [array.sizeOf_spec]
    omega

/-- What holds of a term when it holds of the terms inside it holds of all terms. -/
theorem inner_induction {P : TypeTerm → Prop} (step : ∀ t : TypeTerm, (∀ u ∈ t.inner, P u) → P t)
    (t : TypeTerm) : P t :=
  step t fun u hu =>
    have := sizeOf_lt_of_mem_inner hu
    inner_induction step u
termination_by sizeOf t

/-- Reading a construct gives the terms inside it. -/
theorem inner_ofChars (raw : List Char) :
    (ofChars raw).inner = match (outermost (Text.trim raw)).inner? with
      | some inside => (alternatives inside).map ofChars
      | none => [] := by
  rw [ofChars_eq]
  cases outermost (Text.trim raw) <;> rfl

/-! ## Shapes of spellings -/

/-- A text that may stand in front of an opening bracket. -/
structure IsWrapper (cs : List Char) : Prop where
  no_open : '<' ∉ cs
  no_bar : '|' ∉ cs
  trimmed : Text.IsTrimmed cs

/-- The shapes of the spelling of a term. -/
inductive Spelled (t : TypeTerm) : Prop where
  /-- A plain name. -/
  | name (name : String) (hterm : t = .basic name)
  /-- An array of a plain name. -/
  | suffix (name : String) (hterm : t = .array [.basic name])
  /-- A text with the spellings of the terms inside in brackets. -/
  | bracketed (front : List Char) (hfront : IsWrapper front)
      (hchars : t.toChars = front ++ '<' :: (joined t.inner ++ ['>']))

theorem spelled {t : TypeTerm} (hnamed : t.IsNamed) (hread : t.IsRead) : Spelled t := by
  cases t with
  | basic name => exact .name name rfl
  | wrapped wrapper ts =>
    cases hnamed with
    | wrapped hopen _ =>
      cases hread with
      | wrapped htrim hbar _ => exact .bracketed _ ⟨hopen, hbar, htrim⟩ (toChars_wrapped wrapper ts)
  | array ts =>
    by_cases hone : OneName ts
    · obtain ⟨name, rfl⟩ := hone
      exact .suffix name rfl
    · have htrim : Text.IsTrimmed "Array".toList := Text.trim_eq_self_iff.1 (by decide)
      refine .bracketed "Array".toList ⟨by decide, by decide, htrim⟩ ?_
      rw [toChars_array_of_not_oneName hone, toChars_wrapped, inner]

/-! ## Terms that are made -/

/-- A term that does not end with a plain name that ends with a closing bracket. -/
inductive OwnsClosing : TypeTerm → Prop where
  /-- The term is no such name, and the last term inside it does not end with one. -/
  | mk {t : TypeTerm} (hname : ∀ name, t = .basic name → name.toList.getLast? ≠ some '>')
      (hlast : ∀ u ∈ t.inner.getLast?, OwnsClosing u) : OwnsClosing t

/-- A term as it is made from a text.  In every list inside, all terms but the last own the closing
brackets at their ends. -/
inductive IsMade : TypeTerm → Prop where
  /-- The names of the term are those of a text, and the terms inside are made. -/
  | mk {t : TypeTerm} (hnamed : t.IsNamed) (hread : t.IsRead) (hinner : ∀ u ∈ t.inner, IsMade u)
      (howns : t.inner.Pairwise fun u _ => u.OwnsClosing) : IsMade t

/-- A text that no bar cuts, and that has no closing bracket too many or no end that looks like
one. -/
theorem ownsClosing_ofChars {raw : List Char} (huncut : cutAtBars 0 raw = [raw])
    (h : 0 ≤ excess raw ∨ EndsPlain (Text.trim raw)) : (ofChars raw).OwnsClosing := by
  induction raw using reading_induction with
  | step raw ih =>
    cases hinside : (outermost (Text.trim raw)).inner? with
    | none =>
      obtain ⟨houter, hopen, -⟩ := outermost_of_inner?_none hinside
      refine .mk (fun name hname => ?_) fun u hu => ?_
      · have htext : name.toList = Text.trim raw := by
          rw [ofChars_eq, houter] at hname
          rw [← basic.inj hname, String.toList_ofList]
        rw [htext]
        rcases h with hexcess | hplain
        · -- without opening brackets there are no closing ones
          rw [← excess_trim, excess, List.count_eq_zero_of_not_mem hopen] at hexcess
          have hclose : '>' ∉ Text.trim raw := List.count_eq_zero.1 (by omega)
          exact fun hlast => hclose (List.mem_of_mem_getLast? hlast)
        · exact hplain.2
      · rw [inner_ofChars, hinside] at hu
        exact absurd hu (by simp)
    | some inside =>
      refine .mk (fun name hname => ?_) fun u hu => ?_
      · rw [ofChars_eq] at hname
        cases houter : outermost (Text.trim raw) with
        | name text =>
          rw [houter] at hinside
          exact absurd hinside (by simp [Construct.inner?])
        | generic wrapper text =>
          rw [houter] at hname
          exact absurd hname (by simp)
        | arrayOf text =>
          rw [houter] at hname
          exact absurd hname (by simp)
      · rw [inner_ofChars, hinside, List.getLast?_map] at hu
        obtain ⟨q, hq, rfl⟩ := Option.map_eq_some_iff.1 hu
        have hmem := List.mem_of_mem_getLast? hq
        have hend := last_inside hinside huncut hq h
        refine ih inside hinside q hmem (uncut_of_mem_alternatives hmem) ?_
        obtain ⟨-, piece, -, rfl⟩ := mem_alternatives.1 hmem
        rwa [(Text.isTrimmed_trim piece).trim_eq]

/-- Every alternative of a text is made. -/
theorem isMade_of_mem_alternatives {cs p : List Char} (hp : p ∈ alternatives cs) :
    (ofChars p).IsMade := by
  induction p using reading_induction generalizing cs with
  | step p ih =>
    have huncut := uncut_of_mem_alternatives hp
    have hterms : (∀ u ∈ (ofChars p).inner, IsMade u) ∧
        (ofChars p).inner.Pairwise fun u _ => u.OwnsClosing := by
      rw [inner_ofChars]
      cases hinside : (outermost (Text.trim p)).inner? with
      | none => exact ⟨fun u hu => absurd hu List.not_mem_nil, List.Pairwise.nil⟩
      | some inside =>
        refine ⟨List.forall_mem_map.2 fun q hq => ih inside hinside q hq hq, ?_⟩
        refine List.pairwise_map.2 ((pairwise_balanced_inside hinside huncut).imp_of_mem ?_)
        intro q _ hq _ hbalanced
        refine ownsClosing_ofChars (uncut_of_mem_alternatives hq) (Or.inl ?_)
        rw [excess_of_isBalanced hbalanced]
    exact .mk (isNamed_ofChars p) (isRead_of_mem_alternatives hp) hterms.1 hterms.2

end TypeTerm

end ApiTypings
