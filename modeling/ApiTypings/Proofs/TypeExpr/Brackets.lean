/-
# Brackets and bars

The cut of a type expression at its outer bars follows the bracket depth.  A balanced text leaves
the depth as it was, wherever it stands.  So a bar behind a balanced text cuts there, and inside
brackets no bar of a balanced text cuts at all.

* `isBalancedFrom_append`, `depthBehind_of_isBalancedFrom` : a balanced text and what follows it;
* `alternatives_append_bar` : a bar at depth zero separates the alternatives on its two sides;
* `uncut_append`, `uncut_of_isBalancedFrom` : texts that no bar cuts;
* `alternatives_intercalate_of_closed` : texts that close their brackets, joined by bars;
* `alternatives_intercalate` : alternatives, joined by bars, are read back.
-/
import ApiTypings.Proofs.Text.Trim
import ApiTypings.Proofs.TypeExpr.SetLaws

namespace ApiTypings.TypeExpr

/-! ## Depth -/

/-- The bracket depth behind a text that starts at `depth`. -/
def depthBehind (depth : Nat) (cs : List Char) : Nat := cs.foldl depthAfter depth

theorem depthBehind_cons (depth : Nat) (c : Char) (cs : List Char) :
    depthBehind depth (c :: cs) = depthBehind (depthAfter depth c) cs := rfl

theorem depthBehind_append (depth : Nat) (xs ys : List Char) :
    depthBehind depth (xs ++ ys) = depthBehind (depthBehind depth xs) ys :=
  List.foldl_append

theorem depthAfter_open (depth : Nat) : depthAfter depth '<' = depth + 1 := rfl

theorem depthAfter_close (depth : Nat) : depthAfter depth '>' = depth - 1 := rfl

/-- A character is an opening bracket, a closing bracket or no bracket. -/
theorem bracket_cases (c : Char) : c = '<' ∨ c = '>' ∨ (c ≠ '<' ∧ c ≠ '>') := by
  by_cases hopen : c = '<'
  · exact .inl hopen
  · by_cases hclose : c = '>'
    · exact .inr (.inl hclose)
    · exact .inr (.inr ⟨hopen, hclose⟩)

/-- Only brackets change the depth. -/
theorem depthAfter_of_ne {c : Char} (hopen : c ≠ '<') (hclose : c ≠ '>') (depth : Nat) :
    depthAfter depth c = depth := by
  rw [depthAfter, if_neg hopen, if_neg hclose]

/-- The first character of a text that closes `inner` brackets: a closing bracket closes one of
these, at any depth around them. -/
theorem step_of_isBalancedFrom {inner : Nat} {c : Char} {cs : List Char}
    (h : isBalancedFrom inner (c :: cs) = true) :
    isBalancedFrom (depthAfter inner c) cs = true ∧ ∀ depth : Nat,
      (c == '>' && depth + inner == 0) = false ∧
        depthAfter (depth + inner) c = depth + depthAfter inner c := by
  rw [isBalancedFrom, Bool.and_eq_true, Bool.not_eq_true', Bool.and_eq_false_iff] at h
  refine ⟨h.2, fun depth => ?_⟩
  rcases bracket_cases c with rfl | rfl | ⟨hopen, hclose⟩
  · rw [depthAfter_open, depthAfter_open]
    exact ⟨rfl, Nat.add_assoc depth inner 1⟩
  · have hpos : inner ≠ 0 := by simpa using h.1
    rw [depthAfter_close, depthAfter_close]
    exact ⟨by simpa using fun _ => hpos, by omega⟩
  · rw [depthAfter_of_ne hopen hclose, depthAfter_of_ne hopen hclose]
    exact ⟨by rw [beq_eq_false_iff_ne.2 hclose, Bool.false_and], rfl⟩

/-- A text that closes `inner` brackets, and what follows it. -/
theorem isBalancedFrom_append {inner : Nat} {xs : List Char} (h : isBalancedFrom inner xs = true)
    (depth : Nat) (ys : List Char) :
    isBalancedFrom (depth + inner) (xs ++ ys) = isBalancedFrom depth ys := by
  induction xs generalizing inner with
  | nil =>
    obtain rfl : inner = 0 := by simpa [isBalancedFrom] using h
    rfl
  | cons c xs ih =>
    obtain ⟨hrest, hstep⟩ := step_of_isBalancedFrom h
    rw [List.cons_append, isBalancedFrom, (hstep depth).1, (hstep depth).2, ih hrest]
    rfl

/-- Behind a text that closes `inner` brackets these brackets are closed. -/
theorem depthBehind_of_isBalancedFrom {inner : Nat} {xs : List Char}
    (h : isBalancedFrom inner xs = true) (depth : Nat) :
    depthBehind (depth + inner) xs = depth := by
  induction xs generalizing inner with
  | nil =>
    obtain rfl : inner = 0 := by simpa [isBalancedFrom] using h
    rfl
  | cons c xs ih =>
    obtain ⟨hrest, hstep⟩ := step_of_isBalancedFrom h
    rw [depthBehind_cons, (hstep depth).2, ih hrest]

/-- A balanced text leaves the depth as it was. -/
theorem depthBehind_of_isBalanced {cs : List Char} (h : isBalanced cs = true) (depth : Nat) :
    depthBehind depth cs = depth :=
  depthBehind_of_isBalancedFrom h depth

/-- Without brackets a text is balanced. -/
theorem isBalanced_of_no_bracket {cs : List Char} (hopen : '<' ∉ cs) (hclose : '>' ∉ cs) :
    isBalanced cs = true := by
  unfold isBalanced
  induction cs with
  | nil => rfl
  | cons c cs ih =>
    rw [List.mem_cons, not_or] at hopen hclose
    have hc : (c == '>') = false := beq_eq_false_iff_ne.2 (Ne.symm hclose.1)
    rw [isBalancedFrom, hc, depthAfter_of_ne (Ne.symm hopen.1) (Ne.symm hclose.1),
      ih hopen.2 hclose.2]
    rfl

/-- Behind a balanced text the rest is balanced as if it stood alone. -/
theorem isBalanced_append {xs : List Char} (h : isBalanced xs = true) (ys : List Char) :
    isBalanced (xs ++ ys) = isBalanced ys :=
  isBalancedFrom_append h 0 ys

/-- A balanced text in brackets is balanced. -/
theorem isBalanced_bracketed {cs : List Char} (h : isBalanced cs = true) :
    isBalanced ('<' :: (cs ++ ['>'])) = true := by
  show isBalancedFrom (1 + 0) (cs ++ ['>']) = true
  rw [isBalancedFrom_append h]
  rfl

/-- Balanced texts, joined by a balanced text, are balanced. -/
theorem isBalanced_intercalate {sep : List Char} {ps : List (List Char)}
    (hsep : isBalanced sep = true) (h : ∀ p ∈ ps, isBalanced p = true) :
    isBalanced (sep.intercalate ps) = true := by
  induction ps with
  | nil => rfl
  | cons p ps ih =>
    obtain ⟨hp, hps⟩ := List.forall_mem_cons.1 h
    cases ps with
    | nil => rwa [List.intercalate_singleton]
    | cons q ps =>
      rw [List.intercalate_cons_cons, List.append_assoc, isBalanced_append hp,
        isBalanced_append hsep]
      exact ih hps

/-! ## Blanks -/

/-- A blank is neither a bracket nor a bar. -/
theorem ne_of_isBlank {c : Char} (h : Text.isBlank c = true) : c ≠ '<' ∧ c ≠ '>' ∧ c ≠ '|' := by
  refine ⟨?_, ?_, ?_⟩ <;> · rintro rfl; exact absurd h (by decide)

theorem isBalanced_of_blank {blanks : List Char} (h : Text.isBlankText blanks = true) :
    isBalanced blanks = true := by
  rw [Text.isBlankText, List.all_eq_true] at h
  exact isBalanced_of_no_bracket (fun hm => (ne_of_isBlank (h _ hm)).1 rfl)
    (fun hm => (ne_of_isBlank (h _ hm)).2.1 rfl)

theorem bar_not_mem_of_blank {blanks : List Char} (h : Text.isBlankText blanks = true) :
    '|' ∉ blanks := fun hm =>
  (ne_of_isBlank (List.all_eq_true.1 h _ hm)).2.2 rfl

/-! ## Cuts -/

theorem pushFront_append (c : Char) {ps : List (List Char)} (hps : ps ≠ [])
    (qs : List (List Char)) : pushFront c (ps ++ qs) = pushFront c ps ++ qs := by
  cases ps with
  | nil => exact absurd rfl hps
  | cons p ps => rfl

theorem cutAtBars_ne_nil (depth : Nat) (cs : List Char) : cutAtBars depth cs ≠ [] := by
  cases cs with
  | nil => simp [cutAtBars]
  | cons c cs =>
    unfold cutAtBars
    split
    · simp
    · cases cutAtBars (depthAfter depth c) cs <;> simp [pushFront]

/-- A bar at depth zero cuts there. -/
theorem cutAtBars_append_bar {depth : Nat} {xs : List Char} (h : depthBehind depth xs = 0)
    (ys : List Char) :
    cutAtBars depth (xs ++ '|' :: ys) = cutAtBars depth xs ++ cutAtBars 0 ys := by
  induction xs generalizing depth with
  | nil =>
    obtain rfl : depth = 0 := h
    rfl
  | cons c xs ih =>
    rw [List.cons_append, cutAtBars, cutAtBars]
    by_cases hbar : c = '|' ∧ depth = 0
    · have h' : depthBehind 0 xs = 0 := by
        rw [hbar.1, hbar.2] at h
        exact h
      rw [if_pos hbar, if_pos hbar, ih h', List.cons_append]
    · rw [if_neg hbar, if_neg hbar, ih h, pushFront_append _ (cutAtBars_ne_nil _ _)]

/-- A bar at depth zero separates the alternatives on its two sides. -/
theorem alternatives_append_bar {xs : List Char} (h : depthBehind 0 xs = 0) (ys : List Char) :
    alternatives (xs ++ '|' :: ys) = alternatives xs ++ alternatives ys := by
  rw [alternatives, cutAtBars_append_bar h, List.map_append, List.filter_append]
  rfl

/-- The pieces of a text behind a text without bars and brackets. -/
theorem cutAtBars_plain_append {blanks : List Char} (h : Text.isBlankText blanks = true)
    {cs p : List Char} {ps : List (List Char)} (hcut : cutAtBars 0 cs = p :: ps) :
    cutAtBars 0 (blanks ++ cs) = (blanks ++ p) :: ps := by
  induction blanks with
  | nil => exact hcut
  | cons b blanks ih =>
    rw [Text.isBlankText, List.all_cons, Bool.and_eq_true] at h
    obtain ⟨hopen, hclose, hbar⟩ := ne_of_isBlank h.1
    rw [List.cons_append, cutAtBars, if_neg fun hc => hbar hc.1, depthAfter_of_ne hopen hclose,
      ih h.2]
    rfl

/-- Blanks in front of a text do not change its alternatives. -/
theorem alternatives_blank_append {blanks : List Char} (h : Text.isBlankText blanks = true)
    (cs : List Char) : alternatives (blanks ++ cs) = alternatives cs := by
  obtain ⟨p, ps, hcut⟩ := List.exists_cons_of_ne_nil (cutAtBars_ne_nil 0 cs)
  rw [alternatives, cutAtBars_plain_append h hcut, alternatives, hcut, List.map_cons,
    List.map_cons, Text.trim_blank_append h]

/-- A text without bars at the end of another belongs to its last piece. -/
theorem cutAtBars_append_of_no_bar {depth : Nat} {xs ys last : List Char}
    {front : List (List Char)} (hbar : '|' ∉ ys) (h : cutAtBars depth xs = front ++ [last]) :
    cutAtBars depth (xs ++ ys) = front ++ [last ++ ys] := by
  induction xs generalizing depth front last with
  | nil =>
    obtain ⟨rfl, rfl⟩ : front = [] ∧ last = [] := by
      have hsingle : front ++ [last] = [[]] := h.symm
      cases front with
      | nil => exact ⟨rfl, (List.cons.inj hsingle).1⟩
      | cons p ps => simp at hsingle
    exact cutAtBars_of_no_bar hbar
  | cons c xs ih =>
    rw [List.cons_append, cutAtBars]
    rw [cutAtBars] at h
    by_cases hcut : c = '|' ∧ depth = 0
    · rw [if_pos hcut] at h ⊢
      cases front with
      | nil => exact absurd (List.cons.inj h).2 (cutAtBars_ne_nil 0 xs)
      | cons p ps =>
        obtain ⟨rfl, hrest⟩ := List.cons.inj h
        rw [ih hrest]
        rfl
    · rw [if_neg hcut] at h ⊢
      obtain ⟨p, ps, hps⟩ := List.exists_cons_of_ne_nil (cutAtBars_ne_nil (depthAfter depth c) xs)
      rw [hps, pushFront] at h
      cases front with
      | nil =>
        obtain ⟨rfl, rfl⟩ := List.cons.inj h
        have hrest : cutAtBars (depthAfter depth c) (xs ++ ys) = [] ++ [p ++ ys] := ih hps
        rw [hrest]
        rfl
      | cons first front =>
        obtain ⟨rfl, rfl⟩ := List.cons.inj h
        have hrest : cutAtBars (depthAfter depth c) (xs ++ ys)
            = (p :: front) ++ [last ++ ys] := ih hps
        rw [hrest]
        rfl

/-- Blanks behind a text do not change its alternatives. -/
theorem alternatives_append_blank {blanks : List Char} (h : Text.isBlankText blanks = true)
    (cs : List Char) : alternatives (cs ++ blanks) = alternatives cs := by
  have hsplit := List.dropLast_concat_getLast (cutAtBars_ne_nil 0 cs)
  rw [alternatives, alternatives,
    cutAtBars_append_of_no_bar (bar_not_mem_of_blank h) hsplit.symm]
  conv_rhs => rw [← hsplit]
  rw [List.map_append, List.map_append, List.map_singleton, List.map_singleton,
    Text.trim_append_blank h]

theorem alternatives_trim (cs : List Char) : alternatives (Text.trim cs) = alternatives cs := by
  obtain ⟨before, after, hbefore, hafter, heq⟩ := Text.exists_blanks cs
  conv_rhs => rw [heq]
  rw [alternatives_append_blank hafter, alternatives_blank_append hbefore]

/-- Texts, joined by bars between blanks, have the alternatives of every text, if all texts but the
last close their brackets. -/
theorem alternatives_intercalate_of_closed {before after : List Char}
    (hbefore : Text.isBlankText before = true) (hafter : Text.isBlankText after = true)
    {ps : List (List Char)} (h : ps.Pairwise fun p _ => depthBehind 0 p = 0) :
    alternatives ((before ++ '|' :: after).intercalate ps) = ps.flatMap alternatives := by
  induction ps with
  | nil => rfl
  | cons p ps ih =>
    obtain ⟨hp, hps⟩ := List.pairwise_cons.1 h
    cases ps with
    | nil => simp
    | cons q ps =>
      have hdepth : depthBehind 0 (p ++ before) = 0 := by
        rw [depthBehind_append, hp q List.mem_cons_self,
          depthBehind_of_isBalanced (isBalanced_of_blank hbefore)]
      have hjoin : (before ++ '|' :: after).intercalate (p :: q :: ps)
          = p ++ before ++ '|' :: (after ++ (before ++ '|' :: after).intercalate (q :: ps)) := by
        rw [List.intercalate_cons_cons]
        simp only [List.append_assoc, List.cons_append]
      rw [hjoin, alternatives_append_bar hdepth, alternatives_append_blank hbefore,
        alternatives_blank_append hafter, ih hps]
      rfl

/-! ## Texts that no bar cuts -/

/-- What is in one piece with a text in front is in one piece. -/
theorem pushFront_eq_singleton {c : Char} {ps : List (List Char)} {cs : List Char} (hps : ps ≠ [])
    (h : pushFront c ps = [c :: cs]) : ps = [cs] := by
  cases ps with
  | nil => exact absurd rfl hps
  | cons p ps => simpa [pushFront] using h

/-- Two texts that no bar cuts, one behind the other. -/
theorem uncut_append {depth : Nat} {xs ys : List Char} (hx : cutAtBars depth xs = [xs])
    (hy : cutAtBars (depthBehind depth xs) ys = [ys]) :
    cutAtBars depth (xs ++ ys) = [xs ++ ys] := by
  induction xs generalizing depth with
  | nil => exact hy
  | cons c xs ih =>
    rw [cutAtBars] at hx
    by_cases hbar : c = '|' ∧ depth = 0
    · rw [if_pos hbar] at hx
      exact absurd (List.cons.inj hx).1 (by simp)
    · rw [if_neg hbar] at hx
      rw [List.cons_append, cutAtBars, if_neg hbar,
        ih (pushFront_eq_singleton (cutAtBars_ne_nil _ _) hx) hy]
      rfl

/-- Inside brackets no bar cuts a text that leaves one of them open. -/
theorem uncut_of_isBalancedFrom {inner : Nat} {cs : List Char} (h : isBalancedFrom inner cs = true)
    (depth : Nat) : cutAtBars (depth + 1 + inner) cs = [cs] := by
  induction cs generalizing inner with
  | nil => rfl
  | cons c cs ih =>
    obtain ⟨hrest, hstep⟩ := step_of_isBalancedFrom h
    rw [cutAtBars, if_neg (by omega), (hstep (depth + 1)).2, ih hrest]
    rfl

/-- No bar cuts a balanced text in brackets. -/
theorem uncut_bracketed {cs : List Char} (h : isBalanced cs = true) :
    cutAtBars 0 ('<' :: (cs ++ ['>'])) = ['<' :: (cs ++ ['>'])] := by
  have hinside : cutAtBars 1 (cs ++ ['>']) = [cs ++ ['>']] := by
    refine uncut_append (uncut_of_isBalancedFrom h 0) ?_
    rw [depthBehind_of_isBalanced h]
    rfl
  have hopen : cutAtBars 0 ['<'] = [['<']] := rfl
  exact uncut_append hopen hinside

/-! ## Single alternatives -/

/-- A text that is one alternative: trimmed, its brackets closed, and no bar outside them. -/
structure IsAlternative (cs : List Char) : Prop where
  ne_nil : cs ≠ []
  trimmed : Text.IsTrimmed cs
  balanced : isBalanced cs = true
  uncut : cutAtBars 0 cs = [cs]

namespace IsAlternative

variable {cs : List Char}

/-- Such a text is its only alternative. -/
theorem alternatives_eq (h : IsAlternative cs) : alternatives cs = [cs] := by
  rw [alternatives, h.uncut, List.map_singleton, h.trimmed.trim_eq]
  simpa using h.ne_nil

end IsAlternative

/-- Alternatives, joined by bars between blanks, are read back. -/
theorem alternatives_intercalate {before after : List Char}
    (hbefore : Text.isBlankText before = true) (hafter : Text.isBlankText after = true)
    {ps : List (List Char)} (h : ∀ p ∈ ps, IsAlternative p) :
    alternatives ((before ++ '|' :: after).intercalate ps) = ps := by
  have hclosed : ps.Pairwise fun p _ => depthBehind 0 p = 0 :=
    List.pairwise_iff_forall_sublist.2 fun hsub =>
      depthBehind_of_isBalanced (h _ (hsub.subset List.mem_cons_self)).balanced 0
  rw [alternatives_intercalate_of_closed hbefore hafter hclosed]
  calc ps.flatMap alternatives = ps.flatMap fun p => [p] :=
        List.flatMap_congr fun p hp => (h p hp).alternatives_eq
    _ = ps := List.flatMap_singleton' ps

end ApiTypings.TypeExpr
