/-
# Counting brackets

The excess of a text is the number of its opening brackets less the number of its closing brackets.
Unlike the bracket depth it is not clamped, so it adds up over the parts of a text: no cut, trim or
join can hide a bracket.  A balanced text has no excess.

* `sum_excess_alternatives` : the excess of a text is that of its alternatives;
* `isBalanced_of_mem_alternatives` : the alternatives of a balanced text are balanced;
* `exists_open_alternative` : a text that leaves a bracket open has an alternative that does;
* `isBalancedFrom_or_open` : a text that is balanced with brackets around it, by itself.
-/
import ApiTypings.Proofs.TypeExpr.Brackets
import Mathlib.Algebra.Order.BigOperators.Group.List
import Mathlib.Algebra.Ring.Int.Defs

namespace ApiTypings.TypeExpr

/-! ## Excess -/

/-- The number of opening brackets less the number of closing brackets. -/
def excess (cs : List Char) : Int := cs.count '<' - cs.count '>'

@[simp] theorem excess_nil : excess [] = 0 := rfl

@[simp] theorem excess_append (xs ys : List Char) : excess (xs ++ ys) = excess xs + excess ys := by
  simp only [excess, List.count_append]
  omega

theorem excess_cons (c : Char) (cs : List Char) : excess (c :: cs) = excess [c] + excess cs :=
  excess_append [c] cs

theorem excess_cons_open (cs : List Char) : excess ('<' :: cs) = excess cs + 1 := by
  rw [excess_cons, add_comm]
  rfl

theorem excess_cons_close (cs : List Char) : excess ('>' :: cs) = excess cs - 1 := by
  rw [excess_cons, add_comm]
  rfl

theorem excess_of_no_bracket {cs : List Char} (hopen : '<' ∉ cs) (hclose : '>' ∉ cs) :
    excess cs = 0 := by
  rw [excess, List.count_eq_zero_of_not_mem hopen, List.count_eq_zero_of_not_mem hclose]
  rfl

/-- The excess of a text that closes `depth` brackets. -/
theorem excess_of_isBalancedFrom {depth : Nat} {cs : List Char}
    (h : isBalancedFrom depth cs = true) : excess cs = -depth := by
  induction cs generalizing depth with
  | nil =>
    obtain rfl : depth = 0 := by simpa [isBalancedFrom] using h
    rfl
  | cons c cs ih =>
    have hrest := ih (step_of_isBalancedFrom h).1
    rcases bracket_cases c with rfl | rfl | ⟨hopen, hclose⟩
    · rw [depthAfter_open] at hrest
      rw [excess_cons_open, hrest]
      omega
    · have hpos : depth ≠ 0 := by
        rintro rfl
        exact absurd h (by simp [isBalancedFrom])
      rw [depthAfter_close] at hrest
      rw [excess_cons_close, hrest]
      omega
    · have hnone : excess [c] = 0 :=
        excess_of_no_bracket (by simpa using Ne.symm hopen) (by simpa using Ne.symm hclose)
      rw [depthAfter_of_ne hopen hclose] at hrest
      rw [excess_cons, hnone, zero_add, hrest]

/-- A balanced text has as many opening as closing brackets. -/
theorem excess_of_isBalanced {cs : List Char} (h : isBalanced cs = true) : excess cs = 0 :=
  excess_of_isBalancedFrom h

theorem excess_of_blank {blanks : List Char} (h : Text.isBlankText blanks = true) :
    excess blanks = 0 :=
  excess_of_isBalanced (isBalanced_of_blank h)

/-- The excess of texts that are joined by a text without excess. -/
theorem excess_intercalate {sep : List Char} (hsep : excess sep = 0) (ps : List (List Char)) :
    excess (sep.intercalate ps) = (ps.map excess).sum := by
  induction ps with
  | nil => rfl
  | cons p ps ih =>
    cases ps with
    | nil => simp
    | cons q ps =>
      rw [List.intercalate_cons_cons, excess_append, excess_append, hsep, ih, add_zero]
      rfl

/-! ## Blanks at the ends -/

/-- Behind a text a balanced text changes nothing. -/
theorem isBalancedFrom_append_balanced {ys : List Char} (h : isBalanced ys = true) (depth : Nat)
    (xs : List Char) : isBalancedFrom depth (xs ++ ys) = isBalancedFrom depth xs := by
  induction xs generalizing depth with
  | nil =>
    have := isBalancedFrom_append h depth []
    rwa [List.append_nil] at this
  | cons c xs ih => rw [List.cons_append, isBalancedFrom, isBalancedFrom, ih]

theorem excess_trim (cs : List Char) : excess (Text.trim cs) = excess cs := by
  obtain ⟨before, after, hbefore, hafter, heq⟩ := Text.exists_blanks cs
  conv_rhs => rw [heq]
  rw [excess_append, excess_append, excess_of_blank hbefore, excess_of_blank hafter, zero_add,
    add_zero]

theorem isBalanced_trim (cs : List Char) : isBalanced (Text.trim cs) = isBalanced cs := by
  obtain ⟨before, after, hbefore, hafter, heq⟩ := Text.exists_blanks cs
  conv_rhs => rw [heq]
  rw [List.append_assoc, isBalanced_append (isBalanced_of_blank hbefore)]
  exact (isBalancedFrom_append_balanced (isBalanced_of_blank hafter) 0 _).symm

theorem depthBehind_trim (depth : Nat) (cs : List Char) :
    depthBehind depth (Text.trim cs) = depthBehind depth cs := by
  obtain ⟨before, after, hbefore, hafter, heq⟩ := Text.exists_blanks cs
  conv_rhs => rw [heq]
  rw [depthBehind_append, depthBehind_append,
    depthBehind_of_isBalanced (isBalanced_of_blank hbefore),
    depthBehind_of_isBalanced (isBalanced_of_blank hafter)]

/-! ## Open brackets -/

/-- One more bracket in front leaves at most one more bracket open. -/
theorem depthBehind_succ_le (depth : Nat) (cs : List Char) :
    depthBehind (depth + 1) cs ≤ depthBehind depth cs + 1 := by
  induction cs generalizing depth with
  | nil => exact Nat.le_refl _
  | cons c cs ih =>
    rw [depthBehind_cons, depthBehind_cons]
    rcases bracket_cases c with rfl | rfl | ⟨hopen, hclose⟩
    · exact ih (depth + 1)
    · cases depth with
      | zero => exact Nat.le_succ _
      | succ depth => exact ih depth
    · rw [depthAfter_of_ne hopen hclose, depthAfter_of_ne hopen hclose]
      exact ih depth

/-- Behind the beginning of a balanced text the rest closes the brackets that are open. -/
theorem isBalancedFrom_depthBehind {depth : Nat} {xs ys : List Char}
    (h : isBalancedFrom depth (xs ++ ys) = true) :
    isBalancedFrom (depthBehind depth xs) ys = true := by
  induction xs generalizing depth with
  | nil => exact h
  | cons c xs ih => exact ih (step_of_isBalancedFrom h).1

/-- A text that is balanced with one more bracket around it.  By itself it is balanced, or it closes
a bracket too early and leaves another one open. -/
theorem isBalancedFrom_or_open {depth : Nat} {cs : List Char}
    (h : isBalancedFrom (depth + 1) (cs ++ ['>']) = true) :
    isBalancedFrom depth cs = true ∨ 0 < depthBehind depth cs := by
  induction cs generalizing depth with
  | nil =>
    obtain rfl : depth = 0 := by simpa [isBalancedFrom, depthAfter] using h
    exact Or.inl rfl
  | cons c cs ih =>
    have hrest := (step_of_isBalancedFrom h).1
    rw [isBalancedFrom, depthBehind_cons]
    rcases bracket_cases c with rfl | rfl | ⟨hopen, hclose⟩
    · exact ih hrest
    · cases depth with
      | zero =>
        -- this bracket is closed too early, and so the last one has none to close
        have hlast : isBalancedFrom (depthBehind 0 cs) ['>'] = true :=
          isBalancedFrom_depthBehind hrest
        refine Or.inr (Nat.pos_of_ne_zero fun hzero => ?_)
        rw [show depthBehind 0 cs = 0 from hzero] at hlast
        exact absurd hlast (by decide)
      | succ depth => exact ih hrest
    · rw [depthAfter_of_ne hopen hclose] at hrest
      rw [depthAfter_of_ne hopen hclose, beq_eq_false_iff_ne.2 hclose]
      exact ih hrest

/-! ## Alternatives -/

theorem sum_excess_pushFront (c : Char) (ps : List (List Char)) :
    ((pushFront c ps).map excess).sum = excess [c] + (ps.map excess).sum := by
  cases ps with
  | nil => simp [pushFront]
  | cons p ps =>
    rw [pushFront, List.map_cons, List.map_cons, List.sum_cons, List.sum_cons, excess_cons,
      add_assoc]

/-- The excess of a text is that of the pieces between its outer bars. -/
theorem sum_excess_cutAtBars (depth : Nat) (cs : List Char) :
    ((cutAtBars depth cs).map excess).sum = excess cs := by
  induction cs generalizing depth with
  | nil => rfl
  | cons c cs ih =>
    rw [cutAtBars, excess_cons]
    by_cases hbar : c = '|' ∧ depth = 0
    · rw [if_pos hbar, List.map_cons, List.sum_cons, ih, hbar.1]
      rfl
    · rw [if_neg hbar, sum_excess_pushFront, ih]

/-- The excess of a text is that of its alternatives. -/
theorem sum_excess_alternatives (cs : List Char) :
    ((alternatives cs).map excess).sum = excess cs := by
  -- a piece that is left out has no excess
  have hfilter : ∀ ps : List (List Char),
      ((ps.filter (!·.isEmpty)).map excess).sum = (ps.map excess).sum := by
    intro ps
    induction ps with
    | nil => rfl
    | cons p ps ih => cases p <;> simp [ih]
  have htrim : excess ∘ Text.trim = excess := funext excess_trim
  rw [alternatives, hfilter, List.map_map, htrim, sum_excess_cutAtBars]

/-- The pieces of a text that closes `depth` brackets: the first one closes them, and the others are
balanced. -/
theorem isBalancedFrom_cutAtBars {depth : Nat} {cs : List Char}
    (h : isBalancedFrom depth cs = true) :
    ∃ p ps, cutAtBars depth cs = p :: ps ∧ isBalancedFrom depth p = true ∧
      ∀ q ∈ ps, isBalanced q = true := by
  induction cs generalizing depth with
  | nil => exact ⟨[], [], rfl, h, fun q hq => absurd hq List.not_mem_nil⟩
  | cons c cs ih =>
    obtain ⟨p, ps, hcut, hp, hps⟩ := ih (step_of_isBalancedFrom h).1
    rw [cutAtBars]
    by_cases hbar : c = '|' ∧ depth = 0
    · obtain ⟨rfl, rfl⟩ := hbar
      rw [if_pos ⟨rfl, rfl⟩]
      exact ⟨[], _, rfl, rfl, hcut ▸ List.forall_mem_cons.2 ⟨hp, hps⟩⟩
    · rw [if_neg hbar, hcut]
      refine ⟨c :: p, ps, rfl, ?_, hps⟩
      rw [isBalancedFrom, hp, Bool.and_true]
      rw [isBalancedFrom, Bool.and_eq_true] at h
      exact h.1

/-- The alternatives of a balanced text are balanced. -/
theorem isBalanced_of_mem_alternatives {cs p : List Char} (h : isBalanced cs = true)
    (hp : p ∈ alternatives cs) : isBalanced p = true := by
  obtain ⟨-, piece, hpiece, rfl⟩ := mem_alternatives.1 hp
  obtain ⟨first, rest, hcut, hfirst, hrest⟩ := isBalancedFrom_cutAtBars h
  rw [hcut] at hpiece
  rw [isBalanced_trim]
  rcases List.mem_cons.1 hpiece with rfl | hpiece
  · exact hfirst
  · exact hrest piece hpiece

/-- When a text leaves a bracket open, one of its pieces does. -/
theorem exists_open_cutAtBars {depth : Nat} {cs : List Char} (h : 0 < depthBehind depth cs) :
    ∃ p ps, cutAtBars depth cs = p :: ps ∧
      (0 < depthBehind depth p ∨ ∃ q ∈ ps, 0 < depthBehind 0 q) := by
  induction cs generalizing depth with
  | nil => exact ⟨[], [], rfl, Or.inl h⟩
  | cons c cs ih =>
    obtain ⟨p, ps, hcut, hopen⟩ := ih h
    rw [cutAtBars]
    by_cases hbar : c = '|' ∧ depth = 0
    · obtain ⟨rfl, rfl⟩ := hbar
      rw [if_pos ⟨rfl, rfl⟩]
      refine ⟨[], _, rfl, Or.inr ?_⟩
      rw [show cutAtBars 0 cs = p :: ps from hcut]
      rcases hopen with hp | ⟨q, hq, hopen⟩
      · exact ⟨p, List.mem_cons_self, hp⟩
      · exact ⟨q, List.mem_cons_of_mem _ hq, hopen⟩
    · rw [if_neg hbar, hcut]
      exact ⟨c :: p, ps, rfl, hopen⟩

/-- A text that leaves a bracket open has an alternative that does. -/
theorem exists_open_alternative {cs : List Char} (h : 0 < depthBehind 0 cs) :
    ∃ p ∈ alternatives cs, 0 < depthBehind 0 p := by
  obtain ⟨first, rest, hcut, hopen⟩ := exists_open_cutAtBars h
  have hpiece : ∃ q ∈ cutAtBars 0 cs, 0 < depthBehind 0 q := by
    rw [hcut]
    rcases hopen with hfirst | ⟨q, hq, hopen⟩
    · exact ⟨first, List.mem_cons_self, hfirst⟩
    · exact ⟨q, List.mem_cons_of_mem _ hq, hopen⟩
  obtain ⟨q, hq, hopen⟩ := hpiece
  rw [← depthBehind_trim] at hopen
  have hne : Text.trim q ≠ [] := by
    intro hnil
    rw [hnil] at hopen
    exact absurd hopen (by decide)
  exact ⟨Text.trim q, mem_alternatives.2 ⟨hne, q, hq, rfl⟩, hopen⟩

end ApiTypings.TypeExpr
