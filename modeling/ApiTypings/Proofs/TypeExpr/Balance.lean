/-
# Balanced types

A generic is read up to its last character: if the term ends with a closing bracket, this bracket is
taken for the one that closes the generic.  In `Map<A>, Map<B>` it closes another one.  What is read
inside the first generic is not balanced then, and a generic whose own closing bracket is not found
is written with one more.

The reader gives a notice about every text of this kind.  So the text of a balanced type is balanced
exactly when reading the type gives no notice.

* `shape` : the shapes of a term, by its outer construct;
* `excess_respelled` : reading and writing a term adds the closing brackets that were not found;
* `excess_lt_of_open`, `excess_lt_of_notices` : texts for which there are such brackets;
* `balanced_render_iff` : when the text of a balanced type is balanced.
-/
import ApiTypings.Proofs.TypeExpr.Excess
import ApiTypings.Proofs.TypeExpr.RoundTrip
import ApiTypings.Report

namespace ApiTypings

namespace TypeExpr

/-! ## The text in front of a bracket -/

/-- Without an opening bracket no bracket is open. -/
theorem depthBehind_of_no_open {cs : List Char} (h : '<' ∉ cs) : depthBehind 0 cs = 0 := by
  induction cs with
  | nil => rfl
  | cons c cs ih =>
    rw [List.mem_cons, not_or] at h
    have hc : depthAfter 0 c = 0 := by
      rw [depthAfter, if_neg (Ne.symm h.1)]
      split <;> rfl
    rw [depthBehind_cons, hc, ih h.2]

/-- In front of its first opening bracket a balanced text closes none. -/
theorem close_not_mem_front {front rest : List Char} (hfront : '<' ∉ front)
    (h : isBalanced (front ++ '<' :: rest) = true) : '>' ∉ front := by
  induction front with
  | nil => exact List.not_mem_nil
  | cons c front ih =>
    rw [List.mem_cons, not_or] at hfront ⊢
    have hne : '>' ≠ c := by
      rintro rfl
      exact absurd h (by simp [isBalanced, isBalancedFrom])
    have hstep := (step_of_isBalancedFrom h).1
    rw [depthAfter_of_ne (Ne.symm hfront.1) (Ne.symm hne)] at hstep
    exact ⟨hne, ih hfront.2 hstep⟩

/-- The two sides of the first opening bracket of a balanced text. -/
theorem isBalanced_front {front rest : List Char} (hfront : '<' ∉ front)
    (h : isBalanced (front ++ '<' :: rest) = true) :
    isBalanced front = true ∧ isBalancedFrom 1 rest = true := by
  have hrest : isBalancedFrom (depthBehind 0 front) ('<' :: rest) = true :=
    isBalancedFrom_depthBehind h
  rw [depthBehind_of_no_open hfront] at hrest
  exact ⟨isBalanced_of_no_bracket hfront (close_not_mem_front hfront h),
    (step_of_isBalancedFrom hrest).1⟩

/-! ## Shapes of terms -/

/-- The construct with a text in brackets behind `front`. -/
def bracketed (front inner : List Char) : Construct :=
  if front = "Array".toList then .arrayOf inner else .generic (Text.trim front) inner

@[simp] theorem inner?_bracketed (front inner : List Char) :
    (bracketed front inner).inner? = some inner := by
  unfold bracketed
  split <;> rfl

/-- The shapes of a term with the text `inner` inside its outer construct, and whether it lacks its
closing bracket. -/
inductive Shape (term inner : List Char) : Prop where
  /-- An array, written with the suffix. -/
  | suffix (hterm : term = inner ++ "[]".toList) (houter : outermost term = .arrayOf inner)
      (hclosing : lacksClosing term = false)
  /-- A generic that ends with a closing bracket. -/
  | closed (front rest blanks : List Char)
      (hterm : term = front ++ '<' :: (rest ++ '>' :: blanks)) (hfront : '<' ∉ front)
      (hblanks : Text.isBlankText blanks = true) (hinner : inner = Text.trim rest)
      (houter : outermost term = bracketed front inner) (hclosing : lacksClosing term = false)
  /-- A generic that does not end with one. -/
  | unclosed (front rest : List Char) (hterm : term = front ++ '<' :: rest) (hfront : '<' ∉ front)
      (hinner : inner = Text.trim rest) (houter : outermost term = bracketed front inner)
      (hclosing : lacksClosing term = true)

theorem exists_of_hasClosing {rest : List Char} (h : hasClosing rest = true) :
    ∃ inner blanks, rest = inner ++ '>' :: blanks ∧ Text.isBlankText blanks = true ∧
      insideBrackets rest = Text.trim inner := by
  obtain ⟨inner, hinner⟩ := Option.isSome_iff_exists.1 h
  obtain ⟨blanks, hblanks, heq⟩ := Text.exists_blanks_trimEnd rest
  refine ⟨inner, blanks, ?_, hblanks, by rw [insideBrackets, hinner]⟩
  rw [heq, Text.stripSuffix?_eq_some.1 hinner, List.append_assoc]
  rfl

theorem insideBrackets_of_not_hasClosing {rest : List Char} (h : hasClosing rest = false) :
    insideBrackets rest = Text.trim rest := by
  rw [hasClosing, Option.isSome_eq_false_iff, Option.isNone_iff_eq_none] at h
  rw [insideBrackets, h]

/-- The outer construct of a term with a bracket in it, unless it ends with the suffix of arrays. -/
theorem outermost_append_open {front rest : List Char} (hfront : '<' ∉ front)
    (hsuffix : Text.stripSuffix? "[]".toList (front ++ '<' :: rest) = none) :
    outermost (front ++ '<' :: rest) = bracketed front (insideBrackets rest) ∧
      lacksClosing (front ++ '<' :: rest) = !hasClosing rest := by
  rw [outermost, lacksClosing, hsuffix, stripPrefix?_append_open hfront,
    afterBracket?_append_open hfront, takeWhile_append_open hfront, bracketed]
  by_cases harray : front = "Array".toList
  · rw [if_pos harray, if_pos harray]
    exact ⟨rfl, rfl⟩
  · rw [if_neg harray, if_neg harray]
    exact ⟨rfl, rfl⟩

/-- The outer construct of a text without brackets, unless it ends with the suffix of arrays. -/
theorem outermost_of_no_open {term : List Char} (hopen : '<' ∉ term)
    (hsuffix : Text.stripSuffix? "[]".toList term = none) :
    outermost term = .name term ∧ lacksClosing term = false := by
  have hprefix : Text.stripPrefix? "Array<".toList term = none := by
    rw [Option.eq_none_iff_forall_ne_some]
    intro rest hrest
    rw [Text.stripPrefix?_eq_some] at hrest
    exact hopen (by rw [hrest]; simp)
  rw [outermost, lacksClosing, hsuffix, hprefix, afterBracket?_eq_none_iff.2 hopen]
  exact ⟨rfl, rfl⟩

/-- A term with nothing inside its outer construct is a name. -/
theorem outermost_of_inner?_none {term : List Char} (h : (outermost term).inner? = none) :
    outermost term = .name term ∧ '<' ∉ term ∧ lacksClosing term = false := by
  cases houter : outermost term with
  | name text =>
    obtain ⟨rfl, hopen, hsuffix⟩ := of_outermost_name houter
    exact ⟨rfl, hopen, (outermost_of_no_open hopen hsuffix).2⟩
  | generic wrapper inner => simp [houter, Construct.inner?] at h
  | arrayOf inner => simp [houter, Construct.inner?] at h

/-- Every other term has one of the shapes. -/
theorem shape {term inner : List Char} (h : (outermost term).inner? = some inner) :
    Shape term inner := by
  cases hsuffix : Text.stripSuffix? "[]".toList term with
  | some element =>
    obtain rfl := Text.stripSuffix?_eq_some.1 hsuffix
    have houter := outermost_suffix element
    rw [houter] at h
    obtain rfl := Option.some.inj h
    exact .suffix rfl houter (by rw [lacksClosing, hsuffix]; rfl)
  | none =>
    by_cases hopen : '<' ∈ term
    · obtain ⟨front, rest, rfl, hfront⟩ := List.eq_append_cons_of_mem hopen
      obtain ⟨houter, hlacks⟩ := outermost_append_open hfront hsuffix
      rw [houter, inner?_bracketed] at h
      obtain rfl := Option.some.inj h
      cases hclosing : hasClosing rest with
      | true =>
        obtain ⟨inside, blanks, rfl, hblanks, hinner⟩ := exists_of_hasClosing hclosing
        exact .closed front inside blanks rfl hfront hblanks hinner houter
          (by rw [hlacks, hclosing]; rfl)
      | false =>
        exact .unclosed front rest rfl hfront (insideBrackets_of_not_hasClosing hclosing) houter
          (by rw [hlacks, hclosing]; rfl)
    · rw [(outermost_of_no_open hopen hsuffix).1] at h
      exact absurd h (by simp [Construct.inner?])

end TypeExpr

namespace TypeTerm

open TypeExpr

/-! ## Terms after reading and writing -/

/-- The text of a term after it was read and written. -/
def respelled (raw : List Char) : List Char := (ofChars raw).toChars

/-- The text of some alternatives after they were read and written. -/
def respelledInside (inner : List Char) : List Char := joined ((alternatives inner).map ofChars)

theorem excess_joined (ts : List TypeTerm) :
    excess (joined ts) = (ts.map fun t => excess t.toChars).sum := by
  rw [joined, excess_intercalate rfl, List.map_map]
  rfl

theorem excess_respelledInside (inner : List Char) :
    excess (respelledInside inner)
      = ((alternatives inner).map fun p => excess (respelled p)).sum := by
  rw [respelledInside, excess_joined, List.map_map]
  rfl

theorem isBalanced_respelledInside {inner : List Char}
    (h : ∀ p ∈ alternatives inner, isBalanced (respelled p) = true) :
    isBalanced (respelledInside inner) = true := by
  refine isBalanced_intercalate rfl ?_
  rw [List.map_map]
  exact List.forall_mem_map.2 h

theorem excess_bracketed (cs : List Char) : excess ('<' :: (cs ++ ['>'])) = excess cs := by
  rw [excess_cons_open, excess_append, excess_cons_close, excess_nil]
  omega

theorem excess_array (ts : List TypeTerm) : excess (array ts).toChars = excess (joined ts) := by
  rcases toChars_array ts with ⟨name, rfl, hchars⟩ | hchars
  · rw [hchars, excess_append, show excess "[]".toList = 0 from rfl, add_zero, joined_basic]
  · rw [hchars, excess_append, excess_bracketed, show excess "Array".toList = 0 from rfl, zero_add]

theorem isBalanced_array {ts : List TypeTerm} (h : isBalanced (joined ts) = true) :
    isBalanced (array ts).toChars = true := by
  rcases toChars_array ts with ⟨name, rfl, hchars⟩ | hchars
  · rw [joined_basic] at h
    rw [hchars, isBalanced_append h]
    rfl
  · have harray : isBalanced "Array".toList = true := rfl
    rw [hchars, isBalanced_append harray]
    exact isBalanced_bracketed h

variable {raw : List Char}

theorem respelled_name {text : List Char} (h : outermost (Text.trim raw) = .name text) :
    respelled raw = text := by
  rw [respelled, ofChars_eq, h]
  exact String.toList_ofList

theorem respelled_arrayOf {inner : List Char} (h : outermost (Text.trim raw) = .arrayOf inner) :
    excess (respelled raw) = excess (respelledInside inner) ∧
      (isBalanced (respelledInside inner) = true → isBalanced (respelled raw) = true) := by
  rw [respelled, ofChars_eq, h]
  exact ⟨excess_array _, isBalanced_array⟩

theorem respelled_bracketed {front inner : List Char}
    (h : outermost (Text.trim raw) = bracketed front inner) :
    excess (respelled raw) = excess front + excess (respelledInside inner) ∧
      (isBalanced front = true → isBalanced (respelledInside inner) = true →
        isBalanced (respelled raw) = true) := by
  rw [bracketed] at h
  by_cases harray : front = "Array".toList
  · rw [if_pos harray] at h
    obtain ⟨hexcess, hbalanced⟩ := respelled_arrayOf h
    refine ⟨?_, fun _ => hbalanced⟩
    rw [hexcess, harray, show excess "Array".toList = 0 from rfl, zero_add]
  · rw [if_neg harray] at h
    rw [respelled, ofChars_eq, h]
    dsimp only
    rw [toChars_wrapped, String.toList_ofList, excess_append, excess_bracketed, excess_trim]
    refine ⟨rfl, fun hfront hinner => ?_⟩
    rw [← isBalanced_trim] at hfront
    rw [isBalanced_append hfront]
    exact isBalanced_bracketed hinner

/-! ## One step of reading -/

/-- A term with nothing inside is written as it was read. -/
theorem respelled_of_none (h : (outermost (Text.trim raw)).inner? = none) :
    respelled raw = Text.trim raw :=
  respelled_name (outermost_of_inner?_none h).1

section

variable {inner : List Char} (h : (outermost (Text.trim raw)).inner? = some inner)

include h

/-- Reading and writing a term changes its excess by that of its inside, and by one closing bracket
if the term lacks its own. -/
theorem excess_respelled :
    excess (respelled raw) + (if lacksClosing (Text.trim raw) then 1 else 0) + excess inner
      = excess raw + excess (respelledInside inner) := by
  rw [← excess_trim raw]
  cases shape h with
  | suffix hterm houter hclosing =>
    rw [(respelled_arrayOf houter).1, hclosing, hterm, excess_append,
      show excess "[]".toList = 0 from rfl, if_neg Bool.false_ne_true]
    omega
  | closed front rest blanks hterm hfront hblanks hinner houter hclosing =>
    rw [(respelled_bracketed houter).1, hclosing, hterm, hinner, excess_trim, excess_append,
      excess_cons_open, excess_append, excess_cons_close, excess_of_blank hblanks,
      if_neg Bool.false_ne_true]
    omega
  | unclosed front rest hterm hfront hinner houter hclosing =>
    rw [(respelled_bracketed houter).1, hclosing, hterm, hinner, excess_trim, excess_append,
      excess_cons_open, if_pos rfl]
    omega

/-- A term that leaves a bracket open lacks its closing bracket, or leaves one open inside. -/
theorem open_inside (hopen : 0 < depthBehind 0 raw) :
    lacksClosing (Text.trim raw) = true ∨ 0 < depthBehind 0 inner := by
  rw [← depthBehind_trim] at hopen
  cases shape h with
  | suffix hterm houter hclosing =>
    rw [hterm, depthBehind_append] at hopen
    exact Or.inr hopen
  | closed front rest blanks hterm hfront hblanks hinner houter hclosing =>
    rw [hterm, depthBehind_append, depthBehind_of_no_open hfront, depthBehind_cons,
      depthBehind_append, depthBehind_cons,
      depthBehind_of_isBalanced (isBalanced_of_blank hblanks)] at hopen
    have hpos : 0 < depthBehind 1 rest - 1 := hopen
    have hle : depthBehind 1 rest ≤ depthBehind 0 rest + 1 := depthBehind_succ_le 0 rest
    rw [hinner, depthBehind_trim]
    exact Or.inr (by omega)
  | unclosed front rest hterm hfront hinner houter hclosing => exact Or.inl hclosing

/-- The inside of a balanced term is balanced too, unless the term lacks its closing bracket or took
another one for it. -/
theorem balanced_inside (hraw : isBalanced raw = true) :
    lacksClosing (Text.trim raw) = true ∨ isBalanced inner = true ∨ 0 < depthBehind 0 inner := by
  rw [← isBalanced_trim] at hraw
  cases shape h with
  | suffix hterm houter hclosing =>
    have hbrackets : isBalanced "[]".toList = true := rfl
    rw [hterm, isBalanced, isBalancedFrom_append_balanced hbrackets] at hraw
    exact Or.inr (Or.inl hraw)
  | closed front rest blanks hterm hfront hblanks hinner houter hclosing =>
    rw [hterm] at hraw
    have hrest := (isBalanced_front hfront hraw).2
    rw [List.append_cons, isBalancedFrom_append_balanced (isBalanced_of_blank hblanks)] at hrest
    rw [hinner, isBalanced_trim, depthBehind_trim]
    exact Or.inr (isBalancedFrom_or_open hrest)
  | unclosed front rest hterm hfront hinner houter hclosing => exact Or.inl hclosing

/-- A balanced term is written with balanced brackets if its inside is. -/
theorem balanced_respelled (hraw : isBalanced raw = true)
    (hinside : isBalanced (respelledInside inner) = true) : isBalanced (respelled raw) = true := by
  rw [← isBalanced_trim] at hraw
  cases shape h with
  | suffix hterm houter hclosing => exact (respelled_arrayOf houter).2 hinside
  | closed front rest blanks hterm hfront hblanks hinner houter hclosing =>
    rw [hterm] at hraw
    exact (respelled_bracketed houter).2 (isBalanced_front hfront hraw).1 hinside
  | unclosed front rest hterm hfront hinner houter hclosing =>
    rw [hterm] at hraw
    exact (respelled_bracketed houter).2 (isBalanced_front hfront hraw).1 hinside

end

/-! ## Reading to the end -/

/-- What holds of a term when it holds of the alternatives inside it holds of all terms. -/
theorem reading_induction {P : List Char → Prop}
    (step : ∀ raw, (∀ inner, (outermost (Text.trim raw)).inner? = some inner →
      ∀ p ∈ alternatives inner, P p) → P raw) (raw : List Char) : P raw := by
  induction hlen : raw.length using Nat.strongRecOn generalizing raw with
  | ind n ih =>
    refine step raw fun inner hinner p hp => ih p.length ?_ p rfl
    have h1 := outermost_inner_lt hinner
    have h2 := Text.length_trim_le raw
    have h3 := length_of_mem_alternatives hp
    omega

/-- Reading and writing a term does not raise its excess. -/
theorem excess_respelled_le (raw : List Char) : excess (respelled raw) ≤ excess raw := by
  induction raw using reading_induction with
  | step raw ih =>
    cases h : (outermost (Text.trim raw)).inner? with
    | none => rw [respelled_of_none h, excess_trim]
    | some inner =>
      have hinside : excess (respelledInside inner) ≤ excess inner := by
        rw [excess_respelledInside, ← sum_excess_alternatives inner]
        exact List.sum_le_sum (ih inner h)
      have hstep := excess_respelled h
      split at hstep <;> omega

/-- A closing bracket is added to a term that lacks its own, or has an alternative inside to which
one is added. -/
theorem excess_lt_of_inside {inner : List Char}
    (h : (outermost (Text.trim raw)).inner? = some inner)
    (hinside : lacksClosing (Text.trim raw) = true ∨
      ∃ p ∈ alternatives inner, excess (respelled p) < excess p) :
    excess (respelled raw) < excess raw := by
  have hstep := excess_respelled h
  have hle : ∀ p ∈ alternatives inner, excess (respelled p) ≤ excess p := fun p _ =>
    excess_respelled_le p
  rw [excess_respelledInside, ← sum_excess_alternatives inner] at hstep
  rcases hinside with hclosing | hlt
  · have := List.sum_le_sum hle
    rw [if_pos hclosing] at hstep
    omega
  · have := List.sum_lt_sum _ _ hle hlt
    split at hstep <;> omega

/-- A closing bracket is added to a text that leaves a bracket open. -/
theorem excess_lt_of_open (hopen : 0 < depthBehind 0 raw) :
    excess (respelled raw) < excess raw := by
  induction raw using reading_induction with
  | step raw ih =>
    cases h : (outermost (Text.trim raw)).inner? with
    | none =>
      rw [← depthBehind_trim, depthBehind_of_no_open (outermost_of_inner?_none h).2.1] at hopen
      exact absurd hopen (Nat.lt_irrefl 0)
    | some inner =>
      refine excess_lt_of_inside h ((open_inside h hopen).imp_right fun hinner => ?_)
      obtain ⟨p, hp, hpopen⟩ := exists_open_alternative hinner
      exact ⟨p, hp, ih inner h p hp hpopen⟩

/-! ## Notices -/

/-- Reading a term without an outer construct gives no notice. -/
theorem notices_of_none (h : (outermost (Text.trim raw)).inner? = none) : notices raw = [] := by
  rw [notices, (outermost_of_inner?_none h).2.2]
  split
  · rfl
  · rename_i hinner
    rw [h] at hinner
    exact absurd hinner (by simp)

/-- Reading a term gives no notice when it has its closing bracket, and its inside is balanced and
gives none. -/
theorem notices_eq_nil_iff {inner : List Char}
    (h : (outermost (Text.trim raw)).inner? = some inner) :
    notices raw = [] ↔ lacksClosing (Text.trim raw) = false ∧ isBalanced inner = true ∧
      ∀ p ∈ alternatives inner, notices p = [] := by
  rw [notices]
  split
  · rename_i hinner
    rw [h] at hinner
    exact absurd hinner (by simp)
  · rename_i inner' hinner
    obtain rfl : inner = inner' := Option.some.inj (h.symm.trans hinner)
    simp [TypeExpr.notices]

/-- A closing bracket is added to a balanced term when reading it gives a notice. -/
theorem excess_lt_of_notices (hraw : isBalanced raw = true) (hnotices : notices raw ≠ []) :
    excess (respelled raw) < excess raw := by
  induction raw using reading_induction with
  | step raw ih =>
    cases h : (outermost (Text.trim raw)).inner? with
    | none => exact absurd (notices_of_none h) hnotices
    | some inner =>
      rcases balanced_inside h hraw with hclosing | hbalanced | hopen
      · exact excess_lt_of_inside h (Or.inl hclosing)
      · cases hclosing : lacksClosing (Text.trim raw) with
        | true => exact excess_lt_of_inside h (Or.inl hclosing)
        | false =>
          -- the notice is about an alternative inside, which is balanced
          have hinside : ∃ p ∈ alternatives inner, notices p ≠ [] := by
            by_contra hnone
            refine hnotices ((notices_eq_nil_iff h).2 ⟨hclosing, hbalanced, fun p hp => ?_⟩)
            exact Classical.not_not.1 fun hpnotices => hnone ⟨p, hp, hpnotices⟩
          obtain ⟨p, hp, hpnotices⟩ := hinside
          have hpbalanced := isBalanced_of_mem_alternatives hbalanced hp
          exact excess_lt_of_inside h (Or.inr ⟨p, hp, ih inner h p hp hpbalanced hpnotices⟩)
      · -- the term took the closing bracket of something inside for its own
        obtain ⟨p, hp, hpopen⟩ := exists_open_alternative hopen
        exact excess_lt_of_inside h (Or.inr ⟨p, hp, excess_lt_of_open hpopen⟩)

/-- A balanced term is written with balanced brackets when reading it gives no notice. -/
theorem balanced_respelled_of_notices (hraw : isBalanced raw = true) (hnotices : notices raw = []) :
    isBalanced (respelled raw) = true := by
  induction raw using reading_induction with
  | step raw ih =>
    cases h : (outermost (Text.trim raw)).inner? with
    | none => rwa [respelled_of_none h, isBalanced_trim]
    | some inner =>
      obtain ⟨-, hinner, hinside⟩ := (notices_eq_nil_iff h).1 hnotices
      refine balanced_respelled h hraw (isBalanced_respelledInside fun p hp => ?_)
      exact ih inner h p hp (isBalanced_of_mem_alternatives hinner hp) (hinside p hp)

end TypeTerm

namespace TypeSet

open TypeExpr

variable {raw : String}

/-- The spellings of a read set are those of the alternatives. -/
theorem mem_keys_parse {key : String} :
    key ∈ (parse raw).keys ↔ ∃ p ∈ alternatives raw.toList, key.toList = TypeTerm.respelled p := by
  rw [parse, mem_keys_ofTerms, List.map_map, List.mem_map]
  refine exists_congr fun p => and_congr_right fun _ => ?_
  rw [← String.toList_inj, Function.comp_apply, TypeTerm.render, String.toList_ofList, eq_comm]
  rfl

/-- Reading a balanced text gives a notice when reading one of its alternatives does. -/
theorem notices_eq_nil_iff (hraw : isBalanced raw.toList = true) :
    notices raw = [] ↔ ∀ p ∈ alternatives raw.toList, TypeTerm.notices p = [] := by
  rw [notices, TypeExpr.notices, if_pos hraw, List.nil_append, List.flatMap_eq_nil_iff]

/-- **Balanced types.**  The text of a set that was read from a balanced text is balanced exactly
when reading it gave no notice. -/
theorem balanced_render_iff (hraw : isBalanced raw.toList = true) :
    isBalanced (parse raw).render.toList = true ↔ notices raw = [] := by
  rw [render, String.toList_intercalate, notices_eq_nil_iff hraw]
  constructor
  · intro hbalanced p hp
    by_contra hpnotices
    -- all spellings have at most the excess of a balanced text, and that of `p` has less
    have hle : ∀ key ∈ (parse raw).keys.mergeSort, excess key.toList ≤ 0 := by
      intro key hkey
      obtain ⟨q, hq, hspelled⟩ := mem_keys_parse.1 (List.mem_mergeSort.1 hkey)
      rw [hspelled, ← excess_of_isBalanced (isBalanced_of_mem_alternatives hraw hq)]
      exact TypeTerm.excess_respelled_le q
    have hlt : ∃ key ∈ (parse raw).keys.mergeSort, excess key.toList < 0 := by
      have hkey : String.ofList (TypeTerm.respelled p) ∈ (parse raw).keys :=
        mem_keys_parse.2 ⟨p, hp, String.toList_ofList⟩
      refine ⟨_, List.mem_mergeSort.2 hkey, ?_⟩
      have hpbalanced := isBalanced_of_mem_alternatives hraw hp
      rw [String.toList_ofList, ← excess_of_isBalanced hpbalanced]
      exact TypeTerm.excess_lt_of_notices hpbalanced hpnotices
    have hsum := List.sum_lt_sum _ _ hle hlt
    have hzero := excess_of_isBalanced hbalanced
    rw [excess_intercalate rfl, List.map_map] at hzero
    have hnone : ((parse raw).keys.mergeSort.map fun _ => (0 : Int)).sum = 0 := by simp
    rw [hnone] at hsum
    exact absurd hzero (ne_of_lt hsum)
  · intro hnotices
    refine isBalanced_intercalate rfl (List.forall_mem_map.2 fun key hkey => ?_)
    obtain ⟨p, hp, hspelled⟩ := mem_keys_parse.1 (List.mem_mergeSort.1 hkey)
    rw [hspelled]
    exact TypeTerm.balanced_respelled_of_notices (isBalanced_of_mem_alternatives hraw hp)
      (hnotices p hp)

/-! ## Maps -/

/-- A map from a name to an array, or nothing. -/
def mapToArray : String := "Map<string, Array<A|B>>|void"

theorem balanced_render_mapToArray :
    isBalanced mapToArray.toList = true ∧ notices mapToArray = [] ∧
      (isBalanced (parse mapToArray).render.toList = true ↔ notices mapToArray = []) := by
  have hraw : isBalanced mapToArray.toList = true := by decide +kernel
  exact ⟨hraw, by decide +kernel, balanced_render_iff hraw⟩

/-- A map from an array to an array is balanced, and is written with a closing bracket too many. -/
theorem unbalanced_render_mapOfArrays :
    isBalanced "Map<Array<A>, Array<B>>".toList = true ∧
      (parse "Map<Array<A>, Array<B>>").render = "Map<Array<A>, Array<B>>>" ∧
      isBalanced (parse "Map<Array<A>, Array<B>>").render.toList = false := by
  have hrender : (parse "Map<Array<A>, Array<B>>").render = "Map<Array<A>, Array<B>>>" := by
    decide +kernel
  exact ⟨by decide +kernel, hrender, by rw [hrender]; decide +kernel⟩

end TypeSet

end ApiTypings
