/-
# Spellings that are read again

The text of a type can be read again.  A term comes back from its spelling if the bars inside it
still separate what they separated.  That is so when, in every list of terms inside, only the last
one may have brackets that close nothing.  Such a term is called firm here.

Still a firm term may come back as another one.  A blank between `Array` and its bracket makes a
generic with the name of arrays; its spelling has no blank, and is read as an array.  The spelling
changes once more exactly when the array has one plain name as its element, because such an array is
written with the suffix.

* `depthBehind_toChars_le`, `IsFirm.uncut` : the brackets and bars of spellings;
* `IsFirm.ofChars_toChars` : what a firm term is read as;
* `parse_render_iff_settled` : when the text of firm terms is read as the same type.
-/
import ApiTypings.Proofs.TypeExpr.Pieces
import ApiTypings.Proofs.TypeExpr.Spelling
import Mathlib.Algebra.Order.Ring.Nat

namespace ApiTypings

namespace TypeExpr

/-! ## Texts with few brackets -/

theorem depthBehind_le_of_no_open {cs : List Char} (h : '<' ∉ cs) (depth : Nat) :
    depthBehind depth cs ≤ depth := by
  induction cs generalizing depth with
  | nil => exact Nat.le_refl depth
  | cons c cs ih =>
    rw [List.mem_cons, not_or] at h
    have hstep : depthAfter depth c ≤ depth := by
      rw [depthAfter, if_neg (Ne.symm h.1)]
      split <;> omega
    rw [depthBehind_cons]
    exact Nat.le_trans (ih h.2 _) hstep

/-- A text in brackets that leaves none of its own open leaves none open behind a name. -/
theorem depthBehind_bracketed_le {wrapper inner : List Char} (hopen : '<' ∉ wrapper)
    (h : ∀ depth, depthBehind depth inner ≤ depth) (depth : Nat) :
    depthBehind depth (wrapper ++ '<' :: (inner ++ ['>'])) ≤ depth := by
  have hfront := depthBehind_le_of_no_open hopen depth
  have hinner := h (depthBehind depth wrapper + 1)
  rw [depthBehind_append, depthBehind_cons, depthBehind_append, depthAfter_open]
  show depthBehind (depthBehind depth wrapper + 1) inner - 1 ≤ depth
  omega

/-- No bar cuts a text in brackets behind a name if none cuts it inside of brackets. -/
theorem uncut_bracketed_of_inside {wrapper inner : List Char} (hbar : '|' ∉ wrapper)
    (h : ∀ depth, cutAtBars (depth + 1) inner = [inner]) (depth : Nat) :
    cutAtBars depth (wrapper ++ '<' :: (inner ++ ['>']))
      = [wrapper ++ '<' :: (inner ++ ['>'])] := by
  have hinside : ∀ depth, cutAtBars (depth + 1) (inner ++ ['>']) = [inner ++ ['>']] := fun depth =>
    uncut_append (h depth) (cutAtBars_of_no_bar (by decide))
  refine uncut_append (cutAtBars_of_no_bar hbar) ?_
  rw [cutAtBars, if_neg (by simp), depthAfter_open, hinside]
  rfl

/-- A spelling that no bar cuts is its only alternative. -/
theorem IsSpelling.alternatives_eq {cs : List Char} (h : IsSpelling cs)
    (huncut : cutAtBars 0 cs = [cs]) : alternatives cs = [cs] := by
  rw [alternatives_of_uncut huncut, h.trimmed.trim_eq, if_neg h.ne_nil]

/-- Texts that no bar cuts, the brackets of all but the last balanced, are not cut inside of
brackets when they are joined by bars. -/
theorem uncut_intercalate {ps : List (List Char)} (h : ∀ p ∈ ps, ∀ depth, cutAtBars depth p = [p])
    (hbalanced : ps.Pairwise fun p _ => isBalanced p = true) (depth : Nat) :
    cutAtBars (depth + 1) (['|'].intercalate ps) = [['|'].intercalate ps] := by
  induction ps with
  | nil => rfl
  | cons p ps ih =>
    obtain ⟨hp, hps⟩ := List.forall_mem_cons.1 h
    obtain ⟨hbalanced, hrest⟩ := List.pairwise_cons.1 hbalanced
    cases ps with
    | nil =>
      rw [List.intercalate_singleton]
      exact hp _
    | cons q ps =>
      rw [List.intercalate_cons_cons, List.append_assoc, List.singleton_append]
      refine uncut_append (hp _) ?_
      rw [depthBehind_of_isBalanced (hbalanced q List.mem_cons_self), cutAtBars, if_neg (by omega),
        depthAfter_of_ne (by decide) (by decide), ih hps hrest]
      rfl

end TypeExpr

namespace TypeTerm

open TypeExpr

/-! ## Names of terms that are read -/

/-- A term whose names have no opening bracket, and whose plain names do not look like arrays. -/
inductive IsNamed : TypeTerm → Prop where
  /-- A plain name. -/
  | basic {name : String} (hopen : '<' ∉ name.toList)
      (hsuffix : Text.stripSuffix? "[]".toList name.toList = none) : IsNamed (.basic name)
  /-- A generic. -/
  | wrapped {wrapper : String} {inner : List TypeTerm} (hopen : '<' ∉ wrapper.toList)
      (hinner : ∀ t ∈ inner, IsNamed t) : IsNamed (.wrapped wrapper inner)
  /-- An array. -/
  | array {inner : List TypeTerm} (hinner : ∀ t ∈ inner, IsNamed t) : IsNamed (.array inner)

/-- Every term that is read has such names. -/
theorem isNamed_ofChars (raw : List Char) : (ofChars raw).IsNamed := by
  induction raw using reading_induction with
  | step raw ih =>
    have hinside : ∀ inner, (outermost (Text.trim raw)).inner? = some inner →
        ∀ t ∈ (alternatives inner).map ofChars, IsNamed t := fun inner hinner =>
      List.forall_mem_map.2 (ih inner hinner)
    rw [ofChars_eq]
    cases houter : outermost (Text.trim raw) with
    | name text =>
      obtain ⟨rfl, hopen, hsuffix⟩ := of_outermost_name houter
      have hname : (String.ofList (Text.trim raw)).toList = Text.trim raw := String.toList_ofList
      exact .basic (by rwa [hname]) (by rwa [hname])
    | generic wrapper inner =>
      refine .wrapped ?_ (hinside inner (by rw [houter]; rfl))
      rw [String.toList_ofList, wrapper_of_outermost houter]
      exact fun hmem => by simpa using List.mem_takeWhile_imp (mem_of_mem_trim hmem)
    | arrayOf inner => exact .array (hinside inner (by rw [houter]; rfl))

/-- Behind such a spelling no bracket is open that was not open in front. -/
theorem depthBehind_joined_le {ts : List TypeTerm}
    (h : ∀ t ∈ ts, ∀ depth, depthBehind depth t.toChars ≤ depth) (depth : Nat) :
    depthBehind depth (joined ts) ≤ depth := by
  unfold joined
  induction ts generalizing depth with
  | nil => exact Nat.le_refl depth
  | cons t ts ih =>
    obtain ⟨ht, hts⟩ := List.forall_mem_cons.1 h
    cases ts with
    | nil => simpa using ht depth
    | cons u ts =>
      have hbar : ∀ depth : Nat, depthBehind depth ['|'] = depth := fun _ => rfl
      rw [List.map_cons, List.map_cons, List.intercalate_cons_cons, depthBehind_append,
        depthBehind_append, hbar]
      exact Nat.le_trans (ih hts _) (ht depth)

theorem IsNamed.depthBehind_toChars_le {t : TypeTerm} (h : t.IsNamed) (depth : Nat) :
    depthBehind depth t.toChars ≤ depth := by
  induction h generalizing depth with
  | basic hopen _ => exact depthBehind_le_of_no_open hopen depth
  | wrapped hopen _ ih =>
    rw [toChars_wrapped]
    exact depthBehind_bracketed_le hopen (depthBehind_joined_le ih) depth
  | @array inner hinner ih =>
    rcases toChars_array inner with ⟨name, rfl, hchars⟩ | hchars
    · have hname := ih _ List.mem_cons_self depth
      rw [hchars, depthBehind_append]
      exact hname
    · rw [hchars]
      exact depthBehind_bracketed_le (by decide) (depthBehind_joined_le ih) depth

/-! ## Firm terms -/

/-- A term in which, between the bars of every list inside, all terms but the last are written with
balanced brackets. -/
inductive IsFirm : TypeTerm → Prop where
  /-- A plain name. -/
  | basic (name : String) : IsFirm (.basic name)
  /-- A generic. -/
  | wrapped {wrapper : String} {inner : List TypeTerm} (hinner : ∀ t ∈ inner, IsFirm t)
      (hbalanced : inner.Pairwise fun t _ => isBalanced t.toChars = true) :
      IsFirm (.wrapped wrapper inner)
  /-- An array. -/
  | array {inner : List TypeTerm} (hinner : ∀ t ∈ inner, IsFirm t)
      (hbalanced : inner.Pairwise fun t _ => isBalanced t.toChars = true) : IsFirm (.array inner)

/-- No bar cuts the spelling of a firm term. -/
theorem IsFirm.uncut {t : TypeTerm} (h : t.IsFirm) (hread : t.IsRead) (depth : Nat) :
    cutAtBars depth t.toChars = [t.toChars] := by
  have hjoined : ∀ ts : List TypeTerm,
      (∀ t ∈ ts, ∀ depth, cutAtBars depth t.toChars = [t.toChars]) →
      (ts.Pairwise fun t _ => isBalanced t.toChars = true) →
      ∀ depth, cutAtBars (depth + 1) (joined ts) = [joined ts] := fun ts huncut hbalanced =>
    uncut_intercalate (List.forall_mem_map.2 huncut)
      (List.Pairwise.map _ (fun _ _ h => h) hbalanced)
  induction h generalizing depth with
  | basic name =>
    cases hread with
    | basic _ _ hbar => exact cutAtBars_of_no_bar hbar
  | wrapped hinner hbalanced ih =>
    cases hread with
    | wrapped _ hbar hread =>
      rw [toChars_wrapped]
      exact uncut_bracketed_of_inside hbar
        (hjoined _ (fun t ht depth => ih t ht (hread t ht) depth) hbalanced) depth
  | @array inner hinner hbalanced ih =>
    cases hread with
    | array hread =>
      rcases toChars_array inner with ⟨name, rfl, hchars⟩ | hchars
      · have hname := ih _ List.mem_cons_self (hread _ List.mem_cons_self) depth
        rw [hchars]
        exact uncut_append hname (cutAtBars_of_no_bar (by decide))
      · rw [hchars]
        exact uncut_bracketed_of_inside (by decide)
          (hjoined _ (fun t ht depth => ih t ht (hread t ht) depth) hbalanced) depth

/-- The spelling of a firm term is its only alternative. -/
theorem IsFirm.alternatives_toChars {t : TypeTerm} (h : t.IsFirm) (hread : t.IsRead) :
    alternatives t.toChars = [t.toChars] := by
  exact hread.isSpelling.alternatives_eq (h.uncut hread 0)

/-- The alternatives of firm terms between bars are their spellings. -/
theorem alternatives_joined_of_firm {ts : List TypeTerm} (hfirm : ∀ t ∈ ts, t.IsFirm)
    (hread : ∀ t ∈ ts, t.IsRead) (hbalanced : ts.Pairwise fun t _ => isBalanced t.toChars = true) :
    alternatives (joined ts) = ts.map toChars := by
  have hnil : Text.isBlankText [] = true := rfl
  have hclosed : (ts.map toChars).Pairwise fun p _ => depthBehind 0 p = 0 :=
    List.Pairwise.map _ (fun t _ ht => depthBehind_of_isBalanced ht 0) hbalanced
  have hjoin := alternatives_intercalate_of_closed hnil hnil hclosed
  rw [List.nil_append] at hjoin
  rw [joined, hjoin, List.flatMap_map]
  calc ts.flatMap (fun t => alternatives t.toChars) = ts.flatMap fun t => [t.toChars] :=
        List.flatMap_congr fun t ht => (hfirm t ht).alternatives_toChars (hread t ht)
    _ = ts.map toChars := List.map_eq_flatMap.symm

/-! ## What a spelling is read as -/

/-- The term that a spelling is read as: generics with the name of arrays are arrays. -/
def reread : TypeTerm → TypeTerm
  | .basic name => .basic name
  | .wrapped wrapper inner =>
    if wrapper = "Array" then .array (inner.map reread) else .wrapped wrapper (inner.map reread)
  | .array inner => .array (inner.map reread)

/-- The outer construct of a text in brackets behind a name. -/
theorem outermost_bracketed {wrapper inner : List Char} (hopen : '<' ∉ wrapper)
    (htrim : Text.IsTrimmed inner) :
    outermost (wrapper ++ '<' :: (inner ++ ['>'])) = bracketed wrapper inner := by
  have hsuffix : Text.stripSuffix? "[]".toList (wrapper ++ '<' :: (inner ++ ['>'])) = none := by
    have := stripSuffix?_append_close (wrapper ++ '<' :: inner)
    rwa [List.append_assoc] at this
  rw [(outermost_append_open hopen hsuffix).1, insideBrackets_append_close htrim]

theorem IsFirm.map_ofChars_joined {ts : List TypeTerm} (hfirm : ∀ t ∈ ts, t.IsFirm)
    (hread : ∀ t ∈ ts, t.IsRead) (hbalanced : ts.Pairwise fun t _ => isBalanced t.toChars = true)
    (h : ∀ t ∈ ts, ofChars t.toChars = t.reread) :
    (alternatives (joined ts)).map ofChars = ts.map reread := by
  rw [alternatives_joined_of_firm hfirm hread hbalanced, List.map_map]
  exact List.map_congr_left h

theorem isTrimmed_joined_of_read {ts : List TypeTerm} (h : ∀ t ∈ ts, t.IsRead) :
    Text.IsTrimmed (joined ts) :=
  Text.isTrimmed_intercalate (List.forall_mem_map.2 fun t ht =>
    ⟨(h t ht).isSpelling.trimmed, (h t ht).isSpelling.ne_nil⟩)

/-- Reading the spelling of a firm term. -/
theorem IsFirm.ofChars_toChars {t : TypeTerm} (h : t.IsFirm) (hread : t.IsRead)
    (hnamed : t.IsNamed) : ofChars t.toChars = t.reread := by
  have htrim := hread.isSpelling.trimmed.trim_eq
  induction h with
  | basic name =>
    cases hnamed with
    | basic hopen hsuffix =>
      rw [ofChars_eq, htrim, toChars, (outermost_of_no_open hopen hsuffix).1, reread]
      exact congrArg _ String.ofList_toList
  | @wrapped wrapper inner hinner hbalanced ih =>
    cases hread with
    | wrapped hwrapper _ hread =>
      cases hnamed with
      | wrapped hopen hnamed =>
        have hinside := IsFirm.map_ofChars_joined hinner hread hbalanced fun t ht =>
          ih t ht (hread t ht) (hnamed t ht) (hread t ht).isSpelling.trimmed.trim_eq
        rw [toChars_wrapped] at htrim ⊢
        rw [ofChars_eq, htrim, outermost_bracketed hopen (isTrimmed_joined_of_read hread),
          bracketed, reread, ← hinside]
        by_cases harray : wrapper = "Array"
        · rw [if_pos harray, if_pos (congrArg String.toList harray)]
        · rw [if_neg harray, if_neg fun heq => harray (String.toList_inj.1 heq)]
          dsimp only
          rw [hwrapper.trim_eq, String.ofList_toList]
  | @array inner hinner hbalanced ih =>
    cases hread with
    | array hread =>
      cases hnamed with
      | array hnamed =>
        have hinside := IsFirm.map_ofChars_joined hinner hread hbalanced fun t ht =>
          ih t ht (hread t ht) (hnamed t ht) (hread t ht).isSpelling.trimmed.trim_eq
        rw [ofChars_eq, htrim, reread, ← hinside]
        rcases toChars_array inner with ⟨name, rfl, hchars⟩ | hchars
        · -- the text in front of the suffix is the spelling of the one member
          rw [hchars, outermost_suffix, joined_basic]
        · rw [hchars, outermost_bracketed (by decide) (isTrimmed_joined_of_read hread)]
          rfl

/-! ## Settled terms -/

/-- The element of an array that is written with the suffix. -/
def OneName (ts : List TypeTerm) : Prop := ∃ name, ts = [.basic name]

/-- A term without a generic that has the name of arrays and one plain name inside. -/
inductive IsSettled : TypeTerm → Prop where
  /-- A plain name. -/
  | basic (name : String) : IsSettled (.basic name)
  /-- A generic. -/
  | wrapped {wrapper : String} {inner : List TypeTerm} (hne : wrapper = "Array" → ¬ OneName inner)
      (hinner : ∀ t ∈ inner, IsSettled t) : IsSettled (.wrapped wrapper inner)
  /-- An array. -/
  | array {inner : List TypeTerm} (hinner : ∀ t ∈ inner, IsSettled t) : IsSettled (.array inner)

theorem toChars_array_of_oneName (name : String) :
    (array [.basic name]).toChars = name.toList ++ "[]".toList := by
  rw [toChars]
  simp [allToChars, toChars]

theorem toChars_array_of_not_oneName {ts : List TypeTerm} (h : ¬ OneName ts) :
    (array ts).toChars = (wrapped "Array" ts).toChars := by
  rw [toChars_wrapped]
  exact (toChars_array ts).resolve_left fun ⟨name, hts, _⟩ => h ⟨name, hts⟩

theorem reread_eq_basic {t : TypeTerm} {name : String} :
    t.reread = .basic name ↔ t = .basic name := by
  cases t with
  | basic other => rw [reread]
  | wrapped wrapper inner =>
    rw [reread]
    split <;> simp
  | array inner =>
    rw [reread]
    simp

theorem oneName_map_reread {ts : List TypeTerm} : OneName (ts.map reread) ↔ OneName ts := by
  refine exists_congr fun name => ?_
  cases ts with
  | nil => simp
  | cons t ts => simp [reread_eq_basic]

/-! ## Brackets of terms that are read again -/

/-- The number of opening brackets of joined texts. -/
theorem count_intercalate {c : Char} {sep : List Char} (hsep : c ∉ sep) (ps : List (List Char)) :
    (sep.intercalate ps).count c = (ps.map (List.count c)).sum := by
  induction ps with
  | nil => rfl
  | cons p ps ih =>
    cases ps with
    | nil => simp
    | cons q ps =>
      rw [List.intercalate_cons_cons, List.count_append, List.count_append, ih,
        List.count_eq_zero_of_not_mem hsep]
      rfl

theorem count_joined (ts : List TypeTerm) :
    (joined ts).count '<' = (ts.map fun t => t.toChars.count '<').sum := by
  rw [joined, count_intercalate (by decide), List.map_map]
  rfl

theorem count_wrapped (wrapper : String) (ts : List TypeTerm) :
    (wrapped wrapper ts).toChars.count '<'
      = wrapper.toList.count '<' + (joined ts).count '<' + 1 := by
  rw [toChars_wrapped, List.count_append, List.count_cons_self, List.count_append,
    List.count_eq_zero_of_not_mem (l := ['>']) (by decide)]
  omega

theorem count_array_of_oneName {ts : List TypeTerm} (h : OneName ts) :
    (array ts).toChars.count '<' = (joined ts).count '<' := by
  obtain ⟨name, rfl⟩ := h
  rw [toChars_array_of_oneName, joined_basic, List.count_append]
  rfl

theorem count_array_of_not_oneName {ts : List TypeTerm} (h : ¬ OneName ts) :
    (array ts).toChars.count '<' = (joined ts).count '<' + 1 := by
  rw [toChars_array_of_not_oneName h, count_wrapped,
    List.count_eq_zero_of_not_mem (a := '<') (by decide), Nat.zero_add]

/-- Members that are pointwise smaller, and not smaller in sum, are equal. -/
theorem eq_of_sum_eq {α : Type} {f g : α → Nat} {xs : List α} (hle : ∀ x ∈ xs, f x ≤ g x)
    (hsum : (xs.map f).sum = (xs.map g).sum) : ∀ x ∈ xs, f x = g x := by
  intro x hx
  by_contra hne
  have hlt := List.sum_lt_sum f g hle ⟨x, hx, lt_of_le_of_ne (hle x hx) hne⟩
  exact absurd hsum (Nat.ne_of_lt hlt)

/-- Reading a spelling again does not add a bracket, and takes one away if the term is not
settled. -/
theorem IsNamed.count_reread {t : TypeTerm} (h : t.IsNamed) :
    t.reread.toChars.count '<' ≤ t.toChars.count '<' ∧
      (t.reread.toChars.count '<' = t.toChars.count '<' → t.IsSettled) := by
  have hjoined : ∀ ts : List TypeTerm, (∀ t ∈ ts, t.reread.toChars.count '<' ≤ t.toChars.count '<' ∧
      (t.reread.toChars.count '<' = t.toChars.count '<' → t.IsSettled)) →
      (joined (ts.map reread)).count '<' ≤ (joined ts).count '<' ∧
        ((joined (ts.map reread)).count '<' = (joined ts).count '<' → ∀ t ∈ ts, t.IsSettled) := by
    intro ts h
    rw [count_joined, count_joined, List.map_map]
    refine ⟨List.sum_le_sum fun t ht => (h t ht).1, fun hsum t ht => (h t ht).2 ?_⟩
    exact eq_of_sum_eq (fun t ht => (h t ht).1) hsum t ht
  induction h with
  | @basic name =>
    rw [reread]
    exact ⟨Nat.le_refl _, fun _ => .basic name⟩
  | @wrapped wrapper inner hopen hinner ih =>
    obtain ⟨hle, hsettled⟩ := hjoined inner ih
    rw [reread, count_wrapped]
    by_cases harray : wrapper = "Array"
    · rw [if_pos harray]
      by_cases hone : OneName inner
      · -- the array is written with the suffix, without the bracket of the generic
        rw [count_array_of_oneName (oneName_map_reread.2 hone)]
        exact ⟨by omega, fun heq => absurd heq (by omega)⟩
      · rw [count_array_of_not_oneName (mt oneName_map_reread.1 hone)]
        exact ⟨by omega, fun heq => .wrapped (fun _ => hone) (hsettled (by omega))⟩
    · rw [if_neg harray, count_wrapped]
      exact ⟨by omega, fun heq => .wrapped (fun h => absurd h harray) (hsettled (by omega))⟩
  | @array inner hinner ih =>
    obtain ⟨hle, hsettled⟩ := hjoined inner ih
    rw [reread]
    by_cases hone : OneName inner
    · rw [count_array_of_oneName hone, count_array_of_oneName (oneName_map_reread.2 hone)]
      exact ⟨hle, fun heq => .array (hsettled heq)⟩
    · rw [count_array_of_not_oneName hone,
        count_array_of_not_oneName (mt oneName_map_reread.1 hone)]
      exact ⟨by omega, fun heq => .array (hsettled (by omega))⟩

/-- A settled term has the spelling of what its spelling is read as. -/
theorem IsSettled.toChars_reread {t : TypeTerm} (h : t.IsSettled) :
    t.reread.toChars = t.toChars := by
  have hjoined : ∀ ts : List TypeTerm, (∀ t ∈ ts, t.reread.toChars = t.toChars) →
      joined (ts.map reread) = joined ts := fun ts h => by
    rw [joined, joined, List.map_map]
    exact congrArg _ (List.map_congr_left h)
  have harray : ∀ ts : List TypeTerm, ¬ OneName ts → (∀ t ∈ ts, t.reread.toChars = t.toChars) →
      (TypeTerm.array (ts.map reread)).toChars = (TypeTerm.wrapped "Array" ts).toChars :=
        fun ts hone h => by
    rw [toChars_array_of_not_oneName (mt oneName_map_reread.1 hone), toChars_wrapped,
      toChars_wrapped, hjoined ts h]
  induction h with
  | basic name => rw [reread]
  | @wrapped wrapper inner hne hinner ih =>
    rw [reread]
    by_cases hwrapper : wrapper = "Array"
    · rw [if_pos hwrapper, harray inner (hne hwrapper) ih, hwrapper]
    · rw [if_neg hwrapper, toChars_wrapped, toChars_wrapped, hjoined inner ih]
  | @array inner hinner ih =>
    rw [reread]
    by_cases hone : OneName inner
    · obtain ⟨name, rfl⟩ := hone
      rw [List.map_singleton, reread]
    · rw [harray inner hone ih, toChars_array_of_not_oneName hone]

end TypeTerm

namespace TypeSet

open TypeExpr

variable {raw : String}

/-! ## Sets that are read again -/

theorem isNamed_of_mem_parse : ∀ t ∈ (parse raw).terms, t.IsNamed := fun t ht => by
  obtain ⟨p, -, rfl⟩ := List.mem_map.1 (mem_of_mem_keepFirst ht)
  exact TypeTerm.isNamed_ofChars p

theorem isRead_of_mem_parse : ∀ t ∈ (parse raw).terms, t.IsRead := fun t ht => by
  obtain ⟨p, hp, rfl⟩ := List.mem_map.1 (mem_of_mem_keepFirst ht)
  exact TypeTerm.isRead_of_mem_alternatives hp

/-- The alternatives of the text of a set are those of its spellings. -/
theorem alternatives_render_eq_flatMap {s : TypeSet} (h : ∀ t ∈ s.terms, t.IsNamed) :
    alternatives s.render.toList = s.keys.mergeSort.flatMap fun key => alternatives key.toList := by
  have hblank : Text.isBlankText [' '] = true := by decide
  have hclosed : ∀ p ∈ s.keys.mergeSort.map String.toList, depthBehind 0 p = 0 := by
    refine List.forall_mem_map.2 fun key hkey => ?_
    obtain ⟨t, ht, rfl⟩ := List.mem_map.1 (List.mem_mergeSort.1 hkey)
    rw [TypeTerm.render, String.toList_ofList]
    exact Nat.le_zero.1 ((h t ht).depthBehind_toChars_le 0)
  have hpairs : (s.keys.mergeSort.map String.toList).Pairwise fun p _ => depthBehind 0 p = 0 :=
    List.pairwise_iff_forall_sublist.2 fun hsub => hclosed _ (hsub.subset List.mem_cons_self)
  have hjoin := alternatives_intercalate_of_closed hblank hblank hpairs
  rw [List.flatMap_map] at hjoin
  rw [render, String.toList_intercalate]
  exact hjoin

/-- The spellings that are read from the text of firm terms. -/
theorem mem_keys_parse_render_of_firm (hfirm : ∀ t ∈ (parse raw).terms, t.IsFirm) {key : String} :
    key ∈ (parse (parse raw).render).keys ↔
      ∃ t ∈ (parse raw).terms, t.reread.render = key := by
  have hone : ∀ t ∈ (parse raw).terms,
      (alternatives t.render.toList).map .ofChars = [t.reread] := fun t ht => by
    have hread := isRead_of_mem_parse t ht
    rw [TypeTerm.render, String.toList_ofList, (hfirm t ht).alternatives_toChars hread,
      List.map_singleton, (hfirm t ht).ofChars_toChars hread (isNamed_of_mem_parse t ht)]
  rw [parse, mem_keys_ofTerms, alternatives_render_eq_flatMap isNamed_of_mem_parse]
  simp only [List.map_map, List.map_flatMap, List.mem_flatMap, List.mem_mergeSort]
  constructor
  · rintro ⟨other, hother, hkey⟩
    obtain ⟨t, ht, rfl⟩ := List.mem_map.1 hother
    rw [← List.map_map, hone t ht] at hkey
    exact ⟨t, ht, (List.mem_singleton.1 hkey).symm⟩
  · rintro ⟨t, ht, rfl⟩
    refine ⟨t.render, List.mem_map_of_mem ht, ?_⟩
    rw [← List.map_map, hone t ht]
    exact List.mem_singleton_self _

/-- The text of firm terms is read as the same type exactly when they are settled. -/
theorem parse_render_iff_settled (hfirm : ∀ t ∈ (parse raw).terms, t.IsFirm) :
    (parse (parse raw).render == parse raw) = true ↔ ∀ t ∈ (parse raw).terms, t.IsSettled := by
  constructor
  · intro hsame
    -- every spelling is that of a term read again, and there are no more terms than spellings
    have hsubset : (parse raw).keys ⊆ (parse raw).terms.map fun t => t.reread.render := by
      intro key hkey
      have hback := (beq_iff.1 (beq_symm (nodup_keys_parse _) hsame)).2 key hkey
      obtain ⟨t, ht, rfl⟩ := (mem_keys_parse_render_of_firm hfirm).1 hback
      exact List.mem_map_of_mem ht
    have hperm : (parse raw).keys.Perm ((parse raw).terms.map fun t => t.reread.render) :=
      (List.subperm_of_subset (nodup_keys_parse raw) hsubset).perm_of_length_le (by simp [keys])
    have hsum := (hperm.map fun key => key.toList.count '<').sum_eq
    rw [keys, List.map_map, List.map_map] at hsum
    intro t ht
    have hnamed : ∀ t ∈ (parse raw).terms, t.IsNamed := isNamed_of_mem_parse
    refine (hnamed t ht).count_reread.2
      (TypeTerm.eq_of_sum_eq (fun t ht => (hnamed t ht).count_reread.1) ?_ t ht)
    simpa [Function.comp_def, TypeTerm.render] using hsum.symm
  · intro hsettled
    refine beq_of_mem_keys (nodup_keys_parse _) (nodup_keys_parse _) fun key => ?_
    rw [mem_keys_parse_render_of_firm hfirm, keys, List.mem_map]
    refine exists_congr fun t => and_congr_right fun ht => ?_
    rw [TypeTerm.render, (hsettled t ht).toChars_reread, TypeTerm.render]

end TypeSet

end ApiTypings
