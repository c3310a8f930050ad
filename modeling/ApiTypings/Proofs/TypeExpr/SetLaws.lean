/-
# Laws of type sets

Two sets are the same when they have the same spellings.  A set whose text is a plain name is the
set of this one name, because every other term has a bracket in its spelling and a union a bar.

* `beq_refl`, `beq_trans`, `beq_symm` : being the same is an equivalence on sets without repeated
  spellings;
* `isPlain_toList` : a plain name has neither bars nor brackets;
* `terms_of_render_plain` : a set whose text is a plain name has this name as its one member.
-/
import ApiTypings.TypeExpr.Set
import Mathlib.Data.List.Perm.Subperm
import Mathlib.Data.List.TakeWhile

namespace ApiTypings

namespace TypeSet

/-! ## Equal sets -/

theorem beq_iff {a b : TypeSet} :
    (a == b) = true ↔ a.terms.length = b.terms.length ∧ ∀ k ∈ a.keys, k ∈ b.keys := by
  show sameAs a b = true ↔ _
  simp [sameAs, contains]

/-- A set is the same as itself. -/
theorem beq_refl (a : TypeSet) : (a == a) = true := beq_iff.2 ⟨rfl, fun _ h => h⟩

theorem beq_trans {a b c : TypeSet} (hab : (a == b) = true) (hbc : (b == c) = true) :
    (a == c) = true := by
  rw [beq_iff] at *
  exact ⟨hab.1.trans hbc.1, fun k hk => hbc.2 k (hab.2 k hk)⟩

/-- A set without repeated spellings that is the same as another one has all its spellings. -/
theorem beq_symm {a b : TypeSet} (hnd : a.keys.Nodup) (h : (a == b) = true) :
    (b == a) = true := by
  rw [beq_iff] at *
  refine ⟨h.1.symm, fun k hk => ?_⟩
  have hlen : b.keys.length ≤ a.keys.length := by simp [keys, h.1]
  exact ((List.subperm_of_subset hnd h.2).perm_of_length_le hlen).mem_iff.2 hk

/-- Sets without repeated spellings are the same when they have the same spellings. -/
theorem beq_of_mem_keys {a b : TypeSet} (ha : a.keys.Nodup) (hb : b.keys.Nodup)
    (h : ∀ key, key ∈ a.keys ↔ key ∈ b.keys) : (a == b) = true := by
  refine beq_iff.2 ⟨?_, fun key hkey => (h key).1 hkey⟩
  simpa [keys] using ((List.perm_ext_iff_of_nodup ha hb).2 h).length_eq

theorem mem_keys_of_beq {a b : TypeSet} (ha : a.keys.Nodup) (h : (a == b) = true) (key : String) :
    key ∈ a.keys ↔ key ∈ b.keys :=
  ⟨(beq_iff.1 h).2 key, (beq_iff.1 (beq_symm ha h)).2 key⟩

/-- The text of a type expression gives a set without repeated spellings. -/
theorem nodup_keys_parse (raw : String) : (parse raw).keys.Nodup := nodup_keys_ofTerms _

end TypeSet

namespace TypeExpr

/-! ## Texts of plain names -/

/-- A text without bars and brackets, as the spelling of a plain name has to be. -/
structure IsPlain (cs : List Char) : Prop where
  ne_nil : cs ≠ []
  no_bar : '|' ∉ cs
  no_bracket : '<' ∉ cs
  no_suffix : Text.stripSuffix? "[]".toList cs = none

/-- Without brackets the text is cut at every bar, and the pieces are shorter. -/
theorem length_of_mem_cutAtBars_of_bar {cs piece : List Char} (hbar : '|' ∈ cs)
    (hbracket : '<' ∉ cs) (h : piece ∈ cutAtBars 0 cs) : piece.length < cs.length := by
  induction cs generalizing piece with
  | nil => exact absurd hbar List.not_mem_nil
  | cons c cs ih =>
    rw [List.mem_cons, not_or] at hbracket
    rw [List.length_cons, Nat.lt_succ_iff]
    by_cases hc : c = '|'
    · rw [cutAtBars, if_pos ⟨hc, rfl⟩] at h
      rcases List.mem_cons.1 h with rfl | h
      · exact Nat.zero_le _
      · exact length_of_mem_cutAtBars h
    · have hbar' : '|' ∈ cs := (List.mem_cons.1 hbar).resolve_left (Ne.symm hc)
      have hdepth : depthAfter 0 c = 0 := by
        rw [depthAfter, if_neg (Ne.symm hbracket.1), Nat.zero_sub, ite_self]
      rw [cutAtBars, if_neg fun hin => hc hin.1, hdepth] at h
      have hpos : 0 < cs.length := List.length_pos_of_mem hbar'
      have hle : piece.length ≤ cs.length - 1 + 1 :=
        length_of_mem_pushFront (fun q hq => Nat.le_sub_one_of_lt (ih hbar' hbracket.2 hq)) h
      omega

/-- Only a text without brackets has nothing after a first bracket. -/
theorem afterBracket?_eq_none_iff {cs : List Char} : afterBracket? cs = none ↔ '<' ∉ cs := by
  have hdrop : afterBracket? cs = none ↔ cs.dropWhile (· ≠ '<') = [] := by
    unfold afterBracket?
    cases cs.dropWhile (· ≠ '<') <;> simp
  rw [hdrop, List.dropWhile_eq_nil_iff]
  constructor
  · intro hall hmem
    simpa using hall '<' hmem
  · intro hnot c hc
    simpa using fun heq : c = '<' => hnot (heq ▸ hc)

/-- A text whose outer construct is a name is this name, and has no brackets. -/
theorem of_outermost_name {term text : List Char} (h : outermost term = .name text) :
    text = term ∧ '<' ∉ term ∧ Text.stripSuffix? "[]".toList term = none := by
  unfold outermost at h
  split at h
  · simp at h
  · rename_i hsuffix
    split at h
    · simp at h
    · split at h
      · simp at h
      · rename_i hafter
        exact ⟨(Construct.name.inj h).symm, afterBracket?_eq_none_iff.1 hafter, hsuffix⟩

/-- A name that is one alternative, and read as itself, has no bars and no brackets. -/
theorem isPlain_of_alternative {cs p : List Char} (hp : p ∈ alternatives cs)
    (hname : outermost (Text.trim p) = .name cs) : IsPlain cs := by
  obtain ⟨hcs, hbracket, hsuffix⟩ := of_outermost_name hname
  obtain ⟨hne, q, hq, rfl⟩ := mem_alternatives.1 hp
  rw [← hcs] at hbracket hsuffix
  refine ⟨?_, fun hbar => ?_, hbracket, hsuffix⟩
  · rintro rfl
    have := length_of_mem_alternatives hp
    exact hne (List.length_eq_zero_iff.1 (Nat.le_zero.1 this))
  · have h1 := length_of_mem_cutAtBars_of_bar hbar hbracket hq
    have h2 := Text.length_trim_le q
    have h3 := Text.length_trim_le (Text.trim q)
    rw [← hcs] at h3
    omega

/-- A text without bars is one piece. -/
theorem cutAtBars_of_no_bar {depth : Nat} {cs : List Char} (h : '|' ∉ cs) :
    cutAtBars depth cs = [cs] := by
  induction cs generalizing depth with
  | nil => rfl
  | cons c cs ih =>
    rw [List.mem_cons, not_or] at h
    rw [cutAtBars, if_neg fun hin => h.1 hin.1.symm, ih h.2]
    rfl

/-- A trimmed text without bars and brackets is one alternative. -/
theorem alternatives_of_isPlain {cs : List Char} (h : IsPlain cs) (htrim : Text.trim cs = cs) :
    alternatives cs = [cs] := by
  rw [alternatives, cutAtBars_of_no_bar h.no_bar, List.map_singleton, htrim]
  simpa using h.ne_nil

/-- The outer construct of a text without brackets is a name. -/
theorem outermost_of_isPlain {cs : List Char} (h : IsPlain cs) : outermost cs = .name cs := by
  have hprefix : Text.stripPrefix? "Array<".toList cs = none := by
    rw [Option.eq_none_iff_forall_ne_some]
    intro rest hrest
    rw [Text.stripPrefix?_eq_some] at hrest
    exact h.no_bracket (by rw [hrest]; simp)
  rw [outermost, h.no_suffix, hprefix, afterBracket?_eq_none_iff.2 h.no_bracket]

end TypeExpr

namespace TypeTerm

open TypeExpr

/-- A term with the spelling of a plain name is this name. -/
theorem eq_basic_of_isPlain {t : TypeTerm} (h : IsPlain t.toChars) :
    t = .basic (.ofList t.toChars) := by
  cases t with
  | basic name => rw [toChars, String.ofList_toList]
  | wrapped wrapper inner => exact absurd (by simp [toChars]) h.no_bracket
  | array inner =>
    exfalso
    unfold toChars at h
    split at h
    · have hsuffix := h.no_suffix
      rw [Option.eq_none_iff_forall_ne_some] at hsuffix
      exact hsuffix _ (Text.stripSuffix?_eq_some.2 rfl)
    · exact h.no_bracket (by simp)

end TypeTerm

namespace TypeSet

open TypeExpr

/-- A name is plain when it is read as this one name. -/
def IsPlainName (name : String) : Prop := (parse name).singleName? = some name

instance (name : String) : Decidable (IsPlainName name) :=
  inferInstanceAs (Decidable ((parse name).singleName? = some name))

theorem terms_of_singleName {s : TypeSet} {name : String} (h : s.singleName? = some name) :
    s.terms = [.basic name] := by
  unfold singleName? at h
  split at h
  · rename_i t ht
    cases t with
    | basic n => rw [ht, Option.some.inj h]
    | wrapped _ _ => simp [TypeTerm.name?] at h
    | array _ => simp [TypeTerm.name?] at h
  · simp at h

/-- Keeping the first term of every spelling adds no term. -/
theorem mem_of_mem_keepFirst {t : TypeTerm} {ts : List TypeTerm} (h : t ∈ keepFirst ts) :
    t ∈ ts := by
  induction ts with
  | nil => exact h
  | cons u ts ih =>
    rw [keepFirst] at h
    rcases List.mem_cons.1 h with rfl | h
    · exact List.mem_cons_self
    · exact List.mem_cons_of_mem _ (ih (List.mem_filter.1 h).1)

/-- A plain name has neither bars nor brackets. -/
theorem isPlain_toList {name : String} (h : IsPlainName name) : IsPlain name.toList := by
  have hmem : TypeTerm.basic name ∈ (parse name).terms := by
    rw [terms_of_singleName h]
    exact List.mem_singleton_self _
  obtain ⟨p, hp, hterm⟩ := List.mem_map.1 (mem_of_mem_keepFirst hmem)
  rw [TypeTerm.ofChars_eq] at hterm
  split at hterm
  · rename_i text hout
    have htext : text = name.toList := by
      rw [← TypeTerm.basic.inj hterm, String.toList_ofList]
    exact isPlain_of_alternative hp (htext ▸ hout)
  · exact TypeTerm.noConfusion hterm
  · exact TypeTerm.noConfusion hterm

/-- A trimmed name without bars and brackets is plain. -/
theorem isPlainName_of_isPlain {name : String} (h : IsPlain name.toList)
    (htrim : Text.trim name.toList = name.toList) : IsPlainName name := by
  have hterm : TypeTerm.ofChars name.toList = .basic name := by
    rw [TypeTerm.ofChars_eq, htrim, outermost_of_isPlain h]
    simp
  rw [IsPlainName, parse, alternatives_of_isPlain h htrim, List.map_singleton, hterm]
  rfl

/-- The name `any` is plain. -/
theorem isPlainName_any : IsPlainName anyName :=
  isPlainName_of_isPlain ⟨by decide, by decide, by decide, by decide⟩ (by decide)

/-- The text of a set of two or more members has a bar. -/
theorem bar_mem_intercalate {a b : String} {keys : List String} :
    '|' ∈ (" | ".intercalate (a :: b :: keys)).toList := by
  simp [String.toList_intercalate, List.intercalate]

/-- A set whose text is a plain name has this name as its one member. -/
theorem terms_of_render_plain {s : TypeSet} {name : String} (hplain : IsPlainName name)
    (h : s.render = name) : s.terms = [.basic name] := by
  have hp := isPlain_toList hplain
  unfold render at h
  cases hkeys : s.keys.mergeSort with
  | nil =>
    rw [hkeys] at h
    exact absurd (h ▸ rfl) hp.ne_nil
  | cons a rest =>
    rw [hkeys] at h
    cases rest with
    | nil =>
      -- one key comes from one term, and the term's text is the name
      have hlen : s.terms.length = 1 := by
        rw [← List.length_map (f := TypeTerm.render), ← keys, ← List.length_mergeSort, hkeys]
        rfl
      obtain ⟨t, ht⟩ := List.length_eq_one_iff.1 hlen
      rw [keys, ht, List.map_singleton, List.mergeSort_singleton] at hkeys
      have hname : name = t.render := by
        rw [← h, ← (List.cons.inj hkeys).1]
        rfl
      have hchars : TypeExpr.IsPlain t.toChars := by
        rw [hname, TypeTerm.render, String.toList_ofList] at hp
        exact hp
      have hbasic := TypeTerm.eq_basic_of_isPlain hchars
      rw [ht, hname]
      exact congrArg (fun u => [u]) hbasic
    | cons b rest => exact absurd (h ▸ bar_mem_intercalate) hp.no_bar

/-- A set whose text is `any` is just `any`. -/
theorem isAny_of_render {s : TypeSet} (h : s.render = anyName) : s.isAny = true := by
  have hterms := terms_of_render_plain isPlainName_any h
  simp [isAny, isOnly, contains, keys, hterms, TypeTerm.render, TypeTerm.toChars]

/-- The text of a plain name read as a type is the name. -/
theorem render_parse_of_isPlainName {name : String} (h : IsPlainName name) :
    (parse name).render = name := by
  rw [render, keys, terms_of_singleName h, List.map_singleton, List.mergeSort_singleton]
  simp [TypeTerm.render, TypeTerm.toChars, String.intercalate_singleton]

end TypeSet

end ApiTypings
