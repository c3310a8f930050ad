/-
# Equivalent parameters have equivalent signatures

Whether a method repeats another one is decided by the documented parameters: pairwise, the same
types and optionality.  What is emitted are the signatures, in which parameters were made required,
left out or merged.  Every step on the way looks at the types, as sets, and at the optionality only,
so two lists that are pairwise equivalent take the same steps, and their signatures are pairwise
equivalent.

Whether a parameter takes all remaining arguments is not compared.  A rest parameter keeps its mark
in every signature, so the marks of two equivalent lists agree exactly when the lists agree in it.

* `Kept` : the relations between parameters that the steps keep;
* `splitRun?_rel`, `runChoices_rel` : one optional run and the choices for it;
* `combinations_rel` : one optional run after the other;
* `signatures_of_isIdenticalTo` : the signatures of two methods, one of which repeats the other.
-/
import ApiTypings.Proofs.Method
import ApiTypings.Proofs.TypeExpr.SetLaws

namespace ApiTypings

/-! ## Sets with the same members -/

namespace TypeSet

variable {a a' b b' : TypeSet}

theorem length_terms_of_perm (h : a.keys.Perm b.keys) : a.terms.length = b.terms.length := by
  simpa [keys] using h.length_eq

/-- Sets with the same spellings are the same. -/
theorem beq_of_perm (h : a.keys.Perm b.keys) : (a == b) = true :=
  beq_iff.2 ⟨length_terms_of_perm h, fun _ => h.mem_iff.1⟩

/-- A set without repeated spellings that is the same as another one has the same spellings. -/
theorem perm_of_beq (ha : a.keys.Nodup) (h : (a == b) = true) : a.keys.Perm b.keys := by
  obtain ⟨hlen, hsub⟩ := beq_iff.1 h
  refine (List.subperm_of_subset ha hsub).perm_of_length_le ?_
  simp [keys, hlen]

theorem beq_congr (ha : a.keys.Perm a'.keys) (hb : b.keys.Perm b'.keys) :
    (a == b) = (a' == b') := by
  rw [Bool.eq_iff_iff, beq_iff, beq_iff, length_terms_of_perm ha, length_terms_of_perm hb]
  refine and_congr_right fun _ => forall_congr' fun key => ?_
  rw [ha.mem_iff, hb.mem_iff]

theorem isAny_congr (h : a.keys.Perm a'.keys) : a.isAny = a'.isAny := by
  have hcontains : a.contains anyName = a'.contains anyName := by
    rw [contains, contains, h.contains_eq]
  rw [isAny, isAny, isOnly, isOnly, length_terms_of_perm h, hcontains]

theorem union_perm (ha : a.keys.Perm a'.keys) (hb : b.keys.Perm b'.keys) :
    (a.union b).keys.Perm (a'.union b').keys := by
  refine (List.perm_ext_iff_of_nodup (nodup_keys_union _ _) (nodup_keys_union _ _)).2 fun key => ?_
  rw [mem_keys_union, mem_keys_union]
  exact or_congr ha.mem_iff hb.mem_iff

end TypeSet

/-! ## Parameters -/

namespace Parameter

/-- Two parameters with the same types, in any order, and the same optionality. -/
structure Agree (p q : Parameter) : Prop where
  types : p.types.keys.Perm q.types.keys
  optional : p.optional = q.optional

theorem Agree.isEquivalent {p q : Parameter} (h : p.Agree q) : p.isEquivalent q = true := by
  rw [Parameter.isEquivalent, TypeSet.beq_of_perm h.types, h.optional, beq_self_eq_true]
  rfl

/-- Equivalent parameters whose types are spelled without repetition agree. -/
theorem agree_of_isEquivalent {p q : Parameter} (hp : p.types.keys.Nodup)
    (h : p.isEquivalent q = true) : p.Agree q := by
  rw [Parameter.isEquivalent, Bool.and_eq_true] at h
  exact ⟨TypeSet.perm_of_beq hp h.1, beq_iff_eq.1 h.2⟩

/-- What stands in front of the name in a signature. -/
def restMark (p : Parameter) : String := if p.spread then "..." else ""

/-- What stands behind the name in a signature.  A rest parameter is never marked as optional. -/
def optionalMark (p : Parameter) : String := if !p.spread && p.optional then "?" else ""

/-- A parameter in a signature is its name between the two marks, and its types. -/
theorem render_eq (p : Parameter) :
    p.render = p.restMark ++ p.displayName ++ p.optionalMark ++ ": "
      ++ if p.spread then p.types.renderAsArray else p.types.render := by
  unfold render restMark optionalMark
  cases p.spread <;> simp

/-- Two parameters with the same marks in a signature. -/
structure SameMarks (p q : Parameter) : Prop where
  rest : p.restMark = q.restMark
  optional : p.optionalMark = q.optionalMark

instance (p q : Parameter) : Decidable (p.SameMarks q) :=
  decidable_of_iff (p.restMark = q.restMark ∧ p.optionalMark = q.optionalMark)
    ⟨fun h => ⟨h.1, h.2⟩, fun h => ⟨h.rest, h.optional⟩⟩

theorem restMark_inj {p q : Parameter} : p.restMark = q.restMark ↔ p.spread = q.spread := by
  unfold restMark
  cases p.spread <;> cases q.spread <;> decide

/-- Parameters of the same optionality have the same marks when both or neither take all remaining
arguments. -/
theorem Agree.sameMarks_iff {p q : Parameter} (h : p.Agree q) :
    p.SameMarks q ↔ p.spread = q.spread := by
  constructor
  · exact fun hmarks => restMark_inj.1 hmarks.rest
  · intro hspread
    exact ⟨restMark_inj.2 hspread, by rw [optionalMark, optionalMark, hspread, h.optional]⟩

end Parameter

namespace Signature

open Parameter

/-! ## Relations that the expansion keeps -/

/-- Related parameters are alike in all that the expansion looks at, and the parameters that it
makes of them are related again. -/
structure Kept (R : Parameter → Parameter → Prop) : Prop where
  optional : ∀ {p q}, R p q → p.optional = q.optional
  required : ∀ {p q}, R p q → R p.required q.required
  elided : ∀ {p q p' q'}, R p q → R p' q' → p.canBeElidedFor p' = q.canBeElidedFor q'
  merge : ∀ {p q p' q'}, R p q → R p' q' → R (p.merge p') (q.merge q')

theorem kept_agree : Kept Agree where
  optional h := h.optional
  required h := ⟨h.types, rfl⟩
  elided h h' := by
    rw [canBeElidedFor, canBeElidedFor, TypeSet.beq_congr h.types h'.types,
      TypeSet.isAny_congr h'.types]
  merge h h' := ⟨TypeSet.union_perm h.types h'.types, by rw [optional_merge, optional_merge]⟩

/-- The expansion keeps rest parameters apart from the others. -/
theorem kept_agree_spread : Kept fun p q => p.Agree q ∧ p.spread = q.spread where
  optional h := kept_agree.optional h.1
  required h := ⟨kept_agree.required h.1, h.2⟩
  elided h h' := kept_agree.elided h.1 h'.1
  merge h h' := ⟨kept_agree.merge h.1 h'.1, by rw [spread_merge, spread_merge]⟩

section

variable {R : Parameter → Parameter → Prop} {ps qs : List Parameter}

theorem forall₂_takeWhile {f : Parameter → Bool} (hf : ∀ p q, R p q → f p = f q)
    (h : List.Forall₂ R ps qs) : List.Forall₂ R (ps.takeWhile f) (qs.takeWhile f) := by
  induction h with
  | nil => exact .nil
  | @cons p q _ _ hpq _ ih =>
    by_cases hp : f p = true
    · rw [List.takeWhile_cons_of_pos hp, List.takeWhile_cons_of_pos (hf _ _ hpq ▸ hp)]
      exact .cons hpq ih
    · rw [List.takeWhile_cons_of_neg hp, List.takeWhile_cons_of_neg (hf _ _ hpq ▸ hp)]
      exact .nil

theorem forall₂_dropWhile {f : Parameter → Bool} (hf : ∀ p q, R p q → f p = f q)
    (h : List.Forall₂ R ps qs) : List.Forall₂ R (ps.dropWhile f) (qs.dropWhile f) := by
  induction h with
  | nil => exact .nil
  | @cons p q _ _ hpq hrest ih =>
    by_cases hp : f p = true
    · rw [List.dropWhile_cons_of_pos hp, List.dropWhile_cons_of_pos (hf _ _ hpq ▸ hp)]
      exact ih
    · rw [List.dropWhile_cons_of_neg hp, List.dropWhile_cons_of_neg (hf _ _ hpq ▸ hp)]
      exact .cons hpq hrest

theorem isEmpty_of_forall₂ (h : List.Forall₂ R ps qs) : ps.isEmpty = qs.isEmpty := by
  cases h <;> rfl

variable (hR : Kept R)

include hR

/-- Related lists have related parts around their first optional run, or both have none. -/
theorem splitRun?_rel (h : List.Forall₂ R ps qs) :
    (splitRun? ps = none ∧ splitRun? qs = none) ∨
      ∃ s t, splitRun? ps = some s ∧ splitRun? qs = some t ∧ List.Forall₂ R s.before t.before ∧
        List.Forall₂ R s.run t.run ∧ List.Forall₂ R s.after t.after := by
  have hoptional : ∀ p q, R p q → p.optional = q.optional := fun _ _ => hR.optional
  have hrequired : ∀ p q, R p q → (!p.optional) = !q.optional := fun p q hpq => by
    rw [hR.optional hpq]
  have hrest := forall₂_dropWhile hrequired h
  have hrun := forall₂_takeWhile hoptional hrest
  have hafter := forall₂_dropWhile hoptional hrest
  have hguard := congrArg₂ (· || ·) (isEmpty_of_forall₂ hrun) (isEmpty_of_forall₂ hafter)
  simp only [splitRun?]
  split
  · rename_i hnone
    rw [if_pos (hguard ▸ hnone)]
    exact .inl ⟨rfl, rfl⟩
  · rename_i hsome
    rw [if_neg (hguard ▸ hsome)]
    exact .inr ⟨_, _, rfl, rfl, forall₂_takeWhile hrequired h, hrun, hafter⟩

theorem mergedChoices_rel {run run' : List Parameter} (h : List.Forall₂ R run run') :
    List.Forall₂ (List.Forall₂ R) (mergedChoices run) (mergedChoices run') := by
  match h with
  | .nil => exact .nil
  | .cons _ .nil => exact .nil
  | .cons hfirst (.cons hsecond .nil) =>
    rw [mergedChoices, mergedChoices, hR.elided hfirst hsecond]
    split
    · exact .nil
    · exact .cons (.cons (hR.merge hfirst hsecond) .nil) .nil
  | .cons _ (.cons _ (.cons _ _)) => exact .nil

/-- Related optional runs offer related choices, in the same order. -/
theorem runChoices_rel {run run' : List Parameter} (h : List.Forall₂ R run run') :
    List.Forall₂ (List.Forall₂ R) (runChoices run) (runChoices run') :=
  .cons (List.rel_map (fun _ _ hpq => hR.required hpq) h) (.cons .nil (mergedChoices_rel hR h))

/-- Related lists have related combinations, in the same order. -/
theorem combinations_rel (h : List.Forall₂ R ps qs) :
    List.Forall₂ (List.Forall₂ R) (combinations ps) (combinations qs) := by
  induction ps using run_induction generalizing qs with
  | last ps hnone =>
    rcases splitRun?_rel hR h with ⟨-, hnone'⟩ | ⟨s, -, hsome, -⟩
    · rw [combinations_of_none hnone, combinations_of_none hnone']
      exact .cons h .nil
    · rw [hnone] at hsome
      exact absurd hsome (by simp)
  | run ps s hsome ih =>
    rcases splitRun?_rel hR h with ⟨hnone, -⟩ | ⟨s', t, hs, ht, hbefore, hrun, hafter⟩
    · rw [hnone] at hsome
      exact absurd hsome (by simp)
    · obtain rfl := Option.some.inj (hs.symm.trans hsome)
      rw [combinations_of_some hsome, combinations_of_some ht]
      -- the choices for the run, each one in front of the combinations of the rest
      refine List.rel_flatMap (runChoices_rel hR hrun) fun chosen chosen' hchosen => ?_
      refine List.rel_map (fun tail tail' htail => ?_) (ih hafter)
      exact List.rel_append (List.rel_append hbefore hchosen) htail

end

/-! ## Marks in signatures -/

/-- Lists of the same types and optionality have signatures with the same marks exactly when they
have the same rest parameters. -/
theorem sameMarks_combinations_iff {ps qs : List Parameter} (h : List.Forall₂ Agree ps qs) :
    List.Forall₂ (List.Forall₂ SameMarks) (combinations ps) (combinations qs) ↔
      ps.map (·.spread) = qs.map (·.spread) := by
  have heq : ∀ {as bs : List Parameter}, as.map (·.spread) = bs.map (·.spread) ↔
      List.Forall₂ (fun p q => p.spread = q.spread) as bs := fun {as bs} => by
    rw [← List.forall₂_eq_eq_eq, List.forall₂_map_left_iff, List.forall₂_map_right_iff]
  constructor
  · intro hmarks
    obtain ⟨first, others, hfirst, hspread⟩ := exists_first_combination (·.spread) (fun _ => rfl) ps
    obtain ⟨first', others', hfirst', hspread'⟩ :=
      exists_first_combination (·.spread) (fun _ => rfl) qs
    rw [hfirst, hfirst', List.forall₂_cons] at hmarks
    rw [← hspread, ← hspread', heq]
    exact hmarks.1.imp fun _ _ hpq => restMark_inj.1 hpq.rest
  · intro hspread
    have hboth : List.Forall₂ (fun p q => p.Agree q ∧ p.spread = q.spread) ps qs := by
      rw [List.forall₂_iff_zip] at h ⊢
      exact ⟨h.1, fun hpq => ⟨h.2 hpq, (List.forall₂_iff_zip.1 (heq.1 hspread)).2 hpq⟩⟩
    refine (combinations_rel kept_agree_spread hboth).imp fun _ _ hsigs => ?_
    exact hsigs.imp fun _ _ hpq => hpq.1.sameMarks_iff.2 hpq.2

end Signature

namespace Method

open Signature

variable {settings : Settings}

/-! ## Methods -/

theorem forall₂_of_equivalentParameters {ps qs : List Parameter}
    (h : equivalentParameters ps qs = true) :
    List.Forall₂ (fun p q => p.isEquivalent q = true) ps qs := by
  rw [equivalentParameters, Bool.and_eq_true, beq_iff_eq, List.all_eq_true] at h
  exact List.forall₂_iff_zip.2 ⟨h.1, fun hpq => h.2 _ hpq⟩

/-- The parameters of a built method that repeats another one agree with those of the other one. -/
theorem agree_of_isIdenticalTo {doc : MethodDoc} {owner : String} {kind : SymbolKind}
    {m other : Method} {types : TypeSet} (hm : build settings doc owner kind = .ok m)
    (h : m.isIdenticalTo other types = true) :
    List.Forall₂ Parameter.Agree m.parameters other.parameters := by
  have hnodup := (isBuilt_of_build hm).1.nodup_parameters
  have hpairs := forall₂_of_equivalentParameters (Bool.and_eq_true_iff.1 h).2
  rw [List.forall₂_iff_zip] at hpairs ⊢
  refine ⟨hpairs.1, fun hpq => ?_⟩
  exact Parameter.agree_of_isEquivalent (hnodup _ (List.of_mem_zip hpq).1) (hpairs.2 hpq)

/-- **Signatures of repeated methods.**  When a built method repeats another one, they have equally
many signatures, and in each place of a signature equivalent parameters: the same types and the same
optionality.  The parameters have the same marks everywhere exactly when the same of the documented
parameters take all remaining arguments. -/
theorem signatures_of_isIdenticalTo {doc doc' : MethodDoc} {owner owner' : String}
    {kind kind' : SymbolKind} {m other : Method} (hm : build settings doc owner kind = .ok m)
    (hother : build settings doc' owner' kind' = .ok other)
    (h : m.isIdenticalTo other m.returnTypes = true) :
    List.Forall₂ (List.Forall₂ fun p q => p.isEquivalent q = true) m.signatures
        other.signatures ∧
      (List.Forall₂ (List.Forall₂ Parameter.SameMarks) m.signatures other.signatures ↔
        m.parameters.map (·.spread) = other.parameters.map (·.spread)) := by
  have hagree := agree_of_isIdenticalTo hm h
  rw [(madeFrom_of_build hm).signatures_eq, (madeFrom_of_build hother).signatures_eq]
  refine ⟨?_, sameMarks_combinations_iff hagree⟩
  refine (combinations_rel kept_agree hagree).imp fun _ _ hsigs => ?_
  exact hsigs.imp fun _ _ hpq => hpq.isEquivalent

/-! ## Methods with rest parameters -/

/-- A method that attaches a handler, with optional data in front. -/
def attachDoc (data : String) : MethodDoc where
  name := "attachPress"
  parameters :=
    [{ name := data, type := some "object|string", optional := true },
      { name := "handlers", type := some "Array<function>", spread := true }]

theorem signatures_of_isIdenticalTo_attachDoc :
    ∃ m other, build {} (attachDoc "data") "x.Link" .classKind = .ok m ∧
      build {} (attachDoc "payload") "x.Button" .classKind = .ok other ∧
      m.isIdenticalTo other m.returnTypes = true ∧ m.signatures.length = 2 ∧
      List.Forall₂ (List.Forall₂ fun p q => p.isEquivalent q = true) m.signatures
        other.signatures ∧
      List.Forall₂ (List.Forall₂ Parameter.SameMarks) m.signatures other.signatures := by
  have hfound : (build {} (attachDoc "data") "x.Link" .classKind).toOption.any (fun m =>
      (build {} (attachDoc "payload") "x.Button" .classKind).toOption.any fun other =>
        m.isIdenticalTo other m.returnTypes && m.signatures.length == 2 &&
          m.parameters.map (·.spread) == other.parameters.map (·.spread)) = true := by
    decide +kernel
  obtain ⟨m, hm, hfound⟩ := exists_ok_of_any hfound
  obtain ⟨other, hother, hfound⟩ := exists_ok_of_any hfound
  rw [Bool.and_eq_true, Bool.and_eq_true, beq_iff_eq, beq_iff_eq] at hfound
  obtain ⟨⟨hsame, hlength⟩, hspread⟩ := hfound
  obtain ⟨hequivalent, hmarks⟩ := signatures_of_isIdenticalTo hm hother hsame
  exact ⟨m, other, hm, hother, hsame, hlength, hequivalent, hmarks.2 hspread⟩

/-- A method with one parameter, a list of texts or all remaining texts. -/
def logDoc (spread : Bool) : MethodDoc where
  name := "log"
  parameters := [{ name := "texts", type := some "string[]", spread }]

/-- A method that takes a list repeats one that takes all remaining arguments. -/
theorem not_sameMarks_logDoc :
    ∃ m other, build {} (logDoc false) "x.Console" .classKind = .ok m ∧
      build {} (logDoc true) "x.Log" .classKind = .ok other ∧
      m.isIdenticalTo other m.returnTypes = true ∧
      ¬ List.Forall₂ (List.Forall₂ Parameter.SameMarks) m.signatures other.signatures := by
  have hfound : (build {} (logDoc false) "x.Console" .classKind).toOption.any (fun m =>
      (build {} (logDoc true) "x.Log" .classKind).toOption.any fun other =>
        m.isIdenticalTo other m.returnTypes &&
          !decide (List.Forall₂ (List.Forall₂ Parameter.SameMarks) m.signatures
            other.signatures)) = true := by
    decide +kernel
  obtain ⟨m, hm, hfound⟩ := exists_ok_of_any hfound
  obtain ⟨other, hother, hfound⟩ := exists_ok_of_any hfound
  rw [Bool.and_eq_true, Bool.not_eq_true', decide_eq_false_iff_not] at hfound
  exact ⟨m, other, hm, hother, hfound.1, hfound.2⟩

end Method

end ApiTypings
