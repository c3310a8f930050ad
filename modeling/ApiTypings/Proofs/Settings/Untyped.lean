/-
# Members without a type

A missing or blank type is `any`, or `void` for a method that returns nothing.  Whether a type is
blank is asked of its text, before it is replaced and cut into alternatives, and both can leave
nothing of it: a text of bars has no alternatives, and the table may have a value without any for
every alternative.  Nothing else does, so a member has no type exactly when its text, with the
fallback in place, is taken away in one of these two ways.

* `alternatives_eq_nil_iff` : the texts without alternatives;
* `terms_replaceTypes_eq_nil_iff` : the types of which nothing is left;
* `exists_untyped_iff` : the parameters in the signatures of a method;
* `members_untyped_iff` : properties, parameters and methods.
-/
import ApiTypings.Proofs.Refusal
import ApiTypings.Proofs.Settings.Replacement

namespace ApiTypings

/-! ## Texts without alternatives -/

namespace TypeExpr

/-- A text of blanks and bars, which names no type. -/
def namesNothing (cs : List Char) : Bool := cs.all fun c => Text.isBlank c || c == '|'

/-- A text that is not blank and names no type: it has bars, and nothing else but blanks. -/
def isBarsOnly (s : String) : Bool := !Text.isBlankString s && namesNothing s.toList

theorem namesNothing_append {xs ys : List Char} :
    namesNothing (xs ++ ys) = (namesNothing xs && namesNothing ys) := List.all_append

theorem namesNothing_intercalate {ps : List (List Char)} :
    namesNothing (['|'].intercalate ps) = true ↔ ∀ p ∈ ps, namesNothing p = true := by
  induction ps with
  | nil => simp [namesNothing]
  | cons p ps ih =>
    cases ps with
    | nil => simp
    | cons q ps =>
      rw [List.intercalate_cons_cons, namesNothing_append, namesNothing_append, Bool.and_eq_true,
        Bool.and_eq_true, ih, List.forall_mem_cons]
      simp [namesNothing]

/-- All pieces between outer bars are blank exactly when the text has only blanks and bars. -/
theorem isBlankText_cutAtBars_iff (cs : List Char) :
    (∀ p ∈ cutAtBars 0 cs, Text.isBlankText p = true) ↔ namesNothing cs = true := by
  induction cs with
  | nil => simp [cutAtBars, Text.isBlankText, namesNothing]
  | cons c cs ih =>
    rw [cutAtBars]
    by_cases hbar : c = '|'
    · rw [if_pos ⟨hbar, rfl⟩, List.forall_mem_cons, ih, hbar]
      simp [Text.isBlankText, namesNothing]
    · rw [if_neg fun h => hbar h.1]
      by_cases hblank : Text.isBlank c = true
      · -- a blank opens no bracket, so the rest is cut as it is alone
        obtain ⟨hopen, hclose, -⟩ := ne_of_isBlank hblank
        obtain ⟨p, ps, hcut⟩ := List.exists_cons_of_ne_nil (cutAtBars_ne_nil 0 cs)
        rw [hcut, List.forall_mem_cons] at ih
        rw [depthAfter_of_ne hopen hclose, hcut, pushFront, List.forall_mem_cons]
        simpa [Text.isBlankText, namesNothing, hblank] using ih
      · obtain ⟨p, ps, hcut⟩ := List.exists_cons_of_ne_nil (cutAtBars_ne_nil (depthAfter 0 c) cs)
        rw [hcut, pushFront]
        refine iff_of_false (fun h => hblank ?_) ?_
        · exact List.all_eq_true.1 (h _ List.mem_cons_self) c List.mem_cons_self
        · simp [namesNothing, hblank, hbar]

/-- The texts without alternatives are those of blanks and bars. -/
theorem alternatives_eq_nil_iff {cs : List Char} :
    alternatives cs = [] ↔ namesNothing cs = true := by
  rw [← isBlankText_cutAtBars_iff, alternatives, List.filter_eq_nil_iff, List.forall_mem_map]
  simp [Text.trim_eq_nil_iff]

/-- An alternative names something. -/
theorem namesNothing_of_mem_alternatives {cs term : List Char} (h : term ∈ alternatives cs) :
    namesNothing term = false := by
  rw [Bool.eq_false_iff, Ne, ← alternatives_eq_nil_iff, alternatives_of_mem_alternatives h]
  exact List.cons_ne_nil _ _

end TypeExpr

namespace TypeSet

open TypeExpr

theorem terms_ofTerms_eq_nil_iff {ts : List TypeTerm} : (ofTerms ts).terms = [] ↔ ts = [] := by
  cases ts with
  | nil => exact iff_of_true rfl rfl
  | cons t ts => exact iff_of_false (List.cons_ne_nil _ _) (List.cons_ne_nil _ _)

/-- Nothing is read from a text of blanks and bars, and something from any other text. -/
theorem terms_parse_eq_nil_iff {raw : String} :
    (parse raw).terms = [] ↔ namesNothing raw.toList = true := by
  rw [parse, terms_ofTerms_eq_nil_iff, List.map_eq_nil_iff, alternatives_eq_nil_iff]

theorem terms_union_eq_nil_iff {a b : TypeSet} :
    (a.union b).terms = [] ↔ a.terms = [] ∧ b.terms = [] := by
  rw [union, terms_ofTerms_eq_nil_iff, List.append_eq_nil_iff]

end TypeSet

/-! ## Replaced types -/

open TypeExpr

theorem namesNothing_jQueryInterface (rest : String) :
    namesNothing (jQueryInterface (jQueryStart ++ rest)).toList = false := by
  unfold jQueryInterface
  split
  · rfl
  · have hcut : Text.cut (· == '.') (jQueryStart ++ rest).toList
        = "jQuery".toList :: Text.cut (· == '.') rest.toList := by
      rw [String.toList_append]
      exact Text.cut_append_separator '.' "jQuery".toList rest.toList
    have hfirst : Text.capitalized "jQuery".toList = "JQuery".toList := by decide +kernel
    rw [String.toList_ofList, hcut, List.map_cons, List.flatten_cons, hfirst, namesNothing_append]
    rfl

/-- A reference names something exactly when the name does. -/
theorem namesNothing_referenceTo (name owner : String) :
    namesNothing (referenceTo name owner).toList = namesNothing name.toList := by
  unfold referenceTo
  split
  · rfl
  · rename_i hstart
    obtain ⟨rest, rfl⟩ := Text.beginsWith_iff.1 (by simpa using hstart)
    have hname : namesNothing (jQueryStart ++ rest).toList = false := by
      rw [String.toList_append, namesNothing_append]
      rfl
    rw [hname]
    split
    · exact namesNothing_jQueryInterface rest
    · rw [String.toList_append, namesNothing_append]
      rfl

namespace Replacements

variable {r : Replacements}

/-- The table has a value for an alternative, and the value names no type.  An alternative with the
suffix of arrays is never taken away, for the suffix is put back. -/
def Erases (r : Replacements) (term : List Char) : Prop :=
  Text.stripSuffix? "[]".toList term = none ∧
    ∃ value ∈ r.everywhere.get? (.ofList term), namesNothing value.toList = true

/-- The table takes all alternatives of a type away. -/
def LeavesNothing (r : Replacements) (raw : String) : Prop :=
  ∀ term ∈ alternatives raw.toList, r.Erases term

/-- No value of the table is without a type. -/
def ErasesNone (r : Replacements) : Prop :=
  r.everywhere.All fun value => namesNothing value.toList = false

theorem namesNothing_replaceAlternative {cs term : List Char} (h : term ∈ alternatives cs)
    (owner : String) :
    namesNothing (r.replaceAlternative owner term) = true ↔ r.Erases term := by
  unfold replaceAlternative Erases
  cases hsuffix : Text.stripSuffix? "[]".toList term with
  | some element =>
    refine iff_of_false ?_ fun hnone => absurd hnone.1 (by simp)
    rw [namesNothing_append, Bool.and_eq_true]
    exact fun hboth => absurd hboth.2 (by decide)
  | none =>
    dsimp only
    rw [replaceName_eq, namesNothing_referenceTo, valueOf]
    cases hvalue : r.everywhere.get? (.ofList term) with
    | none => simp [namesNothing_of_mem_alternatives h]
    | some value => simp

/-- Nothing is left of a type exactly when the table takes all its alternatives away. -/
theorem terms_replaceTypes_eq_nil_iff {raw owner : String} :
    (TypeSet.parse (r.replaceTypes raw owner)).terms = [] ↔ r.LeavesNothing raw := by
  rw [TypeSet.terms_parse_eq_nil_iff, replaceTypes, String.toList_ofList, namesNothing_intercalate,
    List.forall_mem_map]
  exact forall₂_congr fun term hterm => namesNothing_replaceAlternative hterm owner

/-- A table without such values leaves nothing only of a text of blanks and bars. -/
theorem ErasesNone.leavesNothing_iff (h : r.ErasesNone) {raw : String} :
    r.LeavesNothing raw ↔ namesNothing raw.toList = true := by
  rw [← alternatives_eq_nil_iff, List.eq_nil_iff_forall_not_mem]
  refine forall₂_congr fun term _ => iff_of_false ?_ id
  rintro ⟨-, value, hvalue, hnothing⟩
  exact absurd hnothing (by simp [NameTable.All.get? h value hvalue])

/-- A fallback stands in for a missing or blank type, and not for one of bars. -/
theorem ErasesNone.leavesNothing_getD_iff (h : r.ErasesNone) {fallback : String}
    (hfallback : namesNothing fallback.toList = false) (documented : Option String) :
    r.LeavesNothing ((documented.filter (!Text.isBlankString ·)).getD fallback) ↔
      ∃ s ∈ documented, isBarsOnly s = true := by
  rw [h.leavesNothing_iff]
  cases documented with
  | none => simp [hfallback]
  | some s =>
    rw [Option.filter_some]
    cases hblank : Text.isBlankString s <;> simp [isBarsOnly, hblank, hfallback]

end Replacements

/-! ## Members -/

section

variable {settings : Settings}

theorem Parameter.untyped_of_build {doc : ParameterDoc} {method : String} {p : Parameter}
    (h : build settings doc method = .ok p) :
    p.types.terms = [] ↔
      settings.replacements.LeavesNothing (typeText settings doc method) := by
  rw [eq_of_build h]
  exact Replacements.terms_replaceTypes_eq_nil_iff

/-- Some parameter in a signature has no type exactly when a documented one has none: the first
signature has them all, and a merged parameter has the types of both. -/
theorem Signature.exists_untyped_iff (ps : List Parameter) :
    (∃ sig ∈ combinations ps, ∃ p ∈ sig, p.types.terms = []) ↔ ∃ p ∈ ps, p.types.terms = [] := by
  constructor
  · rintro ⟨sig, hsig, p, hp, huntyped⟩
    by_contra hnone
    have htyped : ∀ q ∈ ps, q.types.terms ≠ [] := fun q hq hempty => hnone ⟨q, hq, hempty⟩
    refine forall_mem_of_mem_combinations (P := fun q => q.types.terms ≠ []) (fun _ hq => hq) ?_
      htyped sig hsig p hp huntyped
    exact fun q _ hq _ hempty => hq (TypeSet.terms_union_eq_nil_iff.1 hempty).1
  · rintro ⟨p, hp, huntyped⟩
    obtain ⟨first, others, hfirst, htypes⟩ :=
      exists_first_combination (·.types) (fun _ => rfl) ps
    have hmem : p.types ∈ first.map (·.types) := htypes ▸ List.mem_map_of_mem hp
    obtain ⟨q, hq, hsame⟩ := List.mem_map.1 hmem
    refine ⟨first, hfirst ▸ List.mem_cons_self, q, hq, ?_⟩
    rw [hsame]
    exact huntyped

namespace Method

variable {doc : MethodDoc} {owner : String} {ownerKind : SymbolKind} {m : Method}

/-- The return types of a method that returns its object, or of a constructor, are always there. -/
theorem returnTypes_untyped_of_build (h : build settings doc owner ownerKind = .ok m) :
    m.returnTypes.terms = [] ↔
      returnsThis settings doc owner ownerKind = false ∧ constructorIn doc ownerKind = false ∧
        settings.replacements.LeavesNothing (returnTypeText settings doc owner) := by
  rw [(madeFrom_of_build h).returnTypes_eq, returnExpression]
  split
  · rename_i hthis
    exact iff_of_false (by decide +kernel) (by simp [hthis])
  · rename_i hthis
    rw [returnType]
    split
    · rename_i hconstructor
      exact iff_of_false (by decide +kernel) (by simp [hconstructor])
    · rename_i hconstructor
      rw [Replacements.terms_replaceTypes_eq_nil_iff]
      simp [hthis, hconstructor]

/-- Some parameter in a signature of a method has no type exactly when nothing is left of the type
of a documented one. -/
theorem signatures_untyped_of_build (h : build settings doc owner ownerKind = .ok m) :
    (∃ sig ∈ m.signatures, ∃ p ∈ sig, p.types.terms = []) ↔
      ∃ d ∈ doc.parameters, settings.replacements.LeavesNothing
        (Parameter.typeText settings d (Dotted.member owner doc.name)) := by
  obtain ⟨-, hparameters, -, hsignatures⟩ := madeFrom_of_build h
  rw [hsignatures, Signature.exists_untyped_iff]
  constructor
  · rintro ⟨p, hp, huntyped⟩
    obtain ⟨d, hd, hbuild⟩ := exists_of_forall₂ hparameters hp
    exact ⟨d, hd, (Parameter.untyped_of_build hbuild).1 huntyped⟩
  · rintro ⟨d, hd, hnothing⟩
    obtain ⟨p, hp, hbuild⟩ := exists_of_forall₂ hparameters.flip hd
    exact ⟨p, hp, (Parameter.untyped_of_build hbuild).2 hnothing⟩

end Method

end

/-- **Members without a type.**  A property or a parameter is built without a type exactly when the
table takes away all alternatives of its text, which is `any` where no type or a blank one was
given; the same holds of what a method returns, unless it returns its object or is a constructor.
A signature has a parameter without a type exactly when the documentation has one.  Where no value
of the table is without a type, the texts of which nothing is left are those of bars only. -/
theorem members_untyped_iff (settings : Settings) (owner : String) :
    (∀ (doc : PropertyDoc) (ownerKind : SymbolKind),
      (Property.build settings doc owner ownerKind).types.terms = [] ↔
        settings.replacements.LeavesNothing (Property.typeText settings doc owner)) ∧
    (∀ (doc : ParameterDoc) (method : String), ∃ p, Parameter.build settings doc method = .ok p ∧
      (p.types.terms = [] ↔
        settings.replacements.LeavesNothing (Parameter.typeText settings doc method))) ∧
    (∀ (doc : MethodDoc) (ownerKind : SymbolKind),
      ¬ (ownerKind = .enumKind ∨ ownerKind = .typedefKind) →
      ∃ m, Method.build settings doc owner ownerKind = .ok m ∧
        (m.returnTypes.terms = [] ↔ Method.returnsThis settings doc owner ownerKind = false ∧
          Method.constructorIn doc ownerKind = false ∧
          settings.replacements.LeavesNothing (Method.returnTypeText settings doc owner)) ∧
        ((∃ sig ∈ m.signatures, ∃ p ∈ sig, p.types.terms = []) ↔
          ∃ d ∈ doc.parameters, settings.replacements.LeavesNothing
            (Parameter.typeText settings d (Dotted.member owner doc.name)))) ∧
    (settings.replacements.ErasesNone →
      (∀ documented : Option String,
        settings.replacements.LeavesNothing (typeOrAny documented) ↔
          ∃ s ∈ documented, isBarsOnly s = true) ∧
      ∀ doc : MethodDoc,
        settings.replacements.LeavesNothing (Method.returnTypeText settings doc owner) ↔
          ∃ s ∈ (settings.replacements.specific.methodReturnType.lookup
            (Dotted.member owner doc.name) doc.name).or (doc.returns.bind (·.type)),
            isBarsOnly s = true) := by
  refine ⟨?_, ?_, ?_, ?_⟩
  · intro doc ownerKind
    exact Replacements.terms_replaceTypes_eq_nil_iff
  · intro doc method
    obtain ⟨p, hp⟩ := Parameter.exists_build settings doc method
    exact ⟨p, hp, Parameter.untyped_of_build hp⟩
  · intro doc ownerKind hkind
    obtain ⟨m, hm⟩ := (Method.refuses_build settings doc owner ownerKind).2 hkind
    exact ⟨m, hm, Method.returnTypes_untyped_of_build hm, Method.signatures_untyped_of_build hm⟩
  · intro hnone
    constructor
    · intro documented
      exact hnone.leavesNothing_getD_iff (by decide) documented
    · intro doc
      refine hnone.leavesNothing_getD_iff ?_ _
      split <;> decide

/-- A method with a blank type and a type of bars. -/
def barsDoc : MethodDoc where
  name := "log"
  parameters := [{ name := "level", type := some " " }]
  returns := some { type := some " | " }

/-- The blank type is `any`, and of the bars nothing is left. -/
theorem members_untyped_iff_barsDoc :
    ¬ (SymbolKind.classKind = .enumKind ∨ SymbolKind.classKind = .typedefKind) ∧
      Replacements.intTable.ErasesNone ∧
      ∃ m, Method.build { replacements := .intTable } barsDoc "x.Log" .classKind = .ok m ∧
        m.returnTypes.terms = [] ∧ ∀ sig ∈ m.signatures, ∀ p ∈ sig, p.types.terms ≠ [] := by
  have hkind : ¬ (SymbolKind.classKind = .enumKind ∨ SymbolKind.classKind = .typedefKind) := by
    decide
  have hnone : Replacements.intTable.ErasesNone := List.forall_mem_singleton.2 (by decide)
  obtain ⟨-, -, hmethods, hbars⟩ :=
    members_untyped_iff { replacements := .intTable } "x.Log"
  obtain ⟨m, hm, hreturns, hsignatures⟩ := hmethods barsDoc .classKind hkind
  obtain ⟨htexts, hreturned⟩ := hbars hnone
  refine ⟨hkind, hnone, m, hm, hreturns.2 ⟨by decide +kernel, by decide, ?_⟩, ?_⟩
  · exact (hreturned barsDoc).2 ⟨" | ", rfl, by decide⟩
  · intro sig hsig p hp huntyped
    obtain ⟨d, hd, hnothing⟩ := hsignatures.1 ⟨sig, hsig, p, hp, huntyped⟩
    rw [List.mem_singleton.1 hd] at hnothing
    obtain ⟨s, hs, hbars⟩ := (htexts (some " ")).1 hnothing
    rw [← Option.mem_some_iff.1 hs] at hbars
    exact absurd hbars (by decide)

/-- A table with an empty value. -/
def emptyTable : Replacements := { everywhere := ⟨[("Foo", "")]⟩ }

/-- A type of bars, and a name with an empty value, leave a property without a type. -/
theorem untyped_property_of_bars :
    (Property.build {} { name := "a", type := some "|" } "x" .namespaceKind).types.terms = [] ∧
      (Property.build {} { name := "a", type := some "|" } "x" .namespaceKind).declaration
        = "var a: ;" ∧
      (Property.build { replacements := emptyTable } { name := "b", type := some "Foo" } "x"
        .namespaceKind).types.terms = [] ∧
      (Property.build { replacements := emptyTable } { name := "b", type := some "Foo" } "x"
        .namespaceKind).declaration = "var b: ;" := by
  refine ⟨List.isEmpty_iff.1 ?_, ?_, List.isEmpty_iff.1 ?_, ?_⟩ <;> decide +kernel

end ApiTypings
