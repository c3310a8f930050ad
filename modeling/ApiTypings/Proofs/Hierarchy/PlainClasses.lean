/-
# Plain classes

Classes whose methods have no parameters, as they are documented and as they are built.  Two of
them, one below the other, are the smallest hierarchy in which something is overridden, and one on
which the reconciler can be run.

* `build_plainDoc`, `classBody_classSymbol` : how they are built;
* `declarations_baseAndText` : how two of them are declared;
* `ofSymbols_baseAndText` : their forest, when the reconciler has treated one after the other.
-/
import ApiTypings.Proofs.Forest.Level
import ApiTypings.Proofs.Hierarchy.Agreement
import ApiTypings.Proofs.Signature.Runs
import ApiTypings.Proofs.Text.Order

namespace ApiTypings

/-! ## Documented classes -/

/-- A documented method without parameters. -/
def plainDoc (name returns : String) (visibility : Visibility) : MethodDoc where
  name := name
  visibility := visibility
  returns := some { type := some returns }

/-- A documented class with methods only. -/
def classSymbol (name : String) (base : Option String) (methods : List MethodDoc) : Symbol where
  name := name
  kind := .classKind
  baseClass := base
  methods := methods

open ClassIndex (plainMethod plainClass)

/-! ## Built classes -/

/-- A documented method without parameters, as it is built for its class. -/
theorem Method.build_plainDoc {name owner returns : String} {visibility : Visibility}
    (hreturns : returnExpression {} (plainDoc name returns visibility) owner .classKind = returns)
    (hplain : TypeSet.IsPlainName returns) :
    build {} (plainDoc name returns visibility) owner .classKind
      = .ok (plainMethod owner name returns false visibility) := by
  have hsynthesis : Signature.synthesize [] = .ok ⟨[[]], false⟩ := Signature.expand_of_none rfl
  have hparse : TypeSet.parse returns = .named returns :=
    congrArg TypeSet.mk (TypeSet.terms_of_singleName hplain)
  rw [build, if_neg (by decide)]
  show (Signature.synthesize [] >>= _) = _
  rw [hsynthesis]
  show Except.ok _ = Except.ok _
  rw [hreturns, hparse]
  rfl

/-- A class whose methods are documented in their order, as it is built. -/
theorem Declaration.classBody_classSymbol {name : String} {base : Option String}
    {docs : List MethodDoc} {methods : List Method}
    (hdocs : classMethodDocs {} (classSymbol name base docs) = docs)
    (hbase : baseOf {} (classSymbol name base docs) = base)
    (hbuilt : List.Forall₂ (fun doc m => Method.build {} doc name .classKind = .ok m) docs methods)
    (hsorted : methods.Pairwise fun m k => m.key.precedes k.key = true) :
    classBody {} (classSymbol name base docs) = .ok (.ofClass ⟨base, [], methods⟩) := by
  have hsort : sortMembers Method.key methods = methods :=
    List.mergeSort_of_pairwise hsorted
  have hnone : sortMembers Property.key (Property.buildAll {} [] name .classKind) = [] :=
    List.mergeSort_nil
  refine bind_eq_ok.2 ⟨methods, ?_, ?_⟩
  · rw [hdocs, Method.buildAll, mapM_eq_ok]
    exact hbuilt
  · show Except.ok (Body.ofClass
      ⟨_, sortMembers Property.key (Property.buildAll {} [] name .classKind), _⟩) = _
    rw [hbase, hsort, hnone]

/-! ## Declared classes -/

namespace Forest

variable {settings : Settings}

/-- A class with nothing nested in it is a group of its own. -/
theorem isGroup_classSymbol {es : List Entry} {name : String} {base : Option String}
    {docs : List MethodDoc} {methods : List Method}
    (hclass : Declaration.classBody {} (classSymbol name base docs)
      = .ok (.ofClass ⟨base, [], methods⟩))
    (hbasename : Dotted.basename name = name) (homit : isOmitted {} [] name = false)
    (hbelow : below name es = []) (hending : endingAt name es = [classSymbol name base docs]) :
    IsGroup {} [] es name [plainClass name base methods] := by
  have hnested : level {} ([] ++ [name]) (below name es) = .ok (List.flatten []) := by
    rw [hbelow]
    exact level_of_groups List.Forall₂.nil
  have hheader : Header.ofSymbol (classSymbol name base docs) 0 = ⟨name, name, 0, "", none⟩ := by
    rw [Header.ofSymbol, Symbol.basename]
    show (⟨Dotted.basename name, name, 0, "", none⟩ : Header) = _
    rw [hbasename]
  have hbuild : Declaration.build {} (classSymbol name base docs) 0 []
      = .ok (plainClass name base methods) := by
    refine bind_eq_ok.2 ⟨_, hclass, ?_⟩
    rw [hheader]
    rfl
  rw [IsGroup, homit, hending]
  exact ⟨[], hnested, bind_eq_ok.2 ⟨_, hbuild, rfl⟩⟩

/-- A class `Base`, and a class `Text` below it. -/
def baseAndText (methods methods' : List Method) : Forest :=
  [plainClass "Base" none methods, plainClass "Text" (some "Base") methods']

section

variable {docs docs' : List MethodDoc}

theorem entries_baseAndText :
    (sortedByName [classSymbol "Base" none docs, classSymbol "Text" (some "Base") docs']).map
        .ofSymbol
      = [(⟨["Base"], classSymbol "Base" none docs⟩ : Entry),
          ⟨["Text"], classSymbol "Text" (some "Base") docs'⟩] := by
  have hsorted : sortedByName [classSymbol "Base" none docs, classSymbol "Text" (some "Base") docs']
      = [classSymbol "Base" none docs, classSymbol "Text" (some "Base") docs'] :=
    List.mergeSort_of_pairwise (by simp [classSymbol])
  have hbase : Dotted.segments "Base" = ["Base"] := by decide +kernel
  have htext : Dotted.segments "Text" = ["Text"] := by decide +kernel
  rw [hsorted]
  show [(⟨Dotted.segments "Base", _⟩ : Entry), ⟨Dotted.segments "Text", _⟩] = _
  rw [hbase, htext]

/-- The two classes are declared side by side. -/
theorem declarations_baseAndText {methods methods' : List Method}
    (hbase : Declaration.classBody {} (classSymbol "Base" none docs)
      = .ok (.ofClass ⟨none, [], methods⟩))
    (htext : Declaration.classBody {} (classSymbol "Text" (some "Base") docs')
      = .ok (.ofClass ⟨some "Base", [], methods'⟩)) :
    declarations {} [classSymbol "Base" none docs, classSymbol "Text" (some "Base") docs']
      = .ok (baseAndText methods methods') := by
  have hgroups : List.Forall₂
      (IsGroup {} [] [(⟨["Base"], classSymbol "Base" none docs⟩ : Entry),
        ⟨["Text"], classSymbol "Text" (some "Base") docs'⟩])
      ["Base", "Text"] ((baseAndText methods methods').map fun d => [d]) := by
    refine .cons ?_ (.cons ?_ .nil)
    · exact isGroup_classSymbol hbase (by decide +kernel) (by decide +kernel) rfl rfl
    · exact isGroup_classSymbol htext (by decide +kernel) (by decide +kernel) rfl rfl
  rw [declarations, entries_baseAndText]
  exact level_of_groups hgroups

end

end Forest

/-! ## Reconciled classes -/

namespace ClassIndex

/-- A forest of the two classes, when the reconciler has treated first `Base` and then `Text`. -/
def alignedText (declared : Forest) : Forest :=
  ["Base", "Text"].foldl (·.reconcileClass (belowBase "Text")) declared

theorem reconcileOverrides_text (declared : Forest) :
    declared.reconcileOverrides (belowBase "Text") = alignedText declared := by
  rw [Forest.reconcileOverrides, topDown_belowBase_text]
  rfl

theorem ofForest_alignedText {declared : Forest}
    (hi : ofForest declared = .ok (belowBase "Text")) :
    ofForest (alignedText declared) = .ok (belowBase "Text") := by
  rw [← reconcileOverrides_text]
  exact Forest.ofForest_reconcileOverrides hi

/-- The forest of symbols that are declared as the two classes. -/
theorem ofSymbols_baseAndText {settings : Settings} {symbols : List Symbol} {declared : Forest}
    (hdeclared : Forest.declarations settings symbols = .ok declared)
    (hi : ofForest declared = .ok (belowBase "Text")) :
    Forest.ofSymbols settings symbols = .ok (alignedText declared) := by
  rw [← reconcileOverrides_text]
  exact bind_eq_ok.2 ⟨declared, hdeclared, bind_eq_ok.2 ⟨_, hi, rfl⟩⟩

end ClassIndex

end ApiTypings
