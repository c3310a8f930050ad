/-
# What a run reports

The notices of every step of a generation, computed beside the step from the same input.  A step
that fails reports what came up before the failure, and nothing after it.
-/
import ApiTypings.Generation
import ApiTypings.Notice

namespace ApiTypings

/-! ## Steps in order -/

/-- The notices of steps in order, up to the first step that fails. -/
def untilFailure : List (List Notice × Bool) → List Notice
  | [] => []
  | (notices, ok) :: steps => notices ++ if ok then untilFailure steps else []

/-- Whether a step succeeded. -/
def succeeds {α : Type} : Except GenerationError α → Bool
  | .ok _ => true
  | .error _ => false

/-! ## Types -/

namespace TypeExpr

/-- The notice about a type whose brackets do not close. -/
def notices (cs : List Char) : List Notice :=
  if isBalanced cs then [] else [.unbalancedType (.ofList cs)]

/-- Whether the outer construct of a term lacks its closing bracket. -/
def lacksClosing (term : List Char) : Bool :=
  (Text.stripSuffix? "[]".toList term).isNone &&
    match (Text.stripPrefix? "Array<".toList term).or (afterBracket? term) with
    | some rest => !hasClosing rest
    | none => false

end TypeExpr

open TypeExpr in
/-- The notices of reading a type term. -/
def TypeTerm.notices (raw : List Char) : List Notice :=
  let unclosed :=
    if lacksClosing (Text.trim raw) then [.unbalancedType (.ofList (Text.trim raw))] else []
  match _h : (outermost (Text.trim raw)).inner? with
  | none => unclosed
  | some inner =>
    unclosed ++ TypeExpr.notices inner
      ++ ((alternatives inner).attach.map fun ⟨p, _⟩ => TypeTerm.notices p).flatten
termination_by raw.length
decreasing_by
  rename_i hp
  have h1 := outermost_inner_lt _h
  have h2 := Text.length_trim_le raw
  have h3 := length_of_mem_alternatives hp
  omega

/-- The notices of reading a type expression. -/
def TypeSet.notices (raw : String) : List Notice :=
  TypeExpr.notices raw.toList ++ (TypeExpr.alternatives raw.toList).flatMap TypeTerm.notices

/-- The notices of replacing a type. -/
def Replacements.notices (raw : String) : List Notice := TypeExpr.notices raw.toList

/-- The notices of replacing a type and reading the result. -/
def Replacements.typeNotices (r : Replacements) (raw owner : String) : List Notice :=
  Replacements.notices raw ++ TypeSet.notices (r.replaceTypes raw owner)

/-! ## Members -/

/-- The notices of a parameter. -/
def Parameter.notices (settings : Settings) (doc : ParameterDoc) (method : String) : List Notice :=
  settings.replacements.typeNotices (typeText settings doc method) (Dotted.member method doc.name)

/-- The notices of expanding a parameter list. -/
def Signature.notices (parameters : List Parameter) : List Notice :=
  match synthesize parameters with
  | .error _ => []
  | .ok s =>
    (s.signatures.flatMap fun ps => notElidable (trailingOptionals ps)).map
      fun (p, q) => .notElidable p.name q.name

/-- The notices of a property. -/
def Property.notices (settings : Settings) (owner : String) (ownerKind : SymbolKind)
    (doc : PropertyDoc) : List Notice :=
  settings.replacements.typeNotices (typeText settings doc owner) (Dotted.member owner doc.name)
    ++ if isIgnored settings (build settings doc owner ownerKind) then
        [.staticPropertyIgnored (Dotted.member owner doc.name)]
      else []

namespace Method

/-- The notices of the return type of a method. -/
def returnNotices (settings : Settings) (doc : MethodDoc) (owner : String)
    (ownerKind : SymbolKind) : List Notice :=
  (if constructorIn doc ownerKind then []
    else Replacements.notices (returnTypeText settings doc owner))
    ++ TypeSet.notices (returnExpression settings doc owner ownerKind)

/-- The notices of a method. -/
def notices (settings : Settings) (owner : String) (ownerKind : SymbolKind) (doc : MethodDoc) :
    List Notice :=
  let fullName := Dotted.member owner doc.name
  if ownerKind = .enumKind ∨ ownerKind = .typedefKind then []
  else
    doc.parameters.flatMap (Parameter.notices settings · fullName)
      ++ match doc.parameters.mapM (Parameter.build settings · fullName) with
        | .error _ => []
        | .ok parameters =>
          returnNotices settings doc owner ownerKind
            ++ (if excludedIn settings doc owner ownerKind then [.methodIgnored fullName] else [])
            ++ Signature.notices parameters

/-- The notices of the methods of a declaration. -/
def allNotices (settings : Settings) (docs : List MethodDoc) (owner : String)
    (ownerKind : SymbolKind) : List Notice :=
  untilFailure <| docs.map fun doc =>
    (notices settings owner ownerKind doc, succeeds (build settings doc owner ownerKind))

end Method

/-! ## Declarations -/

namespace Declaration

/-- The notices of repairing the static methods of a class. -/
def repairNotices (settings : Settings) (className : String) (docs : List MethodDoc) :
    List Notice :=
  docs.flatMap fun doc =>
    match staticRepair settings className docs doc with
    | .keep => []
    | .drop => [.staticMethodDropped (Dotted.member className doc.name)]
    | .makeInstance => [.staticMethodFixed (Dotted.member className doc.name)]

/-- The notices of the base class of a symbol. -/
def baseNotices (settings : Settings) (s : Symbol) : List Notice :=
  match settings.replacements.specific.baseClass.lookup s.name s.basename with
  | some _ => []
  | none => s.baseClass.toList.flatMap Replacements.notices

/-- The notices of the declaration of a symbol. -/
def notices (settings : Settings) (s : Symbol) : List Notice :=
  match s.kind with
  | .namespaceKind =>
    (namespacePropertyDocs settings s).flatMap (Property.notices settings s.name .namespaceKind)
      ++ Method.allNotices settings s.methods s.name .namespaceKind
  | .classKind =>
    baseNotices settings s
      ++ s.properties.flatMap (Property.notices settings s.name .classKind)
      ++ repairNotices settings s.name s.methods
      ++ Method.allNotices settings (classMethodDocs settings s) s.name .classKind
  | .interfaceKind =>
    s.properties.flatMap (Property.notices settings s.name .interfaceKind)
      ++ Method.allNotices settings s.methods s.name .interfaceKind
  | .enumKind => []
  | .typedefKind =>
    if s.methods.isEmpty then
      s.properties.flatMap (Property.notices settings s.name .typedefKind)
    else []

end Declaration

/-! ## Overrides -/

namespace ClassIndex

/-- The notices of bringing one method in line. -/
def methodNotices (i : ClassIndex) (t : MethodTable) (name : String) (m : Method) : List Notice :=
  let r := i.reconcileMethod t name m
  (match r.returnTypes with
    | some types => [.returnReplaced m.fullName m.returnTypes.render types.render]
    | none => [])
    ++ (if r.promote then [.promoted m.fullName] else [])
    ++ (if r.ignore then [.redundantOverride m.fullName] else [])

/-- The notices of reading the class name that takes the place of a return type. -/
def requiredNotices (i : ClassIndex) (t : MethodTable) (name : String) (m : Method) : List Notice :=
  if m.isConstructor then []
  else
    match i.overridden? t name m with
    | none => []
    | some (ancestor, base) =>
      if i.returnsCompatible m.returnTypes base.returnTypes then []
      else if base.returnTypes.render == ancestor then TypeSet.notices name
      else []

/-- The notices of bringing one class in line. -/
def classNotices (i : ClassIndex) (t : MethodTable) (name : String) : List Notice :=
  ((t.get? name).getD []).flatMap fun m => i.requiredNotices t name m ++ i.methodNotices t name m

/-- The notices of bringing the named classes in line, one after the other. -/
def walkNotices (i : ClassIndex) (t : MethodTable) : List String → List Notice
  | [] => []
  | name :: names => i.classNotices t name ++ i.walkNotices (i.reconcileClass t name) names

/-- The notices of bringing all overrides in line. -/
def overrideNotices (i : ClassIndex) (t : MethodTable) : List Notice :=
  i.walkNotices t i.topDown
    ++ if i.unreached.isEmpty then [] else [.cyclicBases i.unreached]

end ClassIndex

/-! ## Forests -/

namespace Forest

/-- The notices of the declarations of one full name. -/
def declareNotices (settings : Settings) (fullName : String) (depth : Nat) (symbols : List Symbol)
    (children : List Declaration) : List Notice :=
  match symbols with
  | [] => Declaration.notices settings (.implicitNamespace fullName)
  | s :: others =>
    untilFailure <|
      (Declaration.notices settings s, succeeds (Declaration.build settings s depth children))
        :: others.map fun other =>
          (.declaredAgain other.name :: Declaration.notices settings other,
            succeeds (Declaration.build settings other depth []))

/-- The notices of the entries under the segments `above`. -/
def levelNotices (settings : Settings) (above : List String) (es : List Entry) : List Notice :=
  untilFailure <| (heads es).attach.map fun ⟨seg, _⟩ =>
    let fullName := Dotted.fromSegments (above ++ [seg])
    if isOmitted settings above seg then ([.namespaceIgnored fullName], true)
    else
      let nested := levelNotices settings (above ++ [seg]) (below seg es)
      match level settings (above ++ [seg]) (below seg es) with
      | .error _ => (nested, false)
      | .ok children =>
        (nested ++ declareNotices settings fullName above.length (endingAt seg es) children,
          succeeds (declare settings fullName above.length (endingAt seg es) children))
termination_by weight es
decreasing_by exact weight_below_lt (by assumption)

/-- The notices of building the forest of some symbols. -/
def notices (settings : Settings) (symbols : List Symbol) : List Notice :=
  levelNotices settings [] ((sortedByName symbols).map .ofSymbol)
    ++ match declarations settings symbols with
      | .error _ => []
      | .ok forest =>
        match ClassIndex.ofForest forest with
        | .error _ => []
        | .ok index => .classesIndexed index.size :: index.overrideNotices forest.methodTable

end Forest

/-! ## Generations -/

/-- The notices of a generation. -/
def Generation.notices (settings : Settings) (documents : List ApiDocument) : List Notice :=
  (documents.map fun d =>
      .libraryRead d.library d.symbols.length (additionsFor settings d.library).length)
    ++ Forest.notices settings (symbolsOf settings documents)
    ++ match ofDocuments settings documents with
      | .error _ => []
      | .ok g => [.generated g.definitions.length g.exports.length]

end ApiTypings
