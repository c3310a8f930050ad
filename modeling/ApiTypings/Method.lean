/-
# Methods

A function of a namespace, or a method or constructor of a class or interface, after the settings
were applied, and its declarations: one per signature, and a catch-all where the signatures do not
cover all calls or do not follow the override rules.
-/
import ApiTypings.Property
import ApiTypings.Signature

namespace ApiTypings

/-- A method of a declaration. -/
structure Method where
  name : String
  fullName : String
  visibility : Visibility
  isStatic : Bool
  /-- The documented parameters. -/
  parameters : List Parameter
  returnTypes : TypeSet
  returnDescription : String
  /-- Whether the method only repeats one that it inherits. -/
  ignore : Bool
  /-- Whether a catch-all overload is added. -/
  needsCatchAll : Bool
  description : String
  deprecated : Option Deprecation
  /-- The kind of the declaration it belongs to. -/
  ownerKind : SymbolKind
  /-- Whether the settings leave it out. -/
  excluded : Bool
  /-- The signatures to emit. -/
  signatures : List (List Parameter)
  deriving Inhabited

namespace Method

/-! ## Building methods -/

section

variable (settings : Settings) (doc : MethodDoc) (owner : String) (ownerKind : SymbolKind)

/-- Whether the method is static, in the documentation and to the settings. -/
def staticIn : Bool :=
  doc.isStatic && !settings.replacements.specific.methodRemoveStatic.matchesName
    (Dotted.member owner doc.name) doc.name

/-- Whether the documented method is the constructor of a class. -/
def constructorIn : Bool := doc.name == constructorName && ownerKind == .classKind

/-- The documented text about the return value. -/
def returnText : String := (doc.returns.bind (·.description)).getD ""

/-- The type text of the return value, from the settings or as documented.  A missing type is
`void`, or `any` when a description says that there is a value. -/
def returnTypeText : String :=
  let type := (settings.replacements.specific.methodReturnType.lookup
    (Dotted.member owner doc.name) doc.name).or (doc.returns.bind (·.type))
  (type.filter (!Text.isBlankString ·)).getD
    (if (returnText doc).isEmpty then voidName else anyName)

/-- The type text of the return value, replaced by the settings; a constructor returns nothing. -/
def returnType : String :=
  if constructorIn doc ownerKind then voidName
  else
    settings.replacements.replaceTypes (returnTypeText settings doc owner)
      (Dotted.member owner doc.name)

/-- Whether the method returns the object it is called on: an instance method that returns its own
class, unless the settings keep the name of the class. -/
def returnsThis : Bool :=
  ownerKind == .classKind && !staticIn settings doc owner && !constructorIn doc ownerKind
    && returnType settings doc owner ownerKind == owner
    && !settings.replacements.specific.methodReturnTypeNotThis.matchesName
      (Dotted.member owner doc.name) doc.name

/-- The text of the return types. -/
def returnExpression : String :=
  if returnsThis settings doc owner ownerKind then thisName
  else returnType settings doc owner ownerKind

/-- Whether the settings leave the method out. -/
def excludedIn : Bool :=
  settings.ignored.methods.matchesName (Dotted.member owner doc.name) doc.name
    || (staticIn settings doc owner && ownerKind == .classKind
      && settings.ignored.staticMethods.matchesName (Dotted.member owner doc.name) doc.name)

/-- The method of a declaration.  Enums and typedefs own no methods. -/
def build : Except GenerationError Method :=
  if ownerKind = .enumKind ∨ ownerKind = .typedefKind then
    .error (.cannotOwn ownerKind owner .method doc.name)
  else do
    let fullName := Dotted.member owner doc.name
    let parameters ← doc.parameters.mapM (Parameter.build settings · fullName)
    let synthesis ← Signature.synthesize parameters
    return {
      name := doc.name
      fullName
      visibility :=
        (settings.replacements.specific.methodVisibility.lookup fullName doc.name).getD
          doc.visibility
      isStatic := staticIn settings doc owner
      parameters
      returnTypes := .parse (returnExpression settings doc owner ownerKind)
      returnDescription := returnText doc
      ignore := false
      needsCatchAll := synthesis.needsCatchAll
        || settings.replacements.specific.methodOverridesNotCompatible.matchesName fullName doc.name
      description := doc.description.getD ""
      deprecated := doc.deprecated
      ownerKind
      excluded := excludedIn settings doc owner ownerKind
      signatures := synthesis.signatures }

end

/-- The methods of a declaration. -/
def buildAll (settings : Settings) (docs : List MethodDoc) (owner : String)
    (ownerKind : SymbolKind) : Except GenerationError (List Method) :=
  docs.mapM (build settings · owner ownerKind)

/-! ## Properties of methods -/

/-- Whether the method is the constructor of a class. -/
def isConstructor (m : Method) : Bool := m.name == constructorName && m.ownerKind == .classKind

/-- Whether the method is declared at all. -/
def isEmitted (m : Method) : Bool := !m.ignore && !m.excluded

/-- Whether two lists of parameters are pairwise equivalent. -/
def equivalentParameters (ps qs : List Parameter) : Bool :=
  ps.length == qs.length && (ps.zip qs).all fun (p, q) => p.isEquivalent q

/-- Whether the method, with the given return types, has the name, return types and parameters of
another. -/
def isIdenticalTo (m other : Method) (returnTypes : TypeSet) : Bool :=
  m.name == other.name && returnTypes == other.returnTypes
    && equivalentParameters m.parameters other.parameters

/-- What the order of class members looks at. -/
def key (m : Method) : MemberKey := ⟨m.isStatic, m.visibility, m.name⟩

/-! ## Text -/

/-- The documentation of a catch-all overload. -/
def catchAllNote : String :=
  "Compatibility overload for an override that does not follow the TypeScript override rules. "
    ++ "Prefer one of the signatures above."

/-- What stands in front of the name. -/
def leading (m : Method) : String :=
  match m.ownerKind with
  | .namespaceKind => "function "
  | .classKind => classModifiers m.visibility m.isStatic
  | .interfaceKind | .enumKind | .typedefKind => ""

/-- The documentation tag of a return value, for a call that has one. -/
def returnTags (m : Method) (types : TypeSet) (description : String) : List String :=
  if m.isConstructor || types.isVoid then []
  else [Text.trimmedEnd ("@returns \x7b" ++ types.render ++ "\x7d " ++ description)]

/-- The declaration of one signature. -/
def declaration (m : Method) (parameters : List Parameter) (types : TypeSet) : String :=
  m.leading ++ m.name ++ "(" ++ ", ".intercalate (parameters.map (·.render)) ++ ")"
    ++ (if m.isConstructor then "" else ": " ++ types.render) ++ ";"

/-- The lines of one signature: its documentation, its declaration and a blank line. -/
def signatureLines (m : Method) (depth : Nat) (description : String) (parameters : List Parameter)
    (types : TypeSet) (returnDescription : String) : List Line :=
  docBlock depth description
      (parameters.map (·.docTag) ++ m.returnTags types returnDescription
        ++ deprecationTags m.deprecated)
    ++ [.code depth (m.declaration parameters types), .blank]

/-- The lines of the method: every signature, then the catch-all overload if one is needed. -/
def lines (m : Method) (depth : Nat) : List Line :=
  if !m.isEmitted then []
  else
    m.signatures.flatMap
        (m.signatureLines depth m.description · m.returnTypes m.returnDescription)
      ++ if m.needsCatchAll then
          m.signatureLines depth catchAllNote [.restOfAny m.fullName] (.parse anyName) ""
        else []

end Method

end ApiTypings
