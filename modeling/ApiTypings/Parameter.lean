/-
# Parameters

A parameter of a method: its name, types and optionality after the settings were applied, and its
text in a signature and in documentation.

* `asRequired_ok`, `asOptional_ok` : when making a parameter required or optional succeeds;
* `mem_keys_merge` : a parameter that takes either of two takes the types of both.
-/
import ApiTypings.GenerationError
import ApiTypings.Settings.Replacement
import ApiTypings.TypeExpr.Set

namespace ApiTypings

/-- A parameter of a method. -/
structure Parameter where
  name : String
  types : TypeSet
  optional : Bool
  /-- Whether it takes all remaining arguments. -/
  spread : Bool
  description : String
  /-- The full name of its method. -/
  method : String
  deriving Inhabited

/-- The first documented type that is not blank, or `any`. -/
def typeOrAny (documented : Option String) : String :=
  (documented.filter (!Text.isBlankString ·)).getD anyName

namespace Parameter

/-! ## Required and optional copies -/

/-- The error for a misused parameter. -/
def misused (p : Parameter) (misuse : ParameterMisuse) : GenerationError :=
  .parameterMisuse p.method p.name misuse

/-- The required copy of an optional parameter. -/
def asRequired (p : Parameter) : Except GenerationError Parameter :=
  if p.optional then .ok { p with optional := false } else .error (p.misused .alreadyRequired)

/-- The optional copy of a required parameter. -/
def asOptional (p : Parameter) : Except GenerationError Parameter :=
  if p.optional then .error (p.misused .alreadyOptional) else .ok { p with optional := true }

/-- An optional parameter has a required copy. -/
theorem asRequired_ok {p : Parameter} (h : p.optional = true) :
    p.asRequired = .ok { p with optional := false } := by
  simp [asRequired, h]

/-- A required parameter has an optional copy. -/
theorem asOptional_ok {p : Parameter} (h : p.optional = false) :
    p.asOptional = .ok { p with optional := true } := by
  simp [asOptional, h]

/-! ## Building parameters -/

/-- The type text of the parameter, from the settings or as documented. -/
def typeText (settings : Settings) (doc : ParameterDoc) (method : String) : String :=
  typeOrAny <|
    (settings.replacements.specific.methodParameterType.lookupParameter
      (Dotted.member method doc.name) (Dotted.basename method) doc.name).or doc.type

/-- The parameter as documented, its type replaced by the settings. -/
def documented (settings : Settings) (doc : ParameterDoc) (method : String) : Parameter :=
  { name := doc.name
    types := .parse <| settings.replacements.replaceTypes (typeText settings doc method)
      (Dotted.member method doc.name)
    optional := doc.optional
    spread := doc.spread
    description := doc.description.getD ""
    method }

/-- The parameter of a method: as documented, and optional where the settings say so. -/
def build (settings : Settings) (doc : ParameterDoc) (method : String) :
    Except GenerationError Parameter :=
  let p := documented settings doc method
  if !p.optional && settings.replacements.specific.methodParameterOptional.matchesParameter
      (Dotted.member method doc.name) (Dotted.basename method) doc.name then
    p.asOptional
  else
    .ok p

/-- The catch-all parameter `...args: any[]`. -/
def restOfAny (method : String) : Parameter where
  name := "args"
  types := .parse "any[]"
  optional := false
  spread := true
  description := ""
  method := method

/-- One required parameter that takes either of two. -/
def merge (first second : Parameter) : Parameter where
  name := first.name ++ "_or_" ++ second.name
  types := first.types.union second.types
  optional := false
  spread := false
  description := ""
  method := first.method

/-- A merged parameter is named after both. -/
theorem name_merge (p q : Parameter) : (p.merge q).name = p.name ++ "_or_" ++ q.name := rfl

/-- A merged parameter takes the types of either. -/
theorem mem_keys_merge {p q : Parameter} {key : String} :
    key ∈ (p.merge q).types.keys ↔ key ∈ p.types.keys ∨ key ∈ q.types.keys :=
  TypeSet.mem_keys_union

/-- A merged parameter is required, also where both are optional. -/
theorem optional_merge (p q : Parameter) : (p.merge q).optional = false := rfl

/-- A merged parameter takes one argument, also where one of the two takes the remaining ones. -/
theorem spread_merge (p q : Parameter) : (p.merge q).spread = false := rfl

/-! ## Comparing parameters -/

/-- Whether `later` fits in the place of this parameter when this one is left out. -/
def canBeElidedFor (p later : Parameter) : Bool := p.types == later.types || later.types.isAny

/-- Whether two parameters have the same types and optionality. -/
def isEquivalent (p q : Parameter) : Bool := p.types == q.types && p.optional == q.optional

/-! ## Text -/

/-- A text without what stands in angle brackets, when it starts inside `depth` of them. -/
def dropBracketed (depth : Nat) : List Char → List Char
  | [] => []
  | c :: cs =>
    let rest := dropBracketed (TypeExpr.depthAfter depth c) cs
    if c = '<' ∨ c = '>' ∨ depth ≠ 0 then rest else c :: rest

/-- The name without annotations such as `<T>`. -/
def displayName (p : Parameter) : String := .ofList (dropBracketed 0 p.name.toList)

/-- The parameter in a signature. -/
def render (p : Parameter) : String :=
  if p.spread then "..." ++ p.displayName ++ ": " ++ p.types.renderAsArray
  else p.displayName ++ (if p.optional then "?" else "") ++ ": " ++ p.types.render

/-- The documentation tag of the parameter. -/
def docTag (p : Parameter) : String :=
  "@param \x7b" ++ p.types.render ++ "\x7d " ++ p.name
    ++ (if p.description.isEmpty then "" else " - " ++ Text.onOneLine p.description)

end Parameter

end ApiTypings
