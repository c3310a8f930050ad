/-
# Properties

A property of a namespace, class, interface or typedef after the settings were applied, and its
declaration.
-/
import ApiTypings.Layout
import ApiTypings.Member
import ApiTypings.Parameter

namespace ApiTypings

/-- A property of a declaration. -/
structure Property where
  name : String
  fullName : String
  types : TypeSet
  visibility : Visibility
  isStatic : Bool
  optional : Bool
  description : String
  deprecated : Option Deprecation
  /-- The kind of the declaration it belongs to. -/
  ownerKind : SymbolKind
  deriving Inhabited

/-- The documentation tags of a deprecation that may be absent. -/
def deprecationTags (d : Option Deprecation) : List String := d.toList.map (·.docTag)

namespace Property

/-! ## Building properties -/

/-- The type text of the property, from the settings or as documented. -/
def typeText (settings : Settings) (doc : PropertyDoc) (owner : String) : String :=
  typeOrAny <|
    (settings.replacements.specific.propertyType.lookup (Dotted.member owner doc.name)
      doc.name).or doc.type

/-- The property as documented, its type replaced by the settings. -/
def build (settings : Settings) (doc : PropertyDoc) (owner : String) (ownerKind : SymbolKind) :
    Property :=
  let fullName := Dotted.member owner doc.name
  { name := doc.name
    fullName
    types := .parse (settings.replacements.replaceTypes (typeText settings doc owner) fullName)
    visibility := doc.visibility
    isStatic := doc.isStatic
    optional := doc.optional
    description := doc.description.getD ""
    deprecated := doc.deprecated
    ownerKind }

/-- Whether the settings leave the property out. -/
def isIgnored (settings : Settings) (p : Property) : Bool :=
  p.isStatic && settings.ignored.staticProperties.matchesName p.fullName p.name

/-- The properties of a declaration, the ignored ones left out. -/
def buildAll (settings : Settings) (docs : List PropertyDoc) (owner : String)
    (ownerKind : SymbolKind) : List Property :=
  (docs.map (build settings · owner ownerKind)).filter (!isIgnored settings ·)

/-- What the order of class members looks at. -/
def key (p : Property) : MemberKey := ⟨p.isStatic, p.visibility, p.name⟩

/-! ## Text -/

/-- What stands in front of the name. -/
def leading (p : Property) : String :=
  match p.ownerKind with
  | .namespaceKind => "var "
  | .classKind => classModifiers p.visibility p.isStatic
  | .interfaceKind | .typedefKind | .enumKind => ""

/-- The declaration of the property. -/
def declaration (p : Property) : String :=
  p.leading ++ p.name ++ (if p.optional && p.ownerKind != .namespaceKind then "?" else "")
    ++ ": " ++ p.types.render ++ ";"

/-- The lines of the property. -/
def lines (p : Property) (depth : Nat) : List Line :=
  docBlock depth p.description (deprecationTags p.deprecated) ++ [.code depth p.declaration]

end Property

end ApiTypings
