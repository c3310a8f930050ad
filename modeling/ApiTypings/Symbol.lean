/-
# Documented symbols

The records of an API document: one symbol per namespace, class, interface, enum or typedef, with
its properties, methods and constructor as the documentation states them.
-/
import ApiTypings.Dotted

namespace ApiTypings

/-! ## Kinds and visibilities -/

/-- What a symbol declares. -/
inductive SymbolKind where
  | namespaceKind
  | classKind
  | interfaceKind
  | enumKind
  | typedefKind
  deriving DecidableEq, Repr, Inhabited

namespace SymbolKind

/-- All kinds, in the order in which messages list them. -/
def all : List SymbolKind := [namespaceKind, classKind, interfaceKind, enumKind, typedefKind]

/-- The word for a kind in documents and messages. -/
def word : SymbolKind → String
  | namespaceKind => "namespace"
  | classKind => "class"
  | interfaceKind => "interface"
  | enumKind => "enum"
  | typedefKind => "typedef"

/-- The kind that a word names. -/
def ofWord? (w : String) : Option SymbolKind := all.find? (·.word == w)

/-- A kind is read back from its word. -/
theorem ofWord?_word (k : SymbolKind) : ofWord? k.word = some k := by
  cases k <;> decide

end SymbolKind

/-- Who may use a member. -/
inductive Visibility where
  | publicMember
  | protectedMember
  | restrictedMember
  deriving DecidableEq, Repr, Inhabited

namespace Visibility

/-- All visibilities, in the order in which messages list them. -/
def all : List Visibility := [publicMember, protectedMember, restrictedMember]

/-- The word for a visibility in documents. -/
def word : Visibility → String
  | publicMember => "public"
  | protectedMember => "protected"
  | restrictedMember => "restricted"

/-- The visibility that a word names. -/
def ofWord? (w : String) : Option Visibility := all.find? (·.word == w)

/-- A visibility is read back from its word. -/
theorem ofWord?_word (v : Visibility) : ofWord? v.word = some v := by
  cases v <;> decide

/-- The place of a visibility among members: public ones come first. -/
def rank : Visibility → Nat
  | publicMember => 0
  | protectedMember => 1
  | restrictedMember => 2

/-- The modifier in a declaration, where `restricted` has no word of its own. -/
def keyword : Visibility → String
  | publicMember => "public"
  | protectedMember | restrictedMember => "protected"

end Visibility

/-! ## Records -/

/-- Since when and why something is deprecated. -/
structure Deprecation where
  /-- The version that deprecated it. -/
  since : Option String := none
  /-- The reason or the replacement. -/
  text : Option String := none
  deriving DecidableEq, Repr, Inhabited

/-- The documentation tag of a deprecation; an empty text counts as none. -/
def Deprecation.docTag (d : Deprecation) : String :=
  let since := match d.since with
    | some version => " since " ++ version
    | none => ""
  let text := match d.text with
    | none => ""
    | some text =>
      if text.isEmpty then "" else (if d.since.isSome then " - " else " ") ++ text
  "@deprecated" ++ since ++ text

/-- A documented property, or a member of an enum. -/
structure PropertyDoc where
  name : String
  type : Option String := none
  visibility : Visibility := .publicMember
  isStatic : Bool := false
  optional : Bool := false
  description : Option String := none
  deprecated : Option Deprecation := none
  deriving Repr, Inhabited

/-- A documented parameter. -/
structure ParameterDoc where
  name : String
  type : Option String := none
  optional : Bool := false
  /-- Whether the parameter takes all remaining arguments. -/
  spread : Bool := false
  description : Option String := none
  deriving Repr, Inhabited

/-- A documented return value. -/
structure ReturnDoc where
  type : Option String := none
  description : Option String := none
  deriving Repr, Inhabited

/-- A documented method or function. -/
structure MethodDoc where
  name : String
  visibility : Visibility := .publicMember
  isStatic : Bool := false
  description : Option String := none
  parameters : List ParameterDoc := []
  returns : Option ReturnDoc := none
  deprecated : Option Deprecation := none
  deriving Repr, Inhabited

/-- A documented constructor of a class. -/
structure ConstructorDoc where
  visibility : Visibility := .publicMember
  description : Option String := none
  parameters : List ParameterDoc := []
  deprecated : Option Deprecation := none
  deriving Repr, Inhabited

/-- The name of constructors among the methods of a class. -/
def constructorName : String := "constructor"

/-- The constructor as a method of its class. -/
def ConstructorDoc.toMethod (c : ConstructorDoc) : MethodDoc where
  name := constructorName
  visibility := c.visibility
  description := c.description
  parameters := c.parameters
  deprecated := c.deprecated

/-- A documented namespace, class, interface, enum or typedef. -/
structure Symbol where
  /-- The full dotted name. -/
  name : String
  kind : SymbolKind
  visibility : Visibility := .publicMember
  isStatic : Bool := false
  description : Option String := none
  /-- The base class, as documented. -/
  baseClass : Option String := none
  /-- The module that defines the symbol. -/
  module : Option String := none
  /-- The file of that module. -/
  resource : Option String := none
  deprecated : Option Deprecation := none
  /-- Properties, or the members of an enum. -/
  properties : List PropertyDoc := []
  methods : List MethodDoc := []
  constructorDoc : Option ConstructorDoc := none
  deriving Repr, Inhabited

namespace Symbol

/-- The last segment of the name. -/
def basename (s : Symbol) : String := Dotted.basename s.name

/-- The empty namespace that stands for a prefix of other names which no symbol declares. -/
def implicitNamespace (name : String) : Symbol := { name, kind := .namespaceKind }

end Symbol

/-- The documentation of one library. -/
structure ApiDocument where
  library : String := ""
  version : Option String := none
  symbols : List Symbol := []
  deriving Repr, Inhabited

end ApiTypings
