/-
# The text of declarations

How a declaration is written: its documentation, its header line, its members, and the closing
brace.  Declarations nested in a class, interface or typedef stand in a namespace of the same name
next to it.

* `linesAll_eq_flatMap` : declarations are written one after the other.
-/
import ApiTypings.Declaration.Basic

namespace ApiTypings

/-! ## Header lines -/

namespace Header

/-- What stands in front of a declaration: `declare` at the root of a file, `export` inside a
namespace. -/
def keyword (h : Header) : String := if h.depth = 0 then "declare " else "export "

/-- The documentation of the declaration. -/
def docLines (h : Header) : List Line :=
  docBlock h.depth h.description (deprecationTags h.deprecated)

/-- The line that opens the namespace of the declaration's name. -/
def namespaceLine (h : Header) : Line :=
  .code h.depth ((if h.depth = 0 then "declare " else "") ++ "namespace " ++ h.name ++ " \x7b")

/-- The line that closes a block of the declaration. -/
def closingLine (h : Header) : Line := .code h.depth "\x7d"

/-- Nested declarations, in a namespace of the declaration's name; nothing when there are none. -/
def siblingNamespace (h : Header) (nested : List Line) (noChildren : Bool) : List Line :=
  if noChildren then [] else h.namespaceLine :: nested ++ [h.closingLine]

end Header

/-! ## Members -/

/-- The lines of an enum member. -/
def EnumMember.lines (m : EnumMember) (depth : Nat) : List Line :=
  docBlock depth m.description (deprecationTags m.deprecated)
    ++ [.code depth (m.name ++ " = \"" ++ m.name ++ "\",")]

/-- The lines of properties and then methods. -/
def memberLines (depth : Nat) (properties : List Property) (methods : List Method) : List Line :=
  properties.flatMap (·.lines depth) ++ methods.flatMap (·.lines depth)

/-! ## Declarations -/

/-- The lines of a declaration, given the lines of the declarations nested in it. -/
def Body.lines (h : Header) (nested : List Line) (noChildren : Bool) : Body → List Line
  | .ofNamespace properties methods none =>
    h.namespaceLine :: memberLines (h.depth + 1) properties methods ++ nested ++ [h.closingLine]
  | .ofNamespace _ _ (some type) =>
    .code h.depth (h.keyword ++ "type " ++ h.name ++ " = " ++ type ++ ";")
      :: h.siblingNamespace nested noChildren
  | .ofClass c =>
    let base := match c.base with
      | some base => " extends " ++ base
      | none => ""
    .code h.depth (h.keyword ++ "class " ++ h.name ++ base ++ " \x7b")
      :: memberLines (h.depth + 1) c.properties c.methods ++ [h.closingLine]
      ++ h.siblingNamespace nested noChildren
  | .ofInterface properties methods =>
    .code h.depth (h.keyword ++ "interface " ++ h.name ++ " \x7b")
      :: memberLines (h.depth + 1) properties methods ++ [h.closingLine]
      ++ h.siblingNamespace nested noChildren
  | .ofEnum members =>
    .code h.depth (h.keyword ++ "enum " ++ h.name ++ " \x7b")
      :: members.flatMap (·.lines (h.depth + 1)) ++ [h.closingLine]
  | .ofTypedef [] =>
    .code h.depth (h.keyword ++ "type " ++ h.name ++ " = any;")
      :: h.siblingNamespace nested noChildren
  | .ofTypedef (p :: ps) =>
    .code h.depth (h.keyword ++ "type " ++ h.name ++ " = \x7b")
      :: memberLines (h.depth + 1) (p :: ps) [] ++ [.code h.depth "\x7d;"]
      ++ h.siblingNamespace nested noChildren

namespace Declaration

mutual

/-- The lines of a declaration. -/
def lines : Declaration → List Line
  | node h body children => h.docLines ++ body.lines h (linesAll children) children.isEmpty

/-- The lines of declarations, one after the other. -/
def linesAll : List Declaration → List Line
  | [] => []
  | d :: ds => lines d ++ linesAll ds

end

/-- Declarations are written one after the other. -/
theorem linesAll_eq_flatMap (ds : List Declaration) : linesAll ds = ds.flatMap lines := by
  induction ds with
  | nil => rfl
  | cons d ds ih => simp [linesAll, ih]

/-- The text of a declaration. -/
def render (unit : String) (d : Declaration) : String := renderLines unit d.lines

end Declaration

end ApiTypings
