/-
# Lines of a declaration file

A declaration file is a list of lines: code, documentation, and blank lines.  Code and
documentation lines are indented by their depth; every line ends with a carriage return and a line
feed.

A documentation block cannot be closed by its text, because `*/` in a text is written `*\/`.

* `renderLines_append` : the text of two lists of lines is the two texts in order.
-/
import ApiTypings.Text.Pieces

namespace ApiTypings

/-! ## Lines -/

/-- A line of a declaration file. -/
inductive Line where
  /-- Code at a nesting depth. -/
  | code (depth : Nat) (text : String)
  /-- Documentation at a nesting depth. -/
  | doc (depth : Nat) (text : String)
  /-- A line without anything on it. -/
  | blank
  deriving DecidableEq, Repr

/-- What ends a line. -/
def newline : String := "\r\n"

/-- The indentation of a depth. -/
def indentation (unit : String) (depth : Nat) : String := String.join (List.replicate depth unit)

/-- The text of a line with its line end. -/
def Line.render (unit : String) : Line → String
  | code depth text => indentation unit depth ++ text ++ newline
  | doc depth text => indentation unit depth ++ text ++ newline
  | blank => newline

/-- The text of a list of lines. -/
def renderLines (unit : String) (lines : List Line) : String :=
  String.join (lines.map (·.render unit))

/-- The text of two lists of lines is the two texts in order. -/
theorem renderLines_append (unit : String) (a b : List Line) :
    renderLines unit (a ++ b) = renderLines unit a ++ renderLines unit b := by
  simp [renderLines, String.join_append]

/-! ## Documentation blocks -/

/-- A text in which no `*/` closes a comment. -/
def escapeClosing (cs : List Char) : List Char := Text.replaceAll "*/".toList "*\\/".toList cs

/-- The documentation line of a text. -/
def docLine (depth : Nat) (cs : List Char) : Line :=
  match escapeClosing cs with
  | [] => .doc depth " *"
  | text => .doc depth (.ofList (" * ".toList ++ text))

/-- The lines of a description, trailing blanks removed from each one. -/
def descriptionLines (cs : List Char) : List (List Char) :=
  if cs.isEmpty then [] else (Text.cut (· == '\n') cs).map Text.trimEnd

/-- The documentation block of a description and its tags, one line per tag; nothing when the
description is blank and there are no tags. -/
def docBlock (depth : Nat) (description : String) (tags : List String) : List Line :=
  let text := Text.trim description.toList
  if text.isEmpty && tags.isEmpty then []
  else
    .doc depth "/**" :: (descriptionLines text).map (docLine depth)
      ++ tags.map (fun tag => docLine depth (Text.singleLine tag.toList))
      ++ [.doc depth " */"]

end ApiTypings
