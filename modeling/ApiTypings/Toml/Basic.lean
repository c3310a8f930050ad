/-
# TOML trees

The tree of a settings file, and the rules by which headers and dotted keys put tables into it.  A
table is defined once: a header may fill in a table that only longer headers named before, a dotted
key may extend a table that dotted keys made, and an inline table is complete.
-/
import ApiTypings.Toml.Datetime

namespace ApiTypings

/-- How a table came about. -/
inductive TableOrigin where
  /-- By a header of its own. -/
  | header
  /-- By a longer header. -/
  | implied
  /-- By dotted keys. -/
  | dotted
  deriving DecidableEq

/-- A value of a settings file. -/
inductive Toml where
  | string (s : String)
  | integer (n : Int)
  /-- A floating point number; settings have no use for its value. -/
  | float
  | boolean (b : Bool)
  | datetime (d : Datetime)
  | array (items : List Toml)
  /-- A table in braces. -/
  | inline (entries : List (String × Toml))
  | table (origin : TableOrigin) (entries : List (String × Toml))
  /-- Tables under one header in double brackets. -/
  | tables (elements : List (List (String × Toml)))
  deriving Inhabited

namespace Toml

/-- The contents of a table, one entry per key. -/
abbrev Entries := List (String × Toml)

/-- The entries with another value for a key. -/
def replaceEntry (key : String) (value : Toml) (es : Entries) : Entries :=
  es.map fun e => if e.1 = key then (key, value) else e

/-! ## Keys -/

/-- The entries with a value under a dotted key.  The key makes the tables it needs.  It may pass
through tables that headers implied or that other dotted keys made, and through the last of several
tables, but it may only end in a table that dotted keys made. -/
def insertDotted : List String → String → Toml → Entries → Option Entries
  | [], key, value, es => if (es.lookup key).isSome then none else some (es ++ [(key, value)])
  | p :: ps, key, value, es =>
    match es.lookup p with
    | none => do
      let inner ← insertDotted ps key value []
      return es ++ [(p, table .dotted inner)]
    | some (table .dotted inner) => do
      let inner ← insertDotted ps key value inner
      return replaceEntry p (table .dotted inner) es
    | some (table .implied inner) =>
      if ps.isEmpty then none
      else do
        let inner ← insertDotted ps key value inner
        return replaceEntry p (table .implied inner) es
    | some (tables elements) =>
      match elements.getLast? with
      | none => none
      | some last =>
        if ps.isEmpty then none
        else do
          let last ← insertDotted ps key value last
          return replaceEntry p (tables (elements.dropLast ++ [last])) es
    | some _ => none

/-! ## Headers -/

/-- The entries after a change to those of the table that a header names.  The header makes the
tables it needs on its way, and passes through the last of several tables. -/
def updateAt (change : Entries → Option Entries) : List String → Entries → Option Entries
  | [], es => change es
  | p :: ps, es =>
    match es.lookup p with
    | none => do
      let inner ← updateAt change ps []
      return es ++ [(p, table .implied inner)]
    | some (table origin inner) => do
      let inner ← updateAt change ps inner
      return replaceEntry p (table origin inner) es
    | some (tables elements) =>
      match elements.getLast? with
      | none => none
      | some last => do
        let last ← updateAt change ps last
        return replaceEntry p (tables (elements.dropLast ++ [last])) es
    | some _ => none

/-- The entries with the table of a header, which may be there only if longer headers implied
it. -/
def openTable (key : String) (es : Entries) : Option Entries :=
  match es.lookup key with
  | none => some (es ++ [(key, table .header [])])
  | some (table .implied inner) => some (replaceEntry key (table .header inner) es)
  | some _ => none

/-- The entries with one more table under a header in double brackets. -/
def openElement (key : String) (es : Entries) : Option Entries :=
  match es.lookup key with
  | none => some (es ++ [(key, tables [[]])])
  | some (tables elements) => some (replaceEntry key (tables (elements ++ [[]])) es)
  | some _ => none

/-! ## As JSON -/

/-- The key under which a reader of records finds a date. -/
def datetimeKey : String := "$__toml_private_datetime"

mutual

/-- The value as a JSON tree. -/
def toJson : Toml → Json
  | string s => .text s
  | integer n => .integer n
  | float => .float 0
  | boolean b => .bool b
  | datetime d => .object [(some datetimeKey, .text d.text)] true
  | array items => .array (allToJson items) true
  | inline es => .object (entriesToJson es) true
  | table _ es => .object (entriesToJson es) true
  | tables elements => .array (elementsToJson elements) true

/-- The values as JSON trees. -/
def allToJson : List Toml → List Json
  | [] => []
  | t :: ts => toJson t :: allToJson ts

/-- The entries as fields. -/
def entriesToJson : List (String × Toml) → List (Option String × Json)
  | [] => []
  | (key, t) :: es => (some key, toJson t) :: entriesToJson es

/-- Tables as objects. -/
def elementsToJson : List (List (String × Toml)) → List Json
  | [] => []
  | es :: elements => .object (entriesToJson es) true :: elementsToJson elements

end

end Toml

end ApiTypings
