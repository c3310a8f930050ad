/-
# Reading TOML texts

The entries of a settings file, if the text is one: values, keys, headers and lines.

Arrays and inline tables may be nested to a limited depth, and keys have a limited number of parts.
-/
import ApiTypings.Toml.Scalar

namespace ApiTypings.Toml

/-- One more than the deepest nesting, and than the greatest number of parts of a key. -/
def nestingLimit : Nat := 80

/-! ## Blanks and comments -/

/-- The text behind blanks, line ends and comments; a comment has no controls but the tab. -/
def skipFiller (inComment : Bool) : List Char → Option (List Char)
  | [] => some []
  | '\n' :: cs => skipFiller false cs
  | '\r' :: '\n' :: cs => skipFiller false cs
  | c :: cs =>
    if inComment then if isInline c then skipFiller true cs else none
    else if isBlank c then skipFiller false cs
    else if c = '#' then skipFiller true cs
    else some (c :: cs)

/-- The text behind the end of a line, in front of which blanks and a comment may stand. -/
def afterLine (cs : List Char) : Option (List Char) :=
  let cs := match skipBlanks cs with
    | '#' :: cs => cs.dropWhile isInline
    | cs => cs
  if cs.isEmpty then some [] else afterNewline? cs

/-! ## Keys -/

/-- A character of a key without quotes. -/
def isKeyChar (c : Char) : Bool :=
  ('a' ≤ c && c ≤ 'z') || ('A' ≤ c && c ≤ 'Z') || Json.isDigit c || c == '_' || c == '-'

/-- One part of a key. -/
def readKeyPart (cs : List Char) : Option (String × List Char) :=
  match cs with
  | '"' :: _ | '\'' :: _ => readLineString cs
  | cs =>
    let name := cs.takeWhile isKeyChar
    if name.isEmpty then none else some (.ofList name, cs.dropWhile isKeyChar)

/-- The parts of a key with dots between them, at most `fuel` of them. -/
def readKey (fuel : Nat) (cs : List Char) : Option (List String × List Char) :=
  match fuel with
  | 0 => none
  | fuel + 1 => do
    let (part, rest) ← readKeyPart (skipBlanks cs)
    match skipBlanks rest with
    | '.' :: rest => do
      let (parts, rest) ← readKey fuel rest
      return (part :: parts, rest)
    | rest => return ([part], rest)

/-! ## Values -/

/-- The entries of key and value pairs, one after the other. -/
def entriesOf : List (List String × Toml) → Entries → Option Entries
  | [], es => some es
  | (path, value) :: pairs, es =>
    match path.getLast? with
    | none => none
    | some key => (insertDotted path.dropLast key value es).bind (entriesOf pairs)

mutual

/-- A value, inside `depth` arrays and inline tables. -/
def readValue (fuel depth : Nat) (cs : List Char) : Option (Toml × List Char) :=
  match fuel with
  | 0 => none
  | fuel + 1 =>
    match cs with
    | '"' :: _ | '\'' :: _ => (readString cs).map fun (s, rest) => (string s, rest)
    | '[' :: cs =>
      if nestingLimit ≤ depth + 1 then none
      else do
        let (items, rest) ← readItems fuel (depth + 1) cs
        return (array items, rest)
    | '\x7b' :: cs =>
      if nestingLimit ≤ depth + 1 then none
      else
        match skipBlanks cs with
        | '\x7d' :: rest => some (inline [], rest)
        | cs => do
          let (pairs, rest) ← readPairs fuel (depth + 1) cs
          return (inline (← entriesOf pairs []), rest)
    | 't' :: 'r' :: 'u' :: 'e' :: rest => some (boolean true, rest)
    | 'f' :: 'a' :: 'l' :: 's' :: 'e' :: rest => some (boolean false, rest)
    | cs => readDateOrNumber cs

/-- The items of an array up to its closing bracket; a comma may stand behind the last one. -/
def readItems (fuel depth : Nat) (cs : List Char) : Option (List Toml × List Char) :=
  match fuel with
  | 0 => none
  | fuel + 1 => do
    match ← skipFiller false cs with
    | ']' :: rest => return ([], rest)
    | cs =>
      let (item, rest) ← readValue fuel depth cs
      match ← skipFiller false rest with
      | ']' :: rest => return ([item], rest)
      | ',' :: rest =>
        let (items, rest) ← readItems fuel depth rest
        return (item :: items, rest)
      | _ => none

/-- The key and value pairs of an inline table up to its closing brace. -/
def readPairs (fuel depth : Nat) (cs : List Char) :
    Option (List (List String × Toml) × List Char) :=
  match fuel with
  | 0 => none
  | fuel + 1 => do
    let (path, rest) ← readKey (nestingLimit - 1) cs
    let rest ← Text.stripPrefix? ['='] rest
    let (value, rest) ← readValue fuel depth (skipBlanks rest)
    match skipBlanks rest with
    | '\x7d' :: rest => return ([(path, value)], rest)
    | ',' :: rest =>
      let (pairs, rest) ← readPairs fuel depth rest
      return ((path, value) :: pairs, rest)
    | _ => none

end

/-! ## Lines -/

/-- A line with something on it. -/
inductive Item where
  | pair (path : List String) (value : Toml)
  | header (path : List String)
  | elementHeader (path : List String)

/-- A header, behind its opening brackets. -/
def readHeader (element : Bool) (cs : List Char) : Option (Item × List Char) := do
  let (path, rest) ← readKey (nestingLimit - 1) cs
  let rest ← Text.stripPrefix? [']'] rest
  if element then
    let rest ← Text.stripPrefix? [']'] rest
    return (.elementHeader path, rest)
  else
    return (.header path, rest)

/-- A key and its value. -/
def readPair? (cs : List Char) : Option (Item × List Char) := do
  let (path, rest) ← readKey (nestingLimit - 1) cs
  let rest ← Text.stripPrefix? ['='] rest
  let (value, rest) ← readValue (2 * rest.length + 2) 0 (skipBlanks rest)
  return (.pair path value, rest)

/-- The items of a text, line by line. -/
def readLines (fuel : Nat) (cs : List Char) : Option (List Item) :=
  match fuel with
  | 0 => none
  | fuel + 1 => do
    match ← skipFiller false cs with
    | [] => return []
    | cs =>
      let (item, rest) ← match cs with
        | '[' :: '[' :: cs => readHeader true cs
        | '[' :: cs => readHeader false cs
        | cs => readPair? cs
      let items ← readLines fuel (← afterLine rest)
      return item :: items

/-- The entries of items, where `current` is the table of the last header. -/
def entriesOfItems (current : List String) : List Item → Entries → Option Entries
  | [], es => some es
  | .pair path value :: items, es =>
    match path.getLast? with
    | none => none
    | some key =>
      (updateAt (insertDotted path.dropLast key value) current es).bind
        (entriesOfItems current items)
  | .header path :: items, es =>
    match path.getLast? with
    | none => none
    | some key => (updateAt (openTable key) path.dropLast es).bind (entriesOfItems path items)
  | .elementHeader path :: items, es =>
    match path.getLast? with
    | none => none
    | some key => (updateAt (openElement key) path.dropLast es).bind (entriesOfItems path items)

/-- The mark that may stand in front of a text. -/
def byteOrderMark : Char := '\ufeff'

/-- The entries of a settings file. -/
def read? (s : String) : Option Entries := do
  let cs := match s.toList with
    | c :: cs => if c = byteOrderMark then cs else c :: cs
    | [] => []
  entriesOfItems [] (← readLines (cs.length + 1) cs) []

end ApiTypings.Toml
