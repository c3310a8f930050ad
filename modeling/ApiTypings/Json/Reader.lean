/-
# Reading JSON texts

The tree of a JSON text.  Every reader takes the text that is left and gives back what it read with
the rest; it stops at the first mistake of form.

* `readValue` needs no more fuel than `fuelFor` gives: each level of nesting takes two units of
  fuel and one character.
-/
import ApiTypings.Json.Number
import ApiTypings.Text.Pieces

namespace ApiTypings.Json

/-! ## Blanks and words -/

/-- The blank characters of JSON. -/
def isSpace (c : Char) : Bool := c == ' ' || c == '\n' || c == '\t' || c == '\r'

/-- The text without leading blanks. -/
def skipSpaces (cs : List Char) : List Char := cs.dropWhile isSpace

/-- The value of a word, if the text goes on with the rest of that word. -/
def afterWord (word : String) (value : Json) (cs : List Char) : Json × List Char :=
  match Text.stripPrefix? word.toList cs with
  | some rest => (value, rest)
  | none => (broken, [])

/-! ## Strings -/

/-- The value of a hexadecimal digit. -/
def hexDigit? (c : Char) : Option Nat :=
  if '0' ≤ c ∧ c ≤ '9' then some (c.toNat - '0'.toNat)
  else if 'a' ≤ c ∧ c ≤ 'f' then some (c.toNat - 'a'.toNat + 10)
  else if 'A' ≤ c ∧ c ≤ 'F' then some (c.toNat - 'A'.toNat + 10)
  else none

/-- The number of hexadecimal digits. -/
def hexNumber? (cs : List Char) : Option Nat :=
  cs.foldlM (fun n c => (hexDigit? c).map (16 * n + ·)) 0

/-- The character that a letter after a backslash stands for. -/
def simpleEscape? : Char → Option Char
  | '"' => some '"'
  | '\\' => some '\\'
  | '/' => some '/'
  | 'b' => some '\x08'
  | 'f' => some '\x0c'
  | 'n' => some '\n'
  | 'r' => some '\r'
  | 't' => some '\t'
  | _ => none

/-- One unit of a string: a character, or a 16-bit unit given by its number. -/
inductive StringUnit where
  | char (c : Char)
  | unit16 (n : Nat)

/-- The units of a string up to its closing quote, and the text behind it. -/
def readUnits : List Char → Option (List StringUnit × List Char)
  | [] => none
  | '"' :: rest => some ([], rest)
  | '\\' :: 'u' :: a :: b :: c :: d :: rest =>
    match hexNumber? [a, b, c, d] with
    | none => none
    | some n => (readUnits rest).map fun (us, rest) => (.unit16 n :: us, rest)
  | '\\' :: e :: rest =>
    match simpleEscape? e with
    | none => none
    | some c => (readUnits rest).map fun (us, rest) => (.char c :: us, rest)
  | c :: rest =>
    if c.toNat < 0x20 ∨ c = '\\' then none
    else (readUnits rest).map fun (us, rest) => (.char c :: us, rest)

/-- Whether a number is the first half of a pair of 16-bit units. -/
def isHighHalf (n : Nat) : Bool := 0xD800 ≤ n && n ≤ 0xDBFF

/-- Whether a number is the second half of a pair of 16-bit units. -/
def isLowHalf (n : Nat) : Bool := 0xDC00 ≤ n && n ≤ 0xDFFF

/-- The characters of units, if every half of a pair has its other half. -/
def charsOfUnits : List StringUnit → Option (List Char)
  | [] => some []
  | .char c :: us => (charsOfUnits us).map (c :: ·)
  | .unit16 n :: us =>
    if isLowHalf n then none
    else if isHighHalf n then
      match us with
      | .unit16 m :: us =>
        if isLowHalf m then
          (charsOfUnits us).map (Char.ofNat (0x10000 + (n - 0xD800) * 0x400 + (m - 0xDC00)) :: ·)
        else none
      | _ => none
    else (charsOfUnits us).map (Char.ofNat n :: ·)

/-- The string behind an opening quote, without a value where a half of a pair is alone. -/
def readString (cs : List Char) : Option (Option String × List Char) :=
  (readUnits cs).map fun (us, rest) => ((charsOfUnits us).map .ofList, rest)

/-! ## Numbers -/

/-- A digit of ten. -/
def isDigit (c : Char) : Bool := '0' ≤ c && c ≤ '9'

/-- The leading digits of a text, and the rest. -/
def takeDigits (cs : List Char) : List Char × List Char :=
  (cs.takeWhile isDigit, cs.dropWhile isDigit)

/-- The digits in front of the point: a zero alone, or digits that do not begin with one. -/
def readWhole (cs : List Char) : Option (List Char × List Char) :=
  match takeDigits cs with
  | ([], _) => none
  | ('0' :: _ :: _, _) => none
  | (digits, rest) => some (digits, rest)

/-- The digits behind a point, if there is one. -/
def readFraction : List Char → Option (Option (List Char) × List Char)
  | '.' :: cs =>
    match takeDigits cs with
    | ([], _) => none
    | (digits, rest) => some (some digits, rest)
  | cs => some (none, cs)

/-- The exponent, if there is one. -/
def readExponent (cs : List Char) : Option (Option Int × List Char) :=
  match cs with
  | [] => some (none, [])
  | e :: rest =>
    if e = 'e' ∨ e = 'E' then
      let (negative, rest) := match rest with
        | '+' :: rest => (false, rest)
        | '-' :: rest => (true, rest)
        | rest => (false, rest)
      match takeDigits rest with
      | ([], _) => none
      | (digits, rest) =>
        let n : Int := natOfDigits digits
        some (some (if negative then -n else n), rest)
    else some (none, e :: rest)

/-- A number. -/
def readNumber (cs : List Char) : Option (Json × List Char) := do
  let (negative, cs) := match cs with
    | '-' :: cs => (true, cs)
    | cs => (false, cs)
  let (whole, cs) ← readWhole cs
  let (fraction, cs) ← readFraction cs
  let (exponent, cs) ← readExponent cs
  return (ofNumber ⟨negative, whole, fraction, exponent⟩, cs)

/-! ## Values -/

mutual

/-- The value at the beginning of a text. -/
def readValue (fuel : Nat) (cs : List Char) : Json × List Char :=
  match fuel with
  | 0 => (broken, [])
  | fuel + 1 =>
    match skipSpaces cs with
    | [] => (broken, [])
    | 'n' :: cs => afterWord "ull" null cs
    | 't' :: cs => afterWord "rue" (bool true) cs
    | 'f' :: cs => afterWord "alse" (bool false) cs
    | '"' :: cs =>
      match readString cs with
      | none => (broken, [])
      | some (none, rest) => (valueless, rest)
      | some (some s, rest) => (text s, rest)
    | '[' :: cs =>
      match skipSpaces cs with
      | ']' :: rest => (array [] true, rest)
      | cs =>
        let (items, closed, rest) := readItems fuel cs
        (array items closed, rest)
    | '\x7b' :: cs =>
      match skipSpaces cs with
      | '\x7d' :: rest => (object [] true, rest)
      | cs =>
        let (fields, closed, rest) := readFields fuel cs
        (object fields closed, rest)
    | c :: cs =>
      if c = '-' ∨ isDigit c then (readNumber (c :: cs)).getD (broken, []) else (broken, [])

/-- The items of an array up to its closing bracket, and whether that bracket is there. -/
def readItems (fuel : Nat) (cs : List Char) : List Json × Bool × List Char :=
  match fuel with
  | 0 => ([], false, [])
  | fuel + 1 =>
    match readValue fuel cs with
    | (broken, _) => ([broken], false, [])
    | (j, rest) =>
      match skipSpaces rest with
      | ']' :: rest => ([j], true, rest)
      | ',' :: rest =>
        let (items, closed, rest) := readItems fuel rest
        (j :: items, closed, rest)
      | _ => ([j], false, [])

/-- The fields of an object up to its closing brace, and whether that brace is there. -/
def readFields (fuel : Nat) (cs : List Char) :
    List (Option String × Json) × Bool × List Char :=
  match fuel with
  | 0 => ([], false, [])
  | fuel + 1 =>
    match skipSpaces cs with
    | '"' :: cs =>
      match readString cs with
      | none => ([], false, [])
      | some (name, rest) =>
        match skipSpaces rest with
        | ':' :: rest =>
          match readValue fuel rest with
          | (broken, _) => ([(name, broken)], false, [])
          | (j, rest) =>
            match skipSpaces rest with
            | '\x7d' :: rest => ([(name, j)], true, rest)
            | ',' :: rest =>
              let (fields, closed, rest) := readFields fuel rest
              ((name, j) :: fields, closed, rest)
            | _ => ([(name, j)], false, [])
        | _ => ([(name, broken)], false, [])
    | _ => ([], false, [])

end

/-- Fuel for a text. -/
def fuelFor (cs : List Char) : Nat := 2 * cs.length + 2

/-- The tree of a text, and whether nothing but blanks follows it. -/
def read (s : String) : Json × Bool :=
  let cs := s.toList
  let (j, rest) := readValue (fuelFor cs) cs
  (j, (skipSpaces rest).isEmpty)

end ApiTypings.Json
