/-
# Strings and numbers of TOML

Readers for the values that hold no other values, dates apart.  Each reader takes the text that is
left and gives back what it read with the rest, or nothing when the text is no such value.
-/
import ApiTypings.Toml.Basic

namespace ApiTypings.Toml

/-! ## Characters -/

/-- A blank inside a line. -/
def isBlank (c : Char) : Bool := c == ' ' || c == '\t'

/-- A character that may stand in a text on one line: no control but the tab. -/
def isInline (c : Char) : Bool := c == '\t' || (0x20 ≤ c.toNat && c.toNat ≠ 0x7F)

/-- The text without leading blanks. -/
def skipBlanks (cs : List Char) : List Char := cs.dropWhile isBlank

/-- The text behind a line end, if there is one. -/
def afterNewline? : List Char → Option (List Char)
  | '\n' :: cs => some cs
  | '\r' :: '\n' :: cs => some cs
  | _ => none

/-- The text without a line end at its beginning. -/
def dropNewline (cs : List Char) : List Char := (afterNewline? cs).getD cs

/-! ## Strings -/

/-- The character that a letter after a backslash stands for. -/
def escape? : Char → Option Char
  | 'b' => some '\x08'
  | 't' => some '\t'
  | 'n' => some '\n'
  | 'f' => some '\x0c'
  | 'r' => some '\r'
  | '"' => some '"'
  | '\\' => some '\\'
  | _ => none

/-- The character of a number in hexadecimal digits. -/
def numberedChar? (digits : List Char) : Option Char :=
  (Json.hexNumber? digits).bind fun n => if n.isValidChar then some (Char.ofNat n) else none

/-- A text with one character in front. -/
def consChar (c : Char) (r : Option (List Char × List Char)) : Option (List Char × List Char) :=
  r.map fun (cs, rest) => (c :: cs, rest)

/-- The string behind a double quote. -/
def basicString : List Char → Option (List Char × List Char)
  | [] => none
  | '"' :: rest => some ([], rest)
  | '\\' :: 'u' :: a :: b :: c :: d :: rest =>
    (numberedChar? [a, b, c, d]).bind (consChar · (basicString rest))
  | '\\' :: 'U' :: a :: b :: c :: d :: e :: f :: g :: h :: rest =>
    (numberedChar? [a, b, c, d, e, f, g, h]).bind (consChar · (basicString rest))
  | '\\' :: e :: rest => (escape? e).bind (consChar · (basicString rest))
  | c :: rest => if isInline c ∧ c ≠ '\\' then consChar c (basicString rest) else none

/-- What is behind three quotes that close a string: up to two more quotes belong to it. -/
def closingQuotes (quote : Char) : List Char → List Char × List Char
  | a :: b :: rest =>
    if a = quote ∧ b = quote then ([a, b], rest)
    else if a = quote then ([a], b :: rest)
    else ([], a :: b :: rest)
  | [a] => if a = quote then ([a], []) else ([], [a])
  | [] => ([], [])

/-- The string of several lines behind three double quotes.  A backslash at the end of a line hides
the line end and all blanks and line ends behind it; `hidden` says that this is going on. -/
def basicLines (hidden : Bool) : List Char → Option (List Char × List Char)
  | [] => none
  | '"' :: '"' :: '"' :: rest => some (closingQuotes '"' rest)
  | '\\' :: 'u' :: a :: b :: c :: d :: rest =>
    (numberedChar? [a, b, c, d]).bind (consChar · (basicLines false rest))
  | '\\' :: 'U' :: a :: b :: c :: d :: e :: f :: g :: h :: rest =>
    (numberedChar? [a, b, c, d, e, f, g, h]).bind (consChar · (basicLines false rest))
  | '\\' :: e :: rest =>
    match escape? e with
    | some c => consChar c (basicLines false rest)
    | none =>
      if (afterNewline? (skipBlanks (e :: rest))).isSome then basicLines true (e :: rest) else none
  | '\r' :: '\n' :: rest =>
    if hidden then basicLines true rest else consChar '\n' (basicLines false rest)
  | c :: rest =>
    if c = '\n' ∨ (isInline c ∧ c ≠ '\\') then
      if hidden ∧ (c = '\n' ∨ isBlank c) then basicLines true rest
      else consChar c (basicLines false rest)
    else none

/-- The string behind an apostrophe. -/
def literalString : List Char → Option (List Char × List Char)
  | [] => none
  | c :: rest =>
    if c = '\'' then some ([], rest)
    else if isInline c then consChar c (literalString rest)
    else none

/-- The string of several lines behind three apostrophes. -/
def literalLines : List Char → Option (List Char × List Char)
  | [] => none
  | '\'' :: '\'' :: '\'' :: rest => some (closingQuotes '\'' rest)
  | '\r' :: '\n' :: rest => consChar '\n' (literalLines rest)
  | c :: rest => if c = '\n' ∨ isInline c then consChar c (literalLines rest) else none

/-- A string of one line. -/
def readLineString : List Char → Option (String × List Char)
  | '"' :: cs => (basicString cs).map fun (s, rest) => (.ofList s, rest)
  | '\'' :: cs => (literalString cs).map fun (s, rest) => (.ofList s, rest)
  | _ => none

/-- A string. -/
def readString : List Char → Option (String × List Char)
  | '"' :: '"' :: '"' :: cs =>
    (basicLines false (dropNewline cs)).map fun (s, rest) => (.ofList s, rest)
  | '\'' :: '\'' :: '\'' :: cs =>
    (literalLines (dropNewline cs)).map fun (s, rest) => (.ofList s, rest)
  | cs => readLineString cs

/-! ## Numbers -/

/-- The digits at the beginning of a text, where single underscores may stand between digits; a
text that has no digit there, or an underscore without a digit behind it, is refused. -/
def digitsBy (isDigit : Char → Bool) : List Char → Option (List Char × List Char)
  | [] => none
  | [c] => if isDigit c then some ([c], []) else none
  | c :: '_' :: rest =>
    if isDigit c then (digitsBy isDigit rest).map fun (ds, rest) => (c :: ds, rest) else none
  | c :: d :: rest =>
    if !isDigit c then none
    else if isDigit d then (digitsBy isDigit (d :: rest)).map fun (ds, rest) => (c :: ds, rest)
    else some ([c], d :: rest)

/-- The sign in front of a number, and whether it is a minus. -/
def readSign : List Char → Bool × List Char
  | '+' :: cs => (false, cs)
  | '-' :: cs => (true, cs)
  | cs => (false, cs)

/-- The digits of a decimal number: a zero alone, or digits that do not begin with one. -/
def decimalDigits : List Char → Option (List Char × List Char)
  | '0' :: rest => some (['0'], rest)
  | cs => digitsBy Json.isDigit cs

/-- The number that digits of a base denote. -/
def numberIn (base : Nat) (ds : List Char) : Nat :=
  ds.foldl (fun n c => base * n + (Json.hexDigit? c).getD 0) 0

/-- An integer, if it has 64 bits. -/
def ofInt (n : Int) : Option Toml :=
  if -(Decimal.twoTo 63) ≤ n ∧ n < Decimal.twoTo 63 then some (integer n) else none

/-- A number behind the mark of its base. -/
def readBased (base : Nat) (isDigit : Char → Bool) (cs : List Char) :
    Option (Toml × List Char) := do
  let (ds, rest) ← digitsBy isDigit cs
  return (← ofInt (numberIn base ds), rest)

/-- An integer. -/
def readInteger : List Char → Option (Toml × List Char)
  | '0' :: 'x' :: cs => readBased 16 (fun c => (Json.hexDigit? c).isSome) cs
  | '0' :: 'o' :: cs => readBased 8 (fun c => '0' ≤ c && c ≤ '7') cs
  | '0' :: 'b' :: cs => readBased 2 (fun c => c == '0' || c == '1') cs
  | cs => do
    let (negative, cs) := readSign cs
    let (ds, rest) ← decimalDigits cs
    let n : Int := numberIn 10 ds
    return (← ofInt (if negative then -n else n), rest)

/-- The exponent of a number, if there is one. -/
def readExponent : List Char → Option (Option Int × List Char)
  | [] => some (none, [])
  | e :: cs =>
    if e = 'e' ∨ e = 'E' then do
      let (negative, cs) := readSign cs
      let (ds, rest) ← digitsBy Json.isDigit cs
      let n : Int := numberIn 10 ds
      return (some (if negative then -n else n), rest)
    else some (none, e :: cs)

/-- Whether digits with an exponent denote a number beyond the doubles. -/
def isBeyondDoubles (ds : List Char) (exponent : Int) : Bool :=
  let ds := ds.dropWhile (· == '0')
  let size : Int := ds.length + exponent
  if ds.isEmpty || size < 300 then false
  else if size > 400 then true
  else
    let n := numberIn 10 ds
    -- The limit lies half a place above the greatest double.
    (Decimal.twoTo 54 - 1) * Decimal.twoTo 970 * Decimal.tenTo (-exponent).toNat
      ≤ n * Decimal.tenTo exponent.toNat

/-- A floating point number: digits with a fraction or an exponent, or a special value. -/
def readFloat (cs : List Char) : Option (Toml × List Char) :=
  let (negative, cs) := readSign cs
  match cs with
  | 'i' :: 'n' :: 'f' :: rest => some (float, rest)
  | 'n' :: 'a' :: 'n' :: rest => some (float, rest)
  | cs => do
    let (whole, cs) ← decimalDigits cs
    let (fraction, cs) ← match cs with
      | '.' :: cs => (digitsBy Json.isDigit cs).map fun (ds, rest) => (some ds, rest)
      | cs => some (none, cs)
    let (exponent, cs) ← readExponent cs
    if fraction.isNone && exponent.isNone then none
    else
      let ds := whole ++ fraction.getD []
      let beyond := isBeyondDoubles ds (exponent.getD 0 - (fraction.getD []).length)
      if beyond && !negative then none else some (float, cs)

/-! ## Dates or numbers -/

/-- A date, a time, or both. -/
def readDatetime (cs : List Char) : Option (Toml × List Char) :=
  (Datetime.read cs).map fun (d, rest) => (datetime d, rest)

/-- A date or a number; the first reader that accepts the text decides. -/
def readDateOrNumber (cs : List Char) : Option (Toml × List Char) :=
  (readDatetime cs).or ((readFloat cs).or (readInteger cs))

end ApiTypings.Toml
