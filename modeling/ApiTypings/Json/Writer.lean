/-
# Writing JSON texts

The text of a tree, without blanks.  What a tree lacks is missing in its text too, so the text of a
tree with a mistake of form has a mistake of form.  A number that is not whole is written with the
fewest digits that denote it; a reader that rounds at every step may read another number.

* `readString_escaped` : a string that is written between quotes reads back.
-/
import ApiTypings.Json.Reader

namespace ApiTypings.Json

/-! ## Strings -/

/-- The letter that stands for a character behind a backslash. -/
def escapeLetter? : Char → Option Char
  | '"' => some '"'
  | '\\' => some '\\'
  | '\x08' => some 'b'
  | '\x0c' => some 'f'
  | '\n' => some 'n'
  | '\r' => some 'r'
  | '\t' => some 't'
  | _ => none

/-- A character inside a string: quotes, backslashes and controls are escaped. -/
def escapedChar (c : Char) : List Char :=
  match escapeLetter? c with
  | some letter => ['\\', letter]
  | none =>
    if c.toNat < 0x20 then
      ['\\', 'u', '0', '0', Nat.digitChar (c.toNat / 16), Nat.digitChar (c.toNat % 16)]
    else [c]

/-- The unit that is read for a character that was written. -/
def unitOf (c : Char) : StringUnit :=
  if (escapeLetter? c).isNone ∧ c.toNat < 0x20 then .unit16 c.toNat else .char c

/-- A letter behind a backslash stands for the character it was written for. -/
theorem simpleEscape?_escapeLetter {c letter : Char} (h : escapeLetter? c = some letter) :
    letter ≠ 'u' ∧ simpleEscape? letter = some c := by
  unfold escapeLetter? at h
  split at h <;> simp_all <;> subst h <;> decide

/-- A character that needs no letter is no quote and no backslash. -/
theorem ne_of_escapeLetter {c : Char} (h : escapeLetter? c = none) : c ≠ '"' ∧ c ≠ '\\' := by
  constructor <;> (intro e; subst e; simp [escapeLetter?] at h)

/-- Four hexadecimal digits denote the number of a control. -/
theorem hexNumber?_control {n : Nat} (h : n < 0x20) :
    hexNumber? ['0', '0', Nat.digitChar (n / 16), Nat.digitChar (n % 16)] = some n := by
  have all : ∀ n < 0x20,
      hexNumber? ['0', '0', Nat.digitChar (n / 16), Nat.digitChar (n % 16)] = some n := by decide
  exact all n h

/-- One character is read as one unit. -/
theorem readUnits_escapedChar (c : Char) (cs : List Char) :
    readUnits (escapedChar c ++ cs)
      = (readUnits cs).map fun (us, rest) => (unitOf c :: us, rest) := by
  unfold escapedChar unitOf
  cases h : escapeLetter? c with
  | some letter =>
    obtain ⟨hu, he⟩ := simpleEscape?_escapeLetter h
    simp [readUnits, hu, he]
  | none =>
    obtain ⟨hq, hb⟩ := ne_of_escapeLetter h
    by_cases hc : c.toNat < 0x20
    · simp [readUnits, hc, hexNumber?_control hc]
    · simp [readUnits, hc, hb]

/-- The units that are read for characters that were written. -/
theorem readUnits_escaped (s rest : List Char) :
    readUnits (s.flatMap escapedChar ++ '"' :: rest) = some (s.map unitOf, rest) := by
  induction s with
  | nil => simp [readUnits]
  | cons c s ih =>
    rw [List.flatMap_cons, List.append_assoc, readUnits_escapedChar, ih]
    rfl

/-- The units of characters denote these characters. -/
theorem charsOfUnits_map_unitOf (s : List Char) : charsOfUnits (s.map unitOf) = some s := by
  induction s with
  | nil => rfl
  | cons c s ih =>
    rw [List.map_cons, unitOf]
    split
    next h =>
      have low : isLowHalf c.toNat = false := by simp [isLowHalf]; omega
      have high : isHighHalf c.toNat = false := by simp [isHighHalf]; omega
      unfold charsOfUnits
      simp [low, high, ih]
    next h => simp [charsOfUnits, ih]

/-- A string that is written between quotes reads back. -/
theorem readString_escaped (s rest : List Char) :
    readString (s.flatMap escapedChar ++ '"' :: rest) = some (some (.ofList s), rest) := by
  simp [readString, readUnits_escaped, charsOfUnits_map_unitOf]

/-- The text of a string. -/
def quote (s : String) : String := .ofList ('"' :: s.toList.flatMap escapedChar ++ ['"'])

/-! ## Values -/

mutual

/-- The text of a tree. -/
def render : Json → String
  | null => "null"
  | bool b => if b then "true" else "false"
  | integer n => toString n
  | float x => Decimal.floatText x
  | text s => quote s
  | array items closed => "[" ++ ",".intercalate (renderAll items) ++ if closed then "]" else ""
  | object fields closed =>
    "\x7b" ++ ",".intercalate (renderFields fields) ++ if closed then "\x7d" else ""
  | valueless | broken => ""

/-- The texts of trees. -/
def renderAll : List Json → List String
  | [] => []
  | j :: js => render j :: renderAll js

/-- The texts of fields. -/
def renderFields : List (Option String × Json) → List String
  | [] => []
  | (name, j) :: fields => ((name.map quote).getD "" ++ ":" ++ render j) :: renderFields fields

end

end ApiTypings.Json
