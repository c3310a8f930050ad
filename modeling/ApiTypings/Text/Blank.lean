/-
# Blank characters and trimming

The characters that count as white space in documentation text, and the three trims built on
them.  Blank characters are those of the Unicode property `White_Space`.

* `length_trim_le` : a trimmed text is no longer than the text.
-/

namespace ApiTypings.Text

/-! ## The property `White_Space` -/

/-- A character is blank when it has the Unicode property `White_Space`. -/
def isBlank (c : Char) : Bool :=
  let n := c.toNat
  (9 ≤ n && n ≤ 13) || n == 0x20 || n == 0x85 || n == 0xA0 || n == 0x1680
    || (0x2000 ≤ n && n ≤ 0x200A) || n == 0x2028 || n == 0x2029 || n == 0x202F
    || n == 0x205F || n == 0x3000

/-! ## Trimming -/

/-- The text without its leading blanks. -/
def trimStart (cs : List Char) : List Char := cs.dropWhile isBlank

/-- The text without its trailing blanks. -/
def trimEnd (cs : List Char) : List Char := (cs.reverse.dropWhile isBlank).reverse

/-- The text without leading and trailing blanks. -/
def trim (cs : List Char) : List Char := trimEnd (trimStart cs)

/-- A text of blanks only, the empty text included. -/
def isBlankText (cs : List Char) : Bool := cs.all isBlank

/-! ## Lengths -/

/-- Dropping leading blanks does not lengthen a text. -/
theorem length_trimStart_le (cs : List Char) : (trimStart cs).length ≤ cs.length :=
  (List.dropWhile_sublist isBlank).length_le

/-- Dropping trailing blanks does not lengthen a text. -/
theorem length_trimEnd_le (cs : List Char) : (trimEnd cs).length ≤ cs.length := by
  have h := (List.dropWhile_sublist isBlank (l := cs.reverse)).length_le
  simpa [trimEnd] using h

/-- Trimming does not lengthen a text. -/
theorem length_trim_le (cs : List Char) : (trim cs).length ≤ cs.length :=
  Nat.le_trans (length_trimEnd_le _) (length_trimStart_le _)

/-! ## Trims of strings -/

/-- The string without leading and trailing blanks. -/
def trimmed (s : String) : String := .ofList (trim s.toList)

/-- The string without trailing blanks. -/
def trimmedEnd (s : String) : String := .ofList (trimEnd s.toList)

/-- Whether the string has nothing but blanks. -/
def isBlankString (s : String) : Bool := isBlankText s.toList

end ApiTypings.Text
