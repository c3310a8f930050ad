/-
# Pieces of a text

Cutting a text at separators, joining pieces, taking a known ending off, replacing a marker, the
first line of a text, and the one-line form of a text used in documentation tags.

* `cut_ne_nil` : cutting always gives at least one piece;
* `intercalate_cut` : the pieces, joined by the separator, are the text;
* `stripSuffix?_eq_some` : what `stripSuffix?` gives back is the text before the ending.
-/
import ApiTypings.Text.Blank

namespace ApiTypings.Text

/-! ## Cutting and joining -/

/-- The pieces of a text between the characters that satisfy `stop`. -/
def cut (stop : Char → Bool) : List Char → List (List Char)
  | [] => [[]]
  | c :: cs =>
    if stop c then [] :: cut stop cs
    else
      match cut stop cs with
      | [] => [[c]]
      | piece :: pieces => (c :: piece) :: pieces

/-- The empty text is cut into one empty piece. -/
@[simp] theorem cut_nil (stop : Char → Bool) : cut stop [] = [[]] := rfl

/-- Cutting always gives at least one piece. -/
theorem cut_ne_nil (stop : Char → Bool) (cs : List Char) : cut stop cs ≠ [] := by
  cases cs with
  | nil => simp
  | cons c cs =>
    unfold cut
    split
    · simp
    · split <;> simp

/-- A piece with one more character in front begins the joined text with that character. -/
theorem intercalate_cons_cons {sep piece : List Char} {c : Char} {pieces : List (List Char)} :
    sep.intercalate ((c :: piece) :: pieces) = c :: sep.intercalate (piece :: pieces) := by
  cases pieces <;> simp [List.intercalate, List.intersperse]

/-- The pieces, joined by the separator, are the text. -/
theorem intercalate_cut (sep : Char) (cs : List Char) :
    [sep].intercalate (cut (· == sep) cs) = cs := by
  induction cs with
  | nil => simp [List.intercalate]
  | cons c cs ih =>
    unfold cut
    cases hcut : cut (· == sep) cs with
    | nil => exact absurd hcut (cut_ne_nil _ cs)
    | cons piece pieces =>
      rw [hcut] at ih
      by_cases hc : c = sep
      · subst hc
        simp [List.intercalate] at ih ⊢
        exact ih
      · simp only [beq_iff_eq, hc, if_false]
        rw [intercalate_cons_cons, ih]

/-- The pieces of a string between the occurrences of a character. -/
def pieces (sep : Char) (s : String) : List String := (cut (· == sep) s.toList).map .ofList

/-! ## Known beginnings and endings -/

/-- The text after a known beginning, if it has that beginning. -/
def stripPrefix? : List Char → List Char → Option (List Char)
  | [], cs => some cs
  | _ :: _, [] => none
  | p :: ps, c :: cs => if p = c then stripPrefix? ps cs else none

/-- What `stripPrefix?` gives back is the text after the beginning. -/
theorem stripPrefix?_eq_some {ps cs rest : List Char} :
    stripPrefix? ps cs = some rest ↔ cs = ps ++ rest := by
  induction ps generalizing cs with
  | nil => simp [stripPrefix?, eq_comm]
  | cons p ps ih =>
    cases cs with
    | nil => simp [stripPrefix?]
    | cons c cs =>
      by_cases h : p = c
      · simp [stripPrefix?, h, ih]
      · simp [stripPrefix?, h, Ne.symm h]

/-- The text before a known ending, if it has that ending. -/
def stripSuffix? (ending cs : List Char) : Option (List Char) :=
  (stripPrefix? ending.reverse cs.reverse).map List.reverse

/-- What `stripSuffix?` gives back is the text before the ending. -/
theorem stripSuffix?_eq_some {ending cs rest : List Char} :
    stripSuffix? ending cs = some rest ↔ cs = rest ++ ending := by
  simp only [stripSuffix?, Option.map_eq_some_iff, stripPrefix?_eq_some]
  constructor
  · rintro ⟨r, hr, rfl⟩
    have := congrArg List.reverse hr
    simpa using this
  · rintro rfl
    exact ⟨rest.reverse, by simp, by simp⟩

/-- The string before a known ending, if it has that ending. -/
def withoutSuffix (ending s : String) : Option String :=
  (stripSuffix? ending.toList s.toList).map .ofList

/-- Whether a string begins with another. -/
def beginsWith (start s : String) : Bool := (stripPrefix? start.toList s.toList).isSome

/-! ## Replacing -/

/-- The text with every occurrence of `old`, found from the left, replaced by `new`.  An empty
`old` occurs nowhere. -/
def replaceAll (old new : List Char) (cs : List Char) : List Char :=
  match cs with
  | [] => []
  | c :: rest =>
    match _found : stripPrefix? old (c :: rest) with
    | some after =>
      if _nonempty : old = [] then c :: replaceAll old new rest
      else new ++ replaceAll old new after
    | none => c :: replaceAll old new rest
termination_by cs.length
decreasing_by
  · simp
  · have hlen := congrArg List.length (stripPrefix?_eq_some.1 _found)
    have hpos := List.length_pos_iff.2 _nonempty
    rw [List.length_append] at hlen
    omega
  · simp

/-! ## Lines -/

/-- The first line of a text, without its end: a line feed, or a carriage return and a line feed. -/
def firstLine : List Char → List Char
  | [] => []
  | '\n' :: _ => []
  | '\r' :: '\n' :: _ => []
  | c :: cs => c :: firstLine cs

/-- Carriage return and line feed break a line. -/
def isBreak (c : Char) : Bool := c == '\r' || c == '\n'

/-- The text on one line: the trimmed non-blank lines, joined by a space. -/
def singleLine (cs : List Char) : List Char :=
  [' '].intercalate (((cut isBreak cs).map trim).filter (!·.isEmpty))

/-- A string on one line. -/
def onOneLine (s : String) : String := .ofList (singleLine s.toList)

end ApiTypings.Text
