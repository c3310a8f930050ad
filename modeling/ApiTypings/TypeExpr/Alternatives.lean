/-
# The alternatives of a type expression

A type expression such as `string|Map<string|int>|Foo[]` is a union of alternatives.  A bar
separates alternatives only outside every pair of angle brackets.

The bracket depth is clamped at zero: a `>` without its `<` changes nothing, and a `<` that is
never closed keeps the rest of the text in one alternative.

* `mem_alternatives` : an alternative is a trimmed piece of the text, and is not empty;
* `length_of_mem_alternatives` : no alternative is longer than the text.
-/
import ApiTypings.Text.Pieces

namespace ApiTypings.TypeExpr

/-! ## Bracket depth -/

/-- The bracket depth after a character. -/
def depthAfter (depth : Nat) (c : Char) : Nat :=
  if c = '<' then depth + 1 else if c = '>' then depth - 1 else depth

/-- Whether the angle brackets of a text close, starting inside `depth` of them: no `>` comes
without its `<`, and every `<` has its `>`. -/
def isBalancedFrom (depth : Nat) : List Char → Bool
  | [] => depth == 0
  | c :: cs => !(c == '>' && depth == 0) && isBalancedFrom (depthAfter depth c) cs

/-- Whether the angle brackets of a text are balanced. -/
def isBalanced (cs : List Char) : Bool := isBalancedFrom 0 cs

/-! ## Cutting at outer bars -/

/-- The pieces with a character put in front of the first one. -/
def pushFront (c : Char) : List (List Char) → List (List Char)
  | [] => [[c]]
  | piece :: pieces => (c :: piece) :: pieces

/-- The pieces of a text between the bars at depth zero, when the text starts at `depth`. -/
def cutAtBars (depth : Nat) : List Char → List (List Char)
  | [] => [[]]
  | c :: cs =>
    if c = '|' ∧ depth = 0 then [] :: cutAtBars 0 cs
    else pushFront c (cutAtBars (depthAfter depth c) cs)

/-- The alternatives of a type expression: its pieces between outer bars, trimmed, blank pieces
left out. -/
def alternatives (cs : List Char) : List (List Char) :=
  ((cutAtBars 0 cs).map Text.trim).filter (!·.isEmpty)

/-- The alternatives of a type expression given as a string. -/
def alternativesOf (raw : String) : List String := (alternatives raw.toList).map .ofList

/-! ## Sizes of the pieces -/

/-- A member of the pieces with `c` put in front is at most one longer than an old piece. -/
theorem length_of_mem_pushFront {c : Char} {ps : List (List Char)} {p : List Char} {n : Nat}
    (hps : ∀ q ∈ ps, q.length ≤ n) (h : p ∈ pushFront c ps) : p.length ≤ n + 1 := by
  cases ps with
  | nil => simp_all [pushFront]
  | cons q qs =>
    rcases List.mem_cons.1 h with rfl | h
    · simpa using hps q List.mem_cons_self
    · exact Nat.le_succ_of_le (hps p (List.mem_cons_of_mem _ h))

/-- No piece between bars is longer than the text. -/
theorem length_of_mem_cutAtBars {depth : Nat} {cs p : List Char} (h : p ∈ cutAtBars depth cs) :
    p.length ≤ cs.length := by
  induction cs generalizing depth p with
  | nil => simp_all [cutAtBars]
  | cons c cs ih =>
    unfold cutAtBars at h
    split at h
    · rcases List.mem_cons.1 h with rfl | h
      · simp
      · exact Nat.le_succ_of_le (ih h)
    · exact length_of_mem_pushFront (fun q hq => ih hq) h

/-- An alternative is a trimmed piece of the text, and is not empty. -/
theorem mem_alternatives {cs p : List Char} :
    p ∈ alternatives cs ↔ p ≠ [] ∧ ∃ q ∈ cutAtBars 0 cs, Text.trim q = p := by
  simp [alternatives, List.mem_filter, and_comm]

/-- No alternative is longer than the text. -/
theorem length_of_mem_alternatives {cs p : List Char} (h : p ∈ alternatives cs) :
    p.length ≤ cs.length := by
  obtain ⟨-, q, hq, rfl⟩ := mem_alternatives.1 h
  exact Nat.le_trans (Text.length_trim_le q) (length_of_mem_cutAtBars hq)

end ApiTypings.TypeExpr
