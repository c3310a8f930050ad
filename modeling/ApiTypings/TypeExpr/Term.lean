/-
# Type terms

One alternative of a type expression is a plain name, a generic such as `Promise<A|B>`, or an
array, written `T[]` or `Array<T>`.

A term is read from the outside in.  `outermost` finds the outer construct of a text and the text
inside it; `TypeTerm.ofChars` reads that inner text as alternatives again, which are shorter.
`TypeTerm.toChars` writes a term in its one canonical spelling.

* `outermost_inner_lt` : the text inside a construct is shorter than the construct.
-/
import ApiTypings.TypeExpr.Alternatives

namespace ApiTypings

/-- One alternative of a type. -/
inductive TypeTerm where
  /-- A plain name, such as `string` or `sap.ui.core.Control`. -/
  | basic (name : String)
  /-- A generic type, such as `Promise<A|B>`. -/
  | wrapped (wrapper : String) (inner : List TypeTerm)
  /-- An array of the given alternatives. -/
  | array (inner : List TypeTerm)
  deriving Inhabited

namespace TypeExpr

/-! ## The outer construct of a text -/

/-- The outer construct of a type term, the text inside it not read yet. -/
inductive Construct where
  /-- A plain name. -/
  | name (text : List Char)
  /-- A generic: its wrapper and the text between its brackets. -/
  | generic (wrapper inner : List Char)
  /-- An array: the text of its elements. -/
  | arrayOf (inner : List Char)

/-- The inside of a generic, given the text after its `<`: one closing `>` is taken off, and a
text without it is kept whole. -/
def insideBrackets (cs : List Char) : List Char :=
  match Text.stripSuffix? ['>'] (Text.trimEnd cs) with
  | some inner => Text.trim inner
  | none => Text.trim cs

/-- Whether the text after a `<` ends with the closing `>`. -/
def hasClosing (cs : List Char) : Bool := (Text.stripSuffix? ['>'] (Text.trimEnd cs)).isSome

/-- The text after the first `<`, if there is one. -/
def afterBracket? (cs : List Char) : Option (List Char) := (cs.dropWhile (· ≠ '<')).tail?

/-- The outer construct of a trimmed text: the suffix `[]` comes first, then the wrapper `Array`,
then any other wrapper. -/
def outermost (term : List Char) : Construct :=
  match Text.stripSuffix? "[]".toList term with
  | some element => .arrayOf element
  | none =>
    match Text.stripPrefix? "Array<".toList term with
    | some rest => .arrayOf (insideBrackets rest)
    | none =>
      match afterBracket? term with
      | some rest =>
        .generic (Text.trim (term.takeWhile (· ≠ '<'))) (insideBrackets rest)
      | none => .name term

/-- The text that `outermost` found inside the construct. -/
def Construct.inner? : Construct → Option (List Char)
  | .name _ => none
  | .generic _ inner => some inner
  | .arrayOf inner => some inner

/-- The inside of a generic is no longer than the text after its `<`. -/
theorem length_insideBrackets_le (cs : List Char) : (insideBrackets cs).length ≤ cs.length := by
  unfold insideBrackets
  split
  · rename_i inner h
    have h1 := congrArg List.length (Text.stripSuffix?_eq_some.1 h)
    have h2 := Text.length_trimEnd_le cs
    have h3 := Text.length_trim_le inner
    simp at h1
    omega
  · exact Text.length_trim_le cs

/-- The text after the first `<` is shorter. -/
theorem length_afterBracket_lt {cs rest : List Char} (h : afterBracket? cs = some rest) :
    rest.length < cs.length := by
  have hle := (List.dropWhile_sublist (· ≠ '<') (l := cs)).length_le
  unfold afterBracket? at h
  generalize cs.dropWhile (· ≠ '<') = tail at h hle
  cases tail with
  | nil => simp at h
  | cons c tail =>
    obtain rfl : tail = rest := by simpa using h
    simp at hle
    omega

/-- The text inside a construct is shorter than the construct. -/
theorem outermost_inner_lt {term inner : List Char} (h : (outermost term).inner? = some inner) :
    inner.length < term.length := by
  unfold outermost at h
  split at h
  · rename_i element he
    have := congrArg List.length (Text.stripSuffix?_eq_some.1 he)
    obtain rfl : element = inner := by simpa [Construct.inner?] using h
    simp at this
    omega
  · split at h
    · rename_i rest hr
      have h1 := congrArg List.length (Text.stripPrefix?_eq_some.1 hr)
      have h2 := length_insideBrackets_le rest
      obtain rfl : insideBrackets rest = inner := by simpa [Construct.inner?] using h
      simp at h1
      omega
    · split at h
      · rename_i rest hr
        have h1 := length_afterBracket_lt hr
        have h2 := length_insideBrackets_le rest
        obtain rfl : insideBrackets rest = inner := by simpa [Construct.inner?] using h
        omega
      · simp [Construct.inner?] at h

end TypeExpr

namespace TypeTerm

open TypeExpr

/-! ## Reading -/

/-- The term that a text denotes. -/
def ofChars (raw : List Char) : TypeTerm :=
  match _h : outermost (Text.trim raw) with
  | .name text => .basic (.ofList text)
  | .generic wrapper inner =>
    .wrapped (.ofList wrapper) ((alternatives inner).attach.map fun ⟨p, _⟩ => ofChars p)
  | .arrayOf inner => .array ((alternatives inner).attach.map fun ⟨p, _⟩ => ofChars p)
termination_by raw.length
decreasing_by
  all_goals
    rename_i hp
    have h1 : inner.length < (Text.trim raw).length :=
      outermost_inner_lt (by simp [_h, Construct.inner?])
    have h2 := Text.length_trim_le raw
    have h3 := length_of_mem_alternatives hp
    omega

/-- The inner alternatives of a construct are read like the text itself. -/
theorem ofChars_eq (raw : List Char) :
    ofChars raw = match outermost (Text.trim raw) with
      | .name text => .basic (.ofList text)
      | .generic wrapper inner => .wrapped (.ofList wrapper) ((alternatives inner).map ofChars)
      | .arrayOf inner => .array ((alternatives inner).map ofChars) := by
  rw [ofChars]
  split <;> rename_i h <;> simp [h]

/-- The term that a string denotes. -/
def parse (raw : String) : TypeTerm := ofChars raw.toList

/-! ## Writing -/

mutual

/-- The canonical spelling of a term: `T[]` for an array of one plain name, `Array<…>` for any
other array, bars without blanks between inner alternatives. -/
def toChars : TypeTerm → List Char
  | .basic name => name.toList
  | .wrapped wrapper inner =>
    wrapper.toList ++ '<' :: (['|'].intercalate (allToChars inner) ++ ['>'])
  | .array inner =>
    let parts := ['|'].intercalate (allToChars inner)
    match inner with
    | [.basic _] => parts ++ "[]".toList
    | _ => "Array<".toList ++ parts ++ ['>']

/-- The canonical spellings of a list of terms. -/
def allToChars : List TypeTerm → List (List Char)
  | [] => []
  | t :: ts => toChars t :: allToChars ts

end

/-- The canonical spelling of a term as a string. -/
def render (t : TypeTerm) : String := .ofList t.toChars

/-- The spellings of a list are the spellings of its members. -/
theorem allToChars_eq_map (ts : List TypeTerm) : allToChars ts = ts.map toChars := by
  induction ts with
  | nil => simp [allToChars]
  | cons t ts ih => simp [allToChars, ih]

/-- Whether the term is an array. -/
def isArray : TypeTerm → Bool
  | .array _ => true
  | _ => false

/-- The name of a plain term. -/
def name? : TypeTerm → Option String
  | .basic name => some name
  | _ => none

end TypeTerm

end ApiTypings
