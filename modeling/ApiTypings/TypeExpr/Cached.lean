/-
# Type sets that keep their text

A type set is compared and written many times, so a set keeps its text from the first time it is
written.  The members stand in a table under their spellings, in the order in which they came.  The
only change to a set is to add `any`, and it forgets the text.

* `CachedSet.render` : the text, and the set that keeps it;
* `CachedSet.view` : the type set without the kept text.
-/
import ApiTypings.TypeExpr.Set

namespace ApiTypings

/-- A type set with its members under their spellings, and its text if it was written before. -/
structure CachedSet where
  /-- The members and the spellings under which they were entered. -/
  members : List (String × TypeTerm)
  /-- The text that was written, if nothing has changed since. -/
  text : Option String
  deriving Inhabited

namespace CachedSet

/-! ## Members -/

/-- The spellings of the members. -/
def keys (s : CachedSet) : List String := s.members.map (·.1)

/-- The members. -/
def terms (s : CachedSet) : List TypeTerm := s.members.map (·.2)

/-- Whether some member was entered under the given spelling. -/
def contains (s : CachedSet) (key : String) : Bool := s.keys.contains key

/-- The type set without the kept text. -/
def view (s : CachedSet) : TypeSet := ⟨s.terms⟩

/-! ## Building sets -/

/-- The set without members. -/
def empty : CachedSet := ⟨[], none⟩

/-- A table with one more term, unless its spelling is in the table. -/
def enter (members : List (String × TypeTerm)) (t : TypeTerm) : List (String × TypeTerm) :=
  if (members.map (·.1)).contains t.render then members else members ++ [(t.render, t)]

/-- The set of some terms, entered one after the other. -/
def ofTerms (ts : List TypeTerm) : CachedSet := ⟨ts.foldl enter [], none⟩

/-- The set that a type expression denotes. -/
def parse (raw : String) : CachedSet :=
  ofTerms ((TypeExpr.alternatives raw.toList).map TypeTerm.ofChars)

/-- The union of two sets, the members of the first one in front. -/
def union (a b : CachedSet) : CachedSet := ofTerms (a.terms ++ b.terms)

/-- A set of its own with the members and the kept text of another one. -/
def copy (s : CachedSet) : CachedSet := { members := s.members, text := s.text }

/-- The set with `any` among its members.  A set that changes forgets its text. -/
def addAny (s : CachedSet) : CachedSet :=
  if s.contains anyName then s
  else { members := s.members ++ [(anyName, .basic anyName)], text := none }

/-! ## Comparing and writing -/

/-- Whether two sets have the same members, in any order. -/
def sameAs (a b : CachedSet) : Bool :=
  a.members.length == b.members.length && a.keys.all b.contains

/-- The spellings of the members, sorted, with ` | ` between them. -/
def written (s : CachedSet) : String := " | ".intercalate s.keys.mergeSort

/-- The text of a set, and the set that keeps it: a kept text is given as it is. -/
def render (s : CachedSet) : String × CachedSet :=
  let text := s.text.getD s.written
  (text, { s with text := some text })

end CachedSet

end ApiTypings
