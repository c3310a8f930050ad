/-
# Type sets

The type of a declared thing is a union of type terms.  Terms with one canonical spelling are one
member; the members keep the order in which they were first met, and the text of a set lists the
spellings in sorted order.

* `nodup_keys_ofTerms` : no spelling occurs twice in a set built from terms;
* `mem_keys_ofTerms` : the members of such a set are the terms it was built from;
* `mem_keys_union` : the members of a union are those of either set.
-/
import ApiTypings.TypeExpr.Term

namespace ApiTypings

/-- The type that accepts everything. -/
def anyName : String := "any"

/-- The type of a call without a value. -/
def voidName : String := "void"

/-- The type of the object a method is called on. -/
def thisName : String := "this"

/-- The first term of every spelling, in order. -/
def keepFirst : List TypeTerm → List TypeTerm
  | [] => []
  | t :: ts => t :: (keepFirst ts).filter (·.render ≠ t.render)

/-- A union of type terms, in the order of their first appearance. -/
structure TypeSet where
  /-- The alternatives. -/
  terms : List TypeTerm
  deriving Inhabited

namespace TypeSet

/-! ## Building sets -/

/-- The set without alternatives. -/
def empty : TypeSet := ⟨[]⟩

/-- The set of some terms. -/
def ofTerms (ts : List TypeTerm) : TypeSet := ⟨keepFirst ts⟩

/-- The set that a type expression denotes. -/
def parse (raw : String) : TypeSet :=
  ofTerms ((TypeExpr.alternatives raw.toList).map TypeTerm.ofChars)

/-- The set of one plain name. -/
def named (name : String) : TypeSet := ⟨[.basic name]⟩

/-- The union of two sets, the members of the first one in front. -/
def union (a b : TypeSet) : TypeSet := ofTerms (a.terms ++ b.terms)

/-! ## Members -/

/-- The canonical spellings of the members. -/
def keys (s : TypeSet) : List String := s.terms.map TypeTerm.render

/-- Whether some member has the given canonical spelling. -/
def contains (s : TypeSet) (key : String) : Bool := s.keys.contains key

/-- Whether the set is the one member of the given spelling. -/
def isOnly (s : TypeSet) (name : String) : Bool := s.terms.length == 1 && s.contains name

/-- Whether the set is just `any`. -/
def isAny (s : TypeSet) : Bool := s.isOnly anyName

/-- Whether the set is just `void`. -/
def isVoid (s : TypeSet) : Bool := s.isOnly voidName

/-- Whether the set is just `this`. -/
def isThis (s : TypeSet) : Bool := s.isOnly thisName

/-- Whether the set is one array term. -/
def isArray (s : TypeSet) : Bool :=
  match s.terms with
  | [t] => t.isArray
  | _ => false

/-- The name of a set that is one plain name. -/
def singleName? (s : TypeSet) : Option String :=
  match s.terms with
  | [t] => t.name?
  | _ => none

/-- The set with `any` among its members. -/
def addAny (s : TypeSet) : TypeSet :=
  if s.contains anyName then s else ⟨s.terms ++ [.basic anyName]⟩

/-- Whether two sets have the same members, in any order. -/
def sameAs (a b : TypeSet) : Bool :=
  a.terms.length == b.terms.length && a.keys.all b.contains

instance : BEq TypeSet := ⟨sameAs⟩

/-! ## Text -/

/-- The text of a set: the spellings, sorted, with ` | ` between them. -/
def render (s : TypeSet) : String := " | ".intercalate s.keys.mergeSort

/-- The text of a set where an array is required: the array itself, or the array of all members. -/
def renderAsArray (s : TypeSet) : String :=
  if s.isArray then s.render else (TypeTerm.array s.terms).render

/-! ## Spellings are distinct -/

/-- Keeping the first term of every spelling leaves no spelling twice. -/
theorem nodup_render_keepFirst (ts : List TypeTerm) :
    ((keepFirst ts).map TypeTerm.render).Nodup := by
  induction ts with
  | nil => simp [keepFirst]
  | cons t ts ih =>
    simp only [keepFirst, List.map_cons, List.nodup_cons]
    refine ⟨by simp, ?_⟩
    exact ih.sublist ((List.filter_sublist).map _)

/-- Keeping the first term of every spelling loses no spelling and adds none. -/
theorem mem_render_keepFirst {ts : List TypeTerm} {key : String} :
    key ∈ (keepFirst ts).map TypeTerm.render ↔ key ∈ ts.map TypeTerm.render := by
  induction ts with
  | nil => simp [keepFirst]
  | cons t ts ih =>
    by_cases h : key = t.render
    · simp [keepFirst, h]
    · simp only [keepFirst, List.map_cons, List.mem_cons, h, false_or, ← ih]
      simp only [List.mem_map, List.mem_filter]
      constructor
      · rintro ⟨u, ⟨hu, -⟩, rfl⟩
        exact ⟨u, hu, rfl⟩
      · rintro ⟨u, hu, rfl⟩
        exact ⟨u, ⟨hu, by simpa using h⟩, rfl⟩

/-- No spelling occurs twice in a set built from terms. -/
theorem nodup_keys_ofTerms (ts : List TypeTerm) : (ofTerms ts).keys.Nodup :=
  nodup_render_keepFirst ts

/-- The members of a set built from terms are these terms. -/
theorem mem_keys_ofTerms {ts : List TypeTerm} {key : String} :
    key ∈ (ofTerms ts).keys ↔ key ∈ ts.map TypeTerm.render :=
  mem_render_keepFirst

/-- The members of a union are those of either set. -/
theorem mem_keys_union {a b : TypeSet} {key : String} :
    key ∈ (a.union b).keys ↔ key ∈ a.keys ∨ key ∈ b.keys := by
  rw [union, mem_keys_ofTerms, List.map_append, List.mem_append]
  rfl

theorem nodup_keys_union (a b : TypeSet) : (a.union b).keys.Nodup := nodup_keys_ofTerms _

end TypeSet

end ApiTypings
