/-
# Tables and sets of dotted names

Settings speak about documented things by their full name, or by `*.` and the last part of a name,
which stands for every thing of that name.  A full name wins over a wildcard.
-/
import ApiTypings.Dotted

namespace ApiTypings

/-- Values for dotted names and wildcards. -/
structure NameTable (α : Type) where
  /-- The entries, one per key. -/
  entries : List (String × α) := []
  deriving Inhabited

namespace NameTable

variable {α : Type}

/-- The value under exactly this key. -/
def get? (t : NameTable α) (key : String) : Option α := t.entries.lookup key

/-- The value for a name: under the full name, else under the wildcard of its last part. -/
def lookup (t : NameTable α) (fullName basename : String) : Option α :=
  (t.get? fullName).or (t.get? (Dotted.wildcard basename))

/-- The value for a parameter: under its full name, else under the wildcard of method and
parameter, else under the wildcard of the parameter alone. -/
def lookupParameter (t : NameTable α) (fullName method parameter : String) : Option α :=
  ((t.get? fullName).or (t.get? (Dotted.wildcard (Dotted.member method parameter)))).or
    (t.get? (Dotted.wildcard parameter))

end NameTable

/-- A set of dotted names and wildcards. -/
structure NameSet where
  /-- The keys, in any order. -/
  keys : List String := []
  deriving Inhabited

namespace NameSet

/-- Whether exactly this key is in the set. -/
def has (s : NameSet) (key : String) : Bool := s.keys.contains key

/-- Whether the set speaks about a name: by the full name or by the wildcard of its last part. -/
def matchesName (s : NameSet) (fullName basename : String) : Bool :=
  s.has fullName || s.has (Dotted.wildcard basename)

/-- Whether the set speaks about a parameter: by its full name, by the wildcard of method and
parameter, or by the wildcard of the parameter alone. -/
def matchesParameter (s : NameSet) (fullName method parameter : String) : Bool :=
  s.has fullName || s.has (Dotted.wildcard (Dotted.member method parameter))
    || s.has (Dotted.wildcard parameter)

/-- The keys in sorted order, each one once. -/
def sorted (s : NameSet) : List String := s.keys.eraseDups.mergeSort

end NameSet

end ApiTypings
