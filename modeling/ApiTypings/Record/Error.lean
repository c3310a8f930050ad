/-
# Mistakes in records

What can be wrong with a text that should hold records: it may have a mistake of form, or its
content may not fit.  Every cause is a constructor of `RecordError`; `message` is its wording.
-/
import ApiTypings.Json.Basic

namespace ApiTypings

/-- What was expected in some place. -/
inductive Expected where
  | string
  | boolean
  | sequence
  /-- Values under names. -/
  | map
  /-- Nothing beside the name of a variant. -/
  | unit
  /-- A variant, as a string or as an object. -/
  | stringOrMap
  /-- A record of the given title. -/
  | record (title : String)
  deriving DecidableEq, Repr

/-- The wording of an expectation. -/
def Expected.word : Expected → String
  | string => "a string"
  | boolean => "a boolean"
  | sequence => "a sequence"
  | map => "a map"
  | unit => "unit"
  | stringOrMap => "string or map"
  | record title => "struct " ++ title

/-- Why a record cannot be read. -/
inductive RecordError where
  /-- The text has a mistake of form. -/
  | malformed
  | missingField (name : String)
  | duplicateField (name : String)
  | unknownVariant (name : String) (variants : List String)
  /-- A value of another kind than expected; `found` describes it. -/
  | wrongType (found : String) (expected : Expected)
  /-- A list of fields ends before a field that is needed. -/
  | tooShort (length : Nat) (title : String) (fields : Nat)
  /-- A list of fields goes on behind the last field. -/
  | tooLong (length : Nat)
  /-- A variant given as an object that has not exactly one field. -/
  | notOneKey
  deriving DecidableEq, Repr

namespace RecordError

/-- The names of variants in a message. -/
def listVariants (variants : List String) : String :=
  ", ".intercalate (variants.map fun v => "`" ++ v ++ "`")

/-- The wording of a mistake; a mistake of form has none. -/
def message : RecordError → Option String
  | malformed => none
  | missingField name => some ("missing field `" ++ name ++ "`")
  | duplicateField name => some ("duplicate field `" ++ name ++ "`")
  | unknownVariant name variants =>
    some ("unknown variant `" ++ name ++ "`, expected one of " ++ listVariants variants)
  | wrongType found expected =>
    some ("invalid type: " ++ found ++ ", expected " ++ expected.word)
  | tooShort length title fields =>
    some ("invalid length " ++ toString length ++ ", expected struct " ++ title ++ " with "
      ++ toString fields ++ (if fields = 1 then " element" else " elements"))
  | tooLong length =>
    some ("invalid length " ++ toString length ++ ", expected fewer elements in array")
  | notOneKey => some "invalid value: map, expected map with a single key"

end RecordError

end ApiTypings
