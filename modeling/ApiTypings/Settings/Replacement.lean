/-
# Replacing type names

Every alternative of a documented type is looked up in the table of replacements.  The suffix `[]`
is no part of the name looked up and is put back.

Names under `jQuery.` mean values.  Outside `jQuery` such a name becomes the type of that value;
inside, it becomes the name of the interface generated for it.
-/
import ApiTypings.Settings.Basic
import ApiTypings.Text.Uppercase
import ApiTypings.TypeExpr.Alternatives

namespace ApiTypings

/-! ## Names under `jQuery` -/

/-- How names of members of `jQuery` begin. -/
def jQueryStart : String := "jQuery."

/-- The interface generated for a member of `jQuery`: the segments, each with its first letter in
uppercase, without the dots. -/
def jQueryInterface (fullName : String) : String :=
  if fullName = "jQuery" then "JQueryStatic"
  else .ofList ((Text.cut (· == '.') fullName.toList).map Text.capitalized).flatten

/-- The name by which a type refers to `name` in the declaration of `owner`. -/
def referenceTo (name owner : String) : String :=
  if !Text.beginsWith jQueryStart name then name
  else if Text.beginsWith jQueryStart owner then jQueryInterface name
  else "typeof " ++ name

/-! ## Replacing alternatives -/

namespace Replacements

/-- The replacement of one name. -/
def replaceName (r : Replacements) (name owner : String) : String :=
  referenceTo ((r.everywhere.get? name).getD name) owner

/-- The replacement of one alternative; a suffix `[]` is kept. -/
def replaceAlternative (r : Replacements) (owner : String) (term : List Char) : List Char :=
  match Text.stripSuffix? "[]".toList term with
  | some element => (r.replaceName (.ofList element) owner).toList ++ "[]".toList
  | none => (r.replaceName (.ofList term) owner).toList

/-- The type `raw` of the declaration `owner`, every alternative replaced. -/
def replaceTypes (r : Replacements) (raw owner : String) : String :=
  .ofList (['|'].intercalate
    ((TypeExpr.alternatives raw.toList).map (r.replaceAlternative owner)))

end Replacements

end ApiTypings
