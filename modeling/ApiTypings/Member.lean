/-
# Members of a class

The order of the members of a class: static members first, then by visibility, then the
constructor, then by name.  Members of namespaces, interfaces, enums and typedefs keep the order
of the documentation.

* `precedes_total`, `precedes_trans` : the order is total and transitive, so sorting by it gives
  one result.
-/
import ApiTypings.Symbol

namespace ApiTypings

/-- What the order of members looks at. -/
structure MemberKey where
  isStatic : Bool
  visibility : Visibility
  name : String
  deriving DecidableEq

namespace MemberKey

/-- Whether the member has the name of a constructor. -/
def isConstructor (k : MemberKey) : Bool := k.name == constructorName

/-- Whether the first member may stand in front of the second. -/
def precedes (a b : MemberKey) : Bool :=
  if a.isStatic ≠ b.isStatic then a.isStatic
  else if a.visibility.rank ≠ b.visibility.rank then a.visibility.rank < b.visibility.rank
  else if a.isConstructor ≠ b.isConstructor then a.isConstructor
  else a.name ≤ b.name

/-- Of two members one may stand in front of the other. -/
theorem precedes_total (a b : MemberKey) : (a.precedes b || b.precedes a) = true := by
  unfold precedes
  by_cases h1 : a.isStatic = b.isStatic
  · by_cases h2 : a.visibility.rank = b.visibility.rank
    · by_cases h3 : a.isConstructor = b.isConstructor
      · simp [h1, h2, h3, String.le_total]
      · cases ha : a.isConstructor <;> cases hb : b.isConstructor <;> simp_all
    · rcases Nat.lt_or_gt_of_ne h2 with h | h
      · simp [h1, h2, h]
      · simp [h1, h2, Ne.symm h2, h]
  · cases ha : a.isStatic <;> cases hb : b.isStatic <;> simp_all

/-- The order is transitive. -/
theorem precedes_trans (a b c : MemberKey) (hab : a.precedes b = true) (hbc : b.precedes c = true) :
    a.precedes c = true := by
  unfold precedes at *
  by_cases h1 : a.isStatic = b.isStatic <;> by_cases h1' : b.isStatic = c.isStatic
  · by_cases h2 : a.visibility.rank = b.visibility.rank <;>
      by_cases h2' : b.visibility.rank = c.visibility.rank
    · by_cases h3 : a.isConstructor = b.isConstructor <;>
        by_cases h3' : b.isConstructor = c.isConstructor
      · simp only [h1, h1', h2, h2', h3, h3', ne_eq, not_true_eq_false, if_false,
          decide_eq_true_eq] at hab hbc ⊢
        exact String.le_trans hab hbc
      · cases ha : a.isConstructor <;> cases hb : b.isConstructor <;> cases hc : c.isConstructor <;>
          simp_all
      · cases ha : a.isConstructor <;> cases hb : b.isConstructor <;> cases hc : c.isConstructor <;>
          simp_all
      · cases ha : a.isConstructor <;> cases hb : b.isConstructor <;> cases hc : c.isConstructor <;>
          simp_all
    · simp_all
    · simp_all
    · simp_all
      have : a.visibility.rank ≠ c.visibility.rank := by omega
      simp [this]
      omega
  · cases ha : a.isStatic <;> cases hb : b.isStatic <;> cases hc : c.isStatic <;> simp_all
  · cases ha : a.isStatic <;> cases hb : b.isStatic <;> cases hc : c.isStatic <;> simp_all
  · cases ha : a.isStatic <;> cases hb : b.isStatic <;> cases hc : c.isStatic <;> simp_all

end MemberKey

/-- Members in the order of their keys; members with equal keys keep their order. -/
def sortMembers {α : Type} (key : α → MemberKey) (members : List α) : List α :=
  members.mergeSort (fun a b => (key a).precedes (key b))

/-- What stands in front of a member of a class: its visibility and whether it is static. -/
def classModifiers (visibility : Visibility) (isStatic : Bool) : String :=
  visibility.keyword ++ " " ++ (if isStatic then "static " else "")

end ApiTypings
