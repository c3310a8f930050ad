/-
# Overrides

TypeScript compares a method with the one that it overrides.  Documentation does not always agree
with itself across a hierarchy, so every method is brought in line with the nearest method of its
name and staticness in a class above: its return type and visibility may change, and a method that
only repeats the one above is ignored.

Classes are treated from the top down, each one in its place in the forest, so a change to a class
is seen by the classes below it.  Classes on a cycle of base classes, and those below one, are left
alone.

* `get?_set` : what a table of methods gives back after a change.
-/
import ApiTypings.Hierarchy.ClassIndex

namespace ApiTypings

/-! ## Tables of methods -/

/-- The methods of the classes of a forest, by full name. -/
abbrev MethodTable := List (String × List Method)

namespace MethodTable

/-- The methods of a class. -/
def get? (t : MethodTable) (name : String) : Option (List Method) := t.lookup name

/-- The table with other methods for a class. -/
def set (t : MethodTable) (name : String) (methods : List Method) : MethodTable :=
  t.map fun entry => if entry.1 = name then (entry.1, methods) else entry

/-- What a table of methods gives back after a change. -/
theorem get?_set (t : MethodTable) (name : String) (methods : List Method) (other : String) :
    (t.set name methods).get? other
      = if other = name then (t.get? other).map fun _ => methods else t.get? other := by
  induction t with
  | nil => simp [get?, set]
  | cons entry t ih =>
    obtain ⟨n, ms⟩ := entry
    simp only [get?, set, List.map_cons] at ih ⊢
    by_cases hn : n = name
    · subst hn
      by_cases ho : other = n
      · subst ho
        rw [if_pos rfl, if_pos rfl, List.lookup_cons_self, List.lookup_cons_self, Option.map_some]
      · rw [if_pos rfl, List.lookup_cons, beq_eq_false_iff_ne.2 ho, ih, if_neg ho, if_neg ho,
          List.lookup_cons, beq_eq_false_iff_ne.2 ho]
    · rw [if_neg hn]
      by_cases ho : other = n
      · subst ho
        rw [if_neg hn, List.lookup_cons_self, List.lookup_cons_self]
      · rw [List.lookup_cons, beq_eq_false_iff_ne.2 ho, List.lookup_cons,
          beq_eq_false_iff_ne.2 ho, ih]

end MethodTable

namespace Forest

/-- The methods of all classes. -/
def methodTable (forest : Forest) : MethodTable :=
  forest.classes.map fun c => (c.fullName, c.body.methods)

/-- The forest with the methods of a table in its classes. -/
def withMethods (forest : Forest) (t : MethodTable) : Forest :=
  forest.mapClasses fun c => { c.body with methods := (t.get? c.fullName).getD c.body.methods }

end Forest

/-! ## The method that is overridden -/

/-- Whether `base` is a method of the same name and staticness, and no constructor. -/
def Method.canOverride (m base : Method) : Bool :=
  !base.isConstructor && base.name == m.name && base.isStatic == m.isStatic

namespace ClassIndex

/-- The nearest class above with a method of the same name and staticness, and that method. -/
def overridden? (i : ClassIndex) (t : MethodTable) (name : String) (m : Method) :
    Option (String × Method) :=
  (i.ancestors name).findSome? fun ancestor =>
    ((t.get? ancestor).bind (·.find? m.canOverride)).map (ancestor, ·)

/-! ## Bringing one method in line -/

/-- Whether a return type may stand in an override: it is the same, the overridden method returns
nothing, it is `any` or `this`, or it is a class below the class that was returned. -/
def returnsCompatible (i : ClassIndex) (ours theirs : TypeSet) : Bool :=
  ours == theirs || theirs.isVoid || ours.isAny || ours.isThis ||
    match ours.singleName?, theirs.singleName? with
    | some ours, some theirs => i.descendsFrom ours theirs
    | _, _ => false

end ClassIndex

/-- The changes to a method that overrides another. -/
structure Reconciliation where
  /-- Other return types. -/
  returnTypes : Option TypeSet
  /-- Whether the method becomes public. -/
  promote : Bool
  /-- Whether the method only repeats the other. -/
  ignore : Bool

namespace Reconciliation

/-- No change. -/
def unchanged : Reconciliation := ⟨none, false, false⟩

/-- The method after the changes. -/
def applyTo (r : Reconciliation) (m : Method) : Method :=
  { m with
    returnTypes := r.returnTypes.getD m.returnTypes
    visibility := if r.promote then .publicMember else m.visibility
    ignore := m.ignore || r.ignore }

end Reconciliation

namespace ClassIndex

/-- The return types that the overridden method asks for: its own, where a method that returns the
class it belongs to asks for the class below. -/
def requiredReturn (name ancestor : String) (base : Method) : TypeSet :=
  if base.returnTypes.render == ancestor then .parse name else base.returnTypes

/-- The return types that replace those of an override, if they have to be replaced.  They are
never replaced by `any`. -/
def replacedReturn? (i : ClassIndex) (name : String) (m : Method) (ancestor : String)
    (base : Method) : Option TypeSet :=
  if i.returnsCompatible m.returnTypes base.returnTypes || m.returnTypes.isThis then none
  else if (requiredReturn name ancestor base).render == anyName then none
  else some (requiredReturn name ancestor base)

/-- The changes to the method `m` of the class `name` that overrides `base` of `ancestor`. -/
def reconcile (i : ClassIndex) (name : String) (m : Method) (ancestor : String) (base : Method) :
    Reconciliation :=
  let returnTypes := i.replacedReturn? name m ancestor base
  { returnTypes
    promote := base.visibility == .publicMember && m.visibility != .publicMember
    ignore := !m.isStatic && m.isIdenticalTo base (returnTypes.getD m.returnTypes) }

/-- The changes to a method of a class, against the method it overrides; a constructor overrides
nothing. -/
def reconcileMethod (i : ClassIndex) (t : MethodTable) (name : String) (m : Method) :
    Reconciliation :=
  if m.isConstructor then .unchanged
  else
    match i.overridden? t name m with
    | none => .unchanged
    | some (ancestor, base) => i.reconcile name m ancestor base

/-! ## Bringing all methods in line -/

/-- The methods of a class, brought in line with a table. -/
def alignedMethods (i : ClassIndex) (t : MethodTable) (name : String) (methods : List Method) :
    List Method :=
  methods.map fun m => (i.reconcileMethod t name m).applyTo m

/-- The table after the methods of one class were brought in line. -/
def reconcileClass (i : ClassIndex) (t : MethodTable) (name : String) : MethodTable :=
  match t.get? name with
  | none => t
  | some methods => t.set name (i.alignedMethods t name methods)

/-- The table after all methods below the top were brought in line. -/
def reconcileAll (i : ClassIndex) (t : MethodTable) : MethodTable :=
  i.topDown.foldl i.reconcileClass t

/-- The methods of the classes above a class, as they stand in a forest. -/
def methodsAbove (i : ClassIndex) (forest : Forest) (name : String) : MethodTable :=
  (i.ancestors name).filterMap fun a => (i.class? forest a).map fun c => (a, c.body.methods)

end ClassIndex

namespace Forest

/-- The forest after the methods of one class were brought in line, in their place.  What the index
does not find is left alone. -/
def reconcileClass (forest : Forest) (i : ClassIndex) (name : String) : Forest :=
  match i.class? forest name with
  | none => forest
  | some c =>
    let methods := i.alignedMethods (i.methodsAbove forest name) name c.body.methods
    (i.changeClass? forest name fun body => { body with methods }).getD forest

/-- The forest with all overrides brought in line. -/
def reconcileOverrides (forest : Forest) (i : ClassIndex) : Forest :=
  i.topDown.foldl (·.reconcileClass i) forest

end Forest

end ApiTypings
