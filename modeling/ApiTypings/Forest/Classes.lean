/-
# Declarations in a forest

A forest is a list of declarations with all that is nested in them.  This file lists the
declarations and the classes of a forest in the order in which they are written, and changes
classes: all of them, or the one at the end of a way down.

* `classes_mapClasses` : the classes of a changed forest are the changed classes.
-/
import ApiTypings.Declaration.Basic

namespace ApiTypings

/-- The root declarations, with all that is nested in them. -/
abbrev Forest := List Declaration

/-- A class of a forest. -/
structure ClassDecl where
  fullName : String
  body : ClassBody
  deriving Inhabited

/-- The way down to a declaration: the number of a root, then that of a child, and so on. -/
abbrev Position := List Nat

namespace Declaration

/-! ## Listing -/

/-- The class that a declaration itself is, if it is one. -/
def ownClass (header : Header) (body : Body) : List ClassDecl :=
  body.class?.toList.map fun c => ⟨header.fullName, c⟩

mutual

/-- The declaration and all that is nested in it, outer ones first. -/
def nodes : Declaration → List Declaration
  | node h b cs => node h b cs :: nodesAll cs

/-- All declarations of a list, outer ones first. -/
def nodesAll : List Declaration → List Declaration
  | [] => []
  | d :: ds => nodes d ++ nodesAll ds

end

mutual

/-- The classes in a declaration, outer ones first. -/
def classes : Declaration → List ClassDecl
  | node h b cs => ownClass h b ++ classesAll cs

/-- The classes in a list of declarations, outer ones first. -/
def classesAll : List Declaration → List ClassDecl
  | [] => []
  | d :: ds => classes d ++ classesAll ds

end

/-! ## Changing classes -/

/-- A body with a change made to it if it is a class. -/
def changeClass (f : ClassDecl → ClassBody) (fullName : String) : Body → Body
  | .ofClass c => .ofClass (f ⟨fullName, c⟩)
  | b => b

mutual

/-- The declaration with every class in it changed. -/
def mapClasses (f : ClassDecl → ClassBody) : Declaration → Declaration
  | node h b cs => node h (changeClass f h.fullName b) (mapClassesAll f cs)

/-- The declarations with every class in them changed. -/
def mapClassesAll (f : ClassDecl → ClassBody) : List Declaration → List Declaration
  | [] => []
  | d :: ds => mapClasses f d :: mapClassesAll f ds

end

/-- The class that a declaration itself is, after a change. -/
theorem ownClass_changeClass (f : ClassDecl → ClassBody) (h : Header) (b : Body) :
    ownClass h (changeClass f h.fullName b)
      = (ownClass h b).map fun c => ⟨c.fullName, f c⟩ := by
  cases b <;> simp [ownClass, changeClass, Body.class?]

mutual

/-- The classes of a changed declaration are the changed classes. -/
theorem classes_mapClasses (f : ClassDecl → ClassBody) :
    ∀ d : Declaration, (mapClasses f d).classes = d.classes.map fun c => ⟨c.fullName, f c⟩
  | node h b cs => by
    simp [mapClasses, classes, ownClass_changeClass, classesAll_mapClassesAll f cs]

/-- The classes of changed declarations are the changed classes. -/
theorem classesAll_mapClassesAll (f : ClassDecl → ClassBody) :
    ∀ ds : List Declaration,
      classesAll (mapClassesAll f ds) = (classesAll ds).map fun c => ⟨c.fullName, f c⟩
  | [] => rfl
  | d :: ds => by
    simp [mapClassesAll, classesAll, classes_mapClasses f d, classesAll_mapClassesAll f ds]

end

/-! ## Going down -/

/-- The declaration at a position inside another one. -/
def at? : Position → Declaration → Option Declaration
  | [], d => some d
  | k :: p, d => d.children[k]?.bind (at? p)

/-- The class that a declaration is, if it is one. -/
def class? (d : Declaration) : Option ClassDecl := d.body.class?.map (⟨d.fullName, ·⟩)

/-- The class at a position inside a declaration, if there is a class. -/
def classAt? (p : Position) (d : Declaration) : Option ClassDecl := (at? p d).bind class?

/-- The declaration with a change made to the class that it is, if it is one. -/
def changeOwn? (f : ClassBody → ClassBody) : Declaration → Option Declaration
  | node h (.ofClass c) cs => some (node h (.ofClass (f c)) cs)
  | _ => none

/-- The declaration with a change made to the class at a position, if there is a class. -/
def changeAt? (f : ClassBody → ClassBody) : Position → Declaration → Option Declaration
  | [], d => changeOwn? f d
  | k :: p, node h b cs => do
    let changed ← cs[k]?.bind (changeAt? f p)
    return node h b (cs.set k changed)

end Declaration

namespace Forest

/-- The declarations of a forest, outer ones first. -/
def nodes (forest : Forest) : List Declaration := Declaration.nodesAll forest

/-- The classes of a forest, outer ones first. -/
def classes (forest : Forest) : List ClassDecl := Declaration.classesAll forest

/-- The class at a position, if there is a class.  No position is above the roots. -/
def classAt? (forest : Forest) : Position → Option ClassDecl
  | [] => none
  | k :: p => forest[k]?.bind (Declaration.classAt? p)

/-- The forest with a change made to the class at a position, if there is a class. -/
def changeAt? (f : ClassBody → ClassBody) (forest : Forest) : Position → Option Forest
  | [] => none
  | k :: p => do
    let changed ← forest[k]?.bind (Declaration.changeAt? f p)
    return forest.set k changed

/-- The forest with every class changed. -/
def mapClasses (forest : Forest) (f : ClassDecl → ClassBody) : Forest :=
  Declaration.mapClassesAll f forest

/-- The classes of a changed forest are the changed classes. -/
theorem classes_mapClasses (forest : Forest) (f : ClassDecl → ClassBody) :
    (forest.mapClasses f).classes = forest.classes.map fun c => ⟨c.fullName, f c⟩ :=
  Declaration.classesAll_mapClassesAll f forest

end Forest

end ApiTypings
