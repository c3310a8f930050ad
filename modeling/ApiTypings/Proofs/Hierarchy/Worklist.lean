/-
# The worklist of the reconciler

Overrides are brought in line by a loop over a stack of classes.  It takes a class from the top, and
unless the class was visited before, changes its methods in place and puts its subclasses on top.
Each class it changes is one step further down the walk from the top, so the loop comes to an end on
every forest, with the forest that has all its overrides brought in line.

* `runs_walkDown` : from any stack the loop follows the walk down, and halts;
* `runs_start` : the whole loop.
-/
import ApiTypings.Proofs.Hierarchy.Reconciled

namespace ApiTypings

variable {forest : Forest} {i : ClassIndex}

/-! ## The loop -/

/-- A state of the loop. -/
structure Worklist where
  forest : Forest
  /-- The classes that were visited. -/
  visited : List String
  /-- The stack, its top first. -/
  todo : List String

namespace Worklist

/-- The first state of the loop: the classes at the top are to do. -/
def start (forest : Forest) (i : ClassIndex) : Worklist := ⟨forest, [], i.roots⟩

/-- One step of the loop.  It halts when nothing is to do. -/
def step? (i : ClassIndex) (w : Worklist) : Option Worklist :=
  match w.todo with
  | [] => none
  | name :: todo =>
    if name ∈ w.visited then some { w with todo }
    else some ⟨w.forest.reconcileClass i name, name :: w.visited, i.subclasses name ++ todo⟩

/-- The loop goes from one state to the other. -/
def Runs (i : ClassIndex) : Worklist → Worklist → Prop :=
  Relation.ReflTransGen fun w w' => step? i w = some w'

theorem step?_of_mem {visited todo : List String} {name : String} (h : name ∈ visited) :
    step? i ⟨forest, visited, name :: todo⟩ = some ⟨forest, visited, todo⟩ := if_pos h

theorem step?_of_not_mem {visited todo : List String} {name : String} (h : name ∉ visited) :
    step? i ⟨forest, visited, name :: todo⟩
      = some ⟨forest.reconcileClass i name, name :: visited, i.subclasses name ++ todo⟩ := if_neg h

/-- The loop follows the walk down, and halts where the walk ends. -/
theorem runs_walkDown (hnd : i.names.Nodup) (forest : Forest) {visited todo : List String}
    (htodo : ∀ x ∈ todo, x ∈ i.names) :
    Runs i ⟨forest, visited, todo⟩
      ⟨(i.walkDown visited todo).foldl (·.reconcileClass i) forest,
        (i.walkDown visited todo).reverse ++ visited, []⟩ := by
  induction visited, todo using ClassIndex.walkDown.induct i generalizing forest with
  | case1 visited =>
    rw [ClassIndex.walkDown]
    exact Relation.ReflTransGen.refl
  | case2 visited name todo hskip ih =>
    rw [List.forall_mem_cons] at htodo
    rw [ClassIndex.walkDown_of_skip hskip]
    -- only classes of the index are ever to do, so this one was visited
    have hmem : name ∈ visited := hskip.resolve_right fun hnot => hnot htodo.1
    exact Relation.ReflTransGen.head (step?_of_mem hmem) (ih forest htodo.2)
  | case3 visited name todo hvisit ih =>
    rw [List.forall_mem_cons] at htodo
    have hnew : name ∉ visited := fun hmem => hvisit (.inl hmem)
    have htodo' : ∀ x ∈ i.subclasses name ++ todo, x ∈ i.names := by
      intro x hx
      rcases List.mem_append.1 hx with hx | hx
      · exact ClassIndex.mem_names_of_baseOf ((ClassIndex.mem_subclasses hnd).1 hx)
      · exact htodo.2 x hx
    refine Relation.ReflTransGen.head (step?_of_not_mem hnew) ?_
    rw [ClassIndex.walkDown_of_visit hvisit, List.foldl_cons, List.reverse_cons,
      List.append_assoc]
    exact ih (forest.reconcileClass i name) htodo'

/-- **The loop halts** on every forest, cyclic or not.  It has visited the classes of the walk from
the top, each one once, and all overrides are brought in line. -/
theorem runs_start (hi : ClassIndex.ofForest forest = .ok i) :
    Runs i (start forest i) ⟨forest.reconcileOverrides i, i.topDown.reverse, []⟩ := by
  have hnd := ClassIndex.nodup_names hi
  have hruns : Runs i ⟨forest, [], i.roots⟩ _ :=
    runs_walkDown hnd forest fun x hx => ((ClassIndex.mem_roots hnd).1 hx).1
  rw [List.append_nil] at hruns
  exact hruns

end Worklist

end ApiTypings
