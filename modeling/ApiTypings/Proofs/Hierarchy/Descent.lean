/-
# Looking for a class above another one

A class descends from another one when base classes lead there.  The search follows the base classes
and compares one name after the other.  Documentation may declare a class to be above itself, so the
names on the way are remembered, and a name that comes up again ends the search.

All remembered names have been compared.  So nothing is missed when the search ends at one of them,
also where a chain enters a cycle behind its first classes: what lies behind that name has been
compared as well.

* `climbs_chainFrom` : the search ends, and finds what the walk up finds;
* `Climbs.unique` : it ends in one way;
* `descendsFrom_iff_reaches` : it finds the classes that can be reached, and no others.
-/
import ApiTypings.Proofs.Hierarchy.Chain

namespace ApiTypings.ClassIndex

variable {i : ClassIndex} {ancestor : String}

/-! ## The search, turn by turn -/

/-- The search for `ancestor` among a name and its base classes, when the names `visited` have been
compared: it ends with an answer after some turns, where one turn looks at one name. -/
inductive Climbs (i : ClassIndex) (ancestor : String) :
    List String → Option String → Nat → Bool → Prop where
  /-- There is no base class left. -/
  | top {visited : List String} : Climbs i ancestor visited none 0 false
  /-- The class is met. -/
  | met {visited : List String} : Climbs i ancestor visited (some ancestor) 1 true
  /-- A name comes up again. -/
  | again {visited : List String} {name : String} (hne : name ≠ ancestor)
      (hmem : name ∈ visited) : Climbs i ancestor visited (some name) 1 false
  /-- The search goes on at the base class. -/
  | up {visited : List String} {name : String} {turns : Nat} {answer : Bool}
      (hne : name ≠ ancestor) (hnew : name ∉ visited)
      (h : Climbs i ancestor (name :: visited) (i.baseOf? name) turns answer) :
      Climbs i ancestor visited (some name) (turns + 1) answer

/-- The search ends in one way. -/
theorem Climbs.unique {visited : List String} {current : Option String} {turns turns' : Nat}
    {answer answer' : Bool} (h : i.Climbs ancestor visited current turns answer)
    (h' : i.Climbs ancestor visited current turns' answer') :
    turns = turns' ∧ answer = answer' := by
  induction h generalizing turns' with
  | top =>
    cases h'
    exact ⟨rfl, rfl⟩
  | met =>
    cases h' with
    | met => exact ⟨rfl, rfl⟩
    | again hne _ => exact absurd rfl hne
    | up hne _ _ => exact absurd rfl hne
  | again hne hmem =>
    cases h' with
    | met => exact absurd rfl hne
    | again _ _ => exact ⟨rfl, rfl⟩
    | up _ hnew _ => exact absurd hmem hnew
  | up hne hnew _ ih =>
    cases h' with
    | met => exact absurd rfl hne
    | again _ hmem => exact absurd hmem hnew
    | up _ _ hrest =>
      obtain ⟨rfl, rfl⟩ := ih hrest
      exact ⟨rfl, rfl⟩

/-- The search ends, after no more turns than there are classes to visit and one more, and it finds
what the walk up finds.  The compared names do not have the class that is looked for among them: it
would have ended the search. -/
theorem climbs_chainFrom {visited : List String} {name : String} (h : ancestor ∉ visited) :
    ∃ turns ≤ i.unvisited visited + 1, i.Climbs ancestor visited (some name) turns
      ((i.chainFrom visited name).contains ancestor) := by
  induction visited, name using chainFrom.induct i with
  | case1 visited name hmem =>
    have hne : name ≠ ancestor := fun heq => h (heq ▸ hmem)
    rw [chainFrom_of_mem hmem]
    exact ⟨1, Nat.le_add_left 1 _, .again hne hmem⟩
  | case2 visited name hnew hb =>
    rw [chainFrom_of_none hnew hb]
    by_cases heq : name = ancestor
    · subst heq
      rw [List.contains_cons, beq_self_eq_true, Bool.true_or]
      exact ⟨1, Nat.le_add_left 1 _, .met⟩
    · have hanswer : [name].contains ancestor = false := by simpa using Ne.symm heq
      rw [hanswer]
      exact ⟨1, Nat.le_add_left 1 _, .up heq hnew (hb ▸ .top)⟩
  | case3 visited name hnew base hb ih =>
    rw [chainFrom_of_base hnew hb, List.contains_cons]
    by_cases heq : name = ancestor
    · subst heq
      rw [beq_self_eq_true, Bool.true_or]
      exact ⟨1, Nat.le_add_left 1 _, .met⟩
    · have hrest : ancestor ∉ name :: visited := by
        rw [List.mem_cons, not_or]
        exact ⟨Ne.symm heq, h⟩
      obtain ⟨turns, hturns, hclimbs⟩ := ih hrest
      have hfewer := unvisited_lt (mem_names_of_baseOf hb) hnew
      rw [beq_eq_false_iff_ne.2 (Ne.symm heq), Bool.false_or]
      exact ⟨turns + 1, by omega, .up heq hnew (hb ▸ hclimbs)⟩

/-! ## Descending -/

/-- **Descending from a class.**  The search for a class above another one comes to an end, in one
way and after no more turns than there are classes and one more, and its answer is whether the class
can be reached by following base classes zero or more times.  So every class descends from itself,
and from what the classes that it descends from descend from. -/
theorem descendsFrom_iff_reaches (i : ClassIndex) :
    (∀ name ancestor, ∃ turns ≤ i.size + 1, ∀ n answer,
      i.Climbs ancestor [] (some name) n answer ↔
        n = turns ∧ answer = i.descendsFrom name ancestor) ∧
    (∀ name ancestor, i.descendsFrom name ancestor = true ↔ i.Reaches name ancestor) ∧
    (∀ name, i.descendsFrom name name = true) ∧
    ∀ a b c, i.descendsFrom a b = true → i.descendsFrom b c = true →
      i.descendsFrom a c = true := by
  refine ⟨?_, fun _ _ => descendsFrom_iff, ?_, ?_⟩
  · intro name ancestor
    obtain ⟨turns, hturns, hclimbs⟩ : ∃ turns ≤ i.unvisited [] + 1,
        i.Climbs ancestor [] (some name) turns ((i.chainFrom [] name).contains ancestor) :=
      climbs_chainFrom List.not_mem_nil
    have hsize : i.unvisited [] = i.size := by simp [unvisited, size, names]
    refine ⟨turns, by omega, ?_⟩
    intro n answer
    constructor
    · intro h
      exact h.unique hclimbs
    · rintro ⟨rfl, rfl⟩
      exact hclimbs
  · intro name
    exact descendsFrom_iff.2 (Reaches.refl name)
  · intro a b c hab hbc
    rw [descendsFrom_iff] at *
    exact hab.trans hbc

/-- Two classes above each other, a class below them, and one below a class outside the index. -/
def cycleIndex : ClassIndex :=
  ⟨[⟨"x.A", some "x.B", [0, 0]⟩, ⟨"x.B", some "x.A", [0, 1]⟩, ⟨"x.Leaf", some "x.A", [0, 2]⟩,
    ⟨"x.Top", some "y.Base", [0, 3]⟩]⟩

/-- From below a cycle the search goes all the way round, and out of the index. -/
theorem descendsFrom_iff_reaches_cycleIndex :
    cycleIndex.descendsFrom "x.Leaf" "x.A" = true ∧ cycleIndex.descendsFrom "x.A" "x.B" = true ∧
      cycleIndex.descendsFrom "x.Leaf" "x.B" = true ∧ cycleIndex.Reaches "x.Leaf" "x.B" ∧
      cycleIndex.descendsFrom "x.Top" "y.Base" = true ∧ ¬ cycleIndex.Reaches "x.A" "x.Leaf" := by
  obtain ⟨-, hreaches, -, htrans⟩ := descendsFrom_iff_reaches cycleIndex
  have hbelow : cycleIndex.descendsFrom "x.Leaf" "x.A" = true := by decide +kernel
  have hring : cycleIndex.descendsFrom "x.A" "x.B" = true := by decide +kernel
  have hleaf := htrans _ _ _ hbelow hring
  refine ⟨hbelow, hring, hleaf, (hreaches _ _).1 hleaf, by decide +kernel, ?_⟩
  rw [← hreaches]
  decide +kernel

end ApiTypings.ClassIndex
