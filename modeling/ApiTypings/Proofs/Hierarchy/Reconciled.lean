/-
# The reconciled hierarchy

One step of the reconciler rewrites the methods of one class against the methods of the classes
above it.  As base classes come first, the classes above are final when a class is treated, and so
the outcome satisfies an equation that does not speak about the order of the steps: every method of
a class whose chain ends is the documented one, brought in line with the *outcome* above it.

* `get?_reconcileClass` : what one step changes;
* `get?_reconcileAll` : the equation for the table of methods;
* `withMethods_reconcileClass` : a step in the forest, at the end of the way down to its class, is
  a step on the table;
* `reconcileOverrides_eq` : the reconciled forest has the methods of the final table;
* `class_of_reconciled` : the classes of the reconciled forest.
-/
import ApiTypings.Proofs.Hierarchy.Collected
import ApiTypings.Proofs.Hierarchy.TopDown
import ApiTypings.Hierarchy.Override

namespace ApiTypings

namespace ClassIndex

variable {i : ClassIndex}

/-! ## One class -/

/-- The overridden method depends on the methods of the classes above only. -/
theorem overridden?_congr {t t' : MethodTable} {name : String}
    (h : ∀ a ∈ i.ancestors name, t.get? a = t'.get? a) (m : Method) :
    i.overridden? t name m = i.overridden? t' name m := by
  unfold overridden?
  generalize i.ancestors name = above at h
  induction above with
  | nil => rfl
  | cons a above ih =>
    rw [List.findSome?_cons, List.findSome?_cons, h a List.mem_cons_self,
      ih fun b hb => h b (List.mem_cons_of_mem _ hb)]

/-- The changes to a method depend on the methods of the classes above only. -/
theorem reconcileMethod_congr {t t' : MethodTable} {name : String}
    (h : ∀ a ∈ i.ancestors name, t.get? a = t'.get? a) (m : Method) :
    i.reconcileMethod t name m = i.reconcileMethod t' name m := by
  rw [reconcileMethod, reconcileMethod, overridden?_congr h]

theorem alignedMethods_congr {t t' : MethodTable} {name : String}
    (h : ∀ a ∈ i.ancestors name, t.get? a = t'.get? a) (methods : List Method) :
    i.alignedMethods t name methods = i.alignedMethods t' name methods := by
  unfold alignedMethods
  exact List.map_congr_left fun m _ => by rw [reconcileMethod_congr h]

/-- A step rewrites the methods of its class and leaves the others. -/
theorem get?_reconcileClass (t : MethodTable) (name other : String) :
    (i.reconcileClass t name).get? other
      = if other = name then (t.get? name).map (i.alignedMethods t name) else t.get? other := by
  unfold reconcileClass
  cases h : t.get? name with
  | none =>
    by_cases ho : other = name
    · rw [if_pos ho, ho, h]
      rfl
    · rw [if_neg ho]
  | some methods =>
    simp only [MethodTable.get?_set]
    by_cases ho : other = name
    · rw [if_pos ho, if_pos ho, ho, h]
      rfl
    · rw [if_neg ho, if_neg ho]

/-- Tables that give back the same still do after a step. -/
theorem get?_reconcileClass_congr {t t' : MethodTable} (h : ∀ name, t.get? name = t'.get? name)
    (name other : String) :
    (i.reconcileClass t name).get? other = (i.reconcileClass t' name).get? other := by
  have haligned : i.alignedMethods t name = i.alignedMethods t' name :=
    funext (alignedMethods_congr fun a _ => h a)
  rw [get?_reconcileClass, get?_reconcileClass, haligned, h name, h other]

/-- The table has methods for the classes of the index, and for no others. -/
def Covers (i : ClassIndex) (t : MethodTable) : Prop := ∀ name, t.get? name = none ↔ name ∉ i.names

theorem Covers.mem_of_get? {t : MethodTable} (h : i.Covers t) {name : String}
    {methods : List Method} (hget : t.get? name = some methods) : name ∈ i.names := by
  refine Classical.not_not.1 fun hnot => ?_
  rw [(h name).2 hnot] at hget
  exact absurd hget (by simp)

theorem Covers.exists_get? {t : MethodTable} (h : i.Covers t) {name : String}
    (hmem : name ∈ i.names) : ∃ methods, t.get? name = some methods :=
  Option.ne_none_iff_exists'.1 fun hnone => (h name).1 hnone hmem

/-- A step neither adds nor removes a class. -/
theorem Covers.reconcileClass {t : MethodTable} (h : i.Covers t) (name : String) :
    i.Covers (i.reconcileClass t name) := by
  intro other
  rw [get?_reconcileClass, ← h other]
  by_cases ho : other = name
  · rw [if_pos ho, ho, Option.map_eq_none_iff]
  · rw [if_neg ho]

/-! ## All classes -/

/-- Steps over a list of classes leave the other classes. -/
theorem get?_foldl_of_not_mem {names : List String} (t : MethodTable) {other : String}
    (h : other ∉ names) : (names.foldl i.reconcileClass t).get? other = t.get? other := by
  induction names generalizing t with
  | nil => rfl
  | cons name names ih =>
    rw [List.mem_cons, not_or] at h
    rw [List.foldl_cons, ih _ h.2, get?_reconcileClass, if_neg h.1]

/-- Steps over a list with base classes first align every class of it with the outcome above. -/
theorem get?_foldl_of_mem {visited names : List String} (t : MethodTable)
    (hfirst : i.BaseFirst visited names) (hclosed : ∀ x ∈ visited, i.BaseVisited visited x)
    (hnew : ∀ x ∈ names, x ∉ visited ∧ x ∈ i.names) (hnd : names.Nodup) {name : String}
    (h : name ∈ names) :
    (names.foldl i.reconcileClass t).get? name
      = (t.get? name).map (i.alignedMethods (names.foldl i.reconcileClass t) name) := by
  induction names generalizing visited t with
  | nil => exact absurd h List.not_mem_nil
  | cons x names ih =>
    rw [List.nodup_cons] at hnd
    rw [List.foldl_cons]
    rcases List.mem_cons.1 h with rfl | h
    · rw [get?_foldl_of_not_mem _ hnd.1, get?_reconcileClass, if_pos rfl]
      -- the classes above were visited, so neither this step nor a later one changes them
      have habove : ∀ a ∈ i.ancestors name,
          t.get? a = (names.foldl i.reconcileClass (i.reconcileClass t name)).get? a := by
        intro a ha
        have hvis : a ∈ i.names → a ∈ visited := ancestors_visited hclosed hfirst.1 ha
        have hnot : a ∉ name :: names := fun hm => (hnew a hm).1 (hvis (hnew a hm).2)
        rw [List.mem_cons, not_or] at hnot
        rw [get?_foldl_of_not_mem _ hnot.2, get?_reconcileClass, if_neg hnot.1]
      have hsame : i.alignedMethods t name
          = i.alignedMethods (names.foldl i.reconcileClass (i.reconcileClass t name)) name :=
        funext (alignedMethods_congr habove)
      rw [hsame]
    · have hne : name ≠ x := fun heq => hnd.1 (heq ▸ h)
      have hclosed' : ∀ y ∈ x :: visited, i.BaseVisited (x :: visited) y :=
        List.forall_mem_cons.2 ⟨hfirst.1.cons x, fun y hy => (hclosed y hy).cons x⟩
      have hnew' : ∀ y ∈ names, y ∉ x :: visited ∧ y ∈ i.names := by
        intro y hy
        have hyx : y ≠ x := fun heq => hnd.1 (heq ▸ hy)
        have := hnew y (List.mem_cons_of_mem _ hy)
        simp [hyx, this]
      rw [ih _ hfirst.2 hclosed' hnew' hnd.2 h, get?_reconcileClass, if_neg hne]

/-- **The outcome of the reconciler.**  The methods of a class whose chain ends are aligned with the
outcome above it; all other methods are as they were. -/
theorem get?_reconcileAll (hnd : i.names.Nodup) (t : MethodTable) (name : String) :
    (name ∈ i.names ∧ i.ChainEnds name →
        (i.reconcileAll t).get? name
          = (t.get? name).map (i.alignedMethods (i.reconcileAll t) name)) ∧
      (¬ (name ∈ i.names ∧ i.ChainEnds name) → (i.reconcileAll t).get? name = t.get? name) := by
  rw [← mem_topDown hnd]
  constructor
  · intro h
    exact get?_foldl_of_mem t (baseFirst_topDown hnd) (fun x hx => absurd hx List.not_mem_nil)
      (fun x hx => new_of_mem_walkDown hx) nodup_topDown h
  · exact get?_foldl_of_not_mem t

/-- The reconciler neither adds nor removes a class. -/
theorem Covers.reconcileAll {t : MethodTable} (h : i.Covers t) : i.Covers (i.reconcileAll t) := by
  unfold ClassIndex.reconcileAll
  induction i.topDown generalizing t with
  | nil => exact h
  | cons name names ih => exact ih (h.reconcileClass name)

end ClassIndex

/-! ## The methods of a forest -/

namespace Forest

variable {forest : Forest} {i : ClassIndex}

/-- Among distinct names the methods of a class are found under its name. -/
theorem get?_methodTable (hnd : (forest.classes.map (·.fullName)).Nodup) {c : ClassDecl}
    (hc : c ∈ forest.classes) : forest.methodTable.get? c.fullName = some c.body.methods := by
  unfold methodTable MethodTable.get?
  generalize forest.classes = cs at hnd hc
  induction cs with
  | nil => exact absurd hc List.not_mem_nil
  | cons x cs ih =>
    rw [List.map_cons, List.nodup_cons] at hnd
    rcases List.mem_cons.1 hc with rfl | hc
    · rw [List.map_cons, List.lookup_cons_self]
    · have hne : (c.fullName == x.fullName) = false :=
        beq_eq_false_iff_ne.2 fun h => hnd.1 (h ▸ List.mem_map_of_mem hc)
      rw [List.map_cons, List.lookup_cons, hne]
      exact ih hnd.2 hc

/-- Methods that are found under a name are those of a class of this name. -/
theorem class_of_get? {name : String} {methods : List Method}
    (h : forest.methodTable.get? name = some methods) :
    ∃ c ∈ forest.classes, c.fullName = name ∧ c.body.methods = methods := by
  obtain ⟨l₁, l₂, heq, -⟩ := List.lookup_eq_some_iff.1 h
  have hmem : (name, methods) ∈ forest.methodTable := by
    rw [heq]
    exact List.mem_append_right _ List.mem_cons_self
  obtain ⟨c, hc, hpair⟩ := List.mem_map.1 hmem
  exact ⟨c, hc, (Prod.mk.inj hpair).1, (Prod.mk.inj hpair).2⟩

/-- The table of a forest has methods for its classes. -/
theorem covers_methodTable (h : ClassIndex.ofForest forest = .ok i) :
    i.Covers forest.methodTable := by
  intro name
  constructor
  · intro hget hmem
    obtain ⟨c, hc, rfl⟩ := ClassIndex.exists_of_mem_names h hmem
    rw [get?_methodTable (ClassIndex.nodup_fullNames h) hc] at hget
    exact absurd hget (by simp)
  · intro hnot
    cases hget : forest.methodTable.get? name with
    | none => rfl
    | some methods =>
      obtain ⟨c, hc, rfl, -⟩ := class_of_get? hget
      exact absurd (ClassIndex.mem_names h hc) hnot

/-- The classes of a forest with other methods: nothing else has changed. -/
theorem classes_withMethods (forest : Forest) (t : MethodTable) :
    (forest.withMethods t).classes = forest.classes.map fun c =>
      ⟨c.fullName, { c.body with methods := (t.get? c.fullName).getD c.body.methods }⟩ :=
  Forest.classes_mapClasses forest _

/-- Other methods leave the index of a forest. -/
theorem ofForest_withMethods (h : ClassIndex.ofForest forest = .ok i) (t : MethodTable) :
    ClassIndex.ofForest (forest.withMethods t) = .ok i :=
  ClassIndex.ofForest_mapClasses h fun _ _ => rfl

/-- The methods of a forest with other methods are those, when they are methods for its classes. -/
theorem get?_methodTable_withMethods (h : ClassIndex.ofForest forest = .ok i) {t : MethodTable}
    (ht : i.Covers t) (name : String) :
    (forest.withMethods t).methodTable.get? name = t.get? name := by
  have h' := ofForest_withMethods h t
  cases hget : t.get? name with
  | none => exact (covers_methodTable h' name).2 ((ht name).1 hget)
  | some methods =>
    obtain ⟨c, hc, rfl⟩ := ClassIndex.exists_of_mem_names h (ht.mem_of_get? hget)
    have hc' : ⟨c.fullName, { c.body with methods := methods }⟩
        ∈ (forest.withMethods t).classes := by
      rw [classes_withMethods]
      exact List.mem_map.2 ⟨c, hc, by rw [hget]; rfl⟩
    exact get?_methodTable (ClassIndex.nodup_fullNames h') hc'

/-- Tables that give back the same make the same forest. -/
theorem withMethods_congr {t t' : MethodTable} (h : ∀ name, t.get? name = t'.get? name) :
    forest.withMethods t = forest.withMethods t' := by
  simp only [withMethods, h]

/-- Methods for all classes take the place of those that were there. -/
theorem withMethods_withMethods (hi : ClassIndex.ofForest forest = .ok i) {t t' : MethodTable}
    (ht' : i.Covers t') : (forest.withMethods t).withMethods t' = forest.withMethods t' := by
  unfold withMethods
  rw [mapClasses_mapClasses]
  refine mapClasses_congr fun c hc => ?_
  obtain ⟨methods, hmethods⟩ := ht'.exists_get? (ClassIndex.mem_names hi hc)
  dsimp only
  rw [hmethods, Option.getD_some, Option.getD_some]

/-- A forest with its own methods is the same forest. -/
theorem withMethods_methodTable (hi : ClassIndex.ofForest forest = .ok i) :
    forest.withMethods forest.methodTable = forest := by
  refine mapClasses_eq_self fun c hc => ?_
  rw [get?_methodTable (ClassIndex.nodup_fullNames hi) hc]
  rfl

/-! ## Steps in a forest -/

/-- A table with an entry for every name under which something is found gives back what is found. -/
theorem get?_filterMap (found : String → Option (List Method)) (names : List String)
    (name : String) :
    MethodTable.get? (names.filterMap fun n => (found n).map (n, ·)) name
      = if name ∈ names then found name else none := by
  induction names with
  | nil => rfl
  | cons n names ih =>
    unfold MethodTable.get? at ih ⊢
    cases hn : found n with
    | none =>
      rw [List.filterMap_cons_none (by rw [hn]; rfl), ih]
      by_cases hname : name = n
      · subst hname
        simp [hn]
      · simp [hname]
    | some methods =>
      rw [List.filterMap_cons_some (by rw [hn]; rfl), List.lookup_cons, ih]
      by_cases hname : name = n
      · subst hname
        simp [hn]
      · simp [hname, beq_eq_false_iff_ne.2 hname]

/-- The methods that the index finds are those of the table of the forest. -/
theorem methods_class? (hi : ClassIndex.ofForest forest = .ok i) (name : String) :
    (i.class? forest name).map (·.body.methods) = forest.methodTable.get? name := by
  by_cases hmem : name ∈ i.names
  · obtain ⟨c, hc, rfl⟩ := ClassIndex.exists_of_mem_names hi hmem
    rw [ClassIndex.class?_eq_some hi hc, get?_methodTable (ClassIndex.nodup_fullNames hi) hc]
    rfl
  · rw [ClassIndex.class?_eq_none hmem, (covers_methodTable hi name).2 hmem]
    rfl

/-- The methods above a class, as they stand in the forest, are those of the table of the forest. -/
theorem get?_methodsAbove (hi : ClassIndex.ofForest forest = .ok i) {name a : String}
    (ha : a ∈ i.ancestors name) :
    (i.methodsAbove forest name).get? a = forest.methodTable.get? a := by
  have htable : i.methodsAbove forest name
      = (i.ancestors name).filterMap fun n => (forest.methodTable.get? n).map (n, ·) := by
    rw [ClassIndex.methodsAbove]
    refine List.filterMap_congr fun n _ => ?_
    rw [← methods_class? hi, Option.map_map]
    rfl
  rw [htable, get?_filterMap, if_pos ha]

/-- A step in the forest changes the methods of its class as a step on the table does. -/
theorem reconcileClass_eq (hi : ClassIndex.ofForest forest = .ok i) (name : String) :
    forest.reconcileClass i name
      = forest.withMethods (i.reconcileClass forest.methodTable name) := by
  by_cases hmem : name ∈ i.names
  · obtain ⟨c, hc, rfl⟩ := ClassIndex.exists_of_mem_names hi hmem
    have haligned : i.alignedMethods (i.methodsAbove forest c.fullName) c.fullName
        = i.alignedMethods forest.methodTable c.fullName :=
      funext (ClassIndex.alignedMethods_congr fun a ha => get?_methodsAbove hi ha)
    have hnd := ClassIndex.nodup_fullNames hi
    simp only [reconcileClass, ClassIndex.class?_eq_some hi hc,
      ClassIndex.changeClass?_eq_some hi hc, Option.getD_some, haligned]
    -- both sides are one change of the forest, compared class by class
    refine mapClasses_congr fun d hd => ?_
    rw [ClassIndex.get?_reconcileClass, get?_methodTable hnd hc, get?_methodTable hnd hd]
    by_cases hname : d.fullName = c.fullName
    · obtain rfl := List.inj_on_of_nodup_map hnd hd hc hname
      rw [if_pos rfl, if_pos rfl]
      rfl
    · rw [if_neg hname, if_neg hname]
      rfl
  · have hnone := (covers_methodTable hi name).2 hmem
    rw [reconcileClass, ClassIndex.class?_eq_none hmem, ClassIndex.reconcileClass, hnone]
    exact (withMethods_methodTable hi).symm

/-- A step in a forest with the methods of a table is a step on the table. -/
theorem withMethods_reconcileClass (hi : ClassIndex.ofForest forest = .ok i) {t : MethodTable}
    (ht : i.Covers t) (name : String) :
    (forest.withMethods t).reconcileClass i name
      = forest.withMethods (i.reconcileClass t name) := by
  have hsame := ClassIndex.get?_reconcileClass_congr (i := i) (get?_methodTable_withMethods hi ht)
  rw [reconcileClass_eq (ofForest_withMethods hi t), withMethods_congr (hsame name),
    withMethods_withMethods hi (ht.reconcileClass name)]

/-- Steps in a forest with the methods of a table are steps on the table. -/
theorem foldl_reconcileClass (hi : ClassIndex.ofForest forest = .ok i) (names : List String)
    {t : MethodTable} (ht : i.Covers t) :
    names.foldl (·.reconcileClass i) (forest.withMethods t)
      = forest.withMethods (names.foldl i.reconcileClass t) := by
  induction names generalizing t with
  | nil => rfl
  | cons name names ih =>
    rw [List.foldl_cons, List.foldl_cons, withMethods_reconcileClass hi ht,
      ih (ht.reconcileClass name)]

/-- **The reconciled forest** has the methods of the final table. -/
theorem reconcileOverrides_eq (hi : ClassIndex.ofForest forest = .ok i) :
    forest.reconcileOverrides i = forest.withMethods (i.reconcileAll forest.methodTable) := by
  have hsteps := foldl_reconcileClass hi i.topDown (covers_methodTable hi)
  rwa [withMethods_methodTable hi] at hsteps

/-- The classes of the reconciled forest: only methods have changed. -/
theorem classes_reconcileOverrides (hi : ClassIndex.ofForest forest = .ok i) :
    (forest.reconcileOverrides i).classes = forest.classes.map fun c =>
      ⟨c.fullName, { c.body with methods :=
        ((i.reconcileAll forest.methodTable).get? c.fullName).getD c.body.methods }⟩ := by
  rw [reconcileOverrides_eq hi, classes_withMethods]

/-- Reconciliation leaves the index of a forest. -/
theorem ofForest_reconcileOverrides (hi : ClassIndex.ofForest forest = .ok i) :
    ClassIndex.ofForest (forest.reconcileOverrides i) = .ok i := by
  rw [reconcileOverrides_eq hi]
  exact ofForest_withMethods hi _

/-- The table of the reconciled forest is the outcome of the reconciler. -/
theorem get?_methodTable_reconcileOverrides (h : ClassIndex.ofForest forest = .ok i)
    (name : String) :
    (forest.reconcileOverrides i).methodTable.get? name
      = (i.reconcileAll forest.methodTable).get? name := by
  rw [reconcileOverrides_eq h]
  exact get?_methodTable_withMethods h (covers_methodTable h).reconcileAll name

/-- A class of the reconciled forest is a documented class.  Its methods are aligned with the
reconciled forest if its chain ends, and as documented otherwise. -/
theorem class_of_reconciled (h : ClassIndex.ofForest forest = .ok i) {c : ClassDecl}
    (hc : c ∈ (forest.reconcileOverrides i).classes) :
    ∃ d ∈ forest.classes, d.fullName = c.fullName ∧
      c.body = { d.body with methods := c.body.methods } ∧
      (i.ChainEnds c.fullName → c.body.methods
        = i.alignedMethods (forest.reconcileOverrides i).methodTable c.fullName d.body.methods) ∧
      (¬ i.ChainEnds c.fullName → c.body.methods = d.body.methods) := by
  have hnd := ClassIndex.nodup_names h
  have hnd' := ClassIndex.nodup_fullNames (ofForest_reconcileOverrides h)
  have htable := get?_methodTable hnd' hc
  rw [get?_methodTable_reconcileOverrides h] at htable
  rw [classes_reconcileOverrides h] at hc
  obtain ⟨d, hd, hdc⟩ := List.mem_map.1 hc
  have hname : d.fullName = c.fullName := by rw [← hdc]
  have hdoc := get?_methodTable (ClassIndex.nodup_fullNames h) hd
  have heq := ClassIndex.get?_reconcileAll hnd forest.methodTable c.fullName
  have hmem : c.fullName ∈ i.names := hname ▸ ClassIndex.mem_names h hd
  rw [hname] at hdoc
  refine ⟨d, hd, hname, by rw [← hdc], fun hends => ?_, fun hends => ?_⟩
  · rw [heq.1 ⟨hmem, hends⟩, hdoc] at htable
    rw [← Option.some.inj htable]
    -- alignment looks at the classes above only, and there the two tables give the same
    apply ClassIndex.alignedMethods_congr
    intro a _
    exact (get?_methodTable_reconcileOverrides h a).symm
  · rw [heq.2 fun hin => hends hin.2, hdoc] at htable
    exact (Option.some.inj htable).symm

end Forest

end ApiTypings
