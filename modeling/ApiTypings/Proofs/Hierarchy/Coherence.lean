/-
# Coherence of the class index

The index of a forest and the forest say the same about its classes.  The way down that the index
knows under the full name of a class leads to the position of the class.  So the class is found
there as it stands, and a change made there is a change to this class and to nothing else.  The
subclasses of a class and the classes at the top are those of the forest, in the order of their
names.  Bringing overrides in line changes nothing of this: the same index, with the same ways down,
stays coherent with the forest.

* `coherent_of_ofForest` : an index is coherent with its forest;
* `ofForest_coherent` : when a forest has an index, and what the index says before and after
  overrides are brought in line.
-/
import ApiTypings.Proofs.Forest.Positions
import ApiTypings.Proofs.Hierarchy.Agreement
import ApiTypings.Proofs.Text.Order

namespace ApiTypings

namespace Forest

variable {forest : Forest}

/-- The nodes of a forest that are classes. -/
def classNodes (forest : Forest) : List Declaration := forest.nodes.filter (·.kind == .classKind)

/-- The names of the classes are those of the class nodes. -/
theorem names_classNodes (forest : Forest) :
    forest.classNodes.map (·.fullName) = forest.classes.map (·.fullName) := by
  rw [classNodes, classes_eq_filterMap]
  generalize forest.nodes = ds
  induction ds with
  | nil => rfl
  | cons d ds ih =>
    obtain ⟨h, b, cs⟩ := d
    cases b with
    | ofClass body =>
      rw [List.filter_cons_of_pos rfl, List.map_cons, ih]
      rfl
    | _ =>
      rw [List.filter_cons_of_neg (by exact Bool.false_ne_true), ih]
      rfl

end Forest

namespace ClassIndex

variable {forest : Forest} {i : ClassIndex}

/-! ## Coherence -/

/-- An index says of a forest what its classes are and where. -/
structure Coherent (i : ClassIndex) (forest : Forest) : Prop where
  /-- The way down to a class leads to where it is. -/
  placed : ∀ p c, forest.classAt? p = some c → i.path? c.fullName = some p
  /-- A class is found under its full name, as it stands there. -/
  found : ∀ p c, forest.classAt? p = some c → i.class? forest c.fullName = some c
  /-- A change to the class of its full name is made, and made to no other class. -/
  changed : ∀ p c f, forest.classAt? p = some c →
    i.changeClass? forest c.fullName f
      = some (forest.mapClasses fun c' => if c'.fullName = c.fullName then f c'.body else c'.body)
  /-- Nothing is found or changed under any other name. -/
  absent : ∀ name, (∀ p c, forest.classAt? p = some c → c.fullName ≠ name) →
    i.class? forest name = none ∧ ∀ f, i.changeClass? forest name f = none
  size_eq : i.size = forest.classNodes.length
  subclasses_sorted : ∀ base, (i.subclasses base).Pairwise (· < ·)
  mem_subclasses_iff : ∀ base name, name ∈ i.subclasses base ↔
    ∃ p body, forest.classAt? p = some ⟨name, body⟩ ∧ body.base = some base
  roots_sorted : i.roots.Pairwise (· < ·)
  mem_roots_iff : ∀ name, name ∈ i.roots ↔
    ∃ p body, forest.classAt? p = some ⟨name, body⟩ ∧
      ∀ base, body.base = some base → ∀ q c, forest.classAt? q = some c → c.fullName ≠ base

/-! ## Sorted names -/

/-- Sorting distinct names leaves each one before the next. -/
theorem pairwise_lt_mergeSort {names : List String} (hnd : names.Nodup) :
    names.mergeSort.Pairwise (· < ·) := by
  have hnd' : names.mergeSort.Nodup := (List.mergeSort_perm names _).nodup_iff.2 hnd
  refine (Text.pairwise_mergeSort_le names).imp₂ (fun a b hle hne => ?_) hnd'
  exact String.not_le.1 fun hge => hne (String.le_antisymm hle hge)

/-- Some of the names of an index, sorted. -/
theorem pairwise_lt_names (hnd : i.names.Nodup) (p : ClassEntry → Bool) :
    ((i.entries.filter p).map (·.name)).mergeSort.Pairwise (· < ·) :=
  pairwise_lt_mergeSort (hnd.sublist (List.filter_sublist.map _))

/-- The names of the classes that a test of entries admits. -/
theorem mem_names_filter (h : ofForest forest = .ok i) (p : ClassEntry → Bool) (name : String) :
    name ∈ ((i.entries.filter p).map (·.name)).mergeSort ↔
      ∃ q body, forest.classAt? q = some ⟨name, body⟩ ∧ p ⟨name, body.base, q⟩ = true := by
  obtain ⟨-, rfl⟩ := ofForest_eq_ok_iff.1 h
  rw [List.mem_mergeSort, List.mem_map]
  constructor
  · rintro ⟨e, he, rfl⟩
    obtain ⟨hentry, hp⟩ := List.mem_filter.1 he
    obtain ⟨⟨q, c⟩, hc, rfl⟩ := List.mem_map.1 hentry
    exact ⟨q, c.body, Forest.mem_placedClasses.1 hc, hp⟩
  · rintro ⟨q, body, hq, hp⟩
    have hentry := List.mem_map_of_mem (f := entryOf) (Forest.mem_placedClasses.2 hq)
    exact ⟨_, List.mem_filter.2 ⟨hentry, hp⟩, rfl⟩

/-- A class is at the top when its base class is absent or no class of the forest. -/
theorem isTop_iff (h : ofForest forest = .ok i) {e : ClassEntry} :
    i.isTop e = true ↔
      ∀ base, e.base = some base → ∀ q c, forest.classAt? q = some c → c.fullName ≠ base := by
  have hcontains : ∀ base, i.contains base = true ↔
      ∃ q c, forest.classAt? q = some c ∧ c.fullName = base := by
    intro base
    rw [contains, List.contains_iff_mem]
    constructor
    · intro hmem
      obtain ⟨c, hc, rfl⟩ := exists_of_mem_names h hmem
      obtain ⟨q, hq⟩ := Forest.mem_classes_iff.1 hc
      exact ⟨q, c, hq, rfl⟩
    · rintro ⟨q, c, hq, rfl⟩
      exact mem_names h (Forest.mem_classes_iff.2 ⟨q, hq⟩)
  unfold isTop
  split
  · rename_i hbase
    simp [hbase]
  · rename_i base hbase
    rw [Bool.not_eq_true', ← Bool.not_eq_true, hcontains]
    simp [hbase]

/-- An index is coherent with its forest. -/
theorem coherent_of_ofForest (h : ofForest forest = .ok i) : i.Coherent forest := by
  have hnames := nodup_names h
  refine ⟨fun p c hp => path?_eq_some h hp, fun p c hp => ?_, fun p c f hp => ?_,
    fun name habsent => ?_, ?_, fun base => ?_, fun base name => ?_, ?_, fun name => ?_⟩
  · exact class?_eq_some h (Forest.mem_classes_iff.2 ⟨p, hp⟩)
  · exact changeClass?_eq_some h (Forest.mem_classes_iff.2 ⟨p, hp⟩) f
  · have hname : name ∉ i.names := by
      intro hmem
      obtain ⟨c, hc, rfl⟩ := exists_of_mem_names h hmem
      obtain ⟨p, hp⟩ := Forest.mem_classes_iff.1 hc
      exact habsent p c hp rfl
    exact ⟨class?_eq_none hname forest, changeClass?_eq_none hname forest⟩
  · rw [size, ← List.length_map (f := ClassEntry.name), ← names, names_ofForest h,
      ← Forest.names_classNodes, List.length_map]
  · exact pairwise_lt_names hnames _
  · rw [subclasses, mem_names_filter h]
    simp only [beq_iff_eq]
  · exact pairwise_lt_names hnames _
  · rw [roots, mem_names_filter h]
    simp only [isTop_iff h]

/-- **Coherence.**  A forest has an index exactly when no two of its class nodes share a full name.
The index is coherent with the forest then, and the same index still is when overrides were brought
in line. -/
theorem ofForest_coherent (forest : Forest) :
    ((∃ i, ofForest forest = .ok i) ↔ (forest.classNodes.map (·.fullName)).Nodup) ∧
      ∀ i, ofForest forest = .ok i →
        i.Coherent forest ∧ i.Coherent (forest.reconcileOverrides i) := by
  constructor
  · rw [Forest.names_classNodes]
    exact ⟨fun ⟨i, hi⟩ => nodup_fullNames hi,
      fun hnd => ⟨_, ofForest_eq_ok_iff.2 ⟨hnd, rfl⟩⟩⟩
  · intro i hi
    exact ⟨coherent_of_ofForest hi, coherent_of_ofForest (Forest.ofForest_reconcileOverrides hi)⟩

/-- A namespace with a class, and in the namespace beside that class one that is below it. -/
def nestedForest : Forest :=
  [.node ⟨"x", "x", 0, "", none⟩ (.ofNamespace [] [] none)
    [.node ⟨"A", "x.A", 1, "", none⟩
      (.ofClass ⟨none, [], [plainMethod "x.A" "read" "string" false .publicMember]⟩)
      [.node ⟨"B", "x.A.B", 2, "", none⟩
        (.ofClass ⟨some "x.A", [], [plainMethod "x.A.B" "read" "int" false .publicMember]⟩) []]]]

theorem ofForest_coherent_nestedForest :
    ∃ i, ofForest nestedForest = .ok i ∧ (nestedForest.classNodes.map (·.fullName)).Nodup ∧
      i.path? "x.A" = some [0, 0] ∧ i.path? "x.A.B" = some [0, 0, 0] ∧
      i.Coherent (nestedForest.reconcileOverrides i) := by
  obtain ⟨hiff, hcoherent⟩ := ofForest_coherent nestedForest
  obtain ⟨hbefore, hafter⟩ := hcoherent _ rfl
  exact ⟨_, rfl, hiff.1 ⟨_, rfl⟩, hbefore.placed [0, 0] _ rfl, hbefore.placed [0, 0, 0] _ rfl,
    hafter⟩

end ClassIndex

end ApiTypings
