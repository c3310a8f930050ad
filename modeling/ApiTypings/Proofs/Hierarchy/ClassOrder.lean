/-
# Classes in another order

The reconciler finds its way by names: the classes at the top and the subclasses of a class are
sorted, and everything else is looked up.  So the order in which a forest lists its classes does not
matter, and forests of the same classes are changed by the same change.

* `SameClasses.topDown_eq` : the order of the reconciler is that of the names;
* `SameClasses.reconcileAll_eq` : the outcome is the same;
* `reconcileOverrides_of_perm` : the change to a forest depends on its classes, not on their order.
-/
import ApiTypings.Proofs.Hierarchy.Reconciled
import ApiTypings.Proofs.Text.Order

namespace ApiTypings

/-- The name of a class and its base class, wherever the class is. -/
def ClassEntry.link (e : ClassEntry) : String × Option String := (e.name, e.base)

namespace ClassIndex

/-- Two indexes have the same classes, each of another name, maybe in another order and in other
places. -/
structure SameClasses (i j : ClassIndex) : Prop where
  perm : (i.entries.map ClassEntry.link).Perm (j.entries.map ClassEntry.link)
  nodup : i.names.Nodup

namespace SameClasses

variable {i j : ClassIndex} (h : SameClasses i j)

include h

/-! ## Looking up -/

theorem perm_names : i.names.Perm j.names := by
  have hnames : ∀ k : ClassIndex, k.names = (k.entries.map ClassEntry.link).map Prod.fst := by
    intro k
    rw [List.map_map]
    rfl
  rw [hnames, hnames]
  exact h.perm.map _

theorem mem_names {name : String} : name ∈ i.names ↔ name ∈ j.names := h.perm_names.mem_iff

theorem nodup_right : j.names.Nodup := h.perm_names.nodup_iff.1 h.nodup

theorem baseOf?_eq (name : String) : i.baseOf? name = j.baseOf? name := by
  by_cases hmem : name ∈ i.names
  · obtain ⟨e, he, rfl⟩ := List.mem_map.1 hmem
    obtain ⟨e', he', hlink⟩ := List.mem_map.1 (h.perm.subset (List.mem_map_of_mem he))
    obtain ⟨hname, hbase⟩ := Prod.mk.inj hlink
    rw [baseOf?_of_mem h.nodup he, ← hbase, ← hname, baseOf?_of_mem h.nodup_right he']
  · rw [baseOf?_eq_none hmem, baseOf?_eq_none fun hj => hmem (h.mem_names.2 hj)]

/-- The names of the classes that a test of names and base classes admits, sorted. -/
theorem names_filter_eq (p : String × Option String → Bool) :
    ((i.entries.filter (p ·.link)).map (·.name)).mergeSort
      = ((j.entries.filter (p ·.link)).map (·.name)).mergeSort := by
  have hlinks : ∀ es : List ClassEntry, (es.filter (p ·.link)).map (·.name)
      = ((es.map ClassEntry.link).filter p).map Prod.fst := by
    intro es
    rw [List.filter_map, List.map_map]
    rfl
  rw [hlinks, hlinks]
  exact Text.mergeSort_eq_of_perm ((h.perm.filter p).map _)

theorem subclasses_eq (name : String) : i.subclasses name = j.subclasses name :=
  h.names_filter_eq fun l => l.2 == some name

theorem isTop_eq (e : ClassEntry) : i.isTop e = j.isTop e := by
  have hcontains : ∀ name, i.contains name = j.contains name := fun name => by
    rw [contains, contains, Bool.eq_iff_iff, List.contains_iff_mem, List.contains_iff_mem,
      h.mem_names]
  unfold isTop
  split
  · rfl
  · rw [hcontains]

theorem roots_eq : i.roots = j.roots := by
  have htop : j.roots = ((j.entries.filter i.isTop).map (·.name)).mergeSort := by
    rw [roots, List.filter_congr fun e _ => (h.isTop_eq e).symm]
  rw [htop]
  exact h.names_filter_eq fun l => i.isTop ⟨l.1, l.2, []⟩

/-! ## Walks -/

theorem chainFrom_eq (visited : List String) (name : String) :
    i.chainFrom visited name = j.chainFrom visited name := by
  induction visited, name using chainFrom.induct i with
  | case1 visited name hmem => rw [chainFrom_of_mem hmem, chainFrom_of_mem hmem]
  | case2 visited name hnew hb =>
    rw [chainFrom_of_none hnew hb, chainFrom_of_none hnew (h.baseOf?_eq name ▸ hb)]
  | case3 visited name hnew base hb ih =>
    rw [chainFrom_of_base hnew hb, chainFrom_of_base hnew (h.baseOf?_eq name ▸ hb), ih]

theorem ancestors_eq (name : String) : i.ancestors name = j.ancestors name := by
  rw [ancestors, ancestors, h.baseOf?_eq]
  split
  · rfl
  · exact h.chainFrom_eq [] _

theorem descendsFrom_eq (name ancestor : String) :
    i.descendsFrom name ancestor = j.descendsFrom name ancestor := by
  rw [descendsFrom, descendsFrom, h.chainFrom_eq]

theorem walkDown_eq (visited todo : List String) :
    i.walkDown visited todo = j.walkDown visited todo := by
  induction visited, todo using walkDown.induct i with
  | case1 visited => rw [walkDown, walkDown]
  | case2 visited name todo hskip ih =>
    rw [walkDown_of_skip hskip, walkDown_of_skip (by rwa [← h.mem_names]), ih]
  | case3 visited name todo hvisit ih =>
    rw [walkDown_of_visit hvisit, walkDown_of_visit (by rwa [← h.mem_names]), ih,
      h.subclasses_eq]

/-- The classes are treated in the order of their names. -/
theorem topDown_eq : i.topDown = j.topDown := by
  rw [topDown, topDown, h.roots_eq, h.walkDown_eq]

/-! ## The reconciler -/

theorem reconcile_eq (name : String) (m : Method) (ancestor : String) (base : Method) :
    i.reconcile name m ancestor base = j.reconcile name m ancestor base := by
  have hcompatible : ∀ ours theirs,
      i.returnsCompatible ours theirs = j.returnsCompatible ours theirs := by
    intro ours theirs
    simp only [returnsCompatible, h.descendsFrom_eq]
  simp only [reconcile, replacedReturn?, hcompatible]

theorem reconcileMethod_eq (t : MethodTable) (name : String) (m : Method) :
    i.reconcileMethod t name m = j.reconcileMethod t name m := by
  simp only [reconcileMethod, overridden?, h.ancestors_eq, h.reconcile_eq]

theorem reconcileClass_eq : i.reconcileClass = j.reconcileClass := by
  funext t name
  simp only [reconcileClass, alignedMethods, h.reconcileMethod_eq]

/-- The outcome does not depend on the order of the classes. -/
theorem reconcileAll_eq (t : MethodTable) : i.reconcileAll t = j.reconcileAll t := by
  rw [reconcileAll, reconcileAll, h.reconcileClass_eq, h.topDown_eq]

end SameClasses

/-! ## Tables that give back the same -/

variable {i : ClassIndex}

/-- Tables that give back the same still do after all steps. -/
theorem get?_reconcileAll_congr {t t' : MethodTable} (h : ∀ name, t.get? name = t'.get? name)
    (name : String) : (i.reconcileAll t).get? name = (i.reconcileAll t').get? name := by
  unfold reconcileAll
  induction i.topDown generalizing t t' with
  | nil => exact h name
  | cons x names ih => exact ih (get?_reconcileClass_congr h x)

end ClassIndex

namespace Forest

variable {forest forest' : Forest} {i : ClassIndex}

/-! ## Forests of the same classes -/

/-- The same classes have the same methods. -/
theorem get?_methodTable_of_perm (hnd : (forest.classes.map (·.fullName)).Nodup)
    (h : forest'.classes.Perm forest.classes) (name : String) :
    forest'.methodTable.get? name = forest.methodTable.get? name := by
  have hnd' : (forest'.classes.map (·.fullName)).Nodup := (h.map _).nodup_iff.2 hnd
  cases hget : forest.methodTable.get? name with
  | some methods =>
    obtain ⟨c, hc, rfl, rfl⟩ := class_of_get? hget
    exact get?_methodTable hnd' (h.symm.subset hc)
  | none =>
    cases hget' : forest'.methodTable.get? name with
    | none => rfl
    | some methods =>
      obtain ⟨c, hc, rfl, rfl⟩ := class_of_get? hget'
      rw [get?_methodTable hnd (h.subset hc)] at hget
      exact absurd hget (by simp)

/-- The names and base classes of an index are those of the classes of its forest. -/
theorem links_placedClasses (forest : Forest) :
    (forest.placedClasses.map ClassIndex.entryOf).map ClassEntry.link
      = forest.classes.map fun c => (c.fullName, c.body.base) := by
  rw [← snd_placedClasses, List.map_map, List.map_map]
  rfl

/-- Forests of the same classes have an index, both or neither, and are changed alike. -/
theorem reconcileOverrides_of_perm (hi : ClassIndex.ofForest forest = .ok i)
    (h : forest'.classes.Perm forest.classes) :
    ∃ j f, ClassIndex.ofForest forest' = .ok j ∧
      forest.reconcileOverrides i = forest.mapClasses f ∧
      forest'.reconcileOverrides j = forest'.mapClasses f := by
  have hnd := ClassIndex.nodup_fullNames hi
  have hnd' : (forest'.classes.map (·.fullName)).Nodup := (h.map _).nodup_iff.2 hnd
  have hj := ClassIndex.ofForest_eq_ok_iff.2 ⟨hnd', rfl⟩
  have hsame : ClassIndex.SameClasses i ⟨forest'.placedClasses.map ClassIndex.entryOf⟩ := by
    refine ⟨?_, ClassIndex.nodup_names hi⟩
    rw [(ClassIndex.ofForest_eq_ok_iff.1 hi).2, links_placedClasses, links_placedClasses]
    exact (h.map _).symm
  refine ⟨_, _, hj, reconcileOverrides_eq hi, ?_⟩
  rw [reconcileOverrides_eq hj, ← hsame.reconcileAll_eq]
  exact withMethods_congr
    (ClassIndex.get?_reconcileAll_congr (get?_methodTable_of_perm hnd h))

end Forest

end ApiTypings
