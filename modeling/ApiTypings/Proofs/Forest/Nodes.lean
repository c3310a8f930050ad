/-
# Nodes of a forest

The declarations of a forest, outer ones first, as a list, and the level at which each of them is
nested.  Changing the classes of a forest changes neither the nesting nor the headers.

* `mem_nodes_iff_nested` : the nodes of a forest are the declarations nested in it at some level;
* `classes_eq_filterMap` : the classes of a forest are those among its nodes;
* `nodes_mapClasses` : the nodes of a changed forest are the changed nodes;
* `mapClasses_congr`, `mapClasses_mapClasses` : a change is known by what it does to the classes of
  the forest, and two changes are one.
-/
import ApiTypings.Forest.Classes

namespace ApiTypings

namespace Declaration

/-! ## Nodes of a list of declarations -/

theorem nodesAll_append (as bs : List Declaration) :
    nodesAll (as ++ bs) = nodesAll as ++ nodesAll bs := by
  induction as with
  | nil => rfl
  | cons a as ih => rw [List.cons_append, nodesAll, nodesAll, ih, List.append_assoc]

theorem nodesAll_flatten (groups : List (List Declaration)) :
    nodesAll groups.flatten = groups.flatMap nodesAll := by
  induction groups with
  | nil => rfl
  | cons group groups ih =>
    rw [List.flatten_cons, nodesAll_append, List.flatMap_cons, ih]

/-- A node of some declarations is a node of one of them. -/
theorem mem_nodesAll {d : Declaration} {ds : List Declaration} :
    d ∈ nodesAll ds ↔ ∃ root ∈ ds, d ∈ root.nodes := by
  induction ds with
  | nil => simp [nodesAll]
  | cons root ds ih => simp [nodesAll, ih]

/-- A declaration without children is its only node. -/
theorem nodes_of_no_children {d : Declaration} (h : d.children = []) : d.nodes = [d] := by
  cases d with
  | node header body children =>
    obtain rfl : children = [] := h
    rfl

theorem nodesAll_of_no_children {ds : List Declaration} (h : ∀ d ∈ ds, d.children = []) :
    nodesAll ds = ds := by
  induction ds with
  | nil => rfl
  | cons d ds ih =>
    rw [nodesAll, nodes_of_no_children (h d List.mem_cons_self),
      ih fun e he => h e (List.mem_cons_of_mem _ he)]
    rfl

/-- The nodes of a declaration: the declaration, then those of its children. -/
theorem nodes_eq_cons (d : Declaration) : d.nodes = d :: nodesAll d.children := by
  cases d with
  | node header body children => rfl

mutual

/-- What is passed up from the children of a declaration holds of every declaration. -/
theorem children_induction {P : Declaration → Prop}
    (step : ∀ d : Declaration, (∀ c ∈ d.children, P c) → P d) : ∀ d, P d
  | node _ _ children => step _ (children_induction_all step children)

theorem children_induction_all {P : Declaration → Prop}
    (step : ∀ d : Declaration, (∀ c ∈ d.children, P c) → P d) :
    ∀ ds : List Declaration, ∀ d ∈ ds, P d
  | [] => fun _ hd => absurd hd List.not_mem_nil
  | d :: ds =>
    List.forall_mem_cons.2 ⟨children_induction step d, children_induction_all step ds⟩

end

/-- A child of a node is a node. -/
theorem mem_nodes_of_child {e c : Declaration} (hc : c ∈ e.children) :
    ∀ d : Declaration, e ∈ d.nodes → c ∈ d.nodes := by
  refine children_induction fun d ih he => ?_
  rw [nodes_eq_cons] at he ⊢
  apply List.mem_cons_of_mem
  rw [mem_nodesAll]
  rcases List.mem_cons.1 he with rfl | he
  · exact ⟨c, hc, by rw [nodes_eq_cons]; exact List.mem_cons_self⟩
  · obtain ⟨child, hchild, hnode⟩ := mem_nodesAll.1 he
    exact ⟨child, hchild, ih child hchild hnode⟩

/-! ## Classes among the nodes -/

mutual

theorem classes_eq_filterMap : ∀ d : Declaration, d.classes = d.nodes.filterMap class?
  | node header body children => by
    rw [classes, nodes, classesAll_eq_filterMap children]
    cases body <;> rfl

theorem classesAll_eq_filterMap :
    ∀ ds : List Declaration, classesAll ds = (nodesAll ds).filterMap class?
  | [] => rfl
  | d :: ds => by
    rw [classesAll, nodesAll, List.filterMap_append, classes_eq_filterMap d,
      classesAll_eq_filterMap ds]

end

theorem classesAll_append (as bs : List Declaration) :
    classesAll (as ++ bs) = classesAll as ++ classesAll bs := by
  simp only [classesAll_eq_filterMap, nodesAll_append, List.filterMap_append]

/-! ## Changed classes -/

section

variable (f : ClassDecl → ClassBody)

@[simp] theorem header_mapClasses (d : Declaration) : (mapClasses f d).header = d.header := by
  cases d; rfl

@[simp] theorem fullName_mapClasses (d : Declaration) :
    (mapClasses f d).fullName = d.fullName := by
  cases d; rfl

@[simp] theorem kind_mapClasses (d : Declaration) : (mapClasses f d).kind = d.kind := by
  cases d with
  | node header body children => cases body <;> rfl

theorem mapClassesAll_eq_map (ds : List Declaration) :
    mapClassesAll f ds = ds.map (mapClasses f) := by
  induction ds with
  | nil => rfl
  | cons d ds ih => rw [mapClassesAll, ih, List.map_cons]

@[simp] theorem children_mapClasses (d : Declaration) :
    (mapClasses f d).children = d.children.map (mapClasses f) := by
  cases d with
  | node header body children => exact mapClassesAll_eq_map f children

mutual

/-- The nodes of a changed declaration are the changed nodes. -/
theorem nodes_mapClasses : ∀ d : Declaration, (mapClasses f d).nodes = d.nodes.map (mapClasses f)
  | node header body children => by
    rw [mapClasses, nodes, nodes, List.map_cons, nodesAll_mapClassesAll children, mapClasses]

/-- The nodes of changed declarations are the changed nodes. -/
theorem nodesAll_mapClassesAll :
    ∀ ds : List Declaration, nodesAll (mapClassesAll f ds) = (nodesAll ds).map (mapClasses f)
  | [] => rfl
  | d :: ds => by
    rw [mapClassesAll, nodesAll, nodesAll, List.map_append, nodes_mapClasses d,
      nodesAll_mapClassesAll ds]

end

end

/-! ## Laws of changes -/

section

variable {f g : ClassDecl → ClassBody}

/-- A changed body is known by what the change does to the class that it is. -/
theorem changeClass_congr {header : Header} {body : Body}
    (h : ∀ c ∈ ownClass header body, f c = g c) :
    changeClass f header.fullName body = changeClass g header.fullName body := by
  cases body with
  | ofClass c => exact congrArg Body.ofClass (h _ List.mem_cons_self)
  | _ => rfl

mutual

/-- A change is known by what it does to the classes in a declaration. -/
theorem mapClasses_congr : ∀ d : Declaration, (∀ c ∈ d.classes, f c = g c) →
    mapClasses f d = mapClasses g d
  | node header body children => fun h => by
    rw [classes, List.forall_mem_append] at h
    rw [mapClasses, mapClasses, changeClass_congr h.1, mapClassesAll_congr children h.2]

theorem mapClassesAll_congr : ∀ ds : List Declaration, (∀ c ∈ classesAll ds, f c = g c) →
    mapClassesAll f ds = mapClassesAll g ds
  | [] => fun _ => rfl
  | d :: ds => fun h => by
    rw [classesAll, List.forall_mem_append] at h
    rw [mapClassesAll, mapClassesAll, mapClasses_congr d h.1, mapClassesAll_congr ds h.2]

end

variable (f g)

mutual

/-- Two changes to a declaration, one after the other, are one change. -/
theorem mapClasses_mapClasses : ∀ d : Declaration,
    mapClasses g (mapClasses f d) = mapClasses (fun c => g ⟨c.fullName, f c⟩) d
  | node header body children => by
    rw [mapClasses, mapClasses, mapClasses, mapClassesAll_mapClassesAll children]
    cases body <;> rfl

theorem mapClassesAll_mapClassesAll : ∀ ds : List Declaration,
    mapClassesAll g (mapClassesAll f ds) = mapClassesAll (fun c => g ⟨c.fullName, f c⟩) ds
  | [] => rfl
  | d :: ds => by
    rw [mapClassesAll, mapClassesAll, mapClassesAll, mapClasses_mapClasses d,
      mapClassesAll_mapClassesAll ds]

end

mutual

/-- Where every class stays as it is, the declaration does. -/
theorem mapClasses_body : ∀ d : Declaration, mapClasses ClassDecl.body d = d
  | node header body children => by
    rw [mapClasses, mapClassesAll_body children]
    cases body <;> rfl

theorem mapClassesAll_body : ∀ ds : List Declaration, mapClassesAll ClassDecl.body ds = ds
  | [] => rfl
  | d :: ds => by rw [mapClassesAll, mapClasses_body d, mapClassesAll_body ds]

end

end

end Declaration

namespace Forest

/-! ## Nesting -/

/-- A declaration is nested in a forest at a level: the roots at level zero, children one level
below their parent. -/
inductive Nested (forest : Forest) : Nat → Declaration → Prop where
  | root {d : Declaration} (h : d ∈ forest) : Nested forest 0 d
  | child {level : Nat} {d c : Declaration} (h : Nested forest level d) (hc : c ∈ d.children) :
      Nested forest (level + 1) c

variable {forest : Forest}

/-- The nodes of a forest are the declarations nested in it at some level. -/
theorem mem_nodes_iff_nested {d : Declaration} :
    d ∈ forest.nodes ↔ ∃ level, Nested forest level d := by
  constructor
  · intro hd
    obtain ⟨root, hroot, hnode⟩ := Declaration.mem_nodesAll.1 hd
    -- said of the nodes below any nested declaration, so that the induction can go down
    suffices hall : ∀ e : Declaration, (∃ level, Nested forest level e) →
        ∀ n ∈ e.nodes, ∃ level, Nested forest level n from
      hall root ⟨0, .root hroot⟩ d hnode
    refine Declaration.children_induction fun e ih => ?_
    rintro ⟨level, he⟩ n hn
    rw [Declaration.nodes_eq_cons] at hn
    rcases List.mem_cons.1 hn with rfl | hn
    · exact ⟨level, he⟩
    · obtain ⟨c, hc, hcn⟩ := Declaration.mem_nodesAll.1 hn
      exact ih c hc ⟨level + 1, he.child hc⟩ n hcn
  · rintro ⟨level, h⟩
    induction h with
    | root h =>
      exact Declaration.mem_nodesAll.2
        ⟨_, h, by rw [Declaration.nodes_eq_cons]; exact List.mem_cons_self⟩
    | child _ hc ih =>
      obtain ⟨root, hroot, hnode⟩ := Declaration.mem_nodesAll.1 ih
      exact Declaration.mem_nodesAll.2
        ⟨root, hroot, Declaration.mem_nodes_of_child hc root hnode⟩

/-- What is nested in a changed forest is a changed declaration of the same level. -/
theorem Nested.of_mapClasses {f : ClassDecl → ClassBody} {level : Nat} {d : Declaration}
    (h : Nested (forest.mapClasses f) level d) :
    ∃ e, Nested forest level e ∧ d = Declaration.mapClasses f e := by
  induction h with
  | root h =>
    rw [mapClasses, Declaration.mapClassesAll_eq_map] at h
    obtain ⟨e, he, rfl⟩ := List.mem_map.1 h
    exact ⟨e, .root he, rfl⟩
  | child _ hc ih =>
    obtain ⟨e, he, rfl⟩ := ih
    rw [Declaration.children_mapClasses] at hc
    obtain ⟨c', hc', rfl⟩ := List.mem_map.1 hc
    exact ⟨c', he.child hc', rfl⟩

theorem nodes_mapClasses (f : ClassDecl → ClassBody) :
    (forest.mapClasses f).nodes = forest.nodes.map (Declaration.mapClasses f) :=
  Declaration.nodesAll_mapClassesAll f forest

theorem classes_eq_filterMap (forest : Forest) :
    forest.classes = forest.nodes.filterMap Declaration.class? :=
  Declaration.classesAll_eq_filterMap forest

/-- A change is known by what it does to the classes of the forest. -/
theorem mapClasses_congr {f g : ClassDecl → ClassBody} (h : ∀ c ∈ forest.classes, f c = g c) :
    forest.mapClasses f = forest.mapClasses g :=
  Declaration.mapClassesAll_congr forest h

/-- Two changes, one after the other, are one change. -/
theorem mapClasses_mapClasses (f g : ClassDecl → ClassBody) :
    (forest.mapClasses f).mapClasses g = forest.mapClasses fun c => g ⟨c.fullName, f c⟩ :=
  Declaration.mapClassesAll_mapClassesAll f g forest

/-- Where every class stays as it is, the forest does. -/
theorem mapClasses_eq_self {f : ClassDecl → ClassBody} (h : ∀ c ∈ forest.classes, f c = c.body) :
    forest.mapClasses f = forest :=
  (mapClasses_congr h).trans (Declaration.mapClassesAll_body forest)

end Forest

end ApiTypings
