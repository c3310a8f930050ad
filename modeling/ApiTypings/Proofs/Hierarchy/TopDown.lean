/-
# The order from the top down

The walk down visits a class before its subclasses, each class once.  It visits exactly the classes
whose chain of base classes ends: no walk from the top enters a cycle.

* `nodup_topDown` : no class is visited twice;
* `baseFirst_topDown` : a class comes after its base class;
* `mem_topDown` : the classes that are visited.
-/
import ApiTypings.Proofs.Hierarchy.Chain

namespace ApiTypings.ClassIndex

variable {i : ClassIndex}

/-! ## Entries of an index without repeated names -/

/-- The base class of an entry is the base class of its name. -/
theorem baseOf?_of_mem (hnd : i.names.Nodup) {e : ClassEntry} (he : e ∈ i.entries) :
    i.baseOf? e.name = e.base := by
  rw [baseOf?, find?_entry hnd he]
  rfl

/-- A name outside the index has no base class. -/
theorem baseOf?_eq_none {name : String} (h : name ∉ i.names) : i.baseOf? name = none := by
  cases hb : i.baseOf? name with
  | none => rfl
  | some base => exact absurd (mem_names_of_baseOf hb) h

/-- The subclasses of a class. -/
theorem mem_subclasses (hnd : i.names.Nodup) {name sub : String} :
    sub ∈ i.subclasses name ↔ i.baseOf? sub = some name := by
  simp only [subclasses, List.mem_mergeSort, List.mem_map, List.mem_filter, beq_iff_eq]
  constructor
  · rintro ⟨e, ⟨he, hb⟩, rfl⟩
    rw [baseOf?_of_mem hnd he, hb]
  · intro hb
    obtain ⟨e, he, rfl⟩ := List.mem_map.1 (mem_names_of_baseOf hb)
    exact ⟨e, ⟨he, by rw [← baseOf?_of_mem hnd he, hb]⟩, rfl⟩

/-- The classes at the top: those without a base class in the index. -/
theorem mem_roots (hnd : i.names.Nodup) {name : String} :
    name ∈ i.roots ↔ name ∈ i.names ∧ ∀ base, i.baseOf? name = some base → base ∉ i.names := by
  simp only [roots, List.mem_mergeSort, List.mem_map, List.mem_filter]
  constructor
  · rintro ⟨e, ⟨he, htop⟩, rfl⟩
    refine ⟨List.mem_map_of_mem he, fun base hb => ?_⟩
    rw [baseOf?_of_mem hnd he] at hb
    simpa [isTop, hb, contains] using htop
  · rintro ⟨hmem, htop⟩
    obtain ⟨e, he, rfl⟩ := List.mem_map.1 hmem
    refine ⟨e, ⟨he, ?_⟩, rfl⟩
    rw [baseOf?_of_mem hnd he] at htop
    cases hb : e.base with
    | none => simp [isTop, hb]
    | some base => simpa [isTop, hb, contains] using htop base hb

/-! ## The walk down -/

/-- A visited name, or one outside the index, is passed over. -/
theorem walkDown_of_skip {visited todo : List String} {name : String}
    (h : name ∈ visited ∨ name ∉ i.names) :
    i.walkDown visited (name :: todo) = i.walkDown visited todo := by
  rw [walkDown, dif_pos h]

/-- Any other name is visited, its subclasses next. -/
theorem walkDown_of_visit {visited todo : List String} {name : String}
    (h : ¬ (name ∈ visited ∨ name ∉ i.names)) :
    i.walkDown visited (name :: todo)
      = name :: i.walkDown (name :: visited) (i.subclasses name ++ todo) := by
  rw [walkDown, dif_neg h]

/-- The walk visits classes of the index that were not visited before. -/
theorem new_of_mem_walkDown {visited todo : List String} {x : String}
    (h : x ∈ i.walkDown visited todo) : x ∉ visited ∧ x ∈ i.names := by
  induction visited, todo using walkDown.induct i with
  | case1 visited =>
    rw [walkDown] at h
    exact absurd h List.not_mem_nil
  | case2 visited name todo hskip ih => exact ih (walkDown_of_skip hskip ▸ h)
  | case3 visited name todo hvisit ih =>
    rw [walkDown_of_visit hvisit] at h
    rcases List.mem_cons.1 h with rfl | h
    · exact ⟨fun hv => hvisit (Or.inl hv), Classical.not_not.1 fun hn => hvisit (Or.inr hn)⟩
    · exact ⟨fun hv => (ih h).1 (List.mem_cons_of_mem _ hv), (ih h).2⟩

/-- The walk visits no class twice. -/
theorem nodup_walkDown (visited todo : List String) : (i.walkDown visited todo).Nodup := by
  induction visited, todo using walkDown.induct i with
  | case1 visited => rw [walkDown]; exact List.nodup_nil
  | case2 visited name todo hskip ih => rw [walkDown_of_skip hskip]; exact ih
  | case3 visited name todo hvisit ih =>
    rw [walkDown_of_visit hvisit, List.nodup_cons]
    exact ⟨fun h => (new_of_mem_walkDown h).1 List.mem_cons_self, ih⟩

/-- Every class to do is visited. -/
theorem mem_walkDown_of_todo {visited todo : List String} {x : String} (h : x ∈ todo)
    (hx : x ∈ i.names) : x ∈ visited ∨ x ∈ i.walkDown visited todo := by
  induction visited, todo using walkDown.induct i with
  | case1 visited => exact absurd h List.not_mem_nil
  | case2 visited name todo hskip ih =>
    rw [walkDown_of_skip hskip]
    rcases List.mem_cons.1 h with rfl | h
    · exact Or.inl (hskip.resolve_right fun hn => hn hx)
    · exact ih h
  | case3 visited name todo hvisit ih =>
    rw [walkDown_of_visit hvisit]
    rcases List.mem_cons.1 h with rfl | h
    · exact Or.inr List.mem_cons_self
    · rcases ih (List.mem_append_right _ h) with h | h
      · rcases List.mem_cons.1 h with rfl | h
        · exact Or.inr List.mem_cons_self
        · exact Or.inl h
      · exact Or.inr (List.mem_cons_of_mem _ h)

/-- With a class the walk visits its subclasses. -/
theorem subclass_mem_walkDown {visited todo : List String} {x sub : String}
    (h : x ∈ i.walkDown visited todo) (hs : sub ∈ i.subclasses x) (hsub : sub ∈ i.names) :
    sub ∈ visited ∨ sub ∈ i.walkDown visited todo := by
  induction visited, todo using walkDown.induct i with
  | case1 visited =>
    rw [walkDown] at h
    exact absurd h List.not_mem_nil
  | case2 visited name todo hskip ih =>
    rw [walkDown_of_skip hskip] at h ⊢
    exact ih h
  | case3 visited name todo hvisit ih =>
    rw [walkDown_of_visit hvisit] at h ⊢
    have hrest : sub ∈ name :: visited
        ∨ sub ∈ i.walkDown (name :: visited) (i.subclasses name ++ todo) := by
      rcases List.mem_cons.1 h with rfl | h
      · exact mem_walkDown_of_todo (List.mem_append_left _ hs) hsub
      · exact ih h
    rcases hrest with h | h
    · rcases List.mem_cons.1 h with rfl | h
      · exact Or.inr List.mem_cons_self
      · exact Or.inl h
    · exact Or.inr (List.mem_cons_of_mem _ h)

/-! ## Base classes first -/

/-- Whether the base class of a name lies outside the index or was visited. -/
def BaseVisited (i : ClassIndex) (visited : List String) (name : String) : Prop :=
  ∀ base, i.baseOf? name = some base → base ∈ i.names → base ∈ visited

/-- Whether every name of a list comes after its base class, or its base class was visited. -/
def BaseFirst (i : ClassIndex) (visited : List String) : List String → Prop
  | [] => True
  | name :: names => i.BaseVisited visited name ∧ BaseFirst i (name :: visited) names

theorem BaseVisited.cons {visited : List String} {name : String} (x : String)
    (h : i.BaseVisited visited name) : i.BaseVisited (x :: visited) name :=
  fun base hb hmem => List.mem_cons_of_mem _ (h base hb hmem)

/-- The walk visits base classes first, when that holds of the names to do. -/
theorem baseFirst_walkDown (hnd : i.names.Nodup) {visited todo : List String}
    (h : ∀ x ∈ todo, i.BaseVisited visited x) : i.BaseFirst visited (i.walkDown visited todo) := by
  induction visited, todo using walkDown.induct i with
  | case1 visited => rw [walkDown]; exact trivial
  | case2 visited name todo hskip ih =>
    rw [walkDown_of_skip hskip]
    exact ih fun x hx => h x (List.mem_cons_of_mem _ hx)
  | case3 visited name todo hvisit ih =>
    rw [walkDown_of_visit hvisit]
    refine ⟨h name List.mem_cons_self, ih fun x hx => ?_⟩
    rcases List.mem_append.1 hx with hx | hx
    · intro base hb _
      rw [(mem_subclasses hnd).1 hx] at hb
      exact Option.some.inj hb ▸ List.mem_cons_self
    · exact (h x (List.mem_cons_of_mem _ hx)).cons name

/-- Visited names are closed under base classes when every one had its base class visited. -/
theorem mem_visited_of_reaches {visited : List String} {name a : String}
    (hclosed : ∀ x ∈ visited, i.BaseVisited visited x) (hname : name ∈ i.names → name ∈ visited)
    (hr : i.Reaches name a) (ha : a ∈ i.names) : a ∈ visited := by
  induction hr with
  | refl => exact hname ha
  | tail _ hb ih =>
    have hmem := mem_names_of_baseOf hb
    exact hclosed _ (ih hmem) _ hb ha

/-- The classes above a name were visited when its base class was. -/
theorem ancestors_visited {visited : List String} {name : String}
    (hclosed : ∀ x ∈ visited, i.BaseVisited visited x) (hname : i.BaseVisited visited name)
    {a : String} (ha : a ∈ i.ancestors name) (hmem : a ∈ i.names) : a ∈ visited := by
  obtain ⟨base, hb, hr⟩ := mem_ancestors.1 ha
  exact mem_visited_of_reaches hclosed (hname base hb) hr hmem

/-- Where base classes come first, every chain ends. -/
theorem BaseFirst.chainEnds {visited names : List String} (h : i.BaseFirst visited names)
    (hvisited : ∀ x ∈ visited, i.ChainEnds x) : ∀ x ∈ names, i.ChainEnds x := by
  induction names generalizing visited with
  | nil => exact fun x hx => absurd hx List.not_mem_nil
  | cons name names ih =>
    have hname : i.ChainEnds name := by
      cases hb : i.baseOf? name with
      | none => exact .top hb
      | some base =>
        by_cases hmem : base ∈ i.names
        · exact .next hb (hvisited base (h.1 base hb hmem))
        · exact .next hb (.top (baseOf?_eq_none hmem))
    exact List.forall_mem_cons.2 ⟨hname, ih h.2 (List.forall_mem_cons.2 ⟨hname, hvisited⟩)⟩

/-! ## The order of the whole index -/

/-- No class is visited twice. -/
theorem nodup_topDown : i.topDown.Nodup := nodup_walkDown [] i.roots

/-- A class is visited after its base class. -/
theorem baseFirst_topDown (hnd : i.names.Nodup) : i.BaseFirst [] i.topDown :=
  baseFirst_walkDown hnd fun _ hx base hb hmem => absurd hmem (((mem_roots hnd).1 hx).2 base hb)

/-- The walk from the top visits exactly the classes whose chain of base classes ends. -/
theorem mem_topDown (hnd : i.names.Nodup) {name : String} :
    name ∈ i.topDown ↔ name ∈ i.names ∧ i.ChainEnds name := by
  constructor
  · intro h
    refine ⟨(new_of_mem_walkDown h).2, ?_⟩
    exact (baseFirst_topDown hnd).chainEnds (fun x hx => absurd hx List.not_mem_nil) name h
  · rintro ⟨hmem, hends⟩
    -- downwards along the chain: each class is a root or a subclass of a visited class
    have hroot : name ∈ i.roots → name ∈ i.topDown := fun h =>
      (mem_walkDown_of_todo h hmem).resolve_left List.not_mem_nil
    induction hends with
    | top hb => exact hroot ((mem_roots hnd).2 ⟨hmem, fun base hb' => by simp [hb] at hb'⟩)
    | @next name base hb hbase ih =>
      by_cases hin : base ∈ i.names
      · have hbase' : base ∈ i.topDown :=
          ih hin fun h => (mem_walkDown_of_todo h hin).resolve_left List.not_mem_nil
        exact (subclass_mem_walkDown hbase' ((mem_subclasses hnd).2 hb) hmem).resolve_left
          List.not_mem_nil
      · refine hroot ((mem_roots hnd).2 ⟨hmem, fun base' hb' => ?_⟩)
        exact Option.some.inj (hb.symm.trans hb') ▸ hin

end ApiTypings.ClassIndex
