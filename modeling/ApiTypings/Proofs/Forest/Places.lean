/-
# Every symbol in its place

The forest of some symbols has one node for every symbol with a live name and one namespace for
every live prefix that no symbol declares; there are no other nodes.  Nodes of one name come in the
order of the symbols, and only the first one has children.  Each node is nested as deep as its name
is long, in the node whose name is its own without the last segment.

* `filter_sortedByName` : sorting keeps the order of the symbols of one name;
* `Places.mapClasses` : changing classes moves no node;
* `ofSymbols_eq` : the forest of some symbols by the final table of methods;
* `places_ofSymbols` : the nodes of the forest of some symbols;
* `classBody_of_declarations` : where the classes among them come from.
-/
import ApiTypings.Forest.Build
import ApiTypings.Proofs.Forest.Placement
import ApiTypings.Proofs.Hierarchy.Reconciled
import ApiTypings.Proofs.Text.Order

namespace ApiTypings

namespace Forest

variable {settings : Settings}

/-! ## Sorted symbols -/

theorem filter_name_eq_nil {symbols : List Symbol} {name : String}
    (h : ∀ s ∈ symbols, s.name ≠ name) : symbols.filter (·.name == name) = [] :=
  List.filter_eq_nil_iff.2 fun s hs => by simpa using h s hs

/-- Sorting by name keeps the order of the symbols of one name. -/
theorem filter_sortedByName (name : String) (symbols : List Symbol) :
    (sortedByName symbols).filter (·.name == name) = symbols.filter (·.name == name) := by
  have hperm : (sortedByName symbols).Perm symbols := List.mergeSort_perm _ _
  have hnamed : ∀ s ∈ symbols.filter (·.name == name), s.name = name := fun s hs =>
    beq_iff_eq.1 (List.mem_filter.1 hs).2
  have hsorted : (symbols.filter (·.name == name)).Pairwise
      fun a b => decide (a.name ≤ b.name) := by
    rw [List.pairwise_iff_forall_sublist]
    intro a b hab
    rw [hnamed a (hab.subset (by simp)), hnamed b (hab.subset (by simp))]
    exact decide_eq_true (String.le_refl name)
  -- symbols of one name are in order, so a stable sort keeps them as a sublist
  have hsub : (symbols.filter (·.name == name)).Sublist (sortedByName symbols) :=
    List.sublist_mergeSort (Text.decide_key_trans Symbol.name) (Text.decide_key_total Symbol.name)
      hsorted List.filter_sublist
  have hfilter := hsub.filter (·.name == name)
  rw [List.filter_filter, List.filter_congr fun _ _ => Bool.and_self _] at hfilter
  exact (hfilter.eq_of_length (hperm.filter _).length_eq.symm).symm

/-- At the root all segments are still to go. -/
theorem located_root (symbols : List Symbol) : Located [] (symbols.map Entry.ofSymbol) := by
  intro e he
  obtain ⟨s, -, rfl⟩ := List.mem_map.1 he
  exact ⟨Dotted.segments_ne_nil s.name, rfl⟩

theorem namedSymbols_root (name : String) (symbols : List Symbol) :
    namedSymbols name (symbols.map Entry.ofSymbol) = symbols.filter (·.name == name) := by
  have hsymbol : (fun e : Entry => e.symbol) ∘ Entry.ofSymbol = id := rfl
  rw [namedSymbols, List.map_map, hsymbol, List.map_id]

/-! ## Places -/

/-- The forest has a node for every symbol and for nothing else, each in its place. -/
structure Places (settings : Settings) (symbols : List Symbol) (forest : Forest) : Prop where
  /-- The nodes of a live name are those of its symbols, in their order. -/
  declared : ∀ name, IsLive settings name → (∃ s ∈ symbols, s.name = name) →
    (forest.named name).map (·.outline)
      = (symbols.filter (·.name == name)).map (·.outline)
  /-- A live dotted prefix of some name that no symbol has is an empty namespace. -/
  implied : ∀ name, IsLive settings name → (∀ s ∈ symbols, s.name ≠ name) →
    (∃ s ∈ symbols, Dotted.Begins name s.name) →
    (forest.named name).map (·.outline) = [(Symbol.implicitNamespace name).outline]
  /-- There are no other nodes. -/
  only : ∀ d ∈ forest.nodes, IsLive settings d.fullName ∧
    ∃ s ∈ symbols, Dotted.Begins d.fullName s.name
  /-- Of the nodes of one name only the first one has children. -/
  childless : ∀ name, ∀ d ∈ (forest.named name).tail, d.children = []
  /-- A node is nested as deep as its name is long. -/
  depth : ∀ level d, Nested forest level d →
    d.header.depth = level ∧ (Dotted.segments d.fullName).length = level + 1
  /-- A child has one segment more than its parent. -/
  member : ∀ d ∈ forest.nodes, ∀ c ∈ d.children,
    ∃ seg, '.' ∉ seg.toList ∧ c.fullName = Dotted.member d.fullName seg

/-- A name that begins the name of no symbol has no nodes. -/
theorem Places.named_eq_nil {symbols : List Symbol} {forest : Forest}
    (h : Places settings symbols forest) {name : String}
    (hbegins : ¬ ∃ s ∈ symbols, Dotted.Begins name s.name) : forest.named name = [] := by
  refine List.filter_eq_nil_iff.2 fun d hd heq => hbegins ?_
  rw [← beq_iff_eq.1 heq]
  exact (h.only d hd).2

/-- What is nested at a level of placed declarations stands under as many segments. -/
theorem Nested.placed {forest : Forest} (hroots : ∀ d ∈ forest, Placed settings [] d) {level : Nat}
    {d : Declaration} (h : Nested forest level d) :
    ∃ above, above.length = level ∧ Placed settings above d := by
  induction h with
  | root hd => exact ⟨[], rfl, hroots _ hd⟩
  | child _ hc ih =>
    obtain ⟨above, hlength, hplaced⟩ := ih
    obtain ⟨seg, -, -, hchildren⟩ := hplaced.cases_symbol
    exact ⟨above ++ [seg], by rw [List.length_append, hlength]; rfl, hchildren _ hc⟩

/-- The name of a child is that of its parent with one more segment. -/
theorem Placed.fullName_child {above : List String} {d c : Declaration}
    (h : Placed settings above d) (hc : c ∈ d.children) :
    ∃ seg, '.' ∉ seg.toList ∧ c.fullName = Dotted.member d.fullName seg := by
  obtain ⟨last, hd, -, hchildren⟩ := h.cases_symbol
  obtain ⟨seg, hname, -⟩ := (hchildren c hc).cases_symbol
  have hseg : seg ∈ Dotted.segments c.fullName := by simp [hname]
  refine ⟨seg, Dotted.dot_not_mem_of_mem_segments hseg, ?_⟩
  rw [← Dotted.fromSegments_segments c.fullName, hname,
    Dotted.fromSegments_concat (by simp), ← hd, Dotted.fromSegments_segments]

section

variable {symbols : List Symbol} {forest : Forest}

/-- The nodes of a live name stand for the symbols of that name. -/
theorem named_declarations (h : declarations settings symbols = .ok forest) {name : String}
    (hlive : IsLive settings name) (hbegins : ∃ s ∈ symbols, Dotted.Begins name s.name) :
    StandFor name (symbols.filter (·.name == name)) (forest.named name) := by
  obtain ⟨s, hs, hbegins⟩ := hbegins
  have hentry : Entry.ofSymbol s ∈ (sortedByName symbols).map Entry.ofSymbol :=
    List.mem_map_of_mem (List.mem_mergeSort.2 hs)
  have hstand := named_level (located_root _) (Dotted.segments_ne_nil name) rfl
    (isLive_iff.1 hlive) ⟨_, hentry, hbegins⟩ h
  rwa [namedSymbols_root, filter_sortedByName] at hstand

/-- The names of all nodes are live, and each of them begins the name of a symbol. -/
theorem live_of_mem_declarations (h : declarations settings symbols = .ok forest) {d : Declaration}
    (hd : d ∈ forest.nodes) :
    IsLive settings d.fullName ∧ ∃ s ∈ symbols, Dotted.Begins d.fullName s.name := by
  obtain ⟨path, hpath, hlive, e, he, hpre⟩ := live_of_mem_level (located_root _) h d hd
  rw [List.nil_append] at hpath
  obtain ⟨s, hs, rfl⟩ := List.mem_map.1 he
  exact ⟨isLive_iff.2 (hpath ▸ hlive), s, List.mem_mergeSort.1 hs, by rwa [Dotted.Begins, hpath]⟩

/-- Without the changes to overrides the declarations of some symbols are in their places. -/
theorem places_declarations (h : declarations settings symbols = .ok forest) :
    Places settings symbols forest where
  declared := by
    rintro name hlive ⟨s, hs, rfl⟩
    have houtlines := (named_declarations h hlive ⟨s, hs, List.prefix_rfl⟩).1
    cases hsymbols : symbols.filter (·.name == s.name) with
    | nil => exact absurd hsymbols (List.ne_nil_of_mem (List.mem_filter.2 ⟨hs, by simp⟩))
    | cons t others => rwa [hsymbols] at houtlines
  implied := by
    intro name hlive hnone hbegins
    have houtlines := (named_declarations h hlive hbegins).1
    rwa [filter_name_eq_nil hnone] at houtlines
  only := fun d hd => live_of_mem_declarations h hd
  childless := by
    intro name d hd
    obtain ⟨hnode, hname⟩ := List.mem_filter.1 (List.mem_of_mem_tail hd)
    obtain ⟨hlive, hbegins⟩ := live_of_mem_declarations h hnode
    rw [beq_iff_eq.1 hname] at hlive hbegins
    exact (named_declarations h hlive hbegins).2 d hd
  depth := by
    intro level d hd
    obtain ⟨above, rfl, hplaced⟩ := hd.placed (placed_level (located_root _) h)
    obtain ⟨seg, hname, hdepth, -⟩ := hplaced.cases_symbol
    exact ⟨hdepth, by rw [hname, List.length_append]; rfl⟩
  member := by
    intro d hd c hc
    obtain ⟨level, hnested⟩ := mem_nodes_iff_nested.1 hd
    obtain ⟨above, -, hplaced⟩ := hnested.placed (placed_level (located_root _) h)
    exact hplaced.fullName_child hc

end

/-! ## The reconciled forest -/

theorem named_mapClasses (forest : Forest) (f : ClassDecl → ClassBody) (name : String) :
    (forest.mapClasses f).named name = (forest.named name).map (Declaration.mapClasses f) := by
  rw [named, named, nodes_mapClasses, List.filter_map]
  simp only [Function.comp_def, Declaration.fullName_mapClasses]

theorem outlines_mapClasses (forest : Forest) (f : ClassDecl → ClassBody) (name : String) :
    ((forest.mapClasses f).named name).map (·.outline) = (forest.named name).map (·.outline) := by
  rw [named_mapClasses, List.map_map]
  simp only [Function.comp_def, Declaration.outline_mapClasses]

theorem exists_of_mem_mapClasses {forest : Forest} {f : ClassDecl → ClassBody} {d : Declaration}
    (hd : d ∈ (forest.mapClasses f).nodes) :
    ∃ e ∈ forest.nodes, d = Declaration.mapClasses f e := by
  rw [nodes_mapClasses] at hd
  obtain ⟨e, he, rfl⟩ := List.mem_map.1 hd
  exact ⟨e, he, rfl⟩

/-- Changing classes moves no node. -/
theorem Places.mapClasses {symbols : List Symbol} {forest : Forest}
    (h : Places settings symbols forest) (f : ClassDecl → ClassBody) :
    Places settings symbols (forest.mapClasses f) where
  declared := fun name hlive hs =>
    (outlines_mapClasses forest f name).trans (h.declared name hlive hs)
  implied := fun name hlive hnone hbegins =>
    (outlines_mapClasses forest f name).trans (h.implied name hlive hnone hbegins)
  only := by
    intro d hd
    obtain ⟨e, he, rfl⟩ := exists_of_mem_mapClasses hd
    rw [Declaration.fullName_mapClasses]
    exact h.only e he
  childless := by
    intro name d hd
    rw [named_mapClasses, ← List.map_tail] at hd
    obtain ⟨e, he, rfl⟩ := List.mem_map.1 hd
    rw [Declaration.children_mapClasses, h.childless name e he]
    rfl
  depth := by
    intro level d hd
    obtain ⟨e, he, rfl⟩ := hd.of_mapClasses
    rw [Declaration.fullName_mapClasses, Declaration.header_mapClasses]
    exact h.depth level e he
  member := by
    intro d hd c hc
    obtain ⟨e, he, rfl⟩ := exists_of_mem_mapClasses hd
    rw [Declaration.children_mapClasses] at hc
    obtain ⟨c', hc', rfl⟩ := List.mem_map.1 hc
    rw [Declaration.fullName_mapClasses, Declaration.fullName_mapClasses]
    exact h.member e he c' hc'

/-- Bringing overrides in line moves no node. -/
theorem Places.reconcileOverrides {symbols : List Symbol} {forest : Forest}
    (h : Places settings symbols forest) {i : ClassIndex}
    (hi : ClassIndex.ofForest forest = .ok i) :
    Places settings symbols (forest.reconcileOverrides i) := by
  rw [reconcileOverrides_eq hi]
  exact h.mapClasses _

/-- A forest of symbols is made of their declarations, with all overrides brought in line. -/
theorem ofSymbols_eq_ok {symbols : List Symbol} {forest : Forest}
    (h : ofSymbols settings symbols = .ok forest) :
    ∃ declared i, declarations settings symbols = .ok declared ∧
      ClassIndex.ofForest declared = .ok i ∧ forest = declared.reconcileOverrides i := by
  obtain ⟨declared, hdeclared, hrest⟩ := bind_eq_ok.1 h
  obtain ⟨i, hi, hpure⟩ := bind_eq_ok.1 hrest
  exact ⟨declared, i, hdeclared, hi, (pure_eq_ok.1 hpure).symm⟩

/-- The forest of symbols is made of their declarations, with the methods of the final table. -/
theorem ofSymbols_eq (settings : Settings) (symbols : List Symbol) :
    ofSymbols settings symbols = do
      let declared ← declarations settings symbols
      let i ← ClassIndex.ofForest declared
      return declared.withMethods (i.reconcileAll declared.methodTable) := by
  refine bind_congr fun declared => ?_
  cases hi : ClassIndex.ofForest declared with
  | error e => rfl
  | ok i => exact congrArg Except.ok (reconcileOverrides_eq hi)

/-- **Places.**  In the forest of some symbols every symbol with a live name and every live prefix
of a name is in its place, and there is nothing else. -/
theorem places_ofSymbols {symbols : List Symbol} {forest : Forest}
    (h : ofSymbols settings symbols = .ok forest) : Places settings symbols forest := by
  obtain ⟨declared, i, hdeclared, hi, rfl⟩ := ofSymbols_eq_ok h
  exact (places_declarations hdeclared).reconcileOverrides hi

/-! ## Classes -/

/-- A class that stands for symbols is built from a documented class. -/
theorem Placed.classBody {above : List String} {d : Declaration} (h : Placed settings above d)
    {c : ClassDecl} (hc : d.class? = some c) :
    ∃ s : Symbol, s.name = c.fullName ∧
      Declaration.classBody settings s = .ok (.ofClass c.body) := by
  cases h with
  | @node _ seg s children _ hname hbuild hchildren =>
    obtain ⟨body, hbody, rfl⟩ := Declaration.build_eq_ok hbuild
    obtain ⟨b, hb, rfl⟩ := Option.map_eq_some_iff.1 hc
    cases body with
    | ofClass b' =>
      obtain rfl := Option.some.inj hb
      refine ⟨s, rfl, ?_⟩
      have hkind : SymbolKind.classKind = s.kind := Declaration.kind_of_bodyOf hbody
      rwa [Declaration.bodyOf, ← hkind] at hbody
    | _ => exact absurd hb (by simp [Declaration.body, Body.class?])

/-- The classes among the declarations of some symbols are built from documented classes. -/
theorem classBody_of_declarations {symbols : List Symbol} {forest : Forest}
    (h : declarations settings symbols = .ok forest) {c : ClassDecl} (hc : c ∈ forest.classes) :
    ∃ s : Symbol, s.name = c.fullName ∧
      Declaration.classBody settings s = .ok (.ofClass c.body) := by
  rw [classes_eq_filterMap] at hc
  obtain ⟨d, hd, hclass⟩ := List.mem_filterMap.1 hc
  obtain ⟨level, hnested⟩ := mem_nodes_iff_nested.1 hd
  obtain ⟨above, -, hplaced⟩ := hnested.placed (placed_level (located_root _) h)
  exact hplaced.classBody hclass

/-! ## A small forest -/

/-- Settings that leave out every namespace called `test`. -/
def withoutTests : Settings := { ignored := { namespaces := ⟨["*.test"]⟩ } }

/-- A class and an interface of one name, and a class in a namespace called `test`. -/
def declaredTwice : List Symbol :=
  [{ name := "x.A", kind := .classKind }, { name := "x.A", kind := .interfaceKind },
    { name := "y.test.B", kind := .classKind }]

theorem places_declaredTwice :
    ∃ forest, ofSymbols withoutTests declaredTwice = .ok forest ∧
      Places withoutTests declaredTwice forest ∧
      forest.nodes.map (·.fullName) = ["x", "x.A", "x.A", "y"] := by
  have hsorted : sortedByName declaredTwice = declaredTwice :=
    List.mergeSort_of_pairwise (by decide +kernel)
  have hnames : ((ofSymbols withoutTests declaredTwice).toOption.any fun forest =>
      forest.nodes.map (·.fullName) == ["x", "x.A", "x.A", "y"]) = true := by
    rw [ofSymbols_eq, declarations, hsorted]
    decide +kernel
  cases hforest : ofSymbols withoutTests declaredTwice with
  | error e =>
    rw [hforest] at hnames
    exact absurd hnames (by simp [Except.toOption])
  | ok forest =>
    rw [hforest] at hnames
    exact ⟨forest, rfl, places_ofSymbols hforest, beq_iff_eq.1 hnames⟩

end Forest

end ApiTypings
