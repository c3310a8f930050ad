/-
# Exported declarations

A stub exports the declaration of a documented symbol by its name.  Stubs are made of all symbols,
ignored or not; declarations are nodes of the forest, and there the settings leave namespaces out.
So a stub refers to a declaration of its run exactly when its name is live: the stub of a class in
an ignored namespace refers to nothing.

* `exists_node_iff` : which symbols have a node in the forest;
* `exists_of_mem_ofSymbols` : which names stubs export;
* `exported_declared_iff` : which stubs refer to a declaration.
-/
import ApiTypings.Generation
import ApiTypings.Proofs.Forest.Places

namespace ApiTypings

/-! ## Stubs -/

namespace ExportStub

/-- The text of the stub that exports a name. -/
def exporting (name : String) : String := "export default " ++ name ++ ";"

/-- A stub exports one name only. -/
theorem exporting_inj {a b : String} : exporting a = exporting b ↔ a = b := by
  rw [exporting, exporting, String.append_left_inj, String.append_right_inj]

/-- Every stub exports the name of a symbol. -/
theorem exists_of_mem_ofSymbols {symbols : List Symbol} {stub : ExportStub}
    (h : stub ∈ ofSymbols symbols) : ∃ s ∈ symbols, stub.content = exporting s.name := by
  obtain ⟨s, hs, hstub⟩ := List.mem_filterMap.1 h
  rw [ofSymbol?] at hstub
  split at hstub
  · exact absurd hstub (by simp)
  · obtain ⟨path, -, rfl⟩ := Option.map_eq_some_iff.1 hstub
    exact ⟨s, hs, rfl⟩

end ExportStub

/-! ## Nodes of documented names -/

namespace Forest

variable {settings : Settings} {symbols : List Symbol} {forest : Forest}

/-- A documented name has a node exactly when it is live. -/
theorem Places.exists_node_iff (h : Places settings symbols forest) {s : Symbol}
    (hs : s ∈ symbols) : (∃ d ∈ forest.nodes, d.fullName = s.name) ↔ IsLive settings s.name := by
  constructor
  · rintro ⟨d, hd, hname⟩
    exact hname ▸ (h.only d hd).1
  · intro hlive
    have houtlines := h.declared s.name hlive ⟨s, hs, rfl⟩
    have hmem : s.outline ∈ (forest.named s.name).map (·.outline) := by
      rw [houtlines]
      exact List.mem_map_of_mem (List.mem_filter.2 ⟨hs, beq_self_eq_true s.name⟩)
    obtain ⟨d, hd, -⟩ := List.mem_map.1 hmem
    obtain ⟨hnode, hname⟩ := List.mem_filter.1 hd
    exact ⟨d, hnode, beq_iff_eq.1 hname⟩

end Forest

/-! ## Generations -/

namespace Generation

/-- A generation writes out the forest of its symbols, and the stubs of its symbols. -/
theorem ofDocuments_eq_ok {settings : Settings} {documents : List ApiDocument} {g : Generation}
    (h : ofDocuments settings documents = .ok g) :
    ∃ forest, Forest.ofSymbols settings (symbolsOf settings documents) = .ok forest ∧
      g.definitions = definitionsOf settings.output.indentation forest ∧
      g.exports = ExportStub.ofSymbols (symbolsOf settings documents) := by
  obtain ⟨forest, hforest, hpure⟩ := bind_eq_ok.1 h
  obtain rfl := pure_eq_ok.1 hpure
  exact ⟨forest, hforest, rfl, rfl⟩

/-- Documents whose symbols have a forest are generated. -/
theorem exists_ofDocuments {settings : Settings} {documents : List ApiDocument} {forest : Forest}
    (h : Forest.ofSymbols settings (symbolsOf settings documents) = .ok forest) :
    ∃ g, ofDocuments settings documents = .ok g ∧
      g.definitions = definitionsOf settings.output.indentation forest ∧
      g.exports = ExportStub.ofSymbols (symbolsOf settings documents) := by
  rw [ofDocuments, h]
  exact ⟨_, rfl, rfl, rfl⟩

/-- **Exported declarations.**  Every stub of a generation exports the name of a documented symbol,
and the forest that is written out declares that name exactly when the settings leave out none of
its dotted prefixes. -/
theorem exported_declared_iff {settings : Settings} {documents : List ApiDocument} {g : Generation}
    (h : ofDocuments settings documents = .ok g) :
    ∃ forest, Forest.ofSymbols settings (symbolsOf settings documents) = .ok forest ∧
      g.definitions = definitionsOf settings.output.indentation forest ∧
      ∀ stub ∈ g.exports,
        (∃ s ∈ symbolsOf settings documents, stub.content = ExportStub.exporting s.name) ∧
        ∀ name, stub.content = ExportStub.exporting name →
          ((∃ d ∈ forest.nodes, d.fullName = name) ↔ IsLive settings name) := by
  obtain ⟨forest, hforest, hdefinitions, hexports⟩ := ofDocuments_eq_ok h
  have hplaces := Forest.places_ofSymbols hforest
  refine ⟨_, hforest, hdefinitions, fun stub hstub => ?_⟩
  rw [hexports] at hstub
  obtain ⟨s, hs, hcontent⟩ := ExportStub.exists_of_mem_ofSymbols hstub
  refine ⟨⟨s, hs, hcontent⟩, fun name hname => ?_⟩
  obtain rfl := ExportStub.exporting_inj.1 (hcontent.symm.trans hname)
  exact hplaces.exists_node_iff hs

/-! ## A small generation -/

/-- A library with a class, and a class in a namespace called `test`. -/
def probeDocuments : List ApiDocument :=
  [{ library := "x", symbols :=
    [{ name := "x.A", kind := .classKind }, { name := "x.test.Probe", kind := .classKind }] }]

/-- Without tests only the first class is declared. -/
theorem ofDocuments_probe :
    ∃ forest g, Forest.ofSymbols Forest.withoutTests (symbolsOf Forest.withoutTests probeDocuments)
        = .ok forest ∧
      ofDocuments Forest.withoutTests probeDocuments = .ok g ∧
      g.definitions = definitionsOf Forest.withoutTests.output.indentation forest ∧
      g.exports.map (·.content)
        = [ExportStub.exporting "x.A", ExportStub.exporting "x.test.Probe"] ∧
      forest.nodes.map (·.fullName) = ["x", "x.A"] := by
  have hsorted : Forest.sortedByName (symbolsOf Forest.withoutTests probeDocuments)
      = symbolsOf Forest.withoutTests probeDocuments :=
    List.mergeSort_of_pairwise (by decide +kernel)
  have hexports : (ExportStub.ofSymbols (symbolsOf Forest.withoutTests probeDocuments)).map
      (·.content) = [ExportStub.exporting "x.A", ExportStub.exporting "x.test.Probe"] := by
    decide +kernel
  have hnames : ((Forest.ofSymbols Forest.withoutTests
      (symbolsOf Forest.withoutTests probeDocuments)).toOption.any fun forest =>
        forest.nodes.map (·.fullName) == ["x", "x.A"]) = true := by
    rw [Forest.ofSymbols_eq, Forest.declarations, hsorted]
    decide +kernel
  cases hforest : Forest.ofSymbols Forest.withoutTests
      (symbolsOf Forest.withoutTests probeDocuments) with
  | error e =>
    rw [hforest] at hnames
    exact absurd hnames (by simp [Except.toOption])
  | ok forest =>
    rw [hforest] at hnames
    obtain ⟨g, hg, hdefinitions, hstubs⟩ := exists_ofDocuments hforest
    exact ⟨forest, g, rfl, hg, hdefinitions, hstubs ▸ hexports, beq_iff_eq.1 hnames⟩

theorem exported_declared_iff_probe :
    ∃ g, ofDocuments Forest.withoutTests probeDocuments = .ok g ∧
      ∃ forest, Forest.ofSymbols Forest.withoutTests
          (symbolsOf Forest.withoutTests probeDocuments) = .ok forest ∧
        g.definitions = definitionsOf Forest.withoutTests.output.indentation forest ∧
        ∀ stub ∈ g.exports,
          (∃ s ∈ symbolsOf Forest.withoutTests probeDocuments,
            stub.content = ExportStub.exporting s.name) ∧
          ∀ name, stub.content = ExportStub.exporting name →
            ((∃ d ∈ forest.nodes, d.fullName = name) ↔ IsLive Forest.withoutTests name) := by
  obtain ⟨-, g, -, hg, -⟩ := ofDocuments_probe
  exact ⟨g, hg, exported_declared_iff hg⟩

/-- The stub of a class in an ignored namespace refers to nothing. -/
theorem exported_not_declared_probe :
    ∃ g forest, ofDocuments Forest.withoutTests probeDocuments = .ok g ∧
      Forest.ofSymbols Forest.withoutTests (symbolsOf Forest.withoutTests probeDocuments)
        = .ok forest ∧
      g.definitions = definitionsOf Forest.withoutTests.output.indentation forest ∧
      ∃ stub ∈ g.exports, stub.content = ExportStub.exporting "x.test.Probe" ∧
        ¬ ∃ d ∈ forest.nodes, d.fullName = "x.test.Probe" := by
  obtain ⟨forest, g, hforest, hg, hdefinitions, hexports, hnames⟩ := ofDocuments_probe
  refine ⟨g, forest, hg, hforest, hdefinitions, ?_⟩
  have hmem : ExportStub.exporting "x.test.Probe" ∈ g.exports.map (·.content) := by simp [hexports]
  obtain ⟨stub, hstub, hcontent⟩ := List.mem_map.1 hmem
  refine ⟨stub, hstub, hcontent, ?_⟩
  rintro ⟨d, hd, hname⟩
  have hnode : d.fullName ∈ forest.nodes.map (·.fullName) := List.mem_map_of_mem hd
  rw [hnames, hname] at hnode
  exact absurd hnode (by decide)

end Generation

end ApiTypings
