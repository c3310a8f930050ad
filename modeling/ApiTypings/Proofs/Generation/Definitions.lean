/-
# Definition files

Roots of one name stand next to each other in the forest, so their texts stand in one definition
file one behind the other, and the files hold the texts of all roots in order.  The files of a
generation are written to one directory, the index last.  A root that is called `index` has the file
name of the index, which therefore takes the place of its definition; a name with a slash may lead
to the file of another name.

* `groupedBy_ofSymbols` : roots of one name stand next to each other;
* `definitionsOf_of_groupedBy` : names and texts of the definition files of a forest;
* `ofDocuments_definitions` : what is in the definition files, and what of it is kept on writing.
-/
import ApiTypings.Proofs.Exports
import ApiTypings.Proofs.File.Writing

namespace ApiTypings

/-! ## Groups of roots -/

namespace Forest

variable {settings : Settings}

/-- The roots of a forest in groups: all roots of a group have its name, and no two groups share a
name. -/
def GroupedBy (names : List String) (forest : Forest) : Prop :=
  names.Nodup ∧ ∃ groups, forest = groups.flatten ∧ List.Forall₂
    (fun name (group : List Declaration) => ∀ d ∈ group, d.fullName = name) names groups

/-- The declarations of a level are in groups. -/
theorem groupedBy_declarations {symbols : List Symbol} {forest : Forest}
    (h : declarations settings symbols = .ok forest) : ∃ names, GroupedBy names forest := by
  obtain ⟨groups, hgroups, hflatten⟩ := level_eq_ok h
  refine ⟨_, nodup_heads ((sortedByName symbols).map .ofSymbol), groups, hflatten, ?_⟩
  have hloc := located_root (sortedByName symbols)
  rw [List.forall₂_iff_zip] at hgroups ⊢
  refine ⟨hgroups.1, fun {seg group} hpair d hd => ?_⟩
  have hseg := (List.of_mem_zip hpair).1
  have hplaced := (hgroups.2 hpair).placed hloc hseg fun children hlevel =>
    placed_level (hloc.below seg) hlevel
  rw [← Dotted.fromSegments_segments d.fullName, (hplaced d hd).2]
  rfl

theorem GroupedBy.mapClasses {names : List String} {forest : Forest} (h : GroupedBy names forest)
    (f : ClassDecl → ClassBody) : GroupedBy names (forest.mapClasses f) := by
  obtain ⟨hnodup, groups, rfl, hgroups⟩ := h
  refine ⟨hnodup, groups.map (·.map (Declaration.mapClasses f)), ?_, ?_⟩
  · rw [Forest.mapClasses, Declaration.mapClassesAll_eq_map, List.map_flatten]
  · rw [List.forall₂_map_right_iff]
    refine hgroups.imp fun name group hgroup => ?_
    rw [List.forall_mem_map]
    intro d hd
    rw [Declaration.fullName_mapClasses]
    exact hgroup d hd

/-- The roots of the forest of some symbols are in groups. -/
theorem groupedBy_ofSymbols {symbols : List Symbol} {forest : Forest}
    (h : ofSymbols settings symbols = .ok forest) : ∃ names, GroupedBy names forest := by
  obtain ⟨declared, i, hdeclared, hi, rfl⟩ := ofSymbols_eq_ok h
  obtain ⟨names, hnames⟩ := groupedBy_declarations hdeclared
  rw [reconcileOverrides_eq hi]
  exact ⟨names, hnames.mapClasses _⟩

end Forest

/-! ## Texts of definition files -/

namespace Generation

variable {unit : String} {definitions : List Definition} {name : String}

/-- The texts of declarations, one behind the other. -/
def textOf (unit : String) (ds : List Declaration) : String :=
  String.join (ds.map (·.render unit))

/-- The definition file of a group. -/
def ofGroup (unit name : String) (group : List Declaration) : Definition :=
  ⟨name, textOf unit group⟩

/-- The definition files with the texts of some more declarations. -/
def addTexts (unit : String) (definitions : List Definition) (ds : List Declaration) :
    List Definition :=
  ds.foldl (fun added d => addText added d.fullName (d.render unit)) definitions

/-- A new name has a file of its own. -/
theorem addText_new (h : name ∉ definitions.map (·.fullName)) (content : String) :
    addText definitions name content = definitions ++ [⟨name, content⟩] := by
  rw [addText, if_neg]
  rw [List.any_eq_true]
  rintro ⟨d, hd, hname⟩
  exact h (List.mem_map.2 ⟨d, hd, beq_iff_eq.1 hname⟩)

/-- A text whose name is that of the last file goes to the end of it. -/
theorem addText_last (h : name ∉ definitions.map (·.fullName)) (content more : String) :
    addText (definitions ++ [⟨name, content⟩]) name more
      = definitions ++ [⟨name, content ++ more⟩] := by
  rw [addText, if_pos (by simp), List.map_append, List.map_singleton, if_pos rfl]
  congr 1
  refine (List.map_congr_left fun d hd => if_neg fun hname => ?_).trans (List.map_id _)
  exact h (List.mem_map.2 ⟨d, hd, hname⟩)

/-- The texts of declarations whose name is that of the last file go to the end of it. -/
theorem addTexts_last (h : name ∉ definitions.map (·.fullName)) {ds : List Declaration}
    (hds : ∀ d ∈ ds, d.fullName = name) (content : String) :
    addTexts unit (definitions ++ [⟨name, content⟩]) ds
      = definitions ++ [⟨name, content ++ textOf unit ds⟩] := by
  induction ds generalizing content with
  | nil => simp [addTexts, textOf]
  | cons d ds ih =>
    rw [List.forall_mem_cons] at hds
    rw [addTexts, List.foldl_cons, hds.1, addText_last h]
    refine (ih hds.2 _).trans ?_
    rw [textOf, textOf, List.map_cons, String.join_cons, String.append_assoc]

/-- The texts of a group with a new name are one file, unless the group is empty. -/
theorem addTexts_group (h : name ∉ definitions.map (·.fullName)) {group : List Declaration}
    (hgroup : ∀ d ∈ group, d.fullName = name) :
    addTexts unit definitions group
      = definitions ++ if group = [] then [] else [ofGroup unit name group] := by
  cases group with
  | nil => simp [addTexts]
  | cons d ds =>
    rw [List.forall_mem_cons] at hgroup
    rw [addTexts, List.foldl_cons, hgroup.1, addText_new h, if_neg (by simp)]
    refine (addTexts_last h hgroup.2 _).trans ?_
    rw [ofGroup, textOf, textOf, List.map_cons, String.join_cons]

/-- The definition files of groups with new names: they have some of these names, in order, and hold
the texts of all the groups. -/
theorem exists_addTexts {names : List String} {groups : List (List Declaration)}
    (hgroups : List.Forall₂ (fun name (group : List Declaration) => ∀ d ∈ group, d.fullName = name)
      names groups)
    (hnodup : (definitions.map (·.fullName) ++ names).Nodup) :
    ∃ added, addTexts unit definitions groups.flatten = definitions ++ added ∧
      (added.map (·.fullName)).Sublist names ∧
      String.join (added.map (·.content)) = textOf unit groups.flatten := by
  induction hgroups generalizing definitions with
  | nil => exact ⟨[], by simp [addTexts, textOf]⟩
  | @cons name group names groups hgroup hrest ih =>
    have hnew : name ∉ definitions.map (·.fullName) := fun hold =>
      (List.nodup_append.1 hnodup).2.2 name hold name List.mem_cons_self rfl
    rw [List.flatten_cons, addTexts, List.foldl_append]
    show ∃ added, addTexts unit (addTexts unit definitions group) groups.flatten = _ ∧ _
    rw [addTexts_group hnew hgroup]
    by_cases hempty : group = []
    · rw [if_pos hempty, List.append_nil, hempty, List.nil_append]
      have hfewer : (definitions.map (·.fullName) ++ names).Nodup :=
        hnodup.sublist ((List.sublist_cons_self name names).append_left _)
      obtain ⟨added, hadded, hnames, htexts⟩ := ih hfewer
      exact ⟨added, hadded, hnames.cons name, htexts⟩
    · rw [if_neg hempty]
      have hmoved :
          ((definitions ++ [ofGroup unit name group]).map (·.fullName) ++ names).Nodup := by
        rw [List.map_append, List.map_singleton, List.append_assoc, List.singleton_append]
        exact hnodup
      obtain ⟨added, hadded, hnames, htexts⟩ := ih hmoved
      refine ⟨ofGroup unit name group :: added, ?_, ?_, ?_⟩
      · rw [hadded, List.append_assoc, List.singleton_append]
      · exact hnames.cons_cons name
      · rw [List.map_cons, String.join_cons, htexts, ofGroup, textOf, textOf, textOf,
          List.map_append, String.join_append]

/-- The definition files of a forest have different names, and hold the texts of its roots. -/
theorem definitionsOf_of_groupedBy (unit : String) {names : List String} {forest : Forest}
    (h : Forest.GroupedBy names forest) :
    ((definitionsOf unit forest).map (·.fullName)).Nodup ∧
    String.join ((definitionsOf unit forest).map (·.content)) = textOf unit forest := by
  obtain ⟨hnodup, groups, rfl, hgroups⟩ := h
  have hnames : (([] : List Definition).map (·.fullName) ++ names).Nodup := hnodup
  obtain ⟨added, hadded, hsublist, htexts⟩ := exists_addTexts hgroups hnames
  have hdefinitions : definitionsOf unit groups.flatten = added := hadded
  rw [hdefinitions]
  exact ⟨hnodup.sublist hsublist, htexts⟩

/-! ## File names -/

/-- The line of the index that refers to a definition file. -/
def reference (d : Definition) : String := "/// <reference path=\"./" ++ d.fileName ++ "\" />"

theorem fileName_inj {d e : Definition} : d.fileName = e.fileName ↔ d.fullName = e.fullName := by
  rw [Definition.fileName, Definition.fileName, String.append_left_inj]

theorem reference_inj {d e : Definition} : reference d = reference e ↔ d.fullName = e.fullName := by
  unfold reference
  rw [String.append_left_inj, String.append_right_inj, fileName_inj]

/-- Only a definition that is called `index` has the file name of the index. -/
theorem fileName_eq_indexFile {d : Definition} :
    d.fileName = indexFile ↔ d.fullName = "index" := by
  have hindex : indexFile = "index" ++ definitionSuffix := by decide
  rw [Definition.fileName, hindex, String.append_left_inj]

/-- What tells names apart tells definitions of different names apart. -/
theorem nodup_map_of_fullName {f : Definition → String}
    (hinj : ∀ {d e : Definition}, f d = f e ↔ d.fullName = e.fullName)
    (h : (definitions.map (·.fullName)).Nodup) : (definitions.map f).Nodup := by
  rw [List.Nodup, List.pairwise_map] at h ⊢
  exact h.imp fun hne heq => hne (hinj.1 heq)

/-- The file name of a definition is one that paths can end with. -/
theorem isIdle_definitionFile (name : String) :
    Path.isIdle (name ++ definitionSuffix) = false ∧ name ++ definitionSuffix ≠ ".." := by
  have hlength : 5 ≤ (name ++ definitionSuffix).length := by
    rw [String.length_append]
    exact Nat.le_add_left _ _
  have hother : ∀ short : String, short.length < 5 → name ++ definitionSuffix ≠ short := by
    rintro short hshort rfl
    exact absurd hlength (Nat.not_le.2 hshort)
  refine ⟨?_, hother ".." (by decide)⟩
  rw [Path.isIdle, Bool.or_eq_false_iff]
  refine ⟨?_, beq_eq_false_iff_ne.2 (hother "." (by decide))⟩
  rw [Bool.eq_false_iff]
  intro hempty
  exact hother "" (by decide) (String.isEmpty_iff.1 hempty)

/-- Definition files of different names without slashes stand at different places. -/
theorem not_samePlace {t : FileTree} {directory name other : String} (hname : '/' ∉ name.toList)
    (hother : '/' ∉ other.toList) (hne : name ≠ other) :
    ¬ t.SamePlace (Path.join directory (name ++ definitionSuffix))
      (Path.join directory (other ++ definitionSuffix)) := by
  rintro ⟨target, htarget, htarget'⟩
  have hslash : ∀ n : String, '/' ∉ n.toList → '/' ∉ (n ++ definitionSuffix).toList := by
    intro n hn hmem
    rw [String.toList_append, List.mem_append] at hmem
    exact hmem.elim hn (by decide)
  obtain ⟨hidle, hup⟩ := isIdle_definitionFile name
  obtain ⟨hidle', hup'⟩ := isIdle_definitionFile other
  have hlast := FileTree.name_of_locate_join (hslash name hname) hidle hup htarget
  have hlast' := FileTree.name_of_locate_join (hslash other hother) hidle' hup' htarget'
  exact hne ((String.append_left_inj _).1 (Option.some.inj (hlast.symm.trans hlast')))

/-! ## Writing definition files -/

variable {g : Generation} {directory : String} {t t' : FileTree}

/-- The index is written last, so it holds what it should. -/
theorem read_index
    (h : FileTree.Runs (FileTree.access.writeFiles (g.definitionFiles directory)) t () t') :
    t'.read (Path.join directory indexFile) = .ok g.index := by
  have hlast := FileTree.read_of_writeFiles h (List.forall_mem_nil _)
  exact hlast

/-- A definition file holds its content unless a later one, or the index, took its place. -/
theorem read_definition
    (h : FileTree.Runs (FileTree.access.writeFiles (g.definitionFiles directory)) t () t')
    {before after : List Definition} {d : Definition} (hd : g.definitions = before ++ d :: after)
    (hlater : ∀ name ∈ after.map (·.fileName) ++ [indexFile],
      ¬ t'.SamePlace (Path.join directory name) (Path.join directory d.fileName)) :
    t'.read (Path.join directory d.fileName) = .ok d.content := by
  rw [definitionFiles, hd, List.map_append, List.map_cons, List.append_assoc,
    List.cons_append] at h
  have hread := FileTree.read_of_writeFiles h
  refine hread fun later hmem => ?_
  rcases List.mem_append.1 hmem with hmem | hmem
  · obtain ⟨e, he, rfl⟩ := List.mem_map.1 hmem
    exact hlater _ (List.mem_append_left _ (List.mem_map_of_mem he))
  · obtain rfl := List.mem_singleton.1 hmem
    exact hlater _ (List.mem_append_right _ List.mem_cons_self)

/-- Without slashes in the names nothing but the index takes the place of a definition. -/
theorem read_definition_of_no_slash
    (h : FileTree.Runs (FileTree.access.writeFiles (g.definitionFiles directory)) t () t')
    (hnodup : (g.definitions.map (·.fullName)).Nodup)
    (hslash : ∀ d ∈ g.definitions, '/' ∉ d.fullName.toList) {d : Definition}
    (hd : d ∈ g.definitions) : t'.read (Path.join directory d.fileName)
      = .ok (if d.fullName = "index" then g.index else d.content) := by
  by_cases hindex : d.fullName = "index"
  · rw [if_pos hindex, fileName_eq_indexFile.2 hindex]
    exact read_index h
  · rw [if_neg hindex]
    obtain ⟨before, after, hsplit⟩ := List.append_of_mem hd
    refine read_definition h hsplit fun name hname => ?_
    rcases List.mem_append.1 hname with hname | hname
    · obtain ⟨e, he, rfl⟩ := List.mem_map.1 hname
      have hmem : e ∈ g.definitions := by
        rw [hsplit]
        exact List.mem_append_right _ (List.mem_cons_of_mem _ he)
      have hne : d.fullName ≠ e.fullName := by
        rw [hsplit, List.map_append, List.map_cons] at hnodup
        exact (List.nodup_cons.1 (List.nodup_append.1 hnodup).2.1).1 ∘
          fun heq => heq ▸ List.mem_map_of_mem he
      exact not_samePlace (hslash e hmem) (hslash d hd) (Ne.symm hne)
    · obtain rfl := List.mem_singleton.1 hname
      have hfile : indexFile = "index" ++ definitionSuffix := by decide
      rw [hfile]
      exact not_samePlace (by decide) (hslash d hd) (Ne.symm hindex)

/-- **What is kept of the definitions.**  The definition files of a generation have different names,
and only a root that is called `index` has the file name of the index.  The index refers to each of
them once, in order, and their contents are the texts of all roots, in order.  When they are written
with the index behind them, the index holds what it should, and a definition holds its content
unless a later file is written to its place; if no root has a slash in its name, only the definition
called `index` is lost. -/
theorem ofDocuments_definitions {settings : Settings} {documents : List ApiDocument}
    {g : Generation} (h : ofDocuments settings documents = .ok g) :
    ((g.definitions.map (·.fileName)).Nodup ∧
      ∀ d ∈ g.definitions, d.fileName = indexFile ↔ d.fullName = "index") ∧
    (g.index = newline.intercalate (g.definitions.map reference) ∧
      (g.definitions.map reference).Nodup) ∧
    (∃ forest, Forest.ofSymbols settings (symbolsOf settings documents) = .ok forest ∧
      String.join (g.definitions.map (·.content))
        = String.join (forest.map (·.render settings.output.indentation))) ∧
    ∀ directory t t',
      FileTree.Runs (FileTree.access.writeFiles (g.definitionFiles directory)) t () t' →
        t'.read (Path.join directory indexFile) = .ok g.index ∧
        (∀ before d after, g.definitions = before ++ d :: after →
          (∀ name ∈ after.map (·.fileName) ++ [indexFile],
            ¬ t'.SamePlace (Path.join directory name) (Path.join directory d.fileName)) →
          t'.read (Path.join directory d.fileName) = .ok d.content) ∧
        ((∀ d ∈ g.definitions, '/' ∉ d.fullName.toList) → ∀ d ∈ g.definitions,
          t'.read (Path.join directory d.fileName)
            = .ok (if d.fullName = "index" then g.index else d.content)) := by
  obtain ⟨forest, hforest, hdefinitions, -⟩ := ofDocuments_eq_ok h
  obtain ⟨names, hnames⟩ := Forest.groupedBy_ofSymbols hforest
  obtain ⟨hnodup, htexts⟩ := definitionsOf_of_groupedBy settings.output.indentation hnames
  rw [← hdefinitions] at hnodup htexts
  refine ⟨⟨nodup_map_of_fullName fileName_inj hnodup, fun _ _ => fileName_eq_indexFile⟩,
    ⟨rfl, nodup_map_of_fullName reference_inj hnodup⟩, ⟨forest, hforest, htexts⟩, ?_⟩
  intro directory t t' hwritten
  exact ⟨read_index hwritten, fun before d after => read_definition hwritten,
    fun hslash d hd => read_definition_of_no_slash hwritten hnodup hslash hd⟩

/-! ## A root called `index` -/

/-- A library with an interface that is called `index`, and a namespace. -/
def indexDocuments : List ApiDocument :=
  [{ library := "x", symbols :=
    [{ name := "index", kind := .interfaceKind }, { name := "x", kind := .namespaceKind }] }]

/-- Their definition files. -/
def indexDefinitions : List Definition :=
  [⟨"index", "declare interface index \x7b\r\n\x7d\r\n"⟩,
    ⟨"x", "declare namespace x \x7b\r\n\x7d\r\n"⟩]

/-- What is generated for them. -/
def indexGeneration : Generation where
  version := none
  definitions := indexDefinitions
  exports := ExportStub.ofSymbols (symbolsOf {} indexDocuments)

/-- The tree after they were written to an empty one. -/
def indexTree : FileTree :=
  ((FileTree.access.writeFiles (indexGeneration.definitionFiles "types")).run.run {}).2

theorem ofDocuments_index : ofDocuments {} indexDocuments = .ok indexGeneration := by
  have hsorted : Forest.sortedByName (symbolsOf {} indexDocuments) = symbolsOf {} indexDocuments :=
    List.mergeSort_of_pairwise (by decide +kernel)
  have hforest : ((Forest.ofSymbols {} (symbolsOf {} indexDocuments)).toOption.any fun forest =>
      definitionsOf ({} : Settings).output.indentation forest == indexDefinitions) = true := by
    rw [Forest.ofSymbols_eq, Forest.declarations, hsorted]
    decide +kernel
  obtain ⟨forest, hok, hdefinitions⟩ := exists_ok_of_any hforest
  rw [ofDocuments, hok, indexGeneration, ← beq_iff_eq.1 hdefinitions]
  rfl

theorem runs_index : FileTree.Runs
    (FileTree.access.writeFiles (indexGeneration.definitionFiles "types")) {} () indexTree := by
  have hwritten : ((FileTree.access.writeFiles (indexGeneration.definitionFiles "types")).run.run
      {}).1.toOption.any (fun _ => true) = true := by
    decide +kernel
  obtain ⟨_, hok, -⟩ := exists_ok_of_any hwritten
  exact Prod.ext hok rfl

theorem ofDocuments_definitions_index :
    ofDocuments {} indexDocuments = .ok indexGeneration ∧
      FileTree.Runs (FileTree.access.writeFiles (indexGeneration.definitionFiles "types")) {} ()
        indexTree ∧
      indexTree.read "types/x.d.ts" = .ok "declare namespace x \x7b\r\n\x7d\r\n" := by
  obtain ⟨-, -, -, hwritten⟩ := ofDocuments_definitions ofDocuments_index
  obtain ⟨-, -, hkept⟩ := hwritten "types" {} indexTree runs_index
  have hpath : "types/x.d.ts" = Path.join "types" ("x" ++ definitionSuffix) := by decide
  refine ⟨ofDocuments_index, runs_index, ?_⟩
  rw [hpath]
  exact hkept (by decide) ⟨"x", _⟩ (List.mem_cons_of_mem _ List.mem_cons_self)

/-- The index takes the place of the definition called `index`. -/
theorem index_replaces_definition :
    ofDocuments {} indexDocuments = .ok indexGeneration ∧
      FileTree.Runs (FileTree.access.writeFiles (indexGeneration.definitionFiles "types")) {} ()
        indexTree ∧
      ∃ d ∈ indexGeneration.definitions, d.fileName = indexFile ∧
        indexTree.read (Path.join "types" d.fileName) ≠ .ok d.content := by
  refine ⟨ofDocuments_index, runs_index, ⟨"index", _⟩, List.mem_cons_self,
    fileName_eq_indexFile.2 rfl, ?_⟩
  rw [fileName_eq_indexFile.2 rfl, read_index runs_index]
  decide

end Generation

end ApiTypings
