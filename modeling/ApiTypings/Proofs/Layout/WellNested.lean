/-
# Well-nested declaration files

Whatever descriptions and deprecations say, the text of a root declaration is a list of lines, each
with its end, in which every block that is opened is closed and every line is indented by the blocks
that are open at it, as long as names, types and settings have no line feed and the indentation is
blank.

* `isOneLine_of_bodyOf` : what is built from names and types without line feeds;
* `IsOneLine.reconcileOverrides` : bringing overrides in line brings in no line feeds;
* `Placed.leveled` : declarations are nested as deep as their headers say;
* `wellNested_ofSymbols` : the text of every root.
-/
import ApiTypings.Proofs.Forest.Built
import ApiTypings.Proofs.Forest.Places
import ApiTypings.Proofs.Hierarchy.Idempotence
import ApiTypings.Proofs.Layout.Lines

namespace ApiTypings

namespace Declaration

/-! ## Declarations that are built -/

section

variable {settings : Settings} {s : Symbol}

theorem isOneLine_of_mem_classMethodDocs (hs : s.IsOneLine) :
    ∀ doc ∈ classMethodDocs settings s, doc.IsOneLine := by
  refine List.forall_mem_append.2 ⟨fun doc hdoc => ?_, List.forall_mem_map.2 fun c hc => ?_⟩
  · obtain ⟨documented, hmem, hrepaired⟩ := List.mem_filterMap.1 hdoc
    have honeLine := hs.methods documented hmem
    split at hrepaired
    · rw [← Option.some.inj hrepaired]
      exact honeLine
    · exact absurd hrepaired (by simp)
    · rw [← Option.some.inj hrepaired]
      exact ⟨honeLine.name, honeLine.parameters, honeLine.returns⟩
  · exact ⟨(by decide : Text.IsOneLine constructorName),
      hs.constructorDoc c (Option.mem_toList.1 hc), fun r hr => absurd hr (Option.not_mem_none r)⟩

theorem isOneLine_of_mem_namespacePropertyDocs (hsettings : settings.IsOneLine)
    (hs : s.IsOneLine) : ∀ doc ∈ namespacePropertyDocs settings s, doc.IsOneLine := by
  refine List.forall_mem_append.2 ⟨hs.properties, ?_⟩
  cases hadded : settings.additionalProperties.get? s.name with
  | none => exact List.forall_mem_nil _
  | some docs => exact hsettings.additionalProperties.get? docs hadded

theorem isOneLine_of_mem_baseOf (hsettings : settings.IsOneLine) (hs : s.IsOneLine) :
    ∀ base ∈ baseOf settings s, Text.IsOneLine base := by
  intro base hbase
  refine NameTable.All.or hsettings.baseClass.lookup (fun b hb => ?_) base
    (Option.mem_filter_iff.1 hbase).1
  obtain ⟨documented, hdocumented, rfl⟩ := Option.map_eq_some_iff.1 hb
  exact isOneLine_replaceTypes hsettings (hs.baseClass documented hdocumented)

/-- A symbol whose names and types are on one line has a body that is written from such texts. -/
theorem isOneLine_of_bodyOf (hsettings : settings.IsOneLine) (hs : s.IsOneLine)
    {children : List Declaration} {body : Body} (h : bodyOf settings s children = .ok body) :
    body.IsOneLine := by
  unfold bodyOf at h
  cases hkind : s.kind with
  | namespaceKind =>
    rw [hkind] at h
    obtain ⟨methods, hmethods, hpure⟩ := bind_eq_ok.1 h
    obtain rfl := pure_eq_ok.1 hpure
    exact ⟨Property.isOneLine_of_mem_buildAll hsettings
        (isOneLine_of_mem_namespacePropertyDocs hsettings hs),
      Method.isOneLine_of_mem_buildAll hsettings hs.methods hmethods,
      hsettings.namespaceAsType.lookup⟩
  | classKind =>
    rw [hkind] at h
    obtain ⟨methods, hmethods, hpure⟩ := bind_eq_ok.1 h
    obtain rfl := pure_eq_ok.1 hpure
    have hproperties : ∀ p ∈ Property.buildAll settings s.properties s.name .classKind,
        p.IsOneLine := Property.isOneLine_of_mem_buildAll hsettings hs.properties
    have hbuilt := Method.isOneLine_of_mem_buildAll hsettings
      (isOneLine_of_mem_classMethodDocs hs) hmethods
    -- members are sorted, which changes none of them
    exact ⟨fun p hp => hproperties p (List.mem_mergeSort.1 hp),
      fun m hm => hbuilt m (List.mem_mergeSort.1 hm), isOneLine_of_mem_baseOf hsettings hs⟩
  | interfaceKind =>
    rw [hkind] at h
    obtain ⟨methods, hmethods, hpure⟩ := bind_eq_ok.1 h
    obtain rfl := pure_eq_ok.1 hpure
    exact ⟨Property.isOneLine_of_mem_buildAll hsettings hs.properties,
      Method.isOneLine_of_mem_buildAll hsettings hs.methods hmethods⟩
  | enumKind =>
    simp only [hkind, enumBody] at h
    split at h
    · exact absurd h (by simp)
    · exact absurd h (by simp)
    · rw [← Except.ok.inj h]
      exact List.forall_mem_map.2 fun doc hdoc => (hs.properties doc hdoc).name
  | typedefKind =>
    simp only [hkind, typedefBody] at h
    split at h
    · exact absurd h (by simp)
    · rw [← Except.ok.inj h]
      exact Property.isOneLine_of_mem_buildAll hsettings hs.properties

end

end Declaration

/-! ## Nodes that are built -/

namespace Dotted

theorem isOneLine_of_mem_segments {name seg : String} (h : Text.IsOneLine name)
    (hseg : seg ∈ segments name) : Text.IsOneLine seg := by
  obtain ⟨piece, hpiece, rfl⟩ := List.mem_map.1 hseg
  exact Text.isOneLine_ofList.2 (Text.not_mem_of_mem_cut_of_not_mem h hpiece)

theorem isOneLine_basename {name : String} (h : Text.IsOneLine name) :
    Text.IsOneLine (basename name) := by
  rcases List.mem_cons.1 List.getLastD_mem_cons with hempty | hseg
  · rw [basename, hempty]
    decide
  · exact isOneLine_of_mem_segments h hseg

/-- A name that begins a name on one line is on one line. -/
theorem Begins.isOneLine {p name : String} (hbegins : Begins p name) (h : Text.IsOneLine name) :
    Text.IsOneLine p := by
  rw [← fromSegments_segments p, fromSegments, Text.IsOneLine, String.toList_intercalate]
  refine Text.not_mem_intercalate (by decide) (List.forall_mem_map.2 fun seg hseg => ?_)
  exact isOneLine_of_mem_segments h (hbegins.subset hseg)

end Dotted

/-- A symbol without a base class and methods is written from its name and its properties. -/
theorem Symbol.isOneLine_of_properties {s : Symbol} (hname : Text.IsOneLine s.name)
    (hbase : s.baseClass = none) (hmethods : s.methods = []) (hctor : s.constructorDoc = none)
    (hproperties : ∀ doc ∈ s.properties, doc.IsOneLine) : s.IsOneLine where
  name := hname
  baseClass := by simp [hbase]
  properties := hproperties
  methods := by simp [hmethods]
  constructorDoc := by simp [hctor]

namespace Forest

variable {settings : Settings} {symbols : List Symbol} {forest : Forest}

/-- The names and the body of a node are on one line each. -/
def IsOneLine (forest : Forest) : Prop :=
  ∀ d ∈ forest.nodes, Text.IsOneLine d.fullName ∧ Text.IsOneLine d.name ∧ d.body.IsOneLine

/-- The nodes of a forest are written from texts on one line when its symbols are. -/
theorem isOneLine_declarations (hsettings : settings.IsOneLine)
    (hsymbols : ∀ s ∈ symbols, s.IsOneLine) (h : declarations settings symbols = .ok forest) :
    forest.IsOneLine := by
  intro d hd
  obtain ⟨-, named, hnamed, hbegins⟩ := live_of_mem_declarations h hd
  have hfullName : Text.IsOneLine d.fullName := hbegins.isOneLine (hsymbols named hnamed).name
  obtain ⟨s, depth, children, hbuild, hs⟩ := builtFrom_of_mem_declarations h hd
  have honeLine : s.IsOneLine := by
    rcases hs with hs | rfl
    · exact hsymbols s hs
    · exact Symbol.isOneLine_of_properties hfullName rfl rfl rfl (List.forall_mem_nil _)
  obtain ⟨body, hbody, rfl⟩ := Declaration.build_eq_ok hbuild
  exact ⟨hfullName, Dotted.isOneLine_basename honeLine.name,
    Declaration.isOneLine_of_bodyOf hsettings honeLine hbody⟩

end Forest

/-! ## Reconciled nodes -/

namespace MethodTable

/-- The names and methods of a table are written on one line each. -/
def IsOneLine (t : MethodTable) : Prop :=
  ∀ name methods, t.get? name = some methods →
    Text.IsOneLine name ∧ ∀ m ∈ methods, m.IsOneLine

end MethodTable

namespace ClassIndex

variable {i : ClassIndex} {t : MethodTable}

/-- A method that is brought in line is written from texts that are in the table. -/
theorem isOneLine_reconcileMethod (ht : t.IsOneLine) {name : String} (hname : Text.IsOneLine name)
    {m : Method} (hm : m.IsOneLine) : ((i.reconcileMethod t name m).applyTo m).IsOneLine := by
  by_cases hctor : m.isConstructor = true
  · rw [reconcileMethod_of_none (.inl hctor)]
    exact ⟨hm.name, hm.returnTypes, hm.signatures⟩
  · cases hover : i.overridden? t name m with
    | none =>
      rw [reconcileMethod_of_none (.inr hover)]
      exact ⟨hm.name, hm.returnTypes, hm.signatures⟩
    | some ab =>
      obtain ⟨a, b⟩ := ab
      obtain ⟨-, methods, hget, hb⟩ := mem_of_overridden? hover
      have hrequired : (requiredReturn name a b).Lacks '\n' := by
        unfold requiredReturn
        split
        · exact lacks_parse_of_isOneLine hname
        · exact ((ht a methods hget).2 b hb).returnTypes
      rw [reconcileMethod_of_overridden (Bool.eq_false_iff.2 hctor) hover]
      refine ⟨hm.name, ?_, hm.signatures⟩
      show ((i.replacedReturn? name m a b).getD m.returnTypes).Lacks '\n'
      rcases i.replacedReturn?_cases name m a b with h | h
      · rw [h]
        exact hm.returnTypes
      · rw [h]
        exact hrequired

theorem isOneLine_reconcileClass (ht : t.IsOneLine) (name : String) :
    (i.reconcileClass t name).IsOneLine := by
  intro other methods hget
  rw [get?_reconcileClass] at hget
  split at hget
  · rename_i hother
    obtain ⟨documented, hdocumented, rfl⟩ := Option.map_eq_some_iff.1 hget
    obtain ⟨hname, hmethods⟩ := ht name documented hdocumented
    exact ⟨hother ▸ hname,
      List.forall_mem_map.2 fun m hm => isOneLine_reconcileMethod ht hname (hmethods m hm)⟩
  · exact ht other methods hget

/-- The reconciler brings in no line feeds. -/
theorem isOneLine_reconcileAll (ht : t.IsOneLine) : (i.reconcileAll t).IsOneLine := by
  unfold reconcileAll
  induction i.topDown generalizing t with
  | nil => exact ht
  | cons name names ih => exact ih (isOneLine_reconcileClass ht name)

end ClassIndex

theorem Body.IsOneLine.of_class {body : Body} (h : body.IsOneLine) {c : ClassBody}
    (hc : body.class? = some c) : ∀ m ∈ c.methods, m.IsOneLine := by
  cases body with
  | ofClass b =>
    obtain rfl := Option.some.inj hc
    exact h.2.1
  | _ => exact absurd hc (by simp [Body.class?])

namespace Forest

variable {settings : Settings} {symbols : List Symbol} {forest : Forest}

theorem IsOneLine.methodTable (h : forest.IsOneLine) : forest.methodTable.IsOneLine := by
  intro name methods hget
  obtain ⟨c, hc, rfl, rfl⟩ := class_of_get? hget
  rw [classes_eq_filterMap] at hc
  obtain ⟨d, hd, hclass⟩ := List.mem_filterMap.1 hc
  obtain ⟨b, hb, rfl⟩ := Option.map_eq_some_iff.1 hclass
  obtain ⟨hfullName, -, hbody⟩ := h d hd
  exact ⟨hfullName, hbody.of_class hb⟩

/-- Bringing overrides in line brings in no line feeds. -/
theorem IsOneLine.reconcileOverrides (h : forest.IsOneLine) {i : ClassIndex}
    (hi : ClassIndex.ofForest forest = .ok i) : (forest.reconcileOverrides i).IsOneLine := by
  rw [reconcileOverrides_eq hi]
  have htable := ClassIndex.isOneLine_reconcileAll (i := i) h.methodTable
  intro d hd
  obtain ⟨e, he, rfl⟩ := exists_of_mem_mapClasses hd
  obtain ⟨hfullName, hname, hbody⟩ := h e he
  obtain ⟨header, body, children⟩ := e
  refine ⟨hfullName, hname, ?_⟩
  cases body with
  | ofClass c =>
    refine ⟨hbody.1, ?_, hbody.2.2⟩
    show ∀ m ∈ ((i.reconcileAll forest.methodTable).get? header.fullName).getD c.methods,
      m.IsOneLine
    cases hget : (i.reconcileAll forest.methodTable).get? header.fullName with
    | none => exact hbody.2.1
    | some methods => exact (htable _ methods hget).2
  | _ => exact hbody

/-! ## Depths -/

/-- A declaration under some segments is nested as deep as there are segments. -/
theorem Placed.leveled {above : List String} {d : Declaration} (h : Placed settings above d) :
    Declaration.Leveled above.length d := by
  induction h with
  | @node above seg s children d _ hbuild _ ih =>
    obtain ⟨body, -, rfl⟩ := Declaration.build_eq_ok hbuild
    refine .node rfl fun c hc => ?_
    have hchild := ih c hc
    rwa [List.length_append] at hchild

/-! ## The text of a forest -/

/-- **Well-nested files.**  If no name, type or setting has a line feed and the indentation is
blank, the text of every root is its lines, each with its end, and these are well nested. -/
theorem wellNested_ofSymbols (hsettings : settings.IsOneLine)
    (hunit : Text.isBlankText settings.output.indentation.toList = true)
    (hsymbols : ∀ s ∈ symbols, s.IsOneLine) (h : ofSymbols settings symbols = .ok forest) :
    ∀ d ∈ forest,
      Text.endedLines (d.render settings.output.indentation).toList
          = some (d.lines.map (·.content settings.output.indentation)) ∧
        Line.WellNested settings.output.indentation d.lines := by
  obtain ⟨declared, i, hdeclared, hi, rfl⟩ := ofSymbols_eq_ok h
  have honeLine := (isOneLine_declarations hsettings hsymbols hdeclared).reconcileOverrides hi
  intro d hd
  constructor
  · have hnodes : d.IsOneLine := fun e he =>
      (honeLine e (Declaration.mem_nodesAll.2 ⟨d, hd, he⟩)).2
    exact Line.endedLines_render fun l hl =>
      (hnodes.lines l hl).not_mem_content hsettings.indentation
  · rw [reconcileOverrides_eq hi, withMethods, Forest.mapClasses,
      Declaration.mapClassesAll_eq_map] at hd
    obtain ⟨e, he, rfl⟩ := List.mem_map.1 hd
    have hleveled := (placed_level (located_root _) hdeclared e he).leveled
    exact (hleveled.mapClasses _).keeps_lines hunit

/-! ## Documentation of several lines -/

/-- An interface whose description looks like a block, and an enum that is nested in it. -/
def multiLine : List Symbol :=
  [{ name := "x.I", kind := .interfaceKind, description := "opens \x7b\r\n\x7d" },
    { name := "x.I.E", kind := .enumKind, properties :=
      [{ name := "One", deprecated := some { since := "1.2", text := "use\nTwo" } }] }]

/-- What stands on the lines of their declarations. -/
def multiLineFile : List String :=
  ["declare namespace x \x7b",
    "    /**",
    "     * opens \x7b",
    "     * \x7d",
    "     */",
    "    export interface I \x7b",
    "    \x7d",
    "    namespace I \x7b",
    "        export enum E \x7b",
    "            /**",
    "             * @deprecated since 1.2 - use Two",
    "             */",
    "            One = \"One\",",
    "        \x7d",
    "    \x7d",
    "\x7d"]

theorem isOneLine_settings : ({} : Settings).IsOneLine where
  indentation := by decide
  everywhere := List.forall_mem_nil _
  namespaceAsType := List.forall_mem_nil _
  baseClass := List.forall_mem_nil _
  methodParameterType := List.forall_mem_nil _
  methodReturnType := List.forall_mem_nil _
  propertyType := List.forall_mem_nil _
  additionalProperties := List.forall_mem_nil _

theorem isOneLine_multiLine : ∀ s ∈ multiLine, s.IsOneLine := by
  refine List.forall_mem_cons.2 ⟨?_, List.forall_mem_singleton.2 ?_⟩
  · exact Symbol.isOneLine_of_properties (by decide) rfl rfl rfl (List.forall_mem_nil _)
  · refine Symbol.isOneLine_of_properties (by decide) rfl rfl rfl ?_
    exact List.forall_mem_singleton.2
      ⟨by decide, fun _ htype => absurd htype (Option.not_mem_none _)⟩

theorem wellNested_ofSymbols_multiLine :
    ∃ d, ofSymbols {} multiLine = .ok [d] ∧
      d.lines.map (fun l => String.ofList (l.content "    ")) = multiLineFile ∧
      Text.endedLines (d.render "    ").toList = some (d.lines.map (·.content "    ")) ∧
      Line.WellNested "    " d.lines := by
  have hsorted : sortedByName multiLine = multiLine :=
    List.mergeSort_of_pairwise (by decide +kernel)
  have hlines : ((ofSymbols {} multiLine).toOption.any fun forest =>
      forest.map (fun d => d.lines.map fun l => String.ofList (l.content "    "))
        == [multiLineFile]) = true := by
    rw [ofSymbols_eq, declarations, hsorted]
    decide +kernel
  obtain ⟨forest, hok, hfile⟩ := exists_ok_of_any hlines
  obtain ⟨d, rfl, hd⟩ := List.map_eq_singleton_iff.1 (beq_iff_eq.1 hfile)
  obtain ⟨hread, hnested⟩ := wellNested_ofSymbols isOneLine_settings (by decide)
    isOneLine_multiLine hok d (List.mem_singleton_self d)
  exact ⟨d, hok, hd, hread, hnested⟩

end Forest

end ApiTypings
