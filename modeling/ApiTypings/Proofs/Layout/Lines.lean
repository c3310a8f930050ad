/-
# Lines without line feeds

Every line of a declaration is put together from texts of the model and from names and types of the
declaration.  Where those have no line feed, no line has one.  Documentation needs no assumption: it
is cut into lines before it is written.

* `isOneLine_docBlock` : the lines of any documentation;
* `isOneLine_memberLines` : the lines of members;
* `IsOneLine.lines` : the lines of a declaration and of all that is nested in it.
-/
import ApiTypings.Proofs.Forest.Nodes
import ApiTypings.Proofs.Layout.Blocks
import ApiTypings.Proofs.Layout.OneLine

namespace ApiTypings

/-! ## Lines without line feeds -/

theorem not_mem_indentation {c : Char} {unit : String} (h : c ∉ unit.toList) (depth : Nat) :
    c ∉ (indentation unit depth).toList := by
  induction depth with
  | zero => exact List.not_mem_nil
  | succ depth ih =>
    rw [indentation, List.replicate_succ, String.join_cons, String.toList_append, List.mem_append,
      not_or]
    exact ⟨h, ih⟩

namespace Line

/-- A line with no line feed on it. -/
def IsOneLine : Line → Prop
  | code _ text | doc _ text => Text.IsOneLine text
  | blank => True

theorem IsOneLine.not_mem_content {unit : String} (hunit : Text.IsOneLine unit) {l : Line}
    (h : l.IsOneLine) : '\n' ∉ l.content unit := by
  cases l with
  | code depth text =>
    rw [content, List.mem_append, not_or]
    exact ⟨not_mem_indentation hunit depth, h⟩
  | doc depth text =>
    rw [content, List.mem_append, not_or]
    exact ⟨not_mem_indentation hunit depth, h⟩
  | blank => exact List.not_mem_nil

end Line

/-! ## Documentation -/

/-- What stands behind the star on the line of a text. -/
def behindStar (cs : List Char) : List Char :=
  match escapeClosing cs with
  | [] => []
  | text => ' ' :: text

/-- The line of a text has a star behind its indentation. -/
theorem docLine_eq (depth : Nat) (cs : List Char) :
    docLine depth cs = .doc depth (.ofList (" *".toList ++ behindStar cs)) := by
  unfold docLine behindStar
  cases escapeClosing cs with
  | nil => rfl
  | cons c text => rfl

theorem not_mem_behindStar {c : Char} (hc : c ∉ " *\\/".toList) {cs : List Char} (h : c ∉ cs) :
    c ∉ behindStar cs := by
  have hescaped : c ∉ escapeClosing cs :=
    Text.not_mem_replaceAll (fun hmem => hc (List.mem_cons_of_mem _ hmem)) h
  unfold behindStar
  split
  · exact List.not_mem_nil
  · rw [List.mem_cons, not_or]
    exact ⟨fun heq => hc (heq ▸ List.mem_cons_self), hescaped⟩

/-- The line of a text without a line feed. -/
theorem isOneLine_docLine {depth : Nat} {cs : List Char} (h : '\n' ∉ cs) :
    (docLine depth cs).IsOneLine := by
  have hbehind : '\n' ∉ behindStar cs := not_mem_behindStar (by decide) h
  rw [docLine_eq]
  refine Text.isOneLine_ofList.2 ?_
  rw [List.mem_append, not_or]
  exact ⟨by decide, hbehind⟩

theorem not_mem_of_mem_descriptionLines {cs line : List Char} (h : line ∈ descriptionLines cs) :
    '\n' ∉ line := by
  unfold descriptionLines at h
  split at h
  · exact absurd h List.not_mem_nil
  · obtain ⟨piece, hpiece, rfl⟩ := List.mem_map.1 h
    exact Text.not_mem_trimEnd (Text.not_mem_of_mem_cut hpiece)

/-- No line of a documentation block has a line feed on it, whatever the documentation says. -/
theorem isOneLine_docBlock (depth : Nat) (description : String) (tags : List String) :
    ∀ l ∈ docBlock depth description tags, l.IsOneLine := by
  unfold docBlock
  dsimp only
  split
  · exact List.forall_mem_nil _
  · rw [List.forall_mem_append, List.forall_mem_append, List.forall_mem_cons, List.forall_mem_map,
      List.forall_mem_map, List.forall_mem_singleton]
    refine ⟨⟨⟨?_, fun cs hcs => isOneLine_docLine ?_⟩, fun tag _ => isOneLine_docLine ?_⟩, ?_⟩
    · exact (by decide : Text.IsOneLine "/**")
    · exact not_mem_of_mem_descriptionLines hcs
    · exact Text.not_mem_singleLine (by decide) _
    · exact (by decide : Text.IsOneLine " */")

/-! ## Members -/

section

variable {depth : Nat}

theorem TypeSet.Lacks.isOneLine_render {s : TypeSet} (h : s.Lacks '\n') :
    Text.IsOneLine s.render :=
  h.render (by decide)

theorem Parameter.not_mem_dropBracketed {c : Char} {cs : List Char} (h : c ∉ cs) (inside : Nat) :
    c ∉ dropBracketed inside cs := by
  induction cs generalizing inside with
  | nil => exact h
  | cons d cs ih =>
    rw [List.mem_cons, not_or] at h
    unfold dropBracketed
    dsimp only
    split
    · exact ih h.2 _
    · rw [List.mem_cons, not_or]
      exact ⟨h.1, ih h.2 _⟩

theorem Parameter.IsOneLine.render {p : Parameter} (h : p.IsOneLine) : Text.IsOneLine p.render := by
  have hname : Text.IsOneLine p.displayName :=
    Text.isOneLine_ofList.2 (not_mem_dropBracketed h.name 0)
  unfold Parameter.render
  split
  · simp only [Text.isOneLine_append]
    exact ⟨⟨⟨by decide, hname⟩, by decide⟩, h.types.renderAsArray (by decide) (by decide)⟩
  · simp only [Text.isOneLine_append]
    refine ⟨⟨⟨hname, ?_⟩, by decide⟩, h.types.isOneLine_render⟩
    split <;> decide

theorem isOneLine_classModifiers (visibility : Visibility) (isStatic : Bool) :
    Text.IsOneLine (classModifiers visibility isStatic) := by
  cases visibility <;> cases isStatic <;> decide

theorem Property.IsOneLine.lines {p : Property} (h : p.IsOneLine) :
    ∀ l ∈ p.lines depth, l.IsOneLine := by
  have hleading : Text.IsOneLine p.leading := by
    unfold leading
    split
    · decide
    · exact isOneLine_classModifiers _ _
    all_goals decide
  have hdeclaration : Text.IsOneLine p.declaration := by
    simp only [declaration, Text.isOneLine_append]
    refine ⟨⟨⟨⟨⟨hleading, h.name⟩, ?_⟩, by decide⟩, h.types.isOneLine_render⟩, by decide⟩
    split <;> decide
  exact List.forall_mem_append.2
    ⟨isOneLine_docBlock _ _ _, List.forall_mem_singleton.2 hdeclaration⟩

theorem Method.IsOneLine.signatureLines {m : Method} (h : m.IsOneLine) (description : String)
    {parameters : List Parameter} (hparameters : ∀ p ∈ parameters, p.IsOneLine) {types : TypeSet}
    (htypes : types.Lacks '\n') (returnDescription : String) :
    ∀ l ∈ m.signatureLines depth description parameters types returnDescription,
      l.IsOneLine := by
  have hleading : Text.IsOneLine m.leading := by
    unfold leading
    split
    · decide
    · exact isOneLine_classModifiers _ _
    all_goals decide
  have hjoined : Text.IsOneLine (", ".intercalate (parameters.map (·.render))) := by
    rw [Text.IsOneLine, String.toList_intercalate, List.map_map]
    exact Text.not_mem_intercalate (by decide)
      (List.forall_mem_map.2 fun p hp => (hparameters p hp).render)
  have hdeclaration : Text.IsOneLine (m.declaration parameters types) := by
    simp only [declaration, Text.isOneLine_append]
    refine ⟨⟨⟨⟨⟨⟨hleading, h.name⟩, by decide⟩, hjoined⟩, by decide⟩, ?_⟩, by decide⟩
    split
    · decide
    · exact Text.isOneLine_append.2 ⟨by decide, htypes.isOneLine_render⟩
  exact List.forall_mem_append.2 ⟨isOneLine_docBlock _ _ _,
    List.forall_mem_cons.2 ⟨hdeclaration, List.forall_mem_singleton.2 trivial⟩⟩

theorem Method.IsOneLine.lines {m : Method} (h : m.IsOneLine) :
    ∀ l ∈ m.lines depth, l.IsOneLine := by
  have hrest : (Parameter.restOfAny m.fullName).IsOneLine :=
    ⟨(by decide : Text.IsOneLine "args"), lacks_parse_of_isOneLine (by decide)⟩
  unfold Method.lines
  split
  · exact List.forall_mem_nil _
  · refine List.forall_mem_append.2 ⟨fun l hl => ?_, ?_⟩
    · obtain ⟨sig, hsig, hl⟩ := List.mem_flatMap.1 hl
      exact h.signatureLines _ (h.signatures sig hsig) h.returnTypes _ l hl
    · split
      · exact h.signatureLines _ (List.forall_mem_singleton.2 hrest)
          (lacks_parse_of_isOneLine (by decide)) _
      · exact List.forall_mem_nil _

theorem isOneLine_memberLines {properties : List Property} {methods : List Method}
    (hproperties : ∀ p ∈ properties, p.IsOneLine) (hmethods : ∀ m ∈ methods, m.IsOneLine) :
    ∀ l ∈ memberLines depth properties methods, l.IsOneLine := by
  refine List.forall_mem_append.2 ⟨fun l hl => ?_, fun l hl => ?_⟩
  · obtain ⟨p, hp, hl⟩ := List.mem_flatMap.1 hl
    exact (hproperties p hp).lines l hl
  · obtain ⟨m, hm, hl⟩ := List.mem_flatMap.1 hl
    exact (hmethods m hm).lines l hl

theorem EnumMember.isOneLine_lines {m : EnumMember} (h : Text.IsOneLine m.name) :
    ∀ l ∈ m.lines depth, l.IsOneLine := by
  have hmember : Text.IsOneLine (m.name ++ " = \"" ++ m.name ++ "\",") := by
    simp only [Text.isOneLine_append]
    exact ⟨⟨⟨h, by decide⟩, h⟩, by decide⟩
  exact List.forall_mem_append.2 ⟨isOneLine_docBlock _ _ _, List.forall_mem_singleton.2 hmember⟩

end

/-! ## Declarations -/

/-- The members of a body, and what else it writes, are on one line each. -/
def Body.IsOneLine : Body → Prop
  | .ofNamespace properties methods asType =>
    (∀ p ∈ properties, p.IsOneLine) ∧ (∀ m ∈ methods, m.IsOneLine) ∧
      ∀ type ∈ asType, Text.IsOneLine type
  | .ofClass c =>
    (∀ p ∈ c.properties, p.IsOneLine) ∧ (∀ m ∈ c.methods, m.IsOneLine) ∧
      ∀ base ∈ c.base, Text.IsOneLine base
  | .ofInterface properties methods =>
    (∀ p ∈ properties, p.IsOneLine) ∧ ∀ m ∈ methods, m.IsOneLine
  | .ofEnum members => ∀ m ∈ members, Text.IsOneLine m.name
  | .ofTypedef properties => ∀ p ∈ properties, p.IsOneLine

section

variable {h : Header} {nested : List Line}

theorem Header.isOneLine_keyword (h : Header) : Text.IsOneLine h.keyword := by
  unfold keyword
  split <;> decide

theorem Header.isOneLine_namespaceLine (hname : Text.IsOneLine h.name) :
    h.namespaceLine.IsOneLine := by
  have hline : Text.IsOneLine
      ((if h.depth = 0 then "declare " else "") ++ "namespace " ++ h.name ++ " \x7b") := by
    simp only [Text.isOneLine_append]
    refine ⟨⟨⟨?_, by decide⟩, hname⟩, by decide⟩
    split <;> decide
  exact hline

/-- A block without line feeds. -/
theorem isOneLine_block {inside : List Line} {opening closing : Line} (hopening : opening.IsOneLine)
    (hinside : ∀ l ∈ inside, l.IsOneLine) (hclosing : closing.IsOneLine) :
    ∀ l ∈ opening :: inside ++ [closing], l.IsOneLine :=
  List.forall_mem_append.2
    ⟨List.forall_mem_cons.2 ⟨hopening, hinside⟩, List.forall_mem_singleton.2 hclosing⟩

theorem Header.isOneLine_siblingNamespace (hname : Text.IsOneLine h.name)
    (hnested : ∀ l ∈ nested, l.IsOneLine) (noChildren : Bool) :
    ∀ l ∈ h.siblingNamespace nested noChildren, l.IsOneLine := by
  unfold siblingNamespace
  split
  · exact List.forall_mem_nil _
  · exact isOneLine_block (isOneLine_namespaceLine hname) hnested
      (by decide : Text.IsOneLine "\x7d")

/-- A header line, from its keyword to what stands behind the name. -/
theorem Header.isOneLine_headerLine (h : Header) (hname : Text.IsOneLine h.name)
    (word rest : String) (hword : Text.IsOneLine word) (hrest : Text.IsOneLine rest) :
    Text.IsOneLine (h.keyword ++ word ++ h.name ++ rest) := by
  simp only [Text.isOneLine_append]
  exact ⟨⟨⟨h.isOneLine_keyword, hword⟩, hname⟩, hrest⟩

theorem Body.IsOneLine.lines {body : Body} (hbody : body.IsOneLine) (hname : Text.IsOneLine h.name)
    (hnested : ∀ l ∈ nested, l.IsOneLine) (noChildren : Bool) :
    ∀ l ∈ body.lines h nested noChildren, l.IsOneLine := by
  have hsibling := Header.isOneLine_siblingNamespace hname hnested noChildren
  have hclosing : h.closingLine.IsOneLine := (by decide : Text.IsOneLine "\x7d")
  cases body with
  | ofNamespace properties methods asType =>
    obtain ⟨hproperties, hmethods, htype⟩ := hbody
    cases asType with
    | none =>
      exact isOneLine_block (Header.isOneLine_namespaceLine hname) (List.forall_mem_append.2
        ⟨isOneLine_memberLines hproperties hmethods, hnested⟩) hclosing
    | some type =>
      have hline : Text.IsOneLine (h.keyword ++ "type " ++ h.name ++ " = " ++ type ++ ";") := by
        simp only [Text.isOneLine_append]
        exact ⟨⟨⟨⟨⟨h.isOneLine_keyword, by decide⟩, hname⟩, by decide⟩, htype type rfl⟩,
          by decide⟩
      exact List.forall_mem_cons.2 ⟨hline, hsibling⟩
  | ofClass c =>
    obtain ⟨base, properties, methods⟩ := c
    obtain ⟨hproperties, hmethods, hbase⟩ := hbody
    have hlines : ∀ rest, Text.IsOneLine rest → ∀ l ∈
        .code h.depth (h.keyword ++ "class " ++ h.name ++ rest ++ " \x7b")
          :: memberLines (h.depth + 1) properties methods ++ [h.closingLine]
          ++ h.siblingNamespace nested noChildren, l.IsOneLine := by
      intro rest hrest
      have hline := Text.isOneLine_append.2
        ⟨h.isOneLine_headerLine hname "class " rest (by decide) hrest,
          (by decide : Text.IsOneLine " \x7b")⟩
      exact List.forall_mem_append.2
        ⟨isOneLine_block hline (isOneLine_memberLines hproperties hmethods) hclosing, hsibling⟩
    cases base with
    | none => exact hlines "" (by decide)
    | some base =>
      exact hlines (" extends " ++ base) (Text.isOneLine_append.2 ⟨by decide, hbase base rfl⟩)
  | ofInterface properties methods =>
    have hline := h.isOneLine_headerLine hname "interface " " \x7b" (by decide) (by decide)
    exact List.forall_mem_append.2
      ⟨isOneLine_block hline (isOneLine_memberLines hbody.1 hbody.2) hclosing, hsibling⟩
  | ofEnum members =>
    have hline := h.isOneLine_headerLine hname "enum " " \x7b" (by decide) (by decide)
    refine isOneLine_block hline (fun l hl => ?_) hclosing
    obtain ⟨m, hm, hl⟩ := List.mem_flatMap.1 hl
    exact EnumMember.isOneLine_lines (hbody m hm) l hl
  | ofTypedef properties =>
    cases properties with
    | nil =>
      have hline := h.isOneLine_headerLine hname "type " " = any;" (by decide) (by decide)
      exact List.forall_mem_cons.2 ⟨hline, hsibling⟩
    | cons p ps =>
      have hline := h.isOneLine_headerLine hname "type " " = \x7b" (by decide) (by decide)
      have hmembers : ∀ l ∈ memberLines (h.depth + 1) (p :: ps) [], l.IsOneLine :=
        isOneLine_memberLines hbody (List.forall_mem_nil _)
      exact List.forall_mem_append.2
        ⟨isOneLine_block hline hmembers (by decide : Text.IsOneLine "\x7d;"), hsibling⟩

end

namespace Declaration

/-- Every declaration nested in a declaration, and the declaration itself, is written from texts on
one line. -/
def IsOneLine (d : Declaration) : Prop :=
  ∀ e ∈ d.nodes, Text.IsOneLine e.name ∧ e.body.IsOneLine

/-- The lines of a declaration have no line feeds on them. -/
theorem IsOneLine.lines {d : Declaration} (hd : d.IsOneLine) : ∀ l ∈ d.lines, l.IsOneLine := by
  induction d using children_induction with
  | step d ih =>
    obtain ⟨header, body, children⟩ := d
    rw [IsOneLine, nodes_eq_cons, List.forall_mem_cons] at hd
    obtain ⟨⟨hname, hbody⟩, hchildren⟩ := hd
    have hnested : ∀ l ∈ linesAll children, l.IsOneLine := by
      intro l hl
      rw [linesAll_eq_flatMap] at hl
      obtain ⟨c, hc, hl⟩ := List.mem_flatMap.1 hl
      exact ih c hc (fun e he => hchildren e (mem_nodesAll.2 ⟨c, hc, he⟩)) l hl
    exact List.forall_mem_append.2
      ⟨isOneLine_docBlock _ _ _, Body.IsOneLine.lines hbody hname hnested _⟩

end Declaration

end ApiTypings
