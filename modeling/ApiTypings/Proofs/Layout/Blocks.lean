/-
# Blocks of a declaration file

A declaration file is text: lines that end with a carriage return and a line feed.  A line of code
that ends with an opening brace opens a block, and one that has nothing but a closing brace closes
one.  Reading the lines one after the other, `openAfter` counts the open blocks and checks that
every line is indented by them; the lines of a declaration leave as many blocks open as they find.

* `endedLines_joined`, `endedLines_render` : the lines are read back from the text;
* `keeps_block` : what stands between an opening and a closing line;
* `Leveled.keeps_lines` : the lines of a declaration are well nested.
-/
import ApiTypings.Declaration.Text
import ApiTypings.Proofs.Dotted
import ApiTypings.Proofs.Forest.Nodes
import ApiTypings.Proofs.Text.Trim

namespace ApiTypings

/-! ## Lines of a text -/

namespace Text

/-- The lines of a text in which every line ends with a carriage return and a line feed, and no line
feed stands elsewhere. -/
def endedLines (cs : List Char) : Option (List (List Char)) :=
  if (cut (· == '\n') cs).getLast? = some [] then
    (cut (· == '\n') cs).dropLast.mapM (stripSuffix? ['\r'])
  else none

/-- Lines with their ends are cut at the line feeds. -/
theorem cut_joined {lines : List (List Char)} (h : ∀ l ∈ lines, '\n' ∉ l) :
    cut (· == '\n') (lines.flatMap (· ++ newline.toList)) = lines.map (· ++ ['\r']) ++ [[]] := by
  induction lines with
  | nil => rfl
  | cons l lines ih =>
    rw [List.forall_mem_cons] at h
    have hline : l ++ newline.toList ++ lines.flatMap (· ++ newline.toList)
        = (l ++ ['\r']) ++ '\n' :: lines.flatMap (· ++ newline.toList) := by
      simp [newline]
    have hfeed : '\n' ∉ l ++ ['\r'] := by simp [h.1]
    rw [List.flatMap_cons, hline, cut_append_separator, cut_of_not_mem hfeed, ih h.2]
    rfl

/-- Lines without line feeds are read back. -/
theorem endedLines_joined {lines : List (List Char)} (h : ∀ l ∈ lines, '\n' ∉ l) :
    endedLines (lines.flatMap (· ++ newline.toList)) = some lines := by
  have hstrip : (stripSuffix? ['\r']) ∘ (· ++ ['\r']) = some :=
    funext fun l => stripSuffix?_eq_some.2 rfl
  rw [endedLines, cut_joined h, if_pos (by simp), List.dropLast_concat, List.mapM_map, hstrip]
  exact List.mapM_pure.trans (congrArg some (List.map_id lines))

end Text

namespace Line

variable {unit : String}

/-- What stands on a line. -/
def content (unit : String) : Line → List Char
  | code depth text => (indentation unit depth).toList ++ text.toList
  | doc depth text => (indentation unit depth).toList ++ text.toList
  | blank => []

/-- The text of lines is what stands on them, each with its end. -/
theorem toList_renderLines (lines : List Line) :
    (renderLines unit lines).toList = (lines.map (content unit)).flatMap (· ++ newline.toList) := by
  induction lines with
  | nil => rfl
  | cons l lines ih =>
    have hline : (l.render unit).toList = l.content unit ++ newline.toList := by
      cases l <;> simp [render, content]
    rw [← List.singleton_append, renderLines_append, String.toList_append, ih, List.map_append,
      List.flatMap_append]
    simp [renderLines, hline]

/-- The lines are read back from the text, if no line feed stands on them. -/
theorem endedLines_render {lines : List Line} (h : ∀ l ∈ lines, '\n' ∉ l.content unit) :
    Text.endedLines (renderLines unit lines).toList = some (lines.map (content unit)) := by
  rw [toList_renderLines]
  refine Text.endedLines_joined fun cs hcs => ?_
  obtain ⟨l, hl, rfl⟩ := List.mem_map.1 hcs
  exact h l hl

/-! ## Counting open blocks -/

/-- Whether a line opens a block. -/
def opensBlock (cs : List Char) : Bool := (Text.stripSuffix? " \x7b".toList cs).isSome

/-- Whether a line closes a block: behind its indentation it has nothing but the closing brace, and
perhaps a semicolon. -/
def closesBlock (cs : List Char) : Bool :=
  Text.trimStart cs == "\x7d".toList || Text.trimStart cs == "\x7d;".toList

/-- Whether a line begins with the indentation of a depth. -/
def isIndented (unit : String) (depth : Nat) (cs : List Char) : Bool :=
  (Text.stripPrefix? (indentation unit depth).toList cs).isSome

/-- The number of open blocks behind a line, when `opened` are open in front of it.  There is none
when the line closes a block that is not open, or is not indented by the blocks that are open at it;
a line that closes a block stands outside of it.  Documentation opens and closes nothing. -/
def openAfter (unit : String) (opened : Nat) : Line → Option Nat
  | blank => some opened
  | l@(doc ..) => if isIndented unit opened (l.content unit) then some opened else none
  | l@(code ..) =>
    let cs := l.content unit
    if closesBlock cs then
      match opened with
      | 0 => none
      | outer + 1 => if isIndented unit outer cs then some outer else none
    else if isIndented unit opened cs then some (if opensBlock cs then opened + 1 else opened)
    else none

/-- Lines are well nested inside `opened` blocks when they leave as many blocks open. -/
def Keeps (unit : String) (opened : Nat) (lines : List Line) : Prop :=
  lines.foldlM (openAfter unit) opened = some opened

/-- Lines are well nested when every block that they open is closed. -/
def WellNested (unit : String) (lines : List Line) : Prop := Keeps unit 0 lines

/-! ## Lines on their own -/

theorem isIndented_content (depth : Nat) (text : List Char) :
    isIndented unit depth ((indentation unit depth).toList ++ text) = true := by
  rw [isIndented, Text.stripPrefix?_eq_some.2 rfl]
  rfl

/-- A line that closes a block has no other characters than blanks, the brace and a semicolon. -/
theorem closesBlock_of_mem {cs : List Char} {c : Char} (hc : c ∈ cs)
    (hblank : Text.isBlank c = false) (hbrace : c ≠ '\x7d') (hsemicolon : c ≠ ';') :
    closesBlock cs = false := by
  obtain ⟨before, hbefore, hcs⟩ := Text.exists_blanks_trimStart cs
  have hmem : c ∈ Text.trimStart cs := by
    rw [hcs, List.mem_append] at hc
    refine hc.resolve_left fun hc => ?_
    exact absurd (List.all_eq_true.1 hbefore c hc) (by simp [hblank])
  rw [closesBlock, Bool.or_eq_false_iff, beq_eq_false_iff_ne, beq_eq_false_iff_ne]
  constructor
  · intro htrim
    rw [htrim] at hmem
    simp [hbrace] at hmem
  · intro htrim
    rw [htrim] at hmem
    simp [hbrace, hsemicolon] at hmem

/-- A line that ends with another character opens no block. -/
theorem opensBlock_concat {c : Char} (hc : c ≠ '\x7b') (cs : List Char) :
    opensBlock (cs ++ [c]) = false := by
  rw [opensBlock, Option.isSome_eq_false_iff, Option.isNone_iff_eq_none]
  refine Option.eq_none_iff_forall_ne_some.2 fun rest hrest => hc ?_
  have heq := congrArg List.getLast? (Text.stripSuffix?_eq_some.1 hrest)
  simpa using heq

/-- A text that ends with a semicolon or a comma, and has a sign that no closing line has. -/
structure IsStatement (text : String) : Prop where
  ends : ∃ last ∈ [';', ','], text.toList.getLast? = some last
  marked : ∃ sign ∈ [':', '(', '='], sign ∈ text.toList

theorem getLast?_append {ending : String} {last : Char} (h : ending.toList.getLast? = some last)
    (front : String) : (front ++ ending).toList.getLast? = some last := by
  rw [String.toList_append, List.getLast?_append, h]
  rfl

/-- A statement neither opens nor closes a block. -/
theorem keeps_statement {text : String} (h : IsStatement text) (depth : Nat) :
    Keeps unit depth [.code depth text] := by
  have hlasts : ∀ last ∈ [';', ','], last ≠ '\x7b' :=
    List.forall_mem_cons.2 ⟨by decide, List.forall_mem_singleton.2 (by decide)⟩
  have hsigns : ∀ sign ∈ [':', '(', '='],
      Text.isBlank sign = false ∧ sign ≠ '\x7d' ∧ sign ≠ ';' :=
    List.forall_mem_cons.2
      ⟨by decide, List.forall_mem_cons.2 ⟨by decide, List.forall_mem_singleton.2 (by decide)⟩⟩
  obtain ⟨last, hlast, hends⟩ := h.ends
  obtain ⟨sign, hsign, hmarked⟩ := h.marked
  obtain ⟨hblank, hbrace, hsemicolon⟩ := hsigns sign hsign
  have hcloses : closesBlock (content unit (.code depth text)) = false :=
    closesBlock_of_mem (List.mem_append_right _ hmarked) hblank hbrace hsemicolon
  have hopens : opensBlock (content unit (.code depth text)) = false := by
    obtain ⟨front, hfront⟩ := List.getLast?_eq_some_iff.1 hends
    rw [content, hfront, ← List.append_assoc]
    exact opensBlock_concat (hlasts last hlast) _
  have hindented : isIndented unit depth (content unit (.code depth text)) = true :=
    isIndented_content depth _
  simp [Keeps, openAfter, hcloses, hopens, hindented]

theorem openAfter_opening (depth : Nat) (text : String) :
    openAfter unit depth (.code depth (text ++ " \x7b")) = some (depth + 1) := by
  have hcloses : closesBlock (content unit (.code depth (text ++ " \x7b"))) = false := by
    refine closesBlock_of_mem (c := '\x7b') ?_ (by decide) (by decide) (by decide)
    simp [content]
  have hopens : opensBlock (content unit (.code depth (text ++ " \x7b"))) = true := by
    rw [opensBlock, content, String.toList_append, ← List.append_assoc,
      Text.stripSuffix?_eq_some.2 rfl]
    rfl
  have hindented : isIndented unit depth (content unit (.code depth (text ++ " \x7b"))) = true :=
    isIndented_content depth _
  simp [openAfter, hcloses, hopens, hindented]

/-- The indentation consists of blanks when its unit does. -/
theorem isBlank_indentation (hunit : Text.isBlankText unit.toList = true) (depth : Nat) :
    Text.isBlankText (indentation unit depth).toList = true := by
  induction depth with
  | zero => rfl
  | succ depth ih =>
    rw [indentation, List.replicate_succ, String.join_cons, String.toList_append]
    rw [Text.isBlankText, List.all_append, Bool.and_eq_true]
    exact ⟨hunit, ih⟩

theorem openAfter_closing (hunit : Text.isBlankText unit.toList = true) (depth : Nat)
    {text : String} (htext : text = "\x7d" ∨ text = "\x7d;") :
    openAfter unit (depth + 1) (.code depth text) = some depth := by
  have htrim : Text.trimStart (content unit (.code depth text)) = text.toList := by
    have hhead : Text.trimStart text.toList = text.toList := by
      rcases htext with rfl | rfl <;> decide
    rw [content, Text.trimStart, List.dropWhile_append_of_pos, ← Text.trimStart, hhead]
    exact List.all_eq_true.1 (isBlank_indentation hunit depth)
  have hcloses : closesBlock (content unit (.code depth text)) = true := by
    rw [closesBlock, htrim]
    rcases htext with rfl | rfl <;> decide
  have hindented : isIndented unit depth (content unit (.code depth text)) = true :=
    isIndented_content depth _
  simp [openAfter, hcloses, hindented]

/-! ## Lists of lines -/

section

variable {depth : Nat} {as bs : List Line}

theorem keeps_nil : Keeps unit depth [] := rfl

theorem Keeps.append (ha : Keeps unit depth as) (hb : Keeps unit depth bs) :
    Keeps unit depth (as ++ bs) := by
  unfold Keeps at *
  rw [List.foldlM_append, ha]
  exact hb

theorem keeps_flatMap {α : Type} {xs : List α} {f : α → List Line}
    (h : ∀ x ∈ xs, Keeps unit depth (f x)) : Keeps unit depth (xs.flatMap f) := by
  induction xs with
  | nil => exact keeps_nil
  | cons x xs ih =>
    rw [List.forall_mem_cons] at h
    rw [List.flatMap_cons]
    exact h.1.append (ih h.2)

theorem keeps_blank : Keeps unit depth [.blank] := rfl

/-- Documentation at the depth of the open blocks leaves them as they are. -/
theorem keeps_of_doc (h : ∀ l ∈ as, ∃ text, l = .doc depth text) : Keeps unit depth as := by
  induction as with
  | nil => exact keeps_nil
  | cons l as ih =>
    rw [List.forall_mem_cons] at h
    obtain ⟨text, rfl⟩ := h.1
    have hindented : isIndented unit depth (content unit (.doc depth text)) = true :=
      isIndented_content depth _
    have hline : Keeps unit depth [.doc depth text] := by simp [Keeps, openAfter, hindented]
    exact hline.append (ih h.2)

/-- A block: well nested lines one level further in, between the line that opens the block and the
line that closes it. -/
theorem keeps_block (hunit : Text.isBlankText unit.toList = true) {opening closing : String}
    (hinside : Keeps unit (depth + 1) as) (hclosing : closing = "\x7d" ∨ closing = "\x7d;") :
    Keeps unit depth (.code depth (opening ++ " \x7b") :: as ++ [.code depth closing]) := by
  unfold Keeps at *
  rw [List.foldlM_append, List.foldlM_cons, openAfter_opening]
  show ((as.foldlM (openAfter unit) (depth + 1)) >>= _) = _
  rw [hinside]
  show (List.foldlM (openAfter unit) (depth + 1) [.code depth closing]) = _
  rw [List.foldlM_cons, openAfter_closing hunit depth hclosing]
  rfl

end

end Line

/-! ## Members -/

section

variable {unit : String} {depth : Nat}

/-- All lines of a documentation block are documentation at its depth. -/
theorem docBlock_doc {description : String} {tags : List String} :
    ∀ l ∈ docBlock depth description tags, ∃ text, l = .doc depth text := by
  have hline : ∀ cs, ∃ text, docLine depth cs = .doc depth text := by
    intro cs
    unfold docLine
    split
    · exact ⟨_, rfl⟩
    · exact ⟨_, rfl⟩
  intro l hl
  unfold docBlock at hl
  dsimp only at hl
  split at hl
  · exact absurd hl List.not_mem_nil
  · rw [List.mem_append, List.mem_append, List.mem_cons, List.mem_map, List.mem_map] at hl
    rcases hl with ((rfl | ⟨cs, -, rfl⟩) | ⟨tag, -, rfl⟩) | hl
    · exact ⟨_, rfl⟩
    · exact hline cs
    · exact hline _
    · exact ⟨_, List.mem_singleton.1 hl⟩

theorem keeps_docBlock {description : String} {tags : List String} :
    Line.Keeps unit depth (docBlock depth description tags) :=
  Line.keeps_of_doc docBlock_doc

theorem Property.keeps_lines (p : Property) : Line.Keeps unit depth (p.lines depth) := by
  have hstatement : Line.IsStatement p.declaration := by
    unfold declaration
    exact ⟨⟨';', by decide, Line.getLast?_append rfl _⟩, ⟨':', by decide, by simp⟩⟩
  exact keeps_docBlock.append (Line.keeps_statement hstatement depth)

theorem Method.keeps_signatureLines (m : Method) (description : String)
    (parameters : List Parameter) (types : TypeSet) (returnDescription : String) :
    Line.Keeps unit depth
      (m.signatureLines depth description parameters types returnDescription) := by
  have hstatement : Line.IsStatement (m.declaration parameters types) := by
    unfold declaration
    exact ⟨⟨';', by decide, Line.getLast?_append rfl _⟩, ⟨'(', by decide, by simp⟩⟩
  exact keeps_docBlock.append ((Line.keeps_statement hstatement depth).append Line.keeps_blank)

theorem Method.keeps_lines (m : Method) : Line.Keeps unit depth (m.lines depth) := by
  unfold lines
  split
  · exact Line.keeps_nil
  · refine (Line.keeps_flatMap fun ps _ => m.keeps_signatureLines _ ps _ _).append ?_
    split
    · exact m.keeps_signatureLines _ _ _ _
    · exact Line.keeps_nil

theorem EnumMember.keeps_lines (m : EnumMember) : Line.Keeps unit depth (m.lines depth) := by
  have hstatement : Line.IsStatement (m.name ++ " = \"" ++ m.name ++ "\",") :=
    ⟨⟨',', by decide, Line.getLast?_append rfl _⟩, ⟨'=', by decide, by simp⟩⟩
  exact keeps_docBlock.append (Line.keeps_statement hstatement depth)

theorem keeps_memberLines (properties : List Property) (methods : List Method) :
    Line.Keeps unit depth (memberLines depth properties methods) :=
  (Line.keeps_flatMap fun p _ => p.keeps_lines).append (Line.keeps_flatMap fun m _ => m.keeps_lines)

end

/-! ## Declarations -/

section

variable {unit : String} {h : Header} {nested : List Line}

theorem Header.keeps_siblingNamespace (hunit : Text.isBlankText unit.toList = true)
    (hnested : Line.Keeps unit (h.depth + 1) nested) (noChildren : Bool) :
    Line.Keeps unit h.depth (h.siblingNamespace nested noChildren) := by
  unfold siblingNamespace
  split
  · exact Line.keeps_nil
  · exact Line.keeps_block hunit hnested (.inl rfl)

/-- The lines of a body are well nested when those of the nested declarations are, one level further
in. -/
theorem Body.keeps_lines (hunit : Text.isBlankText unit.toList = true)
    (hnested : Line.Keeps unit (h.depth + 1) nested) (noChildren : Bool) (body : Body) :
    Line.Keeps unit h.depth (body.lines h nested noChildren) := by
  have hsibling := h.keeps_siblingNamespace hunit hnested noChildren
  cases body with
  | ofNamespace properties methods asType =>
    cases asType with
    | none =>
      exact Line.keeps_block hunit ((keeps_memberLines properties methods).append hnested)
        (.inl rfl)
    | some type =>
      have hstatement : Line.IsStatement
          (h.keyword ++ "type " ++ h.name ++ " = " ++ type ++ ";") :=
        ⟨⟨';', by decide, Line.getLast?_append rfl _⟩, ⟨'=', by decide, by simp⟩⟩
      exact (Line.keeps_statement hstatement h.depth).append hsibling
  | ofClass c =>
    exact (Line.keeps_block hunit (keeps_memberLines c.properties c.methods) (.inl rfl)).append
      hsibling
  | ofInterface properties methods =>
    exact (Line.keeps_block hunit (keeps_memberLines properties methods) (.inl rfl)).append hsibling
  | ofEnum members =>
    exact Line.keeps_block hunit (Line.keeps_flatMap fun m _ => m.keeps_lines) (.inl rfl)
  | ofTypedef properties =>
    cases properties with
    | nil =>
      have hstatement : Line.IsStatement (h.keyword ++ "type " ++ h.name ++ " = any;") :=
        ⟨⟨';', by decide, Line.getLast?_append rfl _⟩, ⟨'=', by decide, by simp⟩⟩
      exact (Line.keeps_statement hstatement h.depth).append hsibling
    | cons p ps =>
      have hopening : " = \x7b" = " =" ++ " \x7b" := rfl
      rw [Body.lines, hopening, ← String.append_assoc]
      exact (Line.keeps_block hunit (keeps_memberLines (p :: ps) []) (.inr rfl)).append hsibling

end

namespace Declaration

/-- A declaration is nested in `depth` others, and so are, one level further in, the declarations
nested in it. -/
inductive Leveled : Nat → Declaration → Prop where
  | node {depth : Nat} {header : Header} {body : Body} {children : List Declaration}
      (hdepth : header.depth = depth) (hchildren : ∀ c ∈ children, Leveled (depth + 1) c) :
      Leveled depth (node header body children)

/-- The lines of a declaration are well nested where it stands. -/
theorem Leveled.keeps_lines {unit : String} (hunit : Text.isBlankText unit.toList = true)
    {depth : Nat} {d : Declaration} (h : Leveled depth d) : Line.Keeps unit depth d.lines := by
  induction h with
  | @node depth header body children hdepth _ ih =>
    subst hdepth
    have hnested : Line.Keeps unit (header.depth + 1) (linesAll children) := by
      rw [linesAll_eq_flatMap]
      exact Line.keeps_flatMap ih
    exact keeps_docBlock.append (Body.keeps_lines hunit hnested _ body)

theorem Leveled.mapClasses {depth : Nat} {d : Declaration} (h : Leveled depth d)
    (f : ClassDecl → ClassBody) : Leveled depth (Declaration.mapClasses f d) := by
  induction h with
  | @node depth header body children hdepth _ ih =>
    rw [Declaration.mapClasses, mapClassesAll_eq_map]
    exact .node hdepth (List.forall_mem_map.2 ih)

end Declaration

end ApiTypings
