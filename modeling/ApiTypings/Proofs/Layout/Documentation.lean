/-
# Documentation cannot close its comment

Documentation stands in a comment, which ends with the first slash behind a star.  The text of a
documentation block comes from outside and may have anything in it.  Line by line such pairs are
taken apart, and behind the star that begins a line there is a blank or the line ends.  A line end
stands between any two lines, so no pair can come together across them either.

The indentation must have no star of its own; a slash in it does no harm.

* `leavesOpen_escapeClosing` : a text whose pairs were taken apart;
* `leavesOpen_joined` : lines that leave a comment open, put together;
* `closesAt_append_iff` : the one place where a comment is closed;
* `isDocBlock_docBlock` : what is written of some documentation;
* `docBlock_closed_once` : the text of a documentation block.
-/
import ApiTypings.Proofs.Layout.Lines
import Mathlib.Data.List.Chain

namespace ApiTypings

namespace Text

/-! ## The end of a comment -/

/-- A comment is closed at a place of a text: a star stands there, and a slash right behind it. -/
def ClosesAt (cs : List Char) (k : Nat) : Prop := cs[k]? = some '*' ∧ cs[k + 1]? = some '/'

/-- A text that closes no comment: no slash stands right behind a star. -/
def LeavesOpen (cs : List Char) : Prop := cs.IsChain fun a b => a = '*' → b ≠ '/'

instance (cs : List Char) : Decidable (LeavesOpen cs) :=
  inferInstanceAs (Decidable (cs.IsChain _))

theorem not_closesAt {cs : List Char} (h : LeavesOpen cs) (k : Nat) : ¬ ClosesAt cs k := by
  rintro ⟨hstar, hslash⟩
  obtain ⟨hk, hslash⟩ := List.getElem?_eq_some_iff.1 hslash
  have hpair := List.isChain_iff_getElem.1 h k hk
  rw [List.getElem?_eq_getElem (Nat.lt_of_succ_lt hk)] at hstar
  exact hpair (Option.some.inj hstar) hslash

/-- Two texts that close no comment, unless a star and a slash come together between them. -/
theorem LeavesOpen.append {xs ys : List Char} (hx : LeavesOpen xs) (hy : LeavesOpen ys)
    (h : '*' ∉ xs.getLast? ∨ '/' ∉ ys.head?) : LeavesOpen (xs ++ ys) := by
  refine List.isChain_append.2 ⟨hx, hy, ?_⟩
  rintro a ha b hb rfl rfl
  exact h.elim (absurd ha) (absurd hb)

theorem leavesOpen_of_no_star {cs : List Char} (h : '*' ∉ cs) : LeavesOpen cs :=
  List.isChain_iff_getElem.2 fun _ _ hstar => absurd (hstar ▸ List.getElem_mem _) h

/-- A text without stars may be put in front. -/
theorem LeavesOpen.behind {xs ys : List Char} (hy : LeavesOpen ys) (h : '*' ∉ xs) :
    LeavesOpen (xs ++ ys) :=
  (leavesOpen_of_no_star h).append hy (.inl fun hlast => h (List.mem_of_getLast? hlast))

/-- What stands in front of the slash and what stands behind the star close no comment, so the two
close it at their place only. -/
theorem closesAt_append_iff {front rest : List Char} (hfront : LeavesOpen (front ++ ['*']))
    (hrest : LeavesOpen ('/' :: rest)) (k : Nat) :
    ClosesAt (front ++ '*' :: '/' :: rest) k ↔ k = front.length := by
  have hcs : front ++ '*' :: '/' :: rest = (front ++ ['*']) ++ '/' :: rest := by simp
  have hlength : (front ++ ['*']).length = front.length + 1 := by simp
  constructor
  · intro hcloses
    rcases Nat.lt_trichotomy k front.length with hk | hk | hk
    · have hchar : ∀ i < (front ++ ['*']).length,
          (front ++ ['*'] ++ '/' :: rest)[i]? = (front ++ ['*'])[i]? :=
        fun i hi => List.getElem?_append_left hi
      rw [ClosesAt, hcs, hchar k (by omega), hchar (k + 1) (by omega)] at hcloses
      exact absurd hcloses (not_closesAt hfront k)
    · exact hk
    · rw [ClosesAt, hcs, List.getElem?_append_right (by omega),
        List.getElem?_append_right (by omega), hlength,
        show k + 1 - (front.length + 1) = k - (front.length + 1) + 1 by omega] at hcloses
      exact absurd hcloses (not_closesAt hrest _)
  · rintro rfl
    refine ⟨by simp, ?_⟩
    rw [hcs, List.getElem?_append_right (by omega), hlength, Nat.sub_self]
    rfl

/-- Lines that close no comment, put together in front of a text that closes none. -/
theorem leavesOpen_joined {lines : List (List Char)} (h : ∀ l ∈ lines, LeavesOpen l)
    {rest : List Char} (hrest : LeavesOpen rest) :
    LeavesOpen (lines.flatMap (· ++ newline.toList) ++ rest) := by
  induction lines with
  | nil => exact hrest
  | cons l lines ih =>
    rw [List.forall_mem_cons] at h
    have hline : LeavesOpen (l ++ newline.toList) :=
      h.1.append (by decide) (.inr (by decide))
    rw [List.flatMap_cons, List.append_assoc]
    -- the line end stands between a line and what follows
    refine hline.append (ih h.2) (.inl ?_)
    rw [List.getLast?_append_of_ne_nil _ (by decide)]
    decide

end Text

/-! ## Texts of documentation -/

/-- A text and its escaped form begin alike. -/
theorem head?_escapeClosing (cs : List Char) : (escapeClosing cs).head? = cs.head? := by
  unfold escapeClosing
  fun_cases Text.replaceAll "*/".toList "*\\/".toList cs with
  | case1 => rfl
  | case2 c rest after hfound hnil => exact absurd hnil (by decide)
  | case3 c rest after hfound hne =>
    rw [Text.stripPrefix?_eq_some.1 hfound]
    rfl
  | case4 c rest hfound => rfl

/-- In an escaped text nothing closes a comment. -/
theorem leavesOpen_escapeClosing (cs : List Char) : Text.LeavesOpen (escapeClosing cs) := by
  unfold escapeClosing
  fun_induction Text.replaceAll "*/".toList "*\\/".toList cs with
  | case1 => exact List.IsChain.nil
  | case2 c rest after hfound hnil ih => exact absurd hnil (by decide)
  | case3 c rest after hfound hne ih =>
    exact Text.LeavesOpen.append (by decide) ih (.inl (by decide))
  | case4 c rest hfound ih =>
    refine List.isChain_cons.2 ⟨fun b hb hstar hslash => ?_, ih⟩
    -- a slash at the beginning of the rest would have been found together with the star
    have hhead : rest.head? = some '/' := by
      rw [← head?_escapeClosing]
      exact hslash ▸ hb
    obtain ⟨after, rfl⟩ := List.head?_eq_some_iff.1 hhead
    subst hstar
    have hpair : Text.stripPrefix? "*/".toList ('*' :: '/' :: after) = some after :=
      Text.stripPrefix?_eq_some.2 rfl
    exact absurd (hfound.symm.trans hpair) (by simp)

/-- What stands behind the star on the line of a tag. -/
def tagText (tag : String) : List Char := behindStar (Text.singleLine tag.toList)

theorem leavesOpen_star_behindStar (cs : List Char) :
    Text.LeavesOpen (" *".toList ++ behindStar cs) := by
  unfold behindStar
  split
  · decide
  · have htext : Text.LeavesOpen (' ' :: escapeClosing cs) :=
      Text.LeavesOpen.behind (leavesOpen_escapeClosing cs) (by decide : '*' ∉ [' '])
    exact Text.LeavesOpen.append (by decide) htext (.inr (by simp))

/-! ## Blocks -/

/-- The lines of a documentation block with some texts behind the stars. -/
def blockLines (indent : List Char) (texts : List (List Char)) : List (List Char) :=
  (indent ++ "/**".toList) :: texts.map (indent ++ " *".toList ++ ·) ++ [indent ++ " */".toList]

/-- A text that is a documentation block: it has a line for every line of the description and one
for every tag, all of them behind the indentation and a star, and the comment is closed once, at the
end of the last line. -/
structure IsDocBlock (indent : List Char) (described tagged : List (List Char))
    (text : List Char) : Prop where
  text_eq : text = (blockLines indent (described ++ tagged)).flatMap (· ++ newline.toList)
  closed_once : ∀ k, Text.ClosesAt text k ↔ k + "*/\r\n".length = text.length
  described_oneLine : ∀ t ∈ described, '\n' ∉ t
  tagged_oneLine : ∀ t ∈ tagged, '\r' ∉ t ∧ '\n' ∉ t

section

variable {unit : String} {depth : Nat} {description : String} {tags : List String}

theorem docBlock_eq_nil_iff : docBlock depth description tags = [] ↔
    Text.isBlankString description = true ∧ tags = [] := by
  rw [Text.isBlankString, ← Text.trim_eq_nil_iff]
  unfold docBlock
  dsimp only
  split
  · rename_i hempty
    simpa using hempty
  · rename_i hempty
    simpa using hempty

/-- What stands on the lines of a block. -/
theorem content_docBlock (h : docBlock depth description tags ≠ []) :
    (docBlock depth description tags).map (Line.content unit)
      = blockLines (indentation unit depth).toList
        ((descriptionLines (Text.trim description.toList)).map behindStar ++ tags.map tagText) := by
  have hline : ∀ cs, Line.content unit (docLine depth cs)
      = (indentation unit depth).toList ++ " *".toList ++ behindStar cs := by
    intro cs
    rw [docLine_eq, Line.content, String.toList_ofList, List.append_assoc]
  unfold docBlock at h ⊢
  dsimp only at h ⊢
  split
  · rename_i hempty
    exact absurd (if_pos hempty) h
  · simp only [List.map_append, List.map_cons, List.map_map, List.map_nil, Function.comp_def, hline]
    simp [blockLines, Line.content, tagText, Function.comp_def]

end

/-- The lines of a block are read back from the text, when the indentation has no line feed. -/
theorem IsDocBlock.endedLines {indent text : List Char} {described tagged : List (List Char)}
    (h : IsDocBlock indent described tagged text) (hindent : '\n' ∉ indent) :
    Text.endedLines text = some (blockLines indent (described ++ tagged)) := by
  rw [h.text_eq]
  have hend : ∀ ending : List Char, '\n' ∉ ending → '\n' ∉ indent ++ ending := by
    intro ending hending
    rw [List.mem_append, not_or]
    exact ⟨hindent, hending⟩
  refine Text.endedLines_joined ?_
  rw [blockLines, List.forall_mem_append, List.forall_mem_cons, List.forall_mem_map,
    List.forall_mem_singleton]
  refine ⟨⟨hend _ (by decide), fun t ht => ?_⟩, hend _ (by decide)⟩
  have hfeed : '\n' ∉ t := by
    rcases List.mem_append.1 ht with ht | ht
    · exact h.described_oneLine t ht
    · exact (h.tagged_oneLine t ht).2
  rw [List.append_assoc]
  refine hend _ ?_
  rw [List.mem_append, not_or]
  exact ⟨by decide, hfeed⟩

/-- The lines of a block close its comment once, at the end of the last line. -/
theorem closesAt_blockLines {indent : List Char} (hindent : '*' ∉ indent)
    (texts : List (List Char)) (k : Nat) :
    Text.ClosesAt ((blockLines indent (texts.map behindStar)).flatMap (· ++ newline.toList)) k ↔
      k + "*/\r\n".length
        = ((blockLines indent (texts.map behindStar)).flatMap (· ++ newline.toList)).length := by
  have hlines : ∀ l ∈ (indent ++ "/**".toList)
      :: (texts.map behindStar).map (indent ++ " *".toList ++ ·), Text.LeavesOpen l := by
    rw [List.forall_mem_cons, List.map_map, List.forall_mem_map]
    refine ⟨Text.LeavesOpen.behind (by decide) hindent, fun cs _ => ?_⟩
    rw [Function.comp_apply, List.append_assoc]
    exact (leavesOpen_star_behindStar cs).behind hindent
  have hlast : Text.LeavesOpen (indent ++ " *".toList) :=
    Text.LeavesOpen.behind (by decide) hindent
  have hopen := Text.leavesOpen_joined hlines hlast
  generalize hfront : ((indent ++ "/**".toList)
      :: (texts.map behindStar).map (indent ++ " *".toList ++ ·)).flatMap (· ++ newline.toList)
    = front at hopen
  have htext : (blockLines indent (texts.map behindStar)).flatMap (· ++ newline.toList)
      = (front ++ (indent ++ [' '])) ++ '*' :: '/' :: newline.toList := by
    rw [blockLines, List.flatMap_append, hfront]
    simp
  have hopen' : Text.LeavesOpen ((front ++ (indent ++ [' '])) ++ ['*']) := by
    simpa using hopen
  have hlength : ((front ++ (indent ++ [' '])) ++ '*' :: '/' :: newline.toList).length
      = (front ++ (indent ++ [' '])).length + "*/\r\n".length := List.length_append
  rw [htext, Text.closesAt_append_iff hopen' (by decide), hlength]
  exact Nat.add_right_cancel_iff.symm

/-! ## What is written -/

/-- Every line is written with its line end. -/
theorem renderLines_eq_empty_iff {unit : String} {lines : List Line} :
    renderLines unit lines = "" ↔ lines = [] := by
  rw [← String.toList_inj, Line.toList_renderLines]
  cases lines with
  | nil => simp
  | cons l lines => simp [newline]

/-- What is written of some documentation is a block. -/
theorem isDocBlock_docBlock {unit : String} (hunit : '*' ∉ unit.toList) {depth : Nat}
    {description : String} {tags : List String} (h : docBlock depth description tags ≠ []) :
    IsDocBlock (indentation unit depth).toList
      ((descriptionLines (Text.trim description.toList)).map behindStar) (tags.map tagText)
      (renderLines unit (docBlock depth description tags)).toList := by
  have hcontent : (docBlock depth description tags).map (Line.content unit)
      = blockLines (indentation unit depth).toList
        ((descriptionLines (Text.trim description.toList)).map behindStar ++ tags.map tagText) :=
    content_docBlock h
  refine ⟨?_, ?_, ?_, ?_⟩
  · rw [Line.toList_renderLines, hcontent]
  · intro k
    -- tags are lines like those of the description, once they are on one line
    have htexts : (descriptionLines (Text.trim description.toList)).map behindStar
          ++ tags.map tagText
        = (descriptionLines (Text.trim description.toList)
          ++ tags.map fun tag => Text.singleLine tag.toList).map behindStar := by
      rw [List.map_append, List.map_map]
      rfl
    rw [Line.toList_renderLines, hcontent, htexts]
    exact closesAt_blockLines (not_mem_indentation hunit depth) _ k
  · rw [List.forall_mem_map]
    intro cs hcs
    exact not_mem_behindStar (by decide) (not_mem_of_mem_descriptionLines hcs)
  · rw [List.forall_mem_map]
    intro tag _
    constructor
    · exact not_mem_behindStar (by decide) (Text.not_mem_singleLine (by decide) _)
    · exact not_mem_behindStar (by decide) (Text.not_mem_singleLine (by decide) _)

/-- Nothing is written for a blank description without tags.  Anything else is written as a block
whose comment is closed once, at its end, whatever the description and the tags say. -/
theorem docBlock_closed_once (unit : String) (hunit : '*' ∉ unit.toList) (depth : Nat)
    (description : String) (tags : List String) :
    (renderLines unit (docBlock depth description tags) = "" ↔
        Text.isBlankString description = true ∧ tags = []) ∧
      (¬ (Text.isBlankString description = true ∧ tags = []) →
        IsDocBlock (indentation unit depth).toList
            ((descriptionLines (Text.trim description.toList)).map behindStar) (tags.map tagText)
            (renderLines unit (docBlock depth description tags)).toList ∧
          ('\n' ∉ unit.toList →
            Text.endedLines (renderLines unit (docBlock depth description tags)).toList
              = some (blockLines (indentation unit depth).toList
                ((descriptionLines (Text.trim description.toList)).map behindStar
                  ++ tags.map tagText)))) := by
  constructor
  · exact renderLines_eq_empty_iff.trans docBlock_eq_nil_iff
  · intro hdocumented
    have hlines : docBlock depth description tags ≠ [] := mt docBlock_eq_nil_iff.1 hdocumented
    have hblock := isDocBlock_docBlock hunit hlines
    exact ⟨hblock, fun hfeed => hblock.endedLines (not_mem_indentation hfeed depth)⟩

/-- A description that begins with a slash and ends a comment, and a tag that is cut into lines and
ends another. -/
theorem docBlock_closed_once_hostile :
    '*' ∉ "  ".toList ∧
      ¬ (Text.isBlankString "/ **/*/\n *" = true ∧ ["@since */\r\n/"] = []) ∧
      renderLines "  " (docBlock 1 "/ **/*/\n *" ["@since */\r\n/"])
        = "  /**\r\n   * / **\\/*\\/\r\n   *  *\r\n   * @since *\\/ /\r\n   */\r\n" ∧
      IsDocBlock (indentation "  " 1).toList
        ((descriptionLines (Text.trim "/ **/*/\n *".toList)).map behindStar)
        (["@since */\r\n/"].map tagText)
        (renderLines "  " (docBlock 1 "/ **/*/\n *" ["@since */\r\n/"])).toList :=
  have hunit : '*' ∉ "  ".toList := by decide
  have hdocumented : ¬ (Text.isBlankString "/ **/*/\n *" = true ∧ ["@since */\r\n/"] = []) := by
    simp
  ⟨hunit, hdocumented, by decide +kernel, ((docBlock_closed_once "  " hunit 1 _ _).2 hdocumented).1⟩

end ApiTypings
