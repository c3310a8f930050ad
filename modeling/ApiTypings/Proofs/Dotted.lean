/-
# Laws of dotted names

Taking a name apart and putting it together are inverse to each other on segments without dots, and
the segments of a name have none.  So a name is known by its segments, and the dotted prefixes of a
name are the prefixes of its list of segments.

* `segments_fromSegments` : segments without dots are read back;
* `segments_inj` : names with the same segments are the same;
* `fromSegments_concat` : one more segment is one more dot.
-/
import ApiTypings.Dotted

namespace ApiTypings

namespace Text

/-! ## Cutting at a separator -/

/-- No piece has a separator in it. -/
theorem not_mem_of_mem_cut {sep : Char} {cs piece : List Char} (h : piece ∈ cut (· == sep) cs) :
    sep ∉ piece := by
  induction cs generalizing piece with
  | nil => simp_all
  | cons c cs ih =>
    unfold cut at h
    by_cases hc : c = sep
    · rw [if_pos (beq_iff_eq.2 hc)] at h
      rcases List.mem_cons.1 h with rfl | h
      · exact List.not_mem_nil
      · exact ih h
    · rw [if_neg (by simpa using hc)] at h
      cases hcut : cut (· == sep) cs with
      | nil => exact absurd hcut (cut_ne_nil _ cs)
      | cons first pieces =>
        rw [hcut] at h ih
        rcases List.mem_cons.1 h with rfl | h
        · rw [List.mem_cons, not_or]
          exact ⟨Ne.symm hc, ih List.mem_cons_self⟩
        · exact ih (List.mem_cons_of_mem _ h)

/-- A text without separators is one piece. -/
theorem cut_of_not_mem {sep : Char} {cs : List Char} (h : sep ∉ cs) :
    cut (· == sep) cs = [cs] := by
  induction cs with
  | nil => rfl
  | cons c cs ih =>
    rw [List.mem_cons, not_or] at h
    rw [cut, if_neg (by simpa using Ne.symm h.1), ih h.2]

/-- What stands around a separator is cut on its own. -/
theorem cut_append_separator (sep : Char) (cs rest : List Char) :
    cut (· == sep) (cs ++ sep :: rest) = cut (· == sep) cs ++ cut (· == sep) rest := by
  induction cs with
  | nil => simp [cut]
  | cons c cs ih =>
    rw [List.cons_append, cut, cut, ih]
    by_cases hc : c = sep
    · rw [if_pos (beq_iff_eq.2 hc), if_pos (beq_iff_eq.2 hc), List.cons_append]
    · rw [if_neg (by simpa using hc), if_neg (by simpa using hc)]
      cases hcut : cut (· == sep) cs with
      | nil => exact absurd hcut (cut_ne_nil _ cs)
      | cons piece pieces => rfl

/-- Pieces without separators are read back from the joined text. -/
theorem cut_intercalate {sep : Char} {pieces : List (List Char)} (hne : pieces ≠ [])
    (h : ∀ piece ∈ pieces, sep ∉ piece) : cut (· == sep) ([sep].intercalate pieces) = pieces := by
  induction pieces with
  | nil => exact absurd rfl hne
  | cons piece pieces ih =>
    cases pieces with
    | nil => simpa [List.intercalate] using cut_of_not_mem (h piece List.mem_cons_self)
    | cons next pieces =>
      have hrest := ih (by simp) fun p hp => h p (List.mem_cons_of_mem _ hp)
      have hjoin : [sep].intercalate (piece :: next :: pieces)
          = piece ++ sep :: [sep].intercalate (next :: pieces) := by
        simp [List.intercalate]
      rw [hjoin, cut_append_separator, cut_of_not_mem (h piece List.mem_cons_self), hrest,
        List.singleton_append]

/-- A text begins with another when something stands behind that one. -/
theorem beginsWith_iff {start s : String} :
    beginsWith start s = true ↔ ∃ rest, s = start ++ rest := by
  rw [beginsWith, Option.isSome_iff_exists]
  constructor
  · rintro ⟨rest, hrest⟩
    refine ⟨.ofList rest, String.toList_inj.1 ?_⟩
    rw [stripPrefix?_eq_some.1 hrest, String.toList_append, String.toList_ofList]
  · rintro ⟨rest, rfl⟩
    exact ⟨rest.toList, stripPrefix?_eq_some.2 String.toList_append⟩

end Text

namespace Dotted

/-! ## Segments -/

/-- No segment has a dot in it. -/
theorem dot_not_mem_of_mem_segments {name seg : String} (h : seg ∈ segments name) :
    '.' ∉ seg.toList := by
  obtain ⟨piece, hpiece, rfl⟩ := List.mem_map.1 h
  rw [String.toList_ofList]
  exact Text.not_mem_of_mem_cut hpiece

/-- Segments without dots are read back. -/
theorem segments_fromSegments {parts : List String} (hne : parts ≠ [])
    (h : ∀ p ∈ parts, '.' ∉ p.toList) : segments (fromSegments parts) = parts := by
  have hpieces : ∀ piece ∈ parts.map String.toList, '.' ∉ piece := by
    intro piece hpiece
    obtain ⟨p, hp, rfl⟩ := List.mem_map.1 hpiece
    exact h p hp
  have hcut := Text.cut_intercalate (by simpa using hne) hpieces
  have hmap : String.ofList ∘ String.toList = id := funext fun s => String.ofList_toList
  rw [segments, Text.pieces, fromSegments, String.toList_intercalate]
  show (Text.cut (· == '.') (['.'].intercalate (parts.map String.toList))).map String.ofList = parts
  rw [hcut, List.map_map, hmap, List.map_id]

/-- Names with the same segments are the same. -/
theorem segments_inj {a b : String} : segments a = segments b ↔ a = b := by
  constructor
  · intro h
    rw [← fromSegments_segments a, h, fromSegments_segments]
  · rintro rfl
    rfl

/-- The first segments of a name are those of the name made of them. -/
theorem segments_fromSegments_of_prefix {parts : List String} {name : String} (hne : parts ≠ [])
    (h : parts <+: segments name) : segments (fromSegments parts) = parts :=
  segments_fromSegments hne fun _ hp => dot_not_mem_of_mem_segments (h.subset hp)

/-- The segments of the name `p` are the first segments of `name`. -/
def Begins (p name : String) : Prop := segments p <+: segments name

/-- One more segment is one more dot. -/
theorem fromSegments_concat {parts : List String} (hne : parts ≠ []) (seg : String) :
    fromSegments (parts ++ [seg]) = member (fromSegments parts) seg := by
  rw [fromSegments, String.intercalate_append_of_ne_nil hne (by simp),
    String.intercalate_singleton]
  rfl

/-- The segments of a member are those of its owner, and its own. -/
theorem segments_member (owner name : String) :
    segments (member owner name) = segments owner ++ segments name := by
  have hdot : (member owner name).toList = owner.toList ++ '.' :: name.toList := by
    simp [member]
  rw [segments, Text.pieces, hdot, Text.cut_append_separator, List.map_append]
  rfl

/-- A name goes on behind another one and a dot when it has all its segments and more. -/
theorem beginsWith_dot_iff {owner name : String} :
    Text.beginsWith (owner ++ ".") name = true ↔
      ∃ seg behind, segments name = segments owner ++ seg :: behind := by
  rw [Text.beginsWith_iff]
  constructor
  · rintro ⟨rest, rfl⟩
    obtain ⟨seg, behind, hrest⟩ := List.exists_cons_of_ne_nil (segments_ne_nil rest)
    exact ⟨seg, behind, by rw [← hrest, ← segments_member]; rfl⟩
  · rintro ⟨seg, behind, hname⟩
    refine ⟨fromSegments (seg :: behind), ?_⟩
    rw [← fromSegments_segments name, hname, fromSegments,
      String.intercalate_append_of_ne_nil (segments_ne_nil owner) (by simp)]
    show fromSegments (segments owner) ++ "." ++ fromSegments (seg :: behind) = _
    rw [fromSegments_segments]

/-- The last segment is the basename. -/
theorem basename_fromSegments {parts : List String} {seg : String}
    (h : segments (fromSegments (parts ++ [seg])) = parts ++ [seg]) :
    basename (fromSegments (parts ++ [seg])) = seg := by
  rw [basename, h]
  simp

end Dotted

end ApiTypings
