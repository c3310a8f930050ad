/-
# Dotted names

Documented things have names such as `sap.m.Button`: segments joined by dots.  The segments of a
name, its last segment, and the wildcard under which tables list every name of one last segment.

* `segments_ne_nil` : every name has a segment, the empty name too;
* `fromSegments_segments` : a name is put together from its segments.
-/
import ApiTypings.Text.Pieces

namespace ApiTypings.Dotted

/-- The segments of a dotted name. -/
def segments (name : String) : List String := Text.pieces '.' name

/-- The dotted name of a list of segments. -/
def fromSegments (parts : List String) : String := ".".intercalate parts

/-- The last segment of a dotted name. -/
def basename (name : String) : String := (segments name).getLastD ""

/-- The member `name` of the thing called `owner`. -/
def member (owner name : String) : String := owner ++ "." ++ name

/-- The table key that stands for every name whose last part is `name`. -/
def wildcard (name : String) : String := "*." ++ name

/-- Every name has a segment, the empty name too. -/
theorem segments_ne_nil (name : String) : segments name ≠ [] := by
  simp [segments, Text.pieces, Text.cut_ne_nil]

/-- A name is put together from its segments. -/
theorem fromSegments_segments (name : String) : fromSegments (segments name) = name := by
  have hmap : String.toList ∘ String.ofList = id := funext fun cs => String.toList_ofList
  rw [← String.toList_inj, fromSegments, segments, Text.pieces, String.toList_intercalate,
    List.map_map, hmap, List.map_id]
  exact Text.intercalate_cut '.' name.toList

end ApiTypings.Dotted
