/-
# Building the forest

A flat list of symbols with dotted names becomes a forest: a symbol is nested in the one whose name
is its own without the last segment.  Where no symbol has that name an empty namespace stands in.
Among several symbols of one name the first one gets the nested declarations.

Names are taken apart once.  A level of the forest groups its entries by the next segment, and the
entries below a group have one segment less to go.

* `weight_below_lt` : the entries below a group have fewer segments to go than the level.
-/
import ApiTypings.Hierarchy.Override

namespace ApiTypings

namespace Forest

/-! ## Entries of a level -/

/-- A symbol and the segments of its name that are still to be placed. -/
structure Entry where
  path : List String
  symbol : Symbol

/-- The entry of a symbol at the root of the forest. -/
def Entry.ofSymbol (s : Symbol) : Entry := ⟨Dotted.segments s.name, s⟩

/-- The next segment of an entry. -/
def Entry.head? (e : Entry) : Option String := e.path.head?

/-- The next segments of a level, each one once, in order of appearance. -/
def heads (es : List Entry) : List String := (es.filterMap Entry.head?).eraseDups

/-- The symbol of an entry that ends with the segment `seg`. -/
def Entry.endingAt? (seg : String) (e : Entry) : Option Symbol :=
  match e.path with
  | [s] => if s = seg then some e.symbol else none
  | _ => none

/-- An entry below the segment `seg`, without that segment. -/
def Entry.below? (seg : String) (e : Entry) : Option Entry :=
  match e.path with
  | s :: t :: rest => if s = seg then some ⟨t :: rest, e.symbol⟩ else none
  | _ => none

/-- The symbols of a level whose names end with the segment `seg`. -/
def endingAt (seg : String) (es : List Entry) : List Symbol := es.filterMap (Entry.endingAt? seg)

/-- The entries of a level below the segment `seg`. -/
def below (seg : String) (es : List Entry) : List Entry := es.filterMap (Entry.below? seg)

/-! ## The segments to go -/

/-- The number of segments that the entries of a level have to go. -/
def weight : List Entry → Nat
  | [] => 0
  | e :: es => e.path.length + weight es

/-- An entry below a group has one segment less to go. -/
theorem length_path_below {seg : String} {e e' : Entry} (h : e.below? seg = some e') :
    e'.path.length + 1 = e.path.length := by
  unfold Entry.below? at h
  split at h
  · rename_i s t rest hp
    split at h
    · obtain rfl := Option.some.inj h
      simp [hp]
    · simp at h
  · simp at h

/-- The entries below a group, when the level has one more entry. -/
theorem weight_below_cons (seg : String) (e : Entry) (es : List Entry) :
    weight (below seg (e :: es))
      = ((e.below? seg).elim 0 fun e' => e'.path.length) + weight (below seg es) := by
  cases h : e.below? seg <;> simp [below, h, weight]

/-- An entry has no more segments to go below a group than on the level. -/
theorem length_below_le (seg : String) (e : Entry) :
    ((e.below? seg).elim 0 fun e' => e'.path.length) ≤ e.path.length := by
  cases h : e.below? seg with
  | none => exact Nat.zero_le _
  | some e' => exact Nat.le_of_lt (Nat.lt_of_succ_le (Nat.le_of_eq (length_path_below h)))

/-- An entry that has a segment to go has fewer of them below a group. -/
theorem length_below_lt (seg : String) {e : Entry} (he : 0 < e.path.length) :
    ((e.below? seg).elim 0 fun e' => e'.path.length) < e.path.length := by
  cases h : e.below? seg with
  | none => exact he
  | some e' => exact Nat.lt_of_succ_le (Nat.le_of_eq (length_path_below h))

/-- The entries below a group have no more segments to go than the level. -/
theorem weight_below_le (seg : String) (es : List Entry) : weight (below seg es) ≤ weight es := by
  induction es with
  | nil => exact Nat.le_refl 0
  | cons e es ih =>
    rw [weight_below_cons, weight]
    exact Nat.add_le_add (length_below_le seg e) ih

/-- The entries below a group have fewer segments to go than the level. -/
theorem weight_below_lt {seg : String} {es : List Entry} (h : seg ∈ heads es) :
    weight (below seg es) < weight es := by
  have h' : ∃ e ∈ es, e.path.head? = some seg := by
    simpa [heads, Entry.head?, List.mem_filterMap] using h
  obtain ⟨e, he, hhead⟩ := h'
  clear h
  induction es with
  | nil => simp at he
  | cons x es ih =>
    rw [weight_below_cons, weight]
    rcases List.mem_cons.1 he with rfl | he
    · have hpos : 0 < e.path.length := by
        cases hp : e.path with
        | nil => simp [hp] at hhead
        | cons a as => simp
      exact Nat.add_lt_add_of_lt_of_le (length_below_lt seg hpos) (weight_below_le seg es)
    · exact Nat.add_lt_add_of_le_of_lt (length_below_le seg x) (ih he)

/-! ## Levels -/

/-- The declarations of one full name: the first symbol gets the nested declarations, the others
none, and an empty namespace stands in where there is no symbol. -/
def declare (settings : Settings) (fullName : String) (depth : Nat) (symbols : List Symbol)
    (children : List Declaration) : Except GenerationError (List Declaration) :=
  match symbols with
  | [] => do return [← Declaration.build settings (.implicitNamespace fullName) depth children]
  | s :: others => do
    let first ← Declaration.build settings s depth children
    let rest ← others.mapM (Declaration.build settings · depth [])
    return first :: rest

/-- Whether the settings leave out the namespace of the segments `above` and `seg`. -/
def isOmitted (settings : Settings) (above : List String) (seg : String) : Bool :=
  settings.ignored.namespaces.matchesName (Dotted.fromSegments (above ++ [seg])) seg

/-- The declarations of the entries under the segments `above`. -/
def level (settings : Settings) (above : List String) (es : List Entry) :
    Except GenerationError (List Declaration) := do
  let groups ← (heads es).attach.mapM fun ⟨seg, _⟩ =>
    if isOmitted settings above seg then pure []
    else do
      let children ← level settings (above ++ [seg]) (below seg es)
      declare settings (Dotted.fromSegments (above ++ [seg])) above.length (endingAt seg es)
        children
  return groups.flatten
termination_by weight es
decreasing_by exact weight_below_lt (by assumption)

/-! ## The whole forest -/

/-- Symbols in the order of their names; symbols of one name keep their order. -/
def sortedByName (symbols : List Symbol) : List Symbol :=
  symbols.mergeSort (fun a b => decide (a.name ≤ b.name))

/-- The declarations of symbols, overrides not yet brought in line. -/
def declarations (settings : Settings) (symbols : List Symbol) : Except GenerationError Forest :=
  level settings [] ((sortedByName symbols).map .ofSymbol)

/-- The forest of symbols, all overrides brought in line. -/
def ofSymbols (settings : Settings) (symbols : List Symbol) : Except GenerationError Forest := do
  let forest ← declarations settings symbols
  let index ← ClassIndex.ofForest forest
  return forest.reconcileOverrides index

end Forest

end ApiTypings
