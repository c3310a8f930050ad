/-
# When no forest is built

The forest of some symbols is refused for one of three reasons: a live enum or typedef documents
methods, something live is nested in an enum, or two classes share a live name.  The first two are
found while declarations are built, and so before the third one, which is found by the index of the
classes.  What is ignored hides all of them.

* `refuses_declarations` : when the declarations are refused;
* `count_classNames` : how many classes of one name there are in a forest;
* `ofSymbols_failure` : when there is no forest, and which error is given instead.
-/
import ApiTypings.Proofs.Forest.Places
import ApiTypings.Proofs.Forest.Refusal
import Mathlib.Data.List.Nodup

namespace ApiTypings

namespace Forest

/-! ## Reasons to build no forest -/

section

variable (settings : Settings) (symbols : List Symbol)

/-- A live enum or typedef documents methods. -/
def MisplacesMethods : Prop := ∃ s ∈ symbols, IsLive settings s.name ∧ s.MisplacesMethods

/-- The first symbol of some live name is an enum, and some symbol is called like it and more: the
name with one more segment is live. -/
def EnumOwns : Prop :=
  ∃ name, IsLive settings name ∧
    (∃ s, symbols.find? (·.name == name) = some s ∧ s.kind = .enumKind) ∧
    ∃ t ∈ symbols, Text.beginsWith (name ++ ".") t.name = true ∧
      IsLive settings (Dotted.fromSegments
        ((Dotted.segments t.name).take ((Dotted.segments name).length + 1)))

/-- Two classes have a live name. -/
def DeclaredTwice (name : String) : Prop :=
  IsLive settings name ∧ 1 < symbols.countP fun s => s.name == name && s.kind == .classKind

end

variable {settings : Settings} {symbols : List Symbol}

/-! ## Refused declarations -/

theorem misplacesBelow_root :
    MisplacesBelow settings [] ((sortedByName symbols).map .ofSymbol)
      ↔ MisplacesMethods settings symbols := by
  constructor
  · rintro ⟨e, he, hlive, hmisplaces⟩
    obtain ⟨s, hs, rfl⟩ := List.mem_map.1 he
    exact ⟨s, List.mem_mergeSort.1 hs, isLive_iff.2 hlive, hmisplaces⟩
  · rintro ⟨s, hs, hlive, hmisplaces⟩
    exact ⟨_, List.mem_map_of_mem (List.mem_mergeSort.2 hs), isLive_iff.1 hlive, hmisplaces⟩

/-- The first symbol of a name is the same before and after sorting. -/
theorem head?_namedSymbols_root (name : String) (symbols : List Symbol) :
    (namedSymbols name ((sortedByName symbols).map .ofSymbol)).head?
      = symbols.find? (·.name == name) := by
  rw [namedSymbols_root, filter_sortedByName, List.head?_filter]

/-- One segment behind a name is live when nothing is left out on the way down to it. -/
theorem isLive_take_iff {name other seg : String} {behind : List String}
    (h : Dotted.segments other = Dotted.segments name ++ seg :: behind) :
    IsLive settings (Dotted.fromSegments
        ((Dotted.segments other).take ((Dotted.segments name).length + 1)))
      ↔ LiveBelow settings [] (Dotted.segments name ++ [seg]) := by
  have htake : (Dotted.segments other).take ((Dotted.segments name).length + 1)
      = Dotted.segments name ++ [seg] := by
    rw [h, List.take_length_add_append]
    rfl
  have hprefix : Dotted.segments name ++ [seg] <+: Dotted.segments other := by
    rw [← htake]
    exact List.take_prefix _ _
  rw [htake, isLive_iff, Dotted.segments_fromSegments_of_prefix (by simp) hprefix]

theorem enumOwnsBelow_root :
    EnumOwnsBelow settings [] ((sortedByName symbols).map .ofSymbol)
      ↔ EnumOwns settings symbols := by
  constructor
  · rintro ⟨name, path, -, hname, henum, seg, hlive, e, he, behind, hpath⟩
    obtain ⟨t, ht, rfl⟩ := List.mem_map.1 he
    rw [List.nil_append] at hname
    subst hname
    have hsegments : Dotted.segments t.name = Dotted.segments name ++ seg :: behind := by
      rw [List.append_cons]
      exact hpath.symm
    rw [head?_namedSymbols_root] at henum
    exact ⟨name, isLive_iff.2 (hlive.of_prefix (List.prefix_append _ _)), henum, t,
      List.mem_mergeSort.1 ht, Dotted.beginsWith_dot_iff.2 ⟨seg, behind, hsegments⟩,
      (isLive_take_iff hsegments).2 hlive⟩
  · rintro ⟨name, -, henum, t, ht, hbegins, hlive⟩
    obtain ⟨seg, behind, hsegments⟩ := Dotted.beginsWith_dot_iff.1 hbegins
    rw [← head?_namedSymbols_root] at henum
    refine ⟨name, Dotted.segments name, Dotted.segments_ne_nil name, rfl, henum, seg,
      (isLive_take_iff hsegments).1 hlive, _, List.mem_map_of_mem (List.mem_mergeSort.2 ht),
      behind, ?_⟩
    rw [← List.append_cons]
    exact hsegments.symm

/-- The declarations of some symbols are refused exactly when methods are misplaced or an enum has
something nested in it. -/
theorem refuses_declarations (settings : Settings) (symbols : List Symbol) :
    RefusesWhen (MisplacesMethods settings symbols ∨ EnumOwns settings symbols)
      (declarations settings symbols) :=
  (refuses_level (located_root _)).congr (or_congr misplacesBelow_root enumOwnsBelow_root)

/-! ## Classes of one name -/

/-- The names of the classes of a forest are those of its nodes that are classes. -/
theorem classNames_eq (forest : Forest) :
    forest.classes.map (·.fullName)
      = (forest.nodes.filter (·.kind == .classKind)).map (·.fullName) := by
  rw [classes_eq_filterMap]
  induction forest.nodes with
  | nil => rfl
  | cons d ds ih =>
    rw [List.filterMap_cons, List.filter_cons]
    cases d with
    | node header body children =>
      cases body with
      | ofClass c => exact congrArg (header.fullName :: ·) ih
      | _ => exact ih

/-- A name is that of as many classes as there are classes among its nodes. -/
theorem count_classNames (forest : Forest) (name : String) :
    (forest.classes.map (·.fullName)).count name
      = ((forest.named name).map (·.outline)).countP (·.2 == .classKind) := by
  rw [classNames_eq, List.count, List.countP_map, List.countP_filter, List.countP_map, named,
    List.countP_filter]
  simp only [Function.comp_def, Bool.and_comm, Declaration.outline]

section

variable {forest : Forest}

/-- A live name is that of as many classes as document it. -/
theorem count_classNames_of_isLive (h : Places settings symbols forest) {name : String}
    (hlive : IsLive settings name) :
    (forest.classes.map (·.fullName)).count name
      = symbols.countP fun s => s.name == name && s.kind == .classKind := by
  have hdocumented : (symbols.countP fun s => s.name == name && s.kind == .classKind)
      = (symbols.filter (·.name == name)).countP (·.kind == .classKind) := by
    rw [List.countP_filter]
    simp only [Bool.and_comm]
  rw [count_classNames, hdocumented]
  by_cases hsome : ∃ s ∈ symbols, s.name = name
  · rw [h.declared name hlive hsome, List.countP_map]
    rfl
  · -- no symbol has the name, so it is at most that of an empty namespace
    have hnone : ∀ s ∈ symbols, s.name ≠ name := fun s hs heq => hsome ⟨s, hs, heq⟩
    rw [filter_name_eq_nil hnone, List.countP_nil]
    by_cases hbegins : ∃ s ∈ symbols, Dotted.Begins name s.name
    · rw [h.implied name hlive hnone hbegins]
      rfl
    · rw [h.named_eq_nil hbegins]
      rfl

/-- The names that come up twice among the classes are those of two classes with a live name. -/
theorem one_lt_count_classNames (h : Places settings symbols forest) (name : String) :
    1 < (forest.classes.map (·.fullName)).count name ↔ DeclaredTwice settings symbols name := by
  constructor
  · intro hcount
    have hmem : name ∈ forest.classes.map (·.fullName) :=
      List.count_pos_iff.1 (Nat.lt_of_succ_lt hcount)
    rw [classNames_eq] at hmem
    obtain ⟨d, hd, rfl⟩ := List.mem_map.1 hmem
    have hlive := (h.only d (List.mem_of_mem_filter hd)).1
    exact ⟨hlive, count_classNames_of_isLive h hlive ▸ hcount⟩
  · rintro ⟨hlive, hcount⟩
    rwa [count_classNames_of_isLive h hlive]

end

/-! ## The forest of some symbols -/

/-- What is refused has no forest for want of an owner. -/
theorem ofSymbols_of_refused (h : MisplacesMethods settings symbols ∨ EnumOwns settings symbols) :
    ∃ kind owner role name,
      ofSymbols settings symbols = .error (.cannotOwn kind owner role name) := by
  obtain ⟨kind, owner, role, name, herror⟩ := (refuses_declarations settings symbols).refuses h
  exact ⟨kind, owner, role, name, by rw [ofSymbols, herror]; rfl⟩

/-- What is not refused has a forest, unless two classes have one live name; then the error names
such classes. -/
theorem ofSymbols_of_not_refused
    (h : ¬ (MisplacesMethods settings symbols ∨ EnumOwns settings symbols)) :
    (∃ name, DeclaredTwice settings symbols name ∧
        ofSymbols settings symbols = .error (.duplicateClass name)) ∨
      (∀ name, ¬ DeclaredTwice settings symbols name) ∧
        ∃ forest, ofSymbols settings symbols = .ok forest := by
  obtain ⟨declared, hdeclared⟩ := (refuses_declarations settings symbols).succeeds h
  have hplaces := places_declarations hdeclared
  -- all declarations are built, so only the index may still fail
  rcases ClassIndex.ofForest_cases declared with ⟨hnd, hi⟩ | ⟨name, hcount, herror⟩
  · have honce := List.nodup_iff_count_le_one.1 hnd
    have hnone : ∀ name, ¬ DeclaredTwice settings symbols name := fun name htwice =>
      Nat.not_lt.2 (honce name) ((one_lt_count_classNames hplaces name).2 htwice)
    exact .inr ⟨hnone, _, bind_eq_ok.2 ⟨_, hdeclared, bind_eq_ok.2 ⟨_, hi, rfl⟩⟩⟩
  · refine .inl ⟨name, (one_lt_count_classNames hplaces name).1 hcount, ?_⟩
    rw [ofSymbols, hdeclared]
    show (ClassIndex.ofForest declared >>= _) = _
    rw [herror]
    rfl

/-- **Failures.**  There is no forest exactly when methods are misplaced, something is nested in an
enum, or two classes have one live name.  The first two are errors about an owner, and come before
the third one, which names such classes.  No parameter is ever misused. -/
theorem ofSymbols_failure (settings : Settings) (symbols : List Symbol) :
    ((∃ e, ofSymbols settings symbols = .error e) ↔
        MisplacesMethods settings symbols ∨ EnumOwns settings symbols ∨
          ∃ name, DeclaredTwice settings symbols name) ∧
      ((∃ kind owner role name,
          ofSymbols settings symbols = .error (.cannotOwn kind owner role name)) ↔
        MisplacesMethods settings symbols ∨ EnumOwns settings symbols) ∧
      ((∃ name, DeclaredTwice settings symbols name ∧
          ofSymbols settings symbols = .error (.duplicateClass name)) ↔
        ¬ (MisplacesMethods settings symbols ∨ EnumOwns settings symbols) ∧
          ∃ name, DeclaredTwice settings symbols name) ∧
      ∀ method parameter misuse,
        ofSymbols settings symbols ≠ .error (.parameterMisuse method parameter misuse) := by
  rw [← or_assoc]
  by_cases hrefused : MisplacesMethods settings symbols ∨ EnumOwns settings symbols
  · obtain ⟨kind, owner, role, name, herror⟩ := ofSymbols_of_refused hrefused
    simp [herror, hrefused]
  · rcases ofSymbols_of_not_refused hrefused with ⟨name, htwice, herror⟩ | ⟨hnone, forest, hforest⟩
    · have hsome : ∃ name, DeclaredTwice settings symbols name := ⟨name, htwice⟩
      simp [herror, hrefused, hsome, htwice]
    · simp [hforest, hrefused, hnone]

end Forest

end ApiTypings
