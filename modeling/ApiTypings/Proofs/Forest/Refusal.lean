/-
# Refused levels

On the way down a level what is refused is refused in one group: a symbol that ends there misplaces
its methods, or the first symbol that ends there is an enum and something is nested in it.  Put
together, a level is refused exactly when that happens at some name that nothing on the way leaves
out.

* `refuses_declare` : which groups are refused;
* `misplacesBelow_iff`, `enumOwnsBelow_iff` : the two reasons, one segment at a time;
* `refuses_level` : which levels are refused.
-/
import ApiTypings.Proofs.Forest.Placement
import ApiTypings.Proofs.Refusal

namespace ApiTypings.Forest

variable {settings : Settings}

/-! ## Groups -/

/-- A group is refused exactly when one of its symbols misplaces its methods, or the first one is an
enum and there are children. -/
theorem refuses_declare (fullName : String) (depth : Nat) (symbols : List Symbol)
    (children : List Declaration) :
    RefusesWhen ((∃ s ∈ symbols, s.MisplacesMethods) ∨
        (∃ s, symbols.head? = some s ∧ s.kind = .enumKind) ∧ children ≠ [])
      (declare settings fullName depth symbols children) := by
  cases symbols with
  | nil =>
    refine ((Declaration.refuses_build settings _ depth children).map ([·])).congr ?_
    simp [Symbol.implicitNamespace, Symbol.MisplacesMethods]
  | cons s others =>
    have hfirst := Declaration.refuses_build settings s depth children
    have hrest : RefusesWhen _ (others.mapM (Declaration.build settings · depth [])) :=
      .mapM fun t _ => Declaration.refuses_build settings t depth []
    refine (hfirst.seq fun first _ => hrest.map (first :: ·)).congr ?_
    rw [List.exists_mem_cons_iff]
    simp only [ne_eq, not_true_eq_false, and_false, or_false, List.head?_cons,
      Option.some.injEq, exists_eq_left']
    exact or_right_comm

/-- The children of a group are those that its settings do not leave out. -/
theorem ne_nil_iff_of_level {above : List String} {es : List Entry} {ds : List Declaration}
    (h : level settings above es = .ok ds) :
    ds ≠ [] ↔ ∃ seg ∈ heads es, isOmitted settings above seg = false := by
  obtain ⟨groups, hgroups, rfl⟩ := level_eq_ok h
  have hgroup : ∀ seg group, IsGroup settings above es seg group →
      (group ≠ [] ↔ isOmitted settings above seg = false) := by
    intro seg group hgroup
    rw [IsGroup] at hgroup
    split at hgroup
    · rename_i homit
      simp [hgroup, homit]
    · rename_i homit
      obtain ⟨_, -, hdeclare⟩ := hgroup
      obtain ⟨_, _, first, rest, -, rfl, -⟩ := declare_eq_ok hdeclare
      simpa using homit
  rw [ne_eq, List.flatten_eq_nil_iff]
  constructor
  · intro hsome
    simp only [not_forall] at hsome
    obtain ⟨group, hmem, hne⟩ := hsome
    obtain ⟨seg, hseg, h⟩ := exists_of_forall₂ hgroups hmem
    exact ⟨seg, hseg, (hgroup seg group h).1 hne⟩
  · rintro ⟨seg, hseg, homit⟩ hnil
    obtain ⟨group, hmem, h⟩ := exists_of_forall₂ hgroups.flip hseg
    exact (hgroup seg group h).2 homit (hnil group hmem)

/-! ## Reasons below a level -/

/-- Some symbol misplaces its methods, and nothing on the way down to it is left out. -/
def MisplacesBelow (settings : Settings) (above : List String) (es : List Entry) : Prop :=
  ∃ e ∈ es, LiveBelow settings above e.path ∧ e.symbol.MisplacesMethods

/-- The first symbol of some name is an enum, and nothing on the way down to a declaration nested in
it is left out. -/
def EnumOwnsBelow (settings : Settings) (above : List String) (es : List Entry) : Prop :=
  ∃ name path, path ≠ [] ∧ Dotted.segments name = above ++ path ∧
    (∃ s, (namedSymbols name es).head? = some s ∧ s.kind = .enumKind) ∧
    ∃ seg, LiveBelow settings above (path ++ [seg]) ∧ ∃ e ∈ es, path ++ [seg] <+: e.path

theorem misplacesBelow_iff {above : List String} {es : List Entry} (hloc : Located above es) :
    MisplacesBelow settings above es ↔ ∃ seg ∈ heads es, isOmitted settings above seg = false ∧
      (MisplacesBelow settings (above ++ [seg]) (below seg es) ∨
        ∃ s ∈ endingAt seg es, s.MisplacesMethods) := by
  constructor
  · rintro ⟨e, he, hlive, hs⟩
    obtain ⟨seg, path, hpath⟩ := List.exists_cons_of_ne_nil (hloc e he).1
    rw [hpath, liveBelow_cons] at hlive
    refine ⟨seg, mem_heads.2 ⟨e, he, by simp [hpath]⟩, hlive.1, ?_⟩
    by_cases hend : path = []
    · exact .inr ⟨e.symbol, mem_endingAt.2 ⟨e, he, by rw [hpath, hend], rfl⟩, hs⟩
    · exact .inl ⟨⟨path, e.symbol⟩, mem_below.2 ⟨e, he, hpath, hend, rfl⟩, hlive.2, hs⟩
  · rintro ⟨seg, -, homit, ⟨e', he', hlive, hs⟩ | ⟨s, hs, hmisplaces⟩⟩
    · obtain ⟨e, he, hpath, -, hsymbol⟩ := mem_below.1 he'
      exact ⟨e, he, hpath ▸ liveBelow_cons.2 ⟨homit, hlive⟩, hsymbol ▸ hs⟩
    · obtain ⟨e, he, hpath, rfl⟩ := mem_endingAt.1 hs
      exact ⟨e, he, hpath ▸ liveBelow_cons.2 ⟨homit, liveBelow_nil _⟩, hmisplaces⟩

theorem enumOwnsBelow_iff {above : List String} {es : List Entry} (hloc : Located above es) :
    EnumOwnsBelow settings above es ↔ ∃ seg ∈ heads es, isOmitted settings above seg = false ∧
      (EnumOwnsBelow settings (above ++ [seg]) (below seg es) ∨
        (∃ s, (endingAt seg es).head? = some s ∧ s.kind = .enumKind) ∧
          ∃ seg' ∈ heads (below seg es), isOmitted settings (above ++ [seg]) seg' = false) := by
  constructor
  · rintro ⟨name, path, hpath, hname, henum, seg', hlive, e, he, hpre⟩
    obtain ⟨seg, path, rfl⟩ := List.exists_cons_of_ne_nil hpath
    obtain ⟨behind, hbehind⟩ := hpre
    obtain ⟨homit, hlive⟩ := liveBelow_cons.1 hlive
    have hbelow : ⟨path ++ [seg'] ++ behind, e.symbol⟩ ∈ below seg es :=
      mem_below.2 ⟨e, he, hbehind.symm, by simp, rfl⟩
    refine ⟨seg, mem_heads.2 ⟨e, he, hbehind ▸ by simp⟩, homit, ?_⟩
    by_cases hend : path = []
    · -- the enum ends with this segment, and has `seg'` below it
      subst hend
      rw [← endingAt_eq_namedSymbols hname hloc] at henum
      exact .inr ⟨henum, seg', mem_heads.2 ⟨_, hbelow, List.prefix_append _ _⟩,
        (liveBelow_cons.1 hlive).1⟩
    · -- the enum is further down, and so are all symbols of its name
      rw [← namedSymbols_below hend hname hloc] at henum
      refine .inl ⟨name, path, hend, by rw [hname, List.append_assoc]; rfl, henum, seg', hlive, ?_⟩
      exact ⟨_, hbelow, List.prefix_append _ _⟩
  · rintro ⟨seg, -, homit, ⟨name, path, hpath, hname, henum, seg', hlive, e', he', hpre⟩ |
      ⟨⟨s, hs, hkind⟩, seg', hseg', homit'⟩⟩
    · obtain ⟨e, he, hbelow, -, -⟩ := mem_below.1 he'
      rw [List.append_assoc] at hname
      rw [namedSymbols_below hpath hname hloc] at henum
      refine ⟨name, seg :: path, by simp, hname, henum, seg', liveBelow_cons.2 ⟨homit, hlive⟩, ?_⟩
      exact ⟨e, he, hbelow ▸ List.cons_prefix_cons.2 ⟨rfl, hpre⟩⟩
    · obtain ⟨e₁, he₁, hend, rfl⟩ := mem_endingAt.1 (List.mem_of_mem_head? hs)
      obtain ⟨e', he', hpre⟩ := mem_heads.1 hseg'
      obtain ⟨e, he, hbelow, -, -⟩ := mem_below.1 he'
      have hname : Dotted.segments e₁.symbol.name = above ++ [seg] := by
        rw [(hloc e₁ he₁).2, hend]
      rw [endingAt_eq_namedSymbols hname hloc] at hs
      refine ⟨_, [seg], by simp, hname, ⟨_, hs, hkind⟩, seg',
        liveBelow_cons.2 ⟨homit, liveBelow_cons.2 ⟨homit', liveBelow_nil _⟩⟩, ?_⟩
      exact ⟨e, he, hbelow ▸ List.cons_prefix_cons.2 ⟨rfl, hpre⟩⟩

/-! ## Levels -/

/-- A group that the settings do not leave out is refused exactly when what is below it is, one of
its symbols misplaces its methods, or the first one is an enum and some segment behind it is not
left out. -/
theorem refuses_group {above : List String} {es : List Entry} {seg : String} {P : Prop}
    (hbelow : RefusesWhen P (level settings (above ++ [seg]) (below seg es))) :
    RefusesWhen (isOmitted settings above seg = false ∧ (P ∨
        (∃ s ∈ endingAt seg es, s.MisplacesMethods) ∨
        (∃ s, (endingAt seg es).head? = some s ∧ s.kind = .enumKind) ∧
          ∃ seg' ∈ heads (below seg es), isOmitted settings (above ++ [seg]) seg' = false))
      (if isOmitted settings above seg then pure []
        else do
          let children ← level settings (above ++ [seg]) (below seg es)
          declare settings (Dotted.fromSegments (above ++ [seg])) above.length (endingAt seg es)
            children) := by
  cases homit : isOmitted settings above seg with
  | true => exact (RefusesWhen.of_ok ⟨[], rfl⟩).congr (by simp)
  | false =>
    have hgroup := hbelow.seq fun children hchildren =>
      (@refuses_declare settings (Dotted.fromSegments (above ++ [seg])) above.length
        (endingAt seg es) children).congr
          (or_congr_right (and_congr_right' (ne_nil_iff_of_level hchildren)))
    exact hgroup.congr (by simp)

/-- A level is refused exactly when somewhere below it a symbol misplaces its methods or an enum
has something nested in it. -/
theorem refuses_level {above : List String} {es : List Entry} (hloc : Located above es) :
    RefusesWhen (MisplacesBelow settings above es ∨ EnumOwnsBelow settings above es)
      (level settings above es) := by
  induction above, es using level.induct with
  | case1 above es ih =>
    rw [level, misplacesBelow_iff hloc, enumOwnsBelow_iff hloc]
    refine ((RefusesWhen.mapM fun seg _ =>
      refuses_group (ih seg.1 seg.2 (hloc.below seg.1))).map List.flatten).congr ?_
    -- a group has both reasons below it, and both of its own; each belongs to one side
    constructor
    · rintro ⟨⟨seg, hseg⟩, -, homit, (h | h) | h | h⟩
      · exact .inl ⟨seg, hseg, homit, .inl h⟩
      · exact .inr ⟨seg, hseg, homit, .inl h⟩
      · exact .inl ⟨seg, hseg, homit, .inr h⟩
      · exact .inr ⟨seg, hseg, homit, .inr h⟩
    · rintro (⟨seg, hseg, homit, h | h⟩ | ⟨seg, hseg, homit, h | h⟩)
      · exact ⟨⟨seg, hseg⟩, List.mem_attach _ _, homit, .inl (.inl h)⟩
      · exact ⟨⟨seg, hseg⟩, List.mem_attach _ _, homit, .inr (.inl h)⟩
      · exact ⟨⟨seg, hseg⟩, List.mem_attach _ _, homit, .inl (.inr h)⟩
      · exact ⟨⟨seg, hseg⟩, List.mem_attach _ _, homit, .inr (.inr h)⟩

end ApiTypings.Forest
