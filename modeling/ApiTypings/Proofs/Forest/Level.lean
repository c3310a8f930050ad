/-
# Levels of the forest

A level groups its entries by the next segment and declares one group after the other.  This file
says what the levels and groups that are declared consist of, and where the declarations of a level
stand: under the segments above the level, each one segment further down than its parent.

* `level_eq_ok`, `level_of_groups` : a level is made of one group for every next segment;
* `declare_eq_ok` : a group is made of one declaration for every symbol that it declares;
* `placed_level` : the places of the declarations of a level.
-/
import ApiTypings.Forest.Build
import ApiTypings.Proofs.Distinct
import ApiTypings.Proofs.Dotted
import ApiTypings.Proofs.Forest.Nodes
import ApiTypings.Proofs.Outcome

namespace ApiTypings

namespace Forest

variable {settings : Settings}

/-! ## Groups -/

/-- The symbols that a group declares: an empty namespace where no symbol has the name. -/
def declaredSymbols (fullName : String) : List Symbol → List Symbol
  | [] => [.implicitNamespace fullName]
  | s :: others => s :: others

/-- The first declaration of a group gets the children, the others none. -/
theorem declare_eq_ok {fullName : String} {depth : Nat} {symbols : List Symbol}
    {children group : List Declaration}
    (h : declare settings fullName depth symbols children = .ok group) :
    ∃ s others first rest, declaredSymbols fullName symbols = s :: others ∧ group = first :: rest ∧
      Declaration.build settings s depth children = .ok first ∧
      List.Forall₂ (fun s d => Declaration.build settings s depth [] = .ok d) others rest := by
  cases symbols with
  | nil =>
    obtain ⟨first, hfirst, hpure⟩ := bind_eq_ok.1 h
    rw [← pure_eq_ok.1 hpure]
    exact ⟨_, [], first, [], rfl, rfl, hfirst, List.Forall₂.nil⟩
  | cons s others =>
    obtain ⟨first, hfirst, hmore⟩ := bind_eq_ok.1 h
    obtain ⟨rest, hrest, hpure⟩ := bind_eq_ok.1 hmore
    rw [← pure_eq_ok.1 hpure]
    exact ⟨s, others, first, rest, rfl, rfl, hfirst, mapM_eq_ok.1 hrest⟩

/-- `group` holds the declarations of the entries of a level whose next segment is `seg`. -/
def IsGroup (settings : Settings) (above : List String) (es : List Entry) (seg : String)
    (group : List Declaration) : Prop :=
  if isOmitted settings above seg then group = []
  else ∃ children, level settings (above ++ [seg]) (below seg es) = .ok children ∧
    declare settings (Dotted.fromSegments (above ++ [seg])) above.length (endingAt seg es) children
      = .ok group

/-- A level is made of one group for every next segment. -/
theorem level_eq_ok {above : List String} {es : List Entry} {ds : List Declaration}
    (h : level settings above es = .ok ds) :
    ∃ groups, List.Forall₂ (IsGroup settings above es) (heads es) groups ∧ ds = groups.flatten := by
  rw [level] at h
  obtain ⟨groups, hgroups, hpure⟩ := bind_eq_ok.1 h
  refine ⟨groups, ?_, (pure_eq_ok.1 hpure).symm⟩
  rw [mapM_eq_ok] at hgroups
  rw [← List.attach_map_subtype_val (heads es), List.forall₂_map_left_iff]
  refine hgroups.imp fun ⟨seg, _⟩ group hgroup => ?_
  show IsGroup settings above es seg group
  unfold IsGroup
  dsimp only at hgroup
  by_cases homit : isOmitted settings above seg = true
  · rw [if_pos homit] at hgroup ⊢
    exact (pure_eq_ok.1 hgroup).symm
  · rw [if_neg homit] at hgroup ⊢
    exact bind_eq_ok.1 hgroup

/-- Groups for the next segments make up a level. -/
theorem level_of_groups {above : List String} {es : List Entry} {groups : List (List Declaration)}
    (h : List.Forall₂ (IsGroup settings above es) (heads es) groups) :
    level settings above es = .ok groups.flatten := by
  rw [level]
  refine bind_eq_ok.2 ⟨groups, mapM_eq_ok.2 ?_, rfl⟩
  rw [← List.attach_map_subtype_val (heads es), List.forall₂_map_left_iff] at h
  refine h.imp fun head group hgroup => ?_
  obtain ⟨seg, _⟩ := head
  unfold IsGroup at hgroup
  dsimp only at hgroup ⊢
  by_cases homit : isOmitted settings above seg = true
  · rw [if_pos homit] at hgroup ⊢
    exact pure_eq_ok.2 hgroup.symm
  · rw [if_neg homit] at hgroup ⊢
    exact bind_eq_ok.2 hgroup

/-! ## Entries of a level -/

/-- The names of the symbols of a level: the segments above the level, and those still to go. -/
def Located (above : List String) (es : List Entry) : Prop :=
  ∀ e ∈ es, e.path ≠ [] ∧ Dotted.segments e.symbol.name = above ++ e.path

/-- An entry below a group has the same symbol and one segment less to go. -/
theorem Entry.below?_eq_some {seg : String} {e e' : Entry} :
    e.below? seg = some e' ↔ e.path = seg :: e'.path ∧ e'.path ≠ [] ∧ e'.symbol = e.symbol := by
  obtain ⟨path, symbol⟩ := e
  obtain ⟨path', symbol'⟩ := e'
  match path with
  | [] => simp [below?]
  | [s] =>
    simp only [below?, reduceCtorEq, List.cons.injEq, false_iff]
    rintro ⟨⟨-, hnil⟩, hne, -⟩
    exact hne hnil.symm
  | s :: t :: rest =>
    by_cases hs : s = seg
    · simp only [below?, hs, if_true, Option.some.injEq, Entry.mk.injEq, List.cons.injEq, true_and]
      constructor
      · rintro ⟨rfl, rfl⟩
        exact ⟨rfl, by simp, rfl⟩
      · rintro ⟨rfl, -, rfl⟩
        exact ⟨rfl, rfl⟩
    · simp [below?, hs]

/-- An entry that ends with a segment has no other segment to go. -/
theorem Entry.endingAt?_eq_some {seg : String} {e : Entry} {s : Symbol} :
    e.endingAt? seg = some s ↔ e.path = [seg] ∧ e.symbol = s := by
  obtain ⟨path, symbol⟩ := e
  match path with
  | [] => simp [endingAt?]
  | [t] => by_cases ht : t = seg <;> simp [endingAt?, ht]
  | _ :: _ :: _ => simp [endingAt?]

theorem mem_below {seg : String} {es : List Entry} {e' : Entry} :
    e' ∈ below seg es ↔
      ∃ e ∈ es, e.path = seg :: e'.path ∧ e'.path ≠ [] ∧ e'.symbol = e.symbol := by
  simp [below, List.mem_filterMap, Entry.below?_eq_some]

theorem mem_endingAt {seg : String} {es : List Entry} {s : Symbol} :
    s ∈ endingAt seg es ↔ ∃ e ∈ es, e.path = [seg] ∧ e.symbol = s := by
  simp [endingAt, List.mem_filterMap, Entry.endingAt?_eq_some]

/-- The next segments of a level are those with which the paths of its entries begin. -/
theorem mem_heads {seg : String} {es : List Entry} :
    seg ∈ heads es ↔ ∃ e ∈ es, [seg] <+: e.path := by
  simp only [heads, List.mem_eraseDups, List.mem_filterMap, Entry.head?]
  refine exists_congr fun e => and_congr_right fun _ => ?_
  cases e.path <;> simp [eq_comm]

theorem nodup_heads (es : List Entry) : (heads es).Nodup :=
  Distinct.nodup_eraseDups _

/-- Below a group the segment of the group is one of the segments above. -/
theorem Located.below {above : List String} {es : List Entry} (h : Located above es)
    (seg : String) : Located (above ++ [seg]) (below seg es) := by
  intro e' he'
  obtain ⟨e, he, hpath, hne, hsymbol⟩ := mem_below.1 he'
  refine ⟨hne, ?_⟩
  rw [hsymbol, (h e he).2, hpath, List.append_assoc]
  rfl

/-- The name of a group has the segments above the level, and that of the group. -/
theorem Located.segments_of_mem_heads {above : List String} {es : List Entry}
    (h : Located above es) {seg : String} (hseg : seg ∈ heads es) :
    Dotted.segments (Dotted.fromSegments (above ++ [seg])) = above ++ [seg] := by
  obtain ⟨e, he, hpre⟩ := mem_heads.1 hseg
  have hbegins : above ++ [seg] <+: Dotted.segments e.symbol.name := by
    rw [(h e he).2]
    exact (List.prefix_append_right_inj above).2 hpre
  exact Dotted.segments_fromSegments_of_prefix (by simp) hbegins

/-- The symbols that a group declares have the name of the group. -/
theorem segments_of_declared {above : List String} {es : List Entry} (h : Located above es)
    {seg : String} (hseg : seg ∈ heads es) {s : Symbol}
    (hs : s ∈ declaredSymbols (Dotted.fromSegments (above ++ [seg])) (endingAt seg es)) :
    Dotted.segments s.name = above ++ [seg] := by
  have hnames : ∀ t ∈ endingAt seg es, Dotted.segments t.name = above ++ [seg] := by
    intro t ht
    obtain ⟨e, he, hpath, rfl⟩ := mem_endingAt.1 ht
    rw [(h e he).2, hpath]
  cases hsymbols : endingAt seg es with
  | nil =>
    rw [hsymbols, declaredSymbols, List.mem_singleton] at hs
    rw [hs]
    exact h.segments_of_mem_heads hseg
  | cons t others =>
    rw [hsymbols, declaredSymbols] at hs
    exact hnames s (hsymbols ▸ hs)

/-! ## Places -/

/-- A declaration stands under the segments `above`: it is built from a symbol with one segment
more, and its children stand under the segments of its name. -/
inductive Placed (settings : Settings) : List String → Declaration → Prop where
  | node {above : List String} {seg : String} {s : Symbol} {children : List Declaration}
      {d : Declaration} (hname : Dotted.segments s.name = above ++ [seg])
      (hbuild : Declaration.build settings s above.length children = .ok d)
      (hchildren : ∀ c ∈ children, Placed settings (above ++ [seg]) c) : Placed settings above d

/-- The declarations of a group stand under the segments above the level, and have the name of the
group. -/
theorem IsGroup.placed {above : List String} {es : List Entry} (hloc : Located above es)
    {seg : String} (hseg : seg ∈ heads es) {group : List Declaration}
    (h : IsGroup settings above es seg group)
    (hbelow : ∀ children, level settings (above ++ [seg]) (below seg es) = .ok children →
      ∀ c ∈ children, Placed settings (above ++ [seg]) c) :
    ∀ d ∈ group, Placed settings above d ∧ Dotted.segments d.fullName = above ++ [seg] := by
  unfold IsGroup at h
  split at h
  · rw [h]
    exact fun _ hd => absurd hd List.not_mem_nil
  · obtain ⟨children, hlevel, hdeclare⟩ := h
    obtain ⟨s, others, first, rest, hsymbols, rfl, hfirst, hrest⟩ := declare_eq_ok hdeclare
    -- whatever is built from a symbol of the group and has placed children is placed
    have hbuilt : ∀ t ∈ s :: others, ∀ cs, (∀ c ∈ cs, Placed settings (above ++ [seg]) c) →
        ∀ d, Declaration.build settings t above.length cs = .ok d →
          Placed settings above d ∧ Dotted.segments d.fullName = above ++ [seg] := by
      intro t ht cs hcs d hd
      have hname := segments_of_declared hloc hseg (hsymbols ▸ ht)
      obtain ⟨body, -, rfl⟩ := Declaration.build_eq_ok hd
      exact ⟨.node hname hd hcs, hname⟩
    intro d hd
    rcases List.mem_cons.1 hd with rfl | hd
    · exact hbuilt s List.mem_cons_self children (hbelow children hlevel) d hfirst
    · obtain ⟨t, ht, hbuild⟩ := exists_of_forall₂ hrest hd
      have hnil : ∀ c ∈ ([] : List Declaration), Placed settings (above ++ [seg]) c :=
        fun _ hc => absurd hc List.not_mem_nil
      exact hbuilt t (List.mem_cons_of_mem _ ht) [] hnil d hbuild

/-- The declarations of a level stand under the segments above it. -/
theorem placed_level {above : List String} {es : List Entry} (hloc : Located above es)
    {ds : List Declaration} (h : level settings above es = .ok ds) :
    ∀ d ∈ ds, Placed settings above d := by
  induction above, es using level.induct generalizing ds with
  | case1 above es ih =>
    obtain ⟨groups, hgroups, rfl⟩ := level_eq_ok h
    intro d hd
    obtain ⟨group, hgroup, hd⟩ := List.mem_flatten.1 hd
    obtain ⟨seg, hseg, hisGroup⟩ := exists_of_forall₂ hgroups hgroup
    exact (hisGroup.placed hloc hseg (fun _ hlevel => ih seg hseg (hloc.below seg) hlevel) d hd).1

end Forest

end ApiTypings
