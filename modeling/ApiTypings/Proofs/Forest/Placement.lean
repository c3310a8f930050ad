/-
# Nodes of one name

A symbol is declared on its way down the segments of its name, unless the settings leave out one of
the segments.  On each level the nodes of a name are found in a single group, since the names of the
other groups do not begin the name.  So the nodes of a live name are those of its own group: one for
every symbol of that name, in the order of the symbols, or an empty namespace.

* `isLive_iff` : nothing is left out on the way down a live name;
* `named_level` : the nodes of a live name on a level;
* `live_of_mem_level` : on a level there are nodes of live names only.
-/
import ApiTypings.Proofs.Forest.Level

namespace ApiTypings

/-! ## Outlines -/

/-- Header and kind of a declaration. -/
def Declaration.outline (d : Declaration) : Header × SymbolKind := (d.header, d.kind)

/-- Header and kind of the declaration that stands for a symbol in a forest. -/
def Symbol.outline (s : Symbol) : Header × SymbolKind :=
  (.ofSymbol s ((Dotted.segments s.name).length - 1), s.kind)

namespace Declaration

variable {settings : Settings}

/-- A body that is made of built methods is of the kind that it is made for. -/
theorem kind_of_methods {x : Except GenerationError (List Method)} {f : List Method → Body}
    {kind : SymbolKind} {body : Body} (hkind : ∀ methods, (f methods).kind = kind)
    (h : (do let methods ← x; return f methods) = .ok body) : body.kind = kind := by
  obtain ⟨methods, -, hpure⟩ := bind_eq_ok.1 h
  rw [← pure_eq_ok.1 hpure]
  exact hkind methods

/-- A body is of the kind of its symbol. -/
theorem kind_of_bodyOf {s : Symbol} {children : List Declaration} {body : Body}
    (h : bodyOf settings s children = .ok body) : body.kind = s.kind := by
  unfold bodyOf at h
  cases hkind : s.kind with
  | namespaceKind =>
    rw [hkind] at h
    exact kind_of_methods (fun _ => rfl) h
  | classKind =>
    rw [hkind] at h
    exact kind_of_methods (fun _ => rfl) h
  | interfaceKind =>
    rw [hkind] at h
    exact kind_of_methods (fun _ => rfl) h
  | enumKind =>
    simp only [hkind, enumBody] at h
    split at h
    · simp at h
    · simp at h
    · rw [← Except.ok.inj h]
      rfl
  | typedefKind =>
    simp only [hkind, typedefBody] at h
    split at h
    · simp at h
    · rw [← Except.ok.inj h]
      rfl

/-- A built declaration has the outline of its symbol and the children it was given. -/
theorem outline_of_build {s : Symbol} {depth : Nat} {children : List Declaration} {d : Declaration}
    (hdepth : (Dotted.segments s.name).length = depth + 1)
    (h : build settings s depth children = .ok d) :
    d.outline = s.outline ∧ d.fullName = s.name ∧ d.children = children := by
  obtain ⟨body, hbody, rfl⟩ := build_eq_ok h
  refine ⟨?_, rfl, rfl⟩
  rw [Symbol.outline, hdepth, ← kind_of_bodyOf hbody]
  rfl

/-- Changing classes leaves the outlines. -/
theorem outline_mapClasses (f : ClassDecl → ClassBody) (d : Declaration) :
    (mapClasses f d).outline = d.outline := by
  rw [outline, outline, header_mapClasses, kind_mapClasses]

end Declaration

namespace Forest

variable {settings : Settings}

/-! ## Names of placed declarations -/

/-- A placed declaration has the name, the outline and the children of its symbol. -/
theorem Placed.cases_symbol {above : List String} {d : Declaration} (h : Placed settings above d) :
    ∃ seg, Dotted.segments d.fullName = above ++ [seg] ∧ d.header.depth = above.length ∧
      ∀ c ∈ d.children, Placed settings (above ++ [seg]) c := by
  cases h with
  | @node _ seg s children _ hname hbuild hchildren =>
    obtain ⟨body, -, rfl⟩ := Declaration.build_eq_ok hbuild
    exact ⟨seg, hname, rfl, hchildren⟩

/-- The nodes of a placed declaration have names that begin with its own. -/
theorem Placed.begins_of_mem_nodes {above : List String} {d : Declaration}
    (h : Placed settings above d) : ∀ n ∈ d.nodes, Dotted.Begins d.fullName n.fullName := by
  induction h with
  | @node above seg s children d hname hbuild hchildren ih =>
    obtain ⟨body, -, rfl⟩ := Declaration.build_eq_ok hbuild
    intro n hn
    rw [Declaration.nodes_eq_cons] at hn
    rcases List.mem_cons.1 hn with rfl | hn
    · exact List.prefix_rfl
    · obtain ⟨c, hc, hcn⟩ := Declaration.mem_nodesAll.1 hn
      obtain ⟨seg', hc', -⟩ := (hchildren c hc).cases_symbol
      refine List.IsPrefix.trans ?_ (ih c hc n hcn)
      rw [hc']
      exact hname ▸ List.prefix_append _ _

/-! ## Nodes of one name -/

/-- The nodes of a forest with a full name, in order. -/
def named (forest : Forest) (name : String) : List Declaration :=
  forest.nodes.filter (·.fullName == name)

theorem named_flatten (groups : List (List Declaration)) (name : String) :
    named groups.flatten name = groups.flatMap (named · name) := by
  rw [named, nodes, Declaration.nodesAll_flatten, List.filter_flatMap]
  rfl

/-- Declarations have no nodes of a name that begins with none of their names. -/
theorem named_eq_nil {ds : List Declaration} {above : List String} {name : String}
    (hplaced : ∀ d ∈ ds, Placed settings above d)
    (hds : ∀ d ∈ ds, ¬ Dotted.Begins d.fullName name) : named ds name = [] := by
  rw [named, List.filter_eq_nil_iff]
  intro n hn heq
  obtain ⟨d, hd, hdn⟩ := Declaration.mem_nodesAll.1 hn
  apply hds d hd
  rw [← beq_iff_eq.1 heq]
  exact (hplaced d hd).begins_of_mem_nodes n hdn

/-- The nodes of one name among declarations of which only the first one has children. -/
theorem named_cons {first : Declaration} {rest : List Declaration}
    (hrest : ∀ d ∈ rest, d.children = []) (name : String) :
    named (first :: rest) name = [first].filter (·.fullName == name) ++
      (named first.children name ++ rest.filter (·.fullName == name)) := by
  show List.filter _ (first.nodes ++ Declaration.nodesAll rest) = _
  rw [Declaration.nodes_eq_cons, Declaration.nodesAll_of_no_children hrest, List.filter_append,
    ← List.singleton_append, List.filter_append, List.append_assoc]
  rfl

/-! ## Live names -/

/-- No segment on the way down `path`, which begins under the segments `above`, is left out. -/
def LiveBelow (settings : Settings) (above path : List String) : Prop :=
  ∀ pre seg, pre ++ [seg] <+: path → isOmitted settings (above ++ pre) seg = false

/-- Nothing is left out on the way down no segments. -/
theorem liveBelow_nil (above : List String) : LiveBelow settings above [] :=
  fun _ _ hlast => by simp at hlast

/-- Nothing is left out on the way down the first segments either. -/
theorem LiveBelow.of_prefix {above path path' : List String} (h : LiveBelow settings above path)
    (hpath : path' <+: path) : LiveBelow settings above path' :=
  fun pre seg hpre => h pre seg (hpre.trans hpath)

theorem liveBelow_cons {above path : List String} {seg : String} :
    LiveBelow settings above (seg :: path) ↔
      isOmitted settings above seg = false ∧ LiveBelow settings (above ++ [seg]) path := by
  constructor
  · intro h
    refine ⟨by simpa using h [] seg (by simp), fun pre last hpre => ?_⟩
    rw [List.append_assoc]
    exact h (seg :: pre) last (List.cons_prefix_cons.2 ⟨rfl, hpre⟩)
  · rintro ⟨hseg, hpath⟩ pre last hpre
    cases pre with
    | nil =>
      obtain ⟨rfl, -⟩ := List.cons_prefix_cons.1 hpre
      simpa using hseg
    | cons first pre =>
      obtain ⟨rfl, hrest⟩ := List.cons_prefix_cons.1 hpre
      rw [← List.singleton_append, ← List.append_assoc]
      exact hpath pre last hrest

end Forest

/-- The settings leave out no dotted prefix of a name, the name itself included. -/
def IsLive (settings : Settings) (name : String) : Prop :=
  ∀ p, Dotted.Begins p name →
    settings.ignored.namespaces.matchesName p (Dotted.basename p) = false

namespace Forest

variable {settings : Settings}

/-- A name is live when nothing is left out on the way down its segments. -/
theorem isLive_iff {name : String} :
    IsLive settings name ↔ LiveBelow settings [] (Dotted.segments name) := by
  constructor
  · intro h pre seg hpre
    have hsegments := Dotted.segments_fromSegments_of_prefix (by simp) hpre
    have hlive := h (Dotted.fromSegments (pre ++ [seg])) (by rwa [Dotted.Begins, hsegments])
    rwa [Dotted.basename_fromSegments hsegments] at hlive
  · intro h p hp
    obtain ⟨pre, seg, hsegments⟩ : ∃ pre seg, Dotted.segments p = pre ++ [seg] :=
      ⟨_, _, (List.dropLast_append_getLast (Dotted.segments_ne_nil p)).symm⟩
    have homit := h pre seg (hsegments ▸ hp)
    have hname := Dotted.fromSegments_segments p
    rw [hsegments] at hname
    rw [List.nil_append, isOmitted, hname] at homit
    rw [Dotted.basename, hsegments]
    simpa using homit

/-! ## Symbols of one name -/

/-- The symbols of a level that have a name, in order. -/
def namedSymbols (name : String) (es : List Entry) : List Symbol :=
  (es.map (·.symbol)).filter (·.name == name)

/-- On a level the symbols of one name are those that have the same segments to go. -/
theorem Located.name_eq_iff {above path : List String} {es : List Entry} (h : Located above es)
    {name : String} (hname : Dotted.segments name = above ++ path) {e : Entry} (he : e ∈ es) :
    e.symbol.name = name ↔ e.path = path := by
  rw [← Dotted.segments_inj, (h e he).2, hname]
  exact List.append_right_inj above

theorem Located.of_cons {above : List String} {e : Entry} {es : List Entry}
    (h : Located above (e :: es)) : Located above es :=
  fun x hx => h x (List.mem_cons_of_mem _ hx)

/-- The symbols that end with a segment are those of the name that ends with it. -/
theorem endingAt_eq_namedSymbols {above : List String} {seg name : String}
    (hname : Dotted.segments name = above ++ [seg]) {es : List Entry} (h : Located above es) :
    endingAt seg es = namedSymbols name es := by
  induction es with
  | nil => rfl
  | cons e es ih =>
    have hiff := h.name_eq_iff hname List.mem_cons_self
    rw [endingAt, namedSymbols, List.filterMap_cons, List.map_cons, List.filter_cons]
    by_cases hpath : e.path = [seg]
    · rw [(Entry.endingAt?_eq_some).2 ⟨hpath, rfl⟩, if_pos (beq_iff_eq.2 (hiff.2 hpath))]
      exact congrArg (e.symbol :: ·) (ih h.of_cons)
    · have hnone : e.endingAt? seg = none :=
        Option.eq_none_iff_forall_ne_some.2 fun s hs => hpath (Entry.endingAt?_eq_some.1 hs).1
      rw [hnone, if_neg fun heq => hpath (hiff.1 (beq_iff_eq.1 heq))]
      exact ih h.of_cons

/-- The symbols of a longer name are all below the next segment of the name. -/
theorem namedSymbols_below {above path : List String} {seg name : String} (hpath : path ≠ [])
    (hname : Dotted.segments name = above ++ seg :: path) {es : List Entry}
    (h : Located above es) : namedSymbols name (below seg es) = namedSymbols name es := by
  induction es with
  | nil => rfl
  | cons e es ih =>
    have hiff := h.name_eq_iff hname List.mem_cons_self
    have hrest := ih h.of_cons
    rw [namedSymbols, namedSymbols] at hrest ⊢
    rw [List.map_cons, List.filter_cons, below, List.filterMap_cons]
    cases hbelow : e.below? seg with
    | none =>
      rw [if_neg]
      · exact hrest
      · intro heq
        have hsome : e.below? seg = some ⟨path, e.symbol⟩ :=
          Entry.below?_eq_some.2 ⟨hiff.1 (beq_iff_eq.1 heq), hpath, rfl⟩
        rw [hsome] at hbelow
        exact Option.some_ne_none _ hbelow
    | some e' =>
      show List.filter _ (e'.symbol :: (below seg es).map _) = _
      rw [List.filter_cons, (Entry.below?_eq_some.1 hbelow).2.2, hrest]

/-! ## The nodes of one name on a level -/

/-- Where all but one of the parts of a list give nothing, that one gives everything. -/
theorem flatMap_eq_of_forall₂ {α β γ : Type} {R : α → β → Prop} {g : β → List γ} {as : List α}
    {bs : List β} (h : List.Forall₂ R as bs) (hnodup : as.Nodup) {a : α} (ha : a ∈ as)
    (hothers : ∀ a' b, a' ≠ a → a' ∈ as → R a' b → g b = []) :
    ∃ b, R a b ∧ bs.flatMap g = g b := by
  induction h with
  | nil => exact absurd ha List.not_mem_nil
  | @cons a' b as bs hab hrest ih =>
    rw [List.nodup_cons] at hnodup
    rw [List.flatMap_cons]
    by_cases hhead : a' = a
    · subst hhead
      refine ⟨b, hab, ?_⟩
      -- `a` does not occur again, so the rest gives nothing
      have hnil : bs.flatMap g = [] := by
        rw [List.flatMap_eq_nil_iff]
        intro b' hb'
        obtain ⟨a'', ha'', hab''⟩ := exists_of_forall₂ hrest hb'
        exact hothers a'' b' (fun heq => hnodup.1 (heq ▸ ha'')) (List.mem_cons_of_mem _ ha'') hab''
      rw [hnil, List.append_nil]
    · have ha' : a ∈ as := (List.mem_cons.1 ha).resolve_left (Ne.symm hhead)
      obtain ⟨b', hab', hflat⟩ := ih hnodup.2 ha' fun x y hne hx =>
        hothers x y hne (List.mem_cons_of_mem _ hx)
      refine ⟨b', hab', ?_⟩
      rw [hothers a' b hhead List.mem_cons_self hab, List.nil_append, hflat]

/-- Some declarations stand for some symbols of a name, one for each, or for the namespace of that
name when there are no such symbols; only the first one has children. -/
def StandFor (name : String) (symbols : List Symbol) (ds : List Declaration) : Prop :=
  ds.map (·.outline) = (declaredSymbols name symbols).map (·.outline) ∧
    ∀ d ∈ ds.tail, d.children = []

/-- What is built from one symbol each has the outlines of the symbols. -/
theorem outlines_of_forall₂ {depth : Nat} {symbols : List Symbol} {ds : List Declaration}
    (hdepth : ∀ s ∈ symbols, (Dotted.segments s.name).length = depth + 1)
    (h : List.Forall₂ (fun s d => Declaration.build settings s depth [] = .ok d) symbols ds) :
    ds.map (·.outline) = symbols.map (·.outline) ∧ ∀ d ∈ ds, d.children = [] := by
  induction h with
  | nil => exact ⟨rfl, fun _ hd => absurd hd List.not_mem_nil⟩
  | cons hbuild _ ih =>
    rw [List.forall_mem_cons] at hdepth
    obtain ⟨houtline, -, hchildren⟩ := Declaration.outline_of_build hdepth.1 hbuild
    obtain ⟨houtlines, hrest⟩ := ih hdepth.2
    exact ⟨by rw [List.map_cons, List.map_cons, houtline, houtlines],
      List.forall_mem_cons.2 ⟨hchildren, hrest⟩⟩

/-- The declarations of a group stand for the symbols of the group, and the first one has all that
is nested in the group. -/
theorem IsGroup.standFor {above : List String} {es : List Entry} (hloc : Located above es)
    {seg : String} (hseg : seg ∈ heads es) (homit : isOmitted settings above seg = false)
    {group : List Declaration} (h : IsGroup settings above es seg group) :
    StandFor (Dotted.fromSegments (above ++ [seg])) (endingAt seg es) group ∧
      ∃ first rest, group = first :: rest ∧
        level settings (above ++ [seg]) (below seg es) = .ok first.children := by
  rw [IsGroup, if_neg (by simp [homit])] at h
  obtain ⟨children, hlevel, hdeclare⟩ := h
  obtain ⟨s, others, first, rest, hsymbols, rfl, hfirst, hrest⟩ := declare_eq_ok hdeclare
  have hdepth : ∀ t ∈ s :: others, (Dotted.segments t.name).length = above.length + 1 := by
    intro t ht
    rw [segments_of_declared hloc hseg (hsymbols ▸ ht), List.length_append, List.length_singleton]
  rw [List.forall_mem_cons] at hdepth
  obtain ⟨houtline, -, hchildren⟩ := Declaration.outline_of_build hdepth.1 hfirst
  obtain ⟨houtlines, hnone⟩ := outlines_of_forall₂ hdepth.2 hrest
  refine ⟨⟨?_, hnone⟩, first, rest, rfl, by rw [hchildren, hlevel]⟩
  rw [hsymbols, List.map_cons, List.map_cons, houtline, houtlines]

/-- The nodes of a name on a level are those in the group of the next segment of the name. -/
theorem named_eq_named_group {name : String} {above path : List String} {seg : String}
    {es : List Entry} (hloc : Located above es)
    (hname : Dotted.segments name = above ++ seg :: path) (hseg : seg ∈ heads es)
    {ds : List Declaration} (h : level settings above es = .ok ds) :
    ∃ group, IsGroup settings above es seg group ∧
      (∀ d ∈ group, Dotted.segments d.fullName = above ++ [seg]) ∧
      named ds name = named group name := by
  obtain ⟨groups, hgroups, rfl⟩ := level_eq_ok h
  have hplaced := fun seg' (hseg' : seg' ∈ heads es) group
      (hgroup : IsGroup settings above es seg' group) =>
    hgroup.placed hloc hseg' fun _ => placed_level (hloc.below seg')
  have hothers : ∀ seg' group, seg' ≠ seg → seg' ∈ heads es →
      IsGroup settings above es seg' group → named group name = [] := by
    intro seg' group hne hseg' hgroup
    have hgroup' := hplaced seg' hseg' group hgroup
    refine named_eq_nil (fun d hd => (hgroup' d hd).1) fun d hd hbegins => hne ?_
    rw [Dotted.Begins, (hgroup' d hd).2, hname, List.prefix_append_right_inj] at hbegins
    exact (List.cons_prefix_cons.1 hbegins).1
  obtain ⟨group, hgroup, hnamed⟩ :=
    flatMap_eq_of_forall₂ hgroups (nodup_heads es) hseg hothers
  exact ⟨group, hgroup, fun d hd => (hplaced seg hseg group hgroup d hd).2,
    (named_flatten groups name).trans hnamed⟩

section

variable {name seg : String} {above path : List String} {first : Declaration}
  {rest : List Declaration}

/-- In the group of its last segment a name has exactly the nodes of the group: what is nested in
them has longer names. -/
theorem named_group_of_end (hname : Dotted.segments name = above ++ [seg])
    (hnames : ∀ d ∈ first :: rest, Dotted.segments d.fullName = above ++ [seg])
    (hrest : ∀ d ∈ rest, d.children = [])
    (hchildren : ∀ c ∈ first.children, Placed settings (above ++ [seg]) c) :
    named (first :: rest) name = first :: rest := by
  have hall : ∀ d ∈ first :: rest, (d.fullName == name) = true := fun d hd =>
    beq_iff_eq.2 (Dotted.segments_inj.1 ((hnames d hd).trans hname.symm))
  have hnested : named first.children name = [] := by
    refine named_eq_nil hchildren fun c hc hbegins => ?_
    obtain ⟨seg', hsegments, -⟩ := (hchildren c hc).cases_symbol
    have hlength := hbegins.length_le
    rw [hsegments, hname, List.length_append] at hlength
    exact absurd hlength (by simp)
  rw [List.forall_mem_cons] at hall
  have hfirst : [first].filter (·.fullName == name) = [first] := List.filter_cons_of_pos hall.1
  rw [named_cons hrest, hfirst, hnested, List.filter_eq_self.2 hall.2]
  rfl

/-- In the group of another one of its segments a name has only nodes that are nested in the first
one of the group. -/
theorem named_group_of_below (hname : Dotted.segments name = above ++ seg :: path)
    (hpath : path ≠ []) (hnames : ∀ d ∈ first :: rest, Dotted.segments d.fullName = above ++ [seg])
    (hrest : ∀ d ∈ rest, d.children = []) :
    named (first :: rest) name = named first.children name := by
  have hnone : ∀ ds, ds ⊆ first :: rest → ds.filter (·.fullName == name) = [] := by
    intro ds hds
    rw [List.filter_eq_nil_iff]
    intro d hd heq
    have hsegments := hnames d (hds hd)
    rw [beq_iff_eq.1 heq, hname, List.append_right_inj, List.cons.injEq] at hsegments
    exact hpath hsegments.2
  rw [named_cons hrest, hnone [first] (by simp), hnone rest (by simp), List.nil_append,
    List.append_nil]

end

/-- The nodes of a live name on a level stand for the symbols of that name. -/
theorem named_level {name : String} {above : List String} {es : List Entry}
    (hloc : Located above es) {path : List String} (hpath : path ≠ [])
    (hname : Dotted.segments name = above ++ path) (hlive : LiveBelow settings above path)
    (hsome : ∃ e ∈ es, path <+: e.path) {ds : List Declaration}
    (h : level settings above es = .ok ds) :
    StandFor name (namedSymbols name es) (named ds name) := by
  induction above, es using level.induct generalizing path ds with
  | case1 above es ih =>
    cases path with
    | nil => exact absurd rfl hpath
    | cons seg path =>
      obtain ⟨homit, hlive⟩ := liveBelow_cons.1 hlive
      obtain ⟨e, he, hpre⟩ := hsome
      have hseg : seg ∈ heads es := mem_heads.2 ⟨e, he, (List.prefix_append [seg] path).trans hpre⟩
      obtain ⟨group, hgroup, hnames, hnamed⟩ := named_eq_named_group hloc hname hseg h
      obtain ⟨hstand, first, rest, rfl, hchildren⟩ := hgroup.standFor hloc hseg homit
      rw [hnamed]
      by_cases hend : path = []
      · -- the group is that of the name
        subst hend
        rw [named_group_of_end hname hnames hstand.2 (placed_level (hloc.below seg) hchildren),
          ← endingAt_eq_namedSymbols hname hloc, ← Dotted.fromSegments_segments name, hname]
        exact hstand
      · -- the name is further down
        rw [named_group_of_below hname hend hnames hstand.2, ← namedSymbols_below hend hname hloc]
        obtain ⟨behind, hbehind⟩ := hpre
        have hbelow : ⟨path ++ behind, e.symbol⟩ ∈ below seg es :=
          mem_below.2 ⟨e, he, hbehind.symm, by simp [hend], rfl⟩
        exact ih seg hseg (hloc.below seg) hend (by rw [hname, List.append_assoc]; rfl) hlive
          ⟨_, hbelow, List.prefix_append path behind⟩ hchildren

/-- The names of the nodes in a group are live, and each of them begins the name of a symbol, if
that holds of what is nested in the group. -/
theorem IsGroup.live {above : List String} {es : List Entry} (hloc : Located above es)
    {seg : String} (hseg : seg ∈ heads es) {group : List Declaration}
    (h : IsGroup settings above es seg group)
    (hbelow : ∀ children, level settings (above ++ [seg]) (below seg es) = .ok children →
      ∀ n ∈ Declaration.nodesAll children, ∃ path,
        Dotted.segments n.fullName = above ++ [seg] ++ path ∧
        LiveBelow settings (above ++ [seg]) path ∧ ∃ e ∈ below seg es, path <+: e.path) :
    ∀ d ∈ group, ∀ n ∈ d.nodes, ∃ path, Dotted.segments n.fullName = above ++ path ∧
      LiveBelow settings above path ∧ ∃ e ∈ es, path <+: e.path := by
  intro d hd n hn
  have hnames := h.placed hloc hseg (fun _ => placed_level (hloc.below seg)) d hd
  cases homit : isOmitted settings above seg with
  | true =>
    rw [IsGroup, if_pos homit] at h
    rw [h] at hd
    exact absurd hd List.not_mem_nil
  | false =>
    obtain ⟨hstand, first, rest, rfl, hchildren⟩ := h.standFor hloc hseg homit
    rw [Declaration.nodes_eq_cons] at hn
    rcases List.mem_cons.1 hn with rfl | hn
    · obtain ⟨e, he, hpre⟩ := mem_heads.1 hseg
      exact ⟨[seg], hnames.2, liveBelow_cons.2 ⟨homit, liveBelow_nil _⟩, e, he, hpre⟩
    · -- only the first declaration of the group has anything nested in it
      rcases List.mem_cons.1 hd with rfl | hd
      · obtain ⟨path, hsegments, hlive, e', he', hpre⟩ := hbelow _ hchildren n hn
        obtain ⟨e, he, hpath, -, -⟩ := mem_below.1 he'
        refine ⟨seg :: path, by rw [hsegments, List.append_assoc]; rfl,
          liveBelow_cons.2 ⟨homit, hlive⟩, e, he, ?_⟩
        rw [hpath]
        exact List.cons_prefix_cons.2 ⟨rfl, hpre⟩
      · rw [hstand.2 d hd] at hn
        exact absurd hn List.not_mem_nil

/-- The names of the nodes on a level are live, and each of them begins the name of a symbol. -/
theorem live_of_mem_level {above : List String} {es : List Entry} (hloc : Located above es)
    {ds : List Declaration} (h : level settings above es = .ok ds) :
    ∀ n ∈ Declaration.nodesAll ds, ∃ path, Dotted.segments n.fullName = above ++ path ∧
      LiveBelow settings above path ∧ ∃ e ∈ es, path <+: e.path := by
  induction above, es using level.induct generalizing ds with
  | case1 above es ih =>
    obtain ⟨groups, hgroups, rfl⟩ := level_eq_ok h
    intro n hn
    obtain ⟨d, hd, hnd⟩ := Declaration.mem_nodesAll.1 hn
    obtain ⟨group, hgroup, hd⟩ := List.mem_flatten.1 hd
    obtain ⟨seg, hseg, hisGroup⟩ := exists_of_forall₂ hgroups hgroup
    exact hisGroup.live hloc hseg (fun _ hlevel => ih seg hseg (hloc.below seg) hlevel) d hd n hnd

end Forest

end ApiTypings
