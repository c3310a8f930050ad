/-
# Implied namespaces

Where no symbol has a prefix of other names, an empty namespace stands in for it.  To document that
namespace adds nothing to the forest and takes nothing away, but the namespace may move: it moves
ahead of its siblings with names between its own name and that name with a dot, as `x` does with
`x$`.

* `level_insert` : a level with one more namespace;
* `MovedAhead.classes_perm` : a move leaves the classes;
* `ofSymbols_implied` : a forest with one more namespace.
-/
import ApiTypings.Proofs.Forest.Insertion
import ApiTypings.Proofs.Hierarchy.ClassOrder

namespace ApiTypings

/-! ## Children of a built declaration -/

namespace Declaration

variable {settings : Settings}

/-- A body depends on the children only in that an enum may have none. -/
theorem bodyOf_congr {s : Symbol} {children children' : List Declaration} {body : Body}
    (hnil : children' = [] ↔ children = []) (h : bodyOf settings s children = .ok body) :
    bodyOf settings s children' = .ok body := by
  unfold bodyOf at h ⊢
  cases hkind : s.kind with
  | enumKind =>
    simp only [hkind, enumBody] at h ⊢
    cases hmethods : s.methods with
    | cons m ms => simp [hmethods] at h
    | nil =>
      cases children with
      | cons c cs => simp [hmethods] at h
      | nil =>
        rw [hnil.2 rfl]
        simpa [hmethods] using h
  | _ => simpa only [hkind] using h

end Declaration

namespace Forest

variable {settings : Settings}

/-- A group with other children differs from the group in the children of its first declaration
only. -/
theorem declare_congr {fullName : String} {depth : Nat} {symbols : List Symbol}
    {children children' group : List Declaration} (hnil : children' = [] ↔ children = [])
    (h : declare settings fullName depth symbols children = .ok group) :
    ∃ header body rest, group = .node header body children :: rest ∧
      declare settings fullName depth symbols children'
        = .ok (.node header body children' :: rest) := by
  obtain ⟨s, others, first, rest, hsymbols, rfl, hfirst, hrest⟩ := declare_eq_ok h
  obtain ⟨body, hbody, rfl⟩ := Declaration.build_eq_ok hfirst
  have hfirst' : Declaration.build settings s depth children'
      = .ok (.node (.ofSymbol s depth) body children') :=
    bind_eq_ok.2 ⟨body, Declaration.bodyOf_congr hnil hbody, rfl⟩
  refine ⟨_, body, rest, rfl, ?_⟩
  cases symbols with
  | nil =>
    obtain ⟨rfl, rfl⟩ := List.cons.inj hsymbols
    obtain rfl := List.forall₂_nil_left_iff.1 hrest
    exact bind_eq_ok.2 ⟨_, hfirst', rfl⟩
  | cons t symbols =>
    obtain ⟨rfl, rfl⟩ := List.cons.inj hsymbols
    exact bind_eq_ok.2 ⟨_, hfirst', bind_eq_ok.2 ⟨rest, mapM_eq_ok.2 hrest, rfl⟩⟩

/-- To document an empty namespace declares what is declared without it. -/
theorem declare_implied (fullName : String) (depth : Nat) (children : List Declaration) :
    declare settings fullName depth [.implicitNamespace fullName] children
      = declare settings fullName depth [] children := by
  simp [declare]

/-! ## Moving a declaration -/

/-- The declaration of the name `p` is moved ahead of the siblings `passed`, which have names
between `p` and `p` with a dot, but not ahead of the siblings in front of them, which have smaller
names. -/
inductive MovedAhead (p : String) (passed : List Declaration) :
    List Declaration → List Declaration → Prop where
  | here {front behind : List Declaration} {node : Declaration} (hnode : node.fullName = p)
      (hfront : ∀ d ∈ front, d.fullName < p)
      (hpassed : ∀ d ∈ passed, p < d.fullName ∧ d.fullName < p ++ ".") :
      MovedAhead p passed (front ++ (passed ++ node :: behind))
        (front ++ node :: (passed ++ behind))
  | nested {front behind children children' : List Declaration} {header : Header} {body : Body}
      (h : MovedAhead p passed children children') :
      MovedAhead p passed (front ++ .node header body children :: behind)
        (front ++ .node header body children' :: behind)

namespace MovedAhead

variable {p : String} {passed ds ds' : List Declaration}

theorem eq_nil_iff (h : MovedAhead p passed ds ds') : ds' = [] ↔ ds = [] := by
  cases h <;> simp

/-- What is passed is nested in the declarations. -/
theorem passed_subset (h : MovedAhead p passed ds ds') : passed ⊆ Declaration.nodesAll ds := by
  induction h with
  | here =>
    intro d hd
    refine Declaration.mem_nodesAll.2 ⟨d, by simp [hd], ?_⟩
    rw [Declaration.nodes_eq_cons]
    exact List.mem_cons_self
  | nested _ ih =>
    intro d hd
    refine Declaration.mem_nodesAll.2 ⟨_, List.mem_append_right _ List.mem_cons_self, ?_⟩
    exact List.mem_cons_of_mem _ (ih hd)

/-- The names of what is passed. -/
theorem between_of_mem (h : MovedAhead p passed ds ds') :
    ∀ d ∈ passed, p < d.fullName ∧ d.fullName < p ++ "." := by
  induction h with
  | here _ _ hpassed => exact hpassed
  | nested _ ih => exact ih

/-- Nothing changes exactly when nothing is passed. -/
theorem eq_iff (h : MovedAhead p passed ds ds') : ds' = ds ↔ passed = [] := by
  induction h with
  | @here front behind node hnode _ hpassed =>
    rw [List.append_right_inj]
    cases passed with
    | nil => simp
    | cons d passed =>
      simp only [List.cons_append, List.cons.injEq, reduceCtorEq, iff_false]
      rintro ⟨rfl, -⟩
      exact String.lt_irrefl p (hnode ▸ (hpassed node List.mem_cons_self).1)
  | nested _ ih => simpa using ih

/-- A move leaves the classes, in another order. -/
theorem classes_perm (h : MovedAhead p passed ds ds') :
    (Declaration.classesAll ds').Perm (Declaration.classesAll ds) := by
  induction h with
  | @here front behind node _ _ _ =>
    have hperm : (node.classes ++ Declaration.classesAll passed).Perm
        (Declaration.classesAll passed ++ node.classes) := List.perm_append_comm
    simp only [Declaration.classesAll_append, Declaration.classesAll]
    refine List.Perm.append_left _ ?_
    rw [← List.append_assoc, ← List.append_assoc]
    exact hperm.append_right _
  | nested _ ih =>
    simp only [Declaration.classesAll_append, Declaration.classesAll, Declaration.classes]
    exact ((ih.append_left _).append_right _).append_left _

/-- Changing classes keeps a move. -/
theorem mapClasses (h : MovedAhead p passed ds ds') (f : ClassDecl → ClassBody) :
    MovedAhead p (passed.map (Declaration.mapClasses f)) (ds.map (Declaration.mapClasses f))
      (ds'.map (Declaration.mapClasses f)) := by
  induction h with
  | here hnode hfront hpassed =>
    simp only [List.map_append, List.map_cons]
    refine .here (by rw [Declaration.fullName_mapClasses, hnode]) ?_ ?_
    · simpa using hfront
    · simpa using hpassed
  | nested _ ih =>
    simp only [List.map_append, List.map_cons, Declaration.mapClasses,
      Declaration.mapClassesAll_eq_map]
    exact .nested ih

end MovedAhead

/-! ## A level with one more namespace -/

/-- What holds of the names with certain next segments holds of the names in their groups. -/
theorem forall_fullName_of_groups {above : List String} {es : List Entry} (hloc : Located above es)
    {P : String → Prop} {segs : List String} {groups : List (List Declaration)}
    (hsegs : segs ⊆ heads es)
    (hP : ∀ seg ∈ segs, ∀ q, Dotted.segments q = above ++ [seg] → P q)
    (h : List.Forall₂ (IsGroup settings above es) segs groups) :
    ∀ d ∈ groups.flatten, P d.fullName := by
  intro d hd
  obtain ⟨group, hgroup, hd⟩ := List.mem_flatten.1 hd
  obtain ⟨seg, hseg, hisGroup⟩ := exists_of_forall₂ h hgroup
  have hplaced := hisGroup.placed hloc (hsegs hseg) (fun _ => placed_level (hloc.below seg)) d hd
  exact hP seg hseg _ hplaced.2

/-- Levels with the same groups but one differ in that group only. -/
theorem level_with_group {above : List String} {seg : String} {es es' : List Entry}
    {ds : List Declaration} (hheads : heads es' = heads es) (hseg : seg ∈ heads es)
    (hothers : ∀ other, other ≠ seg → ∀ group,
      IsGroup settings above es' other group ↔ IsGroup settings above es other group)
    (hlevel : level settings above es = .ok ds) :
    ∃ front group behind, IsGroup settings above es seg group ∧ ds = front ++ (group ++ behind) ∧
      ∀ group', IsGroup settings above es' seg group' →
        level settings above es' = .ok (front ++ (group' ++ behind)) := by
  obtain ⟨groups, hgroups, rfl⟩ := level_eq_ok hlevel
  obtain ⟨before, behind, hsplit⟩ := List.append_of_mem hseg
  have hnodup := nodup_heads es
  rw [hsplit, List.nodup_middle, List.nodup_cons, List.mem_append, not_or] at hnodup
  rw [hsplit] at hgroups
  obtain ⟨gfront, gothers, hfront, hrest, rfl⟩ := exists_append_of_forall₂ hgroups
  cases hrest with
  | @cons _ group _ gbehind hown hbehind =>
  refine ⟨gfront.flatten, group, gbehind.flatten, hown, by simp, fun group' hgroup' => ?_⟩
  have hkeep : ∀ segs gs, seg ∉ segs → List.Forall₂ (IsGroup settings above es) segs gs →
      List.Forall₂ (IsGroup settings above es') segs gs := by
    intro segs gs hnot hgs
    have hne : ∀ other ∈ segs, other ≠ seg := fun other hother heq => hnot (heq ▸ hother)
    exact ((List.forall₂_and_left segs gs).2 ⟨hne, hgs⟩).imp fun other group hboth =>
      (hothers other hboth.1 group).2 hboth.2
  have hlevel' : level settings above es' = .ok (gfront ++ group' :: gbehind).flatten := by
    refine level_of_groups ?_
    rw [hheads, hsplit]
    exact List.rel_append (hkeep _ _ hnodup.1.1 hfront)
      (.cons hgroup' (hkeep _ _ hnodup.1.2 hbehind))
  simpa using hlevel'

section

variable {above path : List String} {seg p : String} {before behind : List Entry}
  {ds : List Declaration}

/-- The groups of a level are the same: an empty namespace stood in for the one that is added. -/
theorem isGroup_insert_end (h : Between above ⟨[seg], .implicitNamespace p⟩ before behind)
    (other : String) (group : List Declaration) :
    IsGroup settings above (before ++ ⟨[seg], .implicitNamespace p⟩ :: behind) other group ↔
      IsGroup settings above (before ++ behind) other group := by
  by_cases hother : other = seg
  · subst hother
    have hname : Dotted.fromSegments (above ++ [other]) = p := by
      rw [← Dotted.fromSegments_segments p]
      exact congrArg _ h.segments_eq.symm
    have hnil := h.endingAt_eq_nil rfl
    have hend : endingAt other (before ++ ⟨[other], .implicitNamespace p⟩ :: behind)
        = [.implicitNamespace p] := by
      rw [endingAt_append, List.append_eq_nil_iff] at hnil
      rw [endingAt_append, hnil.1, endingAt,
        List.filterMap_cons_some (Entry.endingAt?_eq_some.2 ⟨rfl, rfl⟩), ← endingAt, hnil.2]
      rfl
    have hbelow : below other (before ++ ⟨[other], .implicitNamespace p⟩ :: behind)
        = below other (before ++ behind) := below_insert_of_none rfl
    rw [IsGroup, IsGroup, hbelow, hend, hnil, hname]
    simp only [declare_implied]
  · exact isGroup_insert_of_ne rfl hother group

/-- The group of an implied namespace is that namespace. -/
theorem isGroup_implied (h : Between above ⟨[seg], .implicitNamespace p⟩ before behind)
    (hseg : seg ∈ heads (before ++ behind)) (homit : isOmitted settings above seg = false)
    {group : List Declaration} (hgroup : IsGroup settings above (before ++ behind) seg group) :
    ∃ node, group = [node] ∧ node.fullName = p := by
  obtain ⟨⟨houtlines, -⟩, first, rest, rfl, -⟩ := hgroup.standFor h.located_others hseg homit
  have hlength := congrArg List.length houtlines
  rw [h.endingAt_eq_nil rfl, declaredSymbols, List.length_map, List.length_map, List.length_cons,
    List.length_singleton, Nat.succ_inj, List.length_eq_zero_iff] at hlength
  have hplaced := hgroup.placed h.located_others hseg
    (fun _ => placed_level (h.located_others.below seg)) first List.mem_cons_self
  exact ⟨first, by rw [hlength], Dotted.segments_inj.1 (hplaced.2.trans h.segments_eq.symm)⟩

/-- On its own level the namespace moves ahead of some siblings, unless it is left out. -/
theorem level_insert_end (h : Between above ⟨[seg], .implicitNamespace p⟩ before behind)
    (hlevel : level settings above (before ++ behind) = .ok ds) :
    ∃ ds', level settings above (before ++ ⟨[seg], .implicitNamespace p⟩ :: behind) = .ok ds' ∧
      (isOmitted settings above seg = true → ds' = ds) ∧
      (isOmitted settings above seg = false → ∃ passed, MovedAhead p passed ds ds') := by
  obtain ⟨groups, hgroups, rfl⟩ := level_eq_ok hlevel
  obtain ⟨passed, rest, hheads, hheads'⟩ := h.heads_of_end rfl
  rw [hheads] at hgroups
  obtain ⟨gfront, gothers, hfront, hothers, rfl⟩ := exists_append_of_forall₂ hgroups
  obtain ⟨gpassed, gmore, hpassed, hmore, rfl⟩ := exists_append_of_forall₂ hothers
  cases hmore with
  | @cons _ group _ gbehind hown hbehind =>
  refine ⟨(gfront ++ group :: (gpassed ++ gbehind)).flatten, ?_, fun homit => ?_, fun homit => ?_⟩
  · refine level_of_groups ?_
    rw [hheads']
    refine (List.rel_append hfront (.cons hown (List.rel_append hpassed hbehind))).imp ?_
    exact fun other group => (isGroup_insert_end h other group).2
  · rw [IsGroup, if_pos homit] at hown
    simp [hown]
  · have hseg : seg ∈ heads (before ++ behind) := by simp [hheads]
    obtain ⟨node, rfl, hnode⟩ := isGroup_implied h hseg homit hown
    refine ⟨gpassed.flatten, ?_⟩
    have hsmaller : ∀ d ∈ gfront.flatten, d.fullName < p :=
      forall_fullName_of_groups h.located_others (by simp [hheads])
        (fun _ hother _ hq => h.lt_of_mem_heads hother hq) hfront
    have hbetween : ∀ d ∈ gpassed.flatten, p < d.fullName ∧ d.fullName < p ++ "." :=
      forall_fullName_of_groups (P := fun q => p < q ∧ q < p ++ ".") h.located_others
        (fun _ hother => by simp [hheads, hother])
        (fun _ hother _ hq => h.between_of_mem_passed rfl hheads hother hq) hpassed
    have hmoved : MovedAhead p gpassed.flatten
        (gfront.flatten ++ (gpassed.flatten ++ node :: gbehind.flatten))
        (gfront.flatten ++ node :: (gpassed.flatten ++ gbehind.flatten)) :=
      .here hnode hsmaller hbetween
    simpa using hmoved

/-- A group that the path of an entry goes on below is changed below its first declaration. -/
theorem isGroup_insert_below (hpath : path ≠ []) (homit : isOmitted settings above seg = false)
    {children children' group : List Declaration} (hnil : children' = [] ↔ children = [])
    (hchildren : level settings (above ++ [seg]) (below seg (before ++ behind)) = .ok children)
    (hchildren' : level settings (above ++ [seg])
      (below seg (before ++ ⟨seg :: path, .implicitNamespace p⟩ :: behind)) = .ok children')
    (hgroup : IsGroup settings above (before ++ behind) seg group) :
    ∃ header body rest, group = .node header body children :: rest ∧
      IsGroup settings above (before ++ ⟨seg :: path, .implicitNamespace p⟩ :: behind) seg
        (.node header body children' :: rest) := by
  rw [IsGroup, if_neg (by simp [homit])] at hgroup
  obtain ⟨cs, hcs, hdeclare⟩ := hgroup
  obtain rfl := Except.ok.inj (hchildren.symm.trans hcs)
  obtain ⟨header, body, rest, rfl, hdeclare'⟩ := declare_congr hnil hdeclare
  refine ⟨header, body, rest, rfl, ?_⟩
  rw [IsGroup, if_neg (by simp [homit]), endingAt_insert_of_none (endingAt?_of_below rfl hpath seg)]
  exact ⟨children', hchildren', hdeclare'⟩

/-- **One more namespace on a level.**  What an empty namespace stood in for may be added: the
namespace moves ahead of some siblings, unless something on the way down to it is left out. -/
theorem level_insert (hpath : path ≠ [])
    (h : Between above ⟨path, .implicitNamespace p⟩ before behind)
    (hlevel : level settings above (before ++ behind) = .ok ds) :
    ∃ ds', level settings above (before ++ ⟨path, .implicitNamespace p⟩ :: behind) = .ok ds' ∧
      (¬ LiveBelow settings above path → ds' = ds) ∧
      (LiveBelow settings above path → ∃ passed, MovedAhead p passed ds ds') := by
  induction path generalizing above before behind ds with
  | nil => exact absurd rfl hpath
  | cons seg path ih =>
    rw [liveBelow_cons]
    by_cases hend : path = []
    · subst hend
      obtain ⟨ds', hlevel', homitted, hmoved⟩ := level_insert_end h hlevel
      refine ⟨ds', hlevel', fun hnot => homitted ?_, fun hlive => hmoved hlive.1⟩
      simpa [liveBelow_nil] using hnot
    · -- further up only the group of `seg` sees the namespace, below its first declaration
      have hseg : seg ∈ heads (before ++ behind) := by
        obtain ⟨t, ht, hpre⟩ := h.nested
        exact mem_heads.2
          ⟨t, List.mem_append_right _ ht, (List.prefix_append [seg] path).trans hpre⟩
      obtain ⟨front, group, rest, hgroup, rfl, hreplace⟩ := level_with_group
        (h.heads_of_below rfl hend) hseg (fun _ => isGroup_insert_of_ne rfl) hlevel
      cases homit : isOmitted settings above seg with
      | true =>
        rw [IsGroup, if_pos homit] at hgroup
        subst hgroup
        exact ⟨_, hreplace [] (by rw [IsGroup, if_pos homit]), fun _ => rfl,
          fun hlive => absurd hlive.1 (by simp)⟩
      | false =>
        obtain ⟨children, hchildren, -⟩ : ∃ children,
            level settings (above ++ [seg]) (below seg (before ++ behind)) = .ok children ∧ _ := by
          simpa only [IsGroup, homit, Bool.false_eq_true, if_false] using hgroup
        have hlevel' := hchildren
        rw [below_append] at hlevel'
        obtain ⟨children', hchildren', hsame, hmoved⟩ := ih hend (h.below rfl hend) hlevel'
        rw [← below_insert (e := ⟨seg :: path, .implicitNamespace p⟩) rfl hend] at hchildren'
        have hnil : children' = [] ↔ children = [] := by
          by_cases hlive : LiveBelow settings (above ++ [seg]) path
          · obtain ⟨passed, hpassed⟩ := hmoved hlive
            exact hpassed.eq_nil_iff
          · rw [hsame hlive]
        obtain ⟨header, body, others, rfl, hgroup'⟩ :=
          isGroup_insert_below hend homit hnil hchildren hchildren' hgroup
        refine ⟨_, hreplace _ hgroup', fun hnot => ?_, fun hlive => ?_⟩
        · rw [hsame fun hlive => hnot ⟨rfl, hlive⟩]
        · obtain ⟨passed, hpassed⟩ := hmoved hlive.2
          exact ⟨passed, .nested hpassed⟩

end

/-! ## A forest with one more namespace -/

section

variable {xs ys : List Symbol} {p : String} {declared forest : Forest}

/-- Among the sorted symbols an undocumented prefix has its place. -/
theorem between_root (hsome : ∃ t ∈ xs ++ ys, Dotted.Begins p t.name)
    (hnone : ∀ t ∈ xs ++ ys, t.name ≠ p) :
    ∃ before behind, Between [] ⟨Dotted.segments p, .implicitNamespace p⟩ before behind ∧
      (sortedByName (xs ++ ys)).map Entry.ofSymbol = before ++ behind ∧
      (sortedByName (xs ++ .implicitNamespace p :: ys)).map Entry.ofSymbol
        = before ++ ⟨Dotted.segments p, .implicitNamespace p⟩ :: behind := by
  obtain ⟨before, behind, hinsert, hothers, hsmaller, hlarger⟩ :=
    sortedByName_insert (s := .implicitNamespace p) hnone
  have hall : (sortedByName (xs ++ .implicitNamespace p :: ys)).map Entry.ofSymbol
      = before.map Entry.ofSymbol
        ++ ⟨Dotted.segments p, .implicitNamespace p⟩ :: behind.map Entry.ofSymbol := by
    rw [hinsert, List.map_append]
    rfl
  refine ⟨before.map .ofSymbol, behind.map .ofSymbol, ?_, by rw [hothers, List.map_append], hall⟩
  refine ⟨hall ▸ located_root _, List.forall_mem_map.2 hsmaller, List.forall_mem_map.2 hlarger,
    ?_, ?_⟩
  · rw [← List.map_append, ← hothers]
    exact List.pairwise_map.2 (pairwise_sortedByName _)
  · obtain ⟨t, ht, hbegins⟩ := hsome
    -- a name that begins with `p` is not smaller
    have hmem : t ∈ before ++ behind := hothers ▸ List.mem_mergeSort.2 ht
    refine ⟨.ofSymbol t, List.mem_map_of_mem ((List.mem_append.1 hmem).resolve_left fun hin => ?_),
      hbegins⟩
    exact String.not_le.2 (hsmaller t hin) (Dotted.le_of_begins hbegins)

theorem declarations_implied (h : declarations settings (xs ++ ys) = .ok declared)
    (hsome : ∃ t ∈ xs ++ ys, Dotted.Begins p t.name) (hnone : ∀ t ∈ xs ++ ys, t.name ≠ p) :
    ∃ declared', declarations settings (xs ++ .implicitNamespace p :: ys) = .ok declared' ∧
      (¬ IsLive settings p → declared' = declared) ∧
      (IsLive settings p → ∃ passed, MovedAhead p passed declared declared') := by
  obtain ⟨before, behind, hbetween, hothers, hall⟩ := between_root hsome hnone
  rw [declarations, hothers] at h
  rw [declarations, hall, isLive_iff]
  exact level_insert (Dotted.segments_ne_nil p) hbetween h

/-- Nothing is passed where no symbol has a name between `p` and `p` with a dot. -/
theorem MovedAhead.eq_nil_of_no_name {ds' passed : List Declaration}
    (hplaces : Places settings (xs ++ ys) forest) (h : MovedAhead p passed forest ds')
    (hfree : ∀ t ∈ xs ++ ys, ¬ (p < t.name ∧ t.name < p ++ ".")) : passed = [] := by
  rw [List.eq_nil_iff_forall_not_mem]
  intro d hd
  obtain ⟨hlt, hlt'⟩ := h.between_of_mem d hd
  obtain ⟨t, ht, hbegins⟩ := (hplaces.only d (h.passed_subset hd)).2
  exact hfree t ht (Dotted.between_of_between hbegins hlt hlt')

/-- **Implied namespaces.**  Let a proper prefix of some name be the name of no symbol.  To document
it as an empty namespace changes the forest in one way only: its node, which is there already unless
the settings leave it out, moves ahead of the siblings with names between its name and that name
with a dot.  Where there are none the forest stays as it is. -/
theorem ofSymbols_implied (h : ofSymbols settings (xs ++ ys) = .ok forest)
    (hsome : ∃ t ∈ xs ++ ys, Dotted.Begins p t.name) (hnone : ∀ t ∈ xs ++ ys, t.name ≠ p) :
    ∃ forest', ofSymbols settings (xs ++ .implicitNamespace p :: ys) = .ok forest' ∧
      (¬ IsLive settings p → forest' = forest) ∧
      (IsLive settings p →
        ∃ passed, MovedAhead p passed forest forest' ∧ (forest' = forest ↔ passed = [])) ∧
      ((∀ t ∈ xs ++ ys, ¬ (p < t.name ∧ t.name < p ++ ".")) → forest' = forest) := by
  obtain ⟨declared, i, hdeclared, hi, rfl⟩ := ofSymbols_eq_ok h
  obtain ⟨declared', hdeclared', homitted, hmoved⟩ :=
    declarations_implied hdeclared hsome hnone
  have hperm : declared'.classes.Perm declared.classes := by
    by_cases hlive : IsLive settings p
    · obtain ⟨passed, hpassed⟩ := hmoved hlive
      exact hpassed.classes_perm
    · rw [homitted hlive]
  -- the classes are the same, so both forests are changed by the same change
  obtain ⟨j, f, hj, hf, hf'⟩ := reconcileOverrides_of_perm hi hperm
  have hmoved' : IsLive settings p → ∃ passed, MovedAhead p passed
      (declared.reconcileOverrides i) (declared'.reconcileOverrides j) := by
    intro hlive
    obtain ⟨passed, hpassed⟩ := hmoved hlive
    rw [hf, hf', mapClasses, mapClasses, Declaration.mapClassesAll_eq_map,
      Declaration.mapClassesAll_eq_map]
    exact ⟨_, hpassed.mapClasses f⟩
  have homitted' : ¬ IsLive settings p →
      declared'.reconcileOverrides j = declared.reconcileOverrides i := by
    intro hlive
    rw [hf, hf', homitted hlive]
  have hplaces : Places settings (xs ++ ys) (declared.reconcileOverrides i) :=
    (places_declarations hdeclared).reconcileOverrides hi
  refine ⟨declared'.reconcileOverrides j, ?_, homitted', fun hlive => ?_, fun hfree => ?_⟩
  · exact bind_eq_ok.2 ⟨declared', hdeclared', bind_eq_ok.2 ⟨j, hj, rfl⟩⟩
  · obtain ⟨passed, hpassed⟩ := hmoved' hlive
    exact ⟨passed, hpassed, hpassed.eq_iff⟩
  · by_cases hlive : IsLive settings p
    · obtain ⟨passed, hpassed⟩ := hmoved' hlive
      exact hpassed.eq_iff.2 (hpassed.eq_nil_of_no_name hplaces hfree)
    · exact homitted' hlive

end

/-- Two classes in namespaces that are not documented; the name of one namespace is that of the
other one and a dollar sign, which is smaller than a dot. -/
def dollarSymbols : List Symbol :=
  [{ name := "x$.B", kind := .classKind }, { name := "x.A", kind := .classKind }]

theorem ofSymbols_dollarSymbols :
    ∃ forest, ofSymbols {} (dollarSymbols ++ []) = .ok forest ∧
      forest.map (·.fullName) = ["x$", "x"] := by
  have hsorted : sortedByName (dollarSymbols ++ []) = dollarSymbols :=
    List.mergeSort_of_pairwise (by decide +kernel)
  have hroots : ((ofSymbols {} (dollarSymbols ++ [])).toOption.any fun forest =>
      forest.map (·.fullName) == ["x$", "x"]) = true := by
    rw [ofSymbols_eq, declarations, hsorted]
    decide +kernel
  obtain ⟨forest, hforest, hnames⟩ := exists_ok_of_any hroots
  exact ⟨forest, hforest, beq_iff_eq.1 hnames⟩

theorem ofSymbols_implied_dollarSymbols :
    ∃ forest forest', ofSymbols {} (dollarSymbols ++ []) = .ok forest ∧
      ofSymbols {} (dollarSymbols ++ [.implicitNamespace "x"]) = .ok forest' ∧
      (¬ IsLive {} "x" → forest' = forest) ∧
      (IsLive {} "x" →
        ∃ passed, MovedAhead "x" passed forest forest' ∧ (forest' = forest ↔ passed = [])) ∧
      ((∀ t ∈ dollarSymbols ++ [], ¬ ("x" < t.name ∧ t.name < "x" ++ ".")) → forest' = forest) := by
  obtain ⟨forest, hforest, -⟩ := ofSymbols_dollarSymbols
  obtain ⟨forest', h⟩ := ofSymbols_implied (p := "x") hforest
    ⟨{ name := "x.A", kind := .classKind }, by simp [dollarSymbols], ["A"], by decide +kernel⟩
    (by decide +kernel)
  exact ⟨forest, forest', hforest, h⟩

/-- To document an empty namespace that was implied may change the order of its siblings. -/
theorem implied_moves_dollarSymbols :
    (∃ t ∈ dollarSymbols, Dotted.Begins "x" t.name ∧ t.name ≠ "x") ∧
      (∀ t ∈ dollarSymbols, t.name ≠ "x") ∧
      ∃ forest forest', ofSymbols {} dollarSymbols = .ok forest ∧
        ofSymbols {} (dollarSymbols ++ [.implicitNamespace "x"]) = .ok forest' ∧
        forest.map (·.fullName) = ["x$", "x"] ∧ forest'.map (·.fullName) = ["x", "x$"] ∧
        forest' ≠ forest := by
  refine ⟨⟨{ name := "x.A", kind := .classKind }, by simp [dollarSymbols],
    ⟨["A"], by decide +kernel⟩, by decide +kernel⟩, by decide +kernel, ?_⟩
  have hsorted : sortedByName (dollarSymbols ++ [.implicitNamespace "x"])
      = [.implicitNamespace "x"] ++ dollarSymbols :=
    sortedByName_eq (sameByName_append_comm (by decide +kernel)) (by decide +kernel)
  have hroots : ((ofSymbols {} (dollarSymbols ++ [.implicitNamespace "x"])).toOption.any
      fun forest => forest.map (·.fullName) == ["x", "x$"]) = true := by
    rw [ofSymbols_eq, declarations, hsorted]
    decide +kernel
  obtain ⟨forest, hforest, hnames⟩ := ofSymbols_dollarSymbols
  obtain ⟨forest', hforest', hnames'⟩ := exists_ok_of_any hroots
  rw [List.append_nil] at hforest
  rw [beq_iff_eq] at hnames'
  refine ⟨forest, forest', hforest, hforest', hnames, hnames', fun heq => ?_⟩
  rw [heq, hnames] at hnames'
  exact absurd hnames' (by decide)

end Forest

end ApiTypings
