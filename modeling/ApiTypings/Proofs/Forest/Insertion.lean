/-
# Levels with one more entry

Groups come in the order of the first names in them.  Let a level get one more entry, with a name
that goes on in the name of another one.  Further up than the level where the entry ends, its group
begins at the same place as before: the first name behind it is in the same group.  On its own level
the group now begins at the name of the entry, ahead of the names that go on behind it, and so it
moves ahead of the groups with names between that name and that name with a dot.

* `Between.below` : what an entry stands between on the way down its path;
* `Between.heads_of_below`, `Between.heads_of_end` : the groups of a level with one more entry;
* `Between.between_of_mem_passed` : the groups that it moves ahead of.
-/
import ApiTypings.Proofs.Forest.Sorted

namespace ApiTypings

namespace Forest

variable {settings : Settings}

/-! ## One more entry -/

section

variable {above path : List String} {seg : String} {e : Entry} {before behind : List Entry}

theorem below_append (seg : String) (es es' : List Entry) :
    below seg (es ++ es') = below seg es ++ below seg es' :=
  List.filterMap_append

theorem endingAt_append (seg : String) (es es' : List Entry) :
    endingAt seg (es ++ es') = endingAt seg es ++ endingAt seg es' :=
  List.filterMap_append

theorem below_insert (he : e.path = seg :: path) (hpath : path ≠ []) :
    below seg (before ++ e :: behind)
      = below seg before ++ ⟨path, e.symbol⟩ :: below seg behind := by
  have hbelow : e.below? seg = some ⟨path, e.symbol⟩ :=
    Entry.below?_eq_some.2 ⟨he, hpath, rfl⟩
  rw [below_append, below, below, List.filterMap_cons_some hbelow]
  rfl

theorem below_insert_of_none (he : e.below? seg = none) :
    below seg (before ++ e :: behind) = below seg (before ++ behind) := by
  rw [below_append, below_append, below, below, List.filterMap_cons_none he]
  rfl

theorem endingAt_insert_of_none (he : e.endingAt? seg = none) :
    endingAt seg (before ++ e :: behind) = endingAt seg (before ++ behind) := by
  rw [endingAt_append, endingAt_append, endingAt, endingAt, List.filterMap_cons_none he]
  rfl

theorem endingAt?_of_below (he : e.path = seg :: path) (hpath : path ≠ []) (other : String) :
    e.endingAt? other = none := by
  refine Option.eq_none_iff_forall_ne_some.2 fun s hs => hpath ?_
  have hend := (Entry.endingAt?_eq_some.1 hs).1
  rw [he] at hend
  exact (List.cons.inj hend).2

/-- Groups of another segment do not see the entry. -/
theorem isGroup_insert_of_ne (he : e.path = seg :: path) {other : String} (hne : other ≠ seg)
    (group : List Declaration) :
    IsGroup settings above (before ++ e :: behind) other group ↔
      IsGroup settings above (before ++ behind) other group := by
  have hbelow : e.below? other = none := Option.eq_none_iff_forall_ne_some.2 fun e' he' => by
    have hhead := (Entry.below?_eq_some.1 he').1
    rw [he] at hhead
    exact hne (List.cons.inj hhead).1.symm
  have hend : e.endingAt? other = none := Option.eq_none_iff_forall_ne_some.2 fun s hs => by
    have hhead := (Entry.endingAt?_eq_some.1 hs).1
    rw [he] at hhead
    exact hne (List.cons.inj hhead).1.symm
  rw [IsGroup, IsGroup, below_insert_of_none hbelow, endingAt_insert_of_none hend]

end

/-! ## Entries in the order of their names -/

/-- An entry of a level stands between entries with smaller and with larger names, all in order, and
the path of some entry goes on behind its own. -/
structure Between (above : List String) (e : Entry) (before behind : List Entry) : Prop where
  located : Located above (before ++ e :: behind)
  smaller : ∀ a ∈ before, a.symbol.name < e.symbol.name
  larger : ∀ b ∈ behind, e.symbol.name < b.symbol.name
  sorted : (before ++ behind).Pairwise fun a b => a.symbol.name ≤ b.symbol.name
  nested : ∃ t ∈ behind, e.path <+: t.path

/-- The next segments of a level in order come in the order of the first names that have them. -/
theorem pairwise_heads {es : List Entry}
    (h : es.Pairwise fun a b => a.symbol.name ≤ b.symbol.name) :
    (heads es).Pairwise fun s s' => ∃ a ∈ es, ∃ b ∈ es,
      a.head? = some s ∧ b.head? = some s' ∧ a.symbol.name ≤ b.symbol.name := by
  refine List.Pairwise.sublist (Distinct.sublist_eraseDups _) (List.pairwise_filterMap.2 ?_)
  exact h.imp_of_mem fun ha hb hle s hs s' hs' => ⟨_, ha, _, hb, hs, hs', hle⟩

theorem prefix_of_head? {e : Entry} {seg : String} (h : e.head? = some seg) : [seg] <+: e.path := by
  obtain ⟨path, hpath⟩ := List.head?_eq_some_iff.1 h
  exact ⟨path, hpath.symm⟩

/-- A name begins with those that end with its next segment. -/
theorem Located.begins {above : List String} {es : List Entry} (h : Located above es) {e : Entry}
    (he : e ∈ es) {path : List String} (hpath : path <+: e.path) {q : String}
    (hq : Dotted.segments q = above ++ path) : Dotted.Begins q e.symbol.name := by
  rw [Dotted.Begins, hq, (h e he).2]
  exact (List.prefix_append_right_inj above).2 hpath

namespace Between

variable {above path : List String} {seg : String} {e : Entry} {before behind : List Entry}

section

variable (h : Between above e before behind)

include h

theorem located_others : Located above (before ++ behind) := by
  intro x hx
  apply h.located x
  rcases List.mem_append.1 hx with hx | hx
  · exact List.mem_append_left _ hx
  · exact List.mem_append_right _ (List.mem_cons_of_mem _ hx)

theorem segments_eq : Dotted.segments e.symbol.name = above ++ e.path :=
  (h.located e (by simp)).2

/-- Some name goes on behind that of the entry, and a dot. -/
theorem exists_dot :
    ∃ t ∈ behind, Text.beginsWith (e.symbol.name ++ ".") t.symbol.name = true := by
  obtain ⟨t, ht, hpath⟩ := h.nested
  refine ⟨t, ht, ?_⟩
  have hbegins : Dotted.Begins e.symbol.name t.symbol.name :=
    h.located.begins (by simp [ht]) hpath h.segments_eq
  refine (Dotted.eq_or_beginsWith_dot hbegins).resolve_left fun heq => ?_
  exact String.lt_irrefl _ (heq ▸ h.larger t ht)

/-- An entry stands in the same way between those below the next segment of its path. -/
theorem below (he : e.path = seg :: path) (hpath : path ≠ []) :
    Between (above ++ [seg]) ⟨path, e.symbol⟩ (below seg before) (below seg behind) where
  located := below_insert he hpath ▸ h.located.below seg
  smaller := by
    intro a ha
    obtain ⟨a', ha', -, -, hsymbol⟩ := mem_below.1 ha
    rw [hsymbol]
    exact h.smaller a' ha'
  larger := by
    intro b hb
    obtain ⟨b', hb', -, -, hsymbol⟩ := mem_below.1 hb
    rw [hsymbol]
    exact h.larger b' hb'
  sorted := by
    rw [← below_append]
    refine List.pairwise_filterMap.2 (h.sorted.imp fun hle a' ha b' hb => ?_)
    rw [(Entry.below?_eq_some.1 ha).2.2, (Entry.below?_eq_some.1 hb).2.2]
    exact hle
  nested := by
    obtain ⟨t, ht, rest, hrest⟩ := h.nested
    rw [he, List.cons_append] at hrest
    exact ⟨⟨path ++ rest, t.symbol⟩, mem_below.2 ⟨t, ht, hrest.symm, by simp [hpath], rfl⟩,
      List.prefix_append path rest⟩

/-- The first name behind the entry begins with the same segments, all but the last one. -/
theorem head?_behind (he : e.path = seg :: path) (hpath : path ≠ []) :
    (behind.filterMap Entry.head?).head? = some seg := by
  obtain ⟨t, ht, hdot⟩ := h.exists_dot
  cases behind with
  | nil => exact absurd ht List.not_mem_nil
  | cons b behind =>
    have hle : b.symbol.name ≤ t.symbol.name := by
      rcases List.mem_cons.1 ht with rfl | ht
      · exact String.le_refl _
      · exact (List.pairwise_cons.1 (List.pairwise_append.1 h.sorted).2.1).1 t ht
    have hsegments := h.segments_eq
    obtain ⟨next, path, rfl⟩ := List.exists_cons_of_ne_nil hpath
    rw [he, List.append_cons] at hsegments
    -- the name of the level above is that of the group, and both names go on behind it
    have howner : Dotted.segments (Dotted.fromSegments (above ++ [seg])) = above ++ [seg] :=
      Dotted.segments_fromSegments_of_prefix (by simp) (hsegments ▸ List.prefix_append _ _)
    have hfirst : Text.beginsWith (Dotted.fromSegments (above ++ [seg]) ++ ".") e.symbol.name
        = true :=
      Dotted.beginsWith_dot_iff.2 ⟨next, path, by rw [howner, hsegments]⟩
    have hlast : Text.beginsWith (Dotted.fromSegments (above ++ [seg]) ++ ".") t.symbol.name
        = true := by
      obtain ⟨last, rest, hrest⟩ := Dotted.beginsWith_dot_iff.1 hdot
      refine Dotted.beginsWith_dot_iff.2 ⟨next, path ++ last :: rest, ?_⟩
      rw [howner, hrest, hsegments, List.append_assoc]
      rfl
    obtain ⟨last, rest, hrest⟩ := Dotted.beginsWith_dot_iff.1 (Text.beginsWith_of_between hfirst
      hlast (Std.le_of_lt (h.larger b List.mem_cons_self)) hle)
    rw [howner, (h.located b (by simp)).2, List.append_assoc, List.append_right_inj] at hrest
    have hhead : b.head? = some seg := by rw [Entry.head?, hrest]; rfl
    rw [List.filterMap_cons_some hhead]
    rfl

/-- Further up than its own level an entry adds no group, and leaves the order of the groups. -/
theorem heads_of_below (he : e.path = seg :: path) (hpath : path ≠ []) :
    heads (before ++ e :: behind) = heads (before ++ behind) := by
  have hhead : e.head? = some seg := by rw [Entry.head?, he]; rfl
  rw [heads, heads, List.filterMap_append, List.filterMap_append, List.filterMap_cons_some hhead]
  exact Distinct.eraseDups_insert_of_mem (.inr (h.head?_behind he hpath))

/-- On its own level the segment of the entry is new among the smaller names. -/
theorem not_mem_before (he : e.path = [seg]) : seg ∉ before.filterMap Entry.head? := by
  intro hmem
  obtain ⟨a, ha, hhead⟩ := List.mem_filterMap.1 hmem
  have hbegins : Dotted.Begins e.symbol.name a.symbol.name :=
    h.located.begins (List.mem_append_left _ ha) (prefix_of_head? hhead) (he ▸ h.segments_eq)
  exact String.not_le.2 (h.smaller a ha) (Dotted.le_of_begins hbegins)

/-- On its own level an entry moves its group ahead of some others. -/
theorem heads_of_end (he : e.path = [seg]) :
    ∃ passed rest, heads (before ++ behind) = heads before ++ (passed ++ seg :: rest) ∧
      heads (before ++ e :: behind) = heads before ++ seg :: (passed ++ rest) := by
  have hhead : e.head? = some seg := by rw [Entry.head?, he]; rfl
  have hbehind : seg ∈ behind.filterMap Entry.head? := by
    obtain ⟨t, ht, rest, hrest⟩ := h.nested
    exact List.mem_filterMap.2 ⟨t, ht, by rw [Entry.head?, ← hrest, he]; rfl⟩
  simp only [heads, List.filterMap_append, List.filterMap_cons_some hhead]
  exact Distinct.eraseDups_insert (h.not_mem_before he) hbehind

/-- The groups ahead of the entry have smaller names. -/
theorem lt_of_mem_heads {other q : String} (hother : other ∈ heads before)
    (hq : Dotted.segments q = above ++ [other]) : q < e.symbol.name := by
  obtain ⟨a, ha, hpre⟩ := mem_heads.1 hother
  have hbegins : Dotted.Begins q a.symbol.name :=
    h.located.begins (List.mem_append_left _ ha) hpre hq
  exact Std.lt_of_le_of_lt (Dotted.le_of_begins hbegins) (h.smaller a ha)

/-- The groups that the entry moves ahead of have names between its own and its own with a dot. -/
theorem between_of_mem_passed (he : e.path = [seg]) {passed rest : List String}
    (hheads : heads (before ++ behind) = heads before ++ (passed ++ seg :: rest))
    {other q : String} (hother : other ∈ passed) (hq : Dotted.segments q = above ++ [other]) :
    e.symbol.name < q ∧ q < e.symbol.name ++ "." := by
  have hsegments : Dotted.segments e.symbol.name = above ++ [seg] := he ▸ h.segments_eq
  -- some name of the group comes before some name of the group of the entry
  have hordered := pairwise_heads h.sorted
  have hnodup := nodup_heads (before ++ behind)
  rw [hheads, List.pairwise_append, List.pairwise_append] at hordered
  rw [hheads, List.nodup_append, List.nodup_append] at hnodup
  obtain ⟨a, ha, t, ht, haother, htseg, hle⟩ := hordered.2.1.2.2 other hother seg List.mem_cons_self
  have hbefore : ∀ x ∈ before, ∀ s, x.head? = some s → s ∈ heads before := fun x hx s hs =>
    mem_heads.2 ⟨x, hx, prefix_of_head? hs⟩
  have habehind : a ∈ behind := by
    refine (List.mem_append.1 ha).resolve_left fun hin => ?_
    exact hnodup.2.2 other (hbefore a hin other haother) other
      (List.mem_append_left _ hother) rfl
  have htbehind : t ∈ behind := by
    refine (List.mem_append.1 ht).resolve_left fun hin => ?_
    exact hnodup.2.2 seg (hbefore t hin seg htseg) seg
      (List.mem_append_right _ List.mem_cons_self) rfl
  have hne : other ≠ seg := hnodup.2.1.2.2 other hother seg List.mem_cons_self
  have hnames : e.symbol.name ≠ q := by
    rw [ne_eq, ← Dotted.segments_inj, hq, hsegments, List.append_right_inj, List.cons.injEq]
    exact fun heq => hne heq.1.symm
  refine Dotted.between_of_begins (by simp [hq, hsegments]) hnames
    (h.located_others.begins ha (prefix_of_head? haother) hq) (h.larger a habehind) hle ?_
  exact (Dotted.eq_or_beginsWith_dot (h.located_others.begins ht (prefix_of_head? htseg)
    hsegments)).resolve_left fun heq => String.lt_irrefl _ (heq ▸ h.larger t htbehind)

/-- No other symbol ends where the entry does. -/
theorem endingAt_eq_nil (he : e.path = [seg]) : endingAt seg (before ++ behind) = [] := by
  rw [List.eq_nil_iff_forall_not_mem]
  intro s hs
  obtain ⟨x, hx, hpath, rfl⟩ := mem_endingAt.1 hs
  have hname : x.symbol.name = e.symbol.name := by
    rw [← Dotted.segments_inj, (h.located_others x hx).2, hpath, h.segments_eq, he]
  rcases List.mem_append.1 hx with hx | hx
  · exact String.lt_irrefl _ (hname ▸ h.smaller x hx)
  · exact String.lt_irrefl _ (hname ▸ h.larger x hx)

end

end Between

end Forest

end ApiTypings
