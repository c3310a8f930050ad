/-
# What nodes are built from

Every node of a forest is built from one of the symbols, or from the empty namespace that stands in
where no symbol has its name.

* `builtFrom_of_mem_level` : the nodes of a level, by induction on the level;
* `builtFrom_of_mem_declarations` : the nodes of a forest.
-/
import ApiTypings.Proofs.Forest.Level

namespace ApiTypings

namespace Forest

variable {settings : Settings}

/-- A node is built from one of the symbols, or stands in for a name that none of them has. -/
def BuiltFrom (settings : Settings) (symbols : List Symbol) (d : Declaration) : Prop :=
  ∃ s depth children, Declaration.build settings s depth children = .ok d ∧
    (s ∈ symbols ∨ s = .implicitNamespace d.fullName)

theorem BuiltFrom.mono {symbols symbols' : List Symbol} {d : Declaration}
    (h : BuiltFrom settings symbols d) (hsub : symbols ⊆ symbols') :
    BuiltFrom settings symbols' d := by
  obtain ⟨s, depth, children, hbuild, hs⟩ := h
  exact ⟨s, depth, children, hbuild, hs.imp (fun hs => hsub hs) id⟩

/-- The symbols of the entries of a level. -/
def symbolsOf (es : List Entry) : List Symbol := es.map (·.symbol)

theorem symbolsOf_below_subset (seg : String) (es : List Entry) :
    symbolsOf (below seg es) ⊆ symbolsOf es := by
  intro s hs
  obtain ⟨e', he', rfl⟩ := List.mem_map.1 hs
  obtain ⟨e, he, -, -, hsymbol⟩ := mem_below.1 he'
  exact List.mem_map.2 ⟨e, he, hsymbol.symm⟩

/-- A declaration that is built from a declared symbol of a group is built from a symbol of the
level. -/
theorem builtFrom_of_declared {seg fullName : String} {es : List Entry} {s : Symbol}
    (hs : s ∈ declaredSymbols fullName (endingAt seg es)) {depth : Nat}
    {children : List Declaration} {d : Declaration}
    (hbuild : Declaration.build settings s depth children = .ok d) :
    BuiltFrom settings (symbolsOf es) d := by
  refine ⟨s, depth, children, hbuild, ?_⟩
  cases hend : endingAt seg es with
  | nil =>
    rw [hend, declaredSymbols, List.mem_singleton] at hs
    subst hs
    obtain ⟨body, -, rfl⟩ := Declaration.build_eq_ok hbuild
    exact .inr rfl
  | cons t others =>
    rw [hend, declaredSymbols, ← hend] at hs
    obtain ⟨e, he, -, rfl⟩ := mem_endingAt.1 hs
    exact .inl (List.mem_map_of_mem he)

/-- The nodes of a group are built from symbols of the level if that holds of what is nested in the
group. -/
theorem IsGroup.builtFrom {above : List String} {es : List Entry} {seg : String}
    {group : List Declaration} (h : IsGroup settings above es seg group)
    (hbelow : ∀ children, level settings (above ++ [seg]) (below seg es) = .ok children →
      ∀ n ∈ Declaration.nodesAll children, BuiltFrom settings (symbolsOf (below seg es)) n) :
    ∀ n ∈ Declaration.nodesAll group, BuiltFrom settings (symbolsOf es) n := by
  unfold IsGroup at h
  split at h
  · rw [h]
    exact List.forall_mem_nil _
  · obtain ⟨children, hlevel, hdeclare⟩ := h
    obtain ⟨s, others, first, rest, hsymbols, rfl, hfirst, hrest⟩ := declare_eq_ok hdeclare
    intro n hn
    obtain ⟨d, hd, hnode⟩ := Declaration.mem_nodesAll.1 hn
    rw [Declaration.nodes_eq_cons, List.mem_cons] at hnode
    rcases List.mem_cons.1 hd with rfl | hd
    · rcases hnode with rfl | hnode
      · exact builtFrom_of_declared (hsymbols ▸ List.mem_cons_self) hfirst
      · obtain ⟨body, -, rfl⟩ := Declaration.build_eq_ok hfirst
        exact (hbelow children hlevel n hnode).mono (symbolsOf_below_subset seg es)
    · obtain ⟨t, ht, hbuild⟩ := exists_of_forall₂ hrest hd
      rcases hnode with rfl | hnode
      · exact builtFrom_of_declared (hsymbols ▸ List.mem_cons_of_mem s ht) hbuild
      · -- the declarations behind the first have no children
        obtain ⟨body, -, rfl⟩ := Declaration.build_eq_ok hbuild
        exact absurd hnode List.not_mem_nil

/-- The nodes of a level are built from its symbols. -/
theorem builtFrom_of_mem_level {above : List String} {es : List Entry} {ds : List Declaration}
    (h : level settings above es = .ok ds) :
    ∀ n ∈ Declaration.nodesAll ds, BuiltFrom settings (symbolsOf es) n := by
  induction above, es using level.induct generalizing ds with
  | case1 above es ih =>
    obtain ⟨groups, hgroups, rfl⟩ := level_eq_ok h
    intro n hn
    rw [Declaration.nodesAll_flatten] at hn
    obtain ⟨group, hgroup, hn⟩ := List.mem_flatMap.1 hn
    obtain ⟨seg, hseg, hisGroup⟩ := exists_of_forall₂ hgroups hgroup
    exact hisGroup.builtFrom (fun _ hlevel => ih seg hseg hlevel) n hn

/-- The nodes of the forest of some symbols are built from these symbols. -/
theorem builtFrom_of_mem_declarations {symbols : List Symbol} {forest : Forest}
    (h : declarations settings symbols = .ok forest) {d : Declaration} (hd : d ∈ forest.nodes) :
    BuiltFrom settings symbols d := by
  refine (builtFrom_of_mem_level h d hd).mono fun s hs => ?_
  rw [symbolsOf, List.map_map] at hs
  obtain ⟨t, ht, rfl⟩ := List.mem_map.1 hs
  exact List.mem_mergeSort.1 ht

end Forest

end ApiTypings
