/-
# Chains of base classes

Every class has at most one base class, so the classes above it form a chain.  The chain of a class
either comes to an end, at a class without a base class or at a name outside the index, or it runs
into a cycle.  The walks of the index carry the names they visited; this file says what they find.

* `mem_chainFrom_nil` : a walk finds every class that can be reached, on a cycle too;
* `ancestors_of_base` : where the chain ends, the classes above a class are its base class and the
  classes above that one;
* `chainEnds_iff` : a chain ends unless it runs into a cycle;
* `above_induction` : what is passed down from the classes above holds of every class whose chain
  ends.
-/
import ApiTypings.Hierarchy.ClassIndex
import Mathlib.Logic.Relation

namespace ApiTypings.ClassIndex

variable {i : ClassIndex}

/-! ## Reachable classes -/

/-- `base` is the base class of `name`. -/
def IsBase (i : ClassIndex) (name base : String) : Prop := i.baseOf? name = some base

/-- `a` is met when base classes are followed from `name`, zero or more times. -/
def Reaches (i : ClassIndex) (name a : String) : Prop := Relation.ReflTransGen i.IsBase name a

theorem Reaches.refl (name : String) : i.Reaches name name := Relation.ReflTransGen.refl

theorem Reaches.trans {a b c : String} (hab : i.Reaches a b) (hbc : i.Reaches b c) :
    i.Reaches a c :=
  Relation.ReflTransGen.trans hab hbc

theorem Reaches.of_base {name base a : String} (hb : i.baseOf? name = some base)
    (h : i.Reaches base a) : i.Reaches name a :=
  Relation.ReflTransGen.head hb h

theorem Reaches.to_base {name a base : String} (h : i.Reaches name a)
    (hb : i.baseOf? a = some base) : i.Reaches name base :=
  Relation.ReflTransGen.tail h hb

/-- What a class reaches is the class itself, or reached from its base class. -/
theorem Reaches.cases_base {name a : String} (h : i.Reaches name a) :
    a = name ∨ ∃ base, i.baseOf? name = some base ∧ i.Reaches base a := by
  rcases Relation.ReflTransGen.cases_head h with rfl | ⟨base, hb, hr⟩
  · exact Or.inl rfl
  · exact Or.inr ⟨base, hb, hr⟩

/-! ## The walk up -/

/-- A visited name ends the walk. -/
theorem chainFrom_of_mem {visited : List String} {name : String} (h : name ∈ visited) :
    i.chainFrom visited name = [] := by
  rw [chainFrom, dif_pos h]

/-- A name without a base class is the last one. -/
theorem chainFrom_of_none {visited : List String} {name : String} (h : name ∉ visited)
    (hb : i.baseOf? name = none) : i.chainFrom visited name = [name] := by
  rw [chainFrom, dif_neg h]
  split
  · rfl
  · simp_all

/-- Otherwise the walk goes on at the base class. -/
theorem chainFrom_of_base {visited : List String} {name base : String} (h : name ∉ visited)
    (hb : i.baseOf? name = some base) :
    i.chainFrom visited name = name :: i.chainFrom (name :: visited) base := by
  rw [chainFrom, dif_neg h]
  split
  · simp_all
  · simp_all

/-- A walk finds reachable classes only. -/
theorem reaches_of_mem_chainFrom {visited : List String} {name a : String}
    (h : a ∈ i.chainFrom visited name) : i.Reaches name a := by
  induction visited, name using chainFrom.induct i with
  | case1 visited name hmem =>
    rw [chainFrom_of_mem hmem] at h
    exact absurd h List.not_mem_nil
  | case2 visited name hnew hb =>
    rw [chainFrom_of_none hnew hb, List.mem_singleton] at h
    rw [h]
    exact Reaches.refl name
  | case3 visited name hnew base hb ih =>
    rw [chainFrom_of_base hnew hb] at h
    rcases List.mem_cons.1 h with rfl | h
    · exact Reaches.refl a
    · exact Reaches.of_base hb (ih h)

/-- With a class a walk finds its base class, unless that one was visited. -/
theorem base_mem_chainFrom {visited : List String} {name a base : String}
    (h : a ∈ i.chainFrom visited name) (hb : i.baseOf? a = some base) :
    base ∈ i.chainFrom visited name ∨ base ∈ visited := by
  induction visited, name using chainFrom.induct i with
  | case1 visited name hmem =>
    rw [chainFrom_of_mem hmem] at h
    exact absurd h List.not_mem_nil
  | case2 visited name hnew hn =>
    rw [chainFrom_of_none hnew hn, List.mem_singleton] at h
    rw [h, hn] at hb
    exact absurd hb (by simp)
  | case3 visited name hnew next hn ih =>
    rw [chainFrom_of_base hnew hn] at h ⊢
    -- the walk behind `name` may stop at `name` itself, which the walk has found already
    have hrest : base ∈ i.chainFrom (name :: visited) next ∨ base ∈ name :: visited := by
      rcases List.mem_cons.1 h with rfl | h
      · obtain rfl : next = base := Option.some.inj (hn.symm.trans hb)
        by_cases hv : next ∈ a :: visited
        · exact Or.inr hv
        · cases hn' : i.baseOf? next with
          | none => exact Or.inl (by simp [chainFrom_of_none hv hn'])
          | some _ => exact Or.inl (by simp [chainFrom_of_base hv hn'])
      · exact ih h
    rcases hrest with h | h
    · exact Or.inl (List.mem_cons_of_mem _ h)
    · rcases List.mem_cons.1 h with rfl | h
      · exact Or.inl List.mem_cons_self
      · exact Or.inr h

/-- A walk that starts afresh finds exactly the classes that can be reached. -/
theorem mem_chainFrom_nil {name a : String} : a ∈ i.chainFrom [] name ↔ i.Reaches name a := by
  constructor
  · exact reaches_of_mem_chainFrom
  · intro h
    induction h with
    | refl =>
      cases hb : i.baseOf? name with
      | none => simp [chainFrom_of_none List.not_mem_nil hb]
      | some _ => simp [chainFrom_of_base List.not_mem_nil hb]
    | tail _ hb ih => exact (base_mem_chainFrom ih hb).resolve_right List.not_mem_nil

/-- A walk depends on the visited names that it can reach only. -/
theorem chainFrom_congr {visited visited' : List String} {name : String}
    (h : ∀ a, i.Reaches name a → (a ∈ visited ↔ a ∈ visited')) :
    i.chainFrom visited name = i.chainFrom visited' name := by
  induction visited, name using chainFrom.induct i generalizing visited' with
  | case1 visited name hmem =>
    rw [chainFrom_of_mem hmem, chainFrom_of_mem ((h name (Reaches.refl name)).1 hmem)]
  | case2 visited name hnew hb =>
    have hnew' : name ∉ visited' := fun hm => hnew ((h name (Reaches.refl name)).2 hm)
    rw [chainFrom_of_none hnew hb, chainFrom_of_none hnew' hb]
  | case3 visited name hnew base hb ih =>
    have hnew' : name ∉ visited' := fun hm => hnew ((h name (Reaches.refl name)).2 hm)
    rw [chainFrom_of_base hnew hb, chainFrom_of_base hnew' hb]
    congr 1
    apply ih
    intro a ha
    rw [List.mem_cons, List.mem_cons, h a (Reaches.of_base hb ha)]

/-- The classes above a class are those that its base class reaches. -/
theorem mem_ancestors {name a : String} :
    a ∈ i.ancestors name ↔ ∃ base, i.baseOf? name = some base ∧ i.Reaches base a := by
  unfold ancestors
  cases hb : i.baseOf? name with
  | none => simp
  | some base => simp [mem_chainFrom_nil]

/-- A class descends from the classes that it reaches. -/
theorem descendsFrom_iff {name a : String} : i.descendsFrom name a = true ↔ i.Reaches name a := by
  rw [descendsFrom, List.contains_iff_mem, mem_chainFrom_nil]

/-- A class descends from the classes above it. -/
theorem descendsFrom_of_mem_ancestors {name a : String} (h : a ∈ i.ancestors name) :
    i.descendsFrom name a = true := by
  obtain ⟨base, hb, hr⟩ := mem_ancestors.1 h
  exact descendsFrom_iff.2 (Reaches.of_base hb hr)

/-! ## Chains that end -/

/-- The base classes above a class come to an end. -/
inductive ChainEnds (i : ClassIndex) : String → Prop where
  /-- There is no base class, or the name lies outside the index. -/
  | top {name : String} (hb : i.baseOf? name = none) : ChainEnds i name
  /-- The chain of the base class ends. -/
  | next {name base : String} (hb : i.baseOf? name = some base) (h : ChainEnds i base) :
      ChainEnds i name

/-- The chain of the base class is part of the chain. -/
theorem ChainEnds.of_base {name base : String} (h : i.ChainEnds name)
    (hb : i.baseOf? name = some base) : i.ChainEnds base := by
  cases h with
  | top hn =>
    rw [hb] at hn
    exact absurd hn (by simp)
  | next hb' h =>
    obtain rfl := Option.some.inj (hb.symm.trans hb')
    exact h

/-- Chains of reachable classes end too. -/
theorem ChainEnds.of_reaches {name a : String} (h : i.ChainEnds name) (hr : i.Reaches name a) :
    i.ChainEnds a := by
  induction hr with
  | refl => exact h
  | tail _ hb ih => exact ih.of_base hb

/-- Chains of the classes above a class end too. -/
theorem ChainEnds.of_mem_ancestors {name a : String} (h : i.ChainEnds name)
    (ha : a ∈ i.ancestors name) : i.ChainEnds a := by
  obtain ⟨base, hb, hr⟩ := mem_ancestors.1 ha
  exact h.of_reaches (Reaches.of_base hb hr)

/-- A chain that ends does not come back to its class. -/
theorem ChainEnds.not_reaches {name base : String} (h : i.ChainEnds name)
    (hb : i.baseOf? name = some base) : ¬ i.Reaches base name := by
  induction h generalizing base with
  | top hn =>
    rw [hb] at hn
    exact absurd hn (by simp)
  | @next name next hn _ ih =>
    obtain rfl := Option.some.inj (hb.symm.trans hn)
    intro hr
    -- a way back to `name` would lead on to its base class again
    rcases hr.cases_base with rfl | ⟨c, hc, hr⟩
    · exact ih hb (Reaches.refl name)
    · exact ih hc (hr.to_base hb)

/-- A class whose chain ends is not above itself. -/
theorem ChainEnds.not_mem_ancestors {name : String} (h : i.ChainEnds name) :
    name ∉ i.ancestors name := by
  intro hmem
  obtain ⟨base, hb, hr⟩ := mem_ancestors.1 hmem
  exact h.not_reaches hb hr

/-- The chain of a class runs into a cycle: some class on it is met again behind itself.  The class
may be on the cycle, or below it. -/
def ReachesCycle (i : ClassIndex) (name : String) : Prop :=
  ∃ a base, i.Reaches name a ∧ i.baseOf? a = some base ∧ i.Reaches base a

/-- A walk up comes to an end, or back to a class that it has visited. -/
theorem chainEnds_or_reachesCycle {visited : List String} {name : String}
    (hvisited : ∀ x ∈ visited, ∃ base, i.baseOf? x = some base ∧ i.Reaches base name) :
    i.ChainEnds name ∨ i.ReachesCycle name := by
  induction visited, name using chainFrom.induct i with
  | case1 visited name hmem =>
    obtain ⟨base, hb, hr⟩ := hvisited name hmem
    exact .inr ⟨name, base, Reaches.refl name, hb, hr⟩
  | case2 visited name hnew hb => exact .inl (.top hb)
  | case3 visited name hnew base hb ih =>
    have hvisited' : ∀ x ∈ name :: visited,
        ∃ next, i.baseOf? x = some next ∧ i.Reaches next base := by
      intro x hx
      rcases List.mem_cons.1 hx with rfl | hx
      · exact ⟨base, hb, Reaches.refl base⟩
      · obtain ⟨next, hnext, hr⟩ := hvisited x hx
        exact ⟨next, hnext, hr.to_base hb⟩
    rcases ih hvisited' with hends | ⟨a, next, hr, hcycle⟩
    · exact .inl (.next hb hends)
    · exact .inr ⟨a, next, Reaches.of_base hb hr, hcycle⟩

/-- A chain ends unless it runs into a cycle. -/
theorem chainEnds_iff {name : String} : i.ChainEnds name ↔ ¬ i.ReachesCycle name := by
  constructor
  · rintro hends ⟨a, base, hr, hb, hcycle⟩
    exact (hends.of_reaches hr).not_reaches hb hcycle
  · exact (chainEnds_or_reachesCycle fun x hx => absurd hx List.not_mem_nil).resolve_right

/-- Where a chain ends no guard of the walk takes effect: the walk finds the class and the classes
above it. -/
theorem ChainEnds.chainFrom_nil {name : String} (h : i.ChainEnds name) :
    i.chainFrom [] name = name :: i.ancestors name := by
  cases hb : i.baseOf? name with
  | none => rw [chainFrom_of_none List.not_mem_nil hb, ancestors, hb]
  | some base =>
    rw [chainFrom_of_base List.not_mem_nil hb, ancestors, hb]
    congr 1
    apply chainFrom_congr
    intro a ha
    have hne : a ≠ name := by
      rintro rfl
      exact h.not_reaches hb ha
    simp [hne]

/-- The classes above a class whose chain ends: its base class, and the classes above that one. -/
theorem ChainEnds.ancestors_of_base {name base : String} (h : i.ChainEnds name)
    (hb : i.baseOf? name = some base) : i.ancestors name = base :: i.ancestors base := by
  rw [ancestors, hb]
  exact (h.of_base hb).chainFrom_nil

/-- Behind a class in a chain that ends come the classes above it. -/
theorem ChainEnds.ancestors_append {name a : String} {pre post : List String}
    (h : i.ChainEnds name) (ha : i.ancestors name = pre ++ a :: post) :
    i.ancestors a = post := by
  induction h generalizing pre with
  | top hb =>
    rw [ancestors, hb] at ha
    exact absurd ha (by simp)
  | @next name base hb hbase ih =>
    rw [(ChainEnds.next hb hbase).ancestors_of_base hb] at ha
    cases pre with
    | nil =>
      obtain ⟨rfl, rfl⟩ := List.cons.inj ha
      rfl
    | cons p pre => exact ih (List.cons.inj ha).2

/-- What is passed down from all classes above a class holds of every class whose chain ends. -/
@[elab_as_elim]
theorem ChainEnds.above_induction {P : String → Prop}
    (step : ∀ name, i.ChainEnds name → (∀ a ∈ i.ancestors name, P a) → P name) {name : String}
    (h : i.ChainEnds name) : P name := by
  -- the induction along the chain carries the statement for all classes above as well
  suffices hall : P name ∧ ∀ a ∈ i.ancestors name, P a from hall.1
  induction h with
  | @top name hb =>
    have hnone : ∀ a ∈ i.ancestors name, P a := by simp [ancestors, hb]
    exact ⟨step name (.top hb) hnone, hnone⟩
  | @next name base hb hbase ih =>
    have hends : i.ChainEnds name := .next hb hbase
    have habove : ∀ a ∈ i.ancestors name, P a := by
      rw [hends.ancestors_of_base hb]
      exact List.forall_mem_cons.2 ih
    exact ⟨step name hends habove, habove⟩

end ApiTypings.ClassIndex
