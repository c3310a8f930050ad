/-
# Signatures as a product

A parameter list is cut into groups: the longest stretches of neighbours that are all optional or
all required.  A group of optional parameters is an optional run unless it stands at the end of the
list, for a required parameter comes right behind it.  A run offers a few choices for its place, any
other group stays as it is, and the signatures of the list are all ways to choose, joined up, with
the choice for the first run changing last.

* `groups_of_splitRun?` : the first optional run is a group;
* `combinations_of_some` : the choices for it, each one in front of all combinations of the rest;
* `expand_append` : the expansion of one run after the other makes the same signatures;
* `synthesize_eq_combinations` : the signatures of a list are its combinations.
-/
import ApiTypings.Proofs.Signature.Runs
import Mathlib.Data.List.SplitBy

namespace ApiTypings

namespace Signature

/-! ## Groups and choices -/

/-- The longest stretches of neighbours that are all optional or all required. -/
def groups (ps : List Parameter) : List (List Parameter) := ps.splitBy (·.optional == ·.optional)

/-- Whether the members of a group are optional. -/
def isOptionalGroup (group : List Parameter) : Bool := group.all (·.optional)

/-- The groups of optional parameters with a required parameter right behind. -/
def optionalRuns (ps : List Parameter) : List (List Parameter) :=
  (groups ps).dropLast.filter isOptionalGroup

/-- For two members that cannot stand for each other, one parameter that takes either. -/
def mergedChoices : List Parameter → List (List Parameter)
  | [first, second] => if first.canBeElidedFor second then [] else [[first.merge second]]
  | _ => []

/-- What may stand for an optional run: its members, required; nothing; or its merged members. -/
def runChoices (run : List Parameter) : List (List Parameter) :=
  run.map Parameter.required :: [] :: mergedChoices run

/-- What may stand for each group.  Only optional runs offer a choice. -/
def choices : List (List Parameter) → List (List (List Parameter))
  | [] => []
  | [last] => [[last]]
  | group :: next :: rest =>
    (if isOptionalGroup group then runChoices group else [group]) :: choices (next :: rest)

/-- One choice for each place, joined up; the choice for the first place changes last. -/
def product : List (List (List Parameter)) → List (List Parameter)
  | [] => [[]]
  | place :: places => place.flatMap fun chosen => (product places).map (chosen ++ ·)

/-- All ways to choose for the optional runs of a list. -/
def combinations (ps : List Parameter) : List (List Parameter) := product (choices (groups ps))

/-- Whether some optional run has three members or more. -/
def hasLongRun (ps : List Parameter) : Bool := (optionalRuns ps).any (3 ≤ ·.length)

/-! ## Groups around the first run -/

theorem groups_eq_nil {ps : List Parameter} : groups ps = [] ↔ ps = [] := List.splitBy_eq_nil

/-- Neighbours that are not both optional or both required are in two groups. -/
theorem groups_append {as bs : List Parameter}
    (h : ∀ p ∈ as.getLast?, ∀ q ∈ bs.head?, p.optional ≠ q.optional) :
    groups (as ++ bs) = groups as ++ groups bs :=
  List.splitBy_append fun p hp q hq => beq_eq_false_iff_ne.2 (h p hp q hq)

/-- Parameters that are all optional or all required are one group. -/
theorem groups_of_uniform {b : Bool} {ps : List Parameter} (hne : ps ≠ [])
    (h : ∀ p ∈ ps, p.optional = b) : groups ps = [ps] := by
  refine List.splitBy_of_isChain hne ?_
  exact (List.pairwise_of_forall_mem_list fun p hp q hq => by simp [h p hp, h q hq]).isChain

theorem isOptionalGroup_of_required {ps : List Parameter} (hne : ps ≠ [])
    (h : ∀ p ∈ ps, p.optional = false) : isOptionalGroup ps = false := by
  obtain ⟨p, hp⟩ := List.exists_mem_of_ne_nil ps hne
  exact List.all_eq_false.2 ⟨p, hp, by simp [h p hp]⟩

section

variable {before run after ps : List Parameter}

/-- Required parameters at the end, or in front of an optional one, are a group of their own. -/
theorem groups_required_append {rest : List Parameter}
    (hbefore : ∀ p ∈ before, p.optional = false) (hrest : ∀ q ∈ rest.head?, q.optional = true) :
    groups (before ++ rest) = groups before ++ groups rest := by
  refine groups_append fun p hp q hq => ?_
  rw [hbefore p (List.mem_of_getLast? hp), hrest q hq]
  exact Bool.false_ne_true

/-- The first optional run is a group, with a group behind it. -/
theorem groups_of_splitRun? (h : splitRun? ps = some ⟨before, run, after⟩) :
    groups ps = groups before ++ run :: groups after ∧ groups after ≠ [] := by
  obtain ⟨hbefore, hrun, p, rest, hafter, hp⟩ := parts_of_splitRun? h
  obtain ⟨hps, hne⟩ := splitRun_eq_some h
  have hhead : ∀ q ∈ (run ++ after).head?, q.optional = true := by
    intro q hq
    rw [List.head?_append_of_ne_nil _ hne] at hq
    exact hrun q (List.mem_of_head? hq)
  have hbehind : groups (run ++ after) = groups run ++ groups after := by
    refine groups_append fun q hq r hr => ?_
    obtain rfl : p = r := by simpa [hafter] using hr
    rw [hrun q (List.mem_of_getLast? hq), hp]
    exact Bool.false_ne_true.symm
  refine ⟨?_, fun hnil => by simp [groups_eq_nil.1 hnil] at hafter⟩
  rw [hps, groups_required_append hbefore hhead, hbehind, groups_of_uniform hne hrun,
    List.singleton_append]

/-- A list without optional runs is made of required parameters and optional ones behind them. -/
theorem parts_of_no_run (h : splitRun? ps = none) :
    ∃ required optional, ps = required ++ optional ∧ (∀ p ∈ required, p.optional = false) ∧
      ∀ p ∈ optional, p.optional = true :=
  ⟨ps.takeWhile (!·.optional), ps.dropWhile (!·.optional), List.takeWhile_append_dropWhile.symm,
    fun p hp => by simpa using List.mem_takeWhile_imp hp, optional_of_mem_dropWhile h⟩

/-! ## Optional runs -/

/-- Groups of required parameters are no optional runs. -/
theorem filter_groups_of_required (hbefore : ∀ p ∈ before, p.optional = false) :
    (groups before).filter isOptionalGroup = [] := by
  by_cases hne : before = []
  · rw [hne]
    rfl
  · rw [groups_of_uniform hne hbefore, List.filter_cons_of_neg
      (by simp [isOptionalGroup_of_required hne hbefore])]
    rfl

theorem optionalRuns_of_none (h : splitRun? ps = none) : optionalRuns ps = [] := by
  obtain ⟨required, optional, rfl, hrequired, hoptional⟩ := parts_of_no_run h
  rw [optionalRuns, groups_required_append hrequired fun q hq => hoptional q (List.mem_of_head? hq)]
  by_cases hne : optional = []
  · rw [hne]
    refine List.eq_nil_of_sublist_nil ?_
    rw [groups_eq_nil.2 rfl, List.append_nil, ← filter_groups_of_required hrequired]
    exact (List.dropLast_sublist _).filter _
  · rw [groups_of_uniform hne hoptional, List.dropLast_concat]
    exact filter_groups_of_required hrequired

theorem optionalRuns_of_some (h : splitRun? ps = some ⟨before, run, after⟩) :
    optionalRuns ps = run :: optionalRuns after := by
  obtain ⟨hbefore, hrun, -⟩ := parts_of_splitRun? h
  obtain ⟨hgroups, hne⟩ := groups_of_splitRun? h
  have hoptional : isOptionalGroup run = true := List.all_eq_true.2 hrun
  rw [optionalRuns, hgroups, List.dropLast_append_of_ne_nil (List.cons_ne_nil _ _),
    List.dropLast_cons_of_ne_nil hne, List.filter_append, filter_groups_of_required hbefore,
    List.nil_append, List.filter_cons_of_pos hoptional]
  rfl

theorem hasLongRun_of_some (h : splitRun? ps = some ⟨before, run, after⟩) :
    hasLongRun ps = (decide (3 ≤ run.length) || hasLongRun after) := by
  rw [hasLongRun, optionalRuns_of_some h, List.any_cons]
  rfl

/-! ## Combinations -/

/-- Required parameters in front stay there in every combination. -/
theorem product_groups_required (hbefore : ∀ p ∈ before, p.optional = false)
    (rest : List (List Parameter)) :
    product (choices (groups before ++ rest)) = (product (choices rest)).map (before ++ ·) := by
  by_cases hne : before = []
  · rw [hne]
    exact (List.map_id _).symm
  · rw [groups_of_uniform hne hbefore]
    cases rest with
    | nil => simp [choices, product]
    | cons group rest =>
      have hgroup := isOptionalGroup_of_required hne hbefore
      rw [List.singleton_append, choices, if_neg (by simp [hgroup]), product,
        List.flatMap_singleton]

/-- A list without optional runs is its only combination. -/
theorem combinations_of_none (h : splitRun? ps = none) : combinations ps = [ps] := by
  obtain ⟨required, optional, rfl, hrequired, hoptional⟩ := parts_of_no_run h
  rw [combinations,
    groups_required_append hrequired fun q hq => hoptional q (List.mem_of_head? hq),
    product_groups_required hrequired]
  by_cases hne : optional = []
  · rw [hne]
    rfl
  · rw [groups_of_uniform hne hoptional]
    simp [choices, product]

/-- The choices for the first optional run, each one in front of all combinations of the rest. -/
theorem combinations_of_some (h : splitRun? ps = some ⟨before, run, after⟩) :
    combinations ps = (runChoices run).flatMap fun chosen =>
      (combinations after).map (before ++ chosen ++ ·) := by
  obtain ⟨hbefore, hrun, -⟩ := parts_of_splitRun? h
  obtain ⟨hgroups, hne⟩ := groups_of_splitRun? h
  obtain ⟨group, rest, hcons⟩ := List.exists_cons_of_ne_nil hne
  have hoptional : isOptionalGroup run = true := List.all_eq_true.2 hrun
  rw [combinations, combinations, hgroups, product_groups_required hbefore, hcons, choices,
    if_pos hoptional, product, List.map_flatMap]
  simp only [List.map_map, Function.comp_def, List.append_assoc]

end

/-! ## The expansion -/

/-- Only the members of a run of two are merged, and only where they cannot stand for each other. -/
theorem mem_mergedChoices {run chosen : List Parameter} :
    chosen ∈ mergedChoices run ↔
      ∃ p q, run = [p, q] ∧ p.canBeElidedFor q = false ∧ chosen = [p.merge q] := by
  unfold mergedChoices
  split
  · rename_i p q
    by_cases hstands : p.canBeElidedFor q = true <;> simp [hstands]
  · rename_i hother
    refine iff_of_false List.not_mem_nil ?_
    rintro ⟨p, q, hrun, -⟩
    exact hother p q hrun

/-- What stands for an optional run is required. -/
theorem required_of_mem_runChoices {run chosen : List Parameter} (h : chosen ∈ runChoices run) :
    ∀ p ∈ chosen, p.optional = false := by
  have hmembers : ∀ p ∈ run.map Parameter.required, p.optional = false := by
    intro p hp
    obtain ⟨q, -, rfl⟩ := List.mem_map.1 hp
    rfl
  rcases List.mem_cons.1 h with rfl | h
  · exact hmembers
  · rcases List.mem_cons.1 h with rfl | h
    · exact List.forall_mem_nil _
    · obtain ⟨p, q, -, -, rfl⟩ := mem_mergedChoices.1 h
      exact List.forall_mem_singleton.2 (p.optional_merge q)

/-- The expansion makes every combination once, behind required parameters in front.  It goes
through the list again for every choice, but these required parameters hold no run, and so the first
run it finds is the next one. -/
theorem expand_append (rest : List Parameter) : ∀ front, (∀ p ∈ front, p.optional = false) →
    expand (front ++ rest) = .ok ⟨(combinations rest).map (front ++ ·), hasLongRun rest⟩ := by
  induction rest using run_induction with
  | last rest h =>
    intro front hfront
    rw [expand_of_none (splitRun?_append_of_none hfront h), combinations_of_none h, hasLongRun,
      optionalRuns_of_none h]
    rfl
  | run rest parts h ih =>
    obtain ⟨before, run, after⟩ := parts
    intro front hfront
    have hne := (splitRun_eq_some h).2
    -- whatever is chosen for the run is required, like all that stands in front of it
    have hchosen : ∀ chosen ∈ runChoices run, expand (front ++ before ++ chosen ++ after)
        = .ok ⟨(combinations after).map (front ++ before ++ chosen ++ ·), hasLongRun after⟩ := by
      intro chosen hmem
      have hbefore := List.forall_mem_append.2 ⟨hfront, (parts_of_splitRun? h).1⟩
      exact ih _ (List.forall_mem_append.2 ⟨hbefore, required_of_mem_runChoices hmem⟩)
    have hrequired := hchosen _ List.mem_cons_self
    have hwithout := hchosen [] (List.mem_cons_of_mem _ List.mem_cons_self)
    have hjoined : (combinations rest).map (front ++ ·) = (runChoices run).flatMap fun chosen =>
        (combinations after).map (front ++ before ++ chosen ++ ·) := by
      rw [combinations_of_some h, List.map_flatMap]
      simp only [List.map_map, Function.comp_def, List.append_assoc]
    rw [expand_of_some (splitRun?_append_of_some hfront h) hrequired hwithout, hjoined,
      hasLongRun_of_some h]
    -- the cases follow the length of the run, as in `joinRun` and `mergedChoices`
    match run, hne with
    | [p], _ => simp [joinRun, runChoices, mergedChoices, Synthesis.append]
    | [p, q], _ =>
      by_cases hstands : p.canBeElidedFor q = true
      · simp [joinRun, runChoices, mergedChoices, Synthesis.append, hstands]
      · have hmerged := hchosen [p.merge q] (by simp [runChoices, mergedChoices, hstands])
        rw [joinRun, if_neg hstands, hmerged]
        simp [runChoices, mergedChoices, Synthesis.append, hstands, Except.map]
    | p :: q :: r :: run, _ => simp [joinRun, runChoices, mergedChoices, Synthesis.append]

/-- The expansion of a list makes every combination of the list once. -/
theorem synthesize_eq (ps : List Parameter) :
    synthesize ps = .ok ⟨combinations ps, hasLongRun ps⟩ := by
  have hexpand := expand_append ps [] (List.forall_mem_nil _)
  rw [List.nil_append] at hexpand
  rw [synthesize, hexpand]
  exact congrArg (fun sigs => Except.ok (Synthesis.mk sigs _)) (List.map_id _)

/-! ## Optional parameters in a combination -/

/-- Required parameters may be put in front. -/
theorem OptionalsLast.append {required ps : List Parameter}
    (hrequired : ∀ p ∈ required, p.optional = false) (h : OptionalsLast ps) :
    OptionalsLast (required ++ ps) := by
  refine List.pairwise_append.2 ⟨?_, h, fun p hp _ _ hopt => ?_⟩
  · exact List.pairwise_of_forall_mem_list fun p hp _ _ hopt =>
      absurd hopt (by simp [hrequired p hp])
  · exact absurd hopt (by simp [hrequired p hp])

/-- No combination has an optional parameter in front of a required one. -/
theorem optionalsLast_of_mem_combinations (ps : List Parameter) :
    ∀ sig ∈ combinations ps, OptionalsLast sig := by
  induction ps using run_induction with
  | last ps h =>
    rw [combinations_of_none h]
    exact List.forall_mem_singleton.2 (optionalsLast_of_splitRun? h)
  | run ps parts h ih =>
    obtain ⟨before, run, after⟩ := parts
    obtain ⟨hbefore, -⟩ := parts_of_splitRun? h
    intro sig hsig
    rw [combinations_of_some h] at hsig
    obtain ⟨chosen, hchosen, hmem⟩ := List.mem_flatMap.1 hsig
    obtain ⟨tail, htail, rfl⟩ := List.mem_map.1 hmem
    exact (ih tail htail).append
      (List.forall_mem_append.2 ⟨hbefore, required_of_mem_runChoices hchosen⟩)

/-! ## Members of a combination -/

section

variable {P : Parameter → Prop} (hrequired : ∀ p, P p → P p.required)
  (hmerge : ∀ p q, P p → P q → P (p.merge q))

include hrequired hmerge

/-- What stands for an optional run has every property of its members that required copies and
merged parameters keep. -/
theorem forall_mem_of_mem_runChoices {run : List Parameter} (h : ∀ p ∈ run, P p) :
    ∀ chosen ∈ runChoices run, ∀ p ∈ chosen, P p := by
  intro chosen hchosen
  rcases List.mem_cons.1 hchosen with rfl | hchosen
  · exact List.forall_mem_map.2 fun p hp => hrequired p (h p hp)
  · rcases List.mem_cons.1 hchosen with rfl | hchosen
    · exact List.forall_mem_nil _
    · obtain ⟨p, q, rfl, -, rfl⟩ := mem_mergedChoices.1 hchosen
      obtain ⟨hp, hq⟩ := List.forall_mem_cons.1 h
      exact List.forall_mem_singleton.2 (hmerge p q hp (hq q List.mem_cons_self))

/-- The members of a combination have every property of the parameters that required copies and
merged parameters keep. -/
theorem forall_mem_of_mem_combinations {ps : List Parameter} (h : ∀ p ∈ ps, P p) :
    ∀ sig ∈ combinations ps, ∀ p ∈ sig, P p := by
  induction ps using run_induction with
  | last ps hnone =>
    rw [combinations_of_none hnone]
    exact List.forall_mem_singleton.2 h
  | run ps parts hsome ih =>
    obtain ⟨before, run, after⟩ := parts
    rw [(splitRun_eq_some hsome).1, List.forall_mem_append, List.forall_mem_append] at h
    intro sig hsig
    rw [combinations_of_some hsome] at hsig
    obtain ⟨chosen, hchosen, hmem⟩ := List.mem_flatMap.1 hsig
    obtain ⟨tail, htail, rfl⟩ := List.mem_map.1 hmem
    exact List.forall_mem_append.2
      ⟨List.forall_mem_append.2
        ⟨h.1, forall_mem_of_mem_runChoices hrequired hmerge h.2.1 chosen hchosen⟩,
      ih h.2.2 tail htail⟩

end

/-- The first combination has all parameters of the list, alike in all that required copies keep. -/
theorem exists_first_combination {α : Type} (f : Parameter → α)
    (hrequired : ∀ p : Parameter, f p.required = f p) (ps : List Parameter) :
    ∃ first others, combinations ps = first :: others ∧ first.map f = ps.map f := by
  induction ps using run_induction with
  | last ps hnone => exact ⟨ps, [], combinations_of_none hnone, rfl⟩
  | run ps s hsome ih =>
    obtain ⟨before, run, after⟩ := s
    obtain ⟨first, others, hfirst, halike⟩ := ih
    refine ⟨before ++ run.map Parameter.required ++ first, _, by
      rw [combinations_of_some hsome, hfirst, runChoices, List.flatMap_cons, List.map_cons,
        List.cons_append], ?_⟩
    rw [(splitRun_eq_some hsome).1]
    simp only [List.map_append, List.map_map, halike, List.append_assoc, Function.comp_def,
      hrequired]

/-! ## Signatures -/

/-- **Signatures as a product.**  Every list of parameters has signatures: all ways to choose for
its optional runs, the choice for the first run changing last, and in none of them an optional
parameter stands in front of a required one.  The catch-all overload is asked for exactly when some
run has three members or more. -/
theorem synthesize_eq_combinations (ps : List Parameter) :
    ∃ s, synthesize ps = .ok s ∧ s.signatures = combinations ps ∧
      (s.needsCatchAll = true ↔ ∃ run ∈ optionalRuns ps, 3 ≤ run.length) ∧
      ∀ sig ∈ s.signatures, OptionalsLast sig := by
  refine ⟨_, synthesize_eq ps, rfl, ?_, optionalsLast_of_mem_combinations ps⟩
  simp [hasLongRun]

example :
    let object (name : String) (optional : Bool) : Parameter :=
      ⟨name, .named "object", optional, false, "", "x.C.attachEvent"⟩
    (combinations [object "oData" true, object "fnFunction" false, object "oListener" true,
        object "sExtra" false]).map (·.map (·.name))
      = [["oData", "fnFunction", "oListener", "sExtra"], ["oData", "fnFunction", "sExtra"],
          ["fnFunction", "oListener", "sExtra"], ["fnFunction", "sExtra"]] := by
  decide

end Signature

end ApiTypings
