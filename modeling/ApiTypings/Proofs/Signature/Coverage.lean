/-
# Signatures cover calls

A call passes values for some parameters of a documented list.  Optional parameters with a required
one behind may be left out in any combination, those at the end of the list from some point on.  The
signatures of the list accept the passed parameters of every such call, or the method has a
catch-all overload.

One kind of call is left uncovered on purpose.  Where the second member of an optional run of two
can stand for the first one, no signature is made for the calls that pass exactly one of them.

* `accepts_of_optionalsLast` : a list with its optional parameters at the end accepts its calls;
* `covers_whole_run` : calls that pass all of an optional run, or nothing of it;
* `expand_covers` : one optional run after the other;
* `covers_calls` : the signatures of a list cover its calls.
-/
import ApiTypings.Proofs.Signature.Runs

namespace ApiTypings

namespace Signature

/-! ## Calls -/

/-- A documented parameter in a call, and whether a value is passed for it. -/
structure Slot where
  parameter : Parameter
  passed : Bool

/-- The documented parameters of a call. -/
def documented (call : List Slot) : List Parameter := call.map (·.parameter)

/-- The parameters for which a call passes values. -/
def passed (call : List Slot) : List Parameter := documented (call.filter (·.passed))

/-- A call leaves out optional parameters only, and one of those at the end of the list only with
all that stand behind it. -/
def IsCall (call : List Slot) : Prop :=
  ∀ before s after, call = before ++ s :: after → s.passed = false →
    s.parameter.optional = true ∧
      ((∃ t ∈ after, t.parameter.optional = false) ∨ ∀ t ∈ after, t.passed = false)

/-- A call passes exactly one member of an optional run of two, where the second one can stand for
the first one. -/
def SplitsPair (call : List Slot) : Prop :=
  ∃ before first second next after, call = before ++ first :: second :: next :: after ∧
    (∀ s ∈ before.getLast?, s.parameter.optional = false) ∧
    first.parameter.optional = true ∧ second.parameter.optional = true ∧
    next.parameter.optional = false ∧
    first.parameter.canBeElidedFor second.parameter = true ∧ first.passed ≠ second.passed

theorem IsCall.of_append {before after : List Slot} (h : IsCall (before ++ after)) :
    IsCall after := by
  intro x s y hsplit
  rw [hsplit, ← List.append_assoc] at h
  exact h _ s y rfl

theorem isCall_cons {s : Slot} {call : List Slot} :
    IsCall (s :: call) ↔
      (s.passed = false → s.parameter.optional = true ∧
        ((∃ t ∈ call, t.parameter.optional = false) ∨ ∀ t ∈ call, t.passed = false)) ∧
      IsCall call := by
  constructor
  · exact fun h => ⟨h [] s call rfl, @IsCall.of_append [s] call h⟩
  · rintro ⟨hs, hcall⟩ before t after hsplit
    rcases List.cons_eq_append_iff.1 hsplit with ⟨rfl, heq⟩ | ⟨rest, rfl, heq⟩
    · obtain ⟨rfl, rfl⟩ := List.cons.inj heq
      exact hs
    · exact hcall rest t after heq

instance decidableIsCall : ∀ call, Decidable (IsCall call)
  | [] => isTrue fun _ _ _ hsplit => absurd hsplit (by simp)
  | _ :: call =>
    have := decidableIsCall call
    decidable_of_iff _ isCall_cons.symm

/-- A required parameter is passed. -/
theorem IsCall.passed_of_required {call : List Slot} (h : IsCall call) {s : Slot} (hs : s ∈ call)
    (hrequired : s.parameter.optional = false) : s.passed = true := by
  obtain ⟨before, after, rfl⟩ := List.append_of_mem hs
  by_contra hpassed
  have hoptional := (h before s after rfl (by simpa using hpassed)).1
  rw [hrequired] at hoptional
  exact Bool.false_ne_true hoptional

theorem passed_append (a b : List Slot) : passed (a ++ b) = passed a ++ passed b := by
  rw [passed, passed, passed, documented, List.filter_append, List.map_append]
  rfl

theorem passed_of_all {call : List Slot} (h : ∀ s ∈ call, s.passed = true) :
    passed call = documented call := by
  rw [passed, List.filter_eq_self.2 h]

theorem passed_of_none {call : List Slot} (h : ∀ s ∈ call, s.passed = false) :
    passed call = [] := by
  rw [passed, List.filter_eq_nil_iff.2 fun s hs => by simp [h s hs]]
  rfl

/-! ## Accepted parameters -/

/-- A parameter of a signature takes all values of another parameter. -/
def Takes (p q : Parameter) : Prop :=
  p.types.isAny = true ∨ ∀ key ∈ q.types.keys, p.types.contains key = true

instance (p q : Parameter) : Decidable (Takes p q) := inferInstanceAs (Decidable (_ ∨ _))

/-- A signature accepts some parameters: one after the other in its first places, and all that
stands behind them is optional. -/
def Accepts (sig kept : List Parameter) : Prop :=
  ∃ front behind, sig = front ++ behind ∧ List.Forall₂ Takes front kept ∧
    ∀ p ∈ behind, p.optional = true

theorem Takes.of_keys_subset {p q : Parameter} (h : q.types.keys ⊆ p.types.keys) : Takes p q :=
  Or.inr fun _ hkey => List.contains_iff_mem.2 (h hkey)

theorem Takes.refl (p : Parameter) : Takes p p := .of_keys_subset (List.Subset.refl _)

/-- A required copy takes what the parameter takes. -/
theorem takes_required (p : Parameter) : Takes p.required p := .of_keys_subset (List.Subset.refl _)

/-- A merged parameter takes what either of the two takes. -/
theorem takes_merge (p q : Parameter) : Takes (p.merge q) p ∧ Takes (p.merge q) q :=
  ⟨.of_keys_subset fun _ hkey => Parameter.mem_keys_merge.2 (Or.inl hkey),
    .of_keys_subset fun _ hkey => Parameter.mem_keys_merge.2 (Or.inr hkey)⟩

theorem forall₂_takes_refl (ps : List Parameter) : List.Forall₂ Takes ps ps :=
  List.forall₂_same.2 fun p _ => .refl p

theorem forall₂_takes_required (ps : List Parameter) :
    List.Forall₂ Takes (ps.map Parameter.required) ps :=
  List.forall₂_map_left_iff.2 (List.forall₂_same.2 fun p _ => takes_required p)

theorem accepts_nil {sig : List Parameter} : Accepts sig [] ↔ ∀ p ∈ sig, p.optional = true := by
  constructor
  · rintro ⟨front, behind, rfl, hfront, hbehind⟩
    rw [List.forall₂_nil_right_iff.1 hfront]
    exact hbehind
  · exact fun h => ⟨[], sig, rfl, .nil, h⟩

theorem accepts_cons {p q : Parameter} {sig kept : List Parameter} :
    Accepts (p :: sig) (q :: kept) ↔ Takes p q ∧ Accepts sig kept := by
  constructor
  · rintro ⟨front, behind, hsig, hfront, hbehind⟩
    obtain ⟨p', front', hp, hfront', rfl⟩ := List.forall₂_cons_right_iff.1 hfront
    obtain ⟨rfl, rfl⟩ := List.cons.inj hsig
    exact ⟨hp, front', behind, rfl, hfront', hbehind⟩
  · rintro ⟨hp, front, behind, rfl, hfront, hbehind⟩
    exact ⟨p :: front, behind, rfl, .cons hp hfront, hbehind⟩

theorem not_accepts_of_length_lt {sig kept : List Parameter} (h : sig.length < kept.length) :
    ¬ Accepts sig kept := by
  rintro ⟨front, behind, rfl, hfront, -⟩
  rw [List.length_append, hfront.length_eq] at h
  omega

/-- Accepted parameters stay accepted behind others that are taken one by one. -/
theorem Accepts.append {front frontKept sig kept : List Parameter}
    (hfront : List.Forall₂ Takes front frontKept) (h : Accepts sig kept) :
    Accepts (front ++ sig) (frontKept ++ kept) := by
  obtain ⟨x, behind, rfl, hx, hbehind⟩ := h
  exact ⟨front ++ x, behind, (List.append_assoc ..).symm, List.rel_append hfront hx, hbehind⟩

end Signature

/-- Some signature accepts the parameters, or the method has a catch-all overload. -/
def Synthesis.Covers (s : Synthesis) (kept : List Parameter) : Prop :=
  s.needsCatchAll = true ∨ ∃ sig ∈ s.signatures, Signature.Accepts sig kept

theorem Synthesis.Covers.append_left {a : Synthesis} {kept : List Parameter} (h : a.Covers kept)
    (b : Synthesis) : (a.append b).Covers kept := by
  rcases h with h | ⟨sig, hsig, hkept⟩
  · exact Or.inl (by simp [append, h])
  · exact Or.inr ⟨sig, List.mem_append_left _ hsig, hkept⟩

theorem Synthesis.Covers.append_right {b : Synthesis} {kept : List Parameter} (h : b.Covers kept)
    (a : Synthesis) : (a.append b).Covers kept := by
  rcases h with h | ⟨sig, hsig, hkept⟩
  · exact Or.inl (by simp [append, h])
  · exact Or.inr ⟨sig, List.mem_append_right _ hsig, hkept⟩

namespace Signature

/-! ## Lists without optional runs -/

/-- A list with its optional parameters at the end accepts its calls. -/
theorem accepts_of_optionalsLast {call : List Slot} (hcall : IsCall call)
    (hlast : OptionalsLast (documented call)) : Accepts (documented call) (passed call) := by
  induction call with
  | nil => exact accepts_nil.2 fun _ hp => absurd hp List.not_mem_nil
  | cons s call ih =>
    rw [documented, List.map_cons, OptionalsLast, List.pairwise_cons] at hlast
    cases hs : s.passed with
    | true =>
      have hpassed : passed (s :: call) = s.parameter :: passed call := by
        rw [← List.singleton_append, passed_append, passed_of_all (by simpa using hs)]
        rfl
      rw [hpassed]
      exact accepts_cons.2 ⟨.refl _, ih (isCall_cons.1 hcall).2 hlast.2⟩
    | false =>
      -- nothing behind the first left out parameter is required, so nothing is passed
      obtain ⟨hoptional, hbehind⟩ := hcall [] s call rfl hs
      have hall : ∀ p ∈ documented call, p.optional = true := fun p hp => hlast.1 p hp hoptional
      have hnone : ∀ t ∈ call, t.passed = false := by
        rcases hbehind with ⟨t, ht, hrequired⟩ | hnone
        · exact absurd (hall _ (List.mem_map_of_mem ht)) (by simp [hrequired])
        · exact hnone
      rw [passed_of_none (List.forall_mem_cons.2 ⟨hs, hnone⟩)]
      exact accepts_nil.2 (List.forall_mem_cons.2 ⟨hoptional, hall⟩)

/-! ## Optional runs -/

/-- An expansion behind the parameters `front` covers the calls of the list `rest`, with anything
in front that `front` takes, unless they split a pair. -/
def CoversCalls (s : Synthesis) (front rest : List Parameter) : Prop :=
  ∀ frontKept call, List.Forall₂ Takes front frontKept → documented call = rest → IsCall call →
    s.Covers (frontKept ++ passed call) ∨ SplitsPair call

/-- A pair that is split behind a required parameter is split in the whole call. -/
theorem SplitsPair.append {after : List Slot} (h : SplitsPair after)
    (hhead : ∃ s rest, after = s :: rest ∧ s.parameter.optional = false) (front : List Slot) :
    SplitsPair (front ++ after) := by
  obtain ⟨before, first, second, next, behind, rfl, hlast, hfirst, hpair⟩ := h
  have hne : before ≠ [] := by
    rintro rfl
    obtain ⟨s, rest, heq, hs⟩ := hhead
    obtain ⟨rfl, -⟩ := List.cons.inj heq
    rw [hfirst] at hs
    exact Bool.false_ne_true hs.symm
  refine ⟨front ++ before, first, second, next, behind, (List.append_assoc ..).symm, ?_, hfirst,
    hpair⟩
  rwa [List.getLast?_append_of_ne_nil _ hne]

/-- A call around the first optional run of its parameters. -/
structure RunCall (before run after : List Parameter) (call : List Slot) where
  /-- The slots of the required parameters in front of the run. -/
  front : List Slot
  /-- The slots of the run. -/
  middle : List Slot
  /-- The slots behind the run. -/
  behind : List Slot
  call_eq : call = front ++ (middle ++ behind)
  documented_front : documented front = before
  documented_middle : documented middle = run
  documented_behind : documented behind = after

theorem exists_runCall {before run after : List Parameter} {call : List Slot}
    (h : documented call = before ++ (run ++ after)) :
    Nonempty (RunCall before run after call) := by
  obtain ⟨front, rest, rfl, hfront, hrest⟩ := List.map_eq_append_iff.1 h
  obtain ⟨middle, behind, rfl, hmiddle, hbehind⟩ := List.map_eq_append_iff.1 hrest
  exact ⟨⟨front, middle, behind, rfl, hfront, hmiddle, hbehind⟩⟩

section

variable {rest before run after front frontKept : List Parameter} {call : List Slot}

/-- An expansion whose front takes what a call passes up to the end of an optional run covers the
call. -/
theorem CoversCalls.covers_run {s : Synthesis} {chosen : List Parameter}
    (h : CoversCalls s (front ++ before ++ chosen) after)
    (hsplit : splitRun? rest = some ⟨before, run, after⟩) (c : RunCall before run after call)
    (hcall : IsCall call) (hfront : List.Forall₂ Takes front frontKept)
    (hchosen : List.Forall₂ Takes chosen (passed c.middle)) :
    s.Covers (frontKept ++ passed call) ∨ SplitsPair call := by
  obtain ⟨x, y, z, rfl, rfl, rfl, rfl⟩ := c
  obtain ⟨hbefore, -, p, ps, hafter, hp⟩ := parts_of_splitRun? hsplit
  have hx : passed x = documented x := passed_of_all fun s hs =>
    hcall.passed_of_required (List.mem_append_left _ hs) (hbefore _ (List.mem_map_of_mem hs))
  have htaken : List.Forall₂ Takes (front ++ documented x ++ chosen)
      (frontKept ++ documented x ++ passed y) :=
    List.rel_append (List.rel_append hfront (forall₂_takes_refl _)) hchosen
  have hkept : frontKept ++ passed (x ++ (y ++ z))
      = frontKept ++ documented x ++ passed y ++ passed z := by
    rw [passed_append, passed_append, hx, List.append_assoc, List.append_assoc]
  rw [hkept]
  refine (h _ z htaken rfl hcall.of_append.of_append).imp id fun hsplits => ?_
  -- the part behind begins with a required parameter, so a pair in it stays behind a required one
  rw [← List.append_assoc]
  refine hsplits.append ?_ (x ++ y)
  obtain ⟨s, slots, rfl, rfl, -⟩ := List.map_eq_cons_iff.1 hafter
  exact ⟨s, slots, rfl, hp⟩

/-- The expansions with a run required and with the run left out cover the calls that pass all of
the run or nothing of it. -/
theorem covers_whole_run {a b : Synthesis}
    (ha : CoversCalls a (front ++ before ++ run.map Parameter.required) after)
    (hb : CoversCalls b (front ++ before) after)
    (hsplit : splitRun? rest = some ⟨before, run, after⟩) (c : RunCall before run after call)
    (hcall : IsCall call) (hfront : List.Forall₂ Takes front frontKept)
    (hwhole : (∀ s ∈ c.middle, s.passed = true) ∨ ∀ s ∈ c.middle, s.passed = false) :
    (a.append b).Covers (frontKept ++ passed call) ∨ SplitsPair call := by
  rcases hwhole with hall | hnone
  · have hchosen : List.Forall₂ Takes (run.map Parameter.required) (passed c.middle) := by
      rw [passed_of_all hall, c.documented_middle]
      exact forall₂_takes_required run
    exact (ha.covers_run hsplit c hcall hfront hchosen).imp (·.append_left b) id
  · have hchosen : List.Forall₂ Takes [] (passed c.middle) := by
      rw [passed_of_none hnone]
      exact .nil
    rw [← List.append_nil (front ++ before)] at hb
    exact (hb.covers_run hsplit c hcall hfront hchosen).imp (·.append_right a) id

/-- Of an optional run of one member a call passes all or nothing. -/
theorem RunCall.whole_of_one {p : Parameter} (c : RunCall before [p] after call) :
    (∀ s ∈ c.middle, s.passed = true) ∨ ∀ s ∈ c.middle, s.passed = false := by
  obtain ⟨s, hmiddle, -⟩ := List.map_eq_singleton_iff.1 c.documented_middle
  rw [hmiddle, List.forall_mem_singleton, List.forall_mem_singleton]
  cases s.passed
  · exact Or.inr rfl
  · exact Or.inl rfl

/-- Of an optional run of two members a call passes all, nothing, or exactly one of them. -/
theorem RunCall.whole_or_one_of_two {p q : Parameter} (c : RunCall before [p, q] after call) :
    ((∀ s ∈ c.middle, s.passed = true) ∨ ∀ s ∈ c.middle, s.passed = false) ∨
      ∃ s t, c.middle = [s, t] ∧ s.passed ≠ t.passed := by
  obtain ⟨s, rest, hmiddle, -, hrest⟩ := List.map_eq_cons_iff.1 c.documented_middle
  obtain ⟨t, rfl, -⟩ := List.map_eq_singleton_iff.1 hrest
  rw [hmiddle]
  cases hs : s.passed <;> cases ht : t.passed
  · exact Or.inl (Or.inr (by simp [hs, ht]))
  · exact Or.inr ⟨s, t, rfl, by simp [hs, ht]⟩
  · exact Or.inr ⟨s, t, rfl, by simp [hs, ht]⟩
  · exact Or.inl (Or.inl (by simp [hs, ht]))

/-- A merged parameter takes what a call passes that passes exactly one of the two. -/
theorem RunCall.forall₂_takes_merge {p q : Parameter} (c : RunCall before [p, q] after call)
    {s t : Slot} (hmiddle : c.middle = [s, t]) (hne : s.passed ≠ t.passed) :
    List.Forall₂ Takes [p.merge q] (passed c.middle) := by
  have hpair := c.documented_middle
  rw [hmiddle] at hpair ⊢
  obtain ⟨rfl, rfl⟩ : s.parameter = p ∧ t.parameter = q := by simpa [documented] using hpair
  obtain ⟨hfirst, hsecond⟩ := takes_merge s.parameter t.parameter
  cases hs : s.passed <;> cases ht : t.passed
  · exact absurd (hs.trans ht.symm) hne
  · simpa [passed, documented, hs, ht] using hsecond
  · simpa [passed, documented, hs, ht] using hfirst
  · exact absurd (hs.trans ht.symm) hne

/-- A call that passes exactly one member of an optional run of two splits the pair, if the second
member can stand for the first one. -/
theorem RunCall.splitsPair {p q : Parameter} (c : RunCall before [p, q] after call)
    (hsplit : splitRun? rest = some ⟨before, [p, q], after⟩) (hstands : p.canBeElidedFor q = true)
    {s t : Slot} (hmiddle : c.middle = [s, t]) (hne : s.passed ≠ t.passed) : SplitsPair call := by
  obtain ⟨x, y, z, rfl, rfl, hpair, rfl⟩ := c
  obtain rfl : y = [s, t] := hmiddle
  obtain ⟨hbefore, hrun, r, rs, hafter, hr⟩ := parts_of_splitRun? hsplit
  obtain ⟨rfl, rfl⟩ : s.parameter = p ∧ t.parameter = q := by simpa [documented] using hpair
  obtain ⟨next, behind, rfl, rfl, -⟩ := List.map_eq_cons_iff.1 hafter
  exact ⟨x, s, t, next, behind, rfl,
    fun u hu => hbefore _ (List.mem_map_of_mem (List.mem_of_getLast? hu)),
    hrun _ (by simp), hrun _ (by simp), hr, hstands, hne⟩

/-- The expansion around a run of one member. -/
theorem coversCalls_of_one {p : Parameter} {a b : Synthesis}
    (ha : CoversCalls a (front ++ before ++ [p].map Parameter.required) after)
    (hb : CoversCalls b (front ++ before) after)
    (hsplit : splitRun? rest = some ⟨before, [p], after⟩) :
    CoversCalls (a.append b) front rest := by
  intro frontKept call hfront hdoc hcall
  obtain ⟨c⟩ := exists_runCall (hdoc.trans (splitRun_eq_some hsplit).1)
  exact covers_whole_run ha hb hsplit c hcall hfront c.whole_of_one

/-- The expansion around a run of two members of which the second can stand for the first. -/
theorem coversCalls_of_standing {p q : Parameter} {a b : Synthesis}
    (ha : CoversCalls a (front ++ before ++ [p, q].map Parameter.required) after)
    (hb : CoversCalls b (front ++ before) after)
    (hsplit : splitRun? rest = some ⟨before, [p, q], after⟩) (hstands : p.canBeElidedFor q = true) :
    CoversCalls (a.append b) front rest := by
  intro frontKept call hfront hdoc hcall
  obtain ⟨c⟩ := exists_runCall (hdoc.trans (splitRun_eq_some hsplit).1)
  rcases c.whole_or_one_of_two with hwhole | ⟨s, t, hmiddle, hne⟩
  · exact covers_whole_run ha hb hsplit c hcall hfront hwhole
  · exact Or.inr (c.splitsPair hsplit hstands hmiddle hne)

/-- The expansion around a run of two members, with the merged one. -/
theorem coversCalls_of_merged {p q : Parameter} {a b m : Synthesis}
    (ha : CoversCalls a (front ++ before ++ [p, q].map Parameter.required) after)
    (hb : CoversCalls b (front ++ before) after)
    (hm : CoversCalls m (front ++ before ++ [p.merge q]) after)
    (hsplit : splitRun? rest = some ⟨before, [p, q], after⟩) :
    CoversCalls ((a.append b).append m) front rest := by
  intro frontKept call hfront hdoc hcall
  obtain ⟨c⟩ := exists_runCall (hdoc.trans (splitRun_eq_some hsplit).1)
  rcases c.whole_or_one_of_two with hwhole | ⟨s, t, hmiddle, hne⟩
  · exact (covers_whole_run ha hb hsplit c hcall hfront hwhole).imp (·.append_left m) id
  · exact (hm.covers_run hsplit c hcall hfront (c.forall₂_takes_merge hmiddle hne)).imp
      (·.append_right (a.append b)) id

end

/-! ## Coverage -/

/-- Behind required parameters every list is expanded, and the expansion covers its calls. -/
theorem expand_covers (rest : List Parameter) : ∀ front, (∀ p ∈ front, p.optional = false) →
    ∃ s, expand (front ++ rest) = .ok s ∧ CoversCalls s front rest := by
  induction rest using run_induction with
  | last rest hsplit =>
    intro front hfront
    refine ⟨_, expand_of_none (splitRun?_append_of_none hfront hsplit), ?_⟩
    intro frontKept call htaken hdoc hcall
    subst hdoc
    exact Or.inl (Or.inr ⟨_, List.mem_singleton_self _,
      (accepts_of_optionalsLast hcall (optionalsLast_of_splitRun? hsplit)).append htaken⟩)
  | run rest parts hsplit ih =>
    obtain ⟨before, run, after⟩ := parts
    intro front hfront
    -- what takes the place of the run is required, so that the rest may be expanded behind it
    have hexpand : ∀ chosen : List Parameter, (∀ p ∈ chosen, p.optional = false) →
        ∃ s, expand (front ++ before ++ chosen ++ after) = .ok s ∧
          CoversCalls s (front ++ before ++ chosen) after := by
      intro chosen hchosen
      have hbefore := List.forall_mem_append.2 ⟨hfront, (parts_of_splitRun? hsplit).1⟩
      exact ih _ (List.forall_mem_append.2 ⟨hbefore, hchosen⟩)
    obtain ⟨a, ha, hrequired⟩ :=
      hexpand (run.map Parameter.required) (List.forall_mem_map.2 fun _ _ => rfl)
    obtain ⟨b, hb, hwithout⟩ := hexpand [] (List.forall_mem_nil _)
    rw [expand_of_some (splitRun?_append_of_some hfront hsplit) ha hb]
    rw [List.append_nil] at hwithout
    -- the cases follow the length of the run, as in `joinRun`
    match run, hsplit, hrequired with
    | [], _, _ => exact ⟨_, rfl, fun _ _ _ _ _ => Or.inl (Or.inl rfl)⟩
    | [p], hsplit, hrequired => exact ⟨_, rfl, coversCalls_of_one hrequired hwithout hsplit⟩
    | [p, q], hsplit, hrequired =>
      by_cases hstands : p.canBeElidedFor q = true
      · exact ⟨_, if_pos hstands, coversCalls_of_standing hrequired hwithout hsplit hstands⟩
      · obtain ⟨m, hm, hmerged⟩ :=
          hexpand [p.merge q] (List.forall_mem_singleton.2 (p.optional_merge q))
        refine ⟨_, ?_, coversCalls_of_merged hrequired hwithout hmerged hsplit⟩
        rw [joinRun, if_neg hstands, hm]
        rfl
    | _ :: _ :: _ :: _, _, _ => exact ⟨_, rfl, fun _ _ _ _ _ => Or.inl (Or.inl rfl)⟩

/-- **Coverage.**  The signatures of a list of parameters accept the passed parameters of every call
that splits no pair, or the method has a catch-all overload. -/
theorem covers_calls {call : List Slot} (hcall : IsCall call) :
    ∃ s, synthesize (documented call) = .ok s ∧ (s.Covers (passed call) ∨ SplitsPair call) := by
  obtain ⟨s, hs, hcovers⟩ := expand_covers (documented call) [] (List.forall_mem_nil _)
  exact ⟨s, hs, hcovers [] call .nil rfl hcall⟩

/-! ## Two calls -/

/-- A slot for a parameter of one plain type. -/
def plainSlot (name type : String) (optional passed : Bool) : Slot where
  parameter := ⟨name, .named type, optional, false, "", "x.C.m"⟩
  passed := passed

/-- The call of an event method without the data in front and the listener in the middle. -/
def attachCall : List Slot :=
  [plainSlot "oData" "object" true false, plainSlot "fnFunction" "Function" false true,
    plainSlot "oListener" "object" true false, plainSlot "sExtra" "string" false true]

/-- The call that passes the first one of two strings, and the number behind them. -/
def splitCall : List Slot :=
  [plainSlot "a" "string" true true, plainSlot "b" "string" true false,
    plainSlot "c" "int" false true]

theorem covers_attachCall :
    IsCall attachCall ∧ ∃ s, synthesize (documented attachCall) = .ok s ∧
      (s.Covers (passed attachCall) ∨ SplitsPair attachCall) :=
  ⟨by decide, covers_calls (by decide)⟩

/-- A call that splits a pair may be left uncovered. -/
theorem not_covers_splitCall :
    IsCall splitCall ∧ ∃ s, synthesize (documented splitCall) = .ok s ∧
      ¬ s.Covers (passed splitCall) := by
  have hsynthesize : synthesize (documented splitCall)
      = .ok ⟨[(documented splitCall).map Parameter.required, (documented splitCall).drop 2],
        false⟩ := by
    have hsplit : splitRun? (documented splitCall)
        = some ⟨[], (documented splitCall).take 2, (documented splitCall).drop 2⟩ := rfl
    have hlast : splitRun? ((documented splitCall).drop 2) = none := by decide +kernel
    rw [synthesize, expand_of_some hsplit (expand_of_none hlast) (expand_of_none hlast)]
    rfl
  refine ⟨by decide, _, hsynthesize, ?_⟩
  rintro (hcatchAll | ⟨sig, hsig, haccepts⟩)
  · exact Bool.false_ne_true hcatchAll
  · rcases List.mem_pair.1 hsig with rfl | rfl
    · -- the second place of the long signature takes a string
      have htakes := (accepts_cons.1 (accepts_cons.1 haccepts).2).1
      exact absurd htakes (by decide +kernel)
    · exact not_accepts_of_length_lt (by decide) haccepts

end Signature

end ApiTypings
