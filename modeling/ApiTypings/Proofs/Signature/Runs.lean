/-
# Optional runs

What the parts of a parameter list around its first optional run are, and what an expansion is when
the run has one member, two members or more.

* `optionalsLast_of_splitRun?` : a list without such a run has its optional parameters at the end;
* `run_induction` : recursion from one optional run to the next;
* `splitRun?_append` : required parameters in front leave the first optional run;
* `expand_of_some` : the expansion by the length of the run.
-/
import ApiTypings.Proofs.Outcome
import ApiTypings.Signature
import Mathlib.Data.List.TakeWhile

namespace ApiTypings

/-- The parameter, required. -/
def Parameter.required (p : Parameter) : Parameter := { p with optional := false }

namespace Signature

/-! ## Parts of a list -/

/-- Behind an optional parameter there are only optional ones. -/
def OptionalsLast (ps : List Parameter) : Prop :=
  ps.Pairwise fun p q => p.optional = true → q.optional = true

/-- A predicate fails at the head of what is left when all that satisfies it is dropped. -/
theorem head_dropWhile {α : Type} {f : α → Bool} {as rest : List α} {a : α}
    (h : as.dropWhile f = a :: rest) : f a = false := by
  have hhead := List.head?_dropWhile_not f as
  rw [h] at hhead
  exact hhead

/-- Without a first optional run all that stands behind the required parameters is optional. -/
theorem optional_of_mem_dropWhile {ps : List Parameter} (h : splitRun? ps = none) :
    ∀ p ∈ ps.dropWhile (!·.optional), p.optional = true := by
  have hparts := List.takeWhile_append_dropWhile (p := fun p : Parameter => p.optional)
    (l := ps.dropWhile (!·.optional))
  cases hrun : (ps.dropWhile (!·.optional)).takeWhile (·.optional) with
  | nil =>
    -- what comes first behind the required parameters is optional
    cases hdrop : ps.dropWhile (!·.optional) with
    | nil => exact fun _ hp => absurd hp List.not_mem_nil
    | cons p rest =>
      have hp : p.optional = true := by simpa using head_dropWhile hdrop
      rw [hdrop, List.takeWhile_cons_of_pos hp] at hrun
      exact absurd hrun (by simp)
  | cons q run =>
    have hafter : (ps.dropWhile (!·.optional)).dropWhile (·.optional) = [] := by
      simpa [splitRun?, hrun] using h
    rw [hafter, List.append_nil] at hparts
    intro p hp
    rw [← hparts] at hp
    exact List.mem_takeWhile_imp hp

/-- A list without a first optional run has its optional parameters at the end. -/
theorem optionalsLast_of_splitRun? {ps : List Parameter} (h : splitRun? ps = none) :
    OptionalsLast ps := by
  have hbefore : ∀ p ∈ ps.takeWhile (!·.optional), p.optional = false := fun p hp => by
    simpa using List.mem_takeWhile_imp hp
  have hrest := optional_of_mem_dropWhile h
  rw [OptionalsLast, ← List.takeWhile_append_dropWhile (p := fun p : Parameter => !p.optional)
    (l := ps), List.pairwise_append]
  refine ⟨?_, ?_, fun _ _ q hq _ => hrest q hq⟩
  · exact List.pairwise_of_forall_mem_list fun p hp _ _ hopt =>
      absurd hopt (by simp [hbefore p hp])
  · exact List.pairwise_of_forall_mem_list fun _ _ q hq _ => hrest q hq

/-- The parts of a list around its first optional run: required parameters, optional ones, and the
rest with a required one in front. -/
theorem parts_of_splitRun? {ps before run after : List Parameter}
    (h : splitRun? ps = some ⟨before, run, after⟩) :
    (∀ p ∈ before, p.optional = false) ∧ (∀ p ∈ run, p.optional = true) ∧
      ∃ p rest, after = p :: rest ∧ p.optional = false := by
  simp only [splitRun?] at h
  split at h
  · simp at h
  · rename_i hne
    obtain ⟨rfl, rfl, rfl⟩ := RunSplit.mk.inj (Option.some.inj h)
    refine ⟨fun p hp => ?_, fun p hp => List.mem_takeWhile_imp hp, ?_⟩
    · simpa using List.mem_takeWhile_imp hp
    · cases hafter : (ps.dropWhile (!·.optional)).dropWhile (·.optional) with
      | nil => simp [hafter] at hne
      | cons p rest => exact ⟨p, rest, rfl, head_dropWhile hafter⟩

/-- The rest behind the first optional run is shorter than the list. -/
theorem length_after_lt {ps : List Parameter} {s : RunSplit} (h : splitRun? ps = some s) :
    s.after.length < ps.length := by
  obtain ⟨hps, hrun⟩ := splitRun_eq_some h
  have h1 := congrArg List.length hps
  have h2 := List.length_pos_iff.2 hrun
  simp at h1
  omega

/-- What is passed from the rest behind the first optional run to the list holds of every list. -/
theorem run_induction {P : List Parameter → Prop} (last : ∀ ps, splitRun? ps = none → P ps)
    (run : ∀ ps s, splitRun? ps = some s → P s.after → P ps) (ps : List Parameter) : P ps := by
  induction hlen : ps.length using Nat.strongRecOn generalizing ps with
  | ind n ih =>
    cases hsplit : splitRun? ps with
    | none => exact last ps hsplit
    | some s => exact run ps s hsplit (ih _ (hlen ▸ length_after_lt hsplit) s.after rfl)

/-! ## Expansion by the length of the run -/

section

variable {front rest before run after ps : List Parameter}

/-- Required parameters in front leave the first optional run, with more in front of it. -/
theorem splitRun?_append (hfront : ∀ p ∈ front, p.optional = false) (rest : List Parameter) :
    splitRun? (front ++ rest)
      = (splitRun? rest).map fun s => ⟨front ++ s.before, s.run, s.after⟩ := by
  have hpos : ∀ p ∈ front, (!p.optional) = true := fun p hp => by simp [hfront p hp]
  simp only [splitRun?, List.takeWhile_append_of_pos hpos, List.dropWhile_append_of_pos hpos]
  split <;> rfl

theorem splitRun?_append_of_none (hfront : ∀ p ∈ front, p.optional = false)
    (h : splitRun? rest = none) : splitRun? (front ++ rest) = none := by
  rw [splitRun?_append hfront, h]
  rfl

theorem splitRun?_append_of_some (hfront : ∀ p ∈ front, p.optional = false)
    (h : splitRun? rest = some ⟨before, run, after⟩) :
    splitRun? (front ++ rest) = some ⟨front ++ before, run, after⟩ := by
  rw [splitRun?_append hfront, h]
  rfl

theorem expand_of_none (h : splitRun? ps = none) : expand ps = .ok ⟨[ps], false⟩ := by
  rw [expand]
  split
  · rfl
  · rename_i hsome
    rw [h] at hsome
    exact absurd hsome (by simp)

/-- The members of an optional run have required copies. -/
theorem mapM_asRequired (h : ∀ p ∈ run, p.optional = true) :
    run.mapM Parameter.asRequired = .ok (run.map Parameter.required) := by
  rw [mapM_eq_ok, List.forall₂_map_right_iff, List.forall₂_same]
  exact fun p hp => Parameter.asRequired_ok (h p hp)

/-- The expansion around an optional run: the expansions with the run required and with the run left
out, and with two members merged where these cannot stand for each other. -/
def joinRun (run : List Parameter) (required without : Synthesis)
    (merged : Parameter → Except GenerationError Synthesis) : Except GenerationError Synthesis :=
  match run with
  | [_] => .ok (required.append without)
  | [first, second] =>
    if first.canBeElidedFor second then .ok (required.append without)
    else (merged (first.merge second)).map (required.append without).append
  | _ => .ok { required.append without with needsCatchAll := true }

theorem expand_of_some {required without : Synthesis}
    (h : splitRun? ps = some ⟨before, run, after⟩)
    (hrequired : expand (before ++ run.map Parameter.required ++ after) = .ok required)
    (hwithout : expand (before ++ [] ++ after) = .ok without) :
    expand ps = joinRun run required without fun m => expand (before ++ [m] ++ after) := by
  have hmap := mapM_asRequired (parts_of_splitRun? h).2.1
  rw [expand]
  split
  · rename_i hnone
    rw [h] at hnone
    exact absurd hnone (by simp)
  · rename_i s hsome
    obtain rfl := Option.some.inj (h.symm.trans hsome)
    split
    · rename_i herror
      rw [hmap] at herror
      exact absurd herror (by simp)
    · rename_i forced hforced
      obtain rfl := Except.ok.inj (hmap.symm.trans hforced)
      simp only [RunSplit.splice, hrequired, hwithout, bind, Except.bind, pure, Except.pure]
      rcases run with _ | ⟨_, _ | ⟨_, _ | ⟨_, _⟩⟩⟩ <;> rfl

end

end Signature

end ApiTypings
