/-
# Call signatures

TypeScript wants optional parameters behind required ones; documentation puts them anywhere.  A
documented parameter list is expanded into signatures that respect the rule and allow the same
calls.

An optional run is a run of optional parameters with a required one behind it.  The first run of a
list is made required, then left out; two members that cannot stand for each other are also merged
to one parameter.  Each list that this makes is expanded again, from its beginning.  A longer run is
not expanded further, and the method needs a catch-all overload.

* `splitRun_eq_some` : the parts of a list around its first optional run make up the list;
* `countP_optional_lt` : what takes the place of a run leaves fewer optional parameters.
-/
import ApiTypings.Parameter

namespace ApiTypings

/-- The expansion of one parameter list. -/
structure Synthesis where
  /-- The signatures, in order of emission. -/
  signatures : List (List Parameter)
  /-- Whether a run was too long to be expanded completely. -/
  needsCatchAll : Bool
  deriving Inhabited

/-- Two expansions, one after the other. -/
def Synthesis.append (a b : Synthesis) : Synthesis :=
  ⟨a.signatures ++ b.signatures, a.needsCatchAll || b.needsCatchAll⟩

namespace Signature

/-! ## The first optional run -/

/-- The parts of a parameter list: required parameters, the first optional run, and the rest,
which begins with a required parameter. -/
structure RunSplit where
  before : List Parameter
  run : List Parameter
  after : List Parameter

/-- The list with other parameters in place of the run. -/
def RunSplit.splice (s : RunSplit) (placed : List Parameter) : List Parameter :=
  s.before ++ placed ++ s.after

/-- The parts of a list around its first optional run, if it has such a run. -/
def splitRun? (ps : List Parameter) : Option RunSplit :=
  let before := ps.takeWhile (!·.optional)
  let rest := ps.dropWhile (!·.optional)
  let run := rest.takeWhile (·.optional)
  let after := rest.dropWhile (·.optional)
  if run.isEmpty || after.isEmpty then none else some ⟨before, run, after⟩

/-- The parts of a list around its first optional run make up the list. -/
theorem splitRun_eq_some {ps : List Parameter} {s : RunSplit} (h : splitRun? ps = some s) :
    ps = s.before ++ (s.run ++ s.after) ∧ s.run ≠ [] := by
  simp only [splitRun?] at h
  split at h
  · simp at h
  · rename_i hne
    obtain rfl := Option.some.inj h
    simp only [List.takeWhile_append_dropWhile, true_and]
    intro hr
    simp [hr] at hne

theorem optional_of_mem_run {ps : List Parameter} {s : RunSplit} (h : splitRun? ps = some s)
    {p : Parameter} (hp : p ∈ s.run) : p.optional = true := by
  simp only [splitRun?] at h
  split at h
  · simp at h
  · obtain rfl := Option.some.inj h
    exact List.all_eq_true.1 List.all_takeWhile p hp

/-! ## Expansion -/

/-- With required parameters in place of its first optional run a list has fewer optional ones. -/
theorem countP_optional_lt {ps placed : List Parameter} {s : RunSplit} (h : splitRun? ps = some s)
    (hplaced : placed.countP (·.optional) = 0) :
    (s.splice placed).countP (·.optional) < ps.countP (·.optional) := by
  obtain ⟨hps, hne⟩ := splitRun_eq_some h
  have hrun : s.run.countP (·.optional) = s.run.length :=
    List.countP_eq_length.2 fun p hp => optional_of_mem_run h hp
  have hpos := List.length_pos_iff.2 hne
  rw [RunSplit.splice, hps]
  simp only [List.countP_append, hplaced, hrun]
  omega

/-- Required copies are required. -/
theorem countP_optional_of_mapM {run forced : List Parameter}
    (h : run.mapM Parameter.asRequired = .ok forced) : forced.countP (·.optional) = 0 := by
  induction run generalizing forced with
  | nil =>
    obtain rfl : [] = forced := by simpa [pure, Except.pure] using h
    rfl
  | cons p run ih =>
    rw [List.mapM_cons, Parameter.asRequired] at h
    by_cases hp : p.optional = true
    · cases hrest : run.mapM Parameter.asRequired with
      | error e => simp [hp, hrest, bind, Except.bind] at h
      | ok rest =>
        obtain rfl : { p with optional := false } :: rest = forced := by
          simpa [hp, hrest, bind, Except.bind, pure, Except.pure] using h
        rw [List.countP_cons_of_neg (by simp), ih hrest]
    · simp [hp, bind, Except.bind] at h

/-- The expansion of a list: the list as it is, or the expansions of what its first optional run
may be replaced by. -/
def expand (ps : List Parameter) : Except GenerationError Synthesis :=
  match _h : splitRun? ps with
  | none => .ok ⟨[ps], false⟩
  | some s =>
    match _hforced : s.run.mapM Parameter.asRequired with
    | .error e => .error e
    | .ok forced => do
      let a ← expand (s.splice forced)
      let b ← expand (s.splice [])
      match s.run with
      | [_] => return a.append b
      | [first, second] =>
        if first.canBeElidedFor second then
          return a.append b
        else
          let c ← expand (s.splice [first.merge second])
          return (a.append b).append c
      | _ => return { a.append b with needsCatchAll := true }
termination_by ps.countP (·.optional)
decreasing_by
  · exact countP_optional_lt _h (countP_optional_of_mapM _hforced)
  · exact countP_optional_lt _h rfl
  · exact countP_optional_lt _h rfl

/-- The signatures of a documented parameter list. -/
def synthesize (ps : List Parameter) : Except GenerationError Synthesis := expand ps

/-! ## Trailing optional parameters -/

/-- The optional parameters at the end of a list. -/
def trailingOptionals (ps : List Parameter) : List Parameter :=
  (ps.reverse.takeWhile (·.optional)).reverse

/-- The neighbours among parameters of which the later cannot stand for the earlier. -/
def notElidable : List Parameter → List (Parameter × Parameter)
  | p :: q :: ps =>
    if p.canBeElidedFor q then notElidable (q :: ps) else (p, q) :: notElidable (q :: ps)
  | _ => []

end Signature

end ApiTypings
