/-
# Lists without repetitions

Erasing repetitions keeps the first occurrence of each member, so the order that is left is that of
the first occurrences.

* `nodup_eraseDups`, `sublist_eraseDups` : what is left has no repetitions, and keeps its order;
* `eraseDups_filterMap` : repetitions may be erased before members are chosen;
* `eraseDups_insert` : what one more occurrence changes.
-/
import Mathlib.Data.List.Nodup

namespace ApiTypings.Distinct

section

variable {α : Type} [BEq α]

/-- What is left of a list keeps its order. -/
theorem sublist_eraseDups (as : List α) : as.eraseDups.Sublist as := by
  induction hlen : as.length using Nat.strongRecOn generalizing as with
  | ind n ih =>
    cases as with
    | nil => simp
    | cons a as =>
      rw [List.eraseDups_cons]
      have hshorter : (as.filter fun b => !b == a).length < n := by
        rw [← hlen, List.length_cons, Nat.lt_succ_iff]
        exact List.length_filter_le _ as
      exact ((ih _ hshorter _ rfl).trans List.filter_sublist).cons_cons a

end

section

variable {α β : Type} [BEq α] [LawfulBEq α] [BEq β] [LawfulBEq β]

/-- Erasing repetitions leaves none. -/
theorem nodup_eraseDups (as : List α) : as.eraseDups.Nodup := by
  induction hlen : as.length using Nat.strongRecOn generalizing as with
  | ind n ih =>
    cases as with
    | nil => simp
    | cons a as =>
      rw [List.eraseDups_cons, List.nodup_cons]
      refine ⟨by simp [List.mem_eraseDups], ih _ ?_ _ rfl⟩
      rw [← hlen, List.length_cons, Nat.lt_succ_iff]
      exact List.length_filter_le _ as

theorem eraseDups_of_nodup {as : List α} (h : as.Nodup) : as.eraseDups = as := by
  induction as with
  | nil => rfl
  | cons a as ih =>
    rw [List.nodup_cons] at h
    have hfilter : (as.filter fun b => !b == a) = as :=
      List.filter_eq_self.2 fun b hb => by
        have hne : b ≠ a := fun heq => h.1 (heq ▸ hb)
        simpa using hne
    rw [List.eraseDups_cons, hfilter, ih h.2]

/-- What is chosen of a list comes in the same order, each one once, when repetitions are erased
before. -/
theorem eraseDups_filterMap (f : α → Option β) (as : List α) :
    (as.filterMap f).eraseDups = (as.eraseDups.filterMap f).eraseDups := by
  induction hlen : as.length using Nat.strongRecOn generalizing as f with
  | ind n ih =>
    cases as with
    | nil => rfl
    | cons a as =>
      have hshorter : (as.filter fun x => !x == a).length < n := by
        rw [← hlen, List.length_cons, Nat.lt_succ_iff]
        exact List.length_filter_le _ as
      -- a choice that leaves out `a` may be made after the other occurrences of `a` are gone
      have hskip : ∀ g : α → Option β, g a = none →
          (as.filterMap g).eraseDups
            = ((as.filter fun x => !x == a).eraseDups.filterMap g).eraseDups := by
        intro g hg
        rw [← ih _ hshorter g _ rfl, List.filterMap_filter]
        refine congrArg List.eraseDups (List.filterMap_congr fun x _ => ?_)
        by_cases hx : x = a
        · simp [hx, hg]
        · simp [hx]
      rw [List.eraseDups_cons, List.filterMap_cons, List.filterMap_cons]
      cases hfa : f a with
      | none => exact hskip f hfa
      | some b =>
        simp only [List.eraseDups_cons, List.filter_filterMap]
        rw [hskip _ (by simp [hfa])]

/-- Repetitions may be erased before or after some members are left out. -/
theorem eraseDups_filter (p : α → Bool) (as : List α) :
    (as.filter p).eraseDups = as.eraseDups.filter p := by
  have hguard := eraseDups_filterMap (Option.guard p) as
  rw [List.filterMap_eq_filter] at hguard
  rw [hguard, eraseDups_of_nodup ((nodup_eraseDups as).filter p)]

/-! ## One more occurrence -/

theorem removeAll_cons {a : α} {as : List α} (h : a ∉ as) (bs : List α) :
    (a :: bs).removeAll as = a :: bs.removeAll as := by
  rw [List.removeAll, List.filter_cons_of_pos (by simpa using h)]
  rfl

/-- One more occurrence behind the first one, or right before it, changes nothing. -/
theorem eraseDups_insert_of_mem {a : α} {as bs : List α} (h : a ∈ as ∨ bs.head? = some a) :
    (as ++ a :: bs).eraseDups = (as ++ bs).eraseDups := by
  by_cases ha : a ∈ as
  · have hskip : (a :: bs).removeAll as = bs.removeAll as :=
      List.filter_cons_of_neg (by simpa using ha)
    rw [List.eraseDups_append, List.eraseDups_append, hskip]
  · obtain ⟨bs, rfl⟩ := List.head?_eq_some_iff.1 (h.resolve_left ha)
    rw [List.eraseDups_append, List.eraseDups_append, removeAll_cons ha, removeAll_cons ha,
      List.eraseDups_cons, List.eraseDups_cons, List.filter_cons_of_neg (by simp)]

/-- A new first occurrence moves its member ahead of what stood between it and the next one. -/
theorem eraseDups_insert {a : α} {as bs : List α} (has : a ∉ as) (hbs : a ∈ bs) :
    ∃ passed behind, (as ++ bs).eraseDups = as.eraseDups ++ (passed ++ a :: behind) ∧
      (as ++ a :: bs).eraseDups = as.eraseDups ++ a :: (passed ++ behind) := by
  have hmem : a ∈ (bs.removeAll as).eraseDups := by
    rw [List.mem_eraseDups, List.removeAll, List.mem_filter]
    exact ⟨hbs, by simpa using has⟩
  obtain ⟨passed, behind, hsplit⟩ := List.append_of_mem hmem
  refine ⟨passed, behind, by rw [List.eraseDups_append, hsplit], ?_⟩
  have hnodup := nodup_eraseDups (bs.removeAll as)
  rw [hsplit, List.nodup_middle, List.nodup_cons] at hnodup
  have hothers : (passed ++ a :: behind).filter (fun b => !b == a) = passed ++ behind := by
    rw [List.filter_append, List.filter_cons_of_neg (by simp), ← List.filter_append]
    refine List.filter_eq_self.2 fun b hb => ?_
    have hne : b ≠ a := fun heq => hnodup.1 (heq ▸ hb)
    simpa using hne
  rw [List.eraseDups_append, removeAll_cons has, List.eraseDups_cons, eraseDups_filter, hsplit,
    hothers]

end

end ApiTypings.Distinct
