/-
# Symbols in the order of their names

A level of the forest is made from symbols in the order of their names.  Such a list is known by the
symbols of each name, so it does not matter how symbols of different names were mixed before.  The
names that begin with a dotted name stand next to each other in it, though not right behind that
name: `x$.B` stands between `x` and `x.A`.

* `sortedByName_congr` : mixing the symbols of different names in another way changes nothing;
* `sortedByName_insert` : one more name has a place of its own;
* `Dotted.between_of_begins` : where the names of two siblings stand.
-/
import ApiTypings.Proofs.Forest.Places

namespace ApiTypings

/-! ## Sorted symbols -/

/-- Two lists have the same symbols of each name, in the same order: one of them is the other one
with symbols of different names mixed in another way. -/
def SameByName (as bs : List Symbol) : Prop :=
  ∀ name, as.filter (·.name == name) = bs.filter (·.name == name)

/-- Symbols without a common name may change places. -/
theorem sameByName_append_comm {as bs : List Symbol}
    (h : ∀ a ∈ as, ∀ b ∈ bs, a.name ≠ b.name) : SameByName (as ++ bs) (bs ++ as) := by
  intro name
  rw [List.filter_append, List.filter_append]
  by_cases hname : ∃ a ∈ as, a.name = name
  · obtain ⟨a, ha, rfl⟩ := hname
    rw [Forest.filter_name_eq_nil fun b hb => (h a ha b hb).symm, List.append_nil,
      List.nil_append]
  · rw [Forest.filter_name_eq_nil fun a ha heq => hname ⟨a, ha, heq⟩, List.append_nil,
      List.nil_append]

namespace SameByName

variable {as bs : List Symbol}

theorem symm (h : SameByName as bs) : SameByName bs as := fun name => (h name).symm

theorem trans {cs : List Symbol} (h : SameByName as bs) (h' : SameByName bs cs) :
    SameByName as cs := fun name => (h name).trans (h' name)

theorem mem_iff (h : SameByName as bs) {s : Symbol} : s ∈ as ↔ s ∈ bs := by
  have hmem := congrArg (s ∈ ·) (h s.name)
  simpa using hmem

/-- In the order of names a list is known by the symbols of each name. -/
theorem eq_of_sorted (h : SameByName as bs) (has : as.Pairwise fun a b => a.name ≤ b.name)
    (hbs : bs.Pairwise fun a b => a.name ≤ b.name) : as = bs := by
  induction as generalizing bs with
  | nil =>
    symm
    rw [List.eq_nil_iff_forall_not_mem]
    exact fun s hs => absurd (h.mem_iff.2 hs) List.not_mem_nil
  | cons a as ih =>
    cases bs with
    | nil => exact absurd (h.mem_iff.1 List.mem_cons_self) List.not_mem_nil
    | cons b bs =>
      rw [List.pairwise_cons] at has hbs
      have hle : a.name ≤ b.name := by
        rcases List.mem_cons.1 (h.mem_iff.2 List.mem_cons_self) with rfl | hb
        · exact String.le_refl _
        · exact has.1 b hb
      have hge : b.name ≤ a.name := by
        rcases List.mem_cons.1 (h.mem_iff.1 List.mem_cons_self) with rfl | ha
        · exact String.le_refl _
        · exact hbs.1 a ha
      have hname := String.le_antisymm hle hge
      -- both heads are the first symbol of their name
      have hfirst := h a.name
      rw [List.filter_cons_of_pos (by simp), List.filter_cons_of_pos (by simp [hname])] at hfirst
      obtain rfl := (List.cons.inj hfirst).1
      refine congrArg (a :: ·) (ih (fun name => ?_) has.2 hbs.2)
      have hrest := h name
      rw [List.filter_cons, List.filter_cons] at hrest
      split at hrest
      · exact (List.cons.inj hrest).2
      · exact hrest

end SameByName

namespace Forest

theorem pairwise_sortedByName (symbols : List Symbol) :
    (sortedByName symbols).Pairwise fun a b => a.name ≤ b.name :=
  Text.pairwise_mergeSort_key Symbol.name symbols

/-- Sorting keeps the symbols of each name, in their order. -/
theorem sameByName_sortedByName (symbols : List Symbol) :
    SameByName (sortedByName symbols) symbols := fun name => filter_sortedByName name symbols

/-- What has the same symbols of each name, and is in the order of names, is the sorted list. -/
theorem sortedByName_eq {as symbols : List Symbol} (h : SameByName as symbols)
    (has : as.Pairwise fun a b => a.name ≤ b.name) : sortedByName symbols = as :=
  ((sameByName_sortedByName symbols).trans h.symm).eq_of_sorted (pairwise_sortedByName symbols) has

/-- How symbols of different names are mixed does not matter. -/
theorem sortedByName_congr {as bs : List Symbol} (h : SameByName as bs) :
    sortedByName as = sortedByName bs :=
  sortedByName_eq ((sameByName_sortedByName bs).trans h.symm) (pairwise_sortedByName bs)

end Forest

/-- The same symbols of each name are the same symbols. -/
theorem SameByName.perm {as bs : List Symbol} (h : SameByName as bs) : as.Perm bs := by
  have hsorted : (Forest.sortedByName as).Perm as := List.mergeSort_perm _ _
  rw [Forest.sortedByName_congr h] at hsorted
  exact hsorted.symm.trans (List.mergeSort_perm _ _)

namespace Forest

/-- One more symbol, of a name that no other symbol has, has its place between the symbols with
smaller and those with larger names. -/
theorem sortedByName_insert {s : Symbol} {xs ys : List Symbol}
    (hnone : ∀ t ∈ xs ++ ys, t.name ≠ s.name) :
    ∃ before behind, sortedByName (xs ++ s :: ys) = before ++ s :: behind ∧
      sortedByName (xs ++ ys) = before ++ behind ∧
      (∀ a ∈ before, a.name < s.name) ∧ ∀ b ∈ behind, s.name < b.name := by
  have hmem : s ∈ sortedByName (xs ++ s :: ys) := List.mem_mergeSort.2 (by simp)
  obtain ⟨before, behind, hsplit⟩ := List.append_of_mem hmem
  have hsorted := pairwise_sortedByName (xs ++ s :: ys)
  rw [hsplit, List.pairwise_append, List.pairwise_cons] at hsorted
  obtain ⟨hbefore, ⟨hbehind, hrest⟩, hcross⟩ := hsorted
  have hperm : (before ++ behind).Perm (xs ++ ys) := by
    have hall : (before ++ s :: behind).Perm (xs ++ s :: ys) :=
      hsplit ▸ List.mergeSort_perm _ _
    exact (List.perm_middle.symm.trans (hall.trans List.perm_middle)).cons_inv
  have hne : ∀ t ∈ before ++ behind, t.name ≠ s.name := fun t ht => hnone t (hperm.subset ht)
  have hsame : SameByName (before ++ behind) (xs ++ ys) := by
    intro name
    have hname := sameByName_sortedByName (xs ++ s :: ys) name
    rw [hsplit, List.filter_append, List.filter_append, List.filter_cons, List.filter_cons] at hname
    rw [List.filter_append, List.filter_append]
    by_cases heq : s.name = name
    · subst heq
      rw [← List.filter_append, ← List.filter_append, filter_name_eq_nil hne,
        filter_name_eq_nil hnone]
    · rwa [if_neg (by simpa using heq), if_neg (by simpa using heq)] at hname
  refine ⟨before, behind, hsplit, sortedByName_eq hsame ?_, fun a ha => ?_, fun b hb => ?_⟩
  · exact List.pairwise_append.2 ⟨hbefore, hrest, fun a ha b hb =>
      hcross a ha b (List.mem_cons_of_mem _ hb)⟩
  · exact Std.lt_of_le_of_ne (hcross a ha s List.mem_cons_self)
      (hne a (List.mem_append_left _ ha))
  · exact Std.lt_of_le_of_ne (hbehind b hb) (hne b (List.mem_append_right _ hb)).symm

end Forest

/-! ## Names that begin alike -/

namespace Dotted

variable {p q name : String}

theorem eq_or_beginsWith_dot (h : Begins p name) :
    name = p ∨ Text.beginsWith (p ++ ".") name = true := by
  obtain ⟨behind, hname⟩ := h
  cases behind with
  | nil => exact .inl (segments_inj.1 (by rw [← hname, List.append_nil]))
  | cons seg behind => exact .inr (beginsWith_dot_iff.2 ⟨seg, behind, hname.symm⟩)

theorem beginsWith_of_begins (h : Begins p name) : Text.beginsWith p name = true := by
  rcases eq_or_beginsWith_dot h with rfl | h
  · exact Text.beginsWith_refl name
  · obtain ⟨rest, rfl⟩ := Text.beginsWith_iff.1 h
    rw [String.append_assoc]
    exact Text.beginsWith_append p _

/-- A name comes before those that begin with it. -/
theorem le_of_begins (h : Begins p name) : p ≤ name :=
  Text.le_of_beginsWith (beginsWith_of_begins h)

/-- A name does not go on behind a dot and another one of as many segments. -/
theorem not_beginsWith_dot (h : (segments p).length = (segments q).length) :
    ¬ Text.beginsWith (p ++ ".") q = true := by
  intro hbegins
  obtain ⟨seg, behind, hq⟩ := beginsWith_dot_iff.1 hbegins
  rw [hq, List.length_append, List.length_cons] at h
  omega

/-- A sibling `q` of `p` stands between `p` and `p` with a dot when some name that begins with `q`
comes behind `p` and no later than a name that goes on behind `p` and a dot. -/
theorem between_of_begins {other : String} (hlength : (segments p).length = (segments q).length)
    (hne : p ≠ q) (hq : Begins q name) (hp : p < name) (hle : name ≤ other)
    (hother : Text.beginsWith (p ++ ".") other = true) : p < q ∧ q < p ++ "." := by
  have hpother : Text.beginsWith p other = true := by
    obtain ⟨rest, rfl⟩ := Text.beginsWith_iff.1 hother
    rw [String.append_assoc]
    exact Text.beginsWith_append p _
  have hpname : Text.beginsWith p name = true :=
    Text.beginsWith_of_between (Text.beginsWith_refl p) hpother (Std.le_of_lt hp) hle
  constructor
  · rcases eq_or_beginsWith_dot hq with rfl | hdot
    · exact hp
    · -- the name begins with `p` and with `q` and a dot, and the longer one of them is the latter
      rcases Text.beginsWith_or_beginsWith hpname hdot with hpq | hqp
      · rcases Text.eq_or_beginsWith_of_push (c := '.') hpq with heq | hpq
        · exact absurd (heq ▸ Text.beginsWith_refl p) (not_beginsWith_dot hlength.symm)
        · exact Std.lt_of_le_of_ne (Text.le_of_beginsWith hpq) hne
      · exact absurd hqp (not_beginsWith_dot hlength.symm)
  · rw [← String.not_le]
    intro hge
    exact not_beginsWith_dot hlength (Text.beginsWith_of_between (Text.beginsWith_refl _) hother hge
      (String.le_trans (le_of_begins hq) hle))

/-- What begins with a name between `p` and `p` with a dot stands between them as well. -/
theorem between_of_between (hq : Begins q name) (hpq : p < q) (hlt : q < p ++ ".") :
    p < name ∧ name < p ++ "." := by
  refine ⟨Std.lt_of_lt_of_le hpq (le_of_begins hq), ?_⟩
  rw [← String.not_le]
  intro hge
  have hbegins : Text.beginsWith q (p ++ ".") = true :=
    Text.beginsWith_of_between (Text.beginsWith_refl q) (beginsWith_of_begins hq)
      (Std.le_of_lt hlt) hge
  rcases Text.eq_or_beginsWith_of_push (c := '.') hbegins with rfl | hqp
  · exact String.lt_irrefl _ hlt
  · exact String.not_le.2 hpq (Text.le_of_beginsWith hqp)

end Dotted

end ApiTypings
