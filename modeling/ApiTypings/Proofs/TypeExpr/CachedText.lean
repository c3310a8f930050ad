/-
# Kept texts are never stale

A set that is made by reading, joining, copying, writing and adding `any`, in any order, has each
member under its spelling and no spelling twice, and a text that it keeps is the text of its
members.  So a set that keeps its text is a type set, and the operations are those of type sets.

Spellings between separators are known from the text, so two such sets are the same exactly when
their texts are.

* `terms_foldl_enter` : entering terms one after the other keeps the first of every spelling;
* `coherent_set` : the invariant of all sets that are made;
* `view_set` : they are type sets, made by the operations of type sets;
* `text_never_stale` : texts are those of the members, and sets are compared by their texts.
-/
import ApiTypings.Proofs.Text.Order
import ApiTypings.Proofs.TypeExpr.Spelling
import ApiTypings.TypeExpr.Cached

namespace ApiTypings

namespace CachedSet

/-! ## Entering terms -/

/-- Every member of a table stands under its spelling. -/
def Keyed (members : List (String × TypeTerm)) : Prop := ∀ m ∈ members, m.1 = m.2.render

theorem Keyed.keys_eq {members : List (String × TypeTerm)} (h : Keyed members) :
    members.map (·.1) = (members.map (·.2)).map TypeTerm.render := by
  rw [List.map_map]
  exact List.map_congr_left h

theorem Keyed.append {members : List (String × TypeTerm)} (h : Keyed members) (t : TypeTerm) :
    Keyed (members ++ [(t.render, t)]) := by
  intro m hm
  rcases List.mem_append.1 hm with hm | hm
  · exact h m hm
  · rw [List.mem_singleton.1 hm]

theorem Keyed.enter {members : List (String × TypeTerm)} (h : Keyed members) (t : TypeTerm) :
    Keyed (enter members t) := by
  unfold CachedSet.enter
  split
  · exact h
  · exact h.append t

theorem Keyed.foldl_enter {members : List (String × TypeTerm)} (h : Keyed members)
    (ts : List TypeTerm) : Keyed (ts.foldl CachedSet.enter members) := by
  induction ts generalizing members with
  | nil => exact h
  | cons t ts ih => exact ih (h.enter t)

theorem keyed_nil : Keyed [] := fun _ hm => absurd hm List.not_mem_nil

/-- Entering terms one after the other keeps the first term of every spelling that is new. -/
theorem terms_foldl_enter (members : List (String × TypeTerm)) (ts : List TypeTerm) :
    (ts.foldl enter members).map (·.2)
      = members.map (·.2)
        ++ (keepFirst ts).filter fun t => !(members.map (·.1)).contains t.render := by
  induction ts generalizing members with
  | nil => simp [keepFirst]
  | cons t ts ih =>
    rw [List.foldl_cons, ih, keepFirst]
    by_cases hin : (members.map (·.1)).contains t.render = true
    · rw [enter, if_pos hin, List.filter_cons_of_neg (by simpa using hin), List.filter_filter]
      refine congrArg _ (List.filter_congr fun u _ => ?_)
      -- a spelling that is not in the table differs from that of `t`, which is
      by_cases hu : u.render = t.render <;> simp_all
    · have hnot : (members.map (·.1)).contains t.render = false := by simpa using hin
      rw [enter, if_neg hin, List.filter_cons_of_pos (by simpa using hin), List.filter_filter,
        List.map_append, List.map_singleton, List.append_assoc, List.singleton_append]
      refine congrArg _ (congrArg (t :: ·) (List.filter_congr fun u _ => ?_))
      by_cases hu : u.render = t.render <;> simp [hu]

theorem terms_ofTerms (ts : List TypeTerm) : (ofTerms ts).terms = keepFirst ts := by
  rw [terms, ofTerms, terms_foldl_enter]
  simp

/-! ## The invariant -/

/-- What holds of every set that is made: each member stands under its spelling, no spelling comes
twice, a kept text is that of the members, and the members are terms as they are read. -/
structure Coherent (s : CachedSet) : Prop where
  keyed : Keyed s.members
  nodup : s.keys.Nodup
  fresh : ∀ text ∈ s.text, text = s.written
  read : ∀ t ∈ s.terms, t.IsRead

variable {s a b : CachedSet}

theorem Coherent.keys_eq (h : s.Coherent) : s.keys = s.view.keys := h.keyed.keys_eq

/-- The text that is given is always that of the members. -/
theorem Coherent.render_eq (h : s.Coherent) : s.render.1 = s.written := by
  unfold render
  cases htext : s.text with
  | none => rfl
  | some text => exact h.fresh text htext

theorem coherent_ofTerms {ts : List TypeTerm} (h : ∀ t ∈ ts, t.IsRead) :
    (ofTerms ts).Coherent where
  keyed := keyed_nil.foldl_enter ts
  nodup := by
    have hkeys : (ofTerms ts).keys = (ofTerms ts).terms.map TypeTerm.render :=
      (keyed_nil.foldl_enter ts).keys_eq
    rw [hkeys, terms_ofTerms]
    exact TypeSet.nodup_keys_ofTerms ts
  fresh := fun _ htext => absurd htext (by simp [ofTerms])
  read := by
    rw [terms_ofTerms]
    exact fun t ht => h t (TypeSet.mem_of_mem_keepFirst ht)

theorem coherent_parse (raw : String) : (parse raw).Coherent :=
  coherent_ofTerms (List.forall_mem_map.2 fun _ => TypeTerm.isRead_of_mem_alternatives)

theorem Coherent.union (ha : a.Coherent) (hb : b.Coherent) : (a.union b).Coherent := by
  refine coherent_ofTerms fun t ht => ?_
  rcases List.mem_append.1 ht with ht | ht
  · exact ha.read t ht
  · exact hb.read t ht

/-- Writing a set keeps the text of its members. -/
theorem Coherent.render (h : s.Coherent) : s.render.2.Coherent where
  keyed := h.keyed
  nodup := h.nodup
  fresh := by
    intro text htext
    rw [← Option.some.inj htext]
    exact h.render_eq
  read := h.read

/-- The name `any` is read as a plain name. -/
theorem isRead_any : (TypeTerm.basic anyName).IsRead :=
  .basic (by decide) (Text.trim_eq_self_iff.1 (by decide)) (by decide)

/-- Adding `any` changes a set only when no member is called so, and then no text is kept. -/
theorem Coherent.addAny (h : s.Coherent) : s.addAny.Coherent := by
  unfold CachedSet.addAny
  by_cases hany : s.contains anyName = true
  · rw [if_pos hany]
    exact h
  · rw [if_neg hany]
    have hnew : anyName ∉ s.keys := by simpa [contains] using hany
    refine ⟨h.keyed.append (.basic anyName), ?_, fun _ htext => absurd htext (by simp), ?_⟩
    · rw [keys, List.map_append]
      refine List.Nodup.append h.nodup (List.nodup_singleton _) fun key hkey hany => ?_
      obtain rfl : key = anyName := List.mem_singleton.1 hany
      exact hnew hkey
    · intro t ht
      rw [terms, List.map_append] at ht
      rcases List.mem_append.1 ht with ht | ht
      · exact h.read t ht
      · rw [List.mem_singleton.1 ht]
        exact isRead_any

/-! ## Sets and their texts -/

theorem Coherent.view_render (h : s.Coherent) : s.view.render = s.render.1 := by
  rw [h.render_eq, TypeSet.render, written, h.keys_eq]

theorem Coherent.sameAs_eq (ha : a.Coherent) (hb : b.Coherent) :
    a.sameAs b = (a.view == b.view) := by
  have hcontains : b.contains = b.view.contains := by
    funext key
    rw [contains, TypeSet.contains, hb.keys_eq]
  show _ = a.view.sameAs b.view
  rw [sameAs, TypeSet.sameAs, ha.keys_eq, hcontains]
  simp [view, terms]

/-- Two sets without repeated spellings are the same exactly when they have the same spellings. -/
theorem Coherent.sameAs_iff_perm (ha : a.Coherent) (hb : b.Coherent) :
    a.sameAs b = true ↔ a.keys.Perm b.keys := by
  rw [ha.sameAs_eq hb, TypeSet.beq_iff, ← ha.keys_eq, ← hb.keys_eq]
  have hlength : ∀ s : CachedSet, s.view.terms.length = s.keys.length := fun s => by
    simp [view, terms, keys]
  rw [hlength, hlength]
  constructor
  · rintro ⟨hlen, hsub⟩
    exact (List.subperm_of_subset ha.nodup hsub).perm_of_length_le hlen.ge
  · exact fun hperm => ⟨hperm.length_eq, fun _ => hperm.mem_iff.1⟩

/-- The spellings of a set can be told from each other in its text. -/
theorem Coherent.isSpelling (h : s.Coherent) :
    ∀ p ∈ s.keys.mergeSort.map String.toList, TypeExpr.IsSpelling p := by
  intro p hp
  obtain ⟨key, hkey, rfl⟩ := List.mem_map.1 hp
  rw [List.mem_mergeSort, h.keys_eq] at hkey
  obtain ⟨t, ht, rfl⟩ := List.mem_map.1 hkey
  rw [TypeTerm.render, String.toList_ofList]
  exact (h.read t ht).isSpelling

/-- Sets are the same exactly when their texts are. -/
theorem Coherent.sameAs_iff_render_eq (ha : a.Coherent) (hb : b.Coherent) :
    a.sameAs b = true ↔ a.render.1 = b.render.1 := by
  rw [ha.sameAs_iff_perm hb, ha.render_eq, hb.render_eq]
  constructor
  · intro hperm
    rw [written, written, Text.mergeSort_eq_of_perm hperm]
  · intro htext
    rw [written, written, ← String.toList_inj, String.toList_intercalate,
      String.toList_intercalate] at htext
    have hlists := TypeExpr.intercalate_inj ha.isSpelling hb.isSpelling htext
    have hsorted : a.keys.mergeSort = b.keys.mergeSort :=
      List.map_injective_iff.2 (fun _ _ => String.toList_inj.1) hlists
    exact ((List.mergeSort_perm _ _).symm.trans (.of_eq hsorted)).trans (List.mergeSort_perm _ _)

/-! ## How sets are made -/

/-- A way to make a set. -/
inductive Making where
  /-- A type expression is read. -/
  | parsed (raw : String)
  /-- Two sets are joined. -/
  | union (a b : Making)
  /-- A set is copied, with the text that it keeps. -/
  | copied (a : Making)
  /-- A set is written, and keeps its text. -/
  | rendered (a : Making)
  /-- The name `any` is added. -/
  | withAny (a : Making)

/-- The set that is made. -/
def Making.set : Making → CachedSet
  | parsed raw => .parse raw
  | union a b => a.set.union b.set
  | copied a => a.set.copy
  | rendered a => a.set.render.2
  | withAny a => a.set.addAny

/-- The type set that is made the same way. -/
def Making.value : Making → TypeSet
  | parsed raw => .parse raw
  | union a b => a.value.union b.value
  | copied a => a.value
  | rendered a => a.value
  | withAny a => a.value.addAny

/-- Every set that is made keeps the invariant. -/
theorem Making.coherent_set (m : Making) : m.set.Coherent := by
  induction m with
  | parsed raw => exact coherent_parse raw
  | union a b iha ihb => exact iha.union ihb
  | copied a ih => exact ⟨ih.keyed, ih.nodup, ih.fresh, ih.read⟩
  | rendered a ih => exact ih.render
  | withAny a ih => exact ih.addAny

/-- Without its kept text a set that is made is the type set that is made the same way. -/
theorem Making.view_set (m : Making) : m.set.view = m.value := by
  induction m with
  | parsed raw => exact congrArg TypeSet.mk (terms_ofTerms _)
  | union a b iha ihb =>
    rw [value, ← iha, ← ihb]
    exact congrArg TypeSet.mk (terms_ofTerms _)
  | copied a ih => exact ih
  | rendered a ih => exact ih
  | withAny a ih =>
    have hcontains : a.set.contains anyName = a.set.view.contains anyName := by
      rw [contains, TypeSet.contains, a.coherent_set.keys_eq]
    rw [value, ← ih, set, CachedSet.addAny, TypeSet.addAny, ← hcontains]
    split
    · rfl
    · simp [view, terms]

/-- **Kept texts.**  However a set is made, each member stands under its spelling and no spelling
comes twice, and the text that it gives is always that of its members, sorted.  Two sets are the
same exactly when their texts are, and the same holds of the type sets that are made without keeping
texts. -/
theorem text_never_stale (a b : Making) :
    (∀ m ∈ a.set.members, m.1 = m.2.render) ∧ a.set.keys.Nodup ∧
      a.set.render.1 = " | ".intercalate a.set.keys.mergeSort ∧
      (a.set.sameAs b.set = true ↔ a.set.render.1 = b.set.render.1) ∧
      a.set.render.1 = a.value.render ∧
      ((a.value == b.value) = true ↔ a.value.render = b.value.render) := by
  have ha := a.coherent_set
  have hb := b.coherent_set
  have hsame := ha.sameAs_iff_render_eq hb
  refine ⟨ha.keyed, ha.nodup, ha.render_eq, hsame, ?_, ?_⟩
  · rw [← a.view_set, ha.view_render]
  · rw [← a.view_set, ← b.view_set, ← ha.sameAs_eq hb, hsame, ha.view_render, hb.view_render]

end CachedSet

end ApiTypings
