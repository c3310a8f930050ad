/-
# Nothing is left to bring in line

A second run of the reconciler finds every method as it would make it.  Against one and the same
overridden method this holds of each single change: a return type that was replaced is replaced by
the same one again, if at all, whether or not it is recognised as compatible.  Along a chain it
follows from the classes above downwards, as the second run meets the same methods there.

* `applyTo_reconcile_applyTo` : a method that was brought in line stays as it is;
* `get?_reconcileAll_again` : the second run on tables;
* `reconcileOverrides_idem` : the second run on forests.
-/
import ApiTypings.Proofs.Hierarchy.Agreement

namespace ApiTypings

/-- Changes that a method has already leave it as it is. -/
theorem Reconciliation.applyTo_eq_self {r : Reconciliation} {m : Method}
    (hreturns : r.returnTypes.getD m.returnTypes = m.returnTypes)
    (hpromote : r.promote = true → m.visibility = .publicMember)
    (hignore : r.ignore = true → m.ignore = true) : r.applyTo m = m := by
  have hvisibility : (if r.promote then .publicMember else m.visibility) = m.visibility := by
    split
    · rename_i h
      exact (hpromote h).symm
    · rfl
  have hsuppressed : (m.ignore || r.ignore) = m.ignore := by
    cases h : r.ignore with
    | false => exact Bool.or_false _
    | true => rw [hignore h, Bool.or_true]
  rw [applyTo, hreturns, hvisibility, hsuppressed]

namespace ClassIndex

variable {i : ClassIndex}

/-! ## One method -/

/-- Return types are replaced by those that are asked for, if at all. -/
theorem replacedReturn?_cases (i : ClassIndex) (name : String) (m : Method) (a : String)
    (b : Method) : i.replacedReturn? name m a b = none ∨
      i.replacedReturn? name m a b = some (requiredReturn name a b) := by
  unfold replacedReturn?
  split
  · exact .inl rfl
  · split
    · exact .inl rfl
    · exact .inr rfl

/-- The return types of a method that was brought in line are not replaced by others. -/
theorem replacedReturn?_applyTo (name a : String) (m b : Method) :
    (i.replacedReturn? name ((i.reconcile name m a b).applyTo m) a b).getD
        ((i.reconcile name m a b).applyTo m).returnTypes
      = ((i.reconcile name m a b).applyTo m).returnTypes := by
  have hreturns : ((i.reconcile name m a b).applyTo m).returnTypes
      = (i.replacedReturn? name m a b).getD m.returnTypes := rfl
  rcases i.replacedReturn?_cases name m a b with h | h
  · -- the return types are the documented ones, and those stayed
    rw [h, Option.getD_none] at hreturns
    have hnone : i.replacedReturn? name ((i.reconcile name m a b).applyTo m) a b = none := by
      rw [← h, replacedReturn?, replacedReturn?, hreturns]
    rw [hnone, Option.getD_none]
  · -- the return types are those that are asked for
    rw [h, Option.getD_some] at hreturns
    rcases i.replacedReturn?_cases name ((i.reconcile name m a b).applyTo m) a b with h' | h'
    · rw [h', Option.getD_none]
    · rw [h', Option.getD_some, hreturns]

/-- A method that was brought in line stays as it is. -/
theorem applyTo_reconcile_applyTo (name a : String) (m b : Method) :
    (i.reconcile name ((i.reconcile name m a b).applyTo m) a b).applyTo
        ((i.reconcile name m a b).applyTo m)
      = (i.reconcile name m a b).applyTo m := by
  refine Reconciliation.applyTo_eq_self (replacedReturn?_applyTo name a m b) ?_ ?_
  · intro hpromote
    have hb : b.visibility = .publicMember := beq_iff_eq.1 (Bool.and_eq_true_iff.1 hpromote).1
    exact visibility_applyTo name a m hb
  · intro hignore
    -- name, staticness and parameters are the documented ones, and the return types are final
    have hsame : (i.reconcile name ((i.reconcile name m a b).applyTo m) a b).ignore
        = (i.reconcile name m a b).ignore := by
      show (!m.isStatic && m.isIdenticalTo b _) = (!m.isStatic && m.isIdenticalTo b _)
      rw [replacedReturn?_applyTo]
      rfl
    show (m.ignore || (i.reconcile name m a b).ignore) = true
    rw [← hsame, hignore, Bool.or_true]

/-- Methods that were brought in line with a table stay as they are. -/
theorem alignedMethods_idem (t : MethodTable) (name : String) (methods : List Method) :
    i.alignedMethods t name (i.alignedMethods t name methods)
      = i.alignedMethods t name methods := by
  unfold alignedMethods
  rw [List.map_map]
  refine List.map_congr_left fun m _ => ?_
  dsimp only [Function.comp_apply]
  by_cases hnone : m.isConstructor = true ∨ i.overridden? t name m = none
  · have hnone' : (((i.reconcileMethod t name m).applyTo m).isConstructor = true)
        ∨ i.overridden? t name ((i.reconcileMethod t name m).applyTo m) = none := by
      rwa [overridden?_applyTo, Method.isConstructor_applyTo]
    rw [reconcileMethod_of_none hnone', reconcileMethod_of_none hnone]
    exact Reconciliation.applyTo_eq_self rfl (by simp [Reconciliation.unchanged])
      (by simp [Reconciliation.unchanged])
  · rw [not_or] at hnone
    have hctor : m.isConstructor = false := by simpa using hnone.1
    obtain ⟨⟨a, b⟩, hover⟩ := Option.ne_none_iff_exists'.1 hnone.2
    rw [reconcileMethod_of_overridden hctor hover,
      reconcileMethod_of_overridden (by rwa [Method.isConstructor_applyTo])
        ((overridden?_applyTo t name _ m).trans hover)]
    exact applyTo_reconcile_applyTo name a m b

/-! ## All classes -/

/-- On a table whose methods are brought in line with the table itself the reconciler changes
nothing. -/
theorem get?_reconcileAll_of_aligned (hnd : i.names.Nodup) {t : MethodTable}
    (ht : ∀ name ∈ i.names, i.ChainEnds name →
      (t.get? name).map (i.alignedMethods t name) = t.get? name) (name : String) :
    (i.reconcileAll t).get? name = t.get? name := by
  by_cases hends : i.ChainEnds name
  · -- downwards: where nothing has changed above, aligning again is aligning with the table
    refine ChainEnds.above_induction (fun name hends ih => ?_) hends
    by_cases hmem : name ∈ i.names
    · rw [(get?_reconcileAll hnd t name).1 ⟨hmem, hends⟩, funext (alignedMethods_congr ih),
        ht name hmem hends]
    · exact (get?_reconcileAll hnd t name).2 fun hin => hmem hin.1
  · exact (get?_reconcileAll hnd t name).2 fun hin => hends hin.2

/-- The second run on tables: there is nothing left to bring in line. -/
theorem get?_reconcileAll_again (hnd : i.names.Nodup) {t t' : MethodTable}
    (ht' : ∀ name, t'.get? name = (i.reconcileAll t).get? name) (name : String) :
    (i.reconcileAll t').get? name = t'.get? name := by
  refine get?_reconcileAll_of_aligned hnd (fun name hmem hends => ?_) name
  have hsame : i.alignedMethods t' name = i.alignedMethods (i.reconcileAll t) name :=
    funext (alignedMethods_congr fun a _ => ht' a)
  rw [ht', (get?_reconcileAll hnd t name).1 ⟨hmem, hends⟩, hsame, Option.map_map]
  congr 1
  exact funext (alignedMethods_idem _ name)

/-! ## Forests -/

/-- **Idempotence.**  A second run of the reconciler leaves the forest as the first one has left
it. -/
theorem reconcileOverrides_idem {forest : Forest} (hi : ofForest forest = .ok i) :
    (forest.reconcileOverrides i).reconcileOverrides i = forest.reconcileOverrides i := by
  have hi' := Forest.ofForest_reconcileOverrides hi
  have htable := get?_reconcileAll_again (nodup_names hi)
    (Forest.get?_methodTable_reconcileOverrides hi)
  calc (forest.reconcileOverrides i).reconcileOverrides i
      = (forest.reconcileOverrides i).withMethods (forest.reconcileOverrides i).methodTable :=
        (Forest.reconcileOverrides_eq hi').trans (Forest.withMethods_congr htable)
    _ = forest.reconcileOverrides i := Forest.withMethods_methodTable hi'

theorem reconcileOverrides_idem_textForest :
    ofForest textForest = .ok (belowBase "Text") ∧
      (textForest.reconcileOverrides (belowBase "Text")).reconcileOverrides (belowBase "Text")
        = textForest.reconcileOverrides (belowBase "Text") :=
  ⟨rfl, reconcileOverrides_idem rfl⟩

end ClassIndex

end ApiTypings
