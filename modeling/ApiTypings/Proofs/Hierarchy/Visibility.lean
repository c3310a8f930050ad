/-
# The visibility of suppressed methods

A method that repeats the one it overrides is not declared again, so a call of it means the
overridden method.  What counts as a repetition is a matter of names, return types and parameters;
visibility has no part in it.  A visibility changes in one direction only: an override of a public
method becomes public.

So a suppressed method is public for one of two reasons.  Either the method that it is suppressed
for is public, and nothing is lost; or it was documented as public, and the method that is left may
be less visible.

* `visibility_applyTo_iff` : the visibility of one method after its changes;
* `isIdenticalTo_applyTo` : a method that the changes suppress repeats the overridden one;
* `suppressed_public_iff` : which suppressed methods of the reconciled forest are public.
-/
import ApiTypings.Proofs.Hierarchy.Agreement

namespace ApiTypings

namespace ClassIndex

variable {i : ClassIndex}

/-! ## One method -/

/-- A method is public after its changes when it was before, or when it overrides a public one. -/
theorem visibility_applyTo_iff (name a : String) (m b : Method) :
    ((i.reconcile name m a b).applyTo m).visibility = .publicMember ↔
      m.visibility = .publicMember ∨ b.visibility = .publicMember := by
  constructor
  · intro h
    by_cases hb : b.visibility = .publicMember
    · exact Or.inr hb
    · -- no promotion, so the visibility is the documented one
      have hstays : (i.reconcile name m a b).promote = false := by simp [reconcile, hb]
      rw [Reconciliation.applyTo, hstays] at h
      exact Or.inl h
  · rintro (hm | hb)
    · have hstays : (i.reconcile name m a b).promote = false := by simp [reconcile, hm]
      rw [Reconciliation.applyTo, hstays]
      exact hm
    · exact visibility_applyTo name a m hb

/-- A method that its changes suppress repeats the overridden one. -/
theorem isIdenticalTo_applyTo {name a : String} {m b : Method} (hdoc : m.ignore = false)
    (h : ((i.reconcile name m a b).applyTo m).ignore = true) :
    ((i.reconcile name m a b).applyTo m).isIdenticalTo b
      ((i.reconcile name m a b).applyTo m).returnTypes = true := by
  have hignore : (i.reconcile name m a b).ignore = true := by
    rwa [Reconciliation.applyTo, hdoc, Bool.false_or] at h
  exact (Bool.and_eq_true_iff.1 hignore).2

/-- A method that the reconciler suppresses overrides another one, which it repeats. -/
theorem exists_overridden_of_ignore {t : MethodTable} {name : String} {m : Method}
    (hdoc : m.ignore = false) (h : ((i.reconcileMethod t name m).applyTo m).ignore = true) :
    ∃ a b, i.overridden? t name m = some (a, b) ∧
      i.reconcileMethod t name m = i.reconcile name m a b := by
  cases hctor : m.isConstructor with
  | true =>
    rw [reconcileMethod_of_none (Or.inl hctor), Reconciliation.applyTo, hdoc] at h
    exact absurd h (by simp [Reconciliation.unchanged])
  | false =>
    cases hover : i.overridden? t name m with
    | none =>
      rw [reconcileMethod_of_none (Or.inr hover), Reconciliation.applyTo, hdoc] at h
      exact absurd h (by simp [Reconciliation.unchanged])
    | some hit => exact ⟨hit.1, hit.2, rfl, reconcileMethod_of_overridden hctor hover⟩

/-! ## The reconciled forest -/

/-- **The visibility of suppressed methods.**  A method that the reconciler suppresses repeats the
method it overrides in the reconciled forest.  It is public exactly when it was documented as public
or the overridden method is public. -/
theorem suppressed_public_iff {forest : Forest} (hi : ofForest forest = .ok i) {c : ClassDecl}
    (hc : c ∈ (forest.reconcileOverrides i).classes) :
    ∃ d ∈ forest.classes, d.fullName = c.fullName ∧
      List.Forall₂ (fun doc m => doc.ignore = false → m.ignore = true →
        ∃ ancestor base,
          i.overridden? (forest.reconcileOverrides i).methodTable c.fullName m
            = some (ancestor, base) ∧
          m.isIdenticalTo base m.returnTypes = true ∧
          (m.visibility = .publicMember ↔
            doc.visibility = .publicMember ∨ base.visibility = .publicMember))
        d.body.methods c.body.methods := by
  obtain ⟨d, hd, hname, -, haligned, hkept⟩ := Forest.class_of_reconciled hi hc
  refine ⟨d, hd, hname, ?_⟩
  by_cases hends : i.ChainEnds c.fullName
  · rw [haligned hends, alignedMethods, List.forall₂_map_right_iff, List.forall₂_same]
    intro doc _ hdoc hignore
    obtain ⟨a, b, hover, hchanges⟩ := exists_overridden_of_ignore hdoc hignore
    rw [hchanges] at hignore ⊢
    refine ⟨a, b, ?_, isIdenticalTo_applyTo hdoc hignore, visibility_applyTo_iff _ a doc b⟩
    rw [overridden?_applyTo, hover]
  · rw [hkept hends, List.forall₂_same]
    intro doc _ hdoc hignore
    exact absurd hignore (by simp [hdoc])

theorem suppressed_public_iff_textForest :
    ∃ i, ofForest textForest = .ok i ∧
      ∃ c ∈ (textForest.reconcileOverrides i).classes,
        (∃ m ∈ c.body.methods, m.ignore = true ∧ m.visibility = .publicMember) ∧
        ∃ d ∈ textForest.classes, d.fullName = c.fullName ∧
          List.Forall₂ (fun doc m => doc.ignore = false → m.ignore = true →
            ∃ ancestor base,
              i.overridden? (textForest.reconcileOverrides i).methodTable c.fullName m
                = some (ancestor, base) ∧
              m.isIdenticalTo base m.returnTypes = true ∧
              (m.visibility = .publicMember ↔
                doc.visibility = .publicMember ∨ base.visibility = .publicMember))
            d.body.methods c.body.methods := by
  have hi : ofForest textForest = .ok (belowBase "Text") := rfl
  have hfound : ∃ c ∈ (textForest.reconcileOverrides (belowBase "Text")).classes,
      ∃ m ∈ c.body.methods, m.ignore = true ∧ m.visibility = .publicMember := by
    rw [Forest.reconcileOverrides, topDown_belowBase_text]
    decide +kernel
  obtain ⟨c, hc, hsuppressed⟩ := hfound
  exact ⟨_, hi, c, hc, hsuppressed, suppressed_public_iff hi hc⟩

/-- A class `Text` below a class `Base`, whose method `read` is the same but more visible. -/
def hiddenTextForest : Forest :=
  [plainClass "Base" none [plainMethod "Base" "read" "string" false .protectedMember],
    plainClass "Text" (some "Base") [plainMethod "Text" "read" "string" false .publicMember]]

/-- A public method is suppressed for a protected one. -/
theorem suppressed_public_hiddenTextForest :
    ∃ i, ofForest hiddenTextForest = .ok i ∧
      (∀ c ∈ hiddenTextForest.classes, ∀ m ∈ c.body.methods, m.ignore = false) ∧
      ∃ c ∈ (hiddenTextForest.reconcileOverrides i).classes, ∃ m ∈ c.body.methods,
        m.ignore = true ∧ m.visibility = .publicMember ∧ ∃ ancestor base,
          i.overridden? (hiddenTextForest.reconcileOverrides i).methodTable c.fullName m
            = some (ancestor, base) ∧ base.visibility = .protectedMember := by
  have hi : ofForest hiddenTextForest = .ok (belowBase "Text") := rfl
  have hnone : ∀ c ∈ hiddenTextForest.classes, ∀ m ∈ c.body.methods, m.ignore = false := by
    decide +kernel
  have hfound : ∃ c ∈ (hiddenTextForest.reconcileOverrides (belowBase "Text")).classes,
      ∃ m ∈ c.body.methods, m.ignore = true ∧ m.visibility = .publicMember ∧
        ((belowBase "Text").overridden?
          (hiddenTextForest.reconcileOverrides (belowBase "Text")).methodTable c.fullName m).any
            (fun hit => hit.2.visibility == .protectedMember) = true := by
    rw [Forest.reconcileOverrides, topDown_belowBase_text]
    decide +kernel
  obtain ⟨c, hc, m, hm, hignore, hpublic, hany⟩ := hfound
  obtain ⟨⟨ancestor, base⟩, hover, hprotected⟩ := (Option.any_eq_true _ _).1 hany
  exact ⟨_, hi, hnone, c, hc, m, hm, hignore, hpublic, ancestor, base, hover,
    beq_iff_eq.1 hprotected⟩

end ClassIndex

end ApiTypings
