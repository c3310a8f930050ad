/-
# Overrides agree with what they override

TypeScript accepts an override when its return type fits the overridden method and it is at least
as visible.  In the reconciled forest every override of a class whose chain ends is compared with
the *final* form of the overridden method, and agrees with it.

There are two ways to keep a return type that does not fit.  The reconciler never writes `any` over
a documented type.  So an overridden method that returns `any` is left alone, and so is a method of
a class called `any` that would have to return its own class.

* `overridden?_eq_some` : which method is overridden;
* `returnsCompatible_applyTo` : the return type of one method after its changes;
* `overrides_agree` : return types and visibilities of the reconciled forest.
-/
import ApiTypings.Proofs.Hierarchy.Reconciled
import ApiTypings.Proofs.TypeExpr.SetLaws

namespace ApiTypings

/-! ## Changed methods -/

namespace Method

/-- What a method can override does not depend on its return types, visibility and suppression. -/
theorem canOverride_applyTo (r : Reconciliation) (m : Method) :
    (r.applyTo m).canOverride = m.canOverride := rfl

@[simp] theorem isConstructor_applyTo (r : Reconciliation) (m : Method) :
    (r.applyTo m).isConstructor = m.isConstructor := rfl

end Method

namespace ClassIndex

variable {i : ClassIndex}

/-! ## The overridden method -/

/-- The overridden method is the first one of its name and staticness in the nearest class above
that has one. -/
theorem overridden?_eq_some {t : MethodTable} {name a : String} {m b : Method} :
    i.overridden? t name m = some (a, b) ↔
      ∃ below above methods, i.ancestors name = below ++ a :: above ∧
        t.get? a = some methods ∧ methods.find? m.canOverride = some b ∧
        ∀ n ∈ below, ∀ ms, t.get? n = some ms → ms.find? m.canOverride = none := by
  unfold overridden?
  rw [List.findSome?_eq_some_iff]
  constructor
  · rintro ⟨below, x, above, hsplit, hx, hbelow⟩
    rw [Option.map_eq_some_iff] at hx
    obtain ⟨b', hb', hpair⟩ := hx
    obtain ⟨rfl, rfl⟩ := Prod.mk.inj hpair
    obtain ⟨methods, hget, hfind⟩ := Option.bind_eq_some_iff.1 hb'
    refine ⟨below, above, methods, hsplit, hget, hfind, fun n hn ms hms => ?_⟩
    simpa [hms] using hbelow n hn
  · rintro ⟨below, above, methods, hsplit, hget, hfind, hbelow⟩
    refine ⟨below, a, above, hsplit, by rw [hget, Option.bind_some, hfind]; rfl, fun n hn => ?_⟩
    cases hms : t.get? n with
    | none => rfl
    | some ms => simpa using hbelow n hn ms hms

/-- The overridden method belongs to a class above. -/
theorem mem_of_overridden? {t : MethodTable} {name a : String} {m b : Method}
    (h : i.overridden? t name m = some (a, b)) :
    a ∈ i.ancestors name ∧ ∃ methods, t.get? a = some methods ∧ b ∈ methods := by
  obtain ⟨below, above, methods, hsplit, hget, hfind, -⟩ := overridden?_eq_some.1 h
  refine ⟨?_, methods, hget, List.mem_of_find?_eq_some hfind⟩
  rw [hsplit]
  exact List.mem_append_right _ List.mem_cons_self

/-- A method and its changed form override the same method. -/
theorem overridden?_applyTo (t : MethodTable) (name : String) (r : Reconciliation) (m : Method) :
    i.overridden? t name (r.applyTo m) = i.overridden? t name m := by
  unfold overridden?
  rw [Method.canOverride_applyTo]

/-- The changes to a method that overrides `b` of `a`. -/
theorem reconcileMethod_of_overridden {t : MethodTable} {name a : String} {m b : Method}
    (hctor : m.isConstructor = false) (h : i.overridden? t name m = some (a, b)) :
    i.reconcileMethod t name m = i.reconcile name m a b := by
  simp [reconcileMethod, hctor, h]

/-- The changes to a method that overrides nothing. -/
theorem reconcileMethod_of_none {t : MethodTable} {name : String} {m : Method}
    (h : m.isConstructor = true ∨ i.overridden? t name m = none) :
    i.reconcileMethod t name m = .unchanged := by
  rcases h with h | h
  · rw [reconcileMethod, if_pos h]
  · rw [reconcileMethod, h, ite_self]

/-! ## Return types -/

/-- A method that returns its own class may override one that returns a class above. -/
theorem returnsCompatible_of_classes {name a : String} {s : TypeSet} (ha : a ∈ i.ancestors name)
    (hname : TypeSet.IsPlainName name) (hplain : TypeSet.IsPlainName a) (hs : s.render = a) :
    i.returnsCompatible (.parse name) s = true := by
  have hsingle : s.singleName? = some a := by
    rw [TypeSet.singleName?, TypeSet.terms_of_render_plain hplain hs]
    rfl
  have hours : (TypeSet.parse name).singleName? = some name := hname
  simp [returnsCompatible, hours, hsingle, descendsFrom_of_mem_ancestors ha]

/-- The return type of a method after its changes: it fits the overridden method, unless `any` would
have replaced it. -/
theorem returnsCompatible_applyTo {name a : String} (m b : Method) (ha : a ∈ i.ancestors name)
    (hname : TypeSet.IsPlainName name) (hplain : TypeSet.IsPlainName a) :
    i.returnsCompatible ((i.reconcile name m a b).applyTo m).returnTypes b.returnTypes = true
      ∨ b.returnTypes.isAny = true ∨ (name = anyName ∧ b.returnTypes.render = a) := by
  show i.returnsCompatible ((i.replacedReturn? name m a b).getD m.returnTypes) b.returnTypes = true
    ∨ _
  unfold replacedReturn?
  by_cases hfits : (i.returnsCompatible m.returnTypes b.returnTypes || m.returnTypes.isThis) = true
  · -- the documented type fits and stays
    rw [if_pos hfits, Option.getD_none]
    rcases Bool.or_eq_true_iff.1 hfits with h | h
    · exact Or.inl h
    · exact Or.inl (by simp [returnsCompatible, h])
  · rw [if_neg hfits]
    by_cases hself : b.returnTypes.render = a
    · -- the overridden method returns its own class: so does this one, unless that reads `any`
      have hreq : requiredReturn name a b = .parse name := by
        rw [requiredReturn, if_pos (beq_iff_eq.2 hself)]
      rw [hreq, TypeSet.render_parse_of_isPlainName hname]
      by_cases hany : name = anyName
      · exact Or.inr (Or.inr ⟨hany, hself⟩)
      · rw [if_neg (by simpa using hany), Option.getD_some]
        exact Or.inl (returnsCompatible_of_classes ha hname hplain hself)
    · -- the type of the overridden method is taken over, unless it is `any`
      have hreq : requiredReturn name a b = b.returnTypes := by
        rw [requiredReturn, if_neg (by simpa using hself)]
      rw [hreq]
      by_cases hany : b.returnTypes.render = anyName
      · exact Or.inr (Or.inl (TypeSet.isAny_of_render hany))
      · rw [if_neg (by simpa using hany), Option.getD_some]
        exact Or.inl (by simp [returnsCompatible, TypeSet.beq_refl])

/-- A method that overrides a public one is public after its changes. -/
theorem visibility_applyTo (name a : String) (m : Method) {b : Method}
    (hb : b.visibility = .publicMember) :
    ((i.reconcile name m a b).applyTo m).visibility = .publicMember := by
  by_cases hm : m.visibility = .publicMember
  · simp [Reconciliation.applyTo, reconcile, hm]
  · simp [Reconciliation.applyTo, reconcile, hb, hm]

/-! ## The reconciled forest -/

/-- A method of a class whose chain ends, in the reconciled forest: a documented method with the
changes asked for by the method it overrides there. -/
theorem method_of_reconciled {forest : Forest} (hi : ofForest forest = .ok i) {c : ClassDecl}
    (hc : c ∈ (forest.reconcileOverrides i).classes) (hends : i.ChainEnds c.fullName) {m : Method}
    (hm : m ∈ c.body.methods) :
    ∃ d ∈ forest.classes, d.fullName = c.fullName ∧ ∃ doc ∈ d.body.methods,
      m = (i.reconcileMethod (forest.reconcileOverrides i).methodTable c.fullName doc).applyTo doc
        := by
  obtain ⟨d, hd, hname, -, haligned, -⟩ := Forest.class_of_reconciled hi hc
  rw [haligned hends, alignedMethods] at hm
  obtain ⟨doc, hdoc, rfl⟩ := List.mem_map.1 hm
  exact ⟨d, hd, hname, doc, hdoc, rfl⟩

/-- **Overrides agree.**  In the reconciled forest a method of a class whose chain ends fits the
method it overrides there: its return type is compatible, unless the overridden method returns
`any`, or its own class and the overriding class is called `any`; and it is public if the
overridden method is. -/
theorem overrides_agree {forest : Forest} (hi : ofForest forest = .ok i)
    (hplain : ∀ c ∈ forest.classes, TypeSet.IsPlainName c.fullName) {c : ClassDecl}
    (hc : c ∈ (forest.reconcileOverrides i).classes) (hends : i.ChainEnds c.fullName) {m : Method}
    (hm : m ∈ c.body.methods) (hctor : m.isConstructor = false) {ancestor : String} {base : Method}
    (hover : i.overridden? (forest.reconcileOverrides i).methodTable c.fullName m
      = some (ancestor, base)) :
    (i.returnsCompatible m.returnTypes base.returnTypes = true ∨ base.returnTypes.isAny = true
        ∨ (c.fullName = anyName ∧ base.returnTypes.render = ancestor)) ∧
      (base.visibility = .publicMember → m.visibility = .publicMember) := by
  obtain ⟨d, hd, hname, doc, -, rfl⟩ := method_of_reconciled hi hc hends hm
  rw [overridden?_applyTo] at hover
  rw [Method.isConstructor_applyTo] at hctor
  rw [reconcileMethod_of_overridden hctor hover]
  obtain ⟨habove, methods, hget, -⟩ := mem_of_overridden? hover
  obtain ⟨e, he, hename, -⟩ := Forest.class_of_get? hget
  obtain ⟨f, hf, hfname, -⟩ := Forest.class_of_reconciled hi he
  refine ⟨returnsCompatible_applyTo doc base habove ?_ ?_, visibility_applyTo _ _ doc⟩
  · exact hname ▸ hplain d hd
  · exact hename ▸ hfname ▸ hplain f hf

/-! ## Small hierarchies -/

/-- A method without parameters. -/
def plainMethod (owner name returns : String) (isStatic : Bool) (visibility : Visibility) :
    Method where
  name := name
  fullName := Dotted.member owner name
  visibility := visibility
  isStatic := isStatic
  parameters := []
  returnTypes := .named returns
  returnDescription := ""
  ignore := false
  needsCatchAll := false
  description := ""
  deprecated := none
  ownerKind := .classKind
  excluded := false
  signatures := [[]]

/-- A class at the root of a forest. -/
def plainClass (name : String) (base : Option String) (methods : List Method) : Declaration :=
  .node ⟨name, name, 0, "", none⟩ (.ofClass ⟨base, [], methods⟩) []

/-- A class `Text` below a class `Base`, whose method `read` returns another type and is less
visible. -/
def textForest : Forest :=
  [plainClass "Base" none [plainMethod "Base" "read" "string" false .publicMember],
    plainClass "Text" (some "Base") [plainMethod "Text" "read" "int" false .protectedMember]]

/-- A class `any` below a class `Base` whose static method `create` returns `Base`. -/
def anyForest : Forest :=
  [plainClass "Base" none [plainMethod "Base" "create" "Base" true .publicMember],
    plainClass "any" (some "Base") [plainMethod "any" "create" "string" true .publicMember]]

/-- The index of two classes, the second one below `Base`. -/
def belowBase (name : String) : ClassIndex :=
  ⟨[⟨"Base", none, [0]⟩, ⟨name, some "Base", [1]⟩]⟩

theorem topDown_belowBase_text : (belowBase "Text").topDown = ["Base", "Text"] := by cbv

theorem topDown_belowBase_any : (belowBase "any").topDown = ["Base", "any"] := by cbv

theorem overrides_agree_textForest :
    ∃ i, ofForest textForest = .ok i ∧
      (∀ c ∈ textForest.classes, TypeSet.IsPlainName c.fullName) ∧
      ∃ c ∈ (textForest.reconcileOverrides i).classes, i.ChainEnds c.fullName ∧
        ∃ m ∈ c.body.methods, m.isConstructor = false ∧ ∃ ancestor base,
          i.overridden? (textForest.reconcileOverrides i).methodTable c.fullName m
            = some (ancestor, base) ∧
          (i.returnsCompatible m.returnTypes base.returnTypes = true
            ∨ base.returnTypes.isAny = true
            ∨ (c.fullName = anyName ∧ base.returnTypes.render = ancestor)) ∧
          (base.visibility = .publicMember → m.visibility = .publicMember) := by
  have hi : ofForest textForest = .ok (belowBase "Text") := rfl
  have hplain : ∀ c ∈ textForest.classes, TypeSet.IsPlainName c.fullName := by decide +kernel
  have hends : (belowBase "Text").ChainEnds "Text" := .next rfl (.top rfl)
  have hfound : ((textForest.reconcileOverrides (belowBase "Text")).classes.any fun c =>
      c.fullName == "Text" && c.body.methods.any fun m => !m.isConstructor &&
        ((belowBase "Text").overridden?
          (textForest.reconcileOverrides (belowBase "Text")).methodTable c.fullName m).isSome)
      = true := by
    rw [Forest.reconcileOverrides, topDown_belowBase_text]
    decide +kernel
  obtain ⟨c, hc, hcm⟩ := List.any_eq_true.1 hfound
  obtain ⟨hname, hany⟩ := Bool.and_eq_true_iff.1 hcm
  obtain ⟨m, hm, hmo⟩ := List.any_eq_true.1 hany
  obtain ⟨hctor, hsome⟩ := Bool.and_eq_true_iff.1 hmo
  obtain ⟨⟨ancestor, base⟩, hover⟩ := Option.isSome_iff_exists.1 hsome
  have hctor' : m.isConstructor = false := by simpa using hctor
  have hends' : (belowBase "Text").ChainEnds c.fullName := beq_iff_eq.1 hname ▸ hends
  exact ⟨_, hi, hplain, c, hc, hends', m, hm, hctor', ancestor, base, hover,
    overrides_agree hi hplain hc hends' hm hctor' hover⟩

/-- A method of a class called `any` keeps a return type that fits neither the overridden method nor
is it replaced. -/
theorem override_misfits_anyForest :
    ∃ i, ofForest anyForest = .ok i ∧
      (∀ c ∈ anyForest.classes, TypeSet.IsPlainName c.fullName) ∧
      ∃ c ∈ (anyForest.reconcileOverrides i).classes, i.ChainEnds c.fullName ∧
        ∃ m ∈ c.body.methods, m.isConstructor = false ∧ ∃ ancestor base,
          i.overridden? (anyForest.reconcileOverrides i).methodTable c.fullName m
            = some (ancestor, base) ∧
          ¬ (i.returnsCompatible m.returnTypes base.returnTypes = true
            ∨ base.returnTypes.isAny = true) := by
  have hi : ofForest anyForest = .ok (belowBase "any") := rfl
  have hplain : ∀ c ∈ anyForest.classes, TypeSet.IsPlainName c.fullName := by decide +kernel
  have hends : (belowBase "any").ChainEnds "any" := .next rfl (.top rfl)
  have hfound : ((anyForest.reconcileOverrides (belowBase "any")).classes.any fun c =>
      c.fullName == "any" && c.body.methods.any fun m => !m.isConstructor &&
        ((belowBase "any").overridden? (anyForest.reconcileOverrides (belowBase "any")).methodTable
          c.fullName m).any fun hit =>
            !((belowBase "any").returnsCompatible m.returnTypes hit.2.returnTypes
              || hit.2.returnTypes.isAny)) = true := by
    rw [Forest.reconcileOverrides, topDown_belowBase_any]
    decide +kernel
  obtain ⟨c, hc, hcm⟩ := List.any_eq_true.1 hfound
  obtain ⟨hname, hany⟩ := Bool.and_eq_true_iff.1 hcm
  obtain ⟨m, hm, hmo⟩ := List.any_eq_true.1 hany
  obtain ⟨hctor, hsome⟩ := Bool.and_eq_true_iff.1 hmo
  obtain ⟨⟨ancestor, base⟩, hover, hmisfit⟩ := (Option.any_eq_true _ _).1 hsome
  have hctor' : m.isConstructor = false := by simpa using hctor
  have hends' : (belowBase "any").ChainEnds c.fullName := beq_iff_eq.1 hname ▸ hends
  refine ⟨_, hi, hplain, c, hc, hends', m, hm, hctor', ancestor, base, hover, ?_⟩
  simpa using hmisfit

end ClassIndex

end ApiTypings
