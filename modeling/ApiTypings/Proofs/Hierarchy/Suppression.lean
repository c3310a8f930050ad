/-
# Suppressed methods

A method that repeats the method it overrides is not declared again.  TypeScript finds it further
up: the look-up goes through the chain of base classes to the first class that declares a method of
its name and staticness.

Suppression compares a method with the nearest one above it and looks at nothing else.  Behind the
suppressed methods there is one that is not suppressed and has the same return types and parameters.
The look-up finds it, unless a class on the way declares another method of the name, or the settings
leave it out.

* `settled_reconciled` : which methods of a reconciled table are suppressed;
* `exists_repeated` : the method behind the suppressed ones;
* `suppressed_isFound_iff` : when the look-up finds the method.
-/
import ApiTypings.Proofs.Forest.Places
import ApiTypings.Proofs.Hierarchy.PlainClasses
import ApiTypings.Proofs.Method

namespace ApiTypings

/-! ## Repeated methods -/

namespace Parameter

theorem isEquivalent_iff {p q : Parameter} :
    p.isEquivalent q = true ↔ (p.types == q.types) = true ∧ p.optional = q.optional := by
  rw [isEquivalent, Bool.and_eq_true]
  exact and_congr_right fun _ => beq_iff_eq

theorem isEquivalent_trans {p q r : Parameter} (hpq : p.isEquivalent q = true)
    (hqr : q.isEquivalent r = true) : p.isEquivalent r = true := by
  rw [isEquivalent_iff] at *
  exact ⟨TypeSet.beq_trans hpq.1 hqr.1, hpq.2.trans hqr.2⟩

theorem isEquivalent_symm {p q : Parameter} (hnd : p.types.keys.Nodup)
    (h : p.isEquivalent q = true) : q.isEquivalent p = true := by
  rw [isEquivalent_iff] at *
  exact ⟨TypeSet.beq_symm hnd h.1, h.2.symm⟩

end Parameter

namespace Method

/-- Whether a call of the method `m` may mean `k`: they have the same name and staticness. -/
def sameCall (m k : Method) : Bool := k.name == m.name && k.isStatic == m.isStatic

/-- A method has the name, staticness, return types and parameters of another. -/
structure Repeats (k m : Method) : Prop where
  name_eq : k.name = m.name
  isStatic_eq : k.isStatic = m.isStatic
  returnTypes_beq : (k.returnTypes == m.returnTypes) = true
  parameters : List.Forall₂ (fun p q => p.isEquivalent q = true) k.parameters m.parameters

theorem equivalentParameters_iff {ps qs : List Parameter} :
    equivalentParameters ps qs = true ↔
      List.Forall₂ (fun p q => p.isEquivalent q = true) ps qs := by
  rw [List.forall₂_iff_zip, equivalentParameters, Bool.and_eq_true, beq_iff_eq, List.all_eq_true]
  exact and_congr_right fun _ => ⟨fun h p q hpq => h (p, q) hpq, fun h pq hpq => h hpq⟩

theorem isIdenticalTo_iff {k m : Method} (hstatic : k.isStatic = m.isStatic) :
    k.isIdenticalTo m k.returnTypes = true ↔ k.Repeats m := by
  rw [isIdenticalTo, Bool.and_eq_true, Bool.and_eq_true, beq_iff_eq, equivalentParameters_iff]
  exact ⟨fun ⟨⟨h1, h2⟩, h3⟩ => ⟨h1, hstatic, h2, h3⟩, fun h => ⟨⟨h.name_eq, h.returnTypes_beq⟩,
    h.parameters⟩⟩

theorem Repeats.trans {a b c : Method} (hab : a.Repeats b) (hbc : b.Repeats c) : a.Repeats c where
  name_eq := hab.name_eq.trans hbc.name_eq
  isStatic_eq := hab.isStatic_eq.trans hbc.isStatic_eq
  returnTypes_beq := TypeSet.beq_trans hab.returnTypes_beq hbc.returnTypes_beq
  parameters := by
    have hps := hab.parameters
    have hqs := hbc.parameters
    generalize a.parameters = ps at hps
    generalize b.parameters = qs at hps hqs
    generalize c.parameters = rs at hqs
    induction hps generalizing rs with
    | nil =>
      rw [List.forall₂_nil_left_iff.1 hqs]
      exact .nil
    | cons hpq _ ih =>
      cases hqs with
      | cons hqr hrest => exact .cons (Parameter.isEquivalent_trans hpq hqr) (ih _ hrest)

/-- Methods whose types are spelled without repetition repeat each other. -/
theorem Repeats.symm {a b : Method} (hreturn : a.returnTypes.keys.Nodup)
    (hparameters : ∀ p ∈ a.parameters, p.types.keys.Nodup) (h : a.Repeats b) : b.Repeats a where
  name_eq := h.name_eq.symm
  isStatic_eq := h.isStatic_eq.symm
  returnTypes_beq := TypeSet.beq_symm hreturn h.returnTypes_beq
  parameters := by
    refine List.Forall₂.flip (List.Forall₂.imp (fun p q hpq => ?_)
      ((List.forall₂_and_left _ _).2 ⟨hparameters, h.parameters⟩))
    exact Parameter.isEquivalent_symm hpq.1 hpq.2

theorem sameCall_iff {m k : Method} :
    m.sameCall k = true ↔ k.name = m.name ∧ k.isStatic = m.isStatic := by
  rw [sameCall, Bool.and_eq_true, beq_iff_eq, beq_iff_eq]

end Method

namespace ClassIndex

variable {settings : Settings} {i : ClassIndex} {t : MethodTable}

/-! ## One method -/

/-- What is settled when a method is built stays when it is brought in line. -/
theorem isBuilt_applyTo {owner : String} {ownerKind : SymbolKind} {m : Method}
    (h : m.IsBuilt settings owner ownerKind) (r : Reconciliation) :
    (r.applyTo m).IsBuilt settings owner ownerKind :=
  ⟨h.ownerKind_eq, h.excluded_eq, h.nodup_parameters⟩

/-- A method can only override methods of its name and staticness. -/
theorem sameCall_of_overridden? {name a : String} {m b : Method}
    (h : i.overridden? t name m = some (a, b)) : m.sameCall b = true := by
  obtain ⟨_, _, methods, -, -, hfind, -⟩ := overridden?_eq_some.1 h
  have hcan := List.find?_some hfind
  rw [Method.canOverride, Bool.and_assoc, Bool.and_eq_true] at hcan
  exact hcan.2

/-- Against one overridden method, an instance method is suppressed if its changed form repeats
that method. -/
theorem ignore_reconcile {name a : String} {m b : Method} (hsame : m.sameCall b = true) :
    (i.reconcile name m a b).ignore = true ↔
      m.isStatic = false ∧ ((i.reconcile name m a b).applyTo m).Repeats b := by
  have hstatic : ((i.reconcile name m a b).applyTo m).isStatic = b.isStatic :=
    (Method.sameCall_iff.1 hsame).2.symm
  rw [← Method.isIdenticalTo_iff hstatic]
  show (!m.isStatic && m.isIdenticalTo b _) = true ↔ _
  rw [Bool.and_eq_true, Bool.not_eq_true']
  rfl

/-- A method is suppressed exactly when it is an instance method that, after its changes, repeats
the method it overrides. -/
theorem ignore_applyTo {name : String} {m : Method} (hm : m.ignore = false) :
    ((i.reconcileMethod t name m).applyTo m).ignore = true ↔
      m.isConstructor = false ∧ m.isStatic = false ∧ ∃ a b, i.overridden? t name m = some (a, b) ∧
        ((i.reconcileMethod t name m).applyTo m).Repeats b := by
  -- no documented method is suppressed, so the change alone decides
  have hignore : ((i.reconcileMethod t name m).applyTo m).ignore
      = (i.reconcileMethod t name m).ignore := by
    show (m.ignore || (i.reconcileMethod t name m).ignore) = _
    rw [hm, Bool.false_or]
  rw [hignore]
  cases hctor : m.isConstructor with
  | true => simp [reconcileMethod_of_none (Or.inl hctor), Reconciliation.unchanged]
  | false =>
    cases hover : i.overridden? t name m with
    | none => simp [reconcileMethod_of_none (Or.inr hover), Reconciliation.unchanged]
    | some pair =>
      obtain ⟨a, b⟩ := pair
      rw [reconcileMethod_of_overridden hctor hover,
        ignore_reconcile (sameCall_of_overridden? hover)]
      constructor
      · exact fun h => ⟨rfl, h.1, a, b, rfl, h.2⟩
      · rintro ⟨-, hstatic, a', b', hpair, hrepeats⟩
        obtain ⟨rfl, rfl⟩ := Prod.mk.inj (Option.some.inj hpair)
        exact ⟨hstatic, hrepeats⟩

/-- The return types of a method after its changes are spelled without repetition, if they were so
before and are so above. -/
theorem nodup_returnTypes_applyTo {name : String} {m : Method} (hm : m.returnTypes.keys.Nodup)
    (habove : ∀ a b, i.overridden? t name m = some (a, b) → b.returnTypes.keys.Nodup) :
    ((i.reconcileMethod t name m).applyTo m).returnTypes.keys.Nodup := by
  cases hctor : m.isConstructor with
  | true => rwa [reconcileMethod_of_none (Or.inl hctor)]
  | false =>
    cases hover : i.overridden? t name m with
    | none => rwa [reconcileMethod_of_none (Or.inr hover)]
    | some pair =>
      obtain ⟨a, b⟩ := pair
      rw [reconcileMethod_of_overridden hctor hover]
      show ((i.replacedReturn? name m a b).getD m.returnTypes).keys.Nodup
      have hrequired : (requiredReturn name a b).keys.Nodup := by
        unfold requiredReturn
        split
        · exact TypeSet.nodup_keys_parse name
        · exact habove a b hover
      unfold replacedReturn?
      split
      · exact hm
      · split
        · exact hm
        · exact hrequired

/-! ## Reconciled tables -/

/-- What the reconciler leaves in a table: built methods, suppressed where they repeat the method
they override. -/
structure Settled (settings : Settings) (i : ClassIndex) (t : MethodTable) : Prop where
  isBuilt : ∀ {name methods m}, t.get? name = some methods → m ∈ methods →
    m.IsBuilt settings name .classKind
  nodup_returnTypes : ∀ {name methods m}, t.get? name = some methods → m ∈ methods →
    m.returnTypes.keys.Nodup
  ignore_eq_true_iff : ∀ {name methods m}, t.get? name = some methods → m ∈ methods →
    (m.ignore = true ↔ i.ChainEnds name ∧ m.isConstructor = false ∧ m.isStatic = false ∧
      ∃ a b, i.overridden? t name m = some (a, b) ∧ m.Repeats b)

section

variable {symbols : List Symbol} {declared : Forest}

/-- Documented methods, before they are brought in line. -/
theorem isBuilt_of_declarations (hdeclared : Forest.declarations settings symbols = .ok declared)
    {c : ClassDecl} (hc : c ∈ declared.classes) {m : Method} (hm : m ∈ c.body.methods) :
    m.IsBuilt settings c.fullName .classKind ∧ m.ignore = false ∧ m.returnTypes.keys.Nodup := by
  obtain ⟨s, hname, hbody⟩ := Forest.classBody_of_declarations hdeclared hc
  rw [← hname]
  exact Declaration.isBuilt_of_classBody hbody m hm

/-- The return types of the methods of a reconciled forest are spelled without repetition. -/
theorem nodup_returnTypes_reconciled
    (hdeclared : Forest.declarations settings symbols = .ok declared)
    (hi : ofForest declared = .ok i) {name : String} (hends : i.ChainEnds name) :
    ∀ c ∈ (declared.reconcileOverrides i).classes, c.fullName = name →
      ∀ m ∈ c.body.methods, m.returnTypes.keys.Nodup := by
  refine ChainEnds.above_induction ?_ hends
  rintro name hends ih c hc rfl m hm
  obtain ⟨d, hd, -, doc, hdoc, rfl⟩ := method_of_reconciled hi hc hends hm
  apply nodup_returnTypes_applyTo (isBuilt_of_declarations hdeclared hd hdoc).2.2
  intro a b hover
  obtain ⟨habove, methods, hget, hb⟩ := mem_of_overridden? hover
  obtain ⟨e, he, hname, rfl⟩ := Forest.class_of_get? hget
  exact ih a habove e he hname b hb

/-- A method of a reconciled table is a documented one, aligned if the chain of its class ends. -/
theorem documented_or_aligned (hdeclared : Forest.declarations settings symbols = .ok declared)
    (hi : ofForest declared = .ok i) {name : String} {methods : List Method} {m : Method}
    (hget : (declared.reconcileOverrides i).methodTable.get? name = some methods)
    (hm : m ∈ methods) :
    ∃ doc : Method, (doc.IsBuilt settings name .classKind ∧ doc.ignore = false ∧
        doc.returnTypes.keys.Nodup) ∧
      ((i.ChainEnds name ∧ m.returnTypes.keys.Nodup ∧ m = (i.reconcileMethod
          (declared.reconcileOverrides i).methodTable name doc).applyTo doc) ∨
        (¬ i.ChainEnds name ∧ m = doc)) := by
  obtain ⟨c, hc, rfl, rfl⟩ := Forest.class_of_get? hget
  by_cases hends : i.ChainEnds c.fullName
  · obtain ⟨d, hd, hname, doc, hdoc, hdocm⟩ := method_of_reconciled hi hc hends hm
    have hnodup := nodup_returnTypes_reconciled hdeclared hi hends c hc rfl m hm
    exact ⟨doc, hname ▸ isBuilt_of_declarations hdeclared hd hdoc, Or.inl ⟨hends, hnodup, hdocm⟩⟩
  · obtain ⟨d, hd, hname, -, -, hkept⟩ := Forest.class_of_reconciled hi hc
    rw [hkept hends] at hm
    exact ⟨m, hname ▸ isBuilt_of_declarations hdeclared hd hm, Or.inr ⟨hends, rfl⟩⟩

/-- The table of a reconciled forest is settled. -/
theorem settled_reconciled (hdeclared : Forest.declarations settings symbols = .ok declared)
    (hi : ofForest declared = .ok i) :
    Settled settings i (declared.reconcileOverrides i).methodTable where
  isBuilt := by
    intro name methods m hget hm
    obtain ⟨doc, hdoc, ⟨-, -, rfl⟩ | ⟨-, rfl⟩⟩ := documented_or_aligned hdeclared hi hget hm
    · exact isBuilt_applyTo hdoc.1 _
    · exact hdoc.1
  nodup_returnTypes := by
    intro name methods m hget hm
    obtain ⟨doc, hdoc, ⟨-, hnodup, -⟩ | ⟨-, rfl⟩⟩ := documented_or_aligned hdeclared hi hget hm
    · exact hnodup
    · exact hdoc.2.2
  ignore_eq_true_iff := by
    intro name methods m hget hm
    obtain ⟨doc, hdoc, ⟨hends, -, rfl⟩ | ⟨hends, rfl⟩⟩ :=
      documented_or_aligned hdeclared hi hget hm
    · rw [ignore_applyTo hdoc.2.1, overridden?_applyTo, Method.isConstructor_applyTo]
      exact (and_iff_right hends).symm
    · rw [hdoc.2.1]
      exact iff_of_false Bool.false_ne_true fun h => hends h.1

end

/-! ## Behind suppressed methods -/

/-- Methods of classes are constructors by their names. -/
theorem isConstructor_congr {owner owner' : String} {k m : Method}
    (hk : k.IsBuilt settings owner .classKind) (hm : m.IsBuilt settings owner' .classKind)
    (hname : k.name = m.name) : k.isConstructor = m.isConstructor := by
  rw [Method.isConstructor, Method.isConstructor, hname, hk.ownerKind_eq, hm.ownerKind_eq]

/-- Methods of one name and staticness override the same method. -/
theorem overridden?_congr_call {name : String} {k m : Method} (hname : k.name = m.name)
    (hstatic : k.isStatic = m.isStatic) : i.overridden? t name k = i.overridden? t name m := by
  have hcan : k.canOverride = m.canOverride := by
    funext base
    rw [Method.canOverride, Method.canOverride, hname, hstatic]
  unfold overridden?
  rw [hcan]

namespace Settled

/-- In a class with a suppressed method every method that repeats it is suppressed. -/
theorem ignore_of_repeats (hs : Settled settings i t) {name : String} {methods : List Method}
    {k m : Method} (hget : t.get? name = some methods) (hk : k ∈ methods) (hm : m ∈ methods)
    (hignore : m.ignore = true) (hrepeats : k.Repeats m) : k.ignore = true := by
  obtain ⟨hends, hctor, hstatic, a, b, hover, hb⟩ := (hs.ignore_eq_true_iff hget hm).1 hignore
  refine (hs.ignore_eq_true_iff hget hk).2 ⟨hends, ?_, ?_, a, b, ?_, hrepeats.trans hb⟩
  · rw [isConstructor_congr (hs.isBuilt hget hk) (hs.isBuilt hget hm) hrepeats.name_eq, hctor]
  · rw [hrepeats.isStatic_eq, hstatic]
  · rw [overridden?_congr_call hrepeats.name_eq hrepeats.isStatic_eq, hover]

/-- A class without a method that a suppressed method can override has none that repeats it. -/
theorem not_repeats_of_find? (hs : Settled settings i t) {name n : String}
    {methods ks : List Method} {k m : Method} (hget : t.get? name = some methods)
    (hm : m ∈ methods) (hignore : m.ignore = true)
    (hks : t.get? n = some ks) (hnone : ks.find? m.canOverride = none) (hk : k ∈ ks) :
    ¬ k.Repeats m := by
  intro hrepeats
  have hctor := ((hs.ignore_eq_true_iff hget hm).1 hignore).2.1
  have hkctor := isConstructor_congr (hs.isBuilt hks hk) (hs.isBuilt hget hm) hrepeats.name_eq
  apply List.find?_eq_none.1 hnone k hk
  simp [Method.canOverride, hkctor, hctor, hrepeats.name_eq, hrepeats.isStatic_eq]

/-- Behind a suppressed method there is one that is not suppressed and that it repeats.  On the way
there, every method that repeats it is suppressed too. -/
theorem exists_repeated (hs : Settled settings i t) {name : String} (hends : i.ChainEnds name) :
    ∀ methods m, t.get? name = some methods → m ∈ methods → m.ignore = true →
      ∃ below repeated above others base, i.chainFrom [] name = below ++ repeated :: above ∧
        t.get? repeated = some others ∧ base ∈ others ∧ base.ignore = false ∧ m.Repeats base ∧
        ∀ n ∈ below, ∀ ks, t.get? n = some ks → ∀ k ∈ ks, k.Repeats m → k.ignore = true := by
  refine ChainEnds.above_induction ?_ hends
  intro name hends ih methods m hget hm hignore
  obtain ⟨-, -, -, a, b, hover, hb⟩ := (hs.ignore_eq_true_iff hget hm).1 hignore
  obtain ⟨between, above, others, hsplit, hother, hfind, hbetween⟩ := overridden?_eq_some.1 hover
  have hchain : i.chainFrom [] name = name :: between ++ a :: above := by
    rw [hends.chainFrom_nil, hsplit]
    rfl
  have hpassed : ∀ n ∈ name :: between, ∀ ks, t.get? n = some ks → ∀ k ∈ ks, k.Repeats m →
      k.ignore = true := by
    intro n hn ks hks k hk hrepeats
    rcases List.mem_cons.1 hn with rfl | hn
    · obtain rfl := Option.some.inj (hget.symm.trans hks)
      exact hs.ignore_of_repeats hget hk hm hignore hrepeats
    · exact absurd hrepeats
        (hs.not_repeats_of_find? hget hm hignore hks (hbetween n hn ks hks) hk)
  have hmem : b ∈ others := List.mem_of_find?_eq_some hfind
  cases hbignore : b.ignore with
  | false => exact ⟨_, a, above, others, b, hchain, hother, hmem, hbignore, hb, hpassed⟩
  | true =>
    -- the overridden method is suppressed itself, so the way goes on at its class
    have habove : a ∈ i.ancestors name := by
      rw [hsplit]
      exact List.mem_append_right _ List.mem_cons_self
    obtain ⟨below', repeated, above', others', base, hchain', hother', hbase, hbaseignore, hrepeats,
      hpassed'⟩ := ih a habove others b hother hmem hbignore
    have hrest : a :: above = below' ++ repeated :: above' := by
      rw [← hchain', (hends.of_mem_ancestors habove).chainFrom_nil, hends.ancestors_append hsplit]
    refine ⟨name :: between ++ below', repeated, above', others', base, ?_, hother', hbase,
      hbaseignore, hb.trans hrepeats, fun n hn ks hks k hk hkm => ?_⟩
    · rw [hchain, hrest, List.append_assoc]
    · rcases List.mem_append.1 hn with hn | hn
      · exact hpassed n hn ks hks k hk hkm
      · exact hpassed' n hn ks hks k hk (hkm.trans hb)

end Settled

/-! ## Looking a method up -/

/-- Whether a class declares a method that a call of `m` may mean. -/
def emits (t : MethodTable) (m : Method) (name : String) : Bool :=
  ((t.get? name).getD []).any fun k => k.isEmitted && m.sameCall k

/-- The look-up of `m` along a chain of classes stops at a class that declares `m` or a method that
repeats it. -/
def IsFound (t : MethodTable) (m : Method) (chain : List String) : Prop :=
  ∃ name methods k, chain.find? (emits t m) = some name ∧ t.get? name = some methods ∧
    k ∈ methods ∧ k.isEmitted = true ∧ k.Repeats m

theorem isFound_append {m : Method} {below above : List String}
    (hbelow : ∀ n ∈ below, emits t m n = false) :
    IsFound t m (below ++ above) ↔ IsFound t m above := by
  have hnone : below.find? (emits t m) = none :=
    List.find?_eq_none.2 fun n hn => by simp [hbelow n hn]
  rw [IsFound, IsFound, List.find?_append, hnone, Option.none_or]

/-- The look-up passes classes in which all that repeats the method is suppressed, or it fails. -/
theorem emits_eq_false_of_isFound {m : Method} {below above : List String}
    (hpassed : ∀ n ∈ below, ∀ ks, t.get? n = some ks → ∀ k ∈ ks, k.Repeats m → k.ignore = true)
    (hfound : IsFound t m (below ++ above)) : ∀ n ∈ below, emits t m n = false := by
  obtain ⟨name, methods, k, hfind, hget, hk, hemitted, hrepeats⟩ := hfound
  cases hbelow : below.find? (emits t m) with
  | none => exact fun n hn => by simpa using List.find?_eq_none.1 hbelow n hn
  | some n =>
    rw [List.find?_append, hbelow, Option.some_or] at hfind
    obtain rfl := Option.some.inj hfind
    have hignore := hpassed n (List.mem_of_find?_eq_some hbelow) methods hget k hk hrepeats
    rw [Method.isEmitted, hignore] at hemitted
    exact absurd hemitted (by simp)

/-- A class declares a method that is neither suppressed nor left out. -/
theorem emits_of_not_excluded {m base : Method} {repeated : String} {others : List Method}
    (hget : t.get? repeated = some others) (hbase : base ∈ others)
    (hemitted : base.isEmitted = true) (hsame : m.sameCall base = true) :
    emits t m repeated = true := by
  rw [emits, hget, Option.getD_some, List.any_eq_true]
  exact ⟨base, hbase, by rw [hemitted, hsame]; rfl⟩

/-- With one method the settings leave out all methods of its class that have its name and
staticness. -/
theorem emits_of_excluded (hs : Settled settings i t) {m base : Method} {repeated : String}
    {others : List Method} (hget : t.get? repeated = some others) (hbase : base ∈ others)
    (hexcluded : base.excluded = true) (hsame : m.sameCall base = true) :
    emits t m repeated = false := by
  rw [emits, hget, Option.getD_some, List.any_eq_false]
  intro k hk hboth
  obtain ⟨hkemitted, hksame⟩ := Bool.and_eq_true_iff.1 hboth
  obtain ⟨hname, hstatic⟩ := Method.sameCall_iff.1 hksame
  obtain ⟨hname', hstatic'⟩ := Method.sameCall_iff.1 hsame
  -- whether a method is left out depends on its class, name and staticness only
  have hkexcluded : k.excluded = base.excluded := by
    rw [(hs.isBuilt hget hk).excluded_eq, (hs.isBuilt hget hbase).excluded_eq, hname, hstatic,
      hname', hstatic']
  rw [Method.isEmitted, hkexcluded, hexcluded] at hkemitted
  exact absurd hkemitted (by simp)

/-- The look-up at a class with a method that is not suppressed and repeated by `m`. -/
theorem isFound_cons (hs : Settled settings i t) {m base : Method} {repeated : String}
    {above : List String} {others : List Method} (hget : t.get? repeated = some others)
    (hbase : base ∈ others) (hignore : base.ignore = false) (hrepeats : base.Repeats m) :
    IsFound t m (repeated :: above) ↔ base.excluded = false ∨ IsFound t m above := by
  have hsame : m.sameCall base = true :=
    Method.sameCall_iff.2 ⟨hrepeats.name_eq, hrepeats.isStatic_eq⟩
  cases hexcluded : base.excluded with
  | false =>
    have hemitted : base.isEmitted = true := by
      rw [Method.isEmitted, hignore, hexcluded]
      rfl
    have hfind := List.find?_cons_of_pos (l := above)
      (emits_of_not_excluded hget hbase hemitted hsame)
    exact iff_of_true ⟨repeated, others, base, hfind, hget, hbase, hemitted, hrepeats⟩ (Or.inl rfl)
  | true =>
    have hnone : ∀ n ∈ [repeated], emits t m n = false := by
      simpa using emits_of_excluded hs hget hbase hexcluded hsame
    rw [← List.singleton_append, isFound_append hnone]
    simp

/-- **Suppression.**  In the forest of some symbols a suppressed method repeats a method of a class
above that is not suppressed.  The look-up along the base classes finds it, or another method that
repeats it, exactly when no class below that one declares a method of its name and staticness, and
the settings do not leave it out or the look-up succeeds further up. -/
theorem suppressed_isFound_iff {symbols : List Symbol} {forest : Forest}
    (h : Forest.ofSymbols settings symbols = .ok forest) :
    ∃ i, ofForest forest = .ok i ∧ ∀ c ∈ forest.classes, ∀ m ∈ c.body.methods, m.ignore = true →
      ∃ below repeated above others base,
        i.chainFrom [] c.fullName = below ++ repeated :: above ∧
        forest.methodTable.get? repeated = some others ∧ base ∈ others ∧ base.ignore = false ∧
        m.Repeats base ∧
        (IsFound forest.methodTable m (i.chainFrom [] c.fullName) ↔
          (∀ n ∈ below, emits forest.methodTable m n = false) ∧
            (base.excluded = false ∨ IsFound forest.methodTable m above)) := by
  obtain ⟨declared, i, hdeclared, hi, rfl⟩ := Forest.ofSymbols_eq_ok h
  have hs := settled_reconciled hdeclared hi
  have hi' := Forest.ofForest_reconcileOverrides hi
  refine ⟨i, hi', fun c hc m hm hignore => ?_⟩
  have hget := Forest.get?_methodTable (nodup_fullNames hi') hc
  have hends := ((hs.ignore_eq_true_iff hget hm).1 hignore).1
  obtain ⟨below, repeated, above, others, base, hchain, hother, hbase, hbaseignore, hrepeats,
    hpassed⟩ := hs.exists_repeated hends _ m hget hm hignore
  -- the look-up asks for a method that repeats `m`, the chain gives one that `m` repeats
  have hsymm : base.Repeats m := hrepeats.symm (hs.nodup_returnTypes hget hm)
    (hs.isBuilt hget hm).nodup_parameters
  have hcons : IsFound _ m (repeated :: above) ↔ base.excluded = false ∨ IsFound _ m above :=
    isFound_cons hs hother hbase hbaseignore hsymm
  refine ⟨below, repeated, above, others, base, hchain, hother, hbase, hbaseignore, hrepeats, ?_⟩
  rw [hchain]
  constructor
  · intro hfound
    have hbelow := emits_eq_false_of_isFound hpassed hfound
    exact ⟨hbelow, hcons.1 ((isFound_append hbelow).1 hfound)⟩
  · rintro ⟨hbelow, habove⟩
    exact (isFound_append hbelow).2 (hcons.2 habove)

/-! ## A repeated method -/

/-- A method `getText`. -/
def getText (returns : String) : MethodDoc := plainDoc "getText" returns .publicMember

/-- A class `Text` below a class `Base`, with the same method. -/
def textSymbols : List Symbol :=
  [classSymbol "Base" none [getText "string"], classSymbol "Text" (some "Base") [getText "string"]]

/-- Settings that leave out the method of `Base`. -/
def withoutBaseText : Settings := { ignored := { methods := ⟨["Base.getText"]⟩ } }

/-- A class `Text` below a class `Base`, with the same method and another one of its name. -/
def twoTextsSymbols : List Symbol :=
  [classSymbol "Base" none [getText "string"],
    classSymbol "Text" (some "Base") [getText "string", getText "any"]]

/-- The two classes as documented. -/
def twoTextsForest : Forest :=
  Forest.baseAndText [plainMethod "Base" "getText" "string" false .publicMember]
    [plainMethod "Text" "getText" "string" false .publicMember,
      plainMethod "Text" "getText" "any" false .publicMember]

theorem declarations_twoTextsSymbols :
    Forest.declarations {} twoTextsSymbols = .ok twoTextsForest := by
  have hbase : Method.build {} (getText "string") "Base" .classKind = .ok _ :=
    Method.build_plainDoc (by decide +kernel) (by decide +kernel)
  have htext : Method.build {} (getText "string") "Text" .classKind = .ok _ :=
    Method.build_plainDoc (by decide +kernel) (by decide +kernel)
  have hany : Method.build {} (getText "any") "Text" .classKind = .ok _ :=
    Method.build_plainDoc (by decide +kernel) (by decide +kernel)
  refine Forest.declarations_baseAndText ?_ ?_
  · exact Declaration.classBody_classSymbol rfl rfl (.cons hbase .nil) (List.pairwise_singleton _ _)
  · exact Declaration.classBody_classSymbol rfl (by decide +kernel) (.cons htext (.cons hany .nil))
      (by decide)

/-- A suppressed method of `Text` in the forest of the two classes, found by evaluation. -/
theorem exists_suppressed (settings : Settings) {p : MethodTable → Method → Bool}
    (h : ((Forest.level settings [] (textSymbols.map .ofSymbol)).toOption.any fun declared =>
      (ofForest declared).toOption.any (·.entries == (belowBase "Text").entries) &&
        (Forest.classes (alignedText declared)).any fun c => c.fullName == "Text" &&
          c.body.methods.any fun m => m.ignore && p (alignedText declared).methodTable m) = true) :
    ∃ forest, Forest.ofSymbols settings textSymbols = .ok forest ∧
      ofForest forest = .ok (belowBase "Text") ∧ ∃ c ∈ forest.classes, c.fullName = "Text" ∧
        ∃ m ∈ c.body.methods, m.ignore = true ∧ p forest.methodTable m = true := by
  obtain ⟨declared, hlevel, hdeclared⟩ := exists_ok_of_any h
  obtain ⟨hindex, hany⟩ := Bool.and_eq_true_iff.1 hdeclared
  obtain ⟨⟨entries⟩, hi, hentries⟩ := exists_ok_of_any hindex
  obtain rfl : entries = (belowBase "Text").entries := beq_iff_eq.1 hentries
  -- a merge sort does not evaluate here; the two names are in order already
  have hsorted : Forest.sortedByName textSymbols = textSymbols :=
    List.mergeSort_of_pairwise (by decide +kernel)
  have hforest : Forest.ofSymbols settings textSymbols = .ok (alignedText declared) := by
    refine ofSymbols_baseAndText ?_ hi
    rw [Forest.declarations, hsorted]
    exact hlevel
  obtain ⟨c, hc, hcm⟩ := List.any_eq_true.1 hany
  obtain ⟨hname, hm⟩ := Bool.and_eq_true_iff.1 hcm
  obtain ⟨m, hm, hp⟩ := List.any_eq_true.1 hm
  obtain ⟨hignore, hp⟩ := Bool.and_eq_true_iff.1 hp
  exact ⟨_, hforest, ofForest_alignedText hi, c, hc, beq_iff_eq.1 hname, m, hm, hignore, hp⟩

theorem suppressed_isFound_iff_textSymbols :
    ∃ forest i, Forest.ofSymbols {} textSymbols = .ok forest ∧ ofForest forest = .ok i ∧
      ∃ c ∈ forest.classes, ∃ m ∈ c.body.methods, m.ignore = true ∧
        ∃ below repeated above others base,
          i.chainFrom [] c.fullName = below ++ repeated :: above ∧
          forest.methodTable.get? repeated = some others ∧ base ∈ others ∧ base.ignore = false ∧
          m.Repeats base ∧
          (IsFound forest.methodTable m (i.chainFrom [] c.fullName) ↔
            (∀ n ∈ below, emits forest.methodTable m n = false) ∧
              (base.excluded = false ∨ IsFound forest.methodTable m above)) := by
  obtain ⟨forest, hforest, -, c, hc, -, m, hm, hignore, -⟩ :=
    exists_suppressed {} (p := fun _ _ => true) (by decide +kernel)
  obtain ⟨i, hi, hfound⟩ := suppressed_isFound_iff hforest
  exact ⟨forest, i, hforest, hi, c, hc, m, hm, hignore, hfound c hc m hm hignore⟩

theorem chainFrom_text : (belowBase "Text").chainFrom [] "Text" = ["Text", "Base"] := by
  decide +kernel

/-- A suppressed method cannot be found when the settings leave out the only method it repeats.  Nor
can it, whatever the settings, when another method of its name stays in its class. -/
theorem suppressed_not_isFound_withoutBaseText :
    (∃ forest i, Forest.ofSymbols withoutBaseText textSymbols = .ok forest ∧
      ofForest forest = .ok i ∧ ∃ c ∈ forest.classes, ∃ m ∈ c.body.methods, m.ignore = true ∧
        ¬ IsFound forest.methodTable m (i.chainFrom [] c.fullName)) ∧
    ∃ forest i, Forest.ofSymbols {} twoTextsSymbols = .ok forest ∧
      ofForest forest = .ok i ∧ (∀ c ∈ forest.classes, ∀ m ∈ c.body.methods, m.excluded = false) ∧
      ∃ c ∈ forest.classes, ∃ m ∈ c.body.methods, m.ignore = true ∧
        ¬ IsFound forest.methodTable m (i.chainFrom [] c.fullName) := by
  constructor
  · obtain ⟨forest, hforest, hi, c, hc, hname, m, hm, hignore, hemits⟩ :=
      exists_suppressed withoutBaseText
        (p := fun t m => !(["Text", "Base"].any (emits t m))) (by decide +kernel)
    refine ⟨forest, _, hforest, hi, c, hc, m, hm, hignore, ?_⟩
    rintro ⟨name, methods, k, hfind, -⟩
    rw [hname, chainFrom_text] at hfind
    have hany : ["Text", "Base"].any (emits forest.methodTable m) = true :=
      List.any_eq_true.2 ⟨name, List.mem_of_find?_eq_some hfind, List.find?_some hfind⟩
    rw [hany] at hemits
    exact Bool.false_ne_true hemits
  · have hforest := ofSymbols_baseAndText declarations_twoTextsSymbols rfl
    have hkept : ∀ c ∈ (alignedText twoTextsForest).classes, ∀ m ∈ c.body.methods,
        m.excluded = false := by decide +kernel
    -- the look-up stops at `Text`, and what that class declares returns another type
    have hother : ∃ c ∈ (alignedText twoTextsForest).classes, c.fullName = "Text" ∧
        ∃ m ∈ c.body.methods, m.ignore = true ∧
          ["Text", "Base"].find? (emits (alignedText twoTextsForest).methodTable m) = some "Text" ∧
          ∀ k ∈ ((alignedText twoTextsForest).methodTable.get? "Text").getD [],
            k.isEmitted = true → (k.returnTypes == m.returnTypes) = false := by decide +kernel
    obtain ⟨c, hc, hname, m, hm, hignore, hstop, hreturns⟩ := hother
    refine ⟨_, _, hforest, ofForest_alignedText rfl, hkept, c, hc, m, hm, hignore, ?_⟩
    rintro ⟨name, methods, k, hfind, hget, hk, hemitted, hrepeats⟩
    rw [hname, chainFrom_text, hstop] at hfind
    obtain rfl := Option.some.inj hfind
    rw [hget] at hreturns
    exact Bool.false_ne_true ((hreturns k hk hemitted).symm.trans hrepeats.returnTypes_beq)

end ClassIndex

end ApiTypings
