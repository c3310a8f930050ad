/-
# Methods by recursion along the chain

What the loop of the reconciler leaves behind can be said without a loop.  The methods of a class
are resolved when they are the documented ones, each brought in line once with the first one that it
overrides among the resolved methods of the classes above.  This is a recursion along the chain of
base classes, and makes sense where the chain ends.  There the loop computes it; a class whose chain
runs into a cycle stays as it is.

* `get?_resolveChain` : along a chain that ends, resolved methods are those of the reconciler;
* `resolved_eq` : the recursion from class to class;
* `loop_resolves` : the loop halts with resolved methods and changes nothing else.
-/
import ApiTypings.Proofs.Hierarchy.Agreement
import ApiTypings.Proofs.Hierarchy.Worklist

namespace ApiTypings

namespace ClassIndex

variable {i : ClassIndex}

/-! ## Resolved methods -/

/-- The classes of a chain, the nearest one first, with their methods: the documented ones, brought
in line with those of the classes behind.  The chain stops at a name outside the table. -/
def resolveChain (i : ClassIndex) (t : MethodTable) : List String → MethodTable
  | [] => []
  | name :: above =>
    match t.get? name with
    | none => []
    | some methods =>
      (name, i.alignedMethods (resolveChain i t above) name methods) :: resolveChain i t above

/-- The methods of a class, resolved along its chain. -/
def resolved (i : ClassIndex) (t : MethodTable) (name : String) : List Method :=
  ((i.resolveChain t (i.chainFrom [] name)).get? name).getD []

/-- The table with the resolved methods of every class. -/
def resolvedTable (i : ClassIndex) (t : MethodTable) : MethodTable :=
  t.map fun entry => (entry.1, i.resolved t entry.1)

theorem get?_resolvedTable (t : MethodTable) (name : String) :
    (i.resolvedTable t).get? name = (t.get? name).map fun _ => i.resolved t name := by
  unfold resolvedTable MethodTable.get?
  -- `resolved` looks at the whole table, so the induction is on the entries that are mapped only
  generalize i.resolved t = resolved
  induction t with
  | nil => rfl
  | cons entry t ih =>
    rw [List.map_cons, List.lookup_cons, List.lookup_cons, ih]
    by_cases hname : name = entry.1
    · simp [hname]
    · simp [beq_eq_false_iff_ne.2 hname]

/-! ## The outcome of the reconciler -/

section

variable {t : MethodTable} (hnd : i.names.Nodup) (ht : i.Covers t) {name : String}

include hnd ht

/-- One more class on a chain, where the classes above are resolved already. -/
theorem get?_resolveChain_cons (hends : i.ChainEnds name)
    (habove : ∀ a ∈ i.ancestors name,
      (i.resolveChain t (i.ancestors name)).get? a = (i.reconcileAll t).get? a) :
    ∀ a ∈ name :: i.ancestors name,
      (i.resolveChain t (name :: i.ancestors name)).get? a = (i.reconcileAll t).get? a := by
  cases hget : t.get? name with
  | none =>
    -- outside the index there is no base class, so the chain stops here
    have hout := (ht name).1 hget
    have hnone : i.ancestors name = [] := by rw [ancestors, baseOf?_eq_none hout]
    rw [hnone, resolveChain, hget]
    simp only [List.mem_singleton, forall_eq]
    rw [(ht.reconcileAll name).2 hout]
    rfl
  | some methods =>
    have heq := (get?_reconcileAll hnd t name).1 ⟨ht.mem_of_get? hget, hends⟩
    rw [hget, Option.map_some] at heq
    rw [resolveChain, hget]
    intro a ha
    rcases List.mem_cons.1 ha with rfl | ha
    · rw [heq, MethodTable.get?, List.lookup_cons_self, alignedMethods_congr habove]
    · have hne : a ≠ name := fun h => hends.not_mem_ancestors (h ▸ ha)
      rw [MethodTable.get?, List.lookup_cons, beq_eq_false_iff_ne.2 hne]
      exact habove a ha

/-- Along a chain that ends, the resolved methods are those of the reconciler. -/
theorem get?_resolveChain (hends : i.ChainEnds name) :
    ∀ a ∈ name :: i.ancestors name,
      (i.resolveChain t (name :: i.ancestors name)).get? a = (i.reconcileAll t).get? a := by
  induction hends with
  | @top name hb =>
    refine get?_resolveChain_cons hnd ht (.top hb) fun a ha => ?_
    rw [ancestors, hb] at ha
    exact absurd ha List.not_mem_nil
  | @next name base hb hbase ih =>
    have hends : i.ChainEnds name := .next hb hbase
    refine get?_resolveChain_cons hnd ht hends ?_
    rw [hends.ancestors_of_base hb]
    exact ih

/-- The reconciler gives a class whose chain ends its resolved methods. -/
theorem get?_reconcileAll_resolved (hends : i.ChainEnds name) :
    (i.reconcileAll t).get? name = (t.get? name).map fun _ => i.resolved t name := by
  have hchain := get?_resolveChain hnd ht hends name List.mem_cons_self
  rw [← hends.chainFrom_nil] at hchain
  rw [resolved, hchain]
  cases hget : t.get? name with
  | none => exact (ht.reconcileAll name).2 ((ht name).1 hget)
  | some methods =>
    obtain ⟨methods', hmethods'⟩ := ht.reconcileAll.exists_get? (ht.mem_of_get? hget)
    rw [hmethods']
    rfl

/-- Resolved methods are the documented ones, brought in line with the resolved methods above. -/
theorem resolved_eq (hends : i.ChainEnds name) {methods : List Method}
    (hget : t.get? name = some methods) :
    i.resolved t name = i.alignedMethods (i.resolvedTable t) name methods := by
  have haligned := (get?_reconcileAll hnd t name).1 ⟨ht.mem_of_get? hget, hends⟩
  rw [get?_reconcileAll_resolved hnd ht hends, hget, Option.map_some, Option.map_some] at haligned
  rw [Option.some.inj haligned]
  refine alignedMethods_congr (fun a ha => ?_) methods
  rw [get?_reconcileAll_resolved hnd ht (hends.of_mem_ancestors ha), get?_resolvedTable]

end

end ClassIndex

/-! ## What never changes -/

/-- A method after the changes of the reconciler: return types, visibility and suppression may have
changed, a constructor not at all. -/
structure Method.Keeps (m m' : Method) : Prop where
  /-- All other fields are the same. -/
  rest : m' = { m with
    returnTypes := m'.returnTypes, visibility := m'.visibility, ignore := m'.ignore }
  constructor_eq : m.isConstructor = true → m' = m

namespace ClassIndex

variable {forest : Forest} {i : ClassIndex}

/-- Every method is kept, whatever it is brought in line with. -/
theorem keeps_alignedMethods (t : MethodTable) (name : String) (methods : List Method) :
    List.Forall₂ Method.Keeps methods (i.alignedMethods t name methods) := by
  rw [alignedMethods, List.forall₂_map_right_iff, List.forall₂_same]
  intro m _
  refine ⟨rfl, fun hctor => ?_⟩
  rw [reconcileMethod_of_none (.inl hctor)]
  cases m
  simp [Reconciliation.applyTo, Reconciliation.unchanged]

/-! ## The loop and the recursion -/

/-- **Resolution.**  The loop of the reconciler halts.  It leaves a forest in which only methods of
classes have changed.  A class whose chain ends has its resolved methods, the documented ones
brought in line with the resolved methods above; a class on a cycle of base classes or below one has
its documented methods. -/
theorem loop_resolves (hi : ofForest forest = .ok i) :
    (∃ w, Worklist.Runs i (.start forest i) w ∧ w.step? i = none ∧
      w.forest = forest.reconcileOverrides i) ∧
    ∃ methods : ClassDecl → List Method,
      forest.reconcileOverrides i
        = forest.mapClasses (fun c => { c.body with methods := methods c }) ∧
      ∀ c ∈ forest.classes,
        (¬ i.ReachesCycle c.fullName →
          methods c = i.resolved forest.methodTable c.fullName ∧
          i.resolved forest.methodTable c.fullName
            = i.alignedMethods (i.resolvedTable forest.methodTable) c.fullName c.body.methods) ∧
        (i.ReachesCycle c.fullName → methods c = c.body.methods) ∧
        List.Forall₂ Method.Keeps c.body.methods (methods c) := by
  refine ⟨⟨_, Worklist.runs_start hi, rfl, rfl⟩,
    fun c => ((i.reconcileAll forest.methodTable).get? c.fullName).getD c.body.methods,
    Forest.reconcileOverrides_eq hi, fun c hc => ?_⟩
  have hnd := nodup_names hi
  have ht := Forest.covers_methodTable hi
  have hget := Forest.get?_methodTable (nodup_fullNames hi) hc
  have hmem := mem_names hi hc
  have heq := get?_reconcileAll hnd forest.methodTable c.fullName
  rw [hget] at heq
  dsimp only
  by_cases hcycle : i.ReachesCycle c.fullName
  · have hkept := heq.2 fun hin => chainEnds_iff.1 hin.2 hcycle
    rw [hkept, Option.getD_some]
    have hkeeps : List.Forall₂ Method.Keeps c.body.methods c.body.methods :=
      List.forall₂_same.2 fun m _ => ⟨rfl, fun _ => rfl⟩
    exact ⟨fun hnot => absurd hcycle hnot, fun _ => rfl, hkeeps⟩
  · have hends := chainEnds_iff.2 hcycle
    have hresolved := get?_reconcileAll_resolved hnd ht hends
    rw [hget, Option.map_some] at hresolved
    have hrecursion := resolved_eq hnd ht hends hget
    rw [hresolved, Option.getD_some]
    refine ⟨fun _ => ⟨rfl, hrecursion⟩, fun h => absurd h hcycle, ?_⟩
    rw [hrecursion]
    exact keeps_alignedMethods _ _ _

/-! ## A hierarchy with a cycle -/

/-- A class `Text` below a class whose own base class is not in the forest, and a class `Below`
below two classes that are each above the other. -/
def ringForest : Forest :=
  [plainClass "Base" (some "Outer") [plainMethod "Base" "read" "string" false .publicMember],
    plainClass "Text" (some "Base") [plainMethod "Text" "read" "int" false .protectedMember],
    plainClass "Ring" (some "Loop") [plainMethod "Ring" "read" "string" false .publicMember],
    plainClass "Loop" (some "Ring") [],
    plainClass "Below" (some "Loop") [plainMethod "Below" "read" "int" false .protectedMember]]

/-- The index of `ringForest`. -/
def ringIndex : ClassIndex :=
  ⟨[⟨"Base", some "Outer", [0]⟩, ⟨"Text", some "Base", [1]⟩, ⟨"Ring", some "Loop", [2]⟩,
    ⟨"Loop", some "Ring", [3]⟩, ⟨"Below", some "Loop", [4]⟩]⟩

theorem loop_resolves_ringForest :
    ofForest ringForest = .ok ringIndex ∧
      ¬ ringIndex.ReachesCycle "Text" ∧ ringIndex.ReachesCycle "Below" ∧
      (∃ w, Worklist.Runs ringIndex (.start ringForest ringIndex) w ∧ w.step? ringIndex = none ∧
        w.forest = ringForest.reconcileOverrides ringIndex) ∧
      ∃ methods : ClassDecl → List Method,
        ringForest.reconcileOverrides ringIndex
          = ringForest.mapClasses (fun c => { c.body with methods := methods c }) ∧
        ∀ c ∈ ringForest.classes,
          (¬ ringIndex.ReachesCycle c.fullName →
            methods c = ringIndex.resolved ringForest.methodTable c.fullName ∧
            ringIndex.resolved ringForest.methodTable c.fullName
              = ringIndex.alignedMethods (ringIndex.resolvedTable ringForest.methodTable) c.fullName
                  c.body.methods) ∧
          (ringIndex.ReachesCycle c.fullName → methods c = c.body.methods) ∧
          List.Forall₂ Method.Keeps c.body.methods (methods c) := by
  have hi : ofForest ringForest = .ok ringIndex := rfl
  have hends : ringIndex.ChainEnds "Text" := .next rfl (.next rfl (.top rfl))
  have hcycle : ringIndex.ReachesCycle "Below" :=
    ⟨"Loop", "Ring", .of_base rfl (.refl "Loop"), rfl, .of_base rfl (.refl "Loop")⟩
  exact ⟨hi, chainEnds_iff.1 hends, hcycle, loop_resolves hi⟩

end ClassIndex

end ApiTypings
