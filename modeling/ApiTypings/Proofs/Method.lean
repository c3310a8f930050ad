/-
# Built methods

What holds of every method as it is built from its documentation, whatever the settings say: it is
not suppressed, its types are spelled without repetition, and whether the settings leave it out
depends on its owner, its name and its staticness only.

* `eq_of_build` : a built parameter;
* `madeFrom_of_build` : where the parameters, types and signatures of a built method come from;
* `isBuilt_of_build` : these facts about one method;
* `isBuilt_of_classBody` : the methods of a class.
-/
import ApiTypings.Declaration.Basic
import ApiTypings.Proofs.Outcome
import ApiTypings.Proofs.Signature.Product

namespace ApiTypings

/-! ## Parameters -/

namespace Parameter

variable {settings : Settings} {doc : ParameterDoc} {method : String} {p : Parameter}

/-- A built parameter is the documented one, but for its optionality. -/
theorem eq_of_build (h : build settings doc method = .ok p) :
    p = { documented settings doc method with optional := p.optional } := by
  rw [build] at h
  split at h
  · rw [asOptional] at h
    split at h
    · exact absurd h (by simp)
    · rw [← Except.ok.inj h]
  · rw [← Except.ok.inj h]

/-- The types of a built parameter are spelled without repetition. -/
theorem nodup_keys_of_build (h : build settings doc method = .ok p) : p.types.keys.Nodup := by
  rw [eq_of_build h]
  exact TypeSet.nodup_keys_ofTerms _

end Parameter

namespace Method

variable {settings : Settings}

/-! ## Methods -/

/-- Whether the settings leave out the methods of a name and staticness. -/
def leftOut (settings : Settings) (owner : String) (ownerKind : SymbolKind) (name : String)
    (isStatic : Bool) : Bool :=
  settings.ignored.methods.matchesName (Dotted.member owner name) name
    || (isStatic && ownerKind == .classKind
      && settings.ignored.staticMethods.matchesName (Dotted.member owner name) name)

/-- What is settled about a method when it is built, and kept when it is brought in line. -/
structure IsBuilt (settings : Settings) (owner : String) (ownerKind : SymbolKind) (m : Method) :
    Prop where
  ownerKind_eq : m.ownerKind = ownerKind
  excluded_eq : m.excluded = leftOut settings owner ownerKind m.name m.isStatic
  nodup_parameters : ∀ p ∈ m.parameters, p.types.keys.Nodup

/-- Where the parameters, types and signatures of a method come from. -/
structure MadeFrom (settings : Settings) (doc : MethodDoc) (owner : String)
    (ownerKind : SymbolKind) (m : Method) : Prop where
  name_eq : m.name = doc.name
  parameters_built : List.Forall₂
    (fun d p => Parameter.build settings d (Dotted.member owner doc.name) = .ok p) doc.parameters
    m.parameters
  returnTypes_eq : m.returnTypes = .parse (returnExpression settings doc owner ownerKind)
  signatures_eq : m.signatures = Signature.combinations m.parameters

section

variable {doc : MethodDoc} {owner : String} {ownerKind : SymbolKind} {m : Method}

theorem madeFrom_of_build (h : build settings doc owner ownerKind = .ok m) :
    m.MadeFrom settings doc owner ownerKind := by
  rw [build] at h
  split at h
  · exact absurd h (by simp)
  · obtain ⟨parameters, hparameters, hrest⟩ := bind_eq_ok.1 h
    obtain ⟨synthesis, hsynthesis, hpure⟩ := bind_eq_ok.1 hrest
    obtain rfl := pure_eq_ok.1 hpure
    refine ⟨rfl, mapM_eq_ok.1 hparameters, rfl, ?_⟩
    rw [Signature.synthesize_eq] at hsynthesis
    rw [← Except.ok.inj hsynthesis]

theorem isBuilt_of_build (h : build settings doc owner ownerKind = .ok m) :
    m.IsBuilt settings owner ownerKind ∧ m.ignore = false ∧ m.returnTypes.keys.Nodup := by
  have hnodup : ∀ p ∈ m.parameters, p.types.keys.Nodup := by
    intro p hp
    obtain ⟨doc', -, hbuild⟩ := exists_of_forall₂ (madeFrom_of_build h).parameters_built hp
    exact Parameter.nodup_keys_of_build hbuild
  rw [build] at h
  split at h
  · exact absurd h (by simp)
  · obtain ⟨parameters, -, hrest⟩ := bind_eq_ok.1 h
    obtain ⟨synthesis, -, hpure⟩ := bind_eq_ok.1 hrest
    obtain rfl := pure_eq_ok.1 hpure
    exact ⟨⟨rfl, rfl, hnodup⟩, rfl, TypeSet.nodup_keys_ofTerms _⟩

end

end Method

/-! ## Classes -/

/-- The methods of a class are built for it. -/
theorem Declaration.isBuilt_of_classBody {settings : Settings} {s : Symbol} {c : ClassBody}
    (h : classBody settings s = .ok (.ofClass c)) :
    ∀ m ∈ c.methods,
      m.IsBuilt settings s.name .classKind ∧ m.ignore = false ∧ m.returnTypes.keys.Nodup := by
  obtain ⟨methods, hmethods, hpure⟩ := bind_eq_ok.1 h
  obtain rfl := Body.ofClass.inj (pure_eq_ok.1 hpure)
  intro m hm
  obtain ⟨doc, -, hbuild⟩ :=
    exists_of_forall₂ (mapM_eq_ok.1 hmethods) (List.mem_mergeSort.1 hm)
  exact Method.isBuilt_of_build hbuild

end ApiTypings
