/-
# Refusals

A declaration of a kind that owns no such members is refused: an enum owns neither methods nor
declarations, and a typedef owns no methods.  Building a parameter, a method or a declaration fails
in no other way, whatever the settings say about parameters and methods: every parameter that is
made optional was required, and every one that is made required was optional.

* `RefusesWhen.seq`, `RefusesWhen.mapM` : when steps are refused that are made of others;
* `Method.refuses_build` : which methods are refused;
* `Declaration.refuses_build` : which declarations are refused.
-/
import ApiTypings.Declaration.Basic
import ApiTypings.Proofs.Outcome
import ApiTypings.Proofs.Signature.Coverage

namespace ApiTypings

/-! ## Steps that are refused -/

section

variable {α β : Type} {P Q : Prop} {x : Except GenerationError α}

/-- A step is refused for want of an owner exactly when `P` holds, and succeeds otherwise. -/
structure RefusesWhen (P : Prop) (x : Except GenerationError α) : Prop where
  refuses : P → ∃ kind owner role name, x = .error (.cannotOwn kind owner role name)
  succeeds : ¬ P → ∃ a, x = .ok a

namespace RefusesWhen

theorem congr (h : RefusesWhen P x) (hiff : P ↔ Q) : RefusesWhen Q x :=
  ⟨fun hq => h.refuses (hiff.2 hq), fun hq => h.succeeds fun hp => hq (hiff.1 hp)⟩

/-- A step that succeeds is never refused. -/
theorem of_ok (h : ∃ a, x = .ok a) : RefusesWhen False x := ⟨False.elim, fun _ => h⟩

/-- Two steps are refused when the first one is, or the second one on whatever the first one
gives. -/
theorem seq {f : α → Except GenerationError β} (hx : RefusesWhen P x)
    (hf : ∀ a, x = .ok a → RefusesWhen Q (f a)) : RefusesWhen (P ∨ Q) (x >>= f) := by
  by_cases hp : P
  · obtain ⟨kind, owner, role, name, herror⟩ := hx.refuses hp
    have hbind : (x >>= f) = .error (.cannotOwn kind owner role name) := by rw [herror]; rfl
    exact ⟨fun _ => ⟨kind, owner, role, name, hbind⟩, fun hnot => absurd (.inl hp) hnot⟩
  · obtain ⟨a, ha⟩ := hx.succeeds hp
    have hbind : (x >>= f) = f a := by rw [ha]; rfl
    rw [hbind]
    exact (hf a ha).congr (by simp [hp])

/-- A change to what a step gives is never refused. -/
theorem map (h : RefusesWhen P x) (g : α → β) :
    RefusesWhen P (x >>= fun a => (pure (g a) : Except GenerationError β)) :=
  (h.seq fun a _ => of_ok ⟨g a, rfl⟩).congr (by simp)

/-- A step on every member of a list is refused when it is refused on one of them. -/
theorem mapM {f : α → Except GenerationError β} {R : α → Prop} {as : List α}
    (h : ∀ a ∈ as, RefusesWhen (R a) (f a)) : RefusesWhen (∃ a ∈ as, R a) (as.mapM f) := by
  induction as with
  | nil => exact (of_ok ⟨[], rfl⟩).congr (by simp)
  | cons a as ih =>
    rw [List.forall_mem_cons] at h
    rw [List.mapM_cons, List.exists_mem_cons_iff]
    exact h.1.seq fun b _ => (ih h.2).map (b :: ·)

end RefusesWhen

end

/-! ## Parameters and methods -/

variable (settings : Settings)

/-- Every documented parameter is built. -/
theorem Parameter.exists_build (doc : ParameterDoc) (method : String) :
    ∃ p, build settings doc method = .ok p := by
  rw [build]
  split
  · rename_i hchange
    have hrequired : (documented settings doc method).optional = false := by
      simpa using (Bool.and_eq_true_iff.1 hchange).1
    exact ⟨_, asOptional_ok hrequired⟩
  · exact ⟨_, rfl⟩

/-- Every parameter list has signatures. -/
theorem Signature.exists_synthesize (ps : List Parameter) : ∃ s, synthesize ps = .ok s :=
  (expand_covers ps [] (List.forall_mem_nil _)).imp fun _ h => h.1

/-- A documented method is refused exactly when it belongs to an enum or a typedef. -/
theorem Method.refuses_build (doc : MethodDoc) (owner : String) (ownerKind : SymbolKind) :
    RefusesWhen (ownerKind = .enumKind ∨ ownerKind = .typedefKind)
      (build settings doc owner ownerKind) := by
  rw [build]
  split
  · rename_i hkind
    exact ⟨fun _ => ⟨_, _, _, _, rfl⟩, absurd hkind⟩
  · rename_i hkind
    have hparameters : RefusesWhen (∃ p ∈ doc.parameters, False)
        (doc.parameters.mapM (Parameter.build settings · (Dotted.member owner doc.name))) :=
      .mapM fun p _ => .of_ok (Parameter.exists_build settings p _)
    refine (hparameters.seq fun ps _ => .seq (.of_ok (Signature.exists_synthesize ps))
      fun s _ => .of_ok ⟨_, rfl⟩).congr ?_
    simp [hkind]

/-- The methods of other declarations are never refused. -/
theorem Method.refuses_buildAll (docs : List MethodDoc) (owner : String) {ownerKind : SymbolKind}
    (hkind : ¬ (ownerKind = .enumKind ∨ ownerKind = .typedefKind)) :
    RefusesWhen False (buildAll settings docs owner ownerKind) :=
  (RefusesWhen.mapM fun doc _ => refuses_build settings doc owner ownerKind).congr (by simp [hkind])

/-! ## Declarations -/

/-- A symbol documents methods, but its kind owns none. -/
def Symbol.MisplacesMethods (s : Symbol) : Prop :=
  (s.kind = .enumKind ∨ s.kind = .typedefKind) ∧ s.methods ≠ []

namespace Declaration

theorem refuses_enumBody {s : Symbol} (hkind : s.kind = .enumKind) (children : List Declaration) :
    RefusesWhen (s.MisplacesMethods ∨ s.kind = .enumKind ∧ children ≠ [])
      (enumBody s children) := by
  unfold enumBody
  rw [Symbol.MisplacesMethods, hkind]
  split
  · rename_i m ms hmethods
    exact ⟨fun _ => ⟨_, _, _, _, rfl⟩, fun hnot => absurd hnot (by simp [hmethods])⟩
  · exact ⟨fun _ => ⟨_, _, _, _, rfl⟩, fun hnot => absurd hnot (by simp)⟩
  · rename_i hmethods
    exact ⟨fun h => absurd h (by simp [hmethods]), fun _ => ⟨_, rfl⟩⟩

theorem refuses_typedefBody {s : Symbol} (hkind : s.kind = .typedefKind)
    (children : List Declaration) :
    RefusesWhen (s.MisplacesMethods ∨ s.kind = .enumKind ∧ children ≠ [])
      (typedefBody settings s) := by
  unfold typedefBody
  rw [Symbol.MisplacesMethods, hkind]
  split
  · rename_i m ms hmethods
    exact ⟨fun _ => ⟨_, _, _, _, rfl⟩, fun hnot => absurd hnot (by simp [hmethods])⟩
  · rename_i hmethods
    exact ⟨fun h => absurd h (by simp [hmethods]), fun _ => ⟨_, rfl⟩⟩

/-- The body of a declaration is refused exactly when a symbol documents methods that its kind does
not own, or an enum is given children. -/
theorem refuses_bodyOf (s : Symbol) (children : List Declaration) :
    RefusesWhen (s.MisplacesMethods ∨ s.kind = .enumKind ∧ children ≠ [])
      (bodyOf settings s children) := by
  unfold bodyOf
  split
  case h_4 hkind => exact refuses_enumBody hkind children
  case h_5 hkind => exact refuses_typedefBody settings hkind children
  -- the other kinds own methods and children
  all_goals
    rename_i hkind
    refine ((Method.refuses_buildAll settings _ _ (by decide)).map _).congr ?_
    simp [Symbol.MisplacesMethods, hkind]

/-- A declaration is refused exactly when its symbol documents methods that its kind does not own,
or it is an enum and gets children. -/
theorem refuses_build (s : Symbol) (depth : Nat) (children : List Declaration) :
    RefusesWhen (s.MisplacesMethods ∨ s.kind = .enumKind ∧ children ≠ [])
      (build settings s depth children) :=
  (refuses_bodyOf settings s children).map _

end Declaration

end ApiTypings
