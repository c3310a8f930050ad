/-
# The order of class members

The members of a class are sorted when the class is built.  The reconciler runs later: it may make a
method public, and it does not sort again.  A method that becomes public belongs further up, past
all methods of its staticness that are less visible.  So the members of the reconciled forest are in
order exactly when every promoted method stands where it belongs: what stands in front of it is
public too, and comes first by name.

* `precedes_iff_keepsPlace` : two members in order, after some have become public;
* `inOrder_iff_keepsPlace` : when a list of members is still in order;
* `memberOrder_ofSymbols` : the members of the classes of a forest.
-/
import ApiTypings.Proofs.Hierarchy.Suppression

namespace ApiTypings

/-! ## Keys in order -/

namespace Visibility

@[simp] theorem rank_eq_zero_iff {v : Visibility} : v.rank = 0 ↔ v = .publicMember := by
  cases v <;> decide

end Visibility

namespace MemberKey

variable {a b a' b' : MemberKey}

/-- The keys of members that stand in the order of class members. -/
def InOrder (keys : List MemberKey) : Prop := keys.Pairwise fun a b => a.precedes b = true

instance (keys : List MemberKey) : Decidable (InOrder keys) :=
  inferInstanceAs (Decidable (keys.Pairwise fun a b => a.precedes b = true))

theorem precedes_of_isStatic_ne (hstatic : a.isStatic ≠ b.isStatic) :
    a.precedes b = a.isStatic := by
  rw [precedes, if_pos hstatic]

/-- A member may stand in front of another one of its staticness when it is more visible, or as
visible and first by name. -/
theorem precedes_iff_of_isStatic_eq (hstatic : a.isStatic = b.isStatic) :
    a.precedes b = true ↔ a.visibility.rank < b.visibility.rank ∨
      (a.visibility.rank = b.visibility.rank ∧
        (a.isConstructor = true ∨ (b.isConstructor = false ∧ a.name ≤ b.name))) := by
  rw [precedes, if_neg (not_not_intro hstatic)]
  by_cases hrank : a.visibility.rank = b.visibility.rank
  · rw [if_neg (not_not_intro hrank)]
    cases ha : a.isConstructor with
    | true =>
      refine iff_of_true ?_ (Or.inr ⟨hrank, Or.inl rfl⟩)
      cases hb : b.isConstructor with
      | true =>
        -- two constructors have one name
        rw [isConstructor, beq_iff_eq] at ha hb
        rw [if_neg (not_not_intro rfl), ha, hb]
        exact decide_eq_true (String.le_refl _)
      | false => rfl
    | false => cases hb : b.isConstructor <;> simp [hrank]
  · rw [if_pos hrank]
    simp [hrank]

/-! ## Promoted members -/

/-- A documented member and what has become of it: it may have been made public, unless it is a
constructor. -/
structure IsRaised (doc key : MemberKey) : Prop where
  isStatic_eq : key.isStatic = doc.isStatic
  name_eq : key.name = doc.name
  visibility : key.visibility = doc.visibility ∨
    (key.visibility = .publicMember ∧ doc.isConstructor = false)

/-- Of two members, each as documented and as it has become, the later one is in place.  If it was
made public, and both are static or both are not, then the earlier one is public too and comes first
by name. -/
def KeepsPlace (earlier later : MemberKey × MemberKey) : Prop :=
  later.1.visibility ≠ .publicMember → later.2.visibility = .publicMember →
    earlier.2.isStatic = later.2.isStatic →
      earlier.2.visibility = .publicMember ∧
        (earlier.2.isConstructor = true ∨ earlier.2.name ≤ later.2.name)

namespace IsRaised

theorem isConstructor_eq (h : IsRaised a a') : a'.isConstructor = a.isConstructor := by
  rw [isConstructor, isConstructor, h.name_eq]

/-- A member does not become less visible. -/
theorem rank_le (h : IsRaised a a') : a'.visibility.rank ≤ a.visibility.rank := by
  rcases h.visibility with heq | ⟨hpublic, -⟩
  · rw [heq]
  · rw [hpublic]
    exact Nat.zero_le _

/-- Where the later member keeps its visibility, two members stay in order. -/
theorem precedes_of_visibility_eq (ha : IsRaised a a') (hb : IsRaised b b')
    (hsame : b'.visibility = b.visibility) (hstatic : a.isStatic = b.isStatic)
    (hab : a.precedes b = true) : a'.precedes b' = true := by
  have hstatic' : a'.isStatic = b'.isStatic := by rw [ha.isStatic_eq, hb.isStatic_eq, hstatic]
  rw [precedes_iff_of_isStatic_eq hstatic] at hab
  rw [precedes_iff_of_isStatic_eq hstatic', hsame, ha.isConstructor_eq, hb.isConstructor_eq,
    ha.name_eq, hb.name_eq]
  have hle := ha.rank_le
  rcases hab with hlt | ⟨heq, hname⟩
  · exact Or.inl (Nat.lt_of_le_of_lt hle hlt)
  · rcases Nat.lt_or_eq_of_le hle with hlt | heq'
    · exact Or.inl (heq ▸ hlt)
    · exact Or.inr ⟨heq'.trans heq, hname⟩

/-- Two members in order, after some have become public: they are in order exactly when the later
one is still in place. -/
theorem precedes_iff_keepsPlace (ha : IsRaised a a') (hb : IsRaised b b')
    (hab : a.precedes b = true) : a'.precedes b' = true ↔ KeepsPlace (a, a') (b, b') := by
  have hstatic' : a'.isStatic = b'.isStatic ↔ a.isStatic = b.isStatic := by
    rw [ha.isStatic_eq, hb.isStatic_eq]
  by_cases hstatic : a.isStatic = b.isStatic
  · by_cases hpromoted : b.visibility ≠ .publicMember ∧ b'.visibility = .publicMember
    · -- a promoted member is no constructor, and only public members may stand in front of it
      have hctor : b'.isConstructor = false := by
        rcases hb.visibility with heq | ⟨-, hctor⟩
        · exact absurd (heq ▸ hpromoted.2) hpromoted.1
        · rw [hb.isConstructor_eq, hctor]
      have hrank : b'.visibility.rank = 0 := Visibility.rank_eq_zero_iff.2 hpromoted.2
      rw [precedes_iff_of_isStatic_eq (hstatic'.2 hstatic), hrank, Visibility.rank_eq_zero_iff,
        hctor]
      simp [KeepsPlace, hpromoted, hstatic'.2 hstatic]
    · have hsame : b'.visibility = b.visibility := by
        rcases hb.visibility with heq | ⟨hpublic, -⟩
        · exact heq
        · rw [hpublic]
          exact (Classical.not_not.1 fun hne => hpromoted ⟨hne, hpublic⟩).symm
      have hkeeps : KeepsPlace (a, a') (b, b') := fun hne hpublic => absurd ⟨hne, hpublic⟩ hpromoted
      exact iff_of_true (precedes_of_visibility_eq ha hb hsame hstatic hab) hkeeps
  · -- staticness decides, and it does not change
    have hkeeps : KeepsPlace (a, a') (b, b') := fun _ _ heq => absurd (hstatic'.1 heq) hstatic
    rw [precedes_of_isStatic_ne hstatic] at hab
    rw [precedes_of_isStatic_ne fun heq => hstatic (hstatic'.1 heq), ha.isStatic_eq]
    exact iff_of_true hab hkeeps

end IsRaised

/-- Members in order, after some have become public: they are in order exactly when all of them are
still in place. -/
theorem inOrder_iff_keepsPlace {docs keys : List MemberKey} (h : List.Forall₂ IsRaised docs keys)
    (hdocs : InOrder docs) : InOrder keys ↔ (docs.zip keys).Pairwise KeepsPlace := by
  have hfst : ((docs.zip keys).map Prod.fst) = docs := List.map_fst_zip h.length_eq.le
  have hsnd : ((docs.zip keys).map Prod.snd) = keys := List.map_snd_zip h.length_eq.ge
  have hraised : ∀ p ∈ docs.zip keys, IsRaised p.1 p.2 := fun p hp => List.forall₂_zip h hp
  rw [InOrder, ← hfst, List.pairwise_map] at hdocs
  rw [InOrder, ← hsnd, List.pairwise_map, hsnd]
  constructor
  · intro hkeys
    refine (hdocs.and hkeys).imp_of_mem fun hp hq hpq => ?_
    exact ((hraised _ hp).precedes_iff_keepsPlace (hraised _ hq) hpq.1).1 hpq.2
  · intro hplaces
    refine (hdocs.and hplaces).imp_of_mem fun hp hq hpq => ?_
    exact ((hraised _ hp).precedes_iff_keepsPlace (hraised _ hq) hpq.1).2 hpq.2

end MemberKey

/-! ## The members of a class -/

open MemberKey (InOrder IsRaised KeepsPlace)

/-- Sorted members are in order. -/
theorem inOrder_sortMembers {α : Type} (key : α → MemberKey) (members : List α) :
    InOrder ((sortMembers key members).map key) := by
  rw [InOrder, List.pairwise_map]
  exact List.pairwise_mergeSort
    (fun a b c => MemberKey.precedes_trans (key a) (key b) (key c))
    (fun a b => MemberKey.precedes_total (key a) (key b)) members

/-- The members of a built class are in order. -/
theorem Declaration.inOrder_of_classBody {settings : Settings} {s : Symbol} {c : ClassBody}
    (h : classBody settings s = .ok (.ofClass c)) :
    InOrder (c.properties.map Property.key) ∧ InOrder (c.methods.map Method.key) := by
  obtain ⟨methods, -, hpure⟩ := bind_eq_ok.1 h
  obtain rfl := Body.ofClass.inj (pure_eq_ok.1 hpure)
  exact ⟨inOrder_sortMembers _ _, inOrder_sortMembers _ _⟩

namespace ClassIndex

variable {i : ClassIndex}

/-- The changes to a method leave its staticness and name, and may make it public, unless it is a
constructor. -/
theorem isRaised_applyTo {t : MethodTable} {name : String} {m : Method}
    (hkind : m.ownerKind = .classKind) :
    IsRaised m.key ((i.reconcileMethod t name m).applyTo m).key where
  isStatic_eq := rfl
  name_eq := rfl
  visibility := by
    show (if (i.reconcileMethod t name m).promote then .publicMember else m.visibility)
        = m.visibility ∨ (if (i.reconcileMethod t name m).promote then .publicMember
          else m.visibility) = Visibility.publicMember ∧ m.key.isConstructor = false
    by_cases hpromote : (i.reconcileMethod t name m).promote = true
    · rw [if_pos hpromote]
      refine Or.inr ⟨rfl, Bool.eq_false_iff.2 fun hctor => ?_⟩
      have hctor' : m.isConstructor = true := by
        rw [Method.isConstructor, hkind]
        simpa [Method.key, MemberKey.isConstructor] using hctor
      rw [reconcileMethod_of_none (Or.inl hctor')] at hpromote
      exact Bool.false_ne_true hpromote
    · rw [if_neg hpromote]
      exact Or.inl rfl

/-- The methods of a class, brought in line with a table, are the documented ones or have become
public. -/
theorem isRaised_alignedMethods (t : MethodTable) (name : String) {methods : List Method}
    (hkind : ∀ m ∈ methods, m.ownerKind = .classKind) :
    List.Forall₂ IsRaised (methods.map Method.key)
      ((i.alignedMethods t name methods).map Method.key) := by
  rw [alignedMethods, List.map_map, List.forall₂_map_left_iff, List.forall₂_map_right_iff,
    List.forall₂_same]
  exact fun m hm => isRaised_applyTo (hkind m hm)

variable {settings : Settings} {symbols : List Symbol}

/-- **Member order.**  In the forest of some symbols the properties of every class are in order.  So
are its methods before overrides are brought in line; after that, they are in order exactly when
every method that was made public is in place. -/
theorem memberOrder_ofSymbols {forest : Forest}
    (h : Forest.ofSymbols settings symbols = .ok forest) :
    ∃ declared, Forest.declarations settings symbols = .ok declared ∧
      ∀ c ∈ forest.classes, InOrder (c.body.properties.map Property.key) ∧
        ∃ d ∈ declared.classes, d.fullName = c.fullName ∧
          List.Forall₂ IsRaised (d.body.methods.map Method.key) (c.body.methods.map Method.key) ∧
          InOrder (d.body.methods.map Method.key) ∧
          (InOrder (c.body.methods.map Method.key) ↔
            ((d.body.methods.map Method.key).zip (c.body.methods.map Method.key)).Pairwise
              KeepsPlace) := by
  obtain ⟨declared, i, hdeclared, hi, rfl⟩ := Forest.ofSymbols_eq_ok h
  refine ⟨declared, hdeclared, fun c hc => ?_⟩
  obtain ⟨d, hd, hname, hbody, haligned, hkept⟩ := Forest.class_of_reconciled hi hc
  obtain ⟨s, -, hclass⟩ := Forest.classBody_of_declarations hdeclared hd
  obtain ⟨hproperties, hmethods⟩ := Declaration.inOrder_of_classBody hclass
  have hkind : ∀ m ∈ d.body.methods, m.ownerKind = .classKind := fun m hm =>
    (isBuilt_of_declarations hdeclared hd hm).1.ownerKind_eq
  have hraised : List.Forall₂ IsRaised (d.body.methods.map Method.key)
      (c.body.methods.map Method.key) := by
    by_cases hends : i.ChainEnds c.fullName
    · rw [haligned hends]
      exact isRaised_alignedMethods _ _ hkind
    · rw [hkept hends]
      exact List.forall₂_same.2 fun key _ => ⟨rfl, rfl, Or.inl rfl⟩
  refine ⟨?_, d, hd, hname, hraised, hmethods,
    MemberKey.inOrder_iff_keepsPlace hraised hmethods⟩
  rw [hbody]
  exact hproperties

end ClassIndex

namespace ClassIndex

/-! ## A promoted method -/

/-- A class with a public method `exit`. -/
def exitBase : Symbol := classSymbol "Base" none [plainDoc "exit" "string" .publicMember]

/-- A class below it with another public method and a protected method `exit`. -/
def exitText (other : String) : Symbol :=
  classSymbol "Text" (some "Base")
    [plainDoc other "void" .publicMember, plainDoc "exit" "any" .protectedMember]

/-- The two classes as documented. -/
def exitForest (other : String) : Forest :=
  Forest.baseAndText [plainMethod "Base" "exit" "string" false .publicMember]
    [plainMethod "Text" other "void" false .publicMember,
      plainMethod "Text" "exit" "any" false .protectedMember]

theorem classBody_exitBase :
    Declaration.classBody {} exitBase
      = .ok (.ofClass ⟨none, [], [plainMethod "Base" "exit" "string" false .publicMember]⟩) := by
  have hexit : Method.build {} (plainDoc "exit" "string" .publicMember) "Base" .classKind = .ok _ :=
    Method.build_plainDoc (by decide +kernel) (by decide +kernel)
  exact Declaration.classBody_classSymbol rfl rfl (.cons hexit .nil) (List.pairwise_singleton _ _)

theorem classBody_exitText {other : String} (h : other = "abort" ∨ other = "render") :
    Declaration.classBody {} (exitText other)
      = .ok (.ofClass ⟨some "Base", [], [plainMethod "Text" other "void" false .publicMember,
          plainMethod "Text" "exit" "any" false .protectedMember]⟩) := by
  have hother : Method.build {} (plainDoc other "void" .publicMember) "Text" .classKind = .ok _ :=
    Method.build_plainDoc (by rcases h with rfl | rfl <;> decide +kernel) (by decide +kernel)
  have hexit : Method.build {} (plainDoc "exit" "any" .protectedMember) "Text" .classKind = .ok _ :=
    Method.build_plainDoc (by decide +kernel) (by decide +kernel)
  refine Declaration.classBody_classSymbol ?_ ?_ (.cons hother (.cons hexit .nil)) ?_
  · rfl
  · rcases h with rfl | rfl <;> decide +kernel
  · -- a public method stands in front of a protected one
    rcases h with rfl | rfl <;> decide

/-- The forest of the two classes. -/
theorem ofSymbols_exit {other : String} (h : other = "abort" ∨ other = "render") :
    Forest.ofSymbols {} [exitBase, exitText other] = .ok (alignedText (exitForest other)) :=
  ofSymbols_baseAndText (Forest.declarations_baseAndText classBody_exitBase (classBody_exitText h))
    rfl

/-- The methods of `Text` in the forest of the two classes: both are public. -/
theorem keys_exitText {other : String} (h : other = "abort" ∨ other = "render") :
    ∃ c ∈ (alignedText (exitForest other)).classes,
      c.fullName = "Text" ∧ (∀ m ∈ c.body.methods, m.isEmitted = true) ∧
        c.body.methods.map Method.key
          = [⟨false, .publicMember, other⟩, ⟨false, .publicMember, "exit"⟩] := by
  rcases h with rfl | rfl <;> decide +kernel

theorem memberOrder_ofSymbols_abort :
    ∃ forest declared, Forest.ofSymbols {} [exitBase, exitText "abort"] = .ok forest ∧
      Forest.declarations {} [exitBase, exitText "abort"] = .ok declared ∧
      (∃ c ∈ forest.classes, c.fullName = "Text" ∧ c.body.methods.map Method.key
        = [⟨false, .publicMember, "abort"⟩, ⟨false, .publicMember, "exit"⟩]) ∧
      ∀ c ∈ forest.classes, InOrder (c.body.properties.map Property.key) ∧
        ∃ d ∈ declared.classes, d.fullName = c.fullName ∧
          List.Forall₂ IsRaised (d.body.methods.map Method.key) (c.body.methods.map Method.key) ∧
          InOrder (d.body.methods.map Method.key) ∧
          (InOrder (c.body.methods.map Method.key) ↔
            ((d.body.methods.map Method.key).zip (c.body.methods.map Method.key)).Pairwise
              KeepsPlace) := by
  have hforest := ofSymbols_exit (Or.inl (rfl : "abort" = "abort"))
  obtain ⟨c, hc, hname, -, hkeys⟩ := keys_exitText (Or.inl (rfl : "abort" = "abort"))
  obtain ⟨declared, hdeclared, horder⟩ := memberOrder_ofSymbols hforest
  exact ⟨_, declared, hforest, hdeclared, ⟨c, hc, hname, hkeys⟩, horder⟩

/-- A method that was made public stays behind a method with a later name. -/
theorem not_inOrder_render :
    ∃ forest, Forest.ofSymbols {} [exitBase, exitText "render"] = .ok forest ∧
      ∃ c ∈ forest.classes, (∀ m ∈ c.body.methods, m.isEmitted = true) ∧
        ¬ InOrder (c.body.methods.map Method.key) := by
  obtain ⟨c, hc, -, hemitted, hkeys⟩ := keys_exitText (Or.inr (rfl : "render" = "render"))
  refine ⟨_, ofSymbols_exit (Or.inr rfl), c, hc, hemitted, ?_⟩
  rw [hkeys]
  decide

end ClassIndex

end ApiTypings
