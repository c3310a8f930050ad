/-
# Texts on one line

Names and types that have no line feed are written without one: neither replacing types nor reading
them and writing them again breaks a line, and documentation is cut into lines before it is
written.  This file follows the line feeds from the documentation and the settings to the members of
a declaration.

* `isOneLine_replaceTypes` : the replacement of a type;
* `isOneLine_of_build`, `isOneLine_of_mem_buildAll` : the members that are built.
-/
import ApiTypings.Declaration.Text
import ApiTypings.Proofs.Method
import ApiTypings.Proofs.TypeExpr.Letters

namespace ApiTypings

/-! ## Line feeds in texts -/

namespace Text

/-- A text without a line feed. -/
def IsOneLine (s : String) : Prop := '\n' ∉ s.toList

instance (s : String) : Decidable (IsOneLine s) := inferInstanceAs (Decidable ('\n' ∉ s.toList))

theorem isOneLine_append {a b : String} : IsOneLine (a ++ b) ↔ IsOneLine a ∧ IsOneLine b := by
  simp [IsOneLine]

theorem isOneLine_ofList {cs : List Char} : IsOneLine (.ofList cs) ↔ '\n' ∉ cs := by
  simp [IsOneLine]

theorem isOneLine_getD {text : Option String} (h : ∀ s ∈ text, IsOneLine s) {other : String}
    (hother : IsOneLine other) : IsOneLine (text.getD other) := by
  cases text with
  | none => exact hother
  | some s => exact h s rfl

/-- No piece has a character at which the text is cut. -/
theorem not_stop_of_mem_cut {stop : Char → Bool} {cs piece : List Char} (h : piece ∈ cut stop cs)
    {c : Char} (hc : c ∈ piece) : stop c = false := by
  induction cs generalizing piece with
  | nil => simp_all
  | cons d cs ih =>
    unfold cut at h
    by_cases hd : stop d = true
    · rw [if_pos hd] at h
      rcases List.mem_cons.1 h with rfl | h
      · exact absurd hc List.not_mem_nil
      · exact ih h hc
    · rw [if_neg hd] at h
      cases hcut : cut stop cs with
      | nil => exact absurd hcut (cut_ne_nil _ cs)
      | cons first pieces =>
        rw [hcut] at h ih
        rcases List.mem_cons.1 h with rfl | h
        · rcases List.mem_cons.1 hc with rfl | hc
          · exact Bool.eq_false_iff.2 hd
          · exact ih List.mem_cons_self hc
        · exact ih (List.mem_cons_of_mem _ h) hc

/-- A text on one line has no character that breaks a line. -/
theorem not_mem_singleLine {c : Char} (h : isBreak c = true) (cs : List Char) :
    c ∉ singleLine cs := by
  have hspace : c ∉ [' '] := by
    rw [List.mem_singleton]
    rintro rfl
    exact absurd h (by decide)
  refine not_mem_intercalate hspace fun p hp => ?_
  obtain ⟨q, hq, rfl⟩ := List.mem_map.1 (List.mem_filter.1 hp).1
  exact not_mem_trim fun hmem => absurd (not_stop_of_mem_cut hq hmem) (by simp [h])

theorem not_mem_trimEnd {c : Char} {cs : List Char} (h : c ∉ cs) : c ∉ trimEnd cs := by
  obtain ⟨after, -, heq⟩ := exists_blanks_trimEnd cs
  rw [heq, List.mem_append, not_or] at h
  exact h.1

/-- Replacing adds no other characters than those of the new text. -/
theorem not_mem_replaceAll {c : Char} {old new cs : List Char} (hnew : c ∉ new) (h : c ∉ cs) :
    c ∉ replaceAll old new cs := by
  fun_induction replaceAll old new cs with
  | case1 => exact h
  | case2 d rest after hfound hold ih =>
    rw [List.mem_cons, not_or] at h ⊢
    exact ⟨h.1, ih h.2⟩
  | case3 d rest after hfound hold ih =>
    rw [stripPrefix?_eq_some.1 hfound, List.mem_append, not_or] at h
    rw [List.mem_append, not_or]
    exact ⟨hnew, ih h.2⟩
  | case4 d rest hfound ih =>
    rw [List.mem_cons, not_or] at h ⊢
    exact ⟨h.1, ih h.2⟩

/-! ## Uppercase -/

/-- A code point behind that of a character is that of another character. -/
theorem ofNat_ne {d : Char} {n : Nat} (hpos : 0 < d.toNat) (h : d.toNat < n) :
    Char.ofNat n ≠ d := by
  rintro rfl
  by_cases hvalid : n.isValidChar
  · rw [Char.ofNat, dif_pos hvalid] at h
    exact absurd (show n < n from h) (Nat.lt_irrefl n)
  · rw [Char.ofNat, dif_neg hvalid] at hpos
    exact absurd hpos (by decide)

/-- No uppercase character comes before the letters, unless it is the character itself. -/
theorem not_mem_upperOf {c d : Char} (hpos : 0 < d.toNat) (hsign : d.toNat < 'A'.toNat)
    (h : c ≠ d) : d ∉ upperOf c := by
  have hexpansions : ∀ e ∈ upperExpansions, ∀ n ∈ e.2, 'A'.toNat ≤ n := by decide +kernel
  have hruns : ∀ r ∈ upperRuns, 'A'.toNat ≤ r.upper := by decide +kernel
  unfold upperOf
  dsimp only
  split
  · rename_i codes hcodes
    obtain ⟨before, after, heq, -⟩ := List.lookup_eq_some_iff.1 hcodes
    intro hmem
    obtain ⟨n, hn, hchar⟩ := List.mem_map.1 hmem
    have hletter := hexpansions (_, codes) (heq ▸ List.mem_append_right before List.mem_cons_self)
    exact ofNat_ne hpos (Nat.lt_of_lt_of_le hsign (hletter n hn)) hchar
  · split
    · rename_i r hr
      have hletter := hruns r (List.mem_of_find?_eq_some hr)
      rw [List.mem_singleton]
      exact Ne.symm (ofNat_ne hpos (Nat.lt_add_left _ (Nat.lt_of_lt_of_le hsign hletter)))
    · rw [List.mem_singleton]
      exact Ne.symm h

theorem not_mem_capitalized {cs : List Char} (h : '\n' ∉ cs) : '\n' ∉ capitalized cs := by
  cases cs with
  | nil => exact h
  | cons c cs =>
    rw [List.mem_cons, not_or] at h
    rw [capitalized, List.mem_append, not_or]
    exact ⟨not_mem_upperOf (by decide) (by decide) (Ne.symm h.1), h.2⟩

end Text

/-! ## Documentation and settings -/

/-- Names and types of a documented parameter are on one line each; its description need not be. -/
structure ParameterDoc.IsOneLine (doc : ParameterDoc) : Prop where
  name : Text.IsOneLine doc.name
  type : ∀ s ∈ doc.type, Text.IsOneLine s

structure PropertyDoc.IsOneLine (doc : PropertyDoc) : Prop where
  name : Text.IsOneLine doc.name
  type : ∀ s ∈ doc.type, Text.IsOneLine s

structure MethodDoc.IsOneLine (doc : MethodDoc) : Prop where
  name : Text.IsOneLine doc.name
  parameters : ∀ p ∈ doc.parameters, p.IsOneLine
  returns : ∀ r ∈ doc.returns, ∀ s ∈ r.type, Text.IsOneLine s

/-- Names, types and the base class of a symbol are on one line each; descriptions and deprecations
need not be. -/
structure Symbol.IsOneLine (s : Symbol) : Prop where
  name : Text.IsOneLine s.name
  baseClass : ∀ base ∈ s.baseClass, Text.IsOneLine base
  properties : ∀ doc ∈ s.properties, doc.IsOneLine
  methods : ∀ doc ∈ s.methods, doc.IsOneLine
  constructorDoc : ∀ c ∈ s.constructorDoc, ∀ p ∈ c.parameters, p.IsOneLine

namespace NameTable

variable {α : Type} {P : α → Prop} {t : NameTable α}

/-- All values of a table have a property. -/
def All (P : α → Prop) (t : NameTable α) : Prop := ∀ e ∈ t.entries, P e.2

theorem All.get? (h : t.All P) {key : String} : ∀ a ∈ t.get? key, P a := by
  intro a ha
  obtain ⟨before, after, heq, -⟩ := List.lookup_eq_some_iff.1 ha
  exact h (key, a) (heq ▸ List.mem_append_right before List.mem_cons_self)

theorem All.or {x y : Option α} (hx : ∀ a ∈ x, P a) (hy : ∀ a ∈ y, P a) : ∀ a ∈ x.or y, P a := by
  cases x with
  | none => exact hy
  | some b => exact hx

theorem All.lookup (h : t.All P) {fullName basename : String} :
    ∀ a ∈ t.lookup fullName basename, P a :=
  All.or h.get? h.get?

theorem All.lookupParameter (h : t.All P) {fullName method parameter : String} :
    ∀ a ∈ t.lookupParameter fullName method parameter, P a :=
  All.or (All.or h.get? h.get?) h.get?

end NameTable

/-- The indentation and all types and names that the settings write are on one line each. -/
structure Settings.IsOneLine (settings : Settings) : Prop where
  indentation : Text.IsOneLine settings.output.indentation
  everywhere : settings.replacements.everywhere.All Text.IsOneLine
  namespaceAsType : settings.replacements.specific.namespaceAsType.All Text.IsOneLine
  baseClass : settings.replacements.specific.baseClass.All Text.IsOneLine
  methodParameterType : settings.replacements.specific.methodParameterType.All Text.IsOneLine
  methodReturnType : settings.replacements.specific.methodReturnType.All Text.IsOneLine
  propertyType : settings.replacements.specific.propertyType.All Text.IsOneLine
  additionalProperties :
    settings.additionalProperties.All fun docs => ∀ doc ∈ docs, doc.IsOneLine

/-! ## Replaced types -/

section

variable {settings : Settings} {owner : String}

theorem isOneLine_typeOrAny {documented : Option String}
    (h : ∀ s ∈ documented, Text.IsOneLine s) : Text.IsOneLine (typeOrAny documented) :=
  Text.isOneLine_getD (fun s hs => h s (Option.mem_filter_iff.1 hs).1) (by decide)

theorem isOneLine_jQueryInterface {name : String} (h : Text.IsOneLine name) :
    Text.IsOneLine (jQueryInterface name) := by
  unfold jQueryInterface
  split
  · decide
  · rw [Text.isOneLine_ofList, List.mem_flatten]
    rintro ⟨part, hpart, hmem⟩
    obtain ⟨piece, hpiece, rfl⟩ := List.mem_map.1 hpart
    exact Text.not_mem_capitalized (Text.not_mem_of_mem_cut_of_not_mem h hpiece) hmem

theorem isOneLine_replaceName (hsettings : settings.IsOneLine) {name : String}
    (h : Text.IsOneLine name) : Text.IsOneLine (settings.replacements.replaceName name owner) := by
  have hname : Text.IsOneLine ((settings.replacements.everywhere.get? name).getD name) :=
    Text.isOneLine_getD hsettings.everywhere.get? h
  unfold Replacements.replaceName referenceTo
  split
  · exact hname
  · split
    · exact isOneLine_jQueryInterface hname
    · exact Text.isOneLine_append.2 ⟨by decide, hname⟩

/-- A type on one line is replaced by one on one line. -/
theorem isOneLine_replaceTypes (hsettings : settings.IsOneLine) {raw : String}
    (h : Text.IsOneLine raw) : Text.IsOneLine (settings.replacements.replaceTypes raw owner) := by
  rw [Replacements.replaceTypes, Text.isOneLine_ofList]
  refine Text.not_mem_intercalate (by decide) (List.forall_mem_map.2 fun term hterm => ?_)
  have hfeed := TypeExpr.not_mem_of_mem_alternatives h hterm
  unfold Replacements.replaceAlternative
  split
  · rename_i element helement
    rw [Text.stripSuffix?_eq_some.1 helement, List.mem_append, not_or] at hfeed
    rw [List.mem_append, not_or]
    exact ⟨isOneLine_replaceName hsettings (Text.isOneLine_ofList.2 hfeed.1), by decide⟩
  · exact isOneLine_replaceName hsettings (Text.isOneLine_ofList.2 hfeed)

/-- The types that are read from a text on one line are written on one line. -/
theorem lacks_parse_of_isOneLine {raw : String} (h : Text.IsOneLine raw) :
    (TypeSet.parse raw).Lacks '\n' :=
  TypeSet.lacks_parse (by decide) h

end

/-! ## Members that are built -/

/-- The name and the types of a parameter are written on one line. -/
structure Parameter.IsOneLine (p : Parameter) : Prop where
  name : Text.IsOneLine p.name
  types : p.types.Lacks '\n'

structure Property.IsOneLine (p : Property) : Prop where
  name : Text.IsOneLine p.name
  types : p.types.Lacks '\n'

/-- The name, the return types and the signatures of a method are written on one line. -/
structure Method.IsOneLine (m : Method) : Prop where
  name : Text.IsOneLine m.name
  returnTypes : m.returnTypes.Lacks '\n'
  signatures : ∀ sig ∈ m.signatures, ∀ p ∈ sig, p.IsOneLine

section

variable {settings : Settings} {owner : String}

theorem Parameter.isOneLine_of_build (hsettings : settings.IsOneLine) {doc : ParameterDoc}
    (hdoc : doc.IsOneLine) {method : String} {p : Parameter}
    (h : build settings doc method = .ok p) : p.IsOneLine := by
  have htypes : (documented settings doc method).types.Lacks '\n' :=
    lacks_parse_of_isOneLine <| isOneLine_replaceTypes hsettings <| isOneLine_typeOrAny <|
      NameTable.All.or hsettings.methodParameterType.lookupParameter hdoc.type
  rw [eq_of_build h]
  exact ⟨hdoc.name, htypes⟩

theorem Parameter.IsOneLine.merge {p q : Parameter} (hp : p.IsOneLine) (hq : q.IsOneLine) :
    (p.merge q).IsOneLine where
  name := by
    rw [name_merge]
    exact Text.isOneLine_append.2 ⟨Text.isOneLine_append.2 ⟨hp.name, by decide⟩, hq.name⟩
  types := hp.types.union hq.types

theorem Property.isOneLine_build (hsettings : settings.IsOneLine) {doc : PropertyDoc}
    (hdoc : doc.IsOneLine) (ownerKind : SymbolKind) :
    (build settings doc owner ownerKind).IsOneLine where
  name := hdoc.name
  types := lacks_parse_of_isOneLine <| isOneLine_replaceTypes hsettings <| isOneLine_typeOrAny <|
    NameTable.All.or hsettings.propertyType.lookup hdoc.type

theorem Property.isOneLine_of_mem_buildAll (hsettings : settings.IsOneLine)
    {docs : List PropertyDoc} (hdocs : ∀ doc ∈ docs, doc.IsOneLine) {ownerKind : SymbolKind} :
    ∀ p ∈ buildAll settings docs owner ownerKind, p.IsOneLine := by
  intro p hp
  obtain ⟨doc, hdoc, rfl⟩ := List.mem_map.1 (List.mem_filter.1 hp).1
  exact isOneLine_build hsettings (hdocs doc hdoc) ownerKind

theorem Method.isOneLine_returnExpression (hsettings : settings.IsOneLine) {doc : MethodDoc}
    (hdoc : doc.IsOneLine) (ownerKind : SymbolKind) :
    Text.IsOneLine (returnExpression settings doc owner ownerKind) := by
  have htext : Text.IsOneLine (returnTypeText settings doc owner) := by
    have hdocumented : ∀ s ∈ doc.returns.bind (·.type), Text.IsOneLine s := by
      intro s hs
      obtain ⟨r, hr, htype⟩ := Option.bind_eq_some_iff.1 hs
      exact hdoc.returns r hr s htype
    have htype : ∀ s ∈ (settings.replacements.specific.methodReturnType.lookup
        (Dotted.member owner doc.name) doc.name).or (doc.returns.bind (·.type)),
        Text.IsOneLine s :=
      NameTable.All.or hsettings.methodReturnType.lookup hdocumented
    refine Text.isOneLine_getD (fun s hs => htype s (Option.mem_filter_iff.1 hs).1) ?_
    split <;> decide
  have htype : Text.IsOneLine (returnType settings doc owner ownerKind) := by
    unfold returnType
    split
    · decide
    · exact isOneLine_replaceTypes hsettings htext
  unfold returnExpression
  split
  · decide
  · exact htype

/-- A method that is documented on one line is built from texts on one line. -/
theorem Method.isOneLine_of_build (hsettings : settings.IsOneLine) {doc : MethodDoc}
    (hdoc : doc.IsOneLine) {ownerKind : SymbolKind} {m : Method}
    (h : build settings doc owner ownerKind = .ok m) : m.IsOneLine := by
  obtain ⟨hname, hparameters, hreturn, hsignatures⟩ := madeFrom_of_build h
  have hbuilt : ∀ p ∈ m.parameters, p.IsOneLine := by
    intro p hp
    obtain ⟨doc', hdoc', hbuild⟩ := exists_of_forall₂ hparameters hp
    exact Parameter.isOneLine_of_build hsettings (hdoc.parameters doc' hdoc') hbuild
  refine ⟨hname ▸ hdoc.name, ?_, ?_⟩
  · rw [hreturn]
    exact lacks_parse_of_isOneLine (isOneLine_returnExpression hsettings hdoc ownerKind)
  · rw [hsignatures]
    exact Signature.forall_mem_of_mem_combinations (fun p hp => ⟨hp.name, hp.types⟩)
      (fun p q => Parameter.IsOneLine.merge) hbuilt

theorem Method.isOneLine_of_mem_buildAll (hsettings : settings.IsOneLine)
    {docs : List MethodDoc} (hdocs : ∀ doc ∈ docs, doc.IsOneLine) {ownerKind : SymbolKind}
    {methods : List Method}
    (h : buildAll settings docs owner ownerKind = .ok methods) : ∀ m ∈ methods, m.IsOneLine := by
  intro m hm
  obtain ⟨doc, hdoc, hbuild⟩ := exists_of_forall₂ (mapM_eq_ok.1 h) hm
  exact isOneLine_of_build hsettings (hdocs doc hdoc) hbuild

end

end ApiTypings
