/-
# Replaced types

Replacing works on texts.  A type is cut into alternatives, every alternative is looked up by its
spelling, and what the table gives is joined by bars and read again.  As long as no value in front
of a bar leaves a bracket open, the bar is not lost, and the replaced type is the union of the
replaced alternatives.

Two things follow.  Types that are the same stay the same, if every alternative of the one has an
alternative of the other with its spelling that the table treats alike.  And an alternative becomes
what the table says about it, but for the suffix of arrays, which goes to the last alternative of a
value.

* `alternatives_replaceTypes` : the alternatives of a replaced type;
* `replaceTypes_respects` : when replacing respects equality of types;
* `parse_replaceTypes` : what a replaced type is read as.
-/
import ApiTypings.Proofs.Layout.OneLine
import ApiTypings.Proofs.Text.Order
import ApiTypings.Proofs.TypeExpr.Pieces

namespace ApiTypings

/-! ## Brackets of names under `jQuery` -/

namespace TypeExpr

/-- Capitalizing a text neither adds brackets nor takes any away. -/
theorem depthBehind_capitalized (depth : Nat) (cs : List Char) :
    depthBehind depth (Text.capitalized cs) = depthBehind depth cs := by
  cases cs with
  | nil => rfl
  | cons c cs =>
    have hupper : depthBehind depth (Text.upperOf c) = depthAfter depth c := by
      rcases bracket_cases c with rfl | rfl | ⟨hopen, hclose⟩
      · rw [show Text.upperOf '<' = ['<'] by decide +kernel]
        rfl
      · rw [show Text.upperOf '>' = ['>'] by decide +kernel]
        rfl
      · have hbalanced : isBalanced (Text.upperOf c) = true :=
          isBalanced_of_no_bracket (Text.not_mem_upperOf (by decide) (by decide) hopen)
            (Text.not_mem_upperOf (by decide) (by decide) hclose)
        rw [depthBehind_of_isBalanced hbalanced, depthAfter_of_ne hopen hclose]
    rw [Text.capitalized, depthBehind_append, hupper, depthBehind_cons]

/-- The same for the pieces between dots, put together without the dots. -/
theorem depthBehind_flatten_capitalized (depth : Nat) (ps : List (List Char)) :
    depthBehind depth (ps.map Text.capitalized).flatten
      = depthBehind depth (['.'].intercalate ps) := by
  induction ps generalizing depth with
  | nil => rfl
  | cons p ps ih =>
    rw [List.map_cons, List.flatten_cons, depthBehind_append, depthBehind_capitalized, ih]
    cases ps with
    | nil => simp [depthBehind]
    | cons q ps =>
      have hdot : ∀ depth : Nat, depthBehind depth ['.'] = depth := fun _ => rfl
      rw [List.intercalate_cons_cons, depthBehind_append, depthBehind_append, hdot]

theorem depthBehind_jQueryInterface (name : String) :
    depthBehind 0 (jQueryInterface name).toList = depthBehind 0 name.toList := by
  unfold jQueryInterface
  split
  · rename_i hname
    rw [hname]
    rfl
  · rw [String.toList_ofList, depthBehind_flatten_capitalized, Text.intercalate_cut]

/-- A reference to a name has the brackets of the name. -/
theorem depthBehind_referenceTo (name owner : String) :
    depthBehind 0 (referenceTo name owner).toList = depthBehind 0 name.toList := by
  unfold referenceTo
  split
  · rfl
  · split
    · exact depthBehind_jQueryInterface name
    · rw [String.toList_append, depthBehind_append]
      rfl

end TypeExpr

/-! ## Unions -/

namespace TypeSet

/-- The union of some sets. -/
def unionOf (sets : List TypeSet) : TypeSet := sets.foldr union empty

theorem mem_keys_unionOf {sets : List TypeSet} {key : String} :
    key ∈ (unionOf sets).keys ↔ ∃ s ∈ sets, key ∈ s.keys := by
  induction sets with
  | nil => simp [unionOf, empty, keys]
  | cons s sets ih =>
    have hunion : key ∈ (unionOf (s :: sets)).keys ↔ key ∈ s.keys ∨ key ∈ (unionOf sets).keys :=
      mem_keys_union
    rw [hunion, ih]
    simp

theorem nodup_keys_unionOf (sets : List TypeSet) : (unionOf sets).keys.Nodup := by
  cases sets with
  | nil => exact List.nodup_nil
  | cons s sets => exact nodup_keys_union _ _

end TypeSet

namespace Replacements

open TypeExpr TypeSet

variable {r : Replacements} {owner : String}

/-! ## The alternatives of a replaced type -/

/-- The value of the table for a name, or the name itself. -/
def valueOf (r : Replacements) (name : String) : String := (r.everywhere.get? name).getD name

theorem replaceName_eq (r : Replacements) (name owner : String) :
    r.replaceName name owner = referenceTo (r.valueOf name) owner := rfl

/-- No value of the table leaves a bracket open. -/
def ClosesBrackets (r : Replacements) : Prop :=
  r.everywhere.All fun value => depthBehind 0 value.toList = 0

theorem closesBrackets_of_balanced
    (h : r.everywhere.All fun value => isBalanced value.toList = true) : r.ClosesBrackets :=
  fun e he => depthBehind_of_isBalanced (h e he) 0

theorem depthBehind_valueOf (h : r.ClosesBrackets) {name : String}
    (hname : depthBehind 0 name.toList = 0) : depthBehind 0 (r.valueOf name).toList = 0 := by
  unfold valueOf
  cases hvalue : r.everywhere.get? name with
  | none => exact hname
  | some value => exact NameTable.All.get? h value hvalue

/-- An alternative that closes its brackets is replaced by one that does. -/
theorem depthBehind_replaceAlternative (h : r.ClosesBrackets) {term : List Char}
    (hterm : depthBehind 0 term = 0) : depthBehind 0 (r.replaceAlternative owner term) = 0 := by
  have hname : ∀ name : List Char, depthBehind 0 name = 0 →
      depthBehind 0 (r.replaceName (.ofList name) owner).toList = 0 := by
    intro name hname
    rw [replaceName_eq, depthBehind_referenceTo]
    exact depthBehind_valueOf h (by rwa [String.toList_ofList])
  unfold replaceAlternative
  split
  · rename_i element helement
    rw [Text.stripSuffix?_eq_some.1 helement, depthBehind_append] at hterm
    rw [depthBehind_append, hname element hterm]
    rfl
  · exact hname term hterm

/-- Behind what the alternatives of a type are replaced by, but for the last, the brackets are
closed. -/
def ClosesIn (r : Replacements) (owner raw : String) : Prop :=
  ((alternatives raw.toList).map (r.replaceAlternative owner)).Pairwise
    fun p _ => depthBehind 0 p = 0

instance (r : Replacements) (owner raw : String) : Decidable (r.ClosesIn owner raw) :=
  inferInstanceAs (Decidable (List.Pairwise ..))

/-- If no value of the table leaves a bracket open, this holds of all types. -/
theorem ClosesBrackets.closesIn (h : r.ClosesBrackets) (owner raw : String) :
    r.ClosesIn owner raw :=
  List.Pairwise.map _ (fun _ _ ht => depthBehind_replaceAlternative h ht)
    (pairwise_alternatives raw.toList)

/-- A replaced type has the alternatives of its replaced alternatives. -/
theorem alternatives_replaceTypes {raw : String} (h : r.ClosesIn owner raw) :
    alternatives (r.replaceTypes raw owner).toList
      = (alternatives raw.toList).flatMap fun t =>
          alternatives (r.replaceAlternative owner t) := by
  have hnil : Text.isBlankText [] = true := rfl
  have hjoin := alternatives_intercalate_of_closed hnil hnil h
  rw [List.nil_append] at hjoin
  rw [replaceTypes, String.toList_ofList, hjoin, List.flatMap_map]

/-- A replaced type is the union of its replaced alternatives. -/
theorem mem_keys_replaceTypes {raw key : String} (h : r.ClosesIn owner raw) :
    key ∈ (parse (r.replaceTypes raw owner)).keys ↔
      ∃ t ∈ alternatives raw.toList,
        key ∈ (parse (.ofList (r.replaceAlternative owner t))).keys := by
  rw [parse, mem_keys_ofTerms, List.map_map, alternatives_replaceTypes h, List.map_flatMap,
    List.mem_flatMap]
  refine exists_congr fun t => and_congr_right fun _ => ?_
  rw [parse, mem_keys_ofTerms, List.map_map, String.toList_ofList]

/-! ## Equal types -/

/-- The table treats two alternatives alike: they are one text, or both stay as they are, or what
they are replaced by is the same type. -/
def TreatsAlike (r : Replacements) (owner : String) (t u : List Char) : Prop :=
  t = u ∨ (r.replaceAlternative owner t = t ∧ r.replaceAlternative owner u = u) ∨
    (parse (.ofList (r.replaceAlternative owner t))
      == parse (.ofList (r.replaceAlternative owner u))) = true

instance (r : Replacements) (owner : String) (t u : List Char) :
    Decidable (r.TreatsAlike owner t u) :=
  inferInstanceAs (Decidable (_ ∨ _ ∨ _))

/-- Alternatives with one spelling that are treated alike have the same replacement. -/
theorem TreatsAlike.mem_keys_iff {a b t u : List Char} (h : r.TreatsAlike owner t u)
    (ht : t ∈ alternatives a) (hu : u ∈ alternatives b)
    (hspelled : (TypeTerm.ofChars t).render = (TypeTerm.ofChars u).render) (key : String) :
    key ∈ (parse (.ofList (r.replaceAlternative owner t))).keys ↔
      key ∈ (parse (.ofList (r.replaceAlternative owner u))).keys := by
  rcases h with rfl | ⟨hkeptLeft, hkeptRight⟩ | hsame
  · exact Iff.rfl
  · -- an alternative that stays as it is has one spelling
    have hkeys : ∀ {cs p : List Char}, p ∈ alternatives cs →
        (parse (.ofList p)).keys = [(TypeTerm.ofChars p).render] := fun hp => by
      rw [parse_of_mem_alternatives hp]
      rfl
    rw [hkeptLeft, hkeptRight, hkeys ht, hkeys hu, hspelled]
  · exact mem_keys_of_beq (nodup_keys_parse _) hsame key

/-- Everything that the alternatives of `a` are replaced by is also what some alternative of `b` is
replaced by. -/
def Covers (r : Replacements) (owner a b : String) : Prop :=
  ∀ t ∈ alternatives a.toList, ∀ key ∈ (parse (.ofList (r.replaceAlternative owner t))).keys,
    ∃ u ∈ alternatives b.toList, key ∈ (parse (.ofList (r.replaceAlternative owner u))).keys

/-- Every alternative of `a` has one of `b` with its spelling that the table treats alike. -/
def Matches (r : Replacements) (owner a b : String) : Prop :=
  ∀ t ∈ alternatives a.toList, ∃ u ∈ alternatives b.toList,
    (TypeTerm.ofChars t).render = (TypeTerm.ofChars u).render ∧ r.TreatsAlike owner t u

instance (r : Replacements) (owner a b : String) : Decidable (r.Matches owner a b) :=
  inferInstanceAs (Decidable (∀ t ∈ alternatives a.toList, ∃ u ∈ alternatives b.toList, _ ∧ _))

theorem covers_of_beq {a b : String} (ha : r.ClosesIn owner a) (hb : r.ClosesIn owner b)
    (hsame : (parse (r.replaceTypes a owner) == parse (r.replaceTypes b owner)) = true) :
    r.Covers owner a b := by
  intro t ht key hkey
  have hin := (mem_keys_replaceTypes ha).2 ⟨t, ht, hkey⟩
  exact (mem_keys_replaceTypes hb).1 ((mem_keys_of_beq (nodup_keys_parse _) hsame key).1 hin)

/-- Replaced types are the same when all of one is in the other, and conversely. -/
theorem beq_replaceTypes_iff {a b : String} (ha : r.ClosesIn owner a) (hb : r.ClosesIn owner b) :
    (parse (r.replaceTypes a owner) == parse (r.replaceTypes b owner)) = true ↔
      r.Covers owner a b ∧ r.Covers owner b a := by
  constructor
  · intro hsame
    exact ⟨covers_of_beq ha hb hsame, covers_of_beq hb ha (beq_symm (nodup_keys_parse _) hsame)⟩
  · rintro ⟨hab, hba⟩
    refine beq_of_mem_keys (nodup_keys_parse _) (nodup_keys_parse _) fun key => ?_
    rw [mem_keys_replaceTypes ha, mem_keys_replaceTypes hb]
    exact ⟨fun ⟨t, ht, hkey⟩ => hab t ht key hkey, fun ⟨u, hu, hkey⟩ => hba u hu key hkey⟩

theorem Matches.covers {a b : String} (h : r.Matches owner a b) : r.Covers owner a b := by
  intro t ht key hkey
  obtain ⟨u, hu, hspelled, halike⟩ := h t ht
  exact ⟨u, hu, (halike.mem_keys_iff ht hu hspelled key).1 hkey⟩

/-- Texts among the alternatives of both types are spelled and treated alike. -/
theorem matches_of_subset {a b : String}
    (h : ∀ t ∈ alternatives a.toList, t ∈ alternatives b.toList) : r.Matches owner a b :=
  fun t ht => ⟨t, h t ht, rfl, .inl rfl⟩

/-- Types that are the same match when the table treats all spellings of one alternative alike. -/
theorem matches_of_beq {a b : String} (hsame : (parse a == parse b) = true)
    (halike : ∀ t ∈ alternatives a.toList, ∀ u ∈ alternatives b.toList,
      (TypeTerm.ofChars t).render = (TypeTerm.ofChars u).render → r.TreatsAlike owner t u) :
    r.Matches owner a b := by
  intro t ht
  have hkey : (TypeTerm.ofChars t).render ∈ (parse a).keys := by
    rw [parse, mem_keys_ofTerms, List.map_map]
    exact List.mem_map_of_mem (f := TypeTerm.render ∘ .ofChars) ht
  have hother := (beq_iff.1 hsame).2 _ hkey
  rw [parse, mem_keys_ofTerms, List.map_map] at hother
  obtain ⟨u, hu, hspelled⟩ := List.mem_map.1 hother
  exact ⟨u, hu, hspelled.symm, halike t ht u hu hspelled.symm⟩

/-- An alternative alone is replaced as it is. -/
theorem replaceTypes_of_single {t : List Char} (ht : alternatives t = [t]) :
    r.replaceTypes (.ofList t) owner = .ofList (r.replaceAlternative owner t) := by
  rw [replaceTypes, String.toList_ofList, ht, List.map_singleton, List.intercalate_singleton]

/-- **Replacing respects equality of types** as far as the table treats the spellings of an
alternative alike.  Replaced types are the same exactly when each one covers the other.  This is so
for types that are the same when every alternative of the one has one of the other that is treated
alike, and conversely, and so whenever the texts of the alternatives are the same.  Whatever the
table leaves open, blanks around the alternatives make no difference.  A table whose values close
their brackets respects equality of all types exactly when it treats all spellings of one
alternative alike. -/
theorem replaceTypes_respects (r : Replacements) (owner : String) :
    (∀ a b : String, r.ClosesIn owner a → r.ClosesIn owner b →
      ((parse (r.replaceTypes a owner) == parse (r.replaceTypes b owner)) = true ↔
        r.Covers owner a b ∧ r.Covers owner b a) ∧
      ((parse a == parse b) = true → r.Matches owner a b → r.Matches owner b a →
        (parse (r.replaceTypes a owner) == parse (r.replaceTypes b owner)) = true) ∧
      ((∀ t, t ∈ alternatives a.toList ↔ t ∈ alternatives b.toList) →
        (parse (r.replaceTypes a owner) == parse (r.replaceTypes b owner)) = true)) ∧
    (∀ a b : String, alternatives a.toList = alternatives b.toList →
      r.replaceTypes a owner = r.replaceTypes b owner) ∧
    (r.ClosesBrackets →
      ((∀ a b : String, (parse a == parse b) = true →
          (parse (r.replaceTypes a owner) == parse (r.replaceTypes b owner)) = true) ↔
        ∀ t u : List Char, alternatives t = [t] → alternatives u = [u] →
          (TypeTerm.ofChars t).render = (TypeTerm.ofChars u).render →
          r.TreatsAlike owner t u)) := by
  have hmatched : ∀ a b : String, r.ClosesIn owner a → r.ClosesIn owner b →
      r.Matches owner a b → r.Matches owner b a →
      (parse (r.replaceTypes a owner) == parse (r.replaceTypes b owner)) = true :=
    fun a b ha hb hab hba => (beq_replaceTypes_iff ha hb).2 ⟨hab.covers, hba.covers⟩
  refine ⟨fun a b ha hb => ⟨beq_replaceTypes_iff ha hb, fun _ => hmatched a b ha hb, ?_⟩,
    fun a b htexts => by rw [replaceTypes, replaceTypes, htexts],
    fun h => ⟨fun hall t u ht hu hspelled => ?_, fun halike a b hsame => ?_⟩⟩
  · intro htexts
    exact hmatched a b ha hb (matches_of_subset fun t => (htexts t).1)
      (matches_of_subset fun t => (htexts t).2)
  · have hmem : ∀ {p : List Char}, alternatives p = [p] → p ∈ alternatives p := fun hp =>
      hp ▸ List.mem_singleton_self _
    have hsame : (parse (.ofList t) == parse (.ofList u)) = true := by
      rw [parse_of_mem_alternatives (hmem ht), parse_of_mem_alternatives (hmem hu)]
      exact beq_iff.2 ⟨rfl, fun key hkey => by simpa [keys, hspelled] using hkey⟩
    have hreplaced := hall _ _ hsame
    rw [replaceTypes_of_single ht, replaceTypes_of_single hu] at hreplaced
    exact .inr (.inr hreplaced)
  · have hsingle : ∀ {cs : List Char}, ∀ p ∈ alternatives cs, alternatives p = [p] :=
      fun p hp => alternatives_of_mem_alternatives hp
    refine hmatched a b (h.closesIn owner a) (h.closesIn owner b) (matches_of_beq hsame ?_)
      (matches_of_beq (beq_symm (nodup_keys_parse a) hsame) ?_)
    · exact fun t ht u hu => halike t u (hsingle t ht) (hsingle u hu)
    · exact fun u hu t ht => halike u t (hsingle u hu) (hsingle t ht)

/-- A table with `number` for `int`. -/
def intTable : Replacements := { everywhere := ⟨[("int", "number")]⟩ }

/-- The order of the alternatives, blanks between them and the spelling of an array that is not in
the table do not matter, even when both spellings of another array come up. -/
theorem replaceTypes_respects_intTable :
    intTable.ClosesIn "x.C.m" "int[] | Array<string>|Array<int>" ∧
      intTable.ClosesIn "x.C.m" "string[]|Array<int>|int[]" ∧
      (parse "int[] | Array<string>|Array<int>" == parse "string[]|Array<int>|int[]") = true ∧
      (parse (intTable.replaceTypes "int[] | Array<string>|Array<int>" "x.C.m")
        == parse (intTable.replaceTypes "string[]|Array<int>|int[]" "x.C.m")) = true := by
  have ha : intTable.ClosesIn "x.C.m" "int[] | Array<string>|Array<int>" := by decide +kernel
  have hb : intTable.ClosesIn "x.C.m" "string[]|Array<int>|int[]" := by decide +kernel
  have hsame : (parse "int[] | Array<string>|Array<int>" == parse "string[]|Array<int>|int[]")
      = true := by decide +kernel
  have hab : intTable.Matches "x.C.m" "int[] | Array<string>|Array<int>"
      "string[]|Array<int>|int[]" := by decide +kernel
  have hba : intTable.Matches "x.C.m" "string[]|Array<int>|int[]"
      "int[] | Array<string>|Array<int>" := by decide +kernel
  exact ⟨ha, hb, hsame, ((replaceTypes_respects intTable "x.C.m").1 _ _ ha hb).2.1 hsame hab hba⟩

/-- A table with a value that leaves a bracket open. -/
def openTable : Replacements := { everywhere := ⟨[("X", "A<")]⟩ }

/-- An array in brackets is not looked up by its element, and behind an open bracket the order of
the alternatives matters. -/
theorem not_respects_arrayOfInt :
    (parse "Array<int>" == parse "int[]") = true ∧
      (parse (intTable.replaceTypes "Array<int>" "x.C.m")
        == parse (intTable.replaceTypes "int[]" "x.C.m")) = false ∧
      (parse "X|B" == parse "B|X") = true ∧
      (parse (openTable.replaceTypes "X|B" "x.C.m")
        == parse (openTable.replaceTypes "B|X" "x.C.m")) = false := by
  decide +kernel

/-! ## The meaning of a replaced alternative -/

/-- What an alternative is replaced by if the table has no names under `jQuery`: the value as it is
read, with the suffix of arrays put behind its text. -/
def written (r : Replacements) (term : List Char) : TypeSet :=
  match Text.stripSuffix? "[]".toList term with
  | some element => parse (r.valueOf (.ofList element) ++ "[]")
  | none => parse (r.valueOf (.ofList term))

/-- What the table says about an alternative: the value, or the array of everything in the value for
an alternative with the suffix of arrays. -/
def meant (r : Replacements) (term : List Char) : TypeSet :=
  match Text.stripSuffix? "[]".toList term with
  | some element => ⟨[.array (parse (r.valueOf (.ofList element))).terms]⟩
  | none => parse (r.valueOf (.ofList term))

/-- The table has no union for an alternative with the suffix of arrays. -/
def KeepsSuffix (r : Replacements) (term : List Char) : Prop :=
  ∀ element ∈ Text.stripSuffix? "[]".toList term,
    ∀ value ∈ r.everywhere.get? (.ofList element), OnlyLast value.toList

instance (r : Replacements) (term : List Char) : Decidable (r.KeepsSuffix term) :=
  inferInstanceAs (Decidable (∀ element ∈ Text.stripSuffix? "[]".toList term,
    ∀ value ∈ r.everywhere.get? (.ofList element), OnlyLast value.toList))

/-- The suffix of an alternative is about everything in the value exactly when the value is no
union. -/
theorem written_beq_meant_iff {cs term : List Char} (hterm : term ∈ alternatives cs) :
    (r.written term == r.meant term) = true ↔ r.KeepsSuffix term := by
  unfold written meant KeepsSuffix
  cases hsuffix : Text.stripSuffix? "[]".toList term with
  | none => exact iff_of_true (beq_refl _) fun element helement => absurd helement (by simp)
  | some element =>
    obtain rfl := Text.stripSuffix?_eq_some.1 hsuffix
    simp only [Option.mem_some_iff, forall_eq']
    rw [parse_append_suffix_iff, valueOf]
    cases hvalue : r.everywhere.get? (.ofList element) with
    | none =>
      refine iff_of_true ?_ fun value h => absurd h (by simp)
      rw [Option.getD_none, String.toList_ofList]
      exact onlyLast_of_uncut (uncut_of_suffix_mem_alternatives hterm)
    | some value => simp

section

variable (hvalues : r.everywhere.All fun value => Text.beginsWith jQueryStart value = false)

include hvalues

/-- A name that is not under `jQuery` is replaced by its value. -/
theorem replaceName_of_not_jQuery {name : String}
    (hname : Text.beginsWith jQueryStart name = false) :
    r.replaceName name owner = r.valueOf name := by
  have hvalue : Text.beginsWith jQueryStart (r.valueOf name) = false := by
    unfold valueOf
    cases hget : r.everywhere.get? name with
    | none => exact hname
    | some value => exact NameTable.All.get? hvalues value hget
  rw [replaceName_eq, referenceTo, hvalue]
  rfl

theorem parse_replaceAlternative {term : List Char}
    (hterm : Text.beginsWith jQueryStart (.ofList term) = false) :
    parse (.ofList (r.replaceAlternative owner term)) = r.written term := by
  unfold replaceAlternative written
  cases hsuffix : Text.stripSuffix? "[]".toList term with
  | none =>
    dsimp only
    rw [replaceName_of_not_jQuery hvalues hterm, String.ofList_toList]
  | some element =>
    obtain rfl := Text.stripSuffix?_eq_some.1 hsuffix
    have helement : Text.beginsWith jQueryStart (.ofList element) = false := by
      by_contra hbegins
      rw [Bool.not_eq_false, Text.beginsWith_iff] at hbegins
      obtain ⟨rest, hrest⟩ := hbegins
      rw [String.ofList_append, hrest, String.append_assoc, Text.beginsWith_append] at hterm
      exact absurd hterm (by decide)
    dsimp only
    rw [replaceName_of_not_jQuery hvalues helement, String.ofList_append, String.ofList_toList,
      String.ofList_toList]

/-- **Replaced types**, for a table and a type without names under `jQuery`.  The replaced type is
the union of the values of the alternatives, as they are written.  The suffix of an alternative is
about its whole value exactly when the value is no union; when this holds of all alternatives, the
replaced type is what the table says. -/
theorem parse_replaceTypes (h : r.ClosesBrackets) {raw : String}
    (hraw : ∀ t ∈ alternatives raw.toList, Text.beginsWith jQueryStart (.ofList t) = false) :
    (parse (r.replaceTypes raw owner)
        == unionOf ((alternatives raw.toList).map r.written)) = true ∧
      (∀ t ∈ alternatives raw.toList,
        ((r.written t == r.meant t) = true ↔ r.KeepsSuffix t)) ∧
      ((∀ t ∈ alternatives raw.toList, r.KeepsSuffix t) →
        (parse (r.replaceTypes raw owner)
          == unionOf ((alternatives raw.toList).map r.meant)) = true) := by
  have hkeys : ∀ key, key ∈ (parse (r.replaceTypes raw owner)).keys ↔
      ∃ t ∈ alternatives raw.toList, key ∈ (r.written t).keys := by
    intro key
    rw [mem_keys_replaceTypes (h.closesIn owner raw)]
    refine exists_congr fun t => and_congr_right fun ht => ?_
    rw [parse_replaceAlternative hvalues (hraw t ht)]
  refine ⟨?_, fun t ht => written_beq_meant_iff ht, fun hkeeps => ?_⟩
  · refine beq_of_mem_keys (nodup_keys_parse _) (nodup_keys_unionOf _) fun key => ?_
    rw [hkeys, mem_keys_unionOf]
    simp
  · refine beq_of_mem_keys (nodup_keys_parse _) (nodup_keys_unionOf _) fun key => ?_
    rw [hkeys, mem_keys_unionOf]
    have hsame : ∀ t ∈ alternatives raw.toList,
        (key ∈ (r.written t).keys ↔ key ∈ (r.meant t).keys) := by
      intro t ht
      have hnodup : (r.written t).keys.Nodup := by
        unfold written
        split <;> exact nodup_keys_parse _
      exact mem_keys_of_beq hnodup ((written_beq_meant_iff ht).2 (hkeeps t ht)) key
    simp only [List.mem_map, exists_exists_and_eq_and]
    exact exists_congr fun t => and_congr_right fun ht => hsame t ht

end

/-- A table with a generic and a union. -/
def promiseTable : Replacements :=
  { everywhere := ⟨[("Result", "Promise<A|B>"), ("Id", "string | int")]⟩ }

/-- An array of a generic, a union, and an array of a name that is not in the table. -/
theorem parse_replaceTypes_promiseTable :
    promiseTable.ClosesBrackets ∧
      (promiseTable.everywhere.All fun value => Text.beginsWith jQueryStart value = false) ∧
      (∀ t ∈ alternatives "Result[]|Id|Foo[]".toList,
        Text.beginsWith jQueryStart (.ofList t) = false) ∧
      (parse (promiseTable.replaceTypes "Result[]|Id|Foo[]" "x.C.m")
        == unionOf ((alternatives "Result[]|Id|Foo[]".toList).map promiseTable.meant)) = true := by
  have hvalues : promiseTable.everywhere.All fun value =>
      Text.beginsWith jQueryStart value = false :=
    List.forall_mem_cons.2 ⟨by decide, List.forall_mem_singleton.2 (by decide)⟩
  have hclosed : promiseTable.ClosesBrackets :=
    closesBrackets_of_balanced
      (List.forall_mem_cons.2 ⟨by decide, List.forall_mem_singleton.2 (by decide)⟩)
  have hraw : ∀ t ∈ alternatives "Result[]|Id|Foo[]".toList,
      Text.beginsWith jQueryStart (.ofList t) = false := by decide +kernel
  have hkeeps : ∀ t ∈ alternatives "Result[]|Id|Foo[]".toList, promiseTable.KeepsSuffix t := by
    decide +kernel
  exact ⟨hclosed, hvalues, hraw, (parse_replaceTypes hvalues hclosed hraw).2.2 hkeeps⟩

/-- A table with a union for `Foo`. -/
def unionTable : Replacements := { everywhere := ⟨[("Foo", "A|B")]⟩ }

/-- The suffix of `Foo[]` goes to the last alternative of the union. -/
theorem replaceTypes_arrayOfUnion :
    (∀ e ∈ unionTable.everywhere.entries,
        isBalanced e.2.toList = true ∧ Text.beginsWith jQueryStart e.2 = false) ∧
      (∀ t ∈ alternatives "Foo[]".toList, Text.beginsWith jQueryStart (.ofList t) = false) ∧
      unionTable.replaceTypes "Foo[]" "x.C.m" = "A|B[]" ∧
      (parse (unionTable.replaceTypes "Foo[]" "x.C.m")
        == unionOf ((alternatives "Foo[]".toList).map unionTable.meant)) = false := by
  decide +kernel

end Replacements

end ApiTypings
