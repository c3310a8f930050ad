/-
# Documents in another order

A generation reads the symbols of all documents, one document after the other, and sorts them by
name.  Symbols of one name keep their order, and nothing behind the sort looks at the order of the
documents again: how symbols of different names are mixed shows in the order of the stubs only.

* `Forest.ofSymbols_congr` : the forest does not show how symbols of different names are mixed;
* `ofDocuments_mixed` : what a generation shows of it.
-/
import ApiTypings.Proofs.Exports
import ApiTypings.Proofs.Forest.Sorted

namespace ApiTypings

/-- The forest does not show how symbols of different names are mixed, nor does a failure. -/
theorem Forest.ofSymbols_congr (settings : Settings) {as bs : List Symbol}
    (h : SameByName as bs) : ofSymbols settings as = ofSymbols settings bs := by
  rw [ofSymbols, ofSymbols, declarations, declarations, sortedByName_congr h]

namespace Generation

/-! ## Mixed documents -/

theorem symbolsOf_append (settings : Settings) (ds es : List ApiDocument) :
    symbolsOf settings (ds ++ es) = symbolsOf settings ds ++ symbolsOf settings es :=
  List.flatMap_append

/-- **Mixed documents.**  Let two lists of documents have, with the additions to their libraries,
the same symbols of each name in the same order.  Then both fail with the same error, or both are
generated with the same definitions and the same index, and their stubs differ in their order
only. -/
theorem ofDocuments_mixed {settings : Settings} {documents documents' : List ApiDocument}
    (h : SameByName (symbolsOf settings documents) (symbolsOf settings documents')) :
    (∃ e, ofDocuments settings documents = .error e ∧
        ofDocuments settings documents' = .error e) ∨
      ∃ g g', ofDocuments settings documents = .ok g ∧ ofDocuments settings documents' = .ok g' ∧
        g'.definitions = g.definitions ∧ g'.index = g.index ∧ g'.exports.Perm g.exports := by
  have hforest := Forest.ofSymbols_congr settings h
  cases hresult : Forest.ofSymbols settings (symbolsOf settings documents) with
  | error e =>
    left
    rw [ofDocuments, ofDocuments, ← hforest, hresult]
    exact ⟨e, rfl, rfl⟩
  | ok forest =>
    right
    obtain ⟨g, hg, hdefinitions, hexports⟩ := exists_ofDocuments hresult
    obtain ⟨g', hg', hdefinitions', hexports'⟩ := exists_ofDocuments (hforest ▸ hresult)
    have hsame : g'.definitions = g.definitions := hdefinitions'.trans hdefinitions.symm
    refine ⟨g, g', hg, hg', hsame, by rw [index, index, hsame], ?_⟩
    rw [hexports, hexports']
    exact (h.perm.filterMap _).symm

/-- Settings that add a class to the library `x`. -/
def withAddition : Settings :=
  { additions := ⟨[("x", [{ name := "x.Extra", kind := .classKind }])]⟩ }

/-- A library with a namespace that is declared twice. -/
def libraryX : ApiDocument where
  library := "x"
  symbols := [{ name := "x.A", kind := .namespaceKind }, { name := "x.A", kind := .classKind }]

/-- A library with an enum. -/
def libraryY : ApiDocument where
  library := "y"
  symbols := [{ name := "y.B", kind := .enumKind }]

theorem ofDocuments_mixed_libraries :
    SameByName (symbolsOf withAddition [libraryX, libraryY])
        (symbolsOf withAddition [libraryY, libraryX]) ∧
      ((∃ e, ofDocuments withAddition [libraryX, libraryY] = .error e ∧
          ofDocuments withAddition [libraryY, libraryX] = .error e) ∨
        ∃ g g', ofDocuments withAddition [libraryX, libraryY] = .ok g ∧
          ofDocuments withAddition [libraryY, libraryX] = .ok g' ∧
          g'.definitions = g.definitions ∧ g'.index = g.index ∧ g'.exports.Perm g.exports) := by
  have hnames : ∀ a ∈ symbolsOf withAddition [libraryX], ∀ b ∈ symbolsOf withAddition [libraryY],
      a.name ≠ b.name := by decide +kernel
  have hsame : SameByName (symbolsOf withAddition [libraryX, libraryY])
      (symbolsOf withAddition [libraryY, libraryX]) := by
    have hmixed := sameByName_append_comm hnames
    rwa [← symbolsOf_append, ← symbolsOf_append] at hmixed
  exact ⟨hsame, ofDocuments_mixed hsame⟩

end Generation

end ApiTypings
