/-
# Paths

Paths are texts with slashes between the names.  Empty names and single dots say nothing, so a
directory above a path is written without those that would stand at its end.

* `length_kept_le` : what is kept of a path is no longer than the path.
-/
import ApiTypings.Text.Pieces

namespace ApiTypings.Path

/-- Whether a path begins at the root of the file system. -/
def isAbsolute (path : String) : Bool := Text.beginsWith "/" path

/-- A path inside a directory.  An absolute path stays what it is. -/
def join (directory path : String) : String :=
  if isAbsolute path || directory.isEmpty then path
  else if (Text.withoutSuffix "/" directory).isSome then directory ++ path
  else directory ++ "/" ++ path

/-- The names on a path, with empty ones where slashes have nothing between them. -/
def names (path : String) : List String := Text.pieces '/' path

/-! ## The directories above a path -/

/-- Whether a name says nothing. -/
def isIdle (name : String) : Bool := name.isEmpty || name == "."

/-- What is left of names, last one first, without idle ones at the end. -/
def kept (reversed : List String) : List String := reversed.dropWhile isIdle

/-- What is kept of a path is no longer than the path. -/
theorem length_kept_le (reversed : List String) : (kept reversed).length ≤ reversed.length :=
  (List.dropWhile_sublist isIdle).length_le

/-- The names of the directories above some names, last name first, nearest directory first. -/
def above : List String → List (List String)
  | [] => []
  | _ :: rest => kept rest :: above (kept rest)
termination_by reversed => reversed.length
decreasing_by
  have := length_kept_le rest
  simp only [List.length_cons]
  omega

/-- A path as the part that shows where it begins and the names behind that part. -/
def start (path : String) : String × List String :=
  match names path with
  | "" :: n :: ns => ("/", n :: ns)
  | "." :: ns => (".", if ns.isEmpty then [] else "" :: ns)
  | ns => ("", ns)

/-- The directories above a path, nearest one first.  The current directory is not named. -/
def directoriesAbove (path : String) : List String :=
  let (first, ns) := start path
  ((above (kept ns.reverse)).map fun reversed => first ++ "/".intercalate reversed.reverse).filter
    (!·.isEmpty)

end ApiTypings.Path
