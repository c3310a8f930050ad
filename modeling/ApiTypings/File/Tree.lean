/-
# A tree of files in memory

Files and directories by their place, which is the list of the names that lead there from the
directory in which a command runs.  Paths are followed name by name, and every name but the last
has to be a directory.

* `get?_put` : what stands at a place after a change.
-/
import ApiTypings.File.Access

namespace ApiTypings

/-- What stands at a place. -/
inductive FileEntry where
  | directory
  | file (content : String)
  deriving DecidableEq, Repr, Inhabited

/-- The names that lead to a file or directory. -/
abbrev Place := List String

/-- Files and directories by their place. -/
structure FileTree where
  entries : List (Place × FileEntry) := []
  deriving Inhabited

/-- What the last name on a path stands for. -/
structure Target where
  /-- The directory in which it is looked up. -/
  directory : Place
  /-- The name; a path may also end where a directory is without naming it. -/
  name : Option String
  /-- Whether a slash behind the name asks for a directory. -/
  slashed : Bool

namespace FileTree

/-! ## Places -/

/-- The root of the file system. -/
def rootPlace : Place := ["/"]

/-- Whether a place is the directory of the command, one that holds it, or the root. -/
def isOuter (place : Place) : Bool := place.all (· == "..") || place == rootPlace

/-- What stands at a place. -/
def get? (t : FileTree) (place : Place) : Option FileEntry :=
  if isOuter place then some .directory else t.entries.lookup place

/-- The tree with something at a place, and nothing else there. -/
def put (t : FileTree) (place : Place) (entry : FileEntry) : FileTree :=
  ⟨(place, entry) :: t.entries.filter (·.1 != place)⟩

/-- Filtering away another key leaves what a key stands for. -/
theorem lookup_filter_ne {place other : Place} (h : other ≠ place)
    (es : List (Place × FileEntry)) :
    (es.filter (·.1 != place)).lookup other = es.lookup other := by
  induction es with
  | nil => rfl
  | cons e es ih =>
    obtain ⟨p, x⟩ := e
    by_cases hp : p = place
    · subst hp
      rw [List.filter_cons_of_neg (by simp), ih, List.lookup_cons, beq_eq_false_iff_ne.2 h]
    · rw [List.filter_cons_of_pos (by simp [hp]), List.lookup_cons, List.lookup_cons, ih]

/-- What stands at a place after a change. -/
theorem get?_put (t : FileTree) (place other : Place) (entry : FileEntry)
    (h : isOuter place = false) :
    (t.put place entry).get? other = if other = place then some entry else t.get? other := by
  unfold get? put
  by_cases ho : other = place
  · subst ho
    rw [if_pos rfl, if_neg (by simp [h]), List.lookup_cons_self]
  · rw [if_neg ho, List.lookup_cons, beq_eq_false_iff_ne.2 ho]
    simp only [lookup_filter_ne ho]

/-! ## Following paths -/

/-- The greatest number of bytes in a name. -/
def nameLimit : Nat := 255

/-- The number of bytes that no path reaches. -/
def pathLimit : Nat := 4096

/-- The directory that holds a place. -/
def parentPlace (place : Place) : Place :=
  if place == rootPlace then place
  else if place.all (· == "..") then place ++ [".."]
  else place.dropLast

/-- What a name in a directory stands for, if there is something; a name that is too long cannot be
looked up. -/
def entryOf? (t : FileTree) (directory : Place) (name : String) :
    Except FileError (Option FileEntry) :=
  if name.utf8ByteSize > nameLimit then .error .nameTooLong
  else .ok (t.get? (directory ++ [name]))

/-- The directory to which one name leads. -/
def enter (t : FileTree) (place : Place) (name : String) : Except FileError Place :=
  if Path.isIdle name then .ok place
  else if name = ".." then .ok (parentPlace place)
  else do
    match ← t.entryOf? place name with
    | none => .error .notFound
    | some (.file _) => .error .notADirectory
    | some .directory => .ok (place ++ [name])

/-- Where a path leads. -/
def locate (t : FileTree) (path : String) : Except FileError Target := do
  if path.toList.contains '\x00' then throw .nulInPath
  if path.isEmpty then throw .notFound
  if path.utf8ByteSize ≥ pathLimit then throw .nameTooLong
  let first := if Path.isAbsolute path then rootPlace else []
  let names := (Path.names path).reverse
  match names.dropWhile (·.isEmpty) with
  | [] => return ⟨first, none, true⟩
  | last :: before =>
    let directory ← before.reverse.foldlM t.enter first
    if last = "." ∨ last = ".." then return ⟨← t.enter directory last, none, true⟩
    return ⟨directory, some last, names.head? = some ""⟩

/-! ## Access -/

/-- The content of a file. -/
def read (t : FileTree) (path : String) : Except FileError String := do
  let target ← t.locate path
  match target.name with
  | none => throw .isADirectory
  | some name =>
    match ← t.entryOf? target.directory name with
    | none => throw .notFound
    | some .directory => throw .isADirectory
    | some (.file content) => if target.slashed then throw .notADirectory else return content

/-- The tree after a file was written.  A path that asks for a directory is refused before its last
name is looked up. -/
def write (t : FileTree) (path content : String) : Except FileError FileTree := do
  let target ← t.locate path
  match target.name with
  | none => throw .isADirectory
  | some name =>
    if target.slashed then throw .isADirectory
    match ← t.entryOf? target.directory name with
    | some .directory => throw .isADirectory
    | _ => return t.put (target.directory ++ [name]) (.file content)

/-- The tree after a directory was made. -/
def makeDirectory (t : FileTree) (path : String) : Except FileError FileTree := do
  let target ← t.locate path
  match target.name with
  | none => throw .alreadyExists
  | some name =>
    match ← t.entryOf? target.directory name with
    | some _ => throw .alreadyExists
    | none => return t.put (target.directory ++ [name]) .directory

/-- Whether a path leads to a directory. -/
def isDirectory (t : FileTree) (path : String) : Bool :=
  match t.locate path with
  | .error _ => false
  | .ok target =>
    match target.name with
    | none => true
    | some name => t.get? (target.directory ++ [name]) = some .directory

/-- The tree after an operation, which leaves it alone if it fails. -/
def change (f : FileTree → Except FileError FileTree) : StateM FileTree (Except FileError Unit) :=
  fun t =>
    match f t with
    | .ok t' => (.ok (), t')
    | .error e => (.error e, t)

/-- Access to a tree in memory; reports are lost. -/
def access : FileAccess (StateM FileTree) where
  read path := fun t => (t.read path, t)
  write path content := change (·.write path content)
  makeDirectory path := change (·.makeDirectory path)
  isDirectory path := fun t => (t.isDirectory path, t)
  report _ := pure ()

/-! ## Trees and lists of files -/

/-- The tree with one more file and the directories around it. -/
def withFile (t : FileTree) (file : OutputFile) : FileTree :=
  let write := do
    let _ ← access.ensureDirectories (Path.directoriesAbove file.path)
    let _ ← access.write file.path file.content
  (write.run t).2

/-- The tree of some files. -/
def ofFiles (files : List OutputFile) : FileTree := files.foldl withFile {}

/-- The files at or below the directory of the command. -/
def files (t : FileTree) : List OutputFile :=
  t.entries.filterMap fun (place, entry) =>
    match entry with
    | .directory => none
    | .file content =>
      if place.head? = some ".." ∨ place.head? = some "/" then none
      else some ⟨"/".intercalate place, content⟩

/-- The files of a tree that another tree does not have with this content. -/
def changedFrom (t before : FileTree) : List OutputFile :=
  t.files.filter (!before.files.contains ·)

end FileTree

end ApiTypings
