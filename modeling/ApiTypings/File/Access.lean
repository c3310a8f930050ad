/-
# Access to files

What a command needs from its surroundings: to read and write files, to make directories, and to
report.  A command is written against `FileAccess`, so that it runs on a tree of files in memory
just as it runs on a disk.
-/
import ApiTypings.File.Path
import ApiTypings.Notice

namespace ApiTypings

/-! ## Errors -/

/-- Why a file or directory cannot be read or written. -/
inductive FileError where
  | notFound
  | alreadyExists
  | notADirectory
  | isADirectory
  | nameTooLong
  /-- The path has a character that no path may have. -/
  | nulInPath
  /-- Any other reason, in the words of the system. -/
  | other (reason : String)
  deriving DecidableEq, Repr

namespace FileError

/-- The wording of an error with the number that systems give it. -/
def numbered (reason : String) (number : Nat) : String :=
  reason ++ " (os error " ++ toString number ++ ")"

/-- The wording of an error. -/
def message : FileError → String
  | notFound => numbered "No such file or directory" 2
  | alreadyExists => numbered "File exists" 17
  | notADirectory => numbered "Not a directory" 20
  | isADirectory => numbered "Is a directory" 21
  | nameTooLong => numbered "File name too long" 36
  | nulInPath => "file name contained an unexpected NUL byte"
  | other reason => reason

end FileError

/-! ## Access -/

/-- Access to files and directories by their paths. -/
structure FileAccess (m : Type → Type) where
  read : String → m (Except FileError String)
  /-- The file is made if it is not there. -/
  write : String → String → m (Except FileError Unit)
  /-- Makes one directory. -/
  makeDirectory : String → m (Except FileError Unit)
  isDirectory : String → m Bool
  report : Notice → m Unit

/-- A file to write. -/
structure OutputFile where
  path : String
  content : String
  deriving DecidableEq, Repr

namespace FileAccess

variable {m : Type → Type} [Monad m] (fs : FileAccess m)

/-- Makes a directory, where it is no error that it is there. -/
def ensureDirectory (path : String) : m (Except FileError Unit) := do
  match ← fs.makeDirectory path with
  | .ok () => return .ok ()
  | .error e => if ← fs.isDirectory path then return .ok () else return .error e

/-- Makes the first of some directories, each one inside the next, and those around it as far as
they are not there. -/
def ensureDirectories : List String → m (Except FileError Unit)
  | [] => return .ok ()
  | path :: above => do
    match ← fs.ensureDirectory path with
    | .error .notFound =>
      match ← ensureDirectories above with
      | .ok () => fs.ensureDirectory path
      | .error e => return .error e
    | result => return result

end FileAccess

end ApiTypings
