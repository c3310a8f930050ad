/-
# The program

The command line on the files of the disk.  Reports go to the standard error stream; only a run
that was asked for it reports everything.
-/
import ApiTypings.CommandLine.Run

namespace ApiTypings

/-- The number that the system gives an error, if the error is one of files. -/
def systemNumber? : IO.Error → Option Nat
  | .noFileOrDirectory _ n _ => some n.toNat
  | .alreadyExists _ n _ => some n.toNat
  | .inappropriateType _ n _ => some n.toNat
  | .invalidArgument _ n _ => some n.toNat
  | _ => none

/-- The error of files that an error of the system is. -/
def FileError.ofSystem (e : IO.Error) : FileError :=
  match systemNumber? e with
  | some 2 => .notFound
  | some 17 => .alreadyExists
  | some 20 => .notADirectory
  | some 21 => .isADirectory
  | some 36 => .nameTooLong
  | _ => .other (toString e)

/-- The result of an action on files. -/
def attempt {α : Type} (action : IO α) : IO (Except FileError α) := do
  match ← action.toBaseIO with
  | .ok a => return .ok a
  | .error e => return .error (.ofSystem e)

/-- Whether a path leads to a directory: reading it as a file fails for that reason. -/
def isDirectoryOnDisk (path : String) : IO Bool := do
  match ← attempt (IO.FS.readFile path) with
  | .error .isADirectory => return true
  | _ => return false

/-- Access to the files of the disk. -/
def diskAccess (debug : Bool) : FileAccess IO where
  read path := attempt (IO.FS.readFile path)
  write path content := attempt (IO.FS.writeFile path content)
  makeDirectory path := attempt (IO.FS.createDir path)
  isDirectory := isDirectoryOnDisk
  report notice := if notice.level = .debug ∧ !debug then pure () else IO.eprintln notice.line

/-- The text about the use of the program. -/
def usage : String :=
  "Usage: api-typings [-d] generate FILES.. [-c FILE] [-o DIR] [--exports DIR] [--api-version V]"

/-- The version of the program. -/
def programVersion : String := "0.1.0"

/-- What is said at the end of a program. -/
def Outcome.say : Outcome → IO Unit
  | .shown .version => IO.println programVersion
  | .shown _ => IO.println usage
  | .misused e => IO.eprintln ("error: " ++ e.message ++ "\n" ++ usage)
  | .failed e => IO.eprintln ("error: " ++ e.message)
  | .done => pure ()

/-- Whether a command reports everything. -/
def Command.isVerbose : Command → Bool
  | .generate o => o.debug
  | _ => false

end ApiTypings

open ApiTypings in
/-- Runs the program on the words behind its name. -/
def main (words : List String) : IO UInt32 := do
  let verbose := ((Command.parse words).toOption.map (·.isVerbose)).getD false
  let outcome ← Command.runWords (diskAccess verbose) words
  outcome.say
  return outcome.exitCode.toUInt32
