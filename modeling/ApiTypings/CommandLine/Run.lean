/-
# Running a command

A generation reads its settings and its documents, generates the declarations, and writes them.
The first error ends it; files that were written before stay.
-/
import ApiTypings.CommandLine.Arguments
import ApiTypings.File.Access
import ApiTypings.Report
import ApiTypings.Settings.Reader

namespace ApiTypings

/-! ## Errors -/

/-- Why a command fails. -/
inductive CommandError where
  /-- The settings file cannot be read, or holds no settings. -/
  | settings (file : String)
  | unreadable (file : String) (e : FileError)
  /-- A file holds no document. -/
  | malformed (file : String)
  | generation (e : GenerationError)
  /-- A directory cannot be made. -/
  | notCreated (directory : String) (e : FileError)
  | notWritten (file : String) (e : FileError)
  deriving DecidableEq, Repr

/-- The wording of an error. -/
def CommandError.message : CommandError → String
  | settings file => "load config " ++ file
  | unreadable file e => "read " ++ file ++ ": " ++ e.message
  | malformed file => "parse " ++ file
  | generation e => "generate declarations: " ++ e.message
  | notCreated directory e => "create " ++ directory ++ ": " ++ e.message
  | notWritten file e => "write " ++ file ++ ": " ++ e.message

/-! ## What a generation writes -/

namespace Generation

/-- The definition files in a directory, and the index behind them. -/
def definitionFiles (g : Generation) (directory : String) : List OutputFile :=
  (g.definitions.map fun d => ⟨Path.join directory d.fileName, d.content⟩)
    ++ [⟨Path.join directory indexFile, g.index⟩]

/-- The export stubs in a directory. -/
def exportFiles (g : Generation) (directory : String) : List OutputFile :=
  g.exports.map fun stub => ⟨Path.join directory stub.path, stub.content⟩

end Generation

namespace GenerateOptions

/-- The version in the paths of a generation. -/
def versionFor (o : GenerateOptions) (g : Generation) : Option String := o.apiVersion.or g.version

/-- The directory of the definitions: an option wins over the settings. -/
def definitionsDir (o : GenerateOptions) (settings : Settings) (g : Generation) : String :=
  match o.out with
  | some directory => resolveVersion directory (o.versionFor g)
  | none => settings.output.definitionsDir (o.versionFor g)

/-- The directory of the export stubs, if there is to be one: an option wins over the settings. -/
def exportsDir (o : GenerateOptions) (settings : Settings) (g : Generation) : Option String :=
  match o.exports with
  | some directory => some (resolveVersion directory (o.versionFor g))
  | none => settings.output.exportsDir (o.versionFor g)

end GenerateOptions

/-! ## The steps of a command -/

namespace FileAccess

variable {m : Type → Type} [Monad m] (fs : FileAccess m)

/-- A step of a command. -/
abbrev Step (m : Type → Type) (α : Type) := ExceptT CommandError m α

/-- A step whose failure has a place in the command. -/
def orFail {α : Type} (action : m (Except FileError α)) (cause : FileError → CommandError) :
    Step m α := do
  match ← action with
  | .ok a => return a
  | .error e => throw (cause e)

/-- The settings of a file, or the defaults when there is none. -/
def readSettings : Option String → Step m Settings
  | none => return {}
  | some file => do
    let content ← orFail (fs.read file) fun _ => .settings file
    match Settings.parse? content with
    | some settings => return settings
    | none => throw (.settings file)

/-- The document in a file. -/
def readDocument (file : String) : Step m ApiDocument := do
  let content ← orFail (fs.read file) (.unreadable file)
  match ApiDocument.parse content with
  | .error _ => throw (.malformed file)
  | .ok d =>
    fs.report (.documentRead file d.library d.symbols.length)
    return d

/-- Writes a file and makes the directories it needs. -/
def writeFile (file : OutputFile) : Step m Unit := do
  let above := Path.directoriesAbove file.path
  orFail (fs.ensureDirectories above) (.notCreated (above.headD ""))
  orFail (fs.write file.path file.content) (.notWritten file.path)
  fs.report (.fileWritten file.path)

/-- Writes files one after the other. -/
def writeFiles (files : List OutputFile) : Step m Unit := files.forM fs.writeFile

/-- Generates declarations and writes them. -/
def generate (o : GenerateOptions) : Step m Unit := do
  let settings ← fs.readSettings o.settings
  let documents ← o.files.mapM fs.readDocument
  (Generation.notices settings documents).forM fun notice => fs.report notice
  match Generation.ofDocuments settings documents with
  | .error e => throw (.generation e)
  | .ok g =>
    let directory := o.definitionsDir settings g
    fs.writeFiles (g.definitionFiles directory)
    match o.exportsDir settings g with
    | some directory => fs.writeFiles (g.exportFiles directory)
    | none => pure ()
    fs.report (.declarationsWritten directory)

end FileAccess

/-! ## Commands -/

/-- How a program ends. -/
inductive Outcome where
  /-- Help, or the version, was asked for. -/
  | shown (command : Command)
  | misused (e : UsageError)
  | failed (e : CommandError)
  | done
  deriving DecidableEq

/-- The exit code of a program. -/
def Outcome.exitCode : Outcome → Nat
  | shown _ | done => 0
  | failed _ => 1
  | misused _ => 2

/-- The line that names the error of a program that failed.  What a message says behind its first
line stands on lines of its own. -/
def Outcome.errorLine? : Outcome → Option String
  | failed e => some (.ofList (Text.firstLine ("error: " ++ e.message).toList))
  | _ => none

/-- Runs a command. -/
def Command.run {m : Type → Type} [Monad m] (fs : FileAccess m) : Command → m Outcome
  | .generate o => do
    match ← (fs.generate o).run with
    | .ok () => return .done
    | .error e => return .failed e
  | c => return .shown c

/-- Runs the command of words. -/
def Command.runWords {m : Type → Type} [Monad m] (fs : FileAccess m) (words : List String) :
    m Outcome :=
  match Command.parse words with
  | .ok c => c.run fs
  | .error e => return .misused e

end ApiTypings
