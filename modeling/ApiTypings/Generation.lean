/-
# Generations

A generation reads the documents of some libraries and produces one definition file per root
declaration, an index that refers to them all, and the export stubs.
-/
import ApiTypings.Declaration.Text
import ApiTypings.Export
import ApiTypings.Forest.Build

namespace ApiTypings

/-- A definition file. -/
structure Definition where
  /-- The full name of its root declaration. -/
  fullName : String
  content : String
  deriving DecidableEq, Repr, Inhabited

/-- The name of a definition file. -/
def Definition.fileName (d : Definition) : String := d.fullName ++ definitionSuffix

/-- Everything that a generation produces. -/
structure Generation where
  /-- The version of the first document that has one. -/
  version : Option String
  definitions : List Definition
  exports : List ExportStub
  deriving Inhabited

namespace Generation

/-! ## Definition files -/

/-- The name of the index file. -/
def indexFile : String := "index.d.ts"

/-- Definitions with the text of one more root declaration: it goes to the end of the file of its
name, or into a file of its own. -/
def addText (definitions : List Definition) (fullName content : String) : List Definition :=
  if definitions.any (·.fullName == fullName) then
    definitions.map fun d =>
      if d.fullName = fullName then { d with content := d.content ++ content } else d
  else
    definitions ++ [⟨fullName, content⟩]

/-- The definition files of a forest. -/
def definitionsOf (unit : String) (forest : Forest) : List Definition :=
  forest.foldl (fun ds d => addText ds d.fullName (d.render unit)) []

/-- The index of a generation: a reference to every definition file. -/
def index (g : Generation) : String :=
  newline.intercalate
    (g.definitions.map fun d => "/// <reference path=\"./" ++ d.fileName ++ "\" />")

/-! ## Generating -/

/-- The symbols that the settings add to a library. -/
def additionsFor (settings : Settings) (library : String) : List Symbol :=
  (settings.additions.get? library).getD []

/-- The symbols of all documents, each document followed by the additions to its library. -/
def symbolsOf (settings : Settings) (documents : List ApiDocument) : List Symbol :=
  documents.flatMap fun d => d.symbols ++ additionsFor settings d.library

/-- The declarations for some documents. -/
def ofDocuments (settings : Settings) (documents : List ApiDocument) :
    Except GenerationError Generation := do
  let symbols := symbolsOf settings documents
  let forest ← Forest.ofSymbols settings symbols
  return {
    version := documents.findSome? (·.version)
    definitions := definitionsOf settings.output.indentation forest
    exports := ExportStub.ofSymbols symbols }

end Generation

end ApiTypings
