/-
# The records of an API document

How each record of an API document is read: the names of its fields, in their order, and what may
stand in each of them.
-/
import ApiTypings.Json.Writer
import ApiTypings.Record.Reader
import ApiTypings.Symbol

namespace ApiTypings

namespace SymbolKind

/-- A kind of symbol. -/
def read (origin : Origin) : Json → Reading SymbolKind :=
  Reading.variant origin (all.map fun k => (k.word, k))

end SymbolKind

namespace Visibility

/-- A visibility. -/
def read (origin : Origin) : Json → Reading Visibility :=
  Reading.variant origin (all.map fun v => (v.word, v))

end Visibility

namespace Record

open Reading

/-! ## Kinds of records -/

/-- The record of a deprecation. -/
def deprecation : RecordKind Deprecation where
  title := "Deprecation"
  blank := {}
  fields := [
    .of "since" (optional string) fun d since => { d with since },
    .of "text" (optional string) fun d text => { d with text }]

/-- The record of a property. -/
def property (origin : Origin) : RecordKind PropertyDoc where
  title := "PropertySymbol"
  blank := { name := "" }
  fields := [
    .needed "name" string fun p name => { p with name },
    .of "type" (optional string) fun p type => { p with type },
    .of "visibility" (Visibility.read origin) fun p visibility => { p with visibility },
    .of "static" boolean fun p isStatic => { p with isStatic },
    .of "optional" boolean fun p optional => { p with optional },
    .of "description" (optional string) fun p description => { p with description },
    .of "deprecated" (optional (deprecation.read origin)) fun p deprecated =>
      { p with deprecated }]

/-- The record of a parameter. -/
def parameter : RecordKind ParameterDoc where
  title := "ParameterSymbol"
  blank := { name := "" }
  fields := [
    .needed "name" string fun p name => { p with name },
    .of "type" (optional string) fun p type => { p with type },
    .of "optional" boolean fun p optional => { p with optional },
    { Field.of "spread" boolean fun (p : ParameterDoc) spread => { p with spread } with
      otherName := some "repeatable" },
    .of "description" (optional string) fun p description => { p with description }]

/-- The record of a return value. -/
def returnValue : RecordKind ReturnDoc where
  title := "ReturnValueSymbol"
  blank := {}
  fields := [
    .of "type" (optional string) fun r type => { r with type },
    .of "description" (optional string) fun r description => { r with description }]

/-- The record of a method. -/
def method (origin : Origin) : RecordKind MethodDoc where
  title := "MethodSymbol"
  blank := { name := "" }
  fields := [
    .needed "name" string fun m name => { m with name },
    .of "visibility" (Visibility.read origin) fun m visibility => { m with visibility },
    .of "static" boolean fun m isStatic => { m with isStatic },
    .of "description" (optional string) fun m description => { m with description },
    .of "parameters" (list (parameter.read origin)) fun m parameters => { m with parameters },
    .of "returnValue" (optional (returnValue.read origin)) fun m returns => { m with returns },
    .of "deprecated" (optional (deprecation.read origin)) fun m deprecated =>
      { m with deprecated }]

/-- The record of a constructor. -/
def constructorRecord (origin : Origin) : RecordKind ConstructorDoc where
  title := "ConstructorSymbol"
  blank := {}
  fields := [
    .of "visibility" (Visibility.read origin) fun c visibility => { c with visibility },
    .of "description" (optional string) fun c description => { c with description },
    .of "parameters" (list (parameter.read origin)) fun c parameters => { c with parameters },
    .of "deprecated" (optional (deprecation.read origin)) fun c deprecated =>
      { c with deprecated }]

/-- The record of a symbol. -/
def symbol (origin : Origin) : RecordKind Symbol where
  title := "Symbol"
  blank := { name := "", kind := .namespaceKind }
  fields := [
    .needed "name" string fun s name => { s with name },
    .needed "kind" (SymbolKind.read origin) fun s kind => { s with kind },
    .of "visibility" (Visibility.read origin) fun s visibility => { s with visibility },
    .of "static" boolean fun s isStatic => { s with isStatic },
    .of "description" (optional string) fun s description => { s with description },
    .of "extends" (optional string) fun s baseClass => { s with baseClass },
    .of "module" (optional string) fun s module => { s with module },
    .of "resource" (optional string) fun s resource => { s with resource },
    .of "deprecated" (optional (deprecation.read origin)) fun s deprecated =>
      { s with deprecated },
    .of "properties" (list ((property origin).read origin)) fun s properties =>
      { s with properties },
    .of "methods" (list ((method origin).read origin)) fun s methods => { s with methods },
    .of "constructor" (optional ((constructorRecord origin).read origin)) fun s constructorDoc =>
      { s with constructorDoc }]

/-- The record of a document. -/
def document (origin : Origin) : RecordKind ApiDocument where
  title := "ApiDocument"
  blank := {}
  fields := [
    .of "library" string fun d library => { d with library },
    .of "version" (optional string) fun d version => { d with version },
    .of "symbols" (list ((symbol origin).read origin)) fun d symbols => { d with symbols }]

end Record

/-! ## Documents -/

namespace ApiDocument

/-- The document in a JSON text, which nothing but blanks may follow. -/
def parse (content : String) : Reading ApiDocument := do
  let (j, alone) := Json.read content
  let d ← (Record.document .text).read .text j
  if alone then return d else throw .malformed

/-- The document that a tree stands for, which is the document of its text. -/
def ofJson (j : Json) : Reading ApiDocument := parse j.render

end ApiDocument

end ApiTypings
