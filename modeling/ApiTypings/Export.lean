/-
# Export stubs

Modules are loaded by a path such as `sap/m/Button`.  A stub at that path exports the global
declaration of the module: for every class and enum, and for a namespace that is a module itself.
-/
import ApiTypings.Symbol

namespace ApiTypings

/-- A file that exports a declaration. -/
structure ExportStub where
  /-- The path of the file, relative to the directory of the stubs. -/
  path : String
  content : String
  deriving DecidableEq, Repr, Inhabited

/-- The ending of declaration files. -/
def definitionSuffix : String := ".d.ts"

namespace ExportStub

/-- The text with the capital letters of ASCII in lowercase. -/
def lowercaseAscii (s : String) : String := .ofList (s.toList.map Char.toLower)

/-- Whether a name belongs to `jQuery`, which exports itself. -/
def isJQueryName (name : String) : Bool := Text.beginsWith "jquery" (lowercaseAscii name)

/-- The path of the module of a dotted name. -/
def modulePath (name : String) : String := "/".intercalate (Dotted.segments name)

/-- The path of the stub of a namespace: beside its resource, or at its module. -/
def namespacePath (s : Symbol) : String :=
  match s.resource with
  | none => modulePath s.name ++ definitionSuffix
  | some resource =>
    match Text.withoutSuffix ".js" resource with
    | some stem => stem ++ definitionSuffix
    | none => resource

/-- The path of the stub of a symbol, if it has one. -/
def path? (s : Symbol) : Option String :=
  match s.kind with
  | .namespaceKind =>
    if s.module = some (modulePath s.name) then some (namespacePath s) else none
  | .classKind | .enumKind => some (modulePath s.name ++ definitionSuffix)
  | .interfaceKind | .typedefKind => none

/-- The stub of a symbol, if it has one. -/
def ofSymbol? (s : Symbol) : Option ExportStub :=
  if isJQueryName s.name then none
  else (path? s).map fun path => ⟨path, "export default " ++ s.name ++ ";"⟩

/-- The stubs of symbols, in their order. -/
def ofSymbols (symbols : List Symbol) : List ExportStub := symbols.filterMap ofSymbol?

end ExportStub

end ApiTypings
