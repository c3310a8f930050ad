/-
# Settings of a generation

What a settings file may say: how and where to write, what to leave out, which types and names to
replace, and which symbols and properties to add.  Every part has a default.
-/
import ApiTypings.Settings.Names
import ApiTypings.Symbol

namespace ApiTypings

/-! ## Output -/

/-- How and where declarations are written. -/
structure OutputSettings where
  /-- The indentation of one nesting level. -/
  indentation : String := "    "
  /-- The directory of the definitions, possibly with a version marker. -/
  definitionsPath : Option String := none
  /-- The directory of the export stubs, possibly with a version marker. -/
  exportsPath : Option String := none
  deriving Inhabited

/-- The marker in a path that stands for the version. -/
def versionMarker : String := "\x7b\x7bVERSION\x7d\x7d"

/-- The first two parts of a version. -/
def majorMinor (version : String) : String := Dotted.fromSegments ((Dotted.segments version).take 2)

/-- A path with the version in place of its markers; without a version the markers stay. -/
def resolveVersion (template : String) : Option String → String
  | none => template
  | some version =>
    .ofList (Text.replaceAll versionMarker.toList (majorMinor version).toList template.toList)

namespace OutputSettings

/-- The directory of the definitions for a version. -/
def definitionsDir (o : OutputSettings) (version : Option String) : String :=
  resolveVersion (o.definitionsPath.getD "dist") version

/-- The directory of the export stubs for a version, if one is set. -/
def exportsDir (o : OutputSettings) (version : Option String) : Option String :=
  o.exportsPath.map (resolveVersion · version)

end OutputSettings

/-! ## Omissions -/

/-- What is left out. -/
structure IgnoreSettings where
  /-- Namespaces left out with all they contain. -/
  namespaces : NameSet := {}
  /-- Methods never emitted. -/
  methods : NameSet := {}
  /-- Static methods of classes never emitted. -/
  staticMethods : NameSet := {}
  /-- Static properties never emitted. -/
  staticProperties : NameSet := {}
  /-- Classes whose static methods are repaired. -/
  staticMethodFixing : NameSet := {}
  /-- Static methods that stay as they are in repaired classes. -/
  staticMethodFixingAllowed : NameSet := {}
  deriving Inhabited

/-! ## Replacements -/

/-- Replacements for single declarations. -/
structure SpecificReplacements where
  /-- Namespaces written as a type alias. -/
  namespaceAsType : NameTable String := {}
  baseClass : NameTable String := {}
  methodParameterType : NameTable String := {}
  /-- Parameters made optional. -/
  methodParameterOptional : NameSet := {}
  methodReturnType : NameTable String := {}
  /-- Methods that return their class by name, not as `this`. -/
  methodReturnTypeNotThis : NameSet := {}
  /-- Methods that are not static after all. -/
  methodRemoveStatic : NameSet := {}
  methodVisibility : NameTable Visibility := {}
  propertyType : NameTable String := {}
  /-- Methods that get a catch-all overload. -/
  methodOverridesNotCompatible : NameSet := {}
  deriving Inhabited

/-- Replacements of types and names. -/
structure Replacements where
  /-- Type names replaced everywhere. -/
  everywhere : NameTable String := {}
  specific : SpecificReplacements := {}
  deriving Inhabited

/-! ## All settings -/

/-- Everything a settings file says. -/
structure Settings where
  output : OutputSettings := {}
  ignored : IgnoreSettings := {}
  replacements : Replacements := {}
  /-- Symbols added to a library. -/
  additions : NameTable (List Symbol) := {}
  /-- Properties added to a namespace. -/
  additionalProperties : NameTable (List PropertyDoc) := {}
  deriving Inhabited

end ApiTypings
