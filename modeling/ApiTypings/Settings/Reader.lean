/-
# Reading settings

A settings file is a TOML text, and every section of it is a record whose fields all have defaults.
The documented things that settings add are read like those of an API document.
-/
import ApiTypings.Record.Symbols
import ApiTypings.Settings.Basic
import ApiTypings.Toml.Reader

namespace ApiTypings

/-! ## Tables and sets -/

namespace Reading

/-- One entry of a table. -/
def entry {α : Type} (read : Json → Reading α) : Option String × Json → Reading (String × α)
  | (some name, j) => (read j).map (name, ·)
  | (none, _) => .error .malformed

/-- A table of values under names. -/
def nameTable {α : Type} (read : Json → Reading α) : Json → Reading (NameTable α)
  | .object fields true => (fields.mapM (entry read)).map (⟨·⟩)
  | j => .error (mistaken j .map)

/-- A set of names, given as a list. -/
def nameSet (j : Json) : Reading NameSet := (list string j).map (⟨·⟩)

end Reading

/-! ## Sections -/

namespace SettingsRecord

open Reading

/-- The section on output. -/
def output : RecordKind OutputSettings where
  title := "OutputSettings"
  blank := {}
  fields := [
    .of "indentation" string fun o indentation => { o with indentation },
    .of "definitions_path" (optional string) fun o definitionsPath => { o with definitionsPath },
    .of "exports_path" (optional string) fun o exportsPath => { o with exportsPath }]

/-- The section on omissions. -/
def ignored : RecordKind IgnoreSettings where
  title := "IgnoreSettings"
  blank := {}
  fields := [
    .of "namespaces" nameSet fun i namespaces => { i with namespaces },
    .of "methods" nameSet fun i methods => { i with methods },
    .of "static_methods" nameSet fun i staticMethods => { i with staticMethods },
    .of "static_properties" nameSet fun i staticProperties => { i with staticProperties },
    .of "smart_static_method_fixing" nameSet fun i staticMethodFixing =>
      { i with staticMethodFixing },
    .of "smart_static_method_fixing_allowed" nameSet fun i staticMethodFixingAllowed =>
      { i with staticMethodFixingAllowed }]

/-- The section on replacements for single declarations. -/
def specific : RecordKind SpecificReplacements where
  title := "SpecificReplacements"
  blank := {}
  fields := [
    .of "namespace_as_type" (nameTable string) fun s namespaceAsType =>
      { s with namespaceAsType },
    .of "base_class" (nameTable string) fun s baseClass => { s with baseClass },
    .of "method_parameter_type" (nameTable string) fun s methodParameterType =>
      { s with methodParameterType },
    .of "method_parameter_optional" nameSet fun s methodParameterOptional =>
      { s with methodParameterOptional },
    .of "method_return_type" (nameTable string) fun s methodReturnType =>
      { s with methodReturnType },
    .of "method_return_type_not_this" nameSet fun s methodReturnTypeNotThis =>
      { s with methodReturnTypeNotThis },
    .of "method_remove_static" nameSet fun s methodRemoveStatic =>
      { s with methodRemoveStatic },
    .of "method_visibility" (nameTable (Visibility.read .settings)) fun s methodVisibility =>
      { s with methodVisibility },
    .of "property_type" (nameTable string) fun s propertyType => { s with propertyType },
    .of "method_overrides_not_compatible" nameSet fun s methodOverridesNotCompatible =>
      { s with methodOverridesNotCompatible }]

/-- The section on replacements. -/
def replacements : RecordKind Replacements where
  title := "Replacements"
  blank := {}
  fields := [
    .of "global" (nameTable string) fun r everywhere => { r with everywhere },
    .of "specific" (specific.read .settings) fun r specific => { r with specific }]

/-- A whole settings file. -/
def all : RecordKind Settings where
  title := "Settings"
  blank := {}
  fields := [
    .of "output" (output.read .settings) fun s output => { s with output },
    .of "ignore" (ignored.read .settings) fun s ignored => { s with ignored },
    .of "replacements" (replacements.read .settings) fun s replacements =>
      { s with replacements },
    .of "additions" (nameTable (list ((Record.symbol .settings).read .settings)))
      fun s additions => { s with additions },
    .of "additional_properties" (nameTable (list ((Record.property .settings).read .settings)))
      fun s additionalProperties => { s with additionalProperties }]

end SettingsRecord

/-! ## Files -/

namespace Settings

/-- The settings in a tree of tables. -/
def ofEntries? (es : Toml.Entries) : Option Settings :=
  ((SettingsRecord.all.read .settings) (.object (Toml.entriesToJson es) true)).toOption

/-- The settings in a TOML text, if it is one and its values fit. -/
def parse? (content : String) : Option Settings := (Toml.read? content).bind ofEntries?

end Settings

end ApiTypings
