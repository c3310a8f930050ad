/-
# Notices

What a run reports beside its result: each notice has a level and a text.
-/
import ApiTypings.Text.Quoted

namespace ApiTypings

/-- How much a notice matters. -/
inductive NoticeLevel where
  | debug
  | info
  | warn
  deriving DecidableEq, Repr

/-- The word for a level. -/
def NoticeLevel.word : NoticeLevel → String
  | debug => "DEBUG"
  | info => "INFO"
  | warn => "WARN"

/-- Something a run reports. -/
inductive Notice where
  /-- The angle brackets of a type do not close. -/
  | unbalancedType (type : String)
  /-- The settings leave out a namespace. -/
  | namespaceIgnored (fullName : String)
  /-- The settings leave out a method. -/
  | methodIgnored (fullName : String)
  /-- The settings leave out a static property. -/
  | staticPropertyIgnored (fullName : String)
  /-- A static method was dropped for an instance method of its name. -/
  | staticMethodDropped (fullName : String)
  /-- A static method was made an instance method. -/
  | staticMethodFixed (fullName : String)
  /-- A symbol is declared more than once. -/
  | declaredAgain (fullName : String)
  /-- A trailing optional parameter cannot be left out for the next one. -/
  | notElidable (parameter next : String)
  /-- The classes were indexed. -/
  | classesIndexed (count : Nat)
  /-- The return type of a method was replaced. -/
  | returnReplaced (fullName old new : String)
  /-- A method was made public. -/
  | promoted (fullName : String)
  /-- A method only repeats the one it overrides. -/
  | redundantOverride (fullName : String)
  /-- Classes were left alone because of a cycle of base classes. -/
  | cyclicBases (names : List String)
  /-- A document was taken in. -/
  | libraryRead (library : String) (symbols added : Nat)
  /-- The declarations are complete. -/
  | generated (definitions exports : Nat)
  /-- A document was read from a file. -/
  | documentRead (file library : String) (symbols : Nat)
  /-- A file was written. -/
  | fileWritten (file : String)
  /-- All definitions were written. -/
  | declarationsWritten (directory : String)
  deriving DecidableEq, Repr

namespace Notice

/-- The level of a notice. -/
def level : Notice → NoticeLevel
  | unbalancedType _ | staticMethodDropped _ | staticMethodFixed _ | declaredAgain _
  | cyclicBases _ => .warn
  | libraryRead .. | generated .. | declarationsWritten _ => .info
  | namespaceIgnored _ | methodIgnored _ | staticPropertyIgnored _ | notElidable ..
  | classesIndexed _ | returnReplaced .. | promoted _ | redundantOverride _ | documentRead ..
  | fileWritten _ => .debug

/-- The wording of a notice. -/
def message : Notice → String
  | unbalancedType type => "unbalanced generic brackets in type `" ++ type ++ "`"
  | namespaceIgnored fullName => "ignoring namespace " ++ fullName
  | methodIgnored fullName => "ignoring method " ++ fullName
  | staticPropertyIgnored fullName => "ignoring static property " ++ fullName
  | staticMethodDropped fullName => "removing duplicate static method " ++ fullName
  | staticMethodFixed fullName => "fixing static method " ++ fullName
  | declaredAgain fullName => "symbol " ++ fullName ++ " is declared more than once"
  | notElidable parameter next =>
    "optional `" ++ parameter ++ "` cannot be elided in favour of `" ++ next ++ "`"
  | classesIndexed count => "indexed " ++ toString count ++ " classes"
  | returnReplaced fullName old new => fullName ++ ": return type " ++ old ++ " -> " ++ new
  | promoted fullName => fullName ++ ": promoted to public"
  | redundantOverride fullName => fullName ++ ": redundant override"
  | cyclicBases names =>
    "cyclic base class chain, overrides not reconciled for: " ++ Text.quotedList names
  | libraryRead library symbols added =>
    "library " ++ library ++ ": " ++ toString symbols ++ " symbols, " ++ toString added ++ " added"
  | generated definitions exports =>
    "generated " ++ toString definitions ++ " definition files and " ++ toString exports
      ++ " export stubs"
  | documentRead file library symbols =>
    file ++ ": library " ++ library ++ ", " ++ toString symbols ++ " symbols"
  | fileWritten file => "wrote " ++ file
  | declarationsWritten directory => "wrote declarations to " ++ directory

/-- The notice as a line of a log. -/
def line (n : Notice) : String := n.level.word ++ " " ++ n.message

/-- The lines of some notices, each one once, sorted. -/
def log (notices : List Notice) : List String := (notices.map line).eraseDups.mergeSort

end Notice

end ApiTypings
