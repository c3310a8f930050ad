/-
# Reasons to give up a generation

Declarations are taken at their word by a type checker, so a contradiction in the documentation
ends the run.  Every cause is a constructor of `GenerationError`; `message` is its wording.
-/
import ApiTypings.Symbol

namespace ApiTypings

/-- What a declaration was asked to own. -/
inductive MemberRole where
  | method
  | nestedDeclaration
  deriving DecidableEq, Repr

/-- The word for a role in messages. -/
def MemberRole.word : MemberRole → String
  | method => "method"
  | nestedDeclaration => "nested declaration"

/-- How a parameter was misused. -/
inductive ParameterMisuse where
  | alreadyRequired
  | alreadyOptional
  deriving DecidableEq, Repr

/-- The wording of a misuse. -/
def ParameterMisuse.message : ParameterMisuse → String
  | alreadyRequired => "parameter is already required"
  | alreadyOptional => "parameter is already optional"

/-- Why no declarations can be generated. -/
inductive GenerationError where
  /-- Two classes have one full name. -/
  | duplicateClass (fullName : String)
  /-- A declaration of this kind has no such members. -/
  | cannotOwn (kind : SymbolKind) (owner : String) (role : MemberRole) (name : String)
  /-- A parameter was made what it already is. -/
  | parameterMisuse (method parameter : String) (misuse : ParameterMisuse)
  deriving DecidableEq, Repr

/-- The wording of an error. -/
def GenerationError.message : GenerationError → String
  | duplicateClass fullName => "class `" ++ fullName ++ "` is declared more than once"
  | cannotOwn kind owner role name =>
    kind.word ++ " `" ++ owner ++ "` cannot own " ++ role.word ++ " `" ++ name ++ "`"
  | parameterMisuse method parameter misuse =>
    "parameter `" ++ parameter ++ "` of `" ++ method ++ "`: " ++ misuse.message

end ApiTypings
