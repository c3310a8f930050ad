/-
# Arguments

The words behind the name of the program: options, the command, and the files it is about.  Words
are read from left to right, and the first mistake, or a request for help, ends the reading.

An option with a value takes it from the same word, as in `--out=DIR`, `-o=DIR` or `-oDIR`, or from
the next word.  Behind the word `--` every word is a file.
-/
import ApiTypings.Text.Pieces

namespace ApiTypings

/-! ## Commands -/

/-- An option that has a value. -/
inductive ValueOption where
  /-- The settings file. -/
  | settings
  /-- The directory of the definitions. -/
  | out
  /-- The directory of the export stubs. -/
  | exports
  /-- The version in the paths. -/
  | apiVersion
  deriving DecidableEq, Repr

/-- What a generation was asked to do. -/
structure GenerateOptions where
  /-- The documents, in order. -/
  files : List String := []
  settings : Option String := none
  out : Option String := none
  exports : Option String := none
  apiVersion : Option String := none
  /-- Whether everything is reported. -/
  debug : Bool := false
  deriving DecidableEq, Repr

/-- What a program was asked to do. -/
inductive Command where
  | help
  | version
  | generate (options : GenerateOptions)
  deriving DecidableEq, Repr

/-- Why words are no command. -/
inductive UsageError where
  | noCommand
  | unknownCommand (word : String)
  | unexpected (word : String)
  | missingValue (option : String)
  | emptyValue (option : String)
  | unneededValue (option : String)
  | repeated (option : String)
  | noFiles
  deriving DecidableEq, Repr

/-- The wording of a mistake. -/
def UsageError.message : UsageError → String
  | noCommand => "a command is needed"
  | unknownCommand word => "unknown command '" ++ word ++ "'"
  | unexpected word => "unexpected argument '" ++ word ++ "'"
  | missingValue option => "option '" ++ option ++ "' needs a value"
  | emptyValue option => "'" ++ option ++ "' must not be empty"
  | unneededValue option => "option '" ++ option ++ "' has no value"
  | repeated option => "option '" ++ option ++ "' comes twice"
  | noFiles => "no documents given"

namespace ValueOption

/-- The long name of an option. -/
def name : ValueOption → String
  | settings => "--config"
  | out => "--out"
  | exports => "--exports"
  | apiVersion => "--api-version"

/-- All options with values. -/
def all : List ValueOption := [settings, out, exports, apiVersion]

/-- The option of a long name. -/
def ofName? (word : String) : Option ValueOption := all.find? (·.name == word)

/-- The option of a letter. -/
def ofLetter? : Char → Option ValueOption
  | 'c' => some settings
  | 'o' => some out
  | _ => none

/-- The value given for an option before. -/
def given? (o : GenerateOptions) : ValueOption → Option String
  | settings => o.settings
  | out => o.out
  | exports => o.exports
  | apiVersion => o.apiVersion

/-- The options with a value for one of them, which may come once; a file has a name. -/
def set (o : GenerateOptions) (value : String) (option : ValueOption) :
    Except UsageError GenerateOptions :=
  if (option.given? o).isSome then .error (.repeated option.name)
  else
    match option with
    | settings =>
      if value.isEmpty then .error (.emptyValue option.name)
      else .ok { o with settings := some value }
    | out => .ok { o with out := some value }
    | exports => .ok { o with exports := some value }
    | apiVersion => .ok { o with apiVersion := some value }

end ValueOption

/-! ## Words -/

namespace Arguments

/-- Where a word stands. -/
inductive Position where
  /-- In front of the command. -/
  | program
  /-- Behind the command `generate`. -/
  | generate
  deriving DecidableEq

/-- What a part of a word asks for. -/
inductive Request where
  | debug
  | help
  | version
  /-- An option with its value, if the word has it. -/
  | set (option : ValueOption) (value : Option String)
  deriving DecidableEq

/-- Whether a word is written like an option. -/
def isOption (word : String) : Bool := Text.beginsWith "-" word && word != "-"

/-- A text without an equals sign at its beginning. -/
def withoutEquals : List Char → List Char
  | '=' :: cs => cs
  | cs => cs

/-- The option of a letter at a position. -/
def letterOption? : Position → Char → Option ValueOption
  | .program, _ => none
  | .generate, c => ValueOption.ofLetter? c

/-- What the letters behind a single dash ask for.  A letter of an option with a value takes all
that is behind it. -/
def ofLetters (position : Position) (word : String) : List Char → Except UsageError (List Request)
  | [] => .ok []
  | c :: cs =>
    match letterOption? position c with
    | some option =>
      .ok [.set option (if cs.isEmpty then none else some (.ofList (withoutEquals cs)))]
    | none =>
      if c = 'd' then (ofLetters position word cs).map (.debug :: ·)
      else if c = 'h' then .ok [.help]
      else if c = 'V' ∧ position = .program then .ok [.version]
      else .error (.unexpected word)

/-- The part of a word in front of the first equals sign, and the part behind it. -/
def splitEquals (word : String) : String × Option String :=
  let cs := word.toList
  (.ofList (cs.takeWhile (· ≠ '=')), (cs.dropWhile (· ≠ '=')).tail?.map .ofList)

/-- A request that has no value. -/
def plain (name : String) (value : Option String) (request : Request) :
    Except UsageError (List Request) :=
  if value.isSome then .error (.unneededValue name) else .ok [request]

/-- What a word behind two dashes asks for. -/
def ofLongName (position : Position) (word : String) : Except UsageError (List Request) :=
  let (name, value) := splitEquals word
  if name = "--debug" then plain name value .debug
  else if name = "--help" then plain name value .help
  else if name = "--version" ∧ position = .program then plain name value .version
  else
    match position, ValueOption.ofName? name with
    | .generate, some option => .ok [.set option value]
    | _, _ => .error (.unexpected word)

/-- What a word that is written like an option asks for. -/
def ofOption (position : Position) (word : String) : Except UsageError (List Request) :=
  if Text.beginsWith "--" word then ofLongName position word
  else ofLetters position word word.toList.tail

/-! ## The command `generate` -/

/-- How far the words have been read. -/
inductive Progress where
  /-- The options so far. -/
  | options (o : GenerateOptions)
  /-- The options so far and one that waits for its value. -/
  | awaiting (o : GenerateOptions) (option : ValueOption)
  /-- Help was asked for. -/
  | help

/-- The options after the requests of one word. -/
def apply (o : GenerateOptions) : List Request → Except UsageError Progress
  | [] => .ok (.options o)
  | .help :: _ | .version :: _ => .ok .help
  | .debug :: requests =>
    if o.debug then .error (.repeated "--debug") else apply { o with debug := true } requests
  | .set option none :: _ => .ok (.awaiting o option)
  | .set option (some value) :: requests => do apply (← option.set o value) requests

/-- The options with one more file. -/
def addFile (o : GenerateOptions) (file : String) : Except UsageError GenerateOptions :=
  if file.isEmpty then .error (.emptyValue "FILES") else .ok { o with files := o.files ++ [file] }

/-- The command with all its options, which need a file. -/
def complete (o : GenerateOptions) : Except UsageError Command :=
  if o.files.isEmpty then .error .noFiles else .ok (.generate o)

/-- The command of the words behind `generate`. -/
def parseGenerate (o : GenerateOptions) : List String → Except UsageError Command
  | [] => complete o
  | word :: rest =>
    if word = "--" then do complete (← rest.foldlM addFile o)
    else if isOption word then do
      match ← apply o (← ofOption .generate word) with
      | .help => return .help
      | .options o => parseGenerate o rest
      | .awaiting o option =>
        match rest with
        | [] => throw (.missingValue option.name)
        | value :: rest =>
          if isOption value then throw (.missingValue option.name)
          else parseGenerate (← option.set o value) rest
    else do parseGenerate (← addFile o word) rest

/-! ## All words -/

/-- The names of the commands. -/
def commandNames : List String := ["generate", "help"]

/-- The command of the words behind `help`, which may name a command. -/
def parseHelp : List String → Except UsageError Command
  | [] => .ok .help
  | word :: rest =>
    if word ∉ commandNames then .error (.unknownCommand word)
    else
      match rest with
      | [] => .ok .help
      | word :: _ => .error (.unknownCommand word)

/-- A command with everything reported, if that was asked for in front of it. -/
def withDebug (debug : Bool) : Command → Command
  | .generate o => .generate { o with debug := o.debug || debug }
  | c => c

/-- What the requests of a word in front of the command come to: a command, or whether everything
is reported. -/
def applyProgram (debug : Bool) : List Request → Except UsageError (Command ⊕ Bool)
  | [] => .ok (.inr debug)
  | .debug :: requests =>
    if debug then .error (.repeated "--debug") else applyProgram true requests
  | .version :: _ => .ok (.inl .version)
  | .help :: _ | .set .. :: _ => .ok (.inl .help)

/-- The command of words, where `debug` says that everything is reported. -/
def parseFrom (debug : Bool) : List String → Except UsageError Command
  | [] => .error .noCommand
  | word :: rest =>
    if word = "generate" then (parseGenerate {} rest).map (withDebug debug)
    else if word = "help" then parseHelp rest
    else if word = "--" then .error (rest.head?.elim .noCommand .unexpected)
    else if isOption word then do
      match ← applyProgram debug (← ofOption .program word) with
      | .inl c => return c
      | .inr debug => parseFrom debug rest
    else .error (.unknownCommand word)

end Arguments

/-- The command of words. -/
def Command.parse (words : List String) : Except UsageError Command :=
  Arguments.parseFrom false words

end ApiTypings
