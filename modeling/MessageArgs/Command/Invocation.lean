/-!
# The words of a command line

A command line is some options, then the name of a command, then what the command works on. An
option takes a value, in the same word (`-cFILE`, `-c=FILE`, `--config=FILE`) or in the next one,
and may be given once; without it a variable of the environment counts. After `--` no word of a
command is an option. Where an option may stand, `-V` or `--version` asks for the version, and what
follows does not matter. A command line that is none of these is refused as a whole.
-/

namespace MessageArgs.Command

/-- What a command does. -/
inductive Action
  /-- Lists the complete types of a signature. -/
  | split (signature : String)
  /-- Encodes a value; the result is XML, or a frame if `json` is set. -/
  | encode (signature value : String) (json : Bool)
  /-- Decodes an argument. -/
  | decode (signature argument : String)
  /-- Tells the version of the program. -/
  | version
deriving DecidableEq, Repr

/-- A command line. -/
structure Invocation where
  /-- The file that holds the settings. -/
  config : Option String
  action : Action
deriving DecidableEq, Repr

/-- The options, as far as they are given. -/
structure Options where
  config : Option String := none
  logLevel : Option String := none
deriving DecidableEq, Repr

/-- The options of the command line. -/
inductive OptionName
  | config
  | logLevel
deriving DecidableEq, Repr

namespace OptionName

/-- Every option. -/
def all : List OptionName := [config, logLevel]

/-- The short word of an option. -/
def short : OptionName → String
  | config => "-c"
  | logLevel => "-l"

/-- The long word of an option. -/
def long : OptionName → String
  | config => "--config"
  | logLevel => "--log-level"

/-- The variable of the environment that stands for an option. -/
def variableName : OptionName → String
  | config => "SIGTOOL_CONFIG"
  | logLevel => "SIGTOOL_LOG_LEVEL"

end OptionName

/-- Whether a word would be read as an option. -/
def isOption (word : String) : Bool :=
  match word.toList with
  | '-' :: _ :: _ => true
  | _ => false

/-- An option in a word, and its value if the same word has one. -/
def optionIn? (word : String) : Option (OptionName × Option String) :=
  OptionName.all.findSome? fun name =>
    if word = name.short ∨ word = name.long then some (name, none)
    else if (name.long ++ "=").toList.isPrefixOf word.toList then
      some (name, some (String.ofList (word.toList.drop (name.long.length + 1))))
    else if name.short.toList.isPrefixOf word.toList then
      match word.toList.drop name.short.length with
      | '=' :: value => some (name, some (String.ofList value))
      | value => some (name, some (String.ofList value))
    else none

/-- Whether a word asks for the version. -/
def asksVersion (word : String) : Bool :=
  word = "--version" || ['-', 'V'].isPrefixOf word.toList

/-- Takes in an option, which must not be given yet. The name of a file is not empty. -/
def Options.add (options : Options) (name : OptionName) (value : String) : Option Options :=
  match name with
  | .config =>
    if options.config.isSome || value.isEmpty then none else some { options with config := value }
  | .logLevel =>
    if options.logLevel.isSome then none else some { options with logLevel := value }

/-- The options at the start of a command line, and the words that follow. -/
def readOptions (options : Options) : List String → Option (Options × List String)
  | [] => some (options, [])
  | word :: rest =>
    if asksVersion word then some (options, word :: rest)
    else if isOption word then
      match optionIn? word with
      | none => none
      | some (name, some value) =>
        match options.add name value with
        | none => none
        | some options => readOptions options rest
      | some (name, none) =>
        match rest with
        | [] => none
        | value :: rest =>
          if isOption value then none
          else
            match options.add name value with
            | none => none
            | some options => readOptions options rest
    else some (options, word :: rest)

/-- The words that a command works on, and whether the flag `--json` is among them; `flagged` says
that it has come already. Only commands that allow the flag may have it, and only once. -/
def readOperands (allowed flagged : Bool) : List String → Option (List String × Bool)
  | [] => some ([], flagged)
  | word :: rest =>
    if word = "--" then some (rest, flagged)
    else if isOption word then
      if word = "--json" && allowed && !flagged then readOperands allowed true rest else none
    else (readOperands allowed flagged rest).map fun read => (word :: read.1, read.2)

/-- The action of a command with its operands. -/
def readAction (command : String) (rest : List String) : Option Action :=
  match readOperands (command = "encode") false rest with
  | none => none
  | some (operands, json) =>
    match command, operands with
    | "split", [signature] => some (.split signature)
    | "encode", [signature, value] => some (.encode signature value json)
    | "decode", [signature, argument] => some (.decode signature argument)
    | _, _ => none

/-- Reads a command line under an environment. -/
def Invocation.read? (words : List String) (environment : String → Option String) :
    Option Invocation :=
  match readOptions {} words with
  | none => none
  | some (options, rest) =>
    match rest with
    | [] => none
    | command :: operands =>
      if asksVersion command then some ⟨none, .version⟩
      else
        match readAction command operands with
        | none => none
        | some action =>
          match options.config with
          | some path => some ⟨path, action⟩
          | none =>
            match environment OptionName.config.variableName with
            | none => some ⟨none, action⟩
            | some path => if path.isEmpty then none else some ⟨path, action⟩

end MessageArgs.Command
