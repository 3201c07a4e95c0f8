import HeaviestChain.Text.Numeral

/-!
# The command line

The words after the program's name choose what the program does, and options before them choose
settings.  An option that is missing may be given by a variable of the environment.  The program
only runs a node: its one command is `node run`.

A value that is a word of its own is looked at when the next option begins, or after the command.
-/

namespace HeaviestChain

/-- A choice with a value. -/
inductive Choice where
  /-- The file with the settings. -/
  | file
  /-- The number of the network. -/
  | network
  /-- Which log records are written. -/
  | logLevel
  /-- The name of the log format. -/
  | logFormat
  deriving DecidableEq

namespace Choice

/-- The option for a choice. -/
def option : Choice → String
  | file => "--config"
  | network => "--network-id"
  | logLevel => "--log-level"
  | logFormat => "--log-format"

/-- The name of the variable for a choice. -/
def environmentName : Choice → String
  | file => "CORVID_CONFIG"
  | network => "CORVID_NETWORK_ID"
  | logLevel => "CORVID_LOG_LEVEL"
  | logFormat => "CORVID_LOG_FORMAT"

/-- All choices. -/
def all : List Choice := [file, network, logLevel, logFormat]

/-- The choice with the given option. -/
def ofOption? (option : String) : Option Choice :=
  all.find? fun choice => decide (choice.option = option)

end Choice

/-- How the program ends when it does not start a node. -/
inductive Usage where
  /-- It was asked for help and gave it. -/
  | help
  /-- The command line makes no sense. -/
  | misuse
  deriving DecidableEq

namespace Usage

/-- The exit code of the program. -/
def exitCode : Usage → Nat
  | help => 0
  | misuse => 2

/-- What is shown to the user. -/
def text : Usage → String
  | help =>
      "Corvid blockchain node daemon

Usage: corvid-daemon [OPTIONS] <COMMAND>

Commands:
  node  Node operations: node run runs the node until SIGINT or SIGTERM
  help  Print this message

Options:
      --config <CONFIG>          The settings file [env: CORVID_CONFIG]
      --network-id <NETWORK_ID>  The number of the network [env: CORVID_NETWORK_ID]
      --log-level <LOG_LEVEL>    Which records are logged [env: CORVID_LOG_LEVEL]
      --log-format <LOG_FORMAT>  Log format: human or json [env: CORVID_LOG_FORMAT]
      --metrics                  Collect metrics [env: CORVID_ENABLE_METRICS]
  -h, --help                     Print help"
  | misuse =>
      "error: the command line makes no sense

Usage: corvid-daemon [OPTIONS] <COMMAND>

For more information, try --help."

end Usage

/-- What the command line and the environment say about settings. -/
structure Choices where
  /-- The values, in the order in which they were given. -/
  values : List (Choice × String) := []
  /-- Whether the node is to keep count of what it does. -/
  collectsMetrics : Bool := false
  deriving DecidableEq

/-- The number of 32 bits that a text stands for: digits, perhaps after a sign. -/
def networkNumber? (text : String) : Option UInt32 := do
  let (isNegative, digits) := match text.toList with
    | '-' :: digits => (true, digits)
    | '+' :: digits => (false, digits)
    | digits => (false, digits)
  let number ← Text.natural? digits
  guard (number < UInt32.size && (!isNegative || number = 0))
  pure (.ofNat number)

namespace Choice

/-- Whether a choice can have the value. -/
def accepts (choice : Choice) (value : String) : Bool :=
  match choice with
  | file => !value.isEmpty
  | network => (networkNumber? value).isSome
  | logLevel => true
  | logFormat => true

end Choice

namespace Choices

/-- The value of a choice. -/
def value? (choices : Choices) (choice : Choice) : Option String := choices.values.lookup choice

/-- The choices with one more value. -/
def add (choices : Choices) (choice : Choice) (value : String) : Choices :=
  { choices with values := choices.values ++ [(choice, value)] }

/-- Whether each choice is made once at most, with a value it can have. -/
def isSound (choices : Choices) : Bool :=
  decide (choices.values.map (·.1)).Nodup &&
    choices.values.all fun entry => entry.1.accepts entry.2

end Choices

namespace CommandLine

/-! ## Commands -/

/-- The commands of the program, each inside another one. -/
inductive Command where
  /-- The program itself. -/
  | program
  /-- What can be done with a node. -/
  | node
  /-- Running a node. -/
  | run
  /-- Showing help. -/
  | help
  deriving DecidableEq

/-- The command of the given name inside another one. -/
def Command.inner? : Command → String → Option Command
  | .program, "node" => some .node
  | .program, "help" => some .help
  | .node, "run" => some .run
  | .node, "help" => some .help
  | _, _ => none

/-- Shows help about the command that the words lead to. -/
def helpAbout (command : Command) (words : List String) : Usage :=
  if (words.foldlM Command.inner? command).isSome then .help else .misuse

/-- Whether a word is an option. -/
def isOption (word : String) : Bool :=
  match word.toList with
  | '-' :: _ :: _ => true
  | _ => false

/-- Whether a word asks for help. -/
def asksForHelp (word : String) : Bool :=
  decide (word = "--help") || "-h".toList.isPrefixOf word.toList

/-- Reads what follows `node run`. -/
def readRun : List String → Except Usage Unit
  | [] => .ok ()
  | ["--"] => .ok ()
  | word :: _ => .error (if asksForHelp word then .help else .misuse)

/-- Reads what follows `node`. -/
def readNode : List String → Except Usage Unit
  | [] => .error .misuse
  | word :: rest =>
      if asksForHelp word then .error .help
      else
        match Command.inner? .node word with
        | some .run => readRun rest
        | some .help => .error (helpAbout .node rest)
        | _ => .error .misuse

/-- Reads a command and what follows it. -/
def readCommand (word : String) (rest : List String) : Except Usage Unit :=
  match Command.inner? .program word with
  | some .node => readNode rest
  | some .help => .error (helpAbout .program rest)
  | _ => .error .misuse

/-! ## Options -/

/-- Splits a word at its first equals sign. -/
def splitAtEquals (word : String) : String × Option String :=
  let name := String.ofList (word.toList.takeWhile (· ≠ '='))
  match word.toList.dropWhile (· ≠ '=') with
  | [] => (name, none)
  | _ :: value => (name, some (String.ofList value))

/-- Adds a choice whose value stands in the same word. -/
def addAttached (choices : Choices) (option value : String) : Except Usage Choices :=
  match Choice.ofOption? option with
  | none => .error .misuse
  | some choice =>
      let choices := choices.add choice value
      if choices.isSound then .ok choices else .error .misuse

/-- Reads an option that is a word of its own and has no value. -/
def addFlag (choices : Choices) (word : String) : Except Usage Choices :=
  if !choices.isSound then .error .misuse
  else if asksForHelp word then .error .help
  else if word = "--metrics" && !choices.collectsMetrics then
    .ok { choices with collectsMetrics := true }
  else .error .misuse

/-- Reads options and then a command.  The values that are words of their own have not been looked
at if no option follows them. -/
def readWords (choices : Choices) : List String → Except Usage Choices
  | [] => .error .misuse
  | word :: rest =>
      if !isOption word then do
        readCommand word rest
        pure choices
      else
        match splitAtEquals word, Choice.ofOption? word, rest with
        | (option, some value), _, rest =>
            if option.startsWith "--" then do
              readWords (← addAttached choices option value) rest
            else do
              readWords (← addFlag choices word) rest
        | _, none, rest => do readWords (← addFlag choices word) rest
        | _, some _, [] => .error .misuse
        | _, some choice, value :: rest =>
            if choices.isSound && !isOption value then readWords (choices.add choice value) rest
            else .error .misuse

/-! ## The environment -/

/-- Adds the value of a choice that the environment gives, if the line does not. -/
def addFromEnvironment (environment : String → Option String) (choices : Choices)
    (choice : Choice) : Choices :=
  match choices.value? choice, environment choice.environmentName with
  | none, some value => choices.add choice value
  | _, _ => choices

/-- Whether the environment wants the node to keep count; a misuse if it says neither. -/
def metricsFromEnvironment (environment : String → Option String) : Except Usage Bool :=
  match environment "CORVID_ENABLE_METRICS" with
  | none => .ok false
  | some "true" => .ok true
  | some "false" => .ok false
  | some _ => .error .misuse

/-- The choices that the words and the environment make. -/
def read (words : List String) (environment : String → Option String) : Except Usage Choices := do
  let onLine ← readWords {} words
  let choices := Choice.all.foldl (addFromEnvironment environment) onLine
  let collectsMetrics ←
    if choices.collectsMetrics then pure true else metricsFromEnvironment environment
  if choices.isSound then pure { choices with collectsMetrics } else .error .misuse

end CommandLine

end HeaviestChain
