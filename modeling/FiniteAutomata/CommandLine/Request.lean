/-!
# Arguments of the command line

Arguments are read from left to right, and the first thing that settles the matter wins: a request
for help or for the version, or an error, such as an operand too many or a file without a name.
That operands are missing is known only at the end. Switches for verbosity may stand anywhere
before `--`, but no switch or option may be given twice at one level, that is before or after the
name of the command. Behind `--` every argument is taken as it is.

* `Command` — what can be asked for.
* `Request.parse` — the request that the arguments are.
-/

namespace FiniteAutomata

/-- Where the automata of an expression are written. -/
structure Outputs where
  nfa : Option String
  dfa : Option String
deriving DecidableEq

/-- What can be asked for. -/
inductive Command
  /-- Compiles a regular expression, or the one on the first line of a file. -/
  | compile (regex : String) (fromFile : Bool) (outputs : Outputs)
  /-- Builds the last expression of a file with instructions. -/
  | build (instructions : String) (outputs : Outputs)
  /-- Writes the deterministic automaton for an automaton. -/
  | convert (nfa dfa : String)
  /-- Gives the verdict of an automaton on words, or on the lines of the standard input. -/
  | accept (dfa : String) (words : List String)
  /-- Compares two automata by their shape. -/
  | compare (left right : String)
  /-- Describes an automaton. -/
  | info (file : String)
deriving DecidableEq

/-- Why arguments are refused. -/
inductive UsageError
  | unknownOption (option : String)
  | unexpectedValue (option : String)
  | missingValue (option : String)
  | repeatedOption (option : String)
  | unknownCommand (name : String)
  | missingCommand
  | missingArgument
  | unexpectedArgument (argument : String)
deriving DecidableEq

/-- What a user is told. -/
def UsageError.message : UsageError → String
  | unknownOption option => "unexpected argument '" ++ option ++ "' found"
  | unexpectedValue option => "unexpected value for '" ++ option ++ "' found"
  | missingValue option => "a value is required for '" ++ option ++ "' but none was supplied"
  | repeatedOption option => "the argument '" ++ option ++ "' cannot be used multiple times"
  | unknownCommand name => "unrecognized subcommand '" ++ name ++ "'"
  | missingCommand => "a subcommand is required"
  | missingArgument => "the required arguments were not provided"
  | unexpectedArgument argument => "unexpected argument '" ++ argument ++ "' found"

/-- What arguments ask for. -/
inductive Request
  | run (command : Command)
  | version
  | help
deriving DecidableEq

namespace Request

/-! ## Single arguments -/

/-- What an operand is. -/
inductive OperandKind
  | text
  /-- The name of a file, which is not empty. -/
  | file
deriving DecidableEq

/-- Whether a text can be an operand of a kind. -/
def OperandKind.admits : OperandKind → String → Bool
  | text, _ => true
  | file, name => !name.isEmpty

/-- What may stand at one level of the command line. -/
structure Options where
  /-- Switches with a short form. -/
  short : List (Char × String)
  /-- Switches without a short form. -/
  long : List String
  /-- Options that have the name of a file for a value. -/
  valued : List String
  /-- The operands in their order. -/
  operands : List OperandKind
  /-- Whether any number of texts may follow the operands. -/
  openEnded : Bool

/-- What the operand is that stands behind so many others. -/
def Options.operandKind? (options : Options) (position : Nat) : Option OperandKind :=
  match options.operands[position]? with
  | some kind => some kind
  | none => if options.openEnded then some .text else none

/-- The switches that may stand anywhere. Those for verbosity are accepted and change nothing, since
commands print results and errors only. -/
def everywhere : List (Char × String) :=
  [('q', "quiet"), ('v', "verbose"), ('d', "debug"), ('t', "trace"), ('h', "help")]

/-- The options before the name of the command. -/
def topOptions : Options := ⟨everywhere ++ [('V', "version")], [], [], [], false⟩

/-- The options of a command that has none of its own. -/
def plainOptions (operands : List OperandKind) : Options := ⟨everywhere, [], [], operands, false⟩

/-- What an argument, or a letter in one, is taken for. -/
inductive Item
  | switch (name : String)
  | value (name value : String)
  | operand (text : String)
  | bad (error : UsageError)
deriving DecidableEq

/-- A letter behind a single dash. -/
def shortItem (options : Options) (c : Char) : Item :=
  match options.short.lookup c with
  | some name => .switch name
  | none => .bad (.unknownOption ("-" ++ String.singleton c))

/-- Whether a text can be the value of the option before it. -/
def isValue (text : String) : Bool := text == "-" || !text.startsWith "-"

/-- The name of an option that is written out, and its value if an equals sign follows the name. -/
def splitValue (text : List Char) : String × Option String :=
  (String.ofList (text.takeWhile (· != '=')),
    match text.dropWhile (· != '=') with
    | [] => none
    | _ :: value => some (String.ofList value))

/-- A switch that is written out. -/
def longSwitch (options : Options) (name : String) (value : Option String) : Item :=
  if options.long.contains name || options.short.any (·.2 == name) then
    match value with
    | none => .switch name
    | some _ => .bad (.unexpectedValue ("--" ++ name))
  else .bad (.unknownOption ("--" ++ name))

/-- What the arguments at one level are taken for. -/
def items (options : Options) : List String → List Item
  | [] => []
  | arg :: rest =>
    match arg.toList with
    | ['-', '-'] => rest.map .operand
    | '-' :: '-' :: text =>
      let (name, value) := splitValue text
      if options.valued.contains name then
        match value, rest with
        | some value, rest => .value name value :: items options rest
        | none, next :: others =>
          if isValue next then .value name next :: items options others
          else [.bad (.missingValue ("--" ++ name))]
        | none, [] => [.bad (.missingValue ("--" ++ name))]
      else longSwitch options name value :: items options rest
    | '-' :: c :: cs => (c :: cs).map (shortItem options) ++ items options rest
    | _ => .operand arg :: items options rest

/-- The arguments up to the first that is not a switch, and those from there on. -/
def splitCommand (args : List String) : List String × List String :=
  args.span fun arg => arg != "--" && arg.startsWith "-" && arg != "-"

/-! ## Levels -/

/-- What has been given at one level. -/
structure Given where
  switches : List String
  values : List (String × String)
  operands : List String

/-- The request, or why there is none. -/
abbrev Answer := Except UsageError Request

/-- Takes one more operand, if there may be one at its place and this can be it. -/
def takeOperand (options : Options) (given : Given) (text : String) : Except UsageError Given :=
  match options.operandKind? given.operands.length with
  | none => .error (.unexpectedArgument text)
  | some kind =>
    if kind.admits text then .ok { given with operands := given.operands ++ [text] }
    else .error .missingArgument

/-- Takes the value of an option. -/
def takeValue (given : Given) (name value : String) : Except UsageError Given :=
  if (given.values.lookup name).isSome then .error (.repeatedOption ("--" ++ name))
  else if OperandKind.file.admits value then
    .ok { given with values := (name, value) :: given.values }
  else .error (.missingValue ("--" ++ name))

/-- Takes a switch. -/
def takeSwitch (given : Given) (name : String) : Except UsageError Given :=
  if given.switches.contains name then .error (.repeatedOption ("--" ++ name))
  else .ok { given with switches := name :: given.switches }

/-- Goes through the items at one level, up to the first that settles the matter: the result is
either the answer or what has been given. -/
def collect (options : Options) (given : Given) : List Item → Except Answer Given
  | [] => .ok given
  | .bad error :: _ => .error (.error error)
  | .switch "help" :: _ => .error (.ok .help)
  | .switch "version" :: _ => .error (.ok .version)
  | .switch name :: rest => do
    collect options (← (takeSwitch given name).mapError .error) rest
  | .value name value :: rest => do
    collect options (← (takeValue given name value).mapError .error) rest
  | .operand text :: rest => do
    collect options (← (takeOperand options given text).mapError .error) rest

/-- The items at one level. -/
def Given.ofArguments (options : Options) (args : List String) : Except Answer Given :=
  collect options ⟨[], [], []⟩ (items options args)

/-- The files that are named for the outputs. -/
def Given.outputs (given : Given) : Outputs :=
  ⟨given.values.lookup "nfa", given.values.lookup "dfa"⟩

/-! ## Commands -/

/-- The names of the commands, with what may stand behind them. -/
def commandOptions : String → Option Options
  | "compile" => some ⟨everywhere, ["from-file"], ["nfa", "dfa"], [.text], false⟩
  | "build" => some ⟨everywhere, [], ["nfa", "dfa"], [.file], false⟩
  | "convert" => some (plainOptions [.file, .file])
  | "accept" => some { plainOptions [.file] with openEnded := true }
  | "compare" => some (plainOptions [.file, .file])
  | "info" => some (plainOptions [.file])
  | _ => none

/-- The request for a command with what has been given behind its name, which is an error only if
there are operands missing. -/
def ofGiven (name : String) (given : Given) : Answer :=
  match name, given.operands with
  | "compile", [regex] =>
    .ok (.run (.compile regex (given.switches.contains "from-file") given.outputs))
  | "build", [file] => .ok (.run (.build file given.outputs))
  | "convert", [nfa, dfa] => .ok (.run (.convert nfa dfa))
  | "accept", dfa :: words => .ok (.run (.accept dfa words))
  | "compare", [left, right] => .ok (.run (.compare left right))
  | "info", [file] => .ok (.run (.info file))
  | _, _ => .error .missingArgument

/-- The request for help on a command. -/
def ofHelp : List String → Answer
  | [] => .ok .help
  | [name] =>
    if name == "help" || (commandOptions name).isSome then .ok .help
    else .error (.unknownCommand name)
  | _ :: extra :: _ => .error (.unexpectedArgument extra)

/-- The request for the command on which the arguments come to speak. -/
def ofCommand : List String → Answer
  | [] => .error .missingCommand
  | "--" :: [] => .error .missingCommand
  | "--" :: extra :: _ => .error (.unexpectedArgument extra)
  | "help" :: args => ofHelp args
  | name :: args =>
    match commandOptions name with
    | none => .error (.unknownCommand name)
    | some options =>
      match Given.ofArguments options args with
      | .error settled => settled
      | .ok given => ofGiven name given

/-- The request that the arguments are. -/
def parse (args : List String) : Answer :=
  let (before, command) := splitCommand args
  match Given.ofArguments topOptions before with
  | .error settled => settled
  | .ok _ => ofCommand command

end Request

end FiniteAutomata
