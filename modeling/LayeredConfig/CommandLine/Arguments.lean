import LayeredConfig.Json.Reader
import LayeredConfig.CommandLine.Settings
import LayeredConfig.Render

/-!
# Command lines

A command line is a command with its arguments, and options before or behind it.  The options that choose the
configuration may stand on either side; behind the command they replace those in front of it.
-/

namespace LayeredConfig.CommandLine

/-- Why a command line is not carried out. -/
inductive UsageProblem where
  /-- Help was asked for. -/
  | help
  /-- The version was asked for. -/
  | version
  /-- There are no arguments at all. -/
  | nothing
  | missingCommand
  | unknownCommand
  | missingArgument
  | unknownArgument
  /-- An option has no value, or an empty one where a path is needed. -/
  | missingValue
  /-- The value of an option cannot be used. -/
  | badValue
  /-- An option that takes no value has one. -/
  | needlessValue
  | repeatedOption
  deriving DecidableEq

namespace UsageProblem

/-- Whether the command line asks for nothing but an explanation. -/
def isQuestion : UsageProblem → Bool
  | .help | .version => true
  | _ => false

/-- The wording of a problem. -/
def message : UsageProblem → String
  | .help | .nothing =>
    "Usage: [--config FILE] [--data FILE]... [--timeout-ms N] COMMAND\n\n" ++
      "  env NAME PROFILES [LABEL]     print the environment as JSON\n" ++
      "  render NAME PROFILES [LABEL]  render the environment [--format FORMAT] [--no-resolve]\n" ++
      "  expand NAME PROFILES [LABEL]  print the look-ups of a request\n" ++
      "  check                         report on the configuration"
  | .version => "0.1.0"
  | .missingCommand => "a command is missing"
  | .unknownCommand => "no such command"
  | .missingArgument => "an argument is missing"
  | .unknownArgument => "unexpected argument"
  | .missingValue => "an option has no value"
  | .badValue => "the value of an option cannot be used"
  | .needlessValue => "a flag takes no value"
  | .repeatedOption => "an option is repeated"

end UsageProblem

/-- The options that take a value. -/
inductive ValueOption where
  | config
  | data
  | timeout
  | format
  deriving DecidableEq

/-- The options that take none. -/
inductive Flag where
  | noResolve
  | help
  | version
  deriving DecidableEq

/-- The values of the options on one side of the command. -/
structure Options where
  config : Option String := none
  data : List String := []
  timeout : Option Nat := none
  format : Option OutputFormat := none
  noResolve : Bool := false

namespace Options

/-- Give an option its value. -/
def assign (o : Options) (option : ValueOption) (value : String) : Except UsageProblem Options :=
  match option with
  | .config =>
    if o.config.isSome then .error .repeatedOption
    else if value.isEmpty then .error .missingValue
    else .ok { o with config := some value }
  | .data => if value.isEmpty then .error .missingValue else .ok { o with data := o.data ++ [value] }
  | .timeout =>
    if o.timeout.isSome then .error .repeatedOption
    else
      match milliseconds? value with
      | some n => .ok { o with timeout := some n }
      | none => .error .badValue
  | .format =>
    if o.format.isSome then .error .repeatedOption
    else
      match OutputFormat.parse value with
      | .ok format => .ok { o with format := some format }
      | .error _ => .error .badValue

/-- Set a flag. -/
def raise (o : Options) : Flag → Except UsageProblem Options
  | .noResolve => if o.noResolve then .error .repeatedOption else .ok { o with noResolve := true }
  | .help => .error .help
  | .version => .error .version

/-- The options of both sides of the command. -/
def behind (before after : Options) : Options :=
  { after with
    config := after.config.or before.config
    data := if after.data.isEmpty then before.data else after.data
    timeout := after.timeout.or before.timeout }

end Options

/-- The commands. -/
inductive CommandName where
  | env
  | render
  | expand
  | check
  | help
  deriving DecidableEq

namespace CommandName

/-- The command that a word names. -/
def ofWord? (word : String) : Option CommandName :=
  match word with
  | "env" => some .env
  | "render" => some .render
  | "expand" => some .expand
  | "check" => some .check
  | "help" => some .help
  | _ => none

/-- How many arguments a command may have. -/
def arity : CommandName → Nat
  | .env | .render | .expand => 3
  | .check | .help => 0

end CommandName

/-- One side of the command: in front of it, where its name is still to come, or behind it. -/
abbrev Side := Option CommandName

namespace Side

/-- What a name stands for behind two dashes. -/
def long? (side : Side) (name : String) : Option (ValueOption ⊕ Flag) :=
  match name with
  | "config" => some (.inl .config)
  | "data" => some (.inl .data)
  | "timeout-ms" => some (.inl .timeout)
  | "help" => some (.inr .help)
  | "version" => if side.isNone then some (.inr .version) else none
  | "format" => if side = some .render then some (.inl .format) else none
  | "no-resolve" => if side = some .render then some (.inr .noResolve) else none
  | _ => none

/-- What a letter stands for behind one dash. -/
def short? (side : Side) (letter : Char) : Option Flag :=
  if letter = 'h' then some .help
  else if letter = 'V' && side.isNone then some .version
  else none

/-- How many arguments may stand on a side. -/
def arity (side : Side) : Nat := (side.map CommandName.arity).getD 0

/-- The command that a word names on a side. -/
def command? (side : Side) (word : String) : Option CommandName :=
  if side.isNone then CommandName.ofWord? word else none

end Side

/-- The words of one side that have been read. -/
structure Reader where
  options : Options := {}
  /-- The option that was read last, with its value if that has been read.  It is given its value when more
  words follow. -/
  pending : Option (ValueOption × Option String) := none
  /-- Whether the value of that option comes next. -/
  awaiting : Bool := false
  arguments : List String := []
  /-- Whether two dashes have ended the options. -/
  optionsEnded : Bool := false

namespace Reader

/-- Give the pending option its value. -/
def settle (r : Reader) : Except UsageProblem Reader :=
  match r.pending with
  | none => .ok r
  | some (_, none) => .error .missingValue
  | some (option, some value) => do
    return { r with options := ← r.options.assign option value, pending := none }

/-- Set a flag. -/
def raise (r : Reader) (flag : Flag) : Except UsageProblem Reader := do
  let r ← r.settle
  return { r with options := ← r.options.raise flag, awaiting := false }

/-- Read an option behind two dashes. -/
def readLong (side : Side) (r : Reader) (s : List Char) : Except UsageProblem Reader :=
  let name := s.takeWhile (· ≠ '=')
  let value := (s.drop name.length).tail?
  match side.long? (String.ofList name), value with
  | none, _ => .error .unknownArgument
  | some (.inr _), some _ => .error .needlessValue
  | some (.inr flag), none => r.raise flag
  | some (.inl option), some value => do
    let r ← r.settle
    return { r with options := ← r.options.assign option (String.ofList value), awaiting := false }
  | some (.inl option), none => do
    let r ← r.settle
    return { r with pending := some (option, none), awaiting := true }

/-- Read letters behind one dash. -/
def readShort (side : Side) (r : Reader) (letters : List Char) : Except UsageProblem Reader :=
  letters.foldlM (fun r letter =>
    match side.short? letter with
    | some flag => r.raise flag
    | none => .error .unknownArgument) r

/-- Read an argument. -/
def readArgument (side : Side) (r : Reader) (word : String) : Except UsageProblem Reader :=
  if r.arguments.length < side.arity then do
    let r ← r.settle
    return { r with arguments := r.arguments ++ [word], awaiting := false }
  else if side.isSome || (r.optionsEnded && (side.command? word).isSome) then .error .unknownArgument
  else .error .unknownCommand

/-- Read a word that names no command. -/
def read (side : Side) (r : Reader) (word : String) : Except UsageProblem Reader :=
  if r.optionsEnded then r.readArgument side word
  else
    match word.toList with
    | ['-', '-'] => .ok { r with optionsEnded := true }
    | '-' :: '-' :: s => readLong side r s
    | '-' :: c :: s => readShort side r (c :: s)
    | _ =>
      match r.awaiting, r.pending with
      | true, some (option, _) => .ok { r with pending := some (option, some word), awaiting := false }
      | _, _ => r.readArgument side word

/-- Read the words of one side.  The side in front of the command ends at its name, which is returned with the
words behind it. -/
def readAll (side : Side) (r : Reader) :
    List String → Except UsageProblem (Reader × Option (CommandName × List String))
  | [] => .ok (r, none)
  | word :: rest =>
    match if r.optionsEnded || r.awaiting then none else side.command? word with
    | some name => .ok (r, some (name, rest))
    | none => do readAll side (← r.read side word) rest

/-- Whether nothing has been read. -/
def isEmpty (r : Reader) : Bool :=
  r.options.config.isNone && r.options.data.isEmpty && r.options.timeout.isNone

end Reader

/-- The arguments of a request. -/
structure RequestArguments where
  application : String
  profiles : String
  label : Option String

namespace RequestArguments

/-- The request of some arguments. -/
def ofList? : List String → Option RequestArguments
  | [application, profiles] => some ⟨application, profiles, none⟩
  | [application, profiles, label] => some ⟨application, profiles, some label⟩
  | _ => none

/-- The request, if it is accepted. -/
def request (a : RequestArguments) : Except Request.Problem Request :=
  Request.make a.application a.profiles a.label

end RequestArguments

/-- What a command line asks for. -/
inductive Command where
  /-- Print the environment of a request as JSON. -/
  | env (request : RequestArguments)
  /-- Render the environment of a request. -/
  | render (request : RequestArguments) (format : OutputFormat) (noResolve : Bool)
  /-- Print the look-ups of a request. -/
  | expand (request : RequestArguments)
  /-- Report on the configuration. -/
  | check

/-- A command with the options that choose its configuration. -/
structure Invocation where
  command : Command
  config : Option String
  data : List String
  timeout : Option Nat

namespace Invocation

/-- The command of a name with the words behind it. -/
def commandOf (name : CommandName) (r : Reader) : Except UsageProblem Command :=
  match name, RequestArguments.ofList? r.arguments with
  | .check, _ => .ok .check
  | .env, some request => .ok (.env request)
  | .render, some request => .ok (.render request (r.options.format.getD .yaml) r.options.noResolve)
  | .expand, some request => .ok (.expand request)
  | _, _ => .error .missingArgument

/-- What asking for help ends in: only single commands have help of their own. -/
def helpProblem (words : List String) : UsageProblem :=
  match words with
  | [] => .help
  | [word] => if (CommandName.ofWord? word).isSome then .help else .unknownCommand
  | _ => .unknownCommand

/-- The invocation that a command line spells. -/
def parse (words : List String) : Except UsageProblem Invocation := do
  let (before, found) ← ({} : Reader).readAll none words
  match found with
  | none =>
    let before ← before.settle
    if before.isEmpty then .error .nothing else .error .missingCommand
  | some (.help, rest) => .error (helpProblem rest)
  | some (name, rest) =>
    let (after, _) ← ({} : Reader).readAll (some name) rest
    let after ← after.settle
    let command ← commandOf name after
    let before ← before.settle
    let options := before.options.behind after.options
    return { command, config := options.config, data := options.data, timeout := options.timeout }

end Invocation

end LayeredConfig.CommandLine
