import LayeredConfig.Config.Substitution
import LayeredConfig.Path

/-!
# Settings of a process

What is taken from variables before any configuration is read: which file holds the configuration, how long a
resolution may take, and how log lines are written.
-/

namespace LayeredConfig.CommandLine

/-- The settings of a process. -/
structure Settings where
  /-- The configuration file that is chosen; otherwise the standard one is used. -/
  configPath : Option String := none
  /-- The time that one resolution may take, in milliseconds. -/
  timeout : Nat := 30000
  /-- Whether log lines are written as JSON. -/
  logJson : Bool := false
  deriving DecidableEq

/-- The directory of the configuration file. -/
def configDirectory (vars : Variables) : String :=
  match vars "ENVFORGE_CONFIG_DIR" with
  | some directory => directory
  | none =>
    match vars "HOME" with
    | some home => Path.join home ".envforge"
    | none => ".envforge"

/-- The configuration file that is used when none is chosen. -/
def standardConfigPath (vars : Variables) : String :=
  Path.join (configDirectory vars) "config.yaml"

/-- A natural number of 64 bits in decimal digits, which may have a plus sign. -/
def milliseconds? (text : String) : Option Nat :=
  let digits :=
    match text.toList with
    | '+' :: digits => digits
    | digits => digits
  if digits.isEmpty || !digits.all Text.isDigit then none
  else
    let n := Nat.ofDigitChars 10 digits 0
    if n < 18446744073709551616 then some n else none

/-- Whether a variable says yes. -/
def saysYes (text : String) : Bool :=
  text = "1" || String.ofList (Text.lower text.toList) = "true"

namespace Settings

/-- The settings that variables make. -/
def ofVariables (vars : Variables) : Settings where
  configPath := vars "ENVFORGE_CONFIG"
  timeout := ((vars "ENVFORGE_TIMEOUT_MS").bind milliseconds?).getD 30000
  logJson := (vars "ENVFORGE_LOG_JSON").any saysYes

/-- The file that holds the configuration. -/
def configFile (settings : Settings) (vars : Variables) : String :=
  settings.configPath.getD (standardConfigPath vars)

end Settings

end LayeredConfig.CommandLine
