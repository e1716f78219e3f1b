import Mathlib.Order.Basic

/-! # Logging configuration

A threshold for all messages, and settings for subtrees of the component hierarchy: levels, console
output, files. The setting with the longest prefix that covers a path is the one that counts. What is
told here of a message is whether it is enabled, and where its line goes.
-/

namespace Rustdv.Log

inductive Level where
  | debug
  | info
  | warning
  | error
  | critical
  /-- Above every real level. -/
  | off
deriving DecidableEq, Repr

/-- The discriminant, by which levels are compared. -/
def Level.rank : Level → ℕ
  | debug => 0
  | info => 1
  | warning => 2
  | error => 3
  | critical => 4
  | off => 5

/-- The logger's thread-locals; a file is told by its name. -/
structure LogConfig where
  threshold : Level
  targetLevels : List (String × Level)
  logFile : Option String
  targetFiles : List (String × String)
  targetConsole : List (String × Bool)
deriving DecidableEq, Repr

/-- Where a line goes. -/
structure Emission where
  console : Bool
  files : List String
deriving DecidableEq, Repr

/-- `str_is_under`: the segments of the prefix begin those of the path. -/
def strIsUnder (path above : String) : Bool :=
  above = "" || (above.toList.splitOn '.').isPrefixOf (path.toList.splitOn '.')

namespace LogConfig

/-- `reset_config`. -/
def reset : LogConfig := ⟨.info, [], none, [], []⟩

variable (c : LogConfig)

def setLevel (l : Level) : LogConfig := { c with threshold := l }

/-- One setting for each prefix, the latest last. -/
def replace {α : Type*} (settings : List (String × α)) (above : String) (value : α) : List (String × α) :=
  settings.filter (·.1 ≠ above) ++ [(above, value)]

def setLevelFor (above : String) (l : Level) : LogConfig :=
  { c with targetLevels := replace c.targetLevels above l }

/-- `set_console_for`. -/
def setConsoleFor (above : String) (enabled : Bool) : LogConfig :=
  { c with targetConsole := replace c.targetConsole above enabled }

/-- `log_to_file`, once the file is open. -/
def logToFile (file : String) : LogConfig := { c with logFile := some file }

def removeLogFile : LogConfig := { c with logFile := none }

/-- `add_file_for`, once the file is open. -/
def addFileFor (above file : String) : LogConfig := { c with targetFiles := c.targetFiles ++ [(above, file)] }

/-- The setting with the longest prefix that covers a path; of equally long ones, the last. -/
def longest {α : Type*} (settings : List (String × α)) (path : String) : Option α :=
  ((settings.filter fun e => strIsUnder path e.1).foldl (fun best e =>
    match best with
    | none => some e
    | some b => if b.1.utf8ByteSize ≤ e.1.utf8ByteSize then some e else some b) none).map Prod.snd

/-- `console_enabled_for`. -/
def consoleEnabledFor (path : String) : Bool := (longest c.targetConsole path).getD true

/-- `emit_for`. -/
def emitFor (path : String) : Emission where
  console := c.consoleEnabledFor path
  files := (c.targetFiles.filter fun e => strIsUnder path e.1).map Prod.snd ++ c.logFile.toList

/-- `emit`. -/
def emit : Emission := ⟨true, c.logFile.toList⟩

/-- `log`: a message without a path. -/
def log (level : Level) : Option Emission := if c.threshold.rank ≤ level.rank then some c.emit else none

/-- `Logger::enabled`. -/
def enabled (path : String) (level : Level) : Bool :=
  ((longest c.targetLevels path).getD c.threshold).rank ≤ level.rank

/-- `Logger::log`. -/
def logAt (path : String) (level : Level) : Option Emission :=
  if c.enabled path level then some (c.emitFor path) else none

end LogConfig

/-- What is called on the configuration between two calls of `reset_config`. -/
inductive Setting where
  | setLevel (l : Level)
  | setLevelFor (above : String) (l : Level)
  | setConsoleFor (above : String) (enabled : Bool)
  | logToFile (file : String)
  | removeLogFile
  | addFileFor (above file : String)
deriving DecidableEq, Repr

def LogConfig.perform (c : LogConfig) : Setting → LogConfig
  | .setLevel l => c.setLevel l
  | .setLevelFor above l => c.setLevelFor above l
  | .setConsoleFor above enabled => c.setConsoleFor above enabled
  | .logToFile file => c.logToFile file
  | .removeLogFile => c.removeLogFile
  | .addFileFor above file => c.addFileFor above file

/-- The configuration after the calls since the last reset. -/
def configured (history : List Setting) : LogConfig := history.foldl LogConfig.perform .reset

end Rustdv.Log
