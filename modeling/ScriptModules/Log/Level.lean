/-!
# Log levels

The five levels of diagnostics with their names and numbers. A level may be spelled in any case.
-/

namespace ScriptModules

/-- How urgent a record is. -/
inductive Level where
  | debug
  | info
  | warning
  | error
  | critical
  deriving DecidableEq, Repr

namespace Level

/-- All levels, least urgent first. -/
def all : List Level := [.debug, .info, .warning, .error, .critical]

/-- The name of a level. -/
def name : Level → String
  | .debug => "DEBUG"
  | .info => "INFO"
  | .warning => "WARNING"
  | .error => "ERROR"
  | .critical => "CRITICAL"

/-- The number of a level; 0 is left for "no level". -/
def number : Level → Nat
  | .debug => 10
  | .info => 20
  | .warning => 30
  | .error => 40
  | .critical => 50

/-- The upper case of a character, as far as it can occur in a level's name: ASCII letters and the
dotless i. -/
def upperChar (c : Char) : Char := if c = 'ı' then 'I' else c.toUpper

/-- The level with this name, in any case. -/
def ofName? (s : String) : Option Level :=
  all.find? fun l => l.name = String.ofList (s.toList.map upperChar)

/-- The text shown when a level name is unknown. -/
def unknownMessage (s : String) : String :=
  "Invalid log level: " ++ s ++
    ". Must be one of ['DEBUG', 'INFO', 'WARNING', 'ERROR', 'CRITICAL']"

/-- The level that the two verbosity switches ask for. -/
def ofSwitches (verbose debug : Bool) : Level :=
  if debug then .debug else if verbose then .info else .warning

end Level

end ScriptModules
