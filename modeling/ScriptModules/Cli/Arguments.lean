import ScriptModules.Cli.Word
import ScriptModules.Link.Define

/-!
# Commands and their arguments

The program has two commands. `convert` takes the source root and options that go before those of
the configuration; `verify` takes the source root and the output folder. A command line is read
from left to right, and the first thing wrong in it is reported.
-/

namespace ScriptModules.Cli

/-- What a command line says; what is left open is none. -/
structure Settings where
  root : Option String
  dest : Option String
  maxSize : Option Int
  stripComments : Option Bool
  renameDups : Option Bool
  combine : Option Bool
  index : Option String
  files : Option (List String)
  duplicates : Option DuplicatePolicy
  fixpoint : Option Bool
  maxPasses : Option Int
  report : Option String
  verbose : Option Bool
  debug : Option Bool
  deriving DecidableEq, Repr

/-- The settings that leave all open. -/
def Settings.empty : Settings :=
  ⟨none, none, none, none, none, none, none, none, none, none, none, none, none, none⟩

/-- A command of the program. -/
inductive Command where
  | convert
  | verify
  deriving DecidableEq, Repr

/-- The commands in order. -/
def Command.all : List Command := [.convert, .verify]

/-- The name of a command. -/
def Command.name : Command → String
  | .convert => "convert"
  | .verify => "verify"

/-- How reading a command line ends without a command. -/
inductive Stop where
  /-- Help was asked for. -/
  | help
  /-- Something is wrong, in the part of the command line that `scope` names. -/
  | wrong (scope : String) (remark : String)
  deriving DecidableEq, Repr

/-- The name of the program. -/
def programName : String := "modulize"

/-- The line about a stop. -/
def Stop.line : Stop → String
  | .help => ""
  | .wrong scope remark => scope ++ ": error: " ++ remark

/-! ## Options -/

/-- Reads a whole number. -/
def wholeOption (s : String) : Except String Int :=
  match wholeNumber? s with
  | some n => .ok n
  | none => .error ("invalid int value: " ++ quoted s)

/-- The remark that a value is none of the choices. -/
def choiceRemark (s : String) (choices : List String) : String :=
  "invalid choice: " ++ quoted s ++ " (choose from " ++ ", ".intercalate (choices.map quoted) ++ ")"

/-- Reads a policy. -/
def policyOption (s : String) : Except String DuplicatePolicy :=
  match DuplicatePolicy.ofName? s with
  | some p => .ok p
  | none => .error (choiceRemark s (DuplicatePolicy.all.map DuplicatePolicy.name))

/-- An option with a counterpart that takes it back. -/
def yesNo (name : String) (set : Bool → Settings → Settings) : OptionRule Settings :=
  let no := "--no-" ++ name
  ⟨["--" ++ name, no], .switch fun spelling => set (spelling ≠ no)⟩

/-- An option with a text. -/
def textOption (spellings : List String) (set : String → Settings → Settings) :
    OptionRule Settings :=
  ⟨spellings, .value fun s t => .ok (set s t)⟩

/-- The option that asks for help. -/
def helpOption {σ : Type} : OptionRule σ := ⟨["-h", "--help"], .help⟩

/-- The option for the output folder. -/
def destOption : OptionRule Settings :=
  textOption ["--dest", "-d"] fun s t => { t with dest := some s }

/-- The options for what is shown. -/
def verbosityOptions : List (OptionRule Settings) := [
  ⟨["-v", "--verbose"], .switch fun _ t => { t with verbose := some true }⟩,
  ⟨["--debug"], .switch fun _ t => { t with debug := some true }⟩]

/-- The options of a command. -/
def Command.options : Command → List (OptionRule Settings)
  | .convert => [
      helpOption,
      destOption,
      ⟨["--max-size"], .value fun s t => do return { t with maxSize := some (← wholeOption s) }⟩,
      yesNo "strip-comments" fun b t => { t with stripComments := some b },
      yesNo "rename-dups" fun b t => { t with renameDups := some b },
      yesNo "combine" fun b t => { t with combine := some b },
      textOption ["--indexjs"] fun s t => { t with index := some s },
      textOption ["--file"] fun s t => { t with files := some (t.files.getD [] ++ [s]) },
      ⟨["--duplicate-definitions"],
        .value fun s t => do return { t with duplicates := some (← policyOption s) }⟩,
      yesNo "fixpoint" fun b t => { t with fixpoint := some b },
      ⟨["--max-passes"], .value fun s t => do
        return { t with maxPasses := some (← wholeOption s) }⟩,
      textOption ["--report"] fun s t => { t with report := some s }] ++ verbosityOptions
  | .verify => [helpOption, destOption] ++ verbosityOptions

/-! ## Reading -/

/-- Gives an option its value. -/
def giveValue (scope : String) (rule : OptionRule Settings)
    (apply : String → Settings → Except String Settings) (s : String) (t : Settings) :
    Except Stop Settings :=
  (apply s t).mapError fun remark => .wrong scope (rule.remark remark)

/-- Applies options of one word; the last may still need a value, from the word `next`. The result
says whether it took that. -/
def applyUses (scope : String) (next : Option String) :
    List (OptionUse Settings) → Settings → Except Stop (Settings × Bool)
  | [], t => .ok (t, false)
  | u :: rest, t =>
    match u.rule.effect with
    | .help => .error .help
    | .switch apply => applyUses scope next rest (apply u.spelling t)
    | .value apply =>
      match u.argument, next with
      | some s, _ => do applyUses scope next rest (← giveValue scope u.rule apply s t)
      | none, some s => do return (← giveValue scope u.rule apply s t, true)
      | none, none => .error (.wrong scope (u.rule.remark "expected one argument"))

/-- What is read so far: the settings, and the words for which there is no use. -/
structure Reading where
  settings : Settings
  extras : List String

/-- The reading with one more word for which there is no use. -/
def Reading.extra (r : Reading) (s : String) : Reading := { r with extras := r.extras ++ [s] }

/-- The reading with a source root. -/
def Reading.withRoot (r : Reading) (s : String) : Reading :=
  { r with settings := { r.settings with root := some s } }

/-- The plain word that comes next, if one does. -/
def nextPlain? : List (Word Settings) → Option String
  | .plain s :: _ => some s
  | _ => none

/-- Reads the words of a command. `used` tells that the next word is the value of an option and is
passed over. The first plain word is the source root; a divider next to it has no use of its own. -/
def readWords (scope : String) (rules : List (OptionRule Settings)) :
    (used : Bool) → List (Word Settings) → Reading → Except Stop Reading
  | _, [], r => .ok r
  | true, _ :: rest, r => readWords scope rules false rest r
  | false, .unknown s :: rest, r => readWords scope rules false rest (r.extra s)
  | false, .option u :: rest, r => do
    let word ← (u.unfold rules).mapError (.wrong scope)
    let (t, used) ← applyUses scope (nextPlain? rest) word.uses r.settings
    readWords scope rules used rest ⟨t, r.extras ++ word.extras⟩
  | false, .plain s :: .divider :: rest, r =>
    if r.settings.root = none then readWords scope rules false rest (r.withRoot s)
    else readWords scope rules false rest ((r.extra s).extra "--")
  | false, .plain s :: rest, r =>
    if r.settings.root = none then readWords scope rules false rest (r.withRoot s)
    else readWords scope rules false rest (r.extra s)
  | false, .divider :: rest, r =>
    if r.settings.root = none then readWords scope rules false rest r
    else readWords scope rules false rest (r.extra "--")

/-- Reads the arguments of a command. -/
def Command.read (c : Command) (args : List String) : Except Stop Reading := do
  let scope := programName ++ " " ++ c.name
  let words ← (Word.ofStrings c.options args).mapError (.wrong scope)
  readWords scope c.options false words ⟨.empty, []⟩

/-- Reads a command by its name. -/
def readCommand (name : String) : Except Stop Command :=
  match Command.all.find? fun c => c.name = name with
  | some c => .ok c
  | none =>
    .error (.wrong programName
      ("argument command: " ++ choiceRemark name (Command.all.map Command.name)))

/-- Reads a command line whose words `extras` had no use. Options before the command ask for help,
or have no use. -/
def readLine : (extras : List String) → List String → Except Stop (Command × Reading)
  | _, [] => .error (.wrong programName "the following arguments are required: command")
  | extras, s :: rest => do
    if s = "--" && rest = [] then
      throw (.wrong programName "the following arguments are required: command")
    let rules : List (OptionRule Settings) := [helpOption]
    let word ← if s = "--" then pure .divider
      else (Word.ofString rules s).mapError (.wrong programName)
    match word with
    | .unknown s => readLine (extras ++ [s]) rest
    | .option u =>
      discard ((u.unfold rules).mapError (.wrong programName))
      throw .help
    | _ =>
      let command ← readCommand s
      let r ← command.read rest
      return (command, { r with extras := extras ++ r.extras })

/-- The command and the settings of a command line. -/
def read (args : List String) : Except Stop (Command × Settings) := do
  let (command, r) ← readLine [] args
  if r.extras ≠ [] then
    throw (.wrong programName ("unrecognized arguments: " ++ " ".intercalate r.extras))
  return (command, r.settings)

end ScriptModules.Cli
