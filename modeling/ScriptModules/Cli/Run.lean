import ScriptModules.Cli.Arguments
import ScriptModules.Verify

/-!
# Running a command

A run answers a command line with an exit status and what it writes to the error stream: the notices
of the level that the options ask for, and what is wrong. Faults that are not of the user's making
are left to the caller.
-/

namespace ScriptModules.Cli

/-- How a run ended. -/
structure Ending where
  status : Nat
  /-- What was written to the error stream. -/
  errors : String
  deriving DecidableEq, Repr

/-- The ending with a line before its own. -/
def Ending.after (text : String) (e : Ending) : Ending := { e with errors := text ++ e.errors }

/-- An ending with an error. -/
def Ending.failed (status : Nat) (message : String) : Ending := ⟨status, s!"error: {message}\n"⟩

/-- The options that a command line can set, as configuration data; what is left open is none. -/
def Settings.given (t : Settings) (report : Option Path) : List (String × Option Value) := [
  ("max_size", t.maxSize.map .int),
  ("strip_comments", t.stripComments.map .bool),
  ("rename_dups", t.renameDups.map .bool),
  ("combine", t.combine.map .bool),
  ("indexjs", t.index.map .text),
  ("files", t.files.map Options.texts),
  ("duplicate_definitions", t.duplicates.map fun p => .text p.name),
  ("fixpoint", t.fixpoint.map .bool),
  ("max_passes", t.maxPasses.map .int),
  ("report", report.map fun p => .text p.toString),
  ("verbose", t.verbose.map .bool),
  ("debug", t.debug.map .bool)]

/-- The options that a command line sets, as configuration data. -/
def Settings.overrides (t : Settings) (report : Option Path) : Entries :=
  (t.given report).filterMap fun (name, v) => v.map (name, ·)

/-- The options with those that a command line sets put in their places. -/
def overridden (rules : Coercion) (t : Settings) (report : Option Path) (o : Options) :
    Except Fault Options :=
  let entries := o.toEntries.map fun e => (e.1, ((t.overrides report).lookup e.1).getD e.2)
  (Options.ofEntries rules entries).mapError fun problems => .config (.badOption problems)

/-- The options for a source root and a command line. -/
def optionsFor (rules : Coercion) (w : Surroundings) (d : Disk) (root : Path) (t : Settings) :
    Except Fault Options := do
  let o ← Options.load rules d root
  let report ← t.report.mapM (w.absolute d)
  overridden rules t report o

/-- The lines of the notices that the options ask for. -/
def shown (o : Options) (notices : List Notice) : String :=
  String.join ((linesFrom (Level.ofSwitches o.verbose o.debug) notices).map (· ++ "\n"))

/-- The ending that a fault of the user's making leads to. -/
def Ending.ofFault (f : Fault) : Except Fault Ending :=
  match f.reported? with
  | some message => .ok (.failed 1 message)
  | none => .error f

/-- Runs a conversion. -/
def runConvert (tools : Tools) (w : Surroundings) (d : Disk) (root : Path) (t : Settings) :
    Disk × Except Fault Ending :=
  match optionsFor tools.coercion w d root t with
  | .error f => (d, Ending.ofFault f)
  | .ok o =>
    match t.dest.mapM (w.absolute d) with
    | .error f => (d, Ending.ofFault f)
    | .ok dest =>
      let run := DiskStep.on d (Job.convert tools w ⟨root, o, dest, []⟩)
      let lines := shown o run.notices
      match run.value with
      | (d, .ok _) => (d, .ok ⟨0, lines⟩)
      | (d, .error f) => (d, (Ending.ofFault f).map (Ending.after lines))

/-- The output folder to verify. -/
def verifiedDest (w : Surroundings) (d : Disk) (root : Path) (t : Settings) (o : Options) :
    Except Fault (Option Path) :=
  match t.dest, o.dest with
  | some s, _ => (w.absolute d s).map some
  | none, some s =>
    if s = "" then .ok none
    else (((d.canonical (root.join (Path.ofString s))).mapError .canonical).map some)
  | none, none => .ok none

/-- The lines about the differences that a verification found. -/
def differences (c : Comparison) : String :=
  let lines (label : String) (paths : List String) : String :=
    String.join (paths.map fun p => s!"{label}: {p}\n")
  lines "missing" c.missing ++ lines "extra" c.extra ++ lines "mismatches" c.mismatches

/-- The ending of a verification. -/
def Ending.ofVerify (dest : Path) : Except Fault Comparison → Except Fault Ending
  | .ok c => .ok (if c.ok then ⟨0, ""⟩ else ⟨1, differences c⟩)
  | .error f =>
    if f.isMissing then .ok (Ending.after s!"dest: {dest}\n" (.failed 2 f.message))
    else Ending.ofFault f

/-- Runs a verification. -/
def runVerify (tools : Tools) (w : Surroundings) (d : Disk) (root : Path) (t : Settings) :
    Disk × Except Fault Ending :=
  match optionsFor tools.coercion w d root t with
  | .error f => (d, Ending.ofFault f)
  | .ok o =>
    match verifiedDest w d root t o with
    | .error f => (d, .error f)
    | .ok none => (d, .ok (.failed 2 "no destination given (use --dest)"))
    | .ok (some dest) =>
      let run := DiskStep.on d (verify tools w root dest (some o))
      let lines := shown o run.notices
      let (d, result) := run.value
      (d, (Ending.ofVerify dest result).map (Ending.after lines))

/-- Runs a command line. A command line that cannot be read ends with the line about it, without a
line break. -/
def run (tools : Tools) (w : Surroundings) (d : Disk) (args : List String) :
    Disk × Except Fault Ending :=
  match read args with
  | .error .help => (d, .ok ⟨0, ""⟩)
  | .error stop => (d, .ok ⟨2, stop.line⟩)
  | .ok (command, t) =>
    match w.absolute d (t.root.getD ".") with
    | .error f => (d, .error f)
    | .ok root =>
      match command with
      | .convert => runConvert tools w d root t
      | .verify => runVerify tools w d root t

end ScriptModules.Cli
