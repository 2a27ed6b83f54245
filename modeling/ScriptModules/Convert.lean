import ScriptModules.Config.Load
import ScriptModules.Emit.Report
import ScriptModules.Input.FileList
import ScriptModules.Link.Ingest
import ScriptModules.Merge.Resolve

/-!
# Conversions

A conversion finds the scripts below a source root, links them, folds files together and writes the
modules. Everything up to the writing is a function of the disk (`prepare`), so a conversion that
fails there has changed nothing.
-/

namespace ScriptModules

/-- What a conversion leaves to others. -/
structure Tools where
  parser : Parser
  ignoring : IgnoreReader
  coercion : Coercion

/-- A computation with notices that may fail. -/
abbrev Attempt (α : Type) := ExceptT Fault Logged α

namespace Attempt

variable {α : Type}

/-- A result that may be a fault. -/
def ofExcept : Except Fault α → Attempt α
  | .ok a => pure a
  | .error fault => throw fault

/-- A result with notices. -/
def ofLogged (x : Logged α) : Attempt α := ExceptT.lift x

end Attempt

/-- What a conversion is about to write. -/
structure Plan where
  /-- The output folder; without one no modules are written. -/
  dest : Option Path
  state : State
  resolution : Resolution

/-- What a conversion did. -/
structure Conversion extends Plan where
  /-- The modules and the aggregator, in the order in which they were written. -/
  written : List Path

/-- What a conversion starts from. -/
structure Job where
  root : Path
  options : Options
  /-- The output folder, if it is given apart from the options. -/
  dest : Option Path
  /-- Folders in which no scripts are looked for. -/
  ignored : List Path

namespace Job

/-- The output folder. -/
def output (w : Surroundings) (d : Disk) (j : Job) : Except Fault (Option Path) :=
  match j.dest, j.options.dest with
  | some p, _ => (resolveDest w d j.root p.toString).map some
  | none, some s => if s = "" then .ok none else (resolveDest w d j.root s).map some
  | none, none => .ok none

/-- How scripts are found. -/
def findOptions (j : Job) (skip : List Path) : FindOptions :=
  ⟨j.options.extensions, j.options.included, j.options.excluded, j.options.nestedIgnore, skip⟩

/-- The paths of the input files, in order. -/
def inputPaths (ignoring : IgnoreReader) (d : Disk) (j : Job) (skip : List Path) :
    Except Fault (List Path) :=
  if j.options.files = [] then d.findScripts ignoring j.root (j.findOptions skip)
  else listedInputs d j.root j.options.files

/-- Reads an input file. -/
def readInput (d : Disk) (j : Job) (p : Path) : Except Fault Input := do
  let content ← (d.read p).mapError (.disk · p)
  return ⟨p.toString, "/".intercalate ((p.below? j.root).getD p.parts), content⟩

/-- The registry of output names, in which folder names are reserved when files may be renamed. -/
def registry (d : Disk) (j : Job) (skip : List Path) : Except Fault Registry := do
  let r := Registry.new j.options.renameDups
  if j.options.renameDups then return r.seed (← d.folderNames j.root skip)
  return r

/-- How scripts are taken in. -/
def ingestOptions (j : Job) : IngestOptions :=
  ⟨j.options.stripComments, j.options.maxSize, j.options.duplicates⟩

/-- How files are folded together. -/
def resolveOptions (j : Job) : ResolveOptions :=
  ⟨j.options.combine, j.options.fixpoint, j.options.maxPasses, j.options.maxSize⟩

/-- What is said about the tables before files are folded together. -/
def linkNotices (l : Linkage) : List Notice :=
  let renames := l.registry.renames.length
  [.found l.state.symbols.size l.state.files.size] ++
    (if renames = 0 then [] else [.renamed renames]) ++ [.symbolNames l.state.symbols.keys]

/-- Everything up to the writing. -/
def prepare (tools : Tools) (w : Surroundings) (d : Disk) (j : Job) : Attempt Plan := do
  let dest ← Attempt.ofExcept (j.output w d)
  let ignored ← Attempt.ofExcept (j.ignored.mapM fun p => (d.canonical p).mapError .canonical)
  let skip := dest.toList ++ ignored
  Attempt.ofLogged (Logged.tell (.processing j.root.toString))
  let registry ← Attempt.ofExcept (j.registry d skip)
  let paths ← Attempt.ofExcept (j.inputPaths tools.ignoring d skip)
  let inputs ← Attempt.ofExcept (paths.mapM (j.readInput d))
  let linked ← Attempt.ofLogged (link tools.parser j.ingestOptions registry inputs)
  let linkage ← Attempt.ofExcept (linked.mapError .link)
  Attempt.ofLogged ((linkNotices linkage).forM Logged.tell)
  let (state, resolution) ← Attempt.ofLogged (linkage.state.resolve j.resolveOptions)
  return ⟨dest, state, resolution⟩

/-- Where the report goes. -/
def reportPath (w : Surroundings) (j : Job) : Except Fault (Option Path) :=
  match j.options.report with
  | none => .ok none
  | some s =>
    if s = "" then .ok none else do return some (j.root.join (← w.expand (Path.ofString s)))

/-- Writes the report. -/
def writeReport (rules : Coercion) (p : Path) (plan : Plan) : DiskStep Fault Unit := do
  DiskStep.makeFolders (.disk · p.parent) p.parent
  let text ← DiskStep.ofExcept .report (Report.text rules plan.state plan.resolution)
  DiskStep.change (.disk · p) fun d => d.write p text.toUTF8
  DiskStep.notify (.wroteReport p.toString)

/-- Writes what a plan says. -/
def carryOut (tools : Tools) (w : Surroundings) (j : Job) (plan : Plan) :
    DiskStep Fault Conversion := do
  let written ← match plan.dest with
    | some dest => (plan.state.writeModules w.current dest j.options.index).adapt .emit
    | none => pure []
  match ← DiskStep.ofExcept id (j.reportPath w) with
  | some p => writeReport tools.coercion p plan
  | none => pure ()
  return { plan with written }

/-- A whole conversion. -/
def convert (tools : Tools) (w : Surroundings) (j : Job) : DiskStep Fault Conversion := do
  let plan ← DiskStep.ofLogged (j.prepare tools w (← get)).run
  j.carryOut tools w (← DiskStep.ofExcept id plan)

end Job

end ScriptModules
