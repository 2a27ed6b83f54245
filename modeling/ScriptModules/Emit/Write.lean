import ScriptModules.Disk.Step
import ScriptModules.Emit.Module

/-!
# Writing modules

The modules and the aggregator go into a destination folder, which is emptied first. An aggregator
that would take the place of a module is refused before anything changes.
-/

namespace ScriptModules

/-- Why modules cannot be written. -/
inductive EmitFault where
  /-- A module has the name that the aggregator is to get. -/
  | indexTaken (index : String)
  | render (fault : RenderFault)
  | disk (fault : DiskFault) (path : Path)
  deriving DecidableEq, Repr

/-- What is said when a module has the name of the aggregator. -/
def indexTakenMessage (index : String) : String :=
  "Aggregator file '" ++ index ++ "' would overwrite the module of the same name; " ++
    "choose another indexjs"

/-- Writes a file below `dest`, in folders that are made for it. -/
def emitFile (p : Path) (text : Except RenderFault String) : DiskStep EmitFault Unit := do
  DiskStep.makeFolders (.disk · p.parent) p.parent
  let text ← DiskStep.ofExcept .render text
  DiskStep.change (.disk · p) fun d => d.write p text.toUTF8

/-- Where the file with this key goes. -/
def outputPath (dest : Path) (key : String) : Path := dest.join (Path.ofString key)

namespace State

/-- Writes one module. -/
def writeModule (s : State) (current dest : Path) (key : String) : DiskStep EmitFault Path := do
  let p := outputPath dest key
  emitFile p (s.renderModule current key)
  DiskStep.notify (.wrote p.toString)
  return p

/-- Writes all modules and the aggregator; the result is what was written, in order. -/
def writeModules (s : State) (current dest : Path) (index : String) :
    DiskStep EmitFault (List Path) := do
  let indexKey := normalize index
  if s.files.contains indexKey then throw (.indexTaken index)
  if (← get).exists? dest then DiskStep.change (.disk · dest) fun d => d.removeTree dest
  let modules ← s.files.keys.mapM (s.writeModule current dest)
  let p := outputPath dest indexKey
  emitFile p (renderAggregator current s.files.keys indexKey)
  DiskStep.notify (.wroteIndex p.toString)
  return modules ++ [p]

end State

end ScriptModules
