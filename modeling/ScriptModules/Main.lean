import ScriptModules.Cli.Reach
import ScriptModules.Disk.Change
import ScriptModules.Tools

/-!
# The program

The program takes an image of the folders that its command line reaches, runs the command line on
the image, and carries the changes out.
-/

namespace ScriptModules

/-- The path without links, if it exists. -/
def realPath? (p : Path) : IO (Option Path) := do
  try
    let real ← IO.FS.realPath p.toString
    return some (Path.ofString real.toString)
  catch _ => return none

/-- The image of a folder. -/
partial def folderImage (path : String) : IO (List (String × Entry)) := do
  let folder ← IO.FS.realPath path
  let mut entries : List (String × Entry) := []
  for e in ← folder.readDir do
    let place := e.path
    match (← place.symlinkMetadata).type with
    | .dir => entries := (e.fileName, .folder (← folderImage place.toString)) :: entries
    | .file => entries := (e.fileName, .file (← IO.FS.readBinFile place)) :: entries
    | .symlink =>
      if let some target ← realPath? (Path.ofString place.toString) then
        entries := (e.fileName, .link target.toString) :: entries
    | .other => pure ()
  return entries.reverse

/-- The image of what is at a path without links. -/
def entryImage (p : Path) : IO Entry := do
  let place ← IO.FS.realPath p.toString
  match (← place.metadata).type with
  | .dir => return .folder (← folderImage p.toString)
  | _ => return .file (← IO.FS.readBinFile place)

/-- Adds the image of what is at a path; only the folders on the way to it when `deep` is not

set. -/
partial def addImage (deep : Bool) (d : Disk) (p : Path) : IO Disk := do
  for n in List.range p.parts.length do
    let q : Path := ⟨.root, p.parts.take (n + 1)⟩
    let rest : Path := ⟨.none, p.parts.drop (n + 1)⟩
    if q.name = ".." then return ← addImage deep d (q.parent.parent.join rest)
    match ← realPath? q with
    | none => return (d.makeFolders q.parent).1
    | some real =>
      if real ≠ q then
        let d := ((d.makeFolders q.parent).1).put q.parts (.link real.toString)
        return ← addImage deep d (real.join rest)
  if deep then return ((d.makeFolders p.parent).1).put p.parts (← entryImage p)
  return (d.makeFolders p).1

/-- Carries a change out. -/
def Change.perform : Change → IO Unit
  | .removeFile loc => IO.FS.removeFile (Path.toString ⟨.root, loc⟩)
  | .removeFolder loc => IO.FS.removeDirAll (Path.toString ⟨.root, loc⟩)
  | .makeFolder loc => IO.FS.createDirAll (Path.toString ⟨.root, loc⟩)
  | .write loc content => IO.FS.writeBinFile (Path.toString ⟨.root, loc⟩) content

/-- Adds what is at a path, if there is a path. -/
def addImage? (deep : Bool) (d : Disk) : Option Path → IO Disk
  | some p => addImage deep d p
  | none => return d

/-- The image of what a command line reaches. -/
def imageFor (w : Surroundings) (args : List String) : IO Disk := do
  let d ← addImage false .empty w.temporary.parent
  let d ← addImage? true d (Cli.sourceRoot? w args)
  let output := Cli.outputFolder? .lax w d args
  let report := Cli.reportFile? .lax w d args
  let d ← addImage? true d output
  addImage? false d (report.map Path.parent)

/-- Where the program runs. -/
def surroundingsHere : IO Surroundings := do
  let current ← IO.currentDir
  let home ← IO.getEnv "HOME"
  return {
    current := Path.ofString current.toString
    homeOf := fun user => if user = "" then home.map Path.ofString else none
    temporary := Path.ofString "/tmp/modulize-afresh" }

end ScriptModules

open ScriptModules in
/-- Runs a command line. -/
def main (args : List String) : IO UInt32 := do
  let w ← surroundingsHere
  let d ← imageFor w args
  let (after, result) := Cli.run .own w d args
  (d.changes after).forM Change.perform
  match result with
  | .ok ending =>
    IO.eprint ending.errors
    if ending.errors ≠ "" && !ending.errors.endsWith "\n" then IO.eprintln ""
    return ending.status.toUInt32
  | .error fault =>
    IO.eprintln fault.message
    return 1
