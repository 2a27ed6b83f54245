import ScriptModules.Convert

/-!
# Verification

A conversion can be repeated: from the same input it writes the same files. Verification converts
once more, into a passing folder, and compares what comes out with an earlier output.
-/

namespace ScriptModules

/-- How an output differs from what a conversion writes now. -/
structure Comparison where
  /-- Files with different content, by their lists of names. -/
  mismatches : List String
  /-- Files that are no longer written, by name. -/
  missing : List String
  /-- Files that were not written before, by name. -/
  extra : List String
  deriving DecidableEq, Repr

/-- Is nothing different? -/
def Comparison.ok (c : Comparison) : Bool :=
  c.mismatches.isEmpty && c.missing.isEmpty && c.extra.isEmpty

namespace Disk

/-- Do two paths mean files with the same bytes? -/
def sameFile (d : Disk) (p q : Path) : Bool :=
  match d.read p, d.read q with
  | .ok a, .ok b => a == b
  | _, _ => false

/-- Compares the files below two folders. -/
def compare (d : Disk) (old new : Path) : Comparison :=
  let before := d.filesBelow old
  let after := d.filesBelow new
  let text (names : Location) : String := "/".intercalate names
  { mismatches := (before.filter fun names =>
      after.contains names && !d.sameFile (under old names) (under new names)).map text
    missing := sorted ((before.filter (!after.contains ·)).map text)
    extra := sorted ((after.filter (!before.contains ·)).map text) }

end Disk

/-- Converts into a folder inside the passing one, which is there for the time being, and compares
the result with the output at `dest`. -/
def compareAfresh (tools : Tools) (w : Surroundings) (root dest : Path) (o : Options) :
    DiskStep Fault Comparison := do
  let out := w.temporary.child "out"
  let job : Job := ⟨root, { o with report := none }, some out, [dest]⟩
  discard (job.convert tools w)
  return (← get).compare dest out

/-- Compares the output at `dest` with what a conversion writes now; options that are not given are
those for the source root. The passing folder is gone afterwards, also when the conversion fails. -/
def verify (tools : Tools) (w : Surroundings) (root dest : Path) (given : Option Options) :
    DiskStep Fault Comparison := do
  let d ← get
  if !d.exists? dest then throw (.noOutput dest)
  if !d.isFolder dest then throw (.outputNotFolder dest)
  let o ← match given with
    | some o => pure o
    | none => DiskStep.ofExcept id (Options.load tools.coercion d root)
  DiskStep.makeFolders (.disk · w.temporary) w.temporary
  let result ← (compareAfresh tools w root dest o).attempt
  DiskStep.change (.disk · w.temporary) fun d => d.removeTree w.temporary
  DiskStep.ofExcept id result

end ScriptModules
