import ScriptModules.Input.Find

/-!
# Lists of input files

The input files may be listed, in order, by their paths below the source root. Each has to be a
relative path to a file that stays below the root, and none may occur twice.
-/

namespace ScriptModules

/-- Checks one entry of a list whose earlier entries have the normal forms `seen`. The result is its
own normal form. -/
def checkInput (d : Disk) (root : Path) (seen : List String) (entry : String) :
    Except Fault String := do
  let key := normalize entry
  if key = "" || (Path.ofString entry).isAbsolute then
    throw (.config (.absoluteInput entry root.toString))
  let p := root.join (Path.ofString key)
  if !(← d.isWithin p root) then throw (.config (.escapingInput entry))
  if !d.isFile p then throw (.config (.absentInput entry root.toString))
  if seen.contains key then throw (.config (.repeatedInput entry))
  return key

/-- The normal forms of the entries of a list, after those in `seen`. -/
def checkInputs (d : Disk) (root : Path) : (seen : List String) → List String →
    Except Fault (List String)
  | seen, [] => .ok seen
  | seen, entry :: rest => do
    let key ← checkInput d root seen entry
    checkInputs d root (seen ++ [key]) rest

/-- The paths of listed input files. -/
def listedInputs (d : Disk) (root : Path) (entries : List String) : Except Fault (List Path) := do
  let keys ← checkInputs d root [] entries
  return keys.map fun key => root.join (Path.ofString key)

end ScriptModules
