import ScriptModules.Disk.Read
import ScriptModules.Fault
import ScriptModules.Input.Glob

/-!
# Finding scripts

The scripts below a folder, in the order in which a walk meets them that goes through each folder's
entries by name. Links are not followed, folders in the skip list are not entered, and ignore files,
suffixes and patterns decide which files count.
-/

namespace ScriptModules

/-- Which files are scripts. -/
structure FindOptions where
  extensions : List String
  /-- Patterns of which a path has to match one, if there are any. -/
  included : List String
  /-- Patterns that a path must not match. -/
  excluded : List String
  /-- Do ignore files below the folder count? -/
  nestedIgnore : Bool
  /-- Canonical paths of folders that are not entered. -/
  skip : List Path
  deriving DecidableEq, Repr

/-- The files that end in `.js`. -/
def FindOptions.default : FindOptions := ⟨[".js"], [], [], false, []⟩

/-- Do suffix and patterns accept the path below the folder? -/
def FindOptions.accepts (o : FindOptions) (names : Location) : Bool :=
  let path := "/".intercalate names
  o.extensions.contains (Path.suffix ⟨.none, names⟩) &&
    (o.included.isEmpty || o.included.any (glob · path)) && !o.excluded.any (glob · path)

/-- The name of ignore files. -/
def ignoreName : String := ".gitignore"

namespace Disk

/-- The path below a folder with these names. -/
def under (root : Path) (names : Location) : Path := ⟨root.anchor, root.parts ++ names⟩

/-- Where the ignore files are that count, by their paths as texts. -/
def ignorePlaces (d : Disk) (root : Path) (nested : Bool) : List Location :=
  let places :=
    if nested then
      match d.list root with
      | .ok entries =>
        ((descendants entries fun _ => true).map (·.1)).filter fun names =>
          names.getLast? = some ignoreName
      | .error _ => []
    else [[ignoreName]]
  (places.filter fun names => d.isFile (under root names)).mergeSort fun a b =>
    nameLe ("/".intercalate a) ("/".intercalate b)

/-- What the ignore files that count leave out, each with the folder that it stands in. -/
def ignoreFiles (ignoring : IgnoreReader) (d : Disk) (root : Path) (nested : Bool) :
    Except Fault (List (Location × (String → Bool))) :=
  (d.ignorePlaces root nested).mapM fun names => do
    let content ← (d.read (under root names)).mapError (.disk · (under root names))
    let ignores ← (ignoring content).mapError .ignore
    return (names.dropLast, ignores)

end Disk

/-- Does one of the ignore files leave the path out? A file speaks about paths below its folder. -/
def isIgnored (files : List (Location × (String → Bool))) (names : Location) : Bool :=
  files.any fun (folder, ignores) =>
    folder.isPrefixOf names && ignores ("/".intercalate (names.drop folder.length))

namespace Disk

/-- May a walk from the folder with this canonical path enter the folder below it? -/
def mayEnter (real : Path) (skip : List Path) (names : Location) : Bool :=
  !skip.contains (under real names)

/-- What a walk from a folder meets. -/
def walk (d : Disk) (root : Path) (skip : List Path) : Except Fault (List (Location × Entry)) := do
  let entries ← (d.list root).mapError (.disk · root)
  let real ← (d.canonical root).mapError .canonical
  return descendants entries (mayEnter real skip)

/-- The scripts below a folder, apart from those that are ignored. -/
def scriptsBelow (d : Disk) (root : Path) (o : FindOptions) (ignores : Location → Bool) :
    Except Fault (List Path) := do
  let met ← d.walk root o.skip
  let scripts := met.filter fun (names, e) =>
    (match e with
      | .file _ => true
      | _ => false) && o.accepts names && !ignores names
  return scripts.map fun s => under root s.1

/-- The scripts below a folder. -/
def findScripts (ignoring : IgnoreReader) (d : Disk) (root : Path) (o : FindOptions) :
    Except Fault (List Path) := do
  let ignored ← d.ignoreFiles ignoring root o.nestedIgnore
  d.scriptsBelow root o (isIgnored ignored)

/-- The names of the folders below a folder that a walk enters. -/
def folderNames (d : Disk) (root : Path) (skip : List Path) : Except Fault (List String) := do
  let met ← d.walk root skip
  let real ← (d.canonical root).mapError .canonical
  return (met.filter fun (names, e) =>
    (match e with
      | .folder _ => true
      | _ => false) && mayEnter real skip names).map fun m => m.1.getLast?.getD ""

/-- Does the path stay below the folder when links are resolved? -/
def isWithin (d : Disk) (p root : Path) : Except Fault Bool := do
  let real ← (d.canonical root).mapError .canonical
  let q ← (d.canonical p).mapError .canonical
  return (q.below? real).isSome

/-- Is the path one of the scripts below a folder, ignore files apart? -/
def isScript (d : Disk) (p root : Path) (o : FindOptions) : Except Fault Bool := do
  if !d.isFile p || d.isLink p || !o.extensions.contains p.suffix then return false
  else if !(← d.isWithin p root) then return false
  else match p.below? root with
    | none => return false
    | some names => return o.accepts names

end Disk

end ScriptModules
