import ScriptModules.Data.Order
import ScriptModules.Disk.Locate

/-!
# Reading a disk

What is at a path, and what lies below a folder. Links are followed at the path itself; below a
folder they are not, so no walk leaves the folder.
-/

namespace ScriptModules

namespace Disk

/-- Does the path mean something? -/
def exists? (d : Disk) (p : Path) : Bool := (d.locate p).isOk

/-- Does the path mean a file? -/
def isFile (d : Disk) (p : Path) : Bool :=
  match d.entry p with
  | .ok (.file _) => true
  | _ => false

/-- Does the path mean a folder? -/
def isFolder (d : Disk) (p : Path) : Bool :=
  match d.entry p with
  | .ok (.folder _) => true
  | _ => false

/-- Is the path itself a symbolic link? -/
def isLink (d : Disk) (p : Path) : Bool :=
  match d.entrySelf p with
  | .ok (.link _) => true
  | _ => false

/-- The bytes of the file that a path means. -/
def read (d : Disk) (p : Path) : Except DiskFault ByteArray := do
  match ← d.entry p with
  | .file content => return content
  | _ => throw .isDirectory

/-- What the folder that a path means holds. -/
def list (d : Disk) (p : Path) : Except DiskFault (List (String × Entry)) := do
  match ← d.entry p with
  | .folder entries => return entries
  | _ => throw .notDirectory

end Disk

namespace Entry

/-- Puts together what was met at the entries of a folder, entry by entry in the order of their
names. -/
def byName (met : List (String × List (Location × Entry))) : List (Location × Entry) :=
  (met.mergeSort fun a b => nameLe a.1 b.1).flatMap (·.2)

mutual

/-- What a walk meets at each entry of a folder: the entry itself and then what is inside it. -/
def met (enter : Location → Bool) (base : Location) : List (String × Entry) →
    List (String × List (Location × Entry))
  | [] => []
  | (name, e) :: rest =>
    (name, (base ++ [name], e) :: metInside enter (base ++ [name]) e) :: met enter base rest

/-- What a walk meets inside an entry; a folder that `enter` refuses is not searched. -/
def metInside (enter : Location → Bool) (base : Location) : Entry → List (Location × Entry)
  | .folder entries => if enter base then byName (met enter base entries) else []
  | _ => []

end

end Entry

/-- The entries of a folder and all that is below, each folder gone through by name. -/
def descendants (entries : List (String × Entry)) (enter : Location → Bool) :
    List (Location × Entry) :=
  Entry.byName (Entry.met enter [] entries)

namespace Disk

/-- The files below the folder that a path means, links to files among them, by their lists of
names. -/
def filesBelow (d : Disk) (p : Path) : List Location :=
  match d.list p with
  | .ok entries =>
    ((descendants entries fun _ => true).map (·.1)).filter fun names =>
      d.isFile ⟨p.anchor, p.parts ++ names⟩
  | .error _ => []

end Disk

end ScriptModules
