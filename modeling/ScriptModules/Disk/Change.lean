import ScriptModules.Disk.Basic

/-!
# Changes of a disk

What has to be done to a disk so that it becomes another one, as a list of single changes: what is
gone is removed first, then folders are made and files written, each folder before what it holds.
Links are never made.
-/

namespace ScriptModules

/-- A single change of a disk. -/
inductive Change where
  | removeFile (loc : Location)
  | removeFolder (loc : Location)
  | makeFolder (loc : Location)
  | write (loc : Location) (content : ByteArray)

namespace Entry

/-- The change that removes an entry. -/
def removal (loc : Location) : Entry → Change
  | .folder _ => .removeFolder loc
  | _ => .removeFile loc

mutual

/-- The changes that put an entry in the place of another, or of nothing. -/
def changesAt (loc : Location) : (old : Option Entry) → Entry → List Change
  | some (.file a), .file b => if a == b then [] else [.write loc b]
  | some (.folder before), .folder after =>
    removals loc before after ++ changesBelow loc before after
  | some old, .file b => [old.removal loc, .write loc b]
  | none, .file b => [.write loc b]
  | some old, .folder after => old.removal loc :: .makeFolder loc :: changesBelow loc [] after
  | none, .folder after => .makeFolder loc :: changesBelow loc [] after
  | _, .link _ => []

/-- The changes that bring about the entries of a folder. -/
def changesBelow (loc : Location) (before : List (String × Entry)) :
    List (String × Entry) → List Change
  | [] => []
  | (name, e) :: rest =>
    changesAt (loc ++ [name]) (before.lookup name) e ++ changesBelow loc before rest

/-- The removals of entries that a folder no longer has. -/
def removals (loc : Location) (before after : List (String × Entry)) : List Change :=
  (before.filter fun e => (after.lookup e.1).isNone).map fun e => e.2.removal (loc ++ [e.1])

end

end Entry

/-- The changes that turn one disk into another. -/
def Disk.changes (before after : Disk) : List Change :=
  Entry.changesAt [] (some (.folder before.top)) (.folder after.top)

end ScriptModules
