/-!
# Disks

A `Disk` is a tree of named entries: files with their bytes, symbolic links with their targets,
and folders. A `Location` is a list of names that leads from the top through folders to an entry,
without links on the way; it is what paths are turned into before anything is read or written.
-/

namespace ScriptModules

/-- Something on a disk. -/
inductive Entry where
  | file (content : ByteArray)
  | link (target : String)
  | folder (entries : List (String × Entry))

/-- The names from the top of a disk to an entry. -/
abbrev Location := List String

/-- A file system: what its top folder holds. -/
structure Disk where
  top : List (String × Entry)

namespace Entry

/-- The entry at a location below a folder with these entries. -/
def lookup? : List (String × Entry) → Location → Option Entry
  | entries, [] => some (.folder entries)
  | entries, name :: rest =>
    match entries.lookup name, rest with
    | some e, [] => some e
    | some (.folder inner), rest => lookup? inner rest
    | _, _ => none

/-- Changes the value of a name, or adds it at the end. -/
def setName (name : String) (e : Entry) : List (String × Entry) → List (String × Entry)
  | [] => [(name, e)]
  | (n, x) :: rest => if n = name then (n, e) :: rest else (n, x) :: setName name e rest

/-- Puts an entry at a location, whose folder is there. -/
def put (e : Entry) : Location → List (String × Entry) → List (String × Entry)
  | [], entries => entries
  | [name], entries => setName name e entries
  | name :: rest, entries =>
    entries.map fun (n, x) =>
      if n = name then
        match x with
        | .folder inner => (n, .folder (put e rest inner))
        | _ => (n, x)
      else (n, x)

/-- Removes the entry at a location. -/
def remove : Location → List (String × Entry) → List (String × Entry)
  | [], entries => entries
  | [name], entries => entries.filter (·.1 ≠ name)
  | name :: rest, entries =>
    entries.map fun (n, x) =>
      if n = name then
        match x with
        | .folder inner => (n, .folder (remove rest inner))
        | _ => (n, x)
      else (n, x)

end Entry

namespace Disk

/-- A disk that holds nothing. -/
def empty : Disk := ⟨[]⟩

/-- The entry at a location. -/
def at? (d : Disk) (loc : Location) : Option Entry := Entry.lookup? d.top loc

/-- The disk with an entry put at a location. -/
def put (d : Disk) (loc : Location) (e : Entry) : Disk := ⟨Entry.put e loc d.top⟩

/-- The disk without the entry at a location. -/
def remove (d : Disk) (loc : Location) : Disk := ⟨Entry.remove loc d.top⟩

end Disk

end ScriptModules
