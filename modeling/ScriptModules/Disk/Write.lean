import ScriptModules.Disk.Read

/-!
# Changing a disk

Each operation gives the disk afterwards, or says why it cannot be done; then the disk is as it
was. `makeFolders` can fail half-way, and what it made stays.
-/

namespace ScriptModules

namespace Disk

/-- The location where a file would be written: links in the last place are followed, and the file
itself may be absent. -/
def locateTarget (d : Disk) : (budget : Nat) → (base : Location) → List String →
    Except DiskFault Location
  | budget, base, parts => do
    let folder ← d.follow true linkLimit base parts.dropLast
    match d.at? folder, parts.getLast? with
    | some (.folder _), some name =>
      if name = ".." then throw .isDirectory
      if hasNull name then throw .nullByte
      match d.at? (folder ++ [name]) with
      | some (.link target) =>
        match budget with
        | 0 => throw .tooManyLinks
        | budget + 1 =>
          let (base, parts) := jump folder target []
          locateTarget d budget base parts
      | _ => return folder ++ [name]
    | some (.folder _), none => throw .isDirectory
    | _, _ => throw .notDirectory

/-- Writes a file, which is made when it is absent. -/
def write (d : Disk) (p : Path) (content : ByteArray) : Except DiskFault Disk := do
  let loc ← d.locateTarget linkLimit [] p.parts
  match d.at? loc with
  | some (.folder _) => throw .isDirectory
  | _ => return d.put loc (.file content)

/-- Makes a folder, whose own folder has to be there. -/
def makeFolder (d : Disk) (p : Path) : Except DiskFault Disk := do
  let folder ← d.locate p.parent
  match d.at? folder, p.parts.getLast? with
  | some (.folder _), some name =>
    if hasNull name then throw .nullByte
    if name = ".." || (d.at? (folder ++ [name])).isSome then throw .alreadyExists
    return d.put (folder ++ [name]) (.folder [])
  | some (.folder _), none => throw .alreadyExists
  | _, _ => throw .notDirectory

/-- Makes a folder unless it is there. -/
def ensureFolder (d : Disk) (p : Path) : Except DiskFault Disk :=
  match d.makeFolder p with
  | .ok d => .ok d
  | .error fault => if fault ≠ .notFound && d.isFolder p then .ok d else .error fault

/-- Makes the folder with the first `n` components of a path, and those that it lies in. -/
def makeFoldersTo (p : Path) : (n : Nat) → Disk → Disk × Except DiskFault Unit
  | n, d =>
    let q : Path := ⟨p.anchor, p.parts.take n⟩
    match d.ensureFolder q, n with
    | .ok d, _ => (d, .ok ())
    | .error .notFound, n + 1 =>
      match makeFoldersTo p n d with
      | (d, .error fault) => (d, .error fault)
      | (d, .ok ()) =>
        match d.ensureFolder q with
        | .ok d => (d, .ok ())
        | .error fault => (d, .error fault)
    | .error fault, _ => (d, .error fault)

/-- Makes a folder and those that it lies in, as far as they are absent. -/
def makeFolders (d : Disk) (p : Path) : Disk × Except DiskFault Unit :=
  makeFoldersTo p p.parts.length d

/-- Removes a folder with all that it holds. -/
def removeTree (d : Disk) (p : Path) : Except DiskFault Disk := do
  let loc ← d.locateSelf p
  match d.at? loc with
  | some (.folder _) => return d.remove loc
  | some (.link _) => throw .refused
  | _ => throw .notDirectory

end Disk

end ScriptModules
