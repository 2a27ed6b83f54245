import ScriptModules.Disk.Basic
import ScriptModules.Path.Basic

/-!
# Finding what a path means

A path is followed from the top of the disk component by component: `..` leads to the folder
above, a symbolic link to its target. `locate` fails when something on the way is absent or is no
folder. `canonical` does not fail on absent entries: it resolves the links that are there and
takes `..` back by name where nothing is.
-/

namespace ScriptModules

/-- Why a disk cannot do what is asked. -/
inductive DiskFault where
  | notFound
  | notDirectory
  | isDirectory
  | alreadyExists
  | tooManyLinks
  /-- A name holds a character that no name can hold. -/
  | nullByte
  /-- Any other refusal. -/
  | refused
  deriving DecidableEq, Repr

/-- What is said when a disk cannot do something with a path. -/
def DiskFault.message (p : Path) : DiskFault → String
  | .notFound => "[Errno 2] No such file or directory: " ++ quoted p.toString
  | .notDirectory => "[Errno 20] Not a directory: " ++ quoted p.toString
  | .isDirectory => "[Errno 21] Is a directory: " ++ quoted p.toString
  | .alreadyExists => "[Errno 17] File exists: " ++ quoted p.toString
  | .tooManyLinks => "[Errno 40] Too many levels of symbolic links: " ++ quoted p.toString
  | .nullByte => "embedded null byte"
  | .refused => "Cannot empty a symbolic link: " ++ quoted p.toString

/-- Does the name hold the character that no name can hold? -/
def hasNull (name : String) : Bool := name.toList.contains '\x00'

/-- How many links may be followed for one path. -/
def linkLimit : Nat := 40

/-- Where the components of a path lead before the first link: to an entry, or to a link that has
to be followed from the folder `base`, with components left. -/
inductive Stretch where
  | arrived (loc : Location)
  | linked (base : Location) (target : String) (rest : List String)

namespace Disk

/-- Follows components from the folder at `base` up to the first link. A link in the last place is
an arrival, unless `follow` is set. -/
def stretch (d : Disk) (follow : Bool) :
    (base : Location) → List String → Except DiskFault Stretch
  | base, [] => .ok (.arrived base)
  | base, name :: rest =>
    if name = ".." then stretch d follow base.dropLast rest
    else if hasNull name then .error .nullByte
    else match d.at? (base ++ [name]) with
      | none => .error .notFound
      | some (.folder _) => stretch d follow (base ++ [name]) rest
      | some (.file _) =>
        if rest = [] then .ok (.arrived (base ++ [name])) else .error .notDirectory
      | some (.link target) =>
        if rest = [] && !follow then .ok (.arrived (base ++ [name]))
        else .ok (.linked base target rest)

/-- Where a link leads to: the folder to start from, and the components to follow. -/
def jump (base : Location) (target : String) (rest : List String) : Location × List String :=
  let p := Path.ofString target
  (if p.isAbsolute then [] else base, p.parts ++ rest)

/-- Follows components and links, at most `budget` of them. -/
def follow (d : Disk) (last : Bool) :
    (budget : Nat) → (base : Location) → List String → Except DiskFault Location
  | budget, base, parts => do
    match ← d.stretch last base parts with
    | .arrived loc => return loc
    | .linked base target rest =>
      match budget with
      | 0 => throw .tooManyLinks
      | budget + 1 =>
        let (base, parts) := jump base target rest
        follow d last budget base parts

/-- The location that an absolute path means; the last component is followed when it is a link. -/
def locate (d : Disk) (p : Path) : Except DiskFault Location := d.follow true linkLimit [] p.parts

/-- The location of the last component of a path itself, be it a link. -/
def locateSelf (d : Disk) (p : Path) : Except DiskFault Location :=
  d.follow false linkLimit [] p.parts

/-- The entry that a path means, links followed. -/
def entry (d : Disk) (p : Path) : Except DiskFault Entry := do
  match d.at? (← d.locate p) with
  | some e => return e
  | none => throw .notFound

/-- The entry that a path names, be it a link. -/
def entrySelf (d : Disk) (p : Path) : Except DiskFault Entry := do
  match d.at? (← d.locateSelf p) with
  | some e => return e
  | none => throw .notFound

/-- A component still to be resolved, or the end of a link's target. -/
inductive Todo where
  | name (s : String)
  | leave

/-- Resolves components by name up to the first link: the location so far, and what is left from
that link on. `depth` counts the link targets that were left. -/
def resolveUpTo (d : Disk) : (base : Location) → (depth : Nat) → List Todo →
    Location × Nat × List Todo
  | base, depth, [] => (base, depth, [])
  | base, depth, .leave :: rest => resolveUpTo d base (depth + 1) rest
  | base, depth, .name n :: rest =>
    if n = ".." then resolveUpTo d base.dropLast depth rest
    else match d.at? (base ++ [n]) with
      | some (.link _) => (base, depth, .name n :: rest)
      | _ => resolveUpTo d (base ++ [n]) depth rest

/-- The names that are left to resolve, without the marks. -/
def todoNames : List Todo → List String
  | [] => []
  | .leave :: rest => todoNames rest
  | .name n :: rest => n :: todoNames rest

/-- Resolves components; `active` are the links whose targets are being resolved, innermost first.
A link inside its own target is kept with all that follows. -/
def resolve (d : Disk) : (fuel : Nat) → (active : List Location) → (base : Location) →
    List Todo → Location
  | fuel, active, base, todo =>
    let (base, left, rest) := d.resolveUpTo base 0 todo
    let active := active.drop left
    match rest with
    | .name n :: rest =>
      match fuel, d.at? (base ++ [n]) with
      | fuel + 1, some (.link target) =>
        if active.contains (base ++ [n]) then collapse (base ++ [n] ++ todoNames rest)
        else
          let p := Path.ofString target
          resolve d fuel ((base ++ [n]) :: active) (if p.isAbsolute then [] else base)
            (p.parts.map .name ++ .leave :: rest)
      | _, _ => collapse (base ++ [n] ++ todoNames rest)
    | _ => base

/-- How many links are followed when a path is made canonical. -/
def canonicalFuel : Nat := 1000

/-- Why a path has no canonical form. -/
inductive CanonicalFault where
  /-- Links lead in a circle. -/
  | linkLoop (path : Path)
  | nullByte
  deriving DecidableEq, Repr

/-- The wording of a fault. -/
def CanonicalFault.message : CanonicalFault → String
  | .linkLoop p => "Symlink loop from " ++ quoted p.toString
  | .nullByte => "embedded null byte"

/-- The path without links and `..`, as far as it exists; it starts with a single slash. -/
def canonical (d : Disk) (p : Path) : Except CanonicalFault Path :=
  if p.parts.any hasNull then .error .nullByte
  else
    let q : Path := ⟨.root, d.resolve canonicalFuel [] [] (p.parts.map .name)⟩
    match d.locate q with
    | .error .tooManyLinks => .error (.linkLoop q)
    | _ => .ok q

end Disk

end ScriptModules
