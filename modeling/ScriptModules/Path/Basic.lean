import ScriptModules.Text.Quoted

/-!
# Paths

A `Path` is an anchor and a list of components. Reading a path drops empty and `.` components, and
keeps `..`, whose meaning depends on the directory before it. The suffix of a name starts at its
last dot, when that dot is neither the first nor the last character.

File keys are texts of relative paths in the form that `normalize` gives them: forward slashes
only, no empty and no `.` component. `retitle` changes the stem of such a key.
-/

namespace ScriptModules

/-- Where a path starts. -/
inductive Anchor where
  /-- The path is relative. -/
  | none
  /-- The path starts at the root. -/
  | root
  /-- Exactly two leading slashes, which are kept. -/
  | doubleRoot
  deriving DecidableEq, Repr

/-- The leading slashes of an anchor. -/
def Anchor.text : Anchor → String
  | .none => ""
  | .root => "/"
  | .doubleRoot => "//"

/-- A path: an anchor and the components below it. -/
structure Path where
  anchor : Anchor
  parts : List String
  deriving DecidableEq, Repr

/-- Why a path cannot be formed. -/
inductive PathFault where
  /-- The path has no last component to be renamed. -/
  | emptyName
  /-- The text is no file name. -/
  | invalidName (name : String)
  /-- A specifier was asked for an empty path. -/
  | noPath
  /-- However a path is numbered, it is in use. -/
  | neverFree
  deriving DecidableEq, Repr

/-- The wording of a fault. -/
def PathFault.message : PathFault → String
  | .emptyName => "PurePosixPath('.') has an empty name"
  | .invalidName name => "Invalid name " ++ quoted name
  | .noPath => "no path specified"
  | .neverFree => "no free name"

/-- Splits at every character that `p` accepts. -/
def splitWhere (p : Char → Bool) : List Char → List (List Char)
  | [] => [[]]
  | c :: rest =>
    if p c then [] :: splitWhere p rest
    else match splitWhere p rest with
      | [] => [[c]]
      | part :: parts => (c :: part) :: parts

/-- The components of a text, without the empty ones and those that are a single dot. -/
def components (p : Char → Bool) (s : String) : List String :=
  ((splitWhere p s.toList).map String.ofList).filter fun part => part ≠ "" ∧ part ≠ "."

/-- The normal form of a relative path: components joined by forward slashes. Backslashes count
as separators. -/
def normalize (s : String) : String :=
  "/".intercalate (components (fun c => c = '/' ∨ c = '\\') s)

/-- Takes back `..` by name: it drops the component before it, if there is one. -/
def collapse (parts : List String) : List String :=
  parts.foldl (fun place part => if part = ".." then place.dropLast else place ++ [part]) []

namespace Path

/-- Reads a path. -/
def ofString (s : String) : Path :=
  let anchor := match s.toList.takeWhile (· = '/') with
    | [] => Anchor.none
    | ['/', '/'] => .doubleRoot
    | _ => .root
  ⟨anchor, components (· = '/') s⟩

/-- Writes a path; the empty relative path is a dot. -/
def toString (p : Path) : String :=
  match p.anchor, p.parts with
  | .none, [] => "."
  | a, parts => a.text ++ "/".intercalate parts

instance : ToString Path := ⟨toString⟩

/-- Does the path start at the root? -/
def isAbsolute (p : Path) : Bool := p.anchor ≠ .none

/-- The path `q` seen from the directory `p`: `q` itself when it is absolute. -/
def join (p q : Path) : Path := if q.isAbsolute then q else ⟨p.anchor, p.parts ++ q.parts⟩

/-- The path one component longer. -/
def child (p : Path) (name : String) : Path := ⟨p.anchor, p.parts ++ [name]⟩

/-- The path without its last component. -/
def parent (p : Path) : Path := ⟨p.anchor, p.parts.dropLast⟩

/-- The last component, empty when there is none. -/
def name (p : Path) : String := p.parts.getLast?.getD ""

/-- The components of `p` below `base`, when `p` lies there. -/
def below? (p base : Path) : Option (List String) :=
  if p.anchor = base.anchor ∧ base.parts.isPrefixOf p.parts then
    some (p.parts.drop base.parts.length)
  else none

end Path

/-- Splits a file name into its stem and its suffix, which is empty or starts with a dot. -/
def splitSuffix (name : String) : String × String :=
  let back := name.toList.reverse
  let ext := back.takeWhile (· ≠ '.')
  let stem := (back.dropWhile (· ≠ '.')).drop 1
  if ext = [] ∨ stem = [] then (name, "")
  else (String.ofList stem.reverse, String.ofList ('.' :: ext.reverse))

namespace Path

/-- The last component up to its suffix. -/
def stem (p : Path) : String := (splitSuffix p.name).1

/-- The suffix of the last component. -/
def suffix (p : Path) : String := (splitSuffix p.name).2

/-- Is the text a single component that can be the last one of a path? -/
def isFileName (name : String) : Bool :=
  let p := ofString name
  name ≠ "" && name.toList.getLast? ≠ some '/' && !p.isAbsolute && p.parts.length == 1

/-- The path with another last component. -/
def withName (p : Path) (name : String) : Except PathFault Path :=
  if p.name = "" then .error .emptyName
  else if isFileName name then .ok ⟨p.anchor, p.parts.dropLast ++ [name]⟩
  else .error (.invalidName name)

end Path

/-- Changes the stem of a file key, and keeps its directory and its suffix. -/
def retitle (key : String) (f : String → String) : Except PathFault String := do
  let p := Path.ofString (normalize key)
  let q ← p.withName (f p.stem ++ p.suffix)
  return q.toString

/-- How many directories a key lies below the top; −1 for a key without components. -/
def depth (key : String) : Int :=
  (components (fun c => c = '/' ∨ c = '\\') key).length - 1

end ScriptModules
