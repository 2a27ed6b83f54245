import ScriptModules.Log.Logged
import ScriptModules.Path.Basic

/-!
# Output names

Some readers of the output take file and directory names as one name space without regard to
case. The registry remembers, in lower case, every stem that was handed out and every directory
name that was reserved, and gives a file whose stem is taken another one: the stem with a counter
that runs through the whole conversion. When the registry is off only exact paths are kept apart.

A candidate is tried until one is free. Since only finitely many names are taken, and candidates
with different numbers have different names, a bounded search suffices: `claim` tries one more
candidate than there are names in the way. When these are all in use, so are all the others: a
number behind a name without a suffix is itself read as a suffix, and the stem stays the same.
-/

namespace ScriptModules

/-- The names in use, and the renames so far. -/
structure Registry where
  /-- Are stems kept apart without regard to case? -/
  enabled : Bool
  /-- The stems and directory names in use, in lower case. -/
  names : List String
  /-- The paths that had to be renamed, with their new names, in order. -/
  renames : List (String × String)
  /-- The number for the next rename. -/
  counter : Nat
  deriving DecidableEq, Repr

/-- The digits of a rename counter, at least three. -/
def counterText (n : Nat) : String :=
  let ds := Nat.toDigits 10 n
  String.ofList (List.replicate (3 - ds.length) '0' ++ ds)

/-- The form in which a path's stem is compared. -/
def stemKey (path : String) : String := lowercase (Path.ofString path).stem

namespace Registry

/-- A registry that has handed out nothing. -/
def new (enabled : Bool) : Registry := ⟨enabled, [], [], 0⟩

/-- The registry with one more name in use. -/
def addName (r : Registry) (name : String) : Registry :=
  if r.names.contains name then r else { r with names := r.names ++ [name] }

/-- Reserves directory names, so that no file gets one of them. -/
def seed (r : Registry) (segments : List String) : Registry :=
  segments.foldl (fun r s => r.addName (lowercase s)) r

/-- Is the path in use, or does its stem clash with a name in use? -/
def collides (r : Registry) (taken : List String) (path : String) : Bool :=
  taken.contains path || (r.enabled && r.names.contains (stemKey path))

/-- Counts candidates up until one is free, and fails when `fuel` more candidates than the first are
all in use. The result is the free candidate and the number after it. -/
def search (free : String → Bool) (candidate : Nat → Except PathFault String) :
    (fuel number : Nat) → Except PathFault (String × Nat)
  | 0, number => do
    let path ← candidate number
    if free path then return (path, number + 1) else throw .neverFree
  | fuel + 1, number => do
    let path ← candidate number
    if free path then return (path, number + 1) else search free candidate fuel (number + 1)

/-- How many candidates can be in the way. -/
def crowd (r : Registry) (taken : List String) : Nat := taken.length + r.names.length

/-- The output path for `path`: the path itself, or a renamed one when it collides. A rename uses
up a number even when the path has no name to change. -/
def claim (r : Registry) (path : String) (taken : List String) :
    Logged (Registry × Except PathFault String) :=
  if r.collides taken path then
    match search (fun p => !r.collides taken p) (fun n => retitle path (· ++ counterText n))
        (r.crowd taken) r.counter with
    | .error fault => pure ({ r with counter := r.counter + 1 }, .error fault)
    | .ok (claimed, counter) =>
      let r := { r with renames := r.renames ++ [(path, claimed)], counter := counter }
      ⟨(r.addName (stemKey claimed), .ok claimed), [.renaming path claimed]⟩
  else pure (r.addName (stemKey path), .ok path)

/-- The output path of the part `index` of `key`: the first free number from `index` on is put
between stem and suffix. -/
def claimPart (r : Registry) (key : String) (index : Int) (taken : List String) :
    Logged (Registry × Except PathFault String) :=
  match search (fun p => !r.collides taken p)
      (fun n => retitle key (· ++ "." ++ toString (index + n))) (r.crowd taken) 0 with
  | .error fault => pure (r, .error fault)
  | .ok (claimed, next) =>
    ⟨(r.addName (stemKey claimed), .ok claimed),
      if next = 1 then [] else [.numbering index key claimed]⟩

end Registry

end ScriptModules
