import ScriptModules.Path.Basic

/-!
# Module specifiers

A module names another one by a path relative to its own folder. The specifier always starts with
`./` or `../`, so that a loader does not take it for the name of a package.

Both modules are looked at from the root, as if they stood in the current folder, and `..` is taken
back without looking at the disk. So a key that starts with `..` can lead out of that folder, and
the way back goes through its name.
-/

namespace ScriptModules

namespace Path

/-- How many leading components two lists share. -/
def shared : List String → List String → Nat
  | a :: as, b :: bs => if a = b then shared as bs + 1 else 0
  | _, _ => 0

/-- The components that lead from the folder `start` to `goal`, both given from the root. -/
def route (start goal : List String) : List String :=
  List.replicate (start.length - shared start goal) ".." ++ goal.drop (shared start goal)

end Path

/-- A route as a text. The empty route is written as a dot. -/
def written (route : List String) : String :=
  if route = [] then "." else "/".intercalate route

/-- The text of a route, marked as relative unless its first step up does so. -/
def marked (text : String) : String := if "../".isPrefixOf text then text else "./" ++ text

/-- The specifier by which the module `importer` names the module `target`, in a program that runs
in the folder `current`. -/
def specifier (current : Path) (importer target : String) : Except PathFault String :=
  let goal := (Path.ofString (normalize target)).parts
  if goal = [] then .error .noPath
  else
    let start := (Path.ofString (normalize importer)).parts.dropLast
    .ok (marked (written
      (Path.route (collapse (current.parts ++ start)) (collapse (current.parts ++ goal)))))

end ScriptModules
