import ScriptModules.Graph.Import
import ScriptModules.Merge.Absorb

/-!
# Folding files that import each other

Two files that would import from each other become one. Files are taken from the last to the
first, and each is compared with the files behind it as they stood before the pass; the later file
goes into the earlier one, and the import graph is built anew after each merge.
-/

namespace ScriptModules

namespace State

/-- Folds `later` into `earlier` when they import each other. The graph is that of the state. -/
def joinPair (earlier : String) (acc : (State × Graph) × Nat) (later : String) :
    Logged ((State × Graph) × Nat) :=
  let ((s, g), count) := acc
  if s.files.contains later && g.isMutual earlier later then do
    Logged.tell (.joining later earlier)
    let (s, merged) ← s.merge ⟨earlier, later, .circular, none⟩
    if merged then return ((s, s.importGraph), count + 1) else return ((s, g), count)
  else pure acc

/-- Compares a file with the files behind it. -/
def joinWith (acc : (State × Graph) × Nat) (split : String × List String) :
    Logged ((State × Graph) × Nat) :=
  if acc.1.1.files.contains split.1 then split.2.foldlM (joinPair split.1) acc else pure acc

/-- Each item with the items behind it, from the last to the first. -/
def backwards : List String → List (String × List String)
  | [] => []
  | k :: ks => backwards ks ++ [(k, ks)]

/-- Folds files that import each other. The answer counts the merges. -/
def joinCircular (s : State) : Logged (State × Nat) := do
  let ((s, _), count) ← (backwards s.files.keys).foldlM joinWith ((s, s.importGraph), 0)
  return (s, count)

end State

end ScriptModules
