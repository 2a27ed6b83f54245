import ScriptModules.Data.Order
import ScriptModules.Merge.Absorb

/-!
# Folding assigning files into declaring files

An imported name cannot be assigned, so a file that assigns a name which another file owns is
folded into the owner. Symbols are taken in table order, and the files that assign one in file
order, as both stand before the pass.
-/

namespace ScriptModules

namespace State

/-- Folds `other` into the owner of `name`; `count` is the number of merges so far. -/
def combineFile (name : String) (acc : State × Nat) (other : String) : Logged (State × Nat) :=
  match (acc.1.entry name).definition with
  | none => pure acc
  | some owner => do
    Logged.tell (.combining other owner name)
    let (s, merged) ← acc.1.merge ⟨owner, other, .assignment, some name⟩
    return (s, if merged then acc.2 + 1 else acc.2)

/-- Folds every file that assigns `name` into its owner. `order` is the position of files before
the pass. -/
def combineSymbol (order : String → Nat) (acc : State × Nat) (name : String) :
    Logged (State × Nat) :=
  let entry := acc.1.entry name
  match entry.definition with
  | none => pure acc
  | some _ => (sortedOn order entry.foreignAssignments.items).foldlM (combineFile name) acc

/-- Folds every file that assigns a name into the file that owns it. The answer counts the
merges. -/
def combine (s : State) : Logged (State × Nat) :=
  s.symbols.keys.foldlM (combineSymbol s.position) (s, 0)

end State

end ScriptModules
