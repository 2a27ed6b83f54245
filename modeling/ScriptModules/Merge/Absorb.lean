import ScriptModules.Link.State
import ScriptModules.Log.Logged

/-!
# Folding one file into another

`absorb` appends the text of a file to another one and forgets the first: every mention of the
retired file in the symbol table becomes a mention of the survivor, which keeps its place in the
file table.
-/

namespace ScriptModules

namespace State

/-- Can `retired` be folded into `survivor`? -/
def canAbsorb (s : State) (survivor retired : String) : Bool :=
  survivor ≠ retired && s.files.contains retired && s.files.contains survivor

/-- How many symbols are read by a file. -/
def readerCount (s : State) (key : String) : Nat :=
  s.symbols.entries.countP fun e => e.2.references.contains key

/-- The state after `retired` was folded into `survivor`, with `record` in the journal. -/
def absorbed (s : State) (survivor retired : String) (record : MergeRecord) : State :=
  let tail := (s.files.get? retired).getD ""
  { s with
    files := (s.files.modify survivor (· ++ tail)).erase retired
    sources := s.sources.erase retired
    symbols := s.symbols.map fun _ e => e.repoint retired survivor
    merges := s.merges ++ [record] }

/-- Folds `retired` into `survivor`. The answer is whether there was anything to do. -/
def absorb (s : State) (survivor retired : String) (record : MergeRecord) :
    Logged (State × Bool) :=
  if s.canAbsorb survivor retired then
    ⟨(s.absorbed survivor retired record, true), [.remapped (s.readerCount retired)]⟩
  else ⟨(s, false), [.nothingToMerge retired survivor]⟩

/-- Folds one file into another and notes why. -/
def merge (s : State) (m : Merge) : Logged (State × Bool) :=
  s.absorb m.survivor m.retired (.merged m)

end State

end ScriptModules
