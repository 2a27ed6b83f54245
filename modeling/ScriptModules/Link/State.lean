import ScriptModules.Config.Value
import ScriptModules.Data.Table
import ScriptModules.Link.Symbol

/-!
# The state of a conversion

The file table and the symbol table of one run, with a journal of what happened to the files. The
order of the file table is the order in which the scripts used to be concatenated, and merges keep
a surviving file in its place.
-/

namespace ScriptModules

/-- Why two files became one. -/
inductive MergeReason where
  /-- One assigned a name of the other. -/
  | assignment
  /-- They imported each other. -/
  | circular
  deriving DecidableEq, Repr

/-- A file that was folded into another. -/
structure Merge where
  /-- The file that took the text in. -/
  survivor : String
  /-- The file that is gone. -/
  retired : String
  reason : MergeReason
  /-- The name on account of which it happened. -/
  symbol : Option String
  deriving DecidableEq, Repr

/-- An entry of the merge journal. -/
inductive MergeRecord where
  | merged (m : Merge)
  /-- An entry from elsewhere whose fields were not checked; a report refuses those that do not
  fit. -/
  | unchecked (survivor retired reason symbol : Value)

/-- The tables and journals of one conversion. -/
structure State where
  symbols : Table SymbolEntry
  /-- The text of each file. -/
  files : Table String
  /-- The input path that each file comes from. -/
  sources : Table String
  merges : List MergeRecord
  /-- Input paths that got another name, with that name. -/
  renames : List (String × String)
  /-- Input paths that could not be read or parsed. -/
  skipped : List String
  /-- Names that no file declares. -/
  purged : List String

namespace State

/-- The state before the first file. -/
def empty : State := ⟨.empty, .empty, .empty, [], [], [], []⟩

instance : Inhabited State := ⟨empty⟩

/-- The entry of a name; an empty one when the name was never mentioned. -/
def entry (s : State) (name : String) : SymbolEntry := (s.symbols.get? name).getD .empty

/-- The state with the entry of `name` changed; a new name goes to the end of the table. -/
def withEntry (s : State) (name : String) (f : SymbolEntry → SymbolEntry) : State :=
  { s with symbols := s.symbols.insert name (f (s.entry name)) }

/-- The position of a file in the file table; the number of files for a key that is not there. -/
def position (s : State) (key : String) : Nat := s.files.keys.idxOf key

/-- The names that a file owns, in table order. -/
def definedIn (s : State) (key : String) : List String :=
  (s.symbols.entries.filter fun e => e.2.definition = some key).map (·.1)

end State

end ScriptModules
