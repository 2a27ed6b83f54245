import ScriptModules.Data.KeySet

/-!
# Symbols

Where a global name is declared, assigned and read. `assignments` and `references` are sets of
file keys; whether a key is in them is all that matters.
-/

namespace ScriptModules

/-- The files that declare, assign and read one global name. -/
structure SymbolEntry where
  /-- The file that owns the name. -/
  definition : Option String
  /-- The files that assign the name without declaring it. -/
  assignments : KeySet
  /-- The files that read the name without declaring it. -/
  references : KeySet

namespace SymbolEntry

/-- A name that was only mentioned so far. -/
def empty : SymbolEntry := ⟨none, .empty, .empty⟩

instance : Inhabited SymbolEntry := ⟨empty⟩

/-- The files that assign or read the name. -/
def users (e : SymbolEntry) : KeySet := e.assignments.union e.references

/-- The files that assign the name and do not own it. -/
def foreignAssignments (e : SymbolEntry) : KeySet :=
  e.assignments.filter fun k => some k ≠ e.definition

/-- The entry with every mention of `old` turned into `new`. -/
def repoint (e : SymbolEntry) (old new : String) : SymbolEntry :=
  { definition := if e.definition = some old then some new else e.definition
    assignments := e.assignments.replace old new
    references := e.references.replace old new }

end SymbolEntry

end ScriptModules
