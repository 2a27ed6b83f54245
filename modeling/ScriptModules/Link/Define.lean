import ScriptModules.Link.Fault
import ScriptModules.Link.State
import ScriptModules.Log.Logged
import ScriptModules.Tree.Scope

/-!
# Adding a script to the tables

A part of a script becomes a file of the state: its text is placed under a key, the names that it
declares get an owner, and the names that it uses are noted. When two files declare one name, the
duplicate policy decides who owns it. Names that no file declares belong to the environment and
are purged at the end.

A step that fails leaves the state as it stood when it failed, which is why results carry both.
-/

namespace ScriptModules

/-- Who owns a name that two files declare. -/
inductive DuplicatePolicy where
  | last
  | first
  | error
  deriving DecidableEq, Repr

namespace DuplicatePolicy

/-- The name of a policy. -/
def name : DuplicatePolicy → String
  | .last => "last"
  | .first => "first"
  | .error => "error"

/-- All policies. -/
def all : List DuplicatePolicy := [.last, .first, .error]

/-- The policy with this name. -/
def ofName? (s : String) : Option DuplicatePolicy := all.find? (·.name = s)

/-- The file that owns `name`, which `existing` and later `duplicate` declare. -/
def choose (p : DuplicatePolicy) (name existing duplicate : String) : Except LinkFault String :=
  match p with
  | .error => .error (.duplicateDefinition name existing duplicate)
  | .first => .ok existing
  | .last => .ok duplicate

end DuplicatePolicy

/-- A state, and what came of the step that led to it. -/
abbrev Outcome (σ α : Type) := σ × Except LinkFault α

namespace State

/-- Notes that the file `key` declares `name`. -/
def define (s : State) (policy : DuplicatePolicy) (key name : String) :
    Logged (Outcome State Unit) :=
  match (s.entry name).definition with
  | none => pure (s.withEntry name fun e => { e with definition := some key }, .ok ())
  | some existing =>
    if existing = key then pure (s, .ok ())
    else match policy.choose name existing key with
      | .error fault => pure (s, .error fault)
      | .ok owner =>
        ⟨(s.withEntry name fun e => { e with definition := some owner }, .ok ()),
          [.redeclared name key existing owner]⟩

/-- Notes the declarations of `key` one after the other, up to the first that fails. -/
def defineAll (policy : DuplicatePolicy) (key : String) :
    (s : State) → List String → Logged (Outcome State Unit)
  | s, [] => pure (s, .ok ())
  | s, name :: names => do
    match ← s.define policy key name with
    | (s, .ok ()) => defineAll policy key s names
    | (s, .error fault) => return (s, .error fault)

/-- Notes that the file `key` uses a name which it does not declare. -/
def use (s : State) (key : String) (g : GlobalName) : Logged State :=
  ⟨s.withEntry g.name fun e =>
      { e with
        assignments := if g.isAssigned then e.assignments.insert key else e.assignments
        references := if g.isRead then e.references.insert key else e.references },
    if g.isAssigned then [.assigned g.name key] else []⟩

/-- Places a text under a new key. -/
def place (s : State) (key text source : String) : State :=
  { s with files := s.files.insert key text, sources := s.sources.insert key source }

/-- Notes the declarations and uses of the file `key`. -/
def fold (s : State) (policy : DuplicatePolicy) (key : String) (a : Analysis) :
    Logged (Outcome State Unit) := do
  match ← defineAll policy key s a.declarations with
  | (s, .ok ()) => return (← a.globals.foldlM (fun s g => s.use key g) s, .ok ())
  | (s, .error fault) => return (s, .error fault)

/-- Adds a part of the script `source` as the file `key`. -/
def addPartition (s : State) (policy : DuplicatePolicy) (key text source : String)
    (a : Analysis) : Logged (Outcome State Unit) :=
  if s.files.contains key then pure (s, .error (.keyClash key source))
  else (s.place key text source).fold policy key a

/-- The names that no file declares, in table order. -/
def undeclared (s : State) : List String :=
  (s.symbols.entries.filter fun e => e.2.definition.isNone).map (·.1)

/-- Drops the names that no file declares. -/
def purge (s : State) : Logged (State × List String) :=
  let removed := s.undeclared
  let symbols := s.symbols.filter fun _ e => e.definition.isSome
  ⟨({ s with symbols := symbols, purged := s.purged ++ removed }, removed),
    .purged removed.length :: if removed = [] then [] else [.purgedNames removed]⟩

end State

end ScriptModules
