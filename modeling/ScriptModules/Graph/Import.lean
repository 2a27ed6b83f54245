import ScriptModules.Data.Order
import ScriptModules.Link.State

/-!
# The import graph

A file that assigns or reads a name which another file owns depends on that file. `imports` lists,
for the import statements of one file, the names that it reads, under the file that owns them.
-/

namespace ScriptModules

/-- A directed graph: each node with the nodes it points to. A target need not be a node. -/
abbrev Graph := Table KeySet

namespace Graph

/-- The nodes that `a` points to. -/
def targets (g : Graph) (a : String) : KeySet := (g.get? a).getD .empty

/-- Do the two nodes point to each other? -/
def isMutual (g : Graph) (a b : String) : Bool :=
  (g.targets a).contains b && (g.targets b).contains a

/-- The graph with an edge added at a node that it has. -/
def addEdge (g : Graph) (a b : String) : Graph := g.modify a (·.insert b)

end Graph

namespace State

/-- The edges that one symbol adds to the import graph: from each user to the owner. -/
def symbolEdges (g : Graph) (e : SymbolEntry) : Graph :=
  match e.definition with
  | none => g
  | some d => (e.users.items.filter (· ≠ d)).foldl (fun g user => g.addEdge user d) g

/-- Which files would import from which. -/
def importGraph (s : State) : Graph :=
  s.symbols.entries.foldl (fun g e => symbolEdges g e.2) (s.files.map fun _ _ => .empty)

/-- The names that `key` reads and another file owns, with their owners, in table order. -/
def importedNames (s : State) (key : String) : List (String × String) :=
  s.symbols.entries.filterMap fun (name, e) =>
    match e.definition with
    | some d => if d ≠ key ∧ key ∈ e.references then some (name, d) else none
    | none => none

/-- The names that `key` imports, grouped by the file that owns them. -/
def imports (s : State) (key : String) : List (String × List String) :=
  (groupBy (·.2) (s.importedNames key)).map fun g => (g.1, g.2.map (·.1))

end State

end ScriptModules
