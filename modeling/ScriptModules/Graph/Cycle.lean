import ScriptModules.Graph.Import
import ScriptModules.Text.Quoted

/-!
# Import cycles

`findCycles` lists the strongly connected components of a graph that have more than one node or an
edge from a node to itself. One depth-first walk finds them: it starts at the nodes in graph order
and goes on to targets in code point order, and it keeps a stack of the nodes whose component is
not complete. The low link of a node is the least discovery number that is reached from it through
nodes on the stack; a node whose low link is its own number is the first of its component, and the
component is what lies on the stack from the top down to it.

The walk keeps the nodes that it is inside of, each with the targets that are left to look at, in a
list of its own (`Frame`), so a long chain of edges needs no deep recursion.

A component comes out before every component from which it can be reached, and inside one the
nodes stand in reverse order of discovery.
-/

namespace ScriptModules

/-- A stack that does not hold what it should. -/
inductive StackFault where
  /-- The first node of a component is not on the stack. -/
  | rootMissing (root : String)
  /-- A node on the stack is not marked as being there. -/
  | unmarked (node : String)
  deriving DecidableEq, Repr

/-- The wording of a fault. -/
def StackFault.message : StackFault → String
  | .rootMissing root =>
    "Tarjan algorithm invariant violated: root node " ++ quoted root ++
      " not found in stack during SCC extraction."
  | .unmarked node => quoted node

/-- The nodes whose component is not complete: a stack, last node first, and the same nodes as a
set. -/
structure Pending where
  stack : List String
  marked : KeySet

namespace Pending

/-- Puts a node on the stack. -/
def push (p : Pending) (node : String) : Pending := ⟨node :: p.stack, p.marked.insert node⟩

/-- Takes nodes from the stack down to `root`, in the order in which they come off. -/
def popTo (root : String) : (stack : List String) → (marked : KeySet) →
    Except StackFault (List String × Pending)
  | [], _ => .error (.rootMissing root)
  | node :: rest, marked =>
    if node ∈ marked then
      if node = root then .ok ([node], ⟨rest, marked.erase node⟩)
      else do
        let (component, p) ← popTo root rest (marked.erase node)
        return (node :: component, p)
    else .error (.unmarked node)

/-- Takes the component whose first node is `root` from the stack. -/
def extract (p : Pending) (root : String) : Except StackFault (List String × Pending) :=
  popTo root p.stack p.marked

end Pending

/-- A node that the walk is inside of. -/
structure Frame where
  node : String
  /-- The low link, as far as it is known. -/
  low : Nat
  /-- The targets that are still to be looked at. -/
  left : List String

namespace Frame

/-- The low link is at most `low`. -/
def lower (f : Frame) (low : Nat) : Frame := { f with low := min f.low low }

/-- Passes a low link on to the innermost of the nodes, if there is one. -/
def lowerFirst (low : Nat) : List Frame → List Frame
  | [] => []
  | f :: outer => f.lower low :: outer

end Frame

/-- Why a walk does not come to its end. -/
inductive WalkFault where
  | stack (fault : StackFault)
  /-- There are nodes that were not left after as many steps as are allowed. -/
  | unfinished
  deriving DecidableEq, Repr

/-- How far the depth-first walk has come. -/
structure Walk where
  /-- The nodes met so far, in order of discovery. -/
  found : List String
  pending : Pending
  /-- The cycles found so far. -/
  cycles : List (List String)

namespace Walk

/-- The walk before its first step. -/
def start : Walk := ⟨[], ⟨[], .empty⟩, []⟩

/-- Meets a new node. -/
def enter (w : Walk) (node : String) : Walk :=
  { w with found := w.found ++ [node], pending := w.pending.push node }

/-- Takes the component from the stack whose first node is `node`. -/
def complete (g : Graph) (w : Walk) (node : String) : Except StackFault Walk := do
  let (component, pending) ← w.pending.extract node
  let isCycle := component.length > 1 || (g.targets node).contains node
  return { w with
    pending := pending
    cycles := if isCycle then w.cycles ++ [component] else w.cycles }

/-- The walk is about to enter a node: nothing is known yet of what the node leads to. -/
def frame (g : Graph) (w : Walk) (node : String) : Frame :=
  ⟨node, w.found.length, sorted (g.targets node).items⟩

/-- Leaves a node, with its component if it is the first of it. -/
def leave (g : Graph) (w : Walk) (f : Frame) : Except StackFault Walk :=
  if f.low = w.found.idxOf f.node then w.complete g f.node else .ok w

/-- One step of the walk inside a node `f` and the nodes `outer` around it: it looks at the next
target of the node, which it enters when it is new, or leaves the node when there is none left. -/
def step (g : Graph) (w : Walk) (f : Frame) (outer : List Frame) :
    Except StackFault (Walk × List Frame) :=
  match f.left with
  | target :: left =>
    let f := { f with left }
    if target ∉ w.found then .ok (w.enter target, w.frame g target :: f :: outer)
    else if target ∈ w.pending.marked then .ok (w, f.lower (w.found.idxOf target) :: outer)
    else .ok (w, f :: outer)
  | [] => (w.leave g f).map fun w => (w, Frame.lowerFirst f.low outer)

/-- Walks on until all nodes are left, in at most `bound` steps. -/
def run (g : Graph) : (bound : Nat) → Walk → List Frame → Except WalkFault Walk
  | _, w, [] => .ok w
  | 0, _, _ :: _ => .error .unfinished
  | bound + 1, w, f :: outer =>
    match w.step g f outer with
    | .ok (w, frames) => run g bound w frames
    | .error fault => .error (.stack fault)

end Walk

namespace Graph

/-- A bound on the steps of a walk: each node is entered and left once, and each of its targets is
looked at once. There are no more nodes than keys and targets. -/
def walkBound (g : Graph) : Nat := g.entries.foldl (fun n e => n + 2 * e.2.items.length) g.size

/-- Walks through the whole graph. -/
def walk (g : Graph) : Except WalkFault Walk :=
  g.keys.foldlM
    (fun w node =>
      if node ∈ w.found then .ok w else Walk.run g g.walkBound (w.enter node) [w.frame g node])
    Walk.start

/-- The components of the graph that have more than one node or a loop. -/
def findCycles (g : Graph) : List (List String) :=
  match g.walk with
  | .ok w => w.cycles
  | .error _ => []

end Graph

end ScriptModules
