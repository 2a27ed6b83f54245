/-!
# Syntax trees

A `Node` is a node of a script's syntax tree: what it is called, which bytes of the source it
covers, its children in order, and under which field name its parent holds it. Node names follow
the usual names of the script grammar (`identifier`, `function_declaration`, …); a tree may hold
any name, and a name that no rule knows is just an inner node.
-/

namespace ScriptModules

/-- A node of a syntax tree. -/
structure Node where
  /-- The name of the node's kind. -/
  kind : String
  /-- The offset of its first byte. -/
  start : Nat
  /-- The offset after its last byte. -/
  stop : Nat
  children : List Node
  /-- The field of the parent that holds the node. -/
  field : Option String
  /-- Is the node more than a bare token? -/
  named : Bool
  /-- Was the node made up to go on after an error? -/
  missing : Bool
  /-- Is the node marked as faulty, whatever its children are? -/
  flagged : Bool
  deriving Inhabited

namespace Node

/-- The first child that stands in the field `f`. -/
def child? (n : Node) (f : String) : Option Node := n.children.find? (·.field = some f)

/-- The children that are more than bare tokens. -/
def namedChildren (n : Node) : List Node := n.children.filter (·.named)

/-- Does the node itself stand for a syntax error? -/
def isFlaw (n : Node) : Bool := n.kind = "ERROR" || n.missing

mutual

/-- Does the tree below and at the node hold a syntax error? -/
def hasError : Node → Bool
  | ⟨kind, _, _, children, _, _, missing, flagged⟩ =>
    kind = "ERROR" || missing || flagged || hasErrorAny children

/-- Does one of the trees hold a syntax error? -/
def hasErrorAny : List Node → Bool
  | [] => false
  | c :: cs => hasError c || hasErrorAny cs

end

mutual

/-- The number of nodes of the tree. -/
def size : Node → Nat
  | ⟨_, _, _, children, _, _, _, _⟩ => sizeAll children + 1

/-- The number of nodes of a list of trees. -/
def sizeAll : List Node → Nat
  | [] => 0
  | c :: cs => size c + sizeAll cs

end

theorem sizeAll_append (cs ds : List Node) : sizeAll (cs ++ ds) = sizeAll cs + sizeAll ds := by
  induction cs with
  | nil => simp only [List.nil_append, sizeAll, Nat.zero_add]
  | cons c cs ih => simp only [List.cons_append, sizeAll, ih, Nat.add_assoc]

theorem size_eq (n : Node) : n.size = sizeAll n.children + 1 := by
  cases n
  rw [size]

/-- Is the node a comment? -/
def isComment (n : Node) : Bool := n.kind = "comment" || n.kind = "html_comment"

/-- The bytes of the source that the node covers. -/
def bytes (source : ByteArray) (n : Node) : ByteArray := source.extract n.start n.stop

end Node

end ScriptModules
