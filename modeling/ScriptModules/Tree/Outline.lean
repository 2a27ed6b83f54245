import ScriptModules.Text.Utf8
import ScriptModules.Tree.Node

/-!
# The outline of a script

What the later stages need of a syntax tree besides its names: the top-level units (statements and
comments) with their byte ranges, all comments, and, for a tree with a syntax error, where the
first one stands.
-/

namespace ScriptModules

/-- A half-open range of byte offsets. -/
structure Span where
  start : Nat
  stop : Nat
  deriving DecidableEq, Repr

/-- A top-level statement or comment. -/
structure CodeUnit where
  kind : String
  start : Nat
  stop : Nat
  deriving DecidableEq, Repr

/-- Is the unit a comment? -/
def CodeUnit.isComment (u : CodeUnit) : Bool := u.kind = "comment" || u.kind = "html_comment"

/-- A script that does not parse. -/
structure SyntaxFault where
  /-- Is a token missing, rather than something wrong there? -/
  missing : Bool
  /-- The line of the first error, from 1. -/
  line : Nat
  /-- The byte in that line, from 1. -/
  column : Nat
  /-- The start of the script. -/
  excerpt : String
  deriving DecidableEq, Repr

/-- How many bytes of a script the excerpt shows. -/
def excerptLength : Nat := 100

/-- The start of a script, for messages. -/
def excerpt (source : ByteArray) : String := Utf8.decodeLossy (source.extract 0 excerptLength)

/-- The text shown for a fault. -/
def SyntaxFault.message (f : SyntaxFault) : String :=
  (if f.missing then "missing token" else "syntax error") ++
    s!" at line {f.line}, column {f.column}"

/-- The line of an offset and the byte in that line, both from 0. -/
def position (source : ByteArray) (offset : Nat) : Nat × Nat :=
  let before := (source.extract 0 offset).data.toList
  (before.count 10, (before.reverse.takeWhile (· ≠ 10)).length)

namespace Node

/-- Searches the trees on a stack, from the top on, for a node that stands for a syntax error. A
tree that holds no error is passed over. Of any other the children are put on the stack, the first
of them on top. -/
def searchFlaw : (stack : List Node) → Option Node
  | [] => none
  | n :: stack =>
    if n.isFlaw then some n
    else if n.hasError then searchFlaw (n.children ++ stack)
    else searchFlaw stack
termination_by stack => sizeAll stack
decreasing_by
  · rw [sizeAll, sizeAll_append, size_eq]
    omega
  · rw [sizeAll, size_eq]
    omega

/-- The node that stands for the first syntax error of a tree. -/
def firstFlaw? (root : Node) : Option Node := searchFlaw [root]

mutual

/-- The spans of the outermost comments, in preorder. -/
def commentSpans : Node → List Span
  | ⟨kind, start, stop, children, _, _, _, _⟩ =>
    if kind = "comment" || kind = "html_comment" then [⟨start, stop⟩] else commentSpansAll children

/-- The spans of the outermost comments of a list of trees. -/
def commentSpansAll : List Node → List Span
  | [] => []
  | c :: cs => commentSpans c ++ commentSpansAll cs

end

/-- The comments of a script by their start. -/
def comments (root : Node) : List Span :=
  root.commentSpans.mergeSort fun a b => decide (a.start ≤ b.start)

/-- The top-level statements and comments of a script, in source order. -/
def units (root : Node) : List CodeUnit :=
  (root.namedChildren.filter (·.kind ≠ "hash_bang_line")).map fun c => ⟨c.kind, c.start, c.stop⟩

/-- The top-level statements of a script. -/
def statements (root : Node) : List CodeUnit := root.units.filter fun u => !u.isComment

/-- Accepts the tree of a script when it holds no syntax error. -/
def checked (source : ByteArray) (root : Node) : Except SyntaxFault Node :=
  if root.hasError then
    let flaw := root.firstFlaw?.getD root
    let (line, column) := position source flaw.start
    .error ⟨flaw.missing, line + 1, column + 1, excerpt source⟩
  else .ok root

end Node

/-- A parser takes a script to its syntax tree, or says where it fails. -/
abbrev Parser := ByteArray → Except SyntaxFault Node

end ScriptModules
