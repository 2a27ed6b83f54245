import ScriptModules.Script.Statement
import ScriptModules.Tree.Outline

/-!
# Parsing scripts

`Script.parse` reads a script as a program: its statements, the line that may name an interpreter,
and its comments. The rules refer to each other through `rules`, which follows them to a depth that
the length of the script bounds: of two rules that are entered one inside the other, one passes a
token.
-/

namespace ScriptModules

namespace Node

mutual

/-- Adds a comment to the innermost node around it. -/
def withComment (comment : Node) : Node → Node
  | ⟨kind, start, stop, children, field, named, missing, flagged⟩ =>
    ⟨kind, start, stop, withCommentAmong comment children, field, named, missing, flagged⟩

/-- Adds a comment to the sibling around it, or between two siblings. -/
def withCommentAmong (comment : Node) : List Node → List Node
  | [] => [comment]
  | c :: cs =>
    if comment.start < c.start then comment :: c :: cs
    else if comment.stop ≤ c.stop then withComment comment c :: cs
    else c :: withCommentAmong comment cs

end

end Node

namespace Script

/-- The rules, followed at most `depth` deep. -/
def rules : (depth : Nat) → Grammar
  | 0, _ => fail
  | depth + 1, r =>
    match r with
    | .statement => statement (rules depth)
    | .assignment takesIn => assignment (rules depth) takesIn
    | .binary least takesIn => binary (rules depth) least takesIn
    | .unary => unary (rules depth)
    | .suffixed => suffixed (rules depth)
    | .creation => creation (rules depth)

/-- The line that names an interpreter, if the script starts with one. -/
def firstLine : Parse (List Node) := do
  let c ← get
  match interpreterLine c.here with
  | some rest =>
    set (c.past rest)
    return [← node "hash_bang_line" c.token.start []]
  | none => return []

/-- A whole script. -/
def program (g : Grammar) : Parse (List Node) := do
  let first ← firstLine
  let body ← statements g []
  unless (← current).kind = .finish do fail
  return first ++ body

/-- The tree of a script, or the offset where it is no script. -/
def read (source : ByteArray) : Except Nat Node := do
  let gs := glyphs source
  match gs.find? (·.char = some '\x00') with
  | some g => throw g.start
  | none =>
    let (body, c) ← program (rules (4 * source.size + 16)) (Cursor.first source.size gs)
    let root : Node :=
      { leafNode "program" ((body.head?.map (·.start)).getD source.size) source.size with
        children := body }
    if hasLooseDefault root then throw root.start
    else return c.comments.foldr Node.withComment root

/-- The tree of a text. Where the text stops being a script, the tree is one flaw. -/
def tree (source : ByteArray) : Node :=
  match read source with
  | .ok root => root
  | .error offset => leafNode "ERROR" offset source.size

/-- The parser of scripts. -/
def parse : Parser := fun source => (tree source).checked source

end Script

end ScriptModules
