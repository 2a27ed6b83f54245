import ScriptModules.Data.Order
import ScriptModules.Text.Quoted

/-!
# Report documents

A `Document` is the data of a report, and `render` its text: two blanks per level, members of an
object in code point order of their names, and every character as itself except quotes,
backslashes and control characters.
-/

namespace ScriptModules

/-- The data of a report. -/
inductive Document where
  | null
  | number (n : Nat)
  | text (s : String)
  | array (items : List Document)
  | object (members : List (String × Document))

namespace Document

/-- A character inside double quotes. -/
def escapeChar (c : Char) : List Char :=
  if c = '"' ∨ c = '\\' then ['\\', c]
  else if c = '\n' then ['\\', 'n']
  else if c = '\t' then ['\\', 't']
  else if c = '\r' then ['\\', 'r']
  else if c = '\x08' then ['\\', 'b']
  else if c = '\x0c' then ['\\', 'f']
  else if c.toNat < 0x20 then ['\\', 'u'] ++ hexDigits 4 c.toNat
  else [c]

/-- A text in double quotes. -/
def quote (s : String) : String := String.ofList (['"'] ++ s.toList.flatMap escapeChar ++ ['"'])

/-- The start of a line at a level. -/
def newLine (level : Nat) : String := "\n" ++ String.ofList (List.replicate (2 * level) ' ')

/-- Joins the lines of an array or object between its brackets. -/
def block (left right : String) (level : Nat) (lines : List String) : String :=
  if lines = [] then left ++ right
  else left ++ newLine (level + 1) ++ ("," ++ newLine (level + 1)).intercalate lines ++
    newLine level ++ right

mutual

/-- The text of a document whose first line stands at a level. -/
def renderAt (level : Nat) : Document → String
  | .null => "null"
  | .number n => toString n
  | .text s => quote s
  | .array items => block "[" "]" level (renderItems (level + 1) items)
  | .object members =>
    block "\x7b" "\x7d" level <|
      ((renderMembers (level + 1) members).mergeSort fun a b => nameLe a.1 b.1).map fun m =>
        quote m.1 ++ ": " ++ m.2

/-- The texts of the items of an array. -/
def renderItems (level : Nat) : List Document → List String
  | [] => []
  | d :: ds => renderAt level d :: renderItems level ds

/-- The names of the members of an object with the texts of their values. -/
def renderMembers (level : Nat) : List (String × Document) → List (String × String)
  | [] => []
  | (name, d) :: ms => (name, renderAt level d) :: renderMembers level ms

end

/-- The text of a document. -/
def render (d : Document) : String := renderAt 0 d

end Document

end ScriptModules
