import ScriptModules.Config.Toml.Scalar
import ScriptModules.Config.Toml.Section
import ScriptModules.Config.Toml.Text

/-!
# TOML documents

A document has one statement a line: a key with its value, the header of a table, or the header of
one more table of an array. `read?` gives the top table, or nothing when the document is not
well-formed.
-/

namespace ScriptModules.Toml

mutual

/-- Takes a value; `limit` bounds the steps into and along arrays and inline tables. -/
def value : (limit : Nat) → Reader Value
  | 0 => failure
  | limit + 1 => do
    match ← peek with
    | some '"' => return .text (← text)
    | some '\x27' => return .text (← text)
    | some '[' =>
      expect '['
      elements limit []
    | some '\x7b' =>
      expect '\x7b'
      blanks
      if ← takes '\x7d' then return .table []
      pairs limit []
    | _ =>
      if ← takesText "true" then return .bool true
      if ← takesText "false" then return .bool false
      moment <|> number

/-- Takes the rest of an array after the elements `before`, last first. -/
def elements : (limit : Nat) → (before : List Value) → Reader Value
  | 0, _ => failure
  | limit + 1, before => do
    space
    if ← takes ']' then return .list before.reverse
    let v ← value limit
    space
    if ← takes ',' then elements limit (v :: before)
    else
      expect ']'
      return .list (v :: before).reverse

/-- Takes the rest of an inline table after the entries `before`. -/
def pairs : (limit : Nat) → (before : Items) → Reader Value
  | 0, _ => failure
  | limit + 1, before => do
    let names ← key limit
    expect '='
    blanks
    let v ← value limit
    let items ← before.assign 0 v names
    blanks
    if ← takes '\x7d' then return .table (Items.toValues items)
    expect ','
    blanks
    pairs limit items

end

/-- A document in the making. -/
structure Draft where
  items : Items
  /-- The names of the header of the current section. -/
  header : List String
  /-- The number of the current section. -/
  chapter : Nat

namespace Draft

/-- The document in which a header has opened a section by this change to the table around it. -/
def openSection (d : Draft) (names : List String) (f : String → Items → Option Items) :
    Option Draft := do
  let items ← d.items.update (f (names.getLast?.getD "")) names.dropLast
  return ⟨items, names, d.chapter + 1⟩

/-- Takes a header or a key with its value. -/
def statement (limit : Nat) (d : Draft) : Reader Draft := do
  if ← takesText "[[" then
    blanks
    let names ← key limit
    expect ']'
    expect ']'
    d.openSection names Items.extend
  else if ← takes '[' then
    blanks
    let names ← key limit
    expect ']'
    d.openSection names (Items.define (d.chapter + 1))
  else
    let names ← key limit
    expect '='
    blanks
    let v ← value limit
    let items ← d.items.update (Items.assign d.chapter v names) d.header
    return { d with items }

/-- Takes a line: a statement, a comment, both, or nothing. -/
def line (limit : Nat) (d : Draft) : Reader Draft := do
  blanks
  let next ← peek
  let d ← if [none, some '\n', some '#'].contains next then pure d else d.statement limit
  blanks
  comment
  return d

/-- Takes at most `count` lines up to the end of the text. -/
def lines (limit : Nat) : (count : Nat) → Draft → Reader Draft
  | 0, _ => failure
  | count + 1, d => do
    let d ← d.line limit
    if (← peek) = none then return d
    expect '\n'
    lines limit count d

end Draft

/-- The text with a line break for each pair of carriage return and line break. -/
def unifyBreaks : List Char → List Char
  | '\r' :: '\n' :: rest => '\n' :: unifyBreaks rest
  | c :: rest => c :: unifyBreaks rest
  | [] => []

/-- The top table of a document. -/
def read? (s : String) : Option (List (String × Value)) := do
  let cs := unifyBreaks s.toList
  let limit := 2 * cs.length + 2
  let (d, _) ← Draft.lines limit limit ⟨[], [], 0⟩ cs
  return Items.toValues d.items

end ScriptModules.Toml
