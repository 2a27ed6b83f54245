import ScriptModules.Config.Toml.Reader

/-!
# TOML texts and keys

A text stands between double quotes, and then has escapes, or between apostrophes, and then has
none. Three quotes open a text of many lines; a line break right after them is not part of it. A key
is a chain of names with dots between them.
-/

namespace ScriptModules.Toml

/-- The value of a hexadecimal digit. -/
def hexValue? (c : Char) : Option Nat :=
  if c.isDigit then some (c.toNat - '0'.toNat)
  else if 'a' ≤ c ∧ c ≤ 'f' then some (c.toNat - 'a'.toNat + 10)
  else if 'A' ≤ c ∧ c ≤ 'F' then some (c.toNat - 'A'.toNat + 10)
  else none

/-- The character whose number has `count` hexadecimal digits at the front of the text. -/
def numbered? (count : Nat) (cs : List Char) : Option Char := do
  let digits := cs.take count
  if digits.length ≠ count then none
  let n ← digits.foldlM (fun n c => (hexValue? c).map (n * 16 + ·)) 0
  if h : n.isValidChar then some (Char.ofNatAux n h) else none

/-- The character that an escape means, and how many characters it has after its backslash. -/
def escape? : List Char → Option (Char × Nat)
  | 'b' :: _ => some ('\x08', 1)
  | 't' :: _ => some ('\t', 1)
  | 'n' :: _ => some ('\n', 1)
  | 'f' :: _ => some ('\x0c', 1)
  | 'r' :: _ => some ('\r', 1)
  | '"' :: _ => some ('"', 1)
  | '\\' :: _ => some ('\\', 1)
  | 'u' :: rest => (numbered? 4 rest).map (·, 5)
  | 'U' :: rest => (numbered? 8 rest).map (·, 9)
  | _ => none

/-- How many characters a backslash at the end of a line hides after it: blanks, the line break, and
blanks and line breaks. -/
def hidden? (cs : List Char) : Option Nat :=
  let before := cs.takeWhile isTomlBlank
  match cs.drop before.length with
  | '\n' :: rest =>
    some (before.length + 1 + (rest.takeWhile fun c => isTomlBlank c || c = '\n').length)
  | _ => none

/-- Up to two quotes may stand right before the three that close a text; the closing ones are read
first, so these follow. -/
def lastQuotes (quote : Char) : List Char → List Char × List Char
  | a :: rest =>
    if a ≠ quote then ([], a :: rest)
    else match rest with
      | b :: more => if b = quote then ([a, b], more) else ([a], b :: more)
      | [] => ([a], [])
  | [] => ([], [])

/-- Is the character barred from a text? -/
def isBarredIn (lines : Bool) (c : Char) : Bool := isBarred c && !(lines && c = '\n')

/-- A text with escapes up to its closing quotes, and what follows them. The first `skip` characters
belong to an escape before. -/
def escapedText (lines : Bool) : (skip : Nat) → List Char → Option (List Char × List Char)
  | _, [] => none
  | skip + 1, _ :: rest => escapedText lines skip rest
  | 0, c :: rest =>
    if c = '"' then
      if lines then
        if ['"', '"'].isPrefixOf rest then some (lastQuotes '"' (rest.drop 2))
        else (escapedText lines 0 rest).map fun (t, r) => (c :: t, r)
      else some ([], rest)
    else if c = '\\' then
      match if lines then hidden? rest else none with
      | some n => escapedText lines n rest
      | none => do
        let (e, n) ← escape? rest
        (escapedText lines n rest).map fun (t, r) => (e :: t, r)
    else if isBarredIn lines c then none
    else (escapedText lines 0 rest).map fun (t, r) => (c :: t, r)

/-- A text without escapes up to its closing quotes, and what follows them. -/
def literalText (lines : Bool) : List Char → Option (List Char × List Char)
  | [] => none
  | c :: rest =>
    if c = '\x27' then
      if lines then
        if ['\x27', '\x27'].isPrefixOf rest then some (lastQuotes '\x27' (rest.drop 2))
        else (literalText lines rest).map fun (t, r) => (c :: t, r)
      else some ([], rest)
    else if isBarredIn lines c then none
    else (literalText lines rest).map fun (t, r) => (c :: t, r)

/-- Takes a text of one line. -/
def lineText : Reader String := do
  if ← takes '"' then return String.ofList (← escapedText false 0)
  expect '\x27'
  return String.ofList (← literalText false)

/-- Takes a text. -/
def text : Reader String := do
  if ← takesText "\"\"\"" then
    discard (takes '\n')
    return String.ofList (← escapedText true 0)
  if ← takesText "\x27\x27\x27" then
    discard (takes '\n')
    return String.ofList (← literalText true)
  lineText

/-- May the character stand in a name without quotes? -/
def isBare (c : Char) : Bool := c.isAlphanum || c = '-' || c = '_'

/-- Takes a name. -/
def keyName : Reader String := do
  match ← takeAll isBare with
  | [] => lineText
  | cs => return String.ofList cs

/-- Takes a key of at most `limit` names, and the blanks after it. -/
def key : (limit : Nat) → Reader (List String)
  | 0 => failure
  | limit + 1 => do
    let name ← keyName
    blanks
    if ← takes '.' then
      blanks
      return name :: (← key limit)
    return [name]

end ScriptModules.Toml
