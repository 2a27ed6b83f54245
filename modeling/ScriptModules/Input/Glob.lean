import ScriptModules.Input.CharSet

/-!
# File patterns

The patterns by which options include and exclude files. A star stands for any characters, slashes
among them, a question mark for one character, and brackets for one character of a set. A bracket
that is not closed stands for itself, and nothing is escaped. A pattern has to match a whole path.

A range whose ends are in the wrong order holds nothing. Such a range is taken out before the set
is read, so that what is left decides whether the set is negated.
-/

namespace ScriptModules

/-- A piece of a pattern. -/
inductive GlobPart where
  | char (c : Char)
  /-- One character, whichever. -/
  | any
  /-- Any characters. -/
  | star
  /-- A set without members. -/
  | never
  | set (s : CharSet)
  deriving DecidableEq, Repr

/-- Splits the text of a set at the dashes that make ranges: not the first `skip` characters, and
the next such dash at least two characters after the last. -/
def rangeChunks : (skip : Nat) → (done : List Char) → List Char → List (List Char)
  | _, done, [] => [done.reverse]
  | skip, done, c :: rest =>
    if c = '-' && skip = 0 then done.reverse :: rangeChunks 2 [] rest
    else rangeChunks (skip - 1) (c :: done) rest

/-- Gives a dash at the end of a set back to the chunk before it. -/
def closeChunks : List (List Char) → List (List Char)
  | [] => []
  | [c] => [c]
  | [c, []] => [c ++ ['-']]
  | c :: rest => c :: closeChunks rest

/-- Takes out the ranges between chunks whose ends are in the wrong order. -/
def dropEmptyRanges : List (List Char) → List (List Char)
  | [] => []
  | c :: rest =>
    match dropEmptyRanges rest with
    | [] => [c]
    | d :: ds =>
      match c.getLast?, d.head? with
      | some hi, some lo => if lo < hi then (c.dropLast ++ d.tail) :: ds else c :: d :: ds
      | _, _ => c :: d :: ds

/-- The pieces of a set: its chunks with dashes between them. -/
def setTokens (body : List Char) : List SetToken :=
  let skip := if body.head? = some '!' then 2 else 1
  let chunks := dropEmptyRanges (closeChunks (rangeChunks skip [] body))
  [SetToken.dash].intercalate (chunks.map fun c => c.map .char)

/-- The pattern piece for a set. -/
def setPart (body : List Char) : GlobPart :=
  match setTokens body with
  | [] => .never
  | [.char '!'] => .any
  | .char '!' :: rest => .set ⟨true, rangesOf rest⟩
  | tokens => .set ⟨false, rangesOf tokens⟩

/-- The pieces of a pattern whose first `skip` characters are read already. -/
def globPartsAfter : (skip : Nat) → List Char → List GlobPart
  | _, [] => []
  | skip + 1, _ :: rest => globPartsAfter skip rest
  | 0, c :: rest =>
    if c = '*' then .star :: globPartsAfter 0 rest
    else if c = '?' then .any :: globPartsAfter 0 rest
    else if c = '[' then
      match bracketed? rest with
      | some body => setPart body :: globPartsAfter (body.length + 1) rest
      | none => .char c :: globPartsAfter 0 rest
    else .char c :: globPartsAfter 0 rest

/-- The ends of a list, from the list itself to the empty list. -/
def endsOf : List Char → List (List Char)
  | [] => [[]]
  | c :: cs => (c :: cs) :: endsOf cs

/-- Do the pieces match all of the characters? -/
def globMatches : List GlobPart → List Char → Bool
  | [], cs => cs.isEmpty
  | .star :: ps, cs => (endsOf cs).any (globMatches ps)
  | .never :: _, _ => false
  | .any :: ps, cs =>
    match cs with
    | [] => false
    | _ :: cs => globMatches ps cs
  | .char x :: ps, cs =>
    match cs with
    | [] => false
    | c :: cs => c = x && globMatches ps cs
  | .set s :: ps, cs =>
    match cs with
    | [] => false
    | c :: cs => s.contains c && globMatches ps cs

/-- Does the pattern match the path? -/
def glob (pattern path : String) : Bool :=
  globMatches (globPartsAfter 0 pattern.toList) path.toList

end ScriptModules
