/-!
# Sets of characters in patterns

A pattern may hold a set of characters in brackets. Both kinds of patterns, those of options and
those of ignore files, find the end of a set in the same way (`bracketed?`) and read a dash between
two members as a range (`rangesOf`).
-/

namespace ScriptModules

/-- The characters from `lo` to `hi`. -/
structure CharRange where
  lo : Char
  hi : Char
  deriving DecidableEq, Repr

/-- The characters in some ranges, or those in none of them. -/
structure CharSet where
  negated : Bool
  ranges : List CharRange
  deriving DecidableEq, Repr

/-- Is the character in the set? -/
def CharSet.contains (s : CharSet) (c : Char) : Bool :=
  s.negated != s.ranges.any fun r => r.lo ≤ c && c ≤ r.hi

/-- A piece of the text of a set. -/
inductive SetToken where
  | char (c : Char)
  /-- A dash that makes a range of its neighbours, if it has two. -/
  | dash
  deriving DecidableEq, Repr

/-- The character of a piece that makes no range. -/
def SetToken.plain : SetToken → Char
  | .char c => c
  | .dash => '-'

/-- The ranges that the pieces of a set stand for. -/
def rangesOf : List SetToken → List CharRange
  | [] => []
  | a :: .dash :: b :: rest => ⟨a.plain, b.plain⟩ :: rangesOf rest
  | a :: rest => ⟨a.plain, a.plain⟩ :: rangesOf rest

/-- What stands between an opening bracket, which is passed, and the bracket that closes it. A
closing bracket in the first place, or after an exclamation mark there, is a member. -/
def bracketed? (cs : List Char) : Option (List Char) :=
  let (mark, rest) := match cs with
    | '!' :: rest => (['!'], rest)
    | rest => ([], rest)
  let (first, rest) := match rest with
    | ']' :: rest => ([']'], rest)
    | rest => ([], rest)
  if rest.contains ']' then some (mark ++ first ++ rest.takeWhile (· ≠ ']')) else none

end ScriptModules
