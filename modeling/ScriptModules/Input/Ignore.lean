import ScriptModules.Input.CharSet
import ScriptModules.Input.Ignoring
import ScriptModules.Text.Blank

/-!
# Ignore files

An ignore file has a rule per line. A rule says which paths below the file's folder are left out;
a rule with an exclamation mark takes them in again. `IgnoreRule.ofLine` reads a line, and
`IgnoreFile.ignores` tells whether a path is left out: by any rule if none is negated, and by the
last rule that matches otherwise.

A rule is looked for in the path: at its start when it is anchored, else at the start of any
component. Only the paths of files are asked for, so a rule that has to match up to the end of the
path matches no file inside a folder of that name.
-/

namespace ScriptModules

/-- A piece of a rule. -/
inductive IgnorePart where
  | char (c : Char)
  /-- One character but a slash. -/
  | one
  /-- Any characters but slashes. -/
  | run
  /-- Any characters. -/
  | anything
  /-- Nothing, or any characters up to a slash. -/
  | folders
  | set (s : CharSet)
  deriving DecidableEq, Repr

/-- Where a match has to end. -/
inductive IgnoreEnd where
  /-- At the end of the path. -/
  | path
  /-- At the end of a component. -/
  | component
  /-- At a slash that ends the path. -/
  | slash
  deriving DecidableEq, Repr

/-- A rule of an ignore file. -/
structure IgnoreRule where
  negated : Bool
  /-- Does the match have to start where the path starts? -/
  anchored : Bool
  parts : List IgnorePart
  ending : IgnoreEnd
  deriving DecidableEq, Repr

/-! ## Reading rules -/

/-- Shortens runs of stars after a character that is no slash to one star. `inRun` tells whether the
stars at the head belong to such a run. -/
def squeezeAfter : (inRun : Bool) → List Char → List Char
  | _, [] => []
  | inRun, c :: rest =>
    if inRun && c = '*' then squeezeAfter true rest
    else if c ≠ '/' && ['*', '*'].isPrefixOf rest then c :: '*' :: squeezeAfter true rest
    else c :: squeezeAfter false rest

/-- Shortens runs of stars to two, and to one before a character that is no slash. The list follows
`stars` stars. -/
def squeezeBefore : (stars : Nat) → List Char → List Char
  | stars, [] => List.replicate (min stars 2) '*'
  | stars, c :: rest =>
    if c = '*' then squeezeBefore (stars + 1) rest
    else
      List.replicate (if c = '/' then min stars 2 else min stars 1) '*' ++ c :: squeezeBefore 0 rest

/-- The first character, which has to be there. -/
def firstChar : List Char → Except IgnoreFault Char
  | [] => .error .emptyRule
  | c :: _ => .ok c

/-- The list without its first character, if that is `c`. The list has to have one. -/
def dropFirst (c : Char) (cs : List Char) : Except IgnoreFault (List Char) := do
  return if (← firstChar cs) = c then cs.drop 1 else cs

/-- The list without its last character, if that is `c`. The list has to have one. -/
def dropLast (c : Char) (cs : List Char) : Except IgnoreFault (List Char) := do
  return (← dropFirst c cs.reverse).reverse

/-- The list without the backslash before a mark that would have a meaning in the first place. -/
def dropEscape (cs : List Char) : Except IgnoreFault (List Char) :=
  match cs with
  | [] => .error .emptyRule
  | ['\\'] => .error .emptyRule
  | '\\' :: c :: rest => .ok (if c = '#' ∨ c = '!' then c :: rest else cs)
  | _ => .ok cs

/-- Goes over the spaces at the end of a rule, given backwards: they are dropped up to the first one
after a backslash; from there on only such backslashes are. The first two characters of the rule
stay. -/
def trimSpaces : (drop : Bool) → List Char → List Char
  | drop, ' ' :: c :: d :: rest =>
    if c = '\\' then ' ' :: trimSpaces false (d :: rest)
    else if drop then trimSpaces drop (c :: d :: rest)
    else ' ' :: trimSpaces drop (c :: d :: rest)
  | _, cs => cs
termination_by _ cs => cs.length

/-- The set in brackets with this body. -/
def ignoreSet (body : List Char) : Except IgnoreFault CharSet :=
  let tokens (cs : List Char) : List SetToken := cs.map fun c => if c = '-' then .dash else .char c
  match body.filter (· ≠ '/') with
  | [] => .error .emptyRule
  | '!' :: rest => .ok ⟨true, rangesOf (tokens rest)⟩
  | cs => .ok ⟨false, rangesOf (tokens cs)⟩

/-- The pieces of a rule whose first `skip` characters are read already. -/
def ignorePartsAfter : (skip : Nat) → List Char → Except IgnoreFault (List IgnorePart)
  | _, [] => .ok []
  | skip + 1, _ :: rest => ignorePartsAfter skip rest
  | 0, c :: rest => do
    if c = '*' then
      if ['*', '/'].isPrefixOf rest then return .folders :: (← ignorePartsAfter 2 rest)
      else if ['*'].isPrefixOf rest then return .anything :: (← ignorePartsAfter 1 rest)
      else return .run :: (← ignorePartsAfter 0 rest)
    else if c = '?' then return .one :: (← ignorePartsAfter 0 rest)
    else if c = '[' then
      match bracketed? rest with
      | some body =>
        let s ← ignoreSet body
        return .set s :: (← ignorePartsAfter (body.length + 1) rest)
      | none => return .char c :: (← ignorePartsAfter 0 rest)
    else return .char c :: (← ignorePartsAfter 0 rest)

namespace IgnoreRule

/-- Reads a rule after its exclamation mark, if it has one. -/
def ofPattern (negated : Bool) (pattern : List Char) : Except IgnoreFault (Option IgnoreRule) := do
  let cs := squeezeBefore 0 (squeezeAfter false pattern)
  if (cs.reverse.dropWhile isSpacing).reverse = ['/'] then return none
  let folder := (← firstChar cs.reverse) = '/'
  let anchored := cs.dropLast.contains '/'
  let cs ← dropFirst '/' cs
  let _ ← firstChar cs
  let (cs, anchored) := match cs with
    | '*' :: '*' :: rest => (rest, false)
    | cs => (cs, anchored)
  let cs ← dropFirst '/' cs
  let cs ← dropLast '/' cs
  let cs ← dropEscape cs
  let cs := (trimSpaces true cs.reverse).reverse
  let parts ← ignorePartsAfter 0 cs
  let ending := if !folder then .path else if negated then .slash else IgnoreEnd.component
  return some ⟨negated, anchored, parts, ending⟩

/-- Reads a line: none when it holds no rule. -/
def ofLine (line : List Char) : Except IgnoreFault (Option IgnoreRule) :=
  if line.all isSpacing then .ok none
  else match line with
    | '#' :: _ => .ok none
    | '!' :: rest => ofPattern true rest
    | cs => ofPattern false cs

end IgnoreRule

/-! ## Matching -/

/-- What may be left after a match. -/
def IgnoreEnd.accepts (e : IgnoreEnd) (rest : List Char) : Bool :=
  let atEnd (cs : List Char) : Bool := cs = [] || cs = ['\n']
  match e with
  | .path => atEnd rest
  | .component => atEnd rest || rest.head? = some '/'
  | .slash => rest.head? = some '/' && atEnd (rest.drop 1)

/-- The ends of a list after characters that `p` accepts, the list itself among them. -/
def endsAfter (p : Char → Bool) : List Char → List (List Char)
  | [] => [[]]
  | c :: cs => (c :: cs) :: if p c then endsAfter p cs else []

/-- The ends of a list after slashes; before them no line end stands. -/
def endsAfterSlash : List Char → List (List Char)
  | [] => []
  | c :: cs =>
    (if c = '/' then [cs] else []) ++ if c = '\n' then [] else endsAfterSlash cs

/-- Do the pieces match a start of the characters that leaves what `final` accepts? -/
def ignoreMatches (final : List Char → Bool) : List IgnorePart → List Char → Bool
  | [], cs => final cs
  | .run :: ps, cs => (endsAfter (· ≠ '/') cs).any (ignoreMatches final ps)
  | .anything :: ps, cs => (endsAfter (· ≠ '\n') cs).any (ignoreMatches final ps)
  | .folders :: ps, cs => (cs :: endsAfterSlash cs).any (ignoreMatches final ps)
  | .one :: ps, cs =>
    match cs with
    | [] => false
    | c :: cs => c ≠ '/' && ignoreMatches final ps cs
  | .char x :: ps, cs =>
    match cs with
    | [] => false
    | c :: cs => c = x && ignoreMatches final ps cs
  | .set s :: ps, cs =>
    match cs with
    | [] => false
    | c :: cs => s.contains c && ignoreMatches final ps cs

/-- The ends of a list after any of its slashes. -/
def componentStarts : List Char → List (List Char)
  | [] => []
  | c :: cs => (if c = '/' then [cs] else []) ++ componentStarts cs

namespace IgnoreRule

/-- Does the rule match the path? -/
def matchesPath (r : IgnoreRule) (path : List Char) : Bool :=
  let starts := if r.anchored then [path] else path :: componentStarts path
  starts.any (ignoreMatches r.ending.accepts r.parts)

end IgnoreRule

/-- The rules of an ignore file, in order. -/
abbrev IgnoreFile := List IgnoreRule

/-- The lines of a text, which line feeds, carriage returns or both end. -/
def linesOf : (line : List Char) → List Char → List (List Char)
  | line, [] => if line = [] then [] else [line.reverse]
  | line, '\r' :: '\n' :: rest => line.reverse :: linesOf [] rest
  | line, c :: rest =>
    if c = '\r' ∨ c = '\n' then line.reverse :: linesOf [] rest else linesOf (c :: line) rest

namespace IgnoreFile

/-- Reads the bytes of an ignore file. -/
def ofBytes (content : ByteArray) : Except IgnoreFault IgnoreFile := do
  let text ← (Utf8.decode content).mapError .undecodable
  let rules ← (linesOf [] text.toList).mapM IgnoreRule.ofLine
  return rules.filterMap id

/-- Is the path left out? -/
def ignores (f : IgnoreFile) (path : String) : Bool :=
  if f.any (·.negated) then
    match f.reverse.find? (·.matchesPath path.toList) with
    | some r => !r.negated
    | none => false
  else f.any (·.matchesPath path.toList)

/-- Reads an ignore file by these rules. -/
def reader : IgnoreReader := fun content => (ofBytes content).map ignores

end IgnoreFile

end ScriptModules
