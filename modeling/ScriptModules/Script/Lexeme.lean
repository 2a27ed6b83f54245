import ScriptModules.Script.Glyph

/-!
# Lexemes

Where the longest piece of a given form at the head of a list of glyphs ends. A function here takes
the glyphs from the first one of the piece and gives those after its last one, or none when no such
piece starts there.
-/

namespace ScriptModules.Script

/-- Goes on by `step` as long as it applies, at most once for each glyph of the first list. -/
def skipAlong (step : List Glyph → Option (List Glyph)) : List Glyph → List Glyph → List Glyph
  | [], gs => gs
  | _ :: bound, gs =>
    match step gs with
    | some rest => skipAlong step bound rest
    | none => gs

/-- Goes on by `step` as long as it applies. A step that applies takes a glyph at least, so the
glyphs themselves bound the steps. -/
def skipAll (step : List Glyph → Option (List Glyph)) (gs : List Glyph) : List Glyph :=
  skipAlong step gs gs

/-- One character that `p` accepts. -/
def one (p : Char → Bool) : List Glyph → Option (List Glyph)
  | [] => none
  | g :: rest => if g.is p then some rest else none

/-- One glyph, be it a character or not, unless `p` accepts it. -/
def oneBut (p : Char → Bool) : List Glyph → Option (List Glyph)
  | [] => none
  | g :: rest => if g.is p then none else some rest

/-- The given characters. -/
def word (cs : List Char) (gs : List Glyph) : Option (List Glyph) :=
  if startsWith cs gs then some (gs.drop cs.length) else none

/-- Is the character a hexadecimal digit? -/
def isHexDigit (c : Char) : Bool :=
  c.isDigit || ('a' ≤ c && c ≤ 'f') || ('A' ≤ c && c ≤ 'F')

/-- Is the character a digit of the octal system? -/
def isOctalDigit (c : Char) : Bool := '0' ≤ c && c ≤ '7'

/-- Is the character a digit of the binary system? -/
def isBinaryDigit (c : Char) : Bool := c = '0' || c = '1'

/-! ## Names -/

/-- One character by its number: `\uXXXX` or `\u` with any number of digits in braces. -/
def namedCharacter (gs : List Glyph) : Option (List Glyph) :=
  match word ['\\', 'u'] gs with
  | none => none
  | some rest =>
    match word ['\x7b'] rest with
    | some inner =>
      (one isHexDigit inner).bind fun more => word ['\x7d'] (skipAll (one isHexDigit) more)
    | none =>
      one isHexDigit rest >>= one isHexDigit >>= one isHexDigit >>= one isHexDigit

/-- A name. -/
def name (gs : List Glyph) : Option (List Glyph) :=
  ((one isNameStart gs).or (namedCharacter gs)).map
    (skipAll fun gs => (one isNamePart gs).or (namedCharacter gs))

/-! ## Numbers -/

/-- Digits that `p` accepts, single underscores between them. -/
def digits (p : Char → Bool) (gs : List Glyph) : Option (List Glyph) :=
  (one p gs).map (skipAll fun gs => (one p gs).or (word ['_'] gs >>= one p))

/-- An exponent: its mark, a sign or none, digits. -/
def exponent (gs : List Glyph) : Option (List Glyph) := do
  let rest ← one (fun c => c = 'e' || c = 'E') gs
  digits Char.isDigit ((one (fun c => c = '+' || c = '-') rest).getD rest)

/-- Digits after a letter that names their base. -/
def basedDigits (gs : List Glyph) : Option (List Glyph) := do
  let rest ← word ['0'] gs
  let based (letters : List Char) (p : Char → Bool) : Option (List Glyph) :=
    one letters.contains rest >>= digits p
  (based ['x', 'X'] isHexDigit).or
    ((based ['b', 'B'] isBinaryDigit).or (based ['o', 'O'] isOctalDigit))

/-- May a fraction or an exponent follow the digits at the head? Not when they start with a zero
that a zero or an underscore follows. -/
def takesFraction : List Glyph → Bool
  | ⟨some '0', _⟩ :: ⟨some c, _⟩ :: _ => c ≠ '0' && c ≠ '_'
  | _ => true

/-- A number. -/
def number (gs : List Glyph) : Option (List Glyph) :=
  match basedDigits gs with
  | some rest => some ((word ['n'] rest).getD rest)
  | none =>
    match word ['.'] gs with
    | some rest => (digits Char.isDigit rest).map fun rest => (exponent rest).getD rest
    | none =>
      (digits Char.isDigit gs).map fun rest =>
        match word ['n'] rest with
        | some rest => rest
        | none =>
          if takesFraction gs then
            let rest := match word ['.'] rest with
              | some rest => (digits Char.isDigit rest).getD rest
              | none => rest
            (exponent rest).getD rest
          else rest

/-! ## Literals and comments -/

/-- An escape sequence in a string or template. -/
def escape (gs : List Glyph) : Option (List Glyph) :=
  match word ['\\'] gs with
  | none => none
  | some rest =>
    (word ['\r', '\n'] rest).or <|
    (oneBut (fun c => c = 'x' || c = 'u' || isOctalDigit c) rest).or <|
    (word ['x'] rest >>= one isHexDigit >>= one isHexDigit).or <|
    (namedCharacter gs).or <|
    (one isOctalDigit rest).map fun rest =>
      match one isOctalDigit rest with
      | some rest => (one isOctalDigit rest).getD rest
      | none => rest

/-- A string between two marks `quote`. -/
def string (quote : Char) (gs : List Glyph) : Option (List Glyph) := do
  let rest ← word [quote] gs
  let piece (gs : List Glyph) : Option (List Glyph) :=
    (escape gs).or (oneBut (fun c => c = quote || c = '\\' || c = '\r' || c = '\n') gs)
  word [quote] (skipAll piece rest)

/-- The characters of a template up to its end or the next substitution. -/
def templateText : List Glyph → List Glyph :=
  skipAll fun gs =>
    if startsWith ['$', '\x7b'] gs then none
    else (escape gs).or (oneBut (fun c => c = '\x60' || c = '\\') gs)

/-- A backslash and the character after it, in a regular expression. -/
def regexEscape (gs : List Glyph) : Option (List Glyph) := word ['\\'] gs >>= oneBut (· = '\n')

/-- A bracketed set of characters in a regular expression. -/
def regexSet (gs : List Glyph) : Option (List Glyph) := do
  let rest ← word ['['] gs
  word [']'] (skipAll
    (fun gs => (regexEscape gs).or (oneBut (fun c => c = ']' || c = '\\' || c = '\n') gs)) rest)

/-- A regular expression with its flags. -/
def regex (gs : List Glyph) : Option (List Glyph) := do
  let rest ← word ['/'] gs
  let piece (gs : List Glyph) : Option (List Glyph) :=
    (regexSet gs).or <| (regexEscape gs).or <|
      oneBut (fun c => c = '/' || c = '\\' || c = '[' || c = '\n') gs
  let rest ← piece rest
  let rest ← word ['/'] (skipAll piece rest)
  return rest.dropWhile (·.is fun c => 'a' ≤ c && c ≤ 'z')

/-- The rest of a line. -/
def lineRest (gs : List Glyph) : List Glyph := gs.dropWhile fun g => !g.is isLineEnd

/-- A comment to the end of the line. -/
def lineComment (gs : List Glyph) : Option (List Glyph) :=
  (word ['/', '/'] gs).map fun rest =>
    rest.dropWhile fun g => !g.is fun c => c = '\r' || isLineEnd c

/-- The glyphs after the next end of a bracketed comment. -/
def afterCommentEnd : List Glyph → Option (List Glyph)
  | [] => none
  | ⟨some '*', _⟩ :: ⟨some '/', _⟩ :: rest => some rest
  | _ :: rest => afterCommentEnd rest

/-- A bracketed comment. -/
def blockComment (gs : List Glyph) : Option (List Glyph) := word ['/', '*'] gs >>= afterCommentEnd

/-- A comment that starts like one of a page and runs to the end of the line. -/
def pageComment (gs : List Glyph) : Option (List Glyph) :=
  ((word ['<', '!', '-', '-'] gs).or (word ['-', '-', '>'] gs)).map lineRest

/-- The line at the start of a script that names its interpreter. -/
def interpreterLine (gs : List Glyph) : Option (List Glyph) :=
  (word ['#', '!'] gs).map fun rest => rest.dropWhile fun g => !g.is (· = '\n')

/-- The operators and marks, longer ones before those they start with. -/
def marks : List String :=
  [">>>=", "...", "===", "!==", "**=", "<<=", ">>=", ">>>", "&&=", "||=", "??=", "=>", "==", "!=",
    "<=", ">=", "&&", "||", "??", "?.", "++", "--", "+=", "-=", "*=", "/=", "%=", "&=", "|=", "^=",
    "<<", ">>", "**", "\x7b", "\x7d", "(", ")", "[", "]", ".", ";", ",", "<", ">", "+", "-", "*",
    "/", "%", "&", "|", "^", "!", "~", "?", ":", "=", "\x60"]

/-- The operator or mark at the head. A question mark and a point are two when a digit follows. -/
def mark (gs : List Glyph) : Option (List Glyph) :=
  match marks.find? fun m => startsWith m.toList gs with
  | none => none
  | some m =>
    if m = "?." && (one Char.isDigit (gs.drop 2)).isSome then some (gs.drop 1)
    else some (gs.drop m.length)

end ScriptModules.Script
