import ScriptModules.Text.Utf8

/-!
# The characters of a script

A script is read as a list of glyphs: its characters with the offsets of their first bytes. Bytes
that encode no character are glyphs without a character; they may stand where any character may,
inside comments and literals, and nowhere else.
-/

namespace ScriptModules.Script

/-- A character of a script and the offset where it starts. -/
structure Glyph where
  /-- The character; none for bytes that encode no character. -/
  char : Option Char
  start : Nat
  deriving DecidableEq, Repr

/-- The glyphs of the segments that start at offset `pos`. -/
def glyphsFrom : (pos : Nat) → List Utf8.Segment → List Glyph
  | _, [] => []
  | pos, .char c w :: rest => ⟨some c, pos⟩ :: glyphsFrom (pos + w) rest
  | pos, .fault _ w :: rest => ⟨none, pos⟩ :: glyphsFrom (pos + w) rest

/-- The glyphs of a script. -/
def glyphs (source : ByteArray) : List Glyph := glyphsFrom 0 (Utf8.segments source)

/-- The line ends: line feed, and the line and paragraph separators. -/
def isLineEnd (c : Char) : Bool := c = '\n' || c = '\u2028' || c = '\u2029'

/-- White space between tokens: the controls that move the position, the space separators, the line
ends and the characters of no width. -/
def isGap (c : Char) : Bool :=
  let n := c.toNat
  (0x9 ≤ n && n ≤ 0xD) || n == 0x20 || n == 0xA0 || n == 0x1680 || (0x2000 ≤ n && n ≤ 0x200B) ||
    n == 0x2028 || n == 0x2029 || n == 0x202F || n == 0x205F || n == 0x2060 || n == 0x3000 ||
    n == 0xFEFF

/-- The characters that have a role of their own and so never stand in a name. -/
def isMark (c : Char) : Bool := ":;`\"'@#.,|^&<=>+-*/\\%?!~()[]\x7b\x7d".toList.contains c

/-- The characters that may stand in a name: all but controls, white space and marks. -/
def isNamePart (c : Char) : Bool := !(c.toNat < 0x20) && !isGap c && !isMark c

/-- The characters that may start a name: those of a name but the digits. -/
def isNameStart (c : Char) : Bool := isNamePart c && !c.isDigit

/-- Is the glyph a character that `p` accepts? -/
def Glyph.is (p : Char → Bool) (g : Glyph) : Bool := g.char.any p

/-- Do the glyphs start with the given characters? -/
def startsWith : List Char → List Glyph → Bool
  | [], _ => true
  | _ :: _, [] => false
  | c :: cs, g :: gs => g.char = some c && startsWith cs gs

end ScriptModules.Script
