import ScriptModules.Text.Lowercase
import ScriptModules.Text.PrintableTable

/-!
# Quoted texts

Names in error messages are shown in quotes, with everything escaped that does not show: `quoted`
takes single quotes unless the text holds a single quote and no double quote.
-/

namespace ScriptModules

/-- The lower-case hexadecimal digits of `n`, at least `width` of them. -/
def hexDigits (width n : Nat) : List Char :=
  let ds := Nat.toDigits 16 n
  List.replicate (width - ds.length) '0' ++ ds

/-- Is the character shown as itself? -/
def isPrintable (c : Char) : Bool :=
  0x20 ≤ c.toNat && (c.toNat < 0x7F || !inRanges unprintableRanges c.toNat)

/-- A character between quotes of the kind `q`. -/
def escapeIn (q c : Char) : List Char :=
  if c = q ∨ c = '\\' then ['\\', c]
  else if c = '\t' then ['\\', 't']
  else if c = '\n' then ['\\', 'n']
  else if c = '\r' then ['\\', 'r']
  else if isPrintable c then [c]
  else if c.toNat < 0x100 then ['\\', 'x'] ++ hexDigits 2 c.toNat
  else if c.toNat < 0x10000 then ['\\', 'u'] ++ hexDigits 4 c.toNat
  else ['\\', 'U'] ++ hexDigits 8 c.toNat

/-- The text in quotes. -/
def quoted (s : String) : String :=
  let cs := s.toList
  let q := if cs.contains '\x27' && !cs.contains '"' then '"' else '\x27'
  String.ofList ([q] ++ cs.flatMap (escapeIn q) ++ [q])

end ScriptModules
