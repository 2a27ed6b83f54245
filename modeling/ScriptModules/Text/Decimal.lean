import ScriptModules.Text.Blank

/-!
# Whole numbers in option values

`wholeNumber?` reads the value of a numeric command line option: blanks around it, a sign, and
decimal digits of any script with single underscores between them.
-/

namespace ScriptModules

/-- The zeros of the decimal digits outside ASCII; the other nine follow each of them. -/
def decimalZeros : List Nat := [
  0x660, 0x6F0, 0x7C0, 0x966, 0x9E6, 0xA66, 0xAE6, 0xB66, 0xBE6, 0xC66, 0xCE6, 0xD66, 0xDE6, 0xE50,
  0xED0, 0xF20, 0x1040, 0x1090, 0x17E0, 0x1810, 0x1946, 0x19D0, 0x1A80, 0x1A90, 0x1B50, 0x1BB0,
  0x1C40, 0x1C50, 0xA620, 0xA8D0, 0xA900, 0xA9D0, 0xA9F0, 0xAA50, 0xABF0, 0xFF10, 0x104A0, 0x10D30,
  0x11066, 0x110F0, 0x11136, 0x111D0, 0x112F0, 0x11450, 0x114D0, 0x11650, 0x116C0, 0x11730, 0x118E0,
  0x11950, 0x11C50, 0x11D50, 0x11DA0, 0x16A60, 0x16AC0, 0x16B50, 0x1D7CE, 0x1D7D8, 0x1D7E2, 0x1D7EC,
  0x1D7F6, 0x1E140, 0x1E2F0, 0x1E950, 0x1FBF0]

/-- The value of a decimal digit. -/
def digitValue? (c : Char) : Option Nat :=
  if '0' ≤ c ∧ c ≤ '9' then some (c.toNat - '0'.toNat)
  else (decimalZeros.find? fun z => z ≤ c.toNat && c.toNat < z + 10).map (c.toNat - ·)

/-- The number that digits spell after `acc`; an underscore has to stand between two digits. -/
def digitsAfter? (acc : Nat) : List Char → Option Nat
  | [] => some acc
  | '_' :: c :: rest => do digitsAfter? (acc * 10 + (← digitValue? c)) rest
  | c :: rest => do digitsAfter? (acc * 10 + (← digitValue? c)) rest

/-- The number that a nonempty run of digits spells. -/
def digits? : List Char → Option Nat
  | [] => none
  | c :: rest => do digitsAfter? (← digitValue? c) rest

/-- More digits than this are refused. -/
def digitLimit : Nat := 4300

/-- The whole number that an option value spells. -/
def wholeNumber? (s : String) : Option Int :=
  let cs := trimBoth isBlank s.toList
  if (cs.filter fun c => (digitValue? c).isSome).length > digitLimit then none
  else match cs with
    | '-' :: rest => (digits? rest).map fun n => -(n : Int)
    | '+' :: rest => (digits? rest).map Int.ofNat
    | rest => (digits? rest).map Int.ofNat

end ScriptModules
