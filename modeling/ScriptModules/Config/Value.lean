/-!
# Configuration data

The values that a configuration can be written with, before it is known which of them fit: what a
configuration file or a caller hands over.
-/

namespace ScriptModules

/-- A number with a decimal point or an exponent: a finite one is `mantissa * 10 ^ exponent`. -/
inductive Real where
  | finite (mantissa : Int) (exponent : Int)
  | infinite
  | notANumber
  deriving DecidableEq, Repr

/-- A piece of configuration data. -/
inductive Value where
  | null
  | bool (b : Bool)
  | int (n : Int)
  | real (x : Real)
  | text (s : String)
  /-- Text that is not decoded yet. -/
  | bytes (content : ByteArray)
  | list (items : List Value)
  /-- Items in a row that are no list: a tuple, or a set in the order in which it is gone
  through. -/
  | sequence (items : List Value)
  | table (entries : List (String × Value))
  /-- A date or a time. -/
  | moment
  deriving Inhabited

end ScriptModules
