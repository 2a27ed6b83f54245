import ScriptModules.Config.Problem
import ScriptModules.Config.Value
import ScriptModules.Text.Blank

/-!
# Whole numbers in configuration data

A number that is written with a point or an exponent stands for the nearest number of double
precision; it counts as whole when that one is (`wholeReal`). A text may spell a whole number too
(`wholeText`), with a sign, leading zeros, underscores between digits, and a fraction of zeros.
-/

namespace ScriptModules

/-- The quotient as a whole number; a half goes to the even neighbour. -/
def roundQuotient (num den : Nat) : Nat :=
  let q := num / den
  let twice := 2 * (num % den)
  if twice > den ∨ (twice = den ∧ q % 2 = 1) then q + 1 else q

/-- A power of two. -/
def twoTo (n : Nat) : Nat := Nat.pow 2 n

/-- A power of ten. -/
def tenTo (n : Nat) : Nat := Nat.pow 10 n

/-- A number of double precision: `mantissa * 2 ^ exponent`. -/
structure Double where
  mantissa : Nat
  exponent : Int
  deriving DecidableEq, Repr

/-- The quotient of `num / den` and `2 ^ e` as a pair. -/
def scaled (num den : Nat) (e : Int) : Nat × Nat :=
  if 0 ≤ e then (num, den * twoTo e.toNat) else (num * twoTo (-e).toNat, den)

/-- The number of double precision nearest to a quotient, without regard to its range above. -/
def nearestDouble (num den : Nat) : Double :=
  let guess : Int := (num.log2 : Int) - den.log2 - 53
  let (n, d) := scaled num den guess
  let exponent := max (if n / d < twoTo 53 then guess else guess + 1) (-1074)
  let (n, d) := scaled num den exponent
  ⟨roundQuotient n d, exponent⟩

/-- The whole number that a number of double precision is, if it is one. -/
def Double.whole? (x : Double) : Option Nat :=
  if 0 ≤ x.exponent then some (x.mantissa * twoTo x.exponent.toNat)
  else
    let unit := twoTo (-x.exponent).toNat
    if x.mantissa % unit = 0 then some (x.mantissa / unit) else none

/-- The size of a number `mantissa * 10 ^ exponent`, rounded to double precision: none when it is
too large for that. -/
def decimalDouble? (mantissa : Nat) (exponent : Int) : Option Double :=
  let digits : Int := (Nat.toDigits 10 mantissa).length
  if mantissa = 0 || exponent + digits < -400 then some ⟨0, 0⟩
  else if exponent + digits > 400 then none
  else
    let x :=
      if 0 ≤ exponent then nearestDouble (mantissa * tenTo exponent.toNat) 1
      else nearestDouble mantissa (tenTo (-exponent).toNat)
    if 0 ≤ x.exponent && x.mantissa * twoTo x.exponent.toNat ≥ twoTo 1024 then none else some x

/-- Whole numbers from numbers with a point stay below this size. -/
def wholeRealLimit : Nat := twoTo 63

/-- The whole number that a number with a point or exponent stands for. -/
def wholeReal : Real → Except ProblemKind Int
  | .infinite => .error .infiniteInt
  | .notANumber => .error .infiniteInt
  | .finite mantissa exponent =>
    match decimalDouble? mantissa.natAbs exponent with
    | none => .error .infiniteInt
    | some x =>
      match x.whole? with
      | none => .error .fractionalInt
      | some n =>
        if n < wholeRealLimit then .ok (if mantissa < 0 then -(n : Int) else n)
        else .error .oversizedInt

/-- Does a number with a point stand for this whole number? -/
def isReal (n : Int) (x : Real) : Bool :=
  match wholeReal x with
  | .ok m => m = n
  | .error _ => false

/-! ## Texts -/

/-- The digits without leading zeros, among which underscores may stand; one zero is left when
nothing else follows. -/
def afterZeros : (last : Char) → List Char → Option (List Char)
  | last, [] => some [last]
  | last, c :: rest =>
    if c = '0' ∨ c = '_' then afterZeros c rest
    else if c.isDigit then some (c :: rest)
    else if c = '.' then some (last :: c :: rest)
    else none

/-- A text without leading zeros; none when it starts like no number. -/
def withoutZeros : List Char → Option (List Char)
  | [] => none
  | c :: rest =>
    if c = '0' then afterZeros c rest
    else if c.isDigit ∨ c = '-' then some (c :: rest)
    else none

/-- A text without a fraction that consists of zeros. -/
def withoutFraction (cs : List Char) : List Char :=
  match cs.dropWhile (· ≠ '.') with
  | _ :: zeros => if zeros.all (· = '0') then cs.takeWhile (· ≠ '.') else cs
  | [] => cs

/-- Does an underscore lack a neighbour that is none? `before` tells whether one is lacking before
the text. -/
def hasLooseUnderscore : (before : Bool) → List Char → Bool
  | before, [] => before
  | before, c :: rest =>
    if c = '_' then before || hasLooseUnderscore true rest else hasLooseUnderscore false rest

/-- A text without the underscores between its digits. -/
def withoutUnderscores (cs : List Char) : List Char :=
  if hasLooseUnderscore true cs then cs else cs.filter (· ≠ '_')

/-- The number that decimal digits spell. -/
def plainNumber? (cs : List Char) : Option Nat :=
  if cs ≠ [] ∧ cs.all Char.isDigit ∧ (cs.head? ≠ some '0' ∨ cs.length = 1) then
    some (cs.foldl (fun n c => n * 10 + (c.toNat - '0'.toNat)) 0)
  else none

/-- More characters than this are refused. -/
def numberTextLimit : Nat := 4300

/-- The whole number that a text spells. -/
def wholeText (s : String) : Except ProblemKind Int :=
  if s.utf8ByteSize > numberTextLimit then .error .oversizedInt
  else
    let cs := trimBoth isBlank s.toList
    let unsigned : Option (List Char) := match cs with
      | '+' :: '-' :: _ => none
      | '+' :: rest => some rest
      | rest => some rest
    match (unsigned.bind withoutZeros).map fun cs => withoutUnderscores (withoutFraction cs) with
    | none => .error .unreadableInt
    | some ('-' :: digits) =>
      match plainNumber? digits with
      | some n => .ok (-(n : Int))
      | none => .error .unreadableInt
    | some digits =>
      match plainNumber? digits with
      | some n => .ok n
      | none => .error .unreadableInt

end ScriptModules
