import ScriptModules.Config.Toml.Reader
import ScriptModules.Config.Value

/-!
# TOML numbers, dates and times

Digits may have single underscores between them. A number with a fraction or an exponent is a
`Real`. Of dates and times only their form and the length of months are checked.
-/

namespace ScriptModules.Toml

/-- The digits at the front of the text, each of which may follow an underscore. -/
def moreDigits (kind : Char → Bool) : List Char → List Char × List Char
  | '_' :: c :: rest =>
    if kind c then
      let (ds, r) := moreDigits kind rest
      (c :: ds, r)
    else ([], '_' :: c :: rest)
  | c :: rest =>
    if kind c then
      let (ds, r) := moreDigits kind rest
      (c :: ds, r)
    else ([], c :: rest)
  | [] => ([], [])

/-- Takes digits, at least one. -/
def digits (kind : Char → Bool) : Reader (List Char) := fun cs =>
  match cs with
  | c :: rest =>
    if kind c then
      let (ds, r) := moreDigits kind rest
      some (c :: ds, r)
    else none
  | [] => none

/-- The value of a digit in any base up to sixteen. -/
def digitNumber (c : Char) : Nat :=
  if c.isDigit then c.toNat - '0'.toNat else c.toLower.toNat - 'a'.toNat + 10

/-- The number that digits spell. -/
def ofDigits (base : Nat) (ds : List Char) : Nat :=
  ds.foldl (fun n c => n * base + digitNumber c) 0

/-- Is the character a digit of base sixteen? -/
def isHexDigit (c : Char) : Bool := c.isDigit || ('a' ≤ c.toLower && c.toLower ≤ 'f')

/-- Takes a whole number with a mark for its base. -/
def basedNumber (mark : String) (base : Nat) (kind : Char → Bool) : Reader Value := do
  if ← takesText mark then return .int (ofDigits base (← digits kind))
  failure

/-- Takes a sign; is it a minus? -/
def sign : Reader Bool := do
  if ← takes '-' then return true
  discard (takes '+')
  return false

/-- Takes the whole part of a decimal number: a zero stands alone. -/
def wholePart : Reader (List Char) := do
  if ← takes '0' then return ['0']
  digits Char.isDigit

/-- Takes a fraction, if there is one. -/
def fraction : Reader (List Char) :=
  (do expect '.'; digits Char.isDigit) <|> pure []

/-- Takes an exponent, if there is one. -/
def exponent : Reader (Option Int) :=
  (do
    if !(← takes 'e') then expect 'E'
    let negative ← sign
    let n : Int := ofDigits 10 (← digits Char.isDigit)
    return some (if negative then -n else n)) <|> pure none

/-- Takes a decimal number. -/
def decimalNumber : Reader Value := do
  let negative ← sign
  let whole ← wholePart
  let part ← fraction
  let power ← exponent
  let size : Int := ofDigits 10 (whole ++ part)
  let n := if negative then -size else size
  if part = [] && power = none then return .int n
  return .real (.finite n (power.getD 0 - part.length))

/-- Takes a number without digits. -/
def specialNumber : Reader Value := do
  discard sign
  if ← takesText "inf" then return .real .infinite
  if ← takesText "nan" then return .real .notANumber
  failure

/-- Takes a number. -/
def number : Reader Value :=
  basedNumber "0x" 16 isHexDigit <|> basedNumber "0o" 8 (fun c => '0' ≤ c && c ≤ '7') <|>
    basedNumber "0b" 2 (fun c => c = '0' || c = '1') <|> decimalNumber <|> specialNumber

/-- Takes a number of exactly `count` digits, from `low` to `high`. -/
def between (count low high : Nat) : Reader Nat := fun cs =>
  let ds := cs.take count
  let n := ofDigits 10 ds
  if ds.length = count && ds.all Char.isDigit && low ≤ n && n ≤ high then some (n, cs.drop count)
  else none

/-- How many days a month has. -/
def daysIn (year month : Nat) : Nat :=
  if month = 2 then
    if year % 4 = 0 && (year % 100 ≠ 0 || year % 400 = 0) then 29 else 28
  else if [4, 6, 9, 11].contains month then 30
  else 31

/-- Takes a date. -/
def date : Reader Unit := do
  let year ← between 4 1 9999
  expect '-'
  let month ← between 2 1 12
  expect '-'
  discard (between 2 1 (daysIn year month))

/-- Takes a time of day. -/
def timeOfDay : Reader Unit := do
  discard (between 2 0 23)
  expect ':'
  discard (between 2 0 59)
  expect ':'
  discard (between 2 0 59)
  (do
    expect '.'
    if (← takeAll Char.isDigit).isEmpty then failure) <|> pure ()

/-- Takes the distance of a clock from universal time. -/
def zone : Reader Unit := do
  if ← takes 'Z' then return ()
  if ← takes 'z' then return ()
  if !(← takes '+') then expect '-'
  discard (between 2 0 23)
  expect ':'
  discard (between 2 0 59)

/-- Takes the time after a date. -/
def timeAfterDate : Reader Unit := do
  if !(← takes 'T') then
    if !(← takes 't') then expect ' '
  timeOfDay
  zone <|> pure ()

/-- Takes a date, a time, or both. -/
def moment : Reader Value :=
  (do
    date
    timeAfterDate <|> pure ()
    return .moment) <|> (do
    timeOfDay
    return .moment)

end ScriptModules.Toml
