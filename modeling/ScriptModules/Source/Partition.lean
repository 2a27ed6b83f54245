import ScriptModules.Tree.Outline

/-!
# Cutting a script into parts

A script that is too long is cut between top-level units, never inside one. Every unit closes
after the blanks and the line break that follow it, the last one at the end of the script
(`closings`). Going through the units in order, a new part starts with a unit that would push the
current part over the limit, unless the current part would be left without any unit (`cuts`).
-/

namespace ScriptModules

/-- The bytes of the source from an offset on. -/
def bytesFrom (source : ByteArray) (i : Nat) : List UInt8 := source.data.toList.drop i

/-- The offset after the blanks and one line break at `pos`, or `pos` when no line break follows. -/
def lineEnd (source : ByteArray) (pos : Nat) : Nat :=
  let after := bytesFrom source pos
  let blanks := (after.takeWhile fun b => b = 32 || b = 9).length
  match after.drop blanks with
  | 13 :: 10 :: _ => pos + blanks + 2
  | 10 :: _ => pos + blanks + 1
  | _ => pos

/-- Where each unit closes. -/
def closings (source : ByteArray) : List CodeUnit → List Nat
  | [] => []
  | [_] => [source.size]
  | u :: us => lineEnd source u.stop :: closings source us

/-- Where parts after the first start: the current part starts at `start`, and its last unit so
far closes at `last`. -/
def cuts (limit : Int) : (start : Nat) → (last : Option Nat) → List Nat → List Nat
  | _, _, [] => []
  | start, none, e :: es => cuts limit start (some e) es
  | start, some last, e :: es =>
    if (e : Int) - start > limit then last :: cuts limit last (some e) es
    else cuts limit start (some e) es

/-- The offsets at which the parts start. Without a limit there is one part. -/
def boundaries (source : ByteArray) (units : List CodeUnit) : (limit : Option Int) → List Nat
  | none => [0]
  | some limit => 0 :: cuts limit 0 none (closings source units)

/-- The parts that start at the given offsets; the last one runs to the end. -/
def pieces (source : ByteArray) : List Nat → List ByteArray
  | [] => []
  | [b] => [source.extract b source.size]
  | b :: b' :: bs => source.extract b b' :: pieces source (b' :: bs)

/-- Why a script cannot be cut. -/
inductive SplitFault where
  /-- Not even the start of the first part is given. -/
  | noBoundary
  deriving DecidableEq, Repr

/-- The wording of a fault. -/
def SplitFault.message : SplitFault → String
  | .noBoundary => "zip() argument 2 is longer than argument 1"

/-- The parts that start at the given offsets, of which there has to be one. -/
def split (source : ByteArray) (bounds : List Nat) : Except SplitFault (List ByteArray) :=
  if bounds = [] then .error .noBoundary else .ok (pieces source bounds)

end ScriptModules
