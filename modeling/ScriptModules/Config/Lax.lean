import ScriptModules.Config.Coercion
import ScriptModules.Config.Number
import ScriptModules.Text.Utf8

/-!
# Lax reading

The rules that configurations are read by: whole numbers and truth values may be spelled out in a
text, bytes are taken for the text that they encode, and any items in a row for a list.
-/

namespace ScriptModules

namespace Lax

/-- The text that bytes encode; the given problem when they encode none. -/
def decoded (kind : ProblemKind) (content : ByteArray) : Except ProblemKind String :=
  (Utf8.decode content).mapError fun _ => kind

/-- Reads a whole number. -/
def int : Value → Except ProblemKind Int
  | .bool b => .ok (if b then 1 else 0)
  | .int n => .ok n
  | .real x => wholeReal x
  | .text s => wholeText s
  | .bytes content => decoded .unreadableInt content >>= wholeText
  | _ => .error .notAnInt

/-- The texts that mean yes. -/
def yesTexts : List String := ["true", "t", "yes", "y", "on", "1"]

/-- The texts that mean no. -/
def noTexts : List String := ["false", "f", "no", "n", "off", "0"]

/-- The truth value that a text spells. -/
def boolText (s : String) : Except ProblemKind Bool :=
  let s := s.map Char.toLower
  if yesTexts.contains s then .ok true
  else if noTexts.contains s then .ok false
  else .error .unreadableBool

/-- Reads a truth value. -/
def bool : Value → Except ProblemKind Bool
  | .bool b => .ok b
  | .int n => if n = 0 then .ok false else if n = 1 then .ok true else .error .unreadableBool
  | .real x =>
    if isReal 0 x then .ok false else if isReal 1 x then .ok true else .error .notABool
  | .text s => boolText s
  | .bytes content => decoded .unreadableBool content >>= boolText
  | _ => .error .notABool

/-- Reads a text. -/
def text : Value → Except ProblemKind String
  | .text s => .ok s
  | .bytes content => decoded .undecodableText content
  | _ => .error .notAText

/-- Reads the items of a list. -/
def items : Value → Except ProblemKind (List Value)
  | .list l => .ok l
  | .sequence l => .ok l
  | _ => .error .notAList

end Lax

/-- The lax rules. -/
def Coercion.lax : Coercion := ⟨Lax.int, Lax.bool, Lax.text, Lax.items⟩

theorem Coercion.lax_faithful : Coercion.lax.Faithful :=
  ⟨fun _ => rfl, fun _ => rfl, fun _ => rfl, fun _ => rfl⟩

end ScriptModules
