import ScriptModules.Tree.Outline

/-!
# Removing comments

Comments are cut out from the last to the first, so every span still points at the bytes it was
computed from. What takes the place of a comment depends on the bytes around it: a comment over a
line break leaves a line break, one between two characters that are not blank leaves a space, and
any other leaves nothing.
-/

namespace ScriptModules

/-- The blanks around which a comment can vanish without a trace. -/
def isWhite (b : UInt8) : Bool := [32, 9, 13, 10, 12, 11].contains b

/-- Is there a byte at this offset, and is it not blank? -/
def solidAt (source : ByteArray) (i : Nat) : Bool :=
  match source[i]? with
  | some b => !isWhite b
  | none => false

/-- The bytes that take the place of a comment. -/
def replacement (source : ByteArray) (s : Span) : ByteArray :=
  if (source.extract s.start s.stop).data.contains 10 then ⟨#[10]⟩
  else if 0 < s.start ∧ solidAt source (s.start - 1) ∧ solidAt source s.stop then ⟨#[32]⟩
  else ⟨#[]⟩

/-- Cuts out spans in descending order from the bytes before `cursor`; `done` is the rest of the
result. A span that reaches beyond the cursor is left alone. -/
def stripDown (source : ByteArray) : (cursor : Nat) → (done : ByteArray) → List Span → ByteArray
  | cursor, done, [] => source.extract 0 cursor ++ done
  | cursor, done, s :: rest =>
    if s.stop > cursor then stripDown source cursor done rest
    else
      stripDown source s.start (replacement source s ++ source.extract s.stop cursor ++ done) rest

/-- The source without the comments. -/
def strip (source : ByteArray) (comments : List Span) : ByteArray :=
  stripDown source source.size ⟨#[]⟩ (comments.mergeSort fun a b => decide (b.start ≤ a.start))

end ScriptModules
