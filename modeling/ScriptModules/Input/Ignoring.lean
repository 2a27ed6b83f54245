import ScriptModules.Text.Utf8

/-!
# Leaving files out

An ignore file says which paths below its folder are left out. A search for scripts does not depend
on how it says so: it takes any `IgnoreReader`.
-/

namespace ScriptModules

/-- Why an ignore file cannot be read. -/
inductive IgnoreFault where
  | undecodable (fault : Utf8.Fault)
  /-- Nothing is left of a rule, or of a set in it. -/
  | emptyRule
  deriving DecidableEq, Repr

/-- The wording of a fault. -/
def IgnoreFault.message : IgnoreFault → String
  | .undecodable fault => fault.message
  | .emptyRule => "string index out of range"

/-- Reads the bytes of an ignore file: is the path below its folder left out? -/
abbrev IgnoreReader := ByteArray → Except IgnoreFault (String → Bool)

end ScriptModules
