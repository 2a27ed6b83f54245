import ScriptModules.Path.Basic
import ScriptModules.Text.Utf8

/-!
# Faults of linking

What can stop the tables from being built.
-/

namespace ScriptModules

/-- Why a script cannot be added to the tables. -/
inductive LinkFault where
  /-- Two files declare one name, and the policy refuses to choose. -/
  | duplicateDefinition (name existing duplicate : String)
  /-- A part of `source` would take the place of another file. -/
  | keyClash (key source : String)
  /-- A part of a script, or a name in it, is not UTF-8. -/
  | undecodable (fault : Utf8.Fault)
  /-- A file cannot be given a name. -/
  | unnamable (fault : PathFault)
  deriving DecidableEq, Repr

/-- The wording of a fault. -/
def LinkFault.message : LinkFault → String
  | .duplicateDefinition name existing duplicate =>
    s!"Name {name} in {duplicate} already declared in {existing}"
  | .keyClash key source => s!"Partition {key} of {source} clashes with an existing file"
  | .undecodable fault => fault.message
  | .unnamable fault => fault.message

end ScriptModules
