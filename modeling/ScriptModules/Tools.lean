import ScriptModules.Config.Lax
import ScriptModules.Convert
import ScriptModules.Input.Ignore
import ScriptModules.Script.Parse

/-!
# The tools of the program

What the program puts in where a conversion leaves the choice open.
-/

namespace ScriptModules

/-- The program's own parser, ignore files with patterns, and lax reading of options. -/
def Tools.own : Tools := ⟨Script.parse, IgnoreFile.reader, .lax⟩

end ScriptModules
