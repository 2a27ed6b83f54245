import ScriptModules.Graph.Import
import ScriptModules.Path.Specifier

/-!
# Module texts

A file becomes a module: import statements for the names that it reads from other files, its own
text, and an export statement for the names that it owns. The aggregator imports every module for
its effects, in file order.
-/

namespace ScriptModules

/-- Why the text of a module cannot be given. -/
inductive RenderFault where
  /-- A module cannot be named by a specifier. -/
  | unnamable (fault : PathFault)
  /-- There is no such file. -/
  | unknownFile (key : String)
  deriving DecidableEq, Repr

/-- The first lines of an aggregator. -/
def generatedHeader : String := "// Automatically generated by modulize\n\n"

/-- The specifier by which one module names another. -/
def specifierOf (current : Path) (importer target : String) : Except RenderFault String :=
  (specifier current importer target).mapError .unnamable

/-- Names in braces. -/
def braced (names : List String) : String := "\x7b" ++ ", ".intercalate names ++ "\x7d"

namespace State

/-- One import statement. -/
def importStatement (current : Path) (key : String) (group : String × List String) :
    Except RenderFault String := do
  let target ← specifierOf current key group.1
  return "import " ++ braced group.2 ++ " from '" ++ target ++ "';\n"

/-- The import statements of a module, with an empty line after them. -/
def renderImports (s : State) (current : Path) (key : String) : Except RenderFault String := do
  let statements ← (s.imports key).mapM (importStatement current key)
  return if statements = [] then "" else String.join statements ++ "\n"

/-- The export statement of a module. -/
def renderExports (s : State) (key : String) : String :=
  let names := s.definedIn key
  if names = [] then "" else "\n\nexport " ++ braced names ++ ";\n"

/-- The text of a module, given the folder in which the program runs. -/
def renderModule (s : State) (current : Path) (key : String) : Except RenderFault String := do
  let imports ← s.renderImports current key
  match s.files.get? key with
  | none => throw (.unknownFile key)
  | some text => return imports ++ text ++ s.renderExports key

end State

/-- The name of the aggregator when none is given. -/
def defaultIndex : String := "index.js"

/-- The text of the aggregator at `index`, which imports the given modules. -/
def renderAggregator (current : Path) (keys : List String) (index : String) :
    Except RenderFault String := do
  let imports ← keys.mapM fun key => do
    return "import '" ++ (← specifierOf current index key) ++ "';\n"
  return generatedHeader ++ String.join imports

end ScriptModules
