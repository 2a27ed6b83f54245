import ScriptModules.Cli.Run

/-!
# What a command line reaches

The paths that a command line reads or writes, so that a caller can get them ready.
-/

namespace ScriptModules.Cli

/-- The source root of a command line, if it can be read. -/
def sourceRoot? (w : Surroundings) (args : List String) : Option Path :=
  match read args with
  | .ok (_, t) => (w.expand (Path.ofString (t.root.getD "."))).toOption.map w.current.join
  | .error _ => none

/-- The output folder of a command line, given the disk below its source root. -/
def outputFolder? (rules : Coercion) (w : Surroundings) (d : Disk) (args : List String) :
    Option Path := do
  let (_, t) ← (read args).toOption
  let root ← sourceRoot? w args
  let o ← (optionsFor rules w d root t).toOption
  match t.dest, o.dest with
  | some s, _ => (w.expand (Path.ofString s)).toOption.map w.current.join
  | none, some s => (w.expand (Path.ofString s)).toOption.map root.join
  | none, none => none

/-- The report of a command line, given the disk below its source root. -/
def reportFile? (rules : Coercion) (w : Surroundings) (d : Disk) (args : List String) :
    Option Path := do
  let (_, t) ← (read args).toOption
  let root ← sourceRoot? w args
  let o ← (optionsFor rules w d root t).toOption
  let s ← o.report
  (w.expand (Path.ofString s)).toOption.map root.join

end ScriptModules.Cli
