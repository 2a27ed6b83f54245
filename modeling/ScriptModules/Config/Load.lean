import ScriptModules.Config.Options
import ScriptModules.Config.Toml.Document
import ScriptModules.Disk.Read
import ScriptModules.Fault

/-!
# Where the configuration comes from

The options of a conversion are read from a configuration file in the source root, if there is one.
The output folder is emptied before it is written, so it may not be the source root nor a folder
around it.
-/

namespace ScriptModules

/-- What a path means apart from the disk. -/
structure Surroundings where
  /-- The folder from which relative paths start. -/
  current : Path
  /-- The home folder of a user; the empty name is the user's own. -/
  homeOf : String → Option Path
  /-- A folder for passing output, which is not there yet. -/
  temporary : Path

/-- The path in which a home folder at the start is spelled out. -/
def Surroundings.expand (w : Surroundings) (p : Path) : Except Fault Path :=
  match p.anchor, p.parts with
  | .none, first :: rest =>
    match first.toList with
    | '~' :: user =>
      match w.homeOf (String.ofList user) with
      | some home => .ok ⟨home.anchor, home.parts ++ rest⟩
      | none => .error .homeless
    | _ => .ok p
  | _, _ => .ok p

/-- The canonical form of a path that the user gave. -/
def Surroundings.absolute (w : Surroundings) (d : Disk) (s : String) : Except Fault Path := do
  let p ← w.expand (Path.ofString s)
  (d.canonical (w.current.join p)).mapError .canonical

/-- The name of the configuration file. -/
def configName : String := "modulize.toml"

/-- The options in a configuration file. -/
def Options.ofFile (rules : Coercion) (path : Path) (content : ByteArray) :
    Except Fault Options := do
  let text ← (Utf8.decode content).mapError .undecodable
  match Toml.read? text with
  | none => throw (.config (.malformed path.toString))
  | some entries =>
    (Options.ofEntries rules entries).mapError fun problems =>
      .config (.unfit path.toString problems)

/-- The options for the source root. -/
def Options.load (rules : Coercion) (d : Disk) (root : Path) : Except Fault Options := do
  let path := root.child configName
  if d.isFile path then
    Options.ofFile rules path (← (d.read path).mapError (.disk · path))
  else return .default

/-- Does the path lie in the folder, or is it the folder? -/
def Path.isAtOrBelow (p folder : Path) : Bool := (p.below? folder).isSome

/-- The output folder for the source root. -/
def resolveDest (w : Surroundings) (d : Disk) (root : Path) (dest : String) :
    Except Fault Path := do
  if dest = "" then throw (.config .emptyDest)
  let real ← (d.canonical root).mapError .canonical
  let p ← w.expand (Path.ofString dest)
  let p ← (d.canonical (real.join p)).mapError .canonical
  if real.isAtOrBelow p then throw (.config (.destOverRoot dest))
  return p

end ScriptModules
