import ScriptModules.Config.Problem

/-!
# Faults of the configuration

What a user can get wrong: the configuration file, the options, the input files and the
destination.
-/

namespace ScriptModules

/-- Why a configuration cannot be used. -/
inductive ConfigFault where
  /-- The configuration file at this path is not well-formed. -/
  | malformed (path : String)
  /-- The configuration file at this path holds data that does not fit. -/
  | unfit (path : String) (problems : List Problem)
  /-- An option on the command line does not fit. -/
  | badOption (problems : List Problem)
  | emptyDest
  /-- Writing to the destination would destroy the input. -/
  | destOverRoot (dest : String)
  | absoluteInput (entry directory : String)
  | escapingInput (entry : String)
  | absentInput (entry directory : String)
  | repeatedInput (entry : String)
  deriving DecidableEq, Repr

/-- Problems in one line. -/
def problemsText (problems : List Problem) : String := "; ".intercalate (problems.map Problem.text)

/-- The wording of a fault. -/
def ConfigFault.message : ConfigFault → String
  | .malformed path => s!"Invalid TOML in {path}: not a well-formed document"
  | .unfit path problems => s!"Invalid config in {path}: " ++ problemsText problems
  | .badOption problems => "Invalid option: " ++ problemsText problems
  | .emptyDest => "dest must be a non-empty path"
  | .destOverRoot dest => s!"dest '{dest}' would overwrite the source root"
  | .absoluteInput entry directory =>
    s!"Input file '{entry}' must be a path relative to {directory}"
  | .escapingInput entry => s!"Input file '{entry}' escapes the source root"
  | .absentInput entry directory => s!"Input file '{entry}' does not exist under {directory}"
  | .repeatedInput entry => s!"Input file '{entry}' is listed more than once"

end ScriptModules
