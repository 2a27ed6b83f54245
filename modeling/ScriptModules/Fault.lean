import ScriptModules.Config.Fault
import ScriptModules.Emit.Write
import ScriptModules.Input.Ignoring
import ScriptModules.Link.Fault

/-!
# Faults of a conversion

Everything that can stop a conversion or a comparison, by cause. Some causes are of the user's
making, and the command line reports them as errors (`Fault.reported?`).
-/

namespace ScriptModules

/-- Why a conversion stops. -/
inductive Fault where
  | config (fault : ConfigFault)
  | link (fault : LinkFault)
  | emit (fault : EmitFault)
  | disk (fault : DiskFault) (path : Path)
  | canonical (fault : Disk.CanonicalFault)
  | ignore (fault : IgnoreFault)
  /-- The configuration file is not UTF-8. -/
  | undecodable (fault : Utf8.Fault)
  /-- A path starts with the home folder of someone unknown. -/
  | homeless
  /-- The report does not fit its form. -/
  | report (problems : List Problem)
  /-- There is no output to compare with. -/
  | noOutput (dest : Path)
  /-- The output to compare with is no folder. -/
  | outputNotFolder (dest : Path)
  deriving DecidableEq, Repr

namespace Fault

/-- The wording of a fault. -/
def message : Fault → String
  | .config f => f.message
  | .link f => f.message
  | .emit (.indexTaken index) => indexTakenMessage index
  | .emit (.render (.unnamable f)) => f.message
  | .emit (.render (.unknownFile key)) => quoted key
  | .emit (.disk f p) => f.message p
  | .disk f p => f.message p
  | .canonical f => f.message
  | .ignore f => f.message
  | .undecodable f => f.message
  | .homeless => "Could not determine home directory."
  | .report problems => problemsText problems
  | .noOutput dest => s!"Output directory does not exist: {dest}"
  | .outputNotFolder dest => s!"Output path is not a directory: {dest}"

/-- What the command line reports as an error of its user: faults of the configuration, names with
two owners, and an aggregator in the place of a module. -/
def reported? (f : Fault) : Option String :=
  match f with
  | .config _ => some f.message
  | .link (.duplicateDefinition ..) => some f.message
  | .emit (.indexTaken _) => some f.message
  | _ => none

/-- Is the fault that something is absent, or is no folder where one is needed? -/
def isMissing : Fault → Bool
  | .noOutput _ => true
  | .outputNotFolder _ => true
  | .disk f _ => f = .notFound || f = .notDirectory
  | .emit (.disk f _) => f = .notFound || f = .notDirectory
  | _ => false

end Fault

end ScriptModules
