import ScriptModules.Disk.Write
import ScriptModules.Log.Logged

/-!
# Steps that change a disk

A `DiskStep` reads and changes the disk, gives notices and may fail. What it changed before it
failed stays changed.
-/

namespace ScriptModules

/-- A step on a disk that gives notices and fails with an `ε`. -/
abbrev DiskStep (ε α : Type) := ExceptT ε (StateT Disk Logged) α

namespace DiskStep

variable {ε δ α : Type}

/-- Runs a step on a disk. -/
def on (d : Disk) (step : DiskStep ε α) : Logged (Disk × Except ε α) := do
  let (result, d) ← step.run.run d
  return (d, result)

/-- Gives a notice. -/
def notify (n : Notice) : DiskStep ε Unit := fun d => ⟨(.ok (), d), [n]⟩

/-- A result that may be a fault. -/
def ofExcept (wrap : δ → ε) : Except δ α → DiskStep ε α
  | .ok a => pure a
  | .error fault => throw (wrap fault)

/-- A result with notices. -/
def ofLogged (x : Logged α) : DiskStep ε α := fun d => ⟨(.ok x.value, d), x.notices⟩

/-- The step with its fault read as another. -/
def adapt (step : DiskStep δ α) (wrap : δ → ε) : DiskStep ε α := fun d =>
  let x := step d
  ⟨(x.value.1.mapError wrap, x.value.2), x.notices⟩

/-- The step with its fault as a result. -/
def attempt (step : DiskStep δ α) : DiskStep ε (Except δ α) := fun d =>
  let x := step d
  ⟨(.ok x.value.1, x.value.2), x.notices⟩

/-- Changes the disk, unless that fails. -/
def change (wrap : DiskFault → ε) (f : Disk → Except DiskFault Disk) : DiskStep ε Unit := do
  match f (← get) with
  | .ok d => set d
  | .error fault => throw (wrap fault)

/-- Makes a folder and those that it lies in. -/
def makeFolders (wrap : DiskFault → ε) (p : Path) : DiskStep ε Unit := do
  let (d, result) := (← get).makeFolders p
  set d
  ofExcept wrap result

end DiskStep

end ScriptModules
