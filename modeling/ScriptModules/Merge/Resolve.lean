import ScriptModules.Graph.Cycle
import ScriptModules.Merge.Circular
import ScriptModules.Merge.Combine

/-!
# Resolution

A pass folds assigning files into owners, when asked to, and files that import each other
together. One pass can bring up new pairs; with `fixpoint` passes go on until one merges nothing
or the cap is reached. Every pass but the last removes a file, so there are never more passes
than files (and one pass when there are none). What import cycles remain is reported.
-/

namespace ScriptModules

/-- How files are to be folded together. -/
structure ResolveOptions where
  /-- Fold files that assign a name into its owner? -/
  combine : Bool
  /-- Go on until nothing changes? -/
  fixpoint : Bool
  /-- The cap on passes. -/
  maxPasses : Int
  /-- The size over which a file is mentioned. -/
  maxSize : Option Int
  deriving DecidableEq, Repr

/-- One pass, without `combine`, and no limits. -/
def ResolveOptions.default : ResolveOptions := ⟨false, false, 10, none⟩

/-- What a resolution did. -/
structure Resolution where
  assignmentMerges : Nat
  circularMerges : Nat
  passes : Nat
  /-- The import cycles that are left. -/
  residual : List (List String)
  deriving DecidableEq, Repr

/-- The merges of both kinds. -/
def Resolution.mergeCount (r : Resolution) : Nat := r.assignmentMerges + r.circularMerges

/-- The counts after one more pass. -/
def Resolution.count (r : Resolution) (assignment circular : Nat) : Resolution :=
  { r with
    assignmentMerges := r.assignmentMerges + assignment
    circularMerges := r.circularMerges + circular
    passes := r.passes + 1 }

/-- Why cycles cannot be put in order. -/
inductive OrderFault where
  | walk (fault : WalkFault)
  /-- A node of a cycle is no file. -/
  | unknownFile (key : String)
  /-- A cycle has no first node. -/
  | emptyCycle

/-- Sorts by numbers that are looked up for all items first. -/
def sortedBy {α : Type} (rank : α → Except OrderFault Nat) (l : List α) :
    Except OrderFault (List α) := do
  let ranked ← l.mapM fun a => (rank a).map fun n => (n, a)
  return (ranked.mergeSort fun x y => x.1 ≤ y.1).map Prod.snd

namespace State

/-- The position of a file; a key that is no file has none. -/
def position? (s : State) (key : String) : Except OrderFault Nat :=
  if key ∈ s.files.keys then .ok (s.position key) else .error (.unknownFile key)

/-- The position of the first file of a cycle. -/
def firstPosition? (s : State) : List String → Except OrderFault Nat
  | [] => .error .emptyCycle
  | key :: _ => s.position? key

/-- The import cycles of a state, each in file order, by the position of their first files. -/
def residualCycles? (s : State) : Except OrderFault (List (List String)) := do
  let w ← s.importGraph.walk.mapError .walk
  let cycles ← w.cycles.mapM (sortedBy s.position?)
  sortedBy s.firstPosition? cycles

/-- The import cycles of a state. They can always be put in order. -/
def residualCycles (s : State) : List (List String) :=
  match s.residualCycles? with
  | .ok cycles => cycles
  | .error _ => []

/-- One pass. The result counts the merges of both kinds. -/
def pass (combine : Bool) (s : State) : Logged (State × Nat × Nat) := do
  let (s, assignment) ← if combine then s.combine else pure (s, 0)
  let (s, circular) ← s.joinCircular
  return (s, assignment, circular)

/-- One more pass, whose counts are added to those in `r`. The answer also tells whether another
pass is to follow. -/
def nextPass (o : ResolveOptions) (s : State) (r : Resolution) :
    Logged (State × Resolution × Bool) := do
  let (s, assignment, circular) ← s.pass o.combine
  let r := r.count assignment circular
  if !o.fixpoint || assignment + circular = 0 then return (s, r, false)
  else if (r.passes : Int) ≥ o.maxPasses then do
    Logged.tell (.stopped r.passes)
    return (s, r, false)
  else return (s, r, true)

/-- Runs passes, at most `fuel` more after the next; the counts so far are in `r`. -/
def passes (o : ResolveOptions) : (fuel : Nat) → State → Resolution → Logged (State × Resolution)
  | 0, s, r => do
    let (s, r, _) ← s.nextPass o r
    return (s, r)
  | fuel + 1, s, r => do
    let (s, r, more) ← s.nextPass o r
    if more then passes o fuel s r else return (s, r)

/-- The files that are over the limit, with their sizes in bytes. -/
def oversized (s : State) (limit : Int) : List (String × Nat) :=
  (s.files.entries.map fun e => (e.1, e.2.utf8ByteSize)).filter fun e => (e.2 : Int) > limit

/-- What is said at the end of a resolution: the cycles that are left, the files over the limit,
and the counts. -/
def closingNotices (s : State) (o : ResolveOptions) (r : Resolution) : List Notice :=
  r.residual.map .unresolved ++
    (match o.maxSize with
      | none => []
      | some limit => (s.oversized limit).map fun e => .oversized e.1 e.2 limit) ++
    [.resolved r.mergeCount r.passes]

/-- Folds files together and reports the cycles that are left. -/
def resolve (s : State) (o : ResolveOptions) : Logged (State × Resolution) := do
  let (s, r) ← passes o s.files.size s ⟨0, 0, 0, []⟩
  let r := { r with residual := s.residualCycles }
  ⟨(s, r), s.closingNotices o r⟩

end State

end ScriptModules
