import ScriptModules.Link.Define
import ScriptModules.Names.Registry
import ScriptModules.Source.Partition
import ScriptModules.Source.Strip

/-!
# Taking in scripts

A script is decoded, parsed, freed of its comments when asked to, and cut into parts; each part
then becomes a file of the state. All of that up to the parts is decided before the tables change
(`parts`), so a script that does not parse leaves nothing behind but its name in the list of
skipped ones.
-/

namespace ScriptModules

/-- How scripts are taken in. -/
structure IngestOptions where
  /-- Are comments removed? -/
  strip : Bool
  /-- The size to keep parts under. -/
  maxSize : Option Int
  policy : DuplicatePolicy
  deriving DecidableEq, Repr

/-- A script to be taken in. -/
structure Input where
  /-- Where it was read from. -/
  path : String
  /-- Its path below the source root. -/
  name : String
  content : ByteArray

/-- Why a script is left out. -/
inductive SkipReason where
  | undecodable (fault : Utf8.Fault)
  | unparsable (fault : SyntaxFault)
  deriving DecidableEq, Repr

/-- What is said about a script that is left out. -/
def SkipReason.notice (name : String) : SkipReason → Notice
  | .undecodable fault => .undecodable name fault.message
  | .unparsable fault => .unparsable name fault.message fault.excerpt

/-- The byte order mark that a text may start with. -/
def byteOrderMark : List UInt8 := [0xEF, 0xBB, 0xBF]

/-- The bytes without a byte order mark at their start. -/
def withoutMark (content : ByteArray) : ByteArray :=
  if (content.extract 0 byteOrderMark.length).data.toList = byteOrderMark then
    content.extract byteOrderMark.length content.size
  else content

/-- A part of a script with its tree. -/
structure Part where
  source : ByteArray
  root : Node

/-- Parses a piece of a script. -/
def parsePart (parser : Parser) (source : ByteArray) : Except SkipReason Part :=
  match parser source with
  | .ok root => .ok ⟨source, root⟩
  | .error fault => .error (.unparsable fault)

/-- A part without its comments. -/
def Part.stripped (parser : Parser) (p : Part) : Except SkipReason Part :=
  if p.root.comments = [] then .ok p else parsePart parser (strip p.source p.root.comments)

/-- The parts of a script, or why it is left out. -/
def parts (parser : Parser) (o : IngestOptions) (content : ByteArray) :
    Except SkipReason (List Part) := do
  let source := withoutMark content
  match Utf8.decode source with
  | .error fault => throw (.undecodable fault)
  | .ok _ =>
    let whole ← parsePart parser source
    let whole ← if o.strip then whole.stripped parser else pure whole
    match boundaries whole.source whole.root.units o.maxSize with
    | [_] => return [whole]
    | bounds => (pieces whole.source bounds).mapM (parsePart parser)

/-- The tables and the output names of a conversion in progress. -/
structure Linkage where
  state : State
  registry : Registry

namespace State

/-- Adds a part of the script `name` as the file `key`. -/
def addPart (s : State) (policy : DuplicatePolicy) (key name : String) (p : Part) :
    Logged (Outcome State Unit) :=
  match Utf8.decode p.source with
  | .error fault => pure (s, .error (.undecodable fault))
  | .ok text =>
    match Scope.ofSource p.source p.root with
    | .ok a => s.addPartition policy key text name a
    | .error fault =>
      if s.files.contains key then pure (s, .error (.keyClash key name))
      else pure (s.place key text name, .error (.undecodable fault))

end State

namespace Linkage

/-- The key of the part `index` of a script whose first part has the key `key`. -/
def partKey (l : Linkage) (key : String) (index : Nat) :
    Logged (Linkage × Except PathFault String) :=
  if index = 0 then pure (l, .ok key)
  else do
    let (registry, claimed) ← l.registry.claimPart key index l.state.files.keys
    return ({ l with registry }, claimed)

/-- Adds the parts of a script from the part `index` on; the result is their keys. -/
def addParts (o : IngestOptions) (name key : String) :
    (index : Nat) → List Part → Linkage → Logged (Outcome Linkage (List String))
  | _, [], l => pure (l, .ok [])
  | index, p :: ps, l => do
    match ← l.partKey key index with
    | (l, .error fault) => return (l, .error (.unnamable fault))
    | (l, .ok partKey) =>
      match ← l.state.addPart o.policy partKey name p with
      | (state, .error fault) => return ({ l with state }, .error fault)
      | (state, .ok ()) =>
        let (l, rest) ← addParts o name key (index + 1) ps { l with state }
        return (l, rest.map (partKey :: ·))

/-- Notes that a script is left out. -/
def skip (l : Linkage) (name : String) : Linkage :=
  { l with state := { l.state with skipped := l.state.skipped ++ [name] } }

/-- Takes in one script; the result is the keys of its files, none when it is left out. -/
def ingest (parser : Parser) (o : IngestOptions) (l : Linkage) (i : Input) :
    Logged (Outcome Linkage (List String)) := do
  let (registry, claimed) ← l.registry.claim i.name l.state.files.keys
  let l := { l with registry }
  match claimed with
  | .error fault => return (l, .error (.unnamable fault))
  | .ok key =>
    match parts parser o i.content with
    | .error reason =>
      Logged.tell (reason.notice i.name)
      return (l.skip i.name, .ok [])
    | .ok ps =>
      let (l, keys) ← addParts o i.name key 0 ps l
      match keys with
      | .ok keys =>
        if 1 < keys.length then Logged.tell (.divided i.name keys.length)
        return (l, .ok keys)
      | .error fault => return (l, .error fault)

/-- Takes in scripts one after the other, up to the first that fails. -/
def ingestAll (parser : Parser) (o : IngestOptions) :
    List Input → Linkage → Logged (Outcome Linkage Unit)
  | [], l => pure (l, .ok ())
  | i :: rest, l => do
    Logged.tell (.reading i.path)
    match ← l.ingest parser o i with
    | (l, .ok _) => ingestAll parser o rest l
    | (l, .error fault) => return (l, .error fault)

end Linkage

/-- The tables of a list of scripts, and the registry that named their files. -/
def link (parser : Parser) (o : IngestOptions) (registry : Registry) (inputs : List Input) :
    Logged (Except LinkFault Linkage) := do
  match ← Linkage.ingestAll parser o inputs ⟨.empty, registry⟩ with
  | (_, .error fault) => return .error fault
  | (l, .ok ()) =>
    let state := { l.state with renames := l.state.renames ++ l.registry.renames }
    let (state, _) ← state.purge
    return .ok { l with state }

end ScriptModules
