import ScriptModules.Log.Level

/-!
# Notices

Everything that a run reports on the way, as data. `level` and `message` say how a notice is shown;
no result of a run depends on either.
-/

namespace ScriptModules

/-- Something worth telling about a run. -/
inductive Notice where
  | processing (root : String)
  | reading (path : String)
  | renaming (path claimed : String)
  | numbering (index : Int) (key claimed : String)
  | redeclared (name key existing owner : String)
  | assigned (name key : String)
  | undecodable (path fault : String)
  | unparsable (path fault excerpt : String)
  | divided (path : String) (count : Nat)
  | purged (count : Nat)
  | purgedNames (names : List String)
  | found (symbols files : Nat)
  | renamed (count : Nat)
  | symbolNames (names : List String)
  | nothingToMerge (retired survivor : String)
  | remapped (count : Nat)
  | combining (retired survivor symbol : String)
  | joining (later earlier : String)
  | stopped (passes : Nat)
  | unresolved (cycle : List String)
  | oversized (key : String) (size : Nat) (limit : Int)
  | resolved (merges passes : Nat)
  | wrote (path : String)
  | wroteIndex (path : String)
  | wroteReport (path : String)
  deriving DecidableEq, Repr

namespace Notice

/-- How urgent a notice is. -/
def level : Notice → Level
  | .processing _ => .info
  | .reading _ => .debug
  | .renaming _ _ => .debug
  | .numbering _ _ _ => .debug
  | .redeclared _ _ _ _ => .error
  | .assigned _ _ => .info
  | .undecodable _ _ => .error
  | .unparsable _ _ _ => .error
  | .divided _ _ => .debug
  | .purged _ => .info
  | .purgedNames _ => .debug
  | .found _ _ => .info
  | .renamed _ => .info
  | .symbolNames _ => .debug
  | .nothingToMerge _ _ => .debug
  | .remapped _ => .debug
  | .combining _ _ _ => .info
  | .joining _ _ => .info
  | .stopped _ => .warning
  | .unresolved _ => .warning
  | .oversized _ _ _ => .debug
  | .resolved _ _ => .info
  | .wrote _ => .debug
  | .wroteIndex _ => .info
  | .wroteReport _ => .info

/-- The text of a notice. -/
def message : Notice → String
  | .processing root => s!"Processing {root}"
  | .reading path => s!"Reading {path}"
  | .renaming path claimed => s!"Renaming duplicate {path} to {claimed}"
  | .numbering index key claimed => s!"Numbering partition {index} of {key} as {claimed}"
  | .redeclared name key existing owner =>
    s!"Name {name} in {key} already declared in {existing}; {owner} keeps it"
  | .assigned name key => s!"Found global assignment to {name} in {key}"
  | .undecodable path fault => s!"Cannot decode {path} as UTF-8: {fault}"
  | .unparsable path fault excerpt => s!"Parse error in {path}: {fault}\n{excerpt}"
  | .divided path count => s!"Split {path} into {count} partitions"
  | .purged count => s!"Removed {count} global symbols"
  | .purgedNames names => "Removed global symbols were " ++ ", ".intercalate names
  | .found symbols files => s!"Found {symbols} symbols in {files} files"
  | .renamed count => s!"Renamed {count} files"
  | .symbolNames names => "Symbols are " ++ ", ".intercalate names
  | .nothingToMerge retired survivor => s!"Nothing to merge for {retired} into {survivor}"
  | .remapped count => s!"Remapped {count} references to combined file"
  | .combining retired survivor symbol =>
    s!"Combining {retired} into {survivor} because of symbol {symbol}"
  | .joining later earlier => s!"Combining {later} into {earlier} because they import each other"
  | .stopped passes => s!"Stopped resolving after {passes} passes; merges were still happening"
  | .unresolved cycle => "Unresolved import cycle: " ++ " -> ".intercalate cycle
  | .oversized key size limit => s!"{key} is {size} bytes, over the {limit} byte limit"
  | .resolved merges passes => s!"Performed {merges} merges in {passes} passes"
  | .wrote path => s!"Wrote {path}"
  | .wroteIndex path => s!"Wrote index file {path}"
  | .wroteReport path => s!"Wrote report {path}"

/-- The line shown for a notice. -/
def line (n : Notice) : String := n.level.name ++ ": " ++ n.message

end Notice

/-- The lines of the notices that are at least as urgent as `least`. -/
def linesFrom (least : Level) (notices : List Notice) : List String :=
  (notices.filter fun n => least.number ≤ n.level.number).map Notice.line

end ScriptModules
