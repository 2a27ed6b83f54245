import ScriptModules.Config.Coercion
import ScriptModules.Emit.Document
import ScriptModules.Merge.Resolve

/-!
# The report of a run

The final tables and journals as a document: sets sorted, the rest in table order. An entry of the
merge journal that was not checked before is checked here.
-/

namespace ScriptModules

/-- The name of a merge reason. -/
def MergeReason.name : MergeReason → String
  | .assignment => "assignment"
  | .circular => "circular"

/-- The merge reason with this name. -/
def MergeReason.ofName? (s : String) : Option MergeReason :=
  [MergeReason.assignment, .circular].find? (·.name = s)

namespace Report

/-- Reads a text out of a field. -/
def textField (rules : Coercion) (name : String) (v : Value) : Except (List Problem) String :=
  (rules.text v).mapError fun kind => [⟨[.key name], kind⟩]

/-- Reads a text that may be absent out of a field. -/
def optionalField (rules : Coercion) (name : String) :
    Value → Except (List Problem) (Option String)
  | .null => .ok none
  | v => (textField rules name v).map some

/-- Reads a merge reason out of a field. -/
def reasonField (name : String) : Value → Except (List Problem) MergeReason
  | .text s =>
    match MergeReason.ofName? s with
    | some r => .ok r
    | none => .error [⟨[.key name], .unknownChoice⟩]
  | _ => .error [⟨[.key name], .unknownChoice⟩]

/-- The problems of a result, if it is none. -/
def problemsOf {α : Type} : Except (List Problem) α → List Problem
  | .ok _ => []
  | .error ps => ps

/-- Checks an entry of the merge journal. -/
def checkMerge (rules : Coercion) : MergeRecord → Except (List Problem) Merge
  | .merged m => .ok m
  | .unchecked survivor retired reason symbol =>
    match textField rules "survivor" survivor, textField rules "retired" retired,
        reasonField "reason" reason, optionalField rules "symbol" symbol with
    | .ok survivor, .ok retired, .ok reason, .ok symbol =>
      .ok ⟨survivor, retired, reason, symbol⟩
    | a, b, c, d => .error (problemsOf a ++ problemsOf b ++ problemsOf c ++ problemsOf d)

/-- Texts as an array. -/
def texts (l : List String) : Document := .array (l.map .text)

/-- A text that may be absent. -/
def optional : Option String → Document
  | none => .null
  | some s => .text s

/-- A symbol with its sets sorted. -/
def symbolDocument (e : SymbolEntry) : Document :=
  .object [
    ("definition", optional e.definition),
    ("assignments", texts (sorted e.assignments.items)),
    ("references", texts (sorted e.references.items))]

/-- A merge. -/
def mergeDocument (m : Merge) : Document :=
  .object [
    ("survivor", .text m.survivor),
    ("retired", .text m.retired),
    ("reason", .text m.reason.name),
    ("symbol", optional m.symbol)]

/-- The report of a state, and of the resolution that led to it. -/
def document (rules : Coercion) (s : State) (r : Option Resolution) :
    Except (List Problem) Document := do
  let merges ← s.merges.mapM (checkMerge rules)
  return .object [
    ("files", texts s.files.keys),
    ("symbols", .object (s.symbols.entries.map fun e => (e.1, symbolDocument e.2))),
    ("merges", .array (merges.map mergeDocument)),
    ("renames", .array (s.renames.map fun e =>
      .object [("from", .text e.1), ("to", .text e.2)])),
    ("skipped", texts s.skipped),
    ("purged", texts s.purged),
    ("symbol_count", .number s.symbols.size),
    ("file_count", .number s.files.size),
    ("passes", .number ((r.map (·.passes)).getD 0)),
    ("residual_cycles", .array (((r.map (·.residual)).getD []).map texts))]

/-- The text of the report. -/
def text (rules : Coercion) (s : State) (r : Option Resolution) :
    Except (List Problem) String :=
  (document rules s r).map Document.render

end Report

end ScriptModules
