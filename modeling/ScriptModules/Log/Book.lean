import ScriptModules.Data.Table
import ScriptModules.Log.Level

/-!
# Log channels

Diagnostics go through named channels. Names are dotted, and a channel lies below the channels
whose names its own extends (`LogBook.above`); all lie below the root. A channel may have a level
and handlers. A record passes when it is at least as urgent as the level of its channel, or of the
nearest one above that has a level; then every handler of the channel and of those above gets it
and goes by its own level. Without any handler, records from warnings on are shown bare.

A `LogBook` is the state of all channels, with the texts of the log files.
-/

namespace ScriptModules

/-- Where a handler puts its lines. -/
inductive Sink where
  | console
  | file (path : String)
  deriving DecidableEq, Repr

/-- Shows the records that are at least as urgent as its level. -/
structure Handler where
  sink : Sink
  level : Level
  deriving DecidableEq, Repr

/-- A channel for records. -/
structure Channel where
  level : Option Level
  handlers : List Handler
  deriving DecidableEq, Repr

/-- Something that is told through a channel. -/
structure Record where
  channel : String
  level : Level
  message : String
  deriving DecidableEq, Repr

/-- The line of a record on the console. -/
def Record.consoleLine (r : Record) : String := r.level.name ++ ": " ++ r.message ++ "\n"

/-- The line of a record in a log file. -/
def Record.fileLine (time : String) (r : Record) : String :=
  " - ".intercalate [time, r.channel, r.level.name, r.message] ++ "\n"

/-- The name of the channel above all others. -/
def rootChannel : String := "root"

/-- The channel above those of the program. -/
def programChannel : String := "modulize"

/-- The channel of a part of the program. -/
def partChannel (part : String) : String :=
  if part = programChannel || part.startsWith (programChannel ++ ".") then part
  else programChannel ++ "." ++ part

/-- The name under which a channel is kept: the empty name means the root. -/
def channelName (name : String) : String := if name = "" then rootChannel else name

/-- The parts of a reversed name before its dots, longest first. The character after a dot is
passed over, so of two dots in a row the first is no separator. -/
def partsBefore : List Char → List (List Char)
  | [] => []
  | [_] => []
  | '.' :: c :: rest => (c :: rest) :: partsBefore rest
  | _ :: rest => partsBefore rest

/-- The names that a dotted name extends, longest first. -/
def extendedNames (name : String) : List String :=
  (partsBefore name.toList.reverse).map fun cs => String.ofList cs.reverse

/-- All channels that were mentioned, and the log files. -/
structure LogBook where
  channels : Table Channel
  /-- The texts of the log files. -/
  files : Table String

namespace LogBook

/-- No channels and no files. -/
def empty : LogBook := ⟨.empty, .empty⟩

/-- A channel: at first it has no level and no handlers, but the root shows warnings. -/
def channel (b : LogBook) (name : String) : Channel :=
  (b.channels.get? name).getD ⟨if name = rootChannel then some .warning else none, []⟩

/-- Notes that a channel was mentioned. -/
def mention (b : LogBook) (name : String) : LogBook :=
  if b.channels.contains name then b
  else { b with channels := b.channels.insert name (b.channel name) }

/-- Changes a channel. -/
def modify (b : LogBook) (name : String) (f : Channel → Channel) : LogBook :=
  { b with channels := b.channels.insert name (f (b.channel name)) }

/-- The channels above one, nearest first, up to `n` of them; the root is left out. -/
def aboveUpTo (b : LogBook) : (n : Nat) → String → List String
  | 0, _ => []
  | n + 1, name =>
    match (extendedNames name).find? b.channels.contains with
    | some parent => parent :: aboveUpTo b n parent
    | none => []

/-- The channels above one, nearest first. Each name is shorter than the one before. -/
def above (b : LogBook) (name : String) : List String :=
  if name = rootChannel then [] else b.aboveUpTo name.length name ++ [rootChannel]

/-- The channel itself and those above it. -/
def line (b : LogBook) (name : String) : List Channel := (name :: b.above name).map b.channel

/-- The level that counts for a channel. -/
def effectiveLevel (b : LogBook) (name : String) : Nat :=
  (((b.line name).findSome? (·.level)).map Level.number).getD 0

/-- Adds a handler to a channel; a log file is made when it is absent. -/
def addHandler (b : LogBook) (name : String) (h : Handler) : LogBook :=
  let b := b.modify name fun c => { c with handlers := c.handlers ++ [h] }
  match h.sink with
  | .console => b
  | .file path =>
    if b.files.contains path then b else { b with files := b.files.insert path "" }

/-- Sets the level of a channel and of its console handlers. -/
def setLevel (b : LogBook) (name : String) (level : Level) : LogBook :=
  b.modify name fun c =>
    { level := some level
      handlers := c.handlers.map fun h => if h.sink = .console then { h with level } else h }

/-- Sets up a channel: its level, a console handler, and a handler for a log file when one is given
and the channel has none for any. -/
def setup (b : LogBook) (name : String) (level : Level) (file : Option String) : LogBook :=
  let before := (b.channel name).handlers
  let b := b.setLevel name level
  let b := if before.any (·.sink = .console) then b else b.addHandler name ⟨.console, level⟩
  match file with
  | none => b
  | some path =>
    if before.any (·.sink ≠ .console) then b else b.addHandler name ⟨.file path, .debug⟩

/-- Hands a record to a handler: the text on the console goes on with what it shows. -/
def handle (time : String) (r : Record) (acc : LogBook × String) (h : Handler) : LogBook × String :=
  if r.level.number < h.level.number then acc
  else match h.sink with
    | .console => (acc.1, acc.2 ++ r.consoleLine)
    | .file path =>
      ({ acc.1 with files := acc.1.files.modify path (· ++ r.fileLine time) }, acc.2)

/-- Tells a record. The result holds what the console shows. -/
def tell (b : LogBook) (time : String) (r : Record) : LogBook × String :=
  if r.level.number < b.effectiveLevel r.channel then (b, "")
  else match (b.line r.channel).flatMap (·.handlers) with
    | [] => (b, if r.level.number < Level.warning.number then "" else r.message ++ "\n")
    | handlers => handlers.foldl (handle time r) (b, "")

end LogBook

end ScriptModules
