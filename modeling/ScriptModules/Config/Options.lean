import ScriptModules.Config.Coercion
import ScriptModules.Link.Define

/-!
# Conversion options

The options of a conversion, read from configuration data by any rules for single values. An option
is found under its name or under a second spelling, which wins when both are there. Reading does not
stop at the first problem: `Options.ofValue` gives the options, or all that is wrong with the data.
`Options.toValue` writes options in the form in which they are read back.
-/

namespace ScriptModules

/-- The options of a conversion. -/
structure Options where
  /-- The output folder; without one nothing is written. -/
  dest : Option String
  /-- The size in bytes to keep files under. -/
  maxSize : Option Int
  stripComments : Bool
  /-- Are files renamed whose name another file or folder has, without regard to case? -/
  renameDups : Bool
  /-- Are files that assign a name folded into its owner? -/
  combine : Bool
  /-- The name of the aggregator. -/
  index : String
  /-- The input files in order; none means to look for them. -/
  files : List String
  /-- The suffixes of input files. -/
  extensions : List String
  /-- Patterns of which an input file has to match one, if there are any. -/
  included : List String
  /-- Patterns that an input file must not match. -/
  excluded : List String
  /-- Do ignore files below the root count? -/
  nestedIgnore : Bool
  duplicates : DuplicatePolicy
  /-- Do passes go on until nothing changes? -/
  fixpoint : Bool
  maxPasses : Int
  /-- Where the report goes, if one is written. -/
  report : Option String
  verbose : Bool
  debug : Bool
  deriving DecidableEq, Repr

/-- The options when nothing is configured. -/
def Options.default : Options :=
  { dest := none, maxSize := none, stripComments := false, renameDups := false, combine := false,
    index := "index.js", files := [], extensions := [".js"], included := [], excluded := [],
    nestedIgnore := false, duplicates := .last, fixpoint := false, maxPasses := 10, report := none,
    verbose := false, debug := false }

/-! ## Reading single values -/

/-- Reads one value: what it means, or what is wrong with it or with parts of it. -/
abbrev ValueReader (α : Type) := Value → Except (List Problem) α

/-- A value that is wrong as a whole. -/
def wrong {α : Type} (kind : ProblemKind) : Except (List Problem) α := .error [⟨[], kind⟩]

/-- Reads a value that is right or wrong as a whole. -/
def readWhole {α : Type} (read : Value → Except ProblemKind α) : ValueReader α := fun v =>
  (read v).mapError fun kind => [⟨[], kind⟩]

/-- Reads a whole number that passes a test, or else has the given problem. -/
def readIntThat (rules : Coercion) (test : Int → Bool) (kind : ProblemKind) : ValueReader Int :=
  fun v => do
    let n ← readWhole rules.int v
    if test n then return n else wrong kind

/-- Reads a value that may be absent. -/
def readOptional {α : Type} (read : ValueReader α) : ValueReader (Option α)
  | .null => .ok none
  | v => (read v).map some

/-- Reads items as texts from the index `i` on. -/
def readItems (rules : Coercion) : (i : Nat) → List Value → Except (List Problem) (List String)
  | _, [] => .ok []
  | i, v :: vs =>
    match rules.text v, readItems rules (i + 1) vs with
    | .ok s, .ok rest => .ok (s :: rest)
    | .ok _, .error ps => .error ps
    | .error kind, .ok _ => .error [⟨[.index i], kind⟩]
    | .error kind, .error ps => .error (⟨[.index i], kind⟩ :: ps)

/-- Reads a list of texts. -/
def readTexts (rules : Coercion) : ValueReader (List String) := fun v => do
  readItems rules 0 (← readWhole rules.items v)

/-- A suffix with the dot that it starts with. -/
def dotted (s : String) : String := if s.startsWith "." then s else "." ++ s

/-- An item with a dot before it, if it is a text. -/
def dottedItem : Value → Value
  | .text s => .text (dotted s)
  | v => v

/-- A list with dots before its texts. Data of other kinds is left to the reader. -/
def dottedItems : Value → Value
  | .list items => .list (items.map dottedItem)
  | v => v

/-- Reads a list of suffixes, whose dots may be left out. -/
def readSuffixes (rules : Coercion) : ValueReader (List String) := fun v =>
  readTexts rules (dottedItems v)

/-- Is the text the name of a file below a folder? -/
def isInnerName (s : String) : Bool :=
  s ≠ "" && !s.startsWith "/" && !s.startsWith "~" && !(Path.ofString s).parts.contains ".."

/-- Reads the name of the aggregator. -/
def readIndex (rules : Coercion) : ValueReader String := fun v => do
  let s ← readWhole rules.text v
  if isInnerName s then return s else wrong .badValue

/-- Reads a duplicate policy. -/
def readPolicy : ValueReader DuplicatePolicy
  | .text s =>
    match DuplicatePolicy.ofName? s with
    | some p => .ok p
    | none => wrong .unknownChoice
  | _ => wrong .unknownChoice

/-! ## Reading all options -/

/-- A value, and what is wrong with the data that it was read from. -/
structure Checked (α : Type) where
  value : α
  problems : List Problem

instance : Monad Checked where
  pure a := ⟨a, []⟩
  bind x f := ⟨(f x.value).value, x.problems ++ (f x.value).problems⟩

/-- A configuration table. -/
abbrev Entries := List (String × Value)

/-- The first of the spellings under which there is an entry. -/
def spelling? (entries : Entries) (spellings : List String) : Option String :=
  spellings.find? fun s => (entries.lookup s).isSome

/-- Reads the entry under the first of the spellings that is there; `fallback` when none is. -/
def readEntry {α : Type} (entries : Entries) (spellings : List String) (fallback : α)
    (read : ValueReader α) : Checked α :=
  match spelling? entries spellings with
  | none => ⟨fallback, []⟩
  | some key =>
    match (entries.lookup key).map read with
    | some (.ok a) => ⟨a, []⟩
    | some (.error ps) => ⟨fallback, ps.map fun p => { p with place := .key key :: p.place }⟩
    | none => ⟨fallback, []⟩

namespace Options

/-- The spellings of each option, the one that wins first. -/
def spellings : List (List String) :=
  [["dest"], ["maxSize", "max_size"], ["stripComments", "strip_comments"],
    ["renameDups", "rename_dups"], ["combine"], ["indexjs"], ["files"], ["extensions"], ["include"],
    ["exclude"], ["nestedGitignore", "nested_gitignore"],
    ["duplicateDefinitions", "duplicate_definitions"], ["fixpoint"], ["maxPasses", "max_passes"],
    ["report"], ["verbose"], ["debug"]]

/-- The entries that spell no option, or one that another spelling gives. -/
def unknownKeys (entries : Entries) : List Problem :=
  let used := spellings.filterMap (spelling? entries)
  (entries.filter fun e => !used.contains e.1).map fun e => ⟨[.key e.1], .unknownKey⟩

/-- Reads the options of a table, with all problems. -/
def check (rules : Coercion) (entries : Entries) : Checked Options := do
  let readBool := readWhole rules.bool
  let readText := readWhole rules.text
  let d := Options.default
  let dest ← readEntry entries ["dest"] d.dest (readOptional readText)
  let maxSize ← readEntry entries ["maxSize", "max_size"] d.maxSize
    (readOptional (readIntThat rules (0 < ·) .tooSmall))
  let stripComments ← readEntry entries ["stripComments", "strip_comments"] d.stripComments readBool
  let renameDups ← readEntry entries ["renameDups", "rename_dups"] d.renameDups readBool
  let combine ← readEntry entries ["combine"] d.combine readBool
  let index ← readEntry entries ["indexjs"] d.index (readIndex rules)
  let files ← readEntry entries ["files"] d.files (readTexts rules)
  let extensions ← readEntry entries ["extensions"] d.extensions (readSuffixes rules)
  let included ← readEntry entries ["include"] d.included (readTexts rules)
  let excluded ← readEntry entries ["exclude"] d.excluded (readTexts rules)
  let nestedIgnore ←
    readEntry entries ["nestedGitignore", "nested_gitignore"] d.nestedIgnore readBool
  let duplicates ← readEntry entries ["duplicateDefinitions", "duplicate_definitions"] d.duplicates
    readPolicy
  let fixpoint ← readEntry entries ["fixpoint"] d.fixpoint readBool
  let maxPasses ← readEntry entries ["maxPasses", "max_passes"] d.maxPasses
    (readIntThat rules (1 ≤ ·) .below)
  let report ← readEntry entries ["report"] d.report (readOptional readText)
  let verbose ← readEntry entries ["verbose"] d.verbose readBool
  let debug ← readEntry entries ["debug"] d.debug readBool
  return { dest, maxSize, stripComments, renameDups, combine, index, files, extensions, included,
           excluded, nestedIgnore, duplicates, fixpoint, maxPasses, report, verbose, debug }

/-- The options of a table, or all that is wrong with it. -/
def ofEntries (rules : Coercion) (entries : Entries) : Except (List Problem) Options :=
  let checked := check rules entries
  match checked.problems ++ unknownKeys entries with
  | [] => .ok checked.value
  | problems => .error problems

/-- The options that a piece of data stands for, or all that is wrong with it. -/
def ofValue (rules : Coercion) : ValueReader Options
  | .table entries => ofEntries rules entries
  | _ => wrong .notATable

/-- An optional value as data. -/
def optional {α : Type} (f : α → Value) : Option α → Value
  | none => .null
  | some a => f a

/-- A list of texts as data. -/
def texts (l : List String) : Value := .list (l.map .text)

/-- Options as a table. -/
def toEntries (o : Options) : Entries :=
  [("dest", optional .text o.dest), ("max_size", optional .int o.maxSize),
    ("strip_comments", .bool o.stripComments), ("rename_dups", .bool o.renameDups),
    ("combine", .bool o.combine), ("indexjs", .text o.index), ("files", texts o.files),
    ("extensions", texts o.extensions), ("include", texts o.included),
    ("exclude", texts o.excluded), ("nested_gitignore", .bool o.nestedIgnore),
    ("duplicate_definitions", .text o.duplicates.name), ("fixpoint", .bool o.fixpoint),
    ("max_passes", .int o.maxPasses), ("report", optional .text o.report),
    ("verbose", .bool o.verbose), ("debug", .bool o.debug)]

/-- Options as data. -/
def toValue (o : Options) : Value := .table o.toEntries

end Options

end ScriptModules
