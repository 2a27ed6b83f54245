import ScriptModules.Config.Value

/-!
# The tables of a TOML document

A document is made of sections, each opened by a header. A table is defined by its own header or by
dotted keys, and may be implied before by the header of a table inside it. It is defined in one
section: a header cannot define it again, and dotted keys reach into it only in that section. An
array of tables grows by headers, and what is said of its name is said of its last table.
-/

namespace ScriptModules.Toml

/-- What a name stands for. -/
inductive Item where
  /-- A written value, to which nothing can be added. -/
  | value (v : Value)
  /-- A table with the number of the section that defines it. -/
  | table (home : Option Nat) (entries : List (String × Item))
  /-- An array of tables, of which only the last can grow. -/
  | tables (earlier : List Value) (last : List (String × Item))

/-- The names of a table with what they stand for. -/
abbrev Items := List (String × Item)

mutual

/-- The value of an item. -/
def Item.toValue : Item → Value
  | .value v => v
  | .table _ entries => .table (Items.toValues entries)
  | .tables earlier last => .list (earlier ++ [.table (Items.toValues last)])

/-- The values of a table's names. -/
def Items.toValues : List (String × Item) → List (String × Value)
  | [] => []
  | (name, item) :: rest => (name, item.toValue) :: Items.toValues rest

end

namespace Items

/-- Lets a name stand for an item. -/
def set (name : String) (item : Item) : Items → Items
  | [] => [(name, item)]
  | (n, x) :: rest => if n = name then (n, item) :: rest else (n, x) :: set name item rest

/-- Changes the table that a chain of names leads to; absent tables on the way are implied. -/
def update (f : Items → Option Items) : List String → Items → Option Items
  | [], items => f items
  | name :: rest, items =>
    match items.lookup name with
    | none => do return items.set name (.table none (← update f rest []))
    | some (.table home inner) => do return items.set name (.table home (← update f rest inner))
    | some (.tables earlier last) => do
      return items.set name (.tables earlier (← update f rest last))
    | some (.value _) => none

/-- Defines a table in a section. -/
def define (chapter : Nat) (name : String) (items : Items) : Option Items :=
  match items.lookup name with
  | none => some (items.set name (.table (some chapter) []))
  | some (.table none inner) => some (items.set name (.table (some chapter) inner))
  | some _ => none

/-- Adds a table to an array of tables. -/
def extend (name : String) (items : Items) : Option Items :=
  match items.lookup name with
  | none => some (items.set name (.tables [] []))
  | some (.tables earlier last) =>
    some (items.set name (.tables (earlier ++ [.table (toValues last)]) []))
  | some _ => none

/-- Gives a value to a dotted key in a section; the tables on the way are defined there. -/
def assign (chapter : Nat) (v : Value) : List String → Items → Option Items
  | [], _ => none
  | [name], items =>
    match items.lookup name with
    | none => some (items.set name (.value v))
    | some _ => none
  | name :: rest, items =>
    match items.lookup name with
    | none => do return items.set name (.table (some chapter) (← assign chapter v rest []))
    | some (.table home inner) =>
      if home = none ∨ home = some chapter then do
        return items.set name (.table (some chapter) (← assign chapter v rest inner))
      else none
    | some _ => none

end Items

end ScriptModules.Toml
