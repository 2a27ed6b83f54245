/-!
# Sorting and grouping

Names are ordered by the code points of their characters. `sorted` lists names in that order and
`sortedOn` sorts by a number first; both are stable. `groupBy` collects items under a key and
keeps keys and members in the order in which they were first seen.
-/

namespace ScriptModules

/-- Is `a` at or before `b` in code point order? -/
def nameLe (a b : String) : Bool := decide (a ≤ b)

/-- The names in code point order. -/
def sorted (l : List String) : List String := l.mergeSort nameLe

/-- Sorts by a position, and names of one position by code point. -/
def sortedOn (pos : String → Nat) (l : List String) : List String :=
  l.mergeSort fun a b => decide (pos a < pos b) || (pos a == pos b && nameLe a b)

/-- Adds `v` to the group of `k`, which is opened at the end when there is none. -/
def addToGroup {κ β : Type} [BEq κ] (k : κ) (v : β) : List (κ × List β) → List (κ × List β)
  | [] => [(k, [v])]
  | (k', vs) :: rest =>
    if k' == k then (k', vs ++ [v]) :: rest else (k', vs) :: addToGroup k v rest

/-- Groups items by `key`, with keys and members in first-seen order. -/
def groupBy {κ β : Type} [BEq κ] (key : β → κ) (items : List β) : List (κ × List β) :=
  items.foldl (fun groups v => addToGroup (key v) v groups) []

end ScriptModules
