/-!
# Ordered tables

A `Table` maps names to values and remembers the order in which the names were first added. The
file table of a run is one (its order is the concatenation order of the scripts), and so is the
symbol table (its order is the order of first mention).

Every operation keeps the position of a name that is already there: `insert` of a present name
replaces its value in place, and only a new name goes to the end. No name occurs twice, which
`nodup` carries along.

Main statements:

* `keys_insert`: a present name keeps its place, a new one goes last;
* `keys_erase`, `keys_modify`, `keys_map`: what the other operations do to the order.
-/

namespace ScriptModules

/-- A finite map from names to values in insertion order. -/
structure Table (α : Type) where
  /-- The names with their values, in order of insertion. -/
  entries : List (String × α)
  /-- No name occurs twice. -/
  nodup : (entries.map Prod.fst).Nodup

namespace Table

variable {α β : Type}

/-- The table without names. -/
def empty : Table α := ⟨[], by simp⟩

instance : Inhabited (Table α) := ⟨empty⟩

instance : EmptyCollection (Table α) := ⟨empty⟩

/-- The names in order. -/
def keys (t : Table α) : List String := t.entries.map Prod.fst

/-- How many names the table holds. -/
def size (t : Table α) : Nat := t.entries.length

/-- Is `k` a name of the table? -/
def contains (t : Table α) (k : String) : Bool := t.keys.contains k

/-- The value of `k`, if `k` is a name of the table. -/
def get? (t : Table α) (k : String) : Option α := t.entries.lookup k

/-- Applies `f` to every value. -/
def map (t : Table α) (f : String → α → β) : Table β :=
  ⟨t.entries.map fun e => (e.1, f e.1 e.2), by
    have h := t.nodup
    simpa [Function.comp_def] using h⟩

/-- Applies `f` to the value of `k`, and does nothing when `k` is no name of the table. -/
def modify (t : Table α) (k : String) (f : α → α) : Table α :=
  t.map fun k' v => if k' = k then f v else v

/-- Keeps the entries that `p` accepts. -/
def filter (t : Table α) (p : String → α → Bool) : Table α :=
  ⟨t.entries.filter fun e => p e.1 e.2, by
    have h := t.nodup
    exact List.Pairwise.sublist (List.Sublist.map _ List.filter_sublist) h⟩

/-- Removes `k` with its value. -/
def erase (t : Table α) (k : String) : Table α := t.filter fun k' _ => k' ≠ k

/-- Gives `k` the value `v`: in place when `k` is there, else at the end. -/
def insert (t : Table α) (k : String) (v : α) : Table α :=
  if h : t.contains k then t.modify k fun _ => v
  else ⟨t.entries ++ [(k, v)], by
    have hk : k ∉ t.entries.map Prod.fst := by simpa [contains, keys] using h
    simp only [List.map_append, List.map_cons, List.map_nil]
    rw [List.nodup_append]
    refine ⟨t.nodup, by simp, ?_⟩
    intro a ha b hb
    simp only [List.mem_singleton] at hb
    subst hb
    exact fun e => hk (e ▸ ha)⟩

/-- The table that arises from inserting the pairs one after the other. -/
def ofList (l : List (String × α)) : Table α :=
  l.foldl (fun t e => t.insert e.1 e.2) empty

@[simp] theorem keys_empty : (empty : Table α).keys = [] := rfl

@[simp] theorem keys_map (t : Table α) (f : String → α → β) : (t.map f).keys = t.keys := by
  simp [keys, map, Function.comp_def]

@[simp] theorem keys_modify (t : Table α) (k : String) (f : α → α) :
    (t.modify k f).keys = t.keys := by
  simp [modify]

theorem keys_erase (t : Table α) (k : String) : (t.erase k).keys = t.keys.filter (· ≠ k) := by
  simp [keys, erase, filter, List.filter_map, Function.comp_def]

theorem keys_insert (t : Table α) (k : String) (v : α) :
    (t.insert k v).keys = if t.contains k then t.keys else t.keys ++ [k] := by
  unfold insert
  split
  · simp
  · simp [keys]

theorem contains_iff (t : Table α) (k : String) : t.contains k = true ↔ k ∈ t.keys := by
  simp [contains]

end Table

end ScriptModules
