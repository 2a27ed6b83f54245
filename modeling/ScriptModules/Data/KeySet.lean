/-!
# Sets of file keys

A `KeySet` is a set of file keys, written as a list without repetitions. The order of the list
carries no meaning: whatever is shown of a set is sorted first, so two sets with the same members
are told apart by nothing that this library answers.

Main statements: `mem_insert`, `mem_erase`, `mem_union`, `mem_replace`.
-/

namespace ScriptModules

/-- A finite set of names, listed in some order. -/
structure KeySet where
  /-- The members, each once. -/
  items : List String
  /-- No member is listed twice. -/
  nodup : items.Nodup

namespace KeySet

/-- The set without members. -/
def empty : KeySet := ⟨[], by simp⟩

instance : Inhabited KeySet := ⟨empty⟩

instance : EmptyCollection KeySet := ⟨empty⟩

instance : Membership String KeySet := ⟨fun s k => k ∈ s.items⟩

instance (k : String) (s : KeySet) : Decidable (k ∈ s) :=
  inferInstanceAs (Decidable (k ∈ s.items))

/-- Is `k` a member? -/
def contains (s : KeySet) (k : String) : Bool := decide (k ∈ s)

/-- The set with `k` added. -/
def insert (s : KeySet) (k : String) : KeySet :=
  if h : k ∈ s.items then s
  else ⟨s.items ++ [k], by
    rw [List.nodup_append]
    refine ⟨s.nodup, by simp, ?_⟩
    intro a ha b hb
    simp only [List.mem_singleton] at hb
    subst hb
    exact fun e => h (e ▸ ha)⟩

/-- The members that `p` accepts. -/
def filter (s : KeySet) (p : String → Bool) : KeySet :=
  ⟨s.items.filter p, List.Pairwise.sublist List.filter_sublist s.nodup⟩

/-- The set with `k` removed. -/
def erase (s : KeySet) (k : String) : KeySet := s.filter (· ≠ k)

/-- The members of either set. -/
def union (s t : KeySet) : KeySet := t.items.foldl insert s

/-- The set with `new` in the place of `old`, when `old` is a member. -/
def replace (s : KeySet) (old new : String) : KeySet :=
  if old ∈ s then (s.erase old).insert new else s

/-- The set of the listed names. -/
def ofList (l : List String) : KeySet := l.foldl insert empty

theorem mem_def {k : String} {s : KeySet} : k ∈ s ↔ k ∈ s.items := Iff.rfl

@[simp] theorem contains_iff {s : KeySet} {k : String} : s.contains k = true ↔ k ∈ s := by
  simp [contains]

@[simp] theorem mem_insert {s : KeySet} {k a : String} : a ∈ s.insert k ↔ a ∈ s ∨ a = k := by
  unfold insert
  split
  · next h =>
    constructor
    · exact Or.inl
    · rintro (h' | rfl)
      · exact h'
      · exact h
  · simp [mem_def]

@[simp] theorem mem_filter {s : KeySet} {p : String → Bool} {a : String} :
    a ∈ s.filter p ↔ a ∈ s ∧ p a = true := by
  simp [mem_def, filter]

@[simp] theorem mem_erase {s : KeySet} {k a : String} : a ∈ s.erase k ↔ a ∈ s ∧ a ≠ k := by
  simp [erase]

theorem mem_foldl_insert {l : List String} {s : KeySet} {a : String} :
    a ∈ l.foldl insert s ↔ a ∈ s ∨ a ∈ l := by
  induction l generalizing s with
  | nil => simp
  | cons b l ih => simp [ih, or_assoc]

@[simp] theorem mem_union {s t : KeySet} {a : String} : a ∈ s.union t ↔ a ∈ s ∨ a ∈ t :=
  mem_foldl_insert

theorem mem_replace {s : KeySet} {old new a : String} :
    a ∈ s.replace old new ↔ (a ∈ s ∧ a ≠ old) ∨ (old ∈ s ∧ a = new) := by
  unfold replace
  split
  · next h => simp [h]
  · next h =>
    constructor
    · exact fun ha => Or.inl ⟨ha, fun e => h (e ▸ ha)⟩
    · rintro (⟨ha, -⟩ | ⟨ho, -⟩)
      · exact ha
      · exact absurd ho h

end KeySet

end ScriptModules
