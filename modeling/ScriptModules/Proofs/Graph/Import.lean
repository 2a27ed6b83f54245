import ScriptModules.Graph.Import
import ScriptModules.Proofs.Data.Table

/-!
# The edges of the import graph

The import graph is built by adding edges symbol after symbol. `imports_iff` says what comes out
without any order: `a` points to `b` exactly when `a` is a file other than `b` and uses a name that
`b` owns.
-/

namespace ScriptModules

namespace Graph

variable {g : Graph} {a b x y : String}

@[simp] theorem keys_addEdge (g : Graph) (a b : String) : (g.addEdge a b).keys = g.keys :=
  Table.keys_modify g a _

theorem mem_targets_addEdge :
    y ∈ (g.addEdge a b).targets x ↔ y ∈ g.targets x ∨ (x = a ∧ a ∈ g.keys ∧ y = b) := by
  unfold targets addEdge
  rw [Table.get?_modify]
  split
  · next hx =>
    subst hx
    cases hg : g.get? x with
    | none =>
      have hk := Table.get?_eq_none_iff.mp hg
      simp [hk]
    | some ts =>
      have hk := Table.mem_keys_of_get? hg
      simp [hk]
  · next hx => simp [hx]

theorem keys_foldl_addEdge (l : List String) (d : String) (g : Graph) :
    (l.foldl (fun g user => g.addEdge user d) g).keys = g.keys := by
  induction l generalizing g with
  | nil => rfl
  | cons u l ih => rw [List.foldl_cons, ih, keys_addEdge]

theorem mem_targets_foldl_addEdge (l : List String) (d : String) (g : Graph) :
    y ∈ (l.foldl (fun g user => g.addEdge user d) g).targets x ↔
      y ∈ g.targets x ∨ (x ∈ l ∧ x ∈ g.keys ∧ y = d) := by
  induction l generalizing g with
  | nil => simp
  | cons u l ih =>
    rw [List.foldl_cons, ih, mem_targets_addEdge, keys_addEdge, List.mem_cons]
    grind

theorem isMutual_iff : g.isMutual a b = true ↔ b ∈ g.targets a ∧ a ∈ g.targets b := by
  simp [isMutual]

end Graph

namespace State

/-- The file `a` would import from the file `b`. -/
def Imports (s : State) (a b : String) : Prop := b ∈ s.importGraph.targets a

instance (s : State) (a b : String) : Decidable (s.Imports a b) :=
  inferInstanceAs (Decidable (b ∈ s.importGraph.targets a))

variable {s : State} {a b x y : String}

theorem keys_symbolEdges (g : Graph) (e : SymbolEntry) : (symbolEdges g e).keys = g.keys := by
  unfold symbolEdges
  split
  · rfl
  · rw [Graph.keys_foldl_addEdge]

theorem keys_importGraph (s : State) : s.importGraph.keys = s.files.keys := by
  have hfold : ∀ (l : List (String × SymbolEntry)) (g : Graph),
      (l.foldl (fun g e => symbolEdges g e.2) g).keys = g.keys := by
    intro l g
    induction l generalizing g with
    | nil => rfl
    | cons e l ih => rw [List.foldl_cons, ih, keys_symbolEdges]
  rw [importGraph, hfold, Table.keys_map]

theorem mem_targets_symbolEdges {g : Graph} {e : SymbolEntry} :
    y ∈ (symbolEdges g e).targets x ↔
      y ∈ g.targets x ∨ (x ∈ g.keys ∧ e.definition = some y ∧ x ∈ e.users ∧ x ≠ y) := by
  unfold symbolEdges
  split
  · next h => simp [h]
  · next d h =>
    rw [Graph.mem_targets_foldl_addEdge, h]
    simp only [List.mem_filter, decide_eq_true_eq, Option.some.injEq, KeySet.mem_def]
    grind

theorem mem_targets_foldl_symbolEdges (l : List (String × SymbolEntry)) (g : Graph) :
    y ∈ (l.foldl (fun g e => symbolEdges g e.2) g).targets x ↔ y ∈ g.targets x ∨
      (x ∈ g.keys ∧ ∃ p ∈ l, p.2.definition = some y ∧ x ∈ p.2.users ∧ x ≠ y) := by
  induction l generalizing g with
  | nil => simp
  | cons p l ih =>
    rw [List.foldl_cons, ih, mem_targets_symbolEdges, keys_symbolEdges]
    simp only [List.mem_cons, or_and_right]
    grind

/-- A file imports from another one exactly when it uses a name which that one owns. -/
theorem imports_iff : s.Imports a b ↔ a ∈ s.files.keys ∧ a ≠ b ∧
    ∃ n e, s.symbols.get? n = some e ∧ e.definition = some b ∧ a ∈ e.users := by
  unfold Imports importGraph
  rw [mem_targets_foldl_symbolEdges, Table.keys_map]
  have hempty : b ∉ Graph.targets (s.files.map fun _ _ => KeySet.empty) a := by
    unfold Graph.targets
    rw [Table.get?_map]
    cases s.files.get? a <;> simp [KeySet.mem_def, KeySet.empty]
  simp only [Table.get?_eq_some_iff]
  constructor
  · rintro (h | ⟨ha, p, hp, hd, hu, hne⟩)
    · exact (hempty h).elim
    · exact ⟨ha, hne, p.1, p.2, hp, hd, hu⟩
  · rintro ⟨ha, hne, n, e, he, hd, hu⟩
    exact .inr ⟨ha, (n, e), he, hd, hu, hne⟩

theorem isMutual_importGraph_iff :
    s.importGraph.isMutual a b = true ↔ s.Imports a b ∧ s.Imports b a :=
  Graph.isMutual_iff

end State

end ScriptModules
