import Mathlib.Data.Set.Image
import ScriptModules.Proofs.Merge.Circular
import ScriptModules.Proofs.Merge.Order

/-!
# Merges contract the import graph

The import graph is built anew from the symbol table after every merge. What comes out is the graph
before the merge with the two files taken as one and without the loops that this brings up
(`mem_targets_absorbed`). A run of merges of files that import each other therefore keeps the
strongly connected components apart from the files that are gone: files are connected before the
run exactly when the files that they end in are connected after it (`Run.stronglyConnected_iff`).

* `residualCycles_iff`: the cycles that a state reports are the components of its import graph with
  at least two files;
* `resolve_residual`: the cycles that a resolution leaves are the components of the first import
  graph, followed through the merges, of which at least two files are left.
-/

namespace ScriptModules

namespace State

variable {s t : State} {ms : List Merge} {a b k x y : String} {P : State → Merge → Prop}

/-- The set is a strongly connected component of the import graph. -/
def IsComponent (s : State) (C : Set String) : Prop :=
  ∃ a ∈ s.files.keys, C = {b | s.StronglyConnected a b}

/-! ## One merge -/

/-- The graph after a merge is the one before it with the two files taken as one, without loops. -/
theorem mem_targets_absorbed {survivor retired : String} {record : MergeRecord}
    (hcan : s.canAbsorb survivor retired = true) :
    y ∈ (s.absorbed survivor retired record).importGraph.targets x ↔
      x ≠ y ∧ ∃ a b, b ∈ s.importGraph.targets a ∧ (if a = retired then survivor else a) = x ∧
        (if b = retired then survivor else b) = y := by
  let m : Merge := ⟨survivor, retired, .circular, none⟩
  have hrun : Run (fun _ _ => True) s [m] (s.after m) := .step hcan trivial (.refl _)
  -- The graph does not depend on the record of the merge.
  have hgraph : (s.absorbed survivor retired record).importGraph = (s.after m).importGraph := rfl
  rw [hgraph]
  constructor
  · intro hxy
    obtain ⟨a, b, hab, hx, hy⟩ := hrun.imports_source hxy
    exact ⟨Imports.ne hxy, a, b, hab, hx, hy⟩
  · rintro ⟨hne, a, b, hab, rfl, rfl⟩
    exact hrun.imports hab hne

/-! ## Runs of merges of files that import each other -/

theorem Run.reaches (h : Run P s ms t) (hab : Relation.ReflTransGen s.Imports a b) :
    Relation.ReflTransGen t.Imports (Merge.home ms a) (Merge.home ms b) := by
  induction hab with
  | refl => exact .refl
  | @tail c d _ hcd ih =>
    by_cases heq : Merge.home ms c = Merge.home ms d
    · exact heq ▸ ih
    · exact ih.tail (h.imports hcd heq)

/-- What is reached after the run was reached before it: where two imports of the run's end meet in
one file, the files behind them were connected. -/
theorem Run.reaches_source (h : Run Mutual s ms t) (hxy : Relation.ReflTransGen t.Imports x y)
    (ha : Merge.home ms a = x) (hb : Merge.home ms b = y) :
    Relation.ReflTransGen s.Imports a b := by
  induction hxy generalizing b with
  | refl => exact (h.stronglyConnected a b (ha.trans hb.symm)).1
  | tail _ hzy ih =>
    obtain ⟨c, d, hcd, hc, hd⟩ := h.imports_source hzy
    have hdb : s.StronglyConnected d b := h.stronglyConnected d b (hd.trans hb.symm)
    exact ((ih hc).tail hcd).trans hdb.1

theorem Run.stronglyConnected_iff (h : Run Mutual s ms t) :
    t.StronglyConnected (Merge.home ms a) (Merge.home ms b) ↔ s.StronglyConnected a b := by
  constructor
  · rintro ⟨hab, hba⟩
    exact ⟨h.reaches_source hab rfl rfl, h.reaches_source hba rfl rfl⟩
  · rintro ⟨hab, hba⟩
    exact ⟨h.reaches hab, h.reaches hba⟩

/-! ## Components -/

/-- A file is connected with other files only. -/
theorem StronglyConnected.mem_keys (h : s.StronglyConnected a b) (ha : a ∈ s.files.keys) :
    b ∈ s.files.keys := by
  rcases Relation.ReflTransGen.cases_head h.2 with rfl | ⟨c, hbc, -⟩
  · exact ha
  · exact hbc.mem_keys

/-- The cycles that are found in an import graph are its components with at least two files. -/
theorem exists_mem_findCycles_iff (C : Set String) :
    (∃ c ∈ s.importGraph.findCycles, C = {k | k ∈ c}) ↔ s.IsComponent C ∧ C.Nontrivial := by
  obtain ⟨hcycles, hall, -⟩ := s.importGraph.findCycles_spec
  constructor
  · rintro ⟨c, hc, rfl⟩
    have hcycle := hcycles c hc
    rcases hcycle.round with ⟨a, ha, b, hb, hne⟩ | ⟨a, -, hloop⟩
    · have hkeys : a ∈ s.files.keys := s.keys_importGraph ▸ hcycle.mem_keys ha
      exact ⟨⟨a, hkeys, Set.ext fun k => hcycle.component a ha k⟩, a, ha, b, hb, hne⟩
    · exact (Imports.ne hloop rfl).elim
  · rintro ⟨⟨a, -, rfl⟩, hmany⟩
    obtain ⟨c, hc, hset⟩ := Graph.exists_isCycle (g := s.importGraph) (.inl hmany)
    obtain ⟨c', hc', hsame⟩ := hall c hc
    exact ⟨c', hc', hset.symm.trans (Set.ext fun v => (hsame v).symm)⟩

/-- Sorting the cycles, and the files in each, changes none of them as a set. -/
theorem residualCycles_iff (C : Set String) :
    (∃ c ∈ s.residualCycles, C = {k | k ∈ c}) ↔ s.IsComponent C ∧ C.Nontrivial := by
  rw [← exists_mem_findCycles_iff]
  simp only [residualCycles_eq, arranged, List.mem_mergeSort, List.mem_map,
    exists_exists_and_eq_and]

/-- A run of merges of files that import each other leads a component to a component. -/
theorem Run.component_image (h : Run Mutual s ms t) (ha : a ∈ s.files.keys) :
    Merge.home ms '' {b | s.StronglyConnected a b} =
      {y | t.StronglyConnected (Merge.home ms a) y} := by
  ext y
  constructor
  · rintro ⟨b, hb, rfl⟩
    exact h.stronglyConnected_iff.mpr hb
  · intro hy
    -- A file that is left stands for itself.
    have hkeys : y ∈ t.files.keys := StronglyConnected.mem_keys hy (h.home_mem_keys ha)
    have hhome := h.home_of_mem_keys hkeys
    exact ⟨y, h.stronglyConnected_iff.mp (hhome.symm ▸ hy), hhome⟩

theorem Run.isComponent_iff (h : Run Mutual s ms t) (R : Set String) :
    t.IsComponent R ↔ ∃ C, s.IsComponent C ∧ R = Merge.home ms '' C := by
  constructor
  · rintro ⟨x, hx, rfl⟩
    have hxs : x ∈ s.files.keys := h.keys_sublist.subset hx
    refine ⟨_, ⟨x, hxs, rfl⟩, ?_⟩
    rw [h.component_image hxs, h.home_of_mem_keys hx]
  · rintro ⟨-, ⟨a, ha, rfl⟩, rfl⟩
    exact ⟨_, h.home_mem_keys ha, h.component_image ha⟩

theorem resolve_run_mutual (s : State) (fixpoint : Bool) (maxPasses : Int) (maxSize : Option Int) :
    ∃ ms, Run Mutual s ms (s.resolve ⟨false, fixpoint, maxPasses, maxSize⟩).value.1 := by
  obtain ⟨ms, hrun⟩ := s.resolve_run ⟨false, fixpoint, maxPasses, maxSize⟩
  refine ⟨ms, hrun.mono fun u m hm => ?_⟩
  rcases hm with ⟨hfalse, -⟩ | hm
  · cases hfalse
  · exact hm

/-- A merge identifies its two files in the import graph, and drops the loops. So, when only files
that import each other are folded together, the cycles that are left are the components with at
least two files of the first import graph, followed to the files that they end in, as far as there
are at least two of these. -/
theorem resolve_residual (s : State) :
    (∀ survivor retired record, (s.absorb survivor retired record).value.2 = true →
      let t := (s.absorb survivor retired record).value.1
      t.importGraph.keys = s.importGraph.keys.filter (· ≠ retired) ∧
      ∀ x y, y ∈ t.importGraph.targets x ↔ x ≠ y ∧ ∃ a b, b ∈ s.importGraph.targets a ∧
        (if a = retired then survivor else a) = x ∧ (if b = retired then survivor else b) = y) ∧
    ∀ (fixpoint : Bool) (maxPasses : Int) (maxSize : Option Int),
      let result := (s.resolve ⟨false, fixpoint, maxPasses, maxSize⟩).value
      ∀ R : Set String, (∃ c ∈ result.2.residual, R = {k | k ∈ c}) ↔
        R.Nontrivial ∧ ∃ C, s.IsComponent C ∧ C.Nontrivial ∧ R = s.home result.1 '' C := by
  refine ⟨fun survivor retired record hdone => ?_, fun fixpoint maxPasses maxSize R => ?_⟩
  · have hcan : s.canAbsorb survivor retired = true := by
      by_contra hnot
      simp [absorb, hnot] at hdone
    simp only [absorb, if_pos hcan]
    refine ⟨?_, fun x y => mem_targets_absorbed hcan⟩
    simp [keys_importGraph, absorbed, Table.keys_erase]
  · obtain ⟨ms, hrun⟩ := s.resolve_run_mutual fixpoint maxPasses maxSize
    have hresidual : (s.resolve ⟨false, fixpoint, maxPasses, maxSize⟩).value.2.residual =
        (s.resolve ⟨false, fixpoint, maxPasses, maxSize⟩).value.1.residualCycles := rfl
    have hhome : s.home (s.resolve ⟨false, fixpoint, maxPasses, maxSize⟩).value.1 =
        Merge.home ms := by
      funext k
      rw [home, hrun.journal_eq]
    simp only [hresidual, hhome]
    rw [residualCycles_iff, hrun.isComponent_iff]
    constructor
    · rintro ⟨⟨C, hC, rfl⟩, hR⟩
      exact ⟨hR, C, hC, Set.nontrivial_of_image _ C hR, rfl⟩
    · rintro ⟨hR, C, hC, -, rfl⟩
      exact ⟨⟨C, hC, rfl⟩, hR⟩

/-- Four files in a ring, of which the first two import each other. -/
def detour : State :=
  { empty with
    files := .ofList [("a.js", "A"), ("b.js", "B"), ("c.js", "C"), ("d.js", "D")]
    symbols := .ofList [
      ("x", ⟨some "a.js", .empty, .ofList ["b.js", "d.js"]⟩),
      ("y", ⟨some "b.js", .empty, .ofList ["a.js"]⟩),
      ("z", ⟨some "c.js", .ofList ["b.js"], .empty⟩),
      ("w", ⟨some "d.js", .empty, .ofList ["c.js"]⟩)] }

theorem resolve_residual_detour :
    let merged := (detour.absorb "a.js" "b.js" (.merged ⟨"a.js", "b.js", .circular, none⟩)).value
    let result := (detour.resolve ⟨false, true, 10, none⟩).value
    merged.2 = true ∧ "c.js" ∈ merged.1.importGraph.targets "a.js" ∧
      result.2.residual = [["a.js", "c.js", "d.js"]] ∧
      ∃ C, detour.IsComponent C ∧ C.Nontrivial ∧
        {k | k ∈ ["a.js", "c.js", "d.js"]} = detour.home result.1 '' C := by
  obtain ⟨hmerge, hresolve⟩ := resolve_residual detour
  have hmerged : (detour.absorb "a.js" "b.js"
      (.merged ⟨"a.js", "b.js", .circular, none⟩)).value.2 = true := by decide
  have hresidual : (detour.resolve ⟨false, true, 10, none⟩).value.2.residual =
      [["a.js", "c.js", "d.js"]] := by
    have hfound : (detour.resolve ⟨false, true, 10, none⟩).value.1.importGraph.findCycles =
        [["d.js", "c.js", "a.js"]] := by decide +kernel
    exact residualCycles_of_single hfound (by decide) (by decide +kernel)
  refine ⟨hmerged, ?_, hresidual, ?_⟩
  · exact ((hmerge _ _ _ hmerged).2 _ _).mpr ⟨by decide, "b.js", "c.js", by decide, rfl, rfl⟩
  · exact ((hresolve true 10 none _).mp ⟨_, hresidual ▸ List.mem_singleton_self _, rfl⟩).2

end State

end ScriptModules
