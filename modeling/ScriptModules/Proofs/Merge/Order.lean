import ScriptModules.Merge.Resolve
import ScriptModules.Proofs.Data.Except
import ScriptModules.Proofs.Data.Order
import ScriptModules.Proofs.Graph.Cycle
import ScriptModules.Proofs.Graph.Import

/-!
# Cycles can be put in order

The import graph may point to keys that are no files. Such a key has no edges of its own, so it lies
on no cycle, and every node of a cycle has a position in the file table. Therefore the cycles can be
put in order: `residualCycles?` looks every position up in a way that may fail, and never does
(`residualCycles?_eq`). What comes out are the cycles, sorted twice (`residualCycles_eq`).
-/

namespace ScriptModules

/-- When all numbers are found, the list is sorted by them. -/
theorem sortedBy_ok {α : Type} {rank : α → Except OrderFault Nat} {r : α → Nat} {l : List α}
    (h : ∀ a ∈ l, rank a = .ok (r a)) :
    sortedBy rank l = .ok (l.mergeSort fun x y => r x ≤ r y) := by
  have hranked : (l.mapM fun a => (rank a).map fun n => (n, a)) =
      .ok (l.map fun a => (r a, a)) := by
    refine mapM_eq_ok_iff.mpr
      (List.forall₂_map_right_iff.mpr (List.forall₂_same.mpr fun a ha => ?_))
    rw [h a ha]
    rfl
  have hsort : (l.map fun a => (r a, a)).mergeSort (fun x y => decide (x.1 ≤ y.1)) =
      (l.mergeSort fun x y => decide (r x ≤ r y)).map fun a => (r a, a) :=
    (List.map_mergeSort (f := fun a => (r a, a)) fun _ _ _ _ => rfl).symm
  unfold sortedBy
  rw [hranked]
  show Except.ok _ = _
  rw [hsort, List.map_map]
  exact congrArg _ (List.map_id _)

namespace State

variable {s : State} {c : List String} {a : String}

/-- The position of the first file of a cycle, if the cycle has one. -/
def first (s : State) (c : List String) : Nat := (c.head?.map s.position).getD 0

/-- The cycles with the files of each in file order, by the positions of their first files. -/
def arranged (s : State) (found : List (List String)) : List (List String) :=
  (found.map fun c => c.mergeSort fun a b => s.position a ≤ s.position b).mergeSort
    fun c c' => s.first c ≤ s.first c'

/-- The cycles in order are the lists of the same files in which positions grow. -/
theorem arranged_eq {found cs : List (List String)} (inner : List (List String))
    (hinner : List.Forall₂ (fun c c' => c'.Perm c ∧
      c'.Pairwise fun a b => s.position a < s.position b) found inner)
    (hperm : cs.Perm inner) (hfirst : cs.Pairwise fun c c' => s.first c < s.first c') :
    s.arranged found = cs := by
  have hmap : (found.map fun c => c.mergeSort fun a b => s.position a ≤ s.position b) = inner := by
    refine List.forall₂_eq_eq_eq ▸ List.forall₂_map_left_iff.mpr (hinner.imp fun c c' h => ?_)
    exact mergeSort_rank_eq h.1 h.2
  rw [arranged, hmap]
  exact mergeSort_rank_eq hperm hfirst

/-- Nothing but a file lies on a cycle, since other keys have no edges. -/
theorem mem_keys_of_isCycle (h : s.importGraph.IsCycle c) (ha : a ∈ c) : a ∈ s.files.keys :=
  s.keys_importGraph ▸ h.mem_keys ha

theorem position?_eq (h : a ∈ s.files.keys) : s.position? a = .ok (s.position a) := if_pos h

theorem exists_first (h : a ∈ c) :
    ∃ k ∈ c, c.head? = some k ∧ s.first c = s.position k ∧ s.firstPosition? c = s.position? k := by
  cases c with
  | nil => cases h
  | cons k rest => exact ⟨k, List.mem_cons_self, rfl, rfl, rfl⟩

/-- The cycles are put in order without a fault. -/
theorem residualCycles?_arranged (s : State) :
    s.residualCycles? = .ok (s.arranged s.importGraph.findCycles) := by
  obtain ⟨w, hwalk, -, -⟩ := s.importGraph.walk_sound
  have hfound : s.importGraph.findCycles = w.cycles := by rw [Graph.findCycles, hwalk]
  obtain ⟨hcycles, -, -⟩ := s.importGraph.findCycles_spec
  rw [hfound] at hcycles
  have hinner : w.cycles.mapM (sortedBy s.position?) =
      .ok (w.cycles.map fun c => c.mergeSort fun a b => s.position a ≤ s.position b) := by
    refine mapM_eq_ok_iff.mpr
      (List.forall₂_map_right_iff.mpr (List.forall₂_same.mpr fun c hc => ?_))
    exact sortedBy_ok fun a ha => position?_eq (mem_keys_of_isCycle (hcycles c hc) ha)
  have houter : ∀ c ∈ w.cycles.map (fun c => c.mergeSort fun a b => s.position a ≤ s.position b),
      s.firstPosition? c = .ok (s.first c) := by
    intro c hc
    obtain ⟨c₀, hc₀, rfl⟩ := List.mem_map.mp hc
    obtain ⟨v, hv⟩ := (hcycles c₀ hc₀).exists_mem
    have hv : v ∈ c₀.mergeSort fun a b => s.position a ≤ s.position b := List.mem_mergeSort.mpr hv
    obtain ⟨k, hk, -, hfirst, hlookup⟩ := exists_first (s := s) hv
    have hkey := mem_keys_of_isCycle (hcycles c₀ hc₀) (List.mem_mergeSort.mp hk)
    rw [hlookup, hfirst, position?_eq hkey]
  unfold residualCycles?
  rw [hwalk, mapError_ok]
  show w.cycles.mapM (sortedBy s.position?) >>= sortedBy s.firstPosition? = _
  rw [hinner, hfound]
  exact sortedBy_ok houter

theorem residualCycles_eq (s : State) :
    s.residualCycles = s.arranged s.importGraph.findCycles := by
  rw [residualCycles, residualCycles?_arranged]

/-- A single cycle is listed by the list of its files in which positions grow. -/
theorem residualCycles_of_single {c' : List String} (hfound : s.importGraph.findCycles = [c])
    (hperm : c'.Perm c) (h : c'.Pairwise fun a b => s.position a < s.position b) :
    s.residualCycles = [c'] := by
  rw [residualCycles_eq, hfound]
  exact arranged_eq [c'] (.cons ⟨hperm, h⟩ .nil) (.refl _) (List.pairwise_singleton _ _)

theorem residualCycles?_eq (s : State) : s.residualCycles? = .ok s.residualCycles := by
  rw [residualCycles_eq, residualCycles?_arranged]

end State

end ScriptModules
