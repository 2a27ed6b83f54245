import ScriptModules.Proofs.Data.Unordered
import ScriptModules.Proofs.Graph.Cycle

/-!
# Cycles do not depend on the order of targets

The walk of `findCycles` takes the nodes in graph order and the targets of each node sorted. So two
graphs whose target sets list the same nodes in different orders lead to the same walk, and to the
same cycles in the same order (`Graph.Alike.findCycles_eq`).
-/

namespace ScriptModules

namespace Graph

/-- The graphs differ at most in the order in which the targets of a node are listed. -/
def Alike (g g' : Graph) : Prop := Table.Rel KeySet.Alike g g'

variable {g g' : Graph}

theorem Alike.keys_eq (h : g.Alike g') : g.keys = g'.keys := Table.Rel.keys_eq h

theorem Alike.targets (h : g.Alike g') (a : String) : (g.targets a).Alike (g'.targets a) := by
  have hget := h.get? a
  unfold Graph.targets
  generalize Table.get? g a = x at hget ⊢
  generalize Table.get? g' a = y at hget ⊢
  cases hget with
  | none => exact .refl _
  | some hts => exact hts

theorem alike_iff : g.Alike g' ↔
    g.keys = g'.keys ∧ ∀ a b, b ∈ g.targets a ↔ b ∈ g'.targets a := by
  refine ⟨fun h => ⟨h.keys_eq, fun a _ => (h.targets a).mem_iff⟩, ?_⟩
  rintro ⟨hkeys, htargets⟩
  refine Table.rel_of_keys hkeys fun a ts ts' hts hts' => KeySet.alike_iff.mpr fun b => ?_
  simpa only [Graph.targets, hts, hts', Option.getD_some] using htargets a b

theorem Alike.symm (h : g.Alike g') : g'.Alike g := by
  obtain ⟨hkeys, htargets⟩ := alike_iff.mp h
  exact alike_iff.mpr ⟨hkeys.symm, fun a b => (htargets a b).symm⟩

theorem Alike.trans {g'' : Graph} (h : g.Alike g') (h' : g'.Alike g'') : g.Alike g'' := by
  obtain ⟨hkeys, htargets⟩ := alike_iff.mp h
  obtain ⟨hkeys', htargets'⟩ := alike_iff.mp h'
  exact alike_iff.mpr ⟨hkeys.trans hkeys', fun a b => (htargets a b).trans (htargets' a b)⟩

theorem Alike.isMutual_eq (h : g.Alike g') (a b : String) : g.isMutual a b = g'.isMutual a b := by
  unfold isMutual
  rw [(h.targets a).contains_eq, (h.targets b).contains_eq]

theorem Alike.walkBound_eq (h : g.Alike g') : g.walkBound = g'.walkBound := by
  have hlengths : g.entries.map (fun e => e.2.items.length) =
      g'.entries.map (fun e => e.2.items.length) :=
    Table.Rel.map_eq h fun _ _ _ hts => hts.length_eq
  simp only [Graph.walkBound_eq, nodes, List.length_append, List.length_flatMap, hlengths,
    h.keys_eq]

theorem Alike.complete_eq (h : g.Alike g') (w : Walk) (node : String) :
    w.complete g node = w.complete g' node := by
  unfold Walk.complete
  rw [(h.targets node).contains_eq]

/-- The targets of a node are sorted before they are looked at. -/
theorem Alike.frame_eq (h : g.Alike g') (w : Walk) (node : String) :
    w.frame g node = w.frame g' node := by
  unfold Walk.frame
  rw [sorted_eq_of_perm (h.targets node)]

theorem Alike.step_eq (h : g.Alike g') (w : Walk) (f : Frame) (outer : List Frame) :
    w.step g f outer = w.step g' f outer := by
  unfold Walk.step
  simp only [Walk.leave, h.frame_eq, h.complete_eq]

theorem Alike.run_eq (h : g.Alike g') (bound : Nat) (w : Walk) (frames : List Frame) :
    w.run g bound frames = w.run g' bound frames := by
  induction bound generalizing w frames with
  | zero => cases frames <;> rfl
  | succ bound ih =>
    cases frames with
    | nil => rfl
    | cons f outer =>
      rw [Walk.run, Walk.run, h.step_eq]
      simp only [ih]

/-- Graphs that differ in the order of targets have the same cycles, listed in the same order. -/
theorem Alike.findCycles_eq (h : g.Alike g') : g.findCycles = g'.findCycles := by
  have hwalk : g.walk = g'.walk := by
    simp only [walk, h.keys_eq, h.walkBound_eq, h.run_eq, h.frame_eq]
  rw [findCycles, findCycles, hwalk]

end Graph

end ScriptModules
