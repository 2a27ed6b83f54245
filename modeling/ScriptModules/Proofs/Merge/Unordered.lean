import ScriptModules.Proofs.Graph.Unordered
import ScriptModules.Proofs.Merge.Contraction

/-!
# A resolution does not depend on the order of sets

Two states are alike when they differ at most in the order in which their sets of assigning and
reading files are listed. Every step of a resolution leads alike states to alike states, with the
same answer and the same notices: where a set is listed, the list is sorted before anything is done
in its order.

* `Alike.absorb`, `Alike.combine`, `Alike.joinCircular`, `Alike.resolve`: the steps;
* `Alike.importGraph`: the import graphs differ at most in the order of targets.

Because each single step is covered, it does not matter either when sets are listed in yet another
order between two steps.
-/

namespace ScriptModules

namespace SymbolEntry

/-- The entries differ at most in the order of their sets. -/
structure Alike (e e' : SymbolEntry) : Prop where
  definition : e.definition = e'.definition
  assignments : e.assignments.Alike e'.assignments
  references : e.references.Alike e'.references

variable {e e' : SymbolEntry}

theorem Alike.users (h : e.Alike e') : e.users.Alike e'.users := h.assignments.union h.references

theorem Alike.foreignAssignments (h : e.Alike e') :
    e.foreignAssignments.Alike e'.foreignAssignments := by
  unfold SymbolEntry.foreignAssignments
  rw [h.definition]
  exact h.assignments.filter _

theorem Alike.repoint (h : e.Alike e') (old new : String) :
    (e.repoint old new).Alike (e'.repoint old new) := by
  refine ⟨?_, h.assignments.replace old new, h.references.replace old new⟩
  simp only [SymbolEntry.repoint, h.definition]

end SymbolEntry

namespace State

/-- The states differ at most in the order of the sets in their symbol tables. -/
structure Alike (s s' : State) : Prop where
  symbols : Table.Rel SymbolEntry.Alike s.symbols s'.symbols
  files : s.files = s'.files
  sources : s.sources = s'.sources
  merges : s.merges = s'.merges
  renames : s.renames = s'.renames
  skipped : s.skipped = s'.skipped
  purged : s.purged = s'.purged

namespace Alike

variable {s s' : State}

theorem entry (h : s.Alike s') (n : String) : (s.entry n).Alike (s'.entry n) := by
  have hget := h.symbols.get? n
  unfold State.entry
  generalize s.symbols.get? n = x at hget ⊢
  generalize s'.symbols.get? n = y at hget ⊢
  cases hget with
  | none => exact ⟨rfl, .refl _, .refl _⟩
  | some he => exact he

theorem position (h : s.Alike s') : s.position = s'.position := by
  funext k
  rw [State.position, State.position, h.files]

/-! ## Steps -/

/-- Alike states, with the same answer. -/
def Answer {α : Type} (x y : State × α) : Prop := x.1.Alike y.1 ∧ x.2 = y.2

theorem readerCount (h : s.Alike s') (k : String) : s.readerCount k = s'.readerCount k := by
  have hnames := h.symbols.filter_eq (p := fun e => e.2.references.contains k)
    fun _ _ _ he => he.references.contains_eq k
  rw [State.readerCount, State.readerCount, List.countP_eq_length_filter,
    List.countP_eq_length_filter]
  simpa using congrArg List.length hnames

theorem absorbed (h : s.Alike s') (survivor retired : String) (record : MergeRecord) :
    (s.absorbed survivor retired record).Alike (s'.absorbed survivor retired record) where
  symbols := h.symbols.map fun _ _ _ he => he.repoint retired survivor
  files := by simp only [State.absorbed, h.files]
  sources := by simp only [State.absorbed, h.sources]
  merges := by simp only [State.absorbed, h.merges]
  renames := h.renames
  skipped := h.skipped
  purged := h.purged

theorem absorb (h : s.Alike s') (survivor retired : String) (record : MergeRecord) :
    Logged.Rel Answer (s.absorb survivor retired record) (s'.absorb survivor retired record) := by
  unfold State.absorb canAbsorb
  rw [← h.files, h.readerCount]
  split
  · exact ⟨⟨h.absorbed survivor retired record, rfl⟩, rfl⟩
  · exact ⟨⟨h, rfl⟩, rfl⟩

/-! ## Folding assigning files into owners -/

theorem combineFile {acc acc' : State × Nat} (h : Answer acc acc') (name other : String) :
    Logged.Rel Answer (State.combineFile name acc other) (State.combineFile name acc' other) := by
  obtain ⟨s, count⟩ := acc
  obtain ⟨s', count'⟩ := acc'
  obtain ⟨hs, rfl⟩ : s.Alike s' ∧ count = count' := h
  simp only [State.combineFile, (hs.entry name).definition]
  split
  · exact .pure ⟨hs, rfl⟩
  · next owner hd =>
    refine Logged.Rel.bind (R := Eq) ⟨rfl, rfl⟩ fun _ _ _ => ?_
    refine (hs.absorb owner other _).bind ?_
    rintro ⟨t, merged⟩ ⟨t', -⟩ ⟨ht, rfl⟩
    exact .pure ⟨ht, rfl⟩

/-- The files that assign a name are taken in file order, whatever the order of the set. -/
theorem combineSymbol {acc acc' : State × Nat} (h : Answer acc acc') (order : String → Nat)
    (name : String) : Logged.Rel Answer (State.combineSymbol order acc name)
      (State.combineSymbol order acc' name) := by
  have hentry := h.1.entry name
  have hfiles := sortedOn_eq_of_perm order hentry.foreignAssignments
  unfold State.combineSymbol
  simp only [hentry.definition, hfiles]
  split
  · exact .pure h
  · exact .foldlM _ (fun _ _ other hacc => combineFile hacc name other) h

theorem combine (h : s.Alike s') : Logged.Rel Answer s.combine s'.combine := by
  unfold State.combine
  rw [h.symbols.keys_eq, h.position]
  exact .foldlM _ (fun _ _ name hacc => combineSymbol hacc s'.position name) ⟨h, rfl⟩

/-! ## Folding files that import each other -/

theorem imports_iff_entry {a b : String} : s.Imports a b ↔ a ∈ s.files.keys ∧ a ≠ b ∧
    ∃ n, (s.entry n).definition = some b ∧ a ∈ (s.entry n).users := by
  rw [State.imports_iff]
  refine and_congr_right fun _ => and_congr_right fun _ => exists_congr fun n => ?_
  constructor
  · rintro ⟨e, he, hd, ha⟩
    rw [entry_eq he]
    exact ⟨hd, ha⟩
  · rintro ⟨hd, ha⟩
    obtain ⟨e, he, hed⟩ := definition_entry_iff.mp hd
    rw [entry_eq he] at ha
    exact ⟨e, he, hed, ha⟩

theorem imports_iff (h : s.Alike s') {a b : String} : s.Imports a b ↔ s'.Imports a b := by
  simp only [imports_iff_entry, h.files, (h.entry _).definition, (h.entry _).users.mem_iff]

/-- The import graphs differ at most in the order of targets. -/
theorem importGraph (h : s.Alike s') : s.importGraph.Alike s'.importGraph := by
  refine Graph.alike_iff.mpr ⟨?_, fun _ _ => h.imports_iff⟩
  rw [keys_importGraph, keys_importGraph, h.files]

/-- Points of the walk over pairs of files: alike states, alike graphs, and the same count. -/
def Point (acc acc' : (State × Graph) × Nat) : Prop :=
  acc.1.1.Alike acc'.1.1 ∧ acc.1.2.Alike acc'.1.2 ∧ acc.2 = acc'.2

theorem joinPair {acc acc' : (State × Graph) × Nat} (h : Point acc acc') (earlier later : String) :
    Logged.Rel Point (State.joinPair earlier acc later) (State.joinPair earlier acc' later) := by
  obtain ⟨⟨s, g⟩, count⟩ := acc
  obtain ⟨⟨s', g'⟩, count'⟩ := acc'
  obtain ⟨hs, hg, rfl⟩ : s.Alike s' ∧ g.Alike g' ∧ count = count' := h
  simp only [State.joinPair, hs.files, hg.isMutual_eq]
  split
  · refine Logged.Rel.bind (R := Eq) ⟨rfl, rfl⟩ fun _ _ _ => ?_
    refine (hs.absorb earlier later _).bind ?_
    rintro ⟨t, merged⟩ ⟨t', -⟩ ⟨ht, rfl⟩
    -- The graph is built anew after a merge.
    cases merged with
    | true => exact .pure ⟨ht, ht.importGraph, rfl⟩
    | false => exact .pure ⟨ht, hg, rfl⟩
  · exact .pure ⟨hs, hg, rfl⟩

theorem joinWith {acc acc' : (State × Graph) × Nat} (h : Point acc acc')
    (split : String × List String) :
    Logged.Rel Point (State.joinWith acc split) (State.joinWith acc' split) := by
  unfold State.joinWith
  rw [h.1.files]
  split
  · exact .foldlM _ (fun _ _ later hacc => joinPair hacc split.1 later) h
  · exact .pure h

/-- The walk over all pairs, with the targets of both graphs listed in any order. -/
theorem joinAll (h : s.Alike s') {g g' : Graph} (hg : g.Alike g') :
    Logged.Rel Point ((backwards s.files.keys).foldlM State.joinWith ((s, g), 0))
      ((backwards s'.files.keys).foldlM State.joinWith ((s', g'), 0)) := by
  rw [h.files]
  exact .foldlM _ (fun _ _ split hacc => joinWith hacc split) ⟨h, hg, rfl⟩

theorem joinCircular (h : s.Alike s') : Logged.Rel Answer s.joinCircular s'.joinCircular := by
  unfold State.joinCircular
  refine (h.joinAll h.importGraph).bind ?_
  rintro ⟨⟨t, g⟩, count⟩ ⟨⟨t', g'⟩, -⟩ ⟨ht, -, rfl⟩
  exact .pure ⟨ht, rfl⟩

/-! ## Passes and resolutions -/

theorem residualCycles (h : s.Alike s') : s.residualCycles = s'.residualCycles := by
  have hfirst : s.first = s'.first := by
    funext c
    rw [first, first, h.position]
  rw [residualCycles_eq, residualCycles_eq, h.importGraph.findCycles_eq, arranged, arranged,
    h.position, hfirst]

theorem pass (h : s.Alike s') (combine : Bool) :
    Logged.Rel Answer (s.pass combine) (s'.pass combine) := by
  have hrest : ∀ x y : State × Nat, Answer x y → Logged.Rel Answer
      (x.1.joinCircular >>= fun r => pure (r.1, x.2, r.2))
      (y.1.joinCircular >>= fun r => pure (r.1, y.2, r.2)) := by
    rintro ⟨t, assignment⟩ ⟨t', -⟩ ⟨ht, rfl⟩
    refine ht.joinCircular.bind ?_
    rintro ⟨u, circular⟩ ⟨u', -⟩ ⟨hu, rfl⟩
    exact .pure ⟨hu, rfl⟩
  cases combine with
  | true => exact h.combine.bind hrest
  | false => exact hrest (s, 0) (s', 0) ⟨h, rfl⟩

theorem nextPass (h : s.Alike s') (o : ResolveOptions) (r : Resolution) :
    Logged.Rel Answer (s.nextPass o r) (s'.nextPass o r) := by
  unfold State.nextPass
  refine (h.pass o.combine).bind ?_
  rintro ⟨t, assignment, circular⟩ ⟨t', -⟩ ⟨ht, rfl⟩
  dsimp only
  split
  · exact .pure ⟨ht, rfl⟩
  · split
    · exact Logged.Rel.bind (R := Eq) ⟨rfl, rfl⟩ fun _ _ _ => .pure ⟨ht, rfl⟩
    · exact .pure ⟨ht, rfl⟩

theorem passes (h : s.Alike s') (o : ResolveOptions) (fuel : Nat) (r : Resolution) :
    Logged.Rel Answer (State.passes o fuel s r) (State.passes o fuel s' r) := by
  induction fuel generalizing s s' r with
  | zero =>
    refine (h.nextPass o r).bind ?_
    rintro ⟨t, r', more⟩ ⟨t', -⟩ ⟨ht, rfl⟩
    exact .pure ⟨ht, rfl⟩
  | succ fuel ih =>
    refine (h.nextPass o r).bind ?_
    rintro ⟨t, r', more⟩ ⟨t', -⟩ ⟨ht, rfl⟩
    dsimp only
    split
    · exact ih ht r'
    · exact .pure ⟨ht, rfl⟩

theorem closingNotices (h : s.Alike s') (o : ResolveOptions) (r : Resolution) :
    s.closingNotices o r = s'.closingNotices o r := by
  simp only [State.closingNotices, oversized, h.files]

theorem resolve (h : s.Alike s') (o : ResolveOptions) :
    Logged.Rel Answer (s.resolve o) (s'.resolve o) := by
  unfold State.resolve
  rw [h.files]
  refine (h.passes o _ _).bind ?_
  rintro ⟨t, r⟩ ⟨t', -⟩ ⟨ht, rfl⟩
  dsimp only
  rw [ht.residualCycles, ht.closingNotices]
  exact ⟨⟨ht, rfl⟩, rfl⟩

end Alike

end State

end ScriptModules
