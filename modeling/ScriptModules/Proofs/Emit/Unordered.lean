import ScriptModules.Emit.Module
import ScriptModules.Emit.Report
import ScriptModules.Proofs.Merge.Unordered

/-!
# Nothing that is shown depends on the order of sets

Module texts, the aggregator and the report read the symbol table in table order. They ask whether
a file is in a set, or sort the set first. So alike states are written and reported in the same
way, and together with the steps of a resolution that makes a whole run reproducible
(`Alike.indistinguishable`).
-/

namespace ScriptModules

theorem SymbolEntry.Alike.document_eq {e e' : SymbolEntry} (h : e.Alike e') :
    Report.symbolDocument e = Report.symbolDocument e' := by
  rw [Report.symbolDocument, Report.symbolDocument, h.definition,
    sorted_eq_of_perm h.assignments, sorted_eq_of_perm h.references]

namespace State

namespace Alike

variable {s s' : State}

/-! ## Texts -/

theorem definedIn (h : s.Alike s') (key : String) : s.definedIn key = s'.definedIn key :=
  h.symbols.filter_eq fun _ _ _ he => by rw [he.definition]

theorem importedNames (h : s.Alike s') (key : String) :
    s.importedNames key = s'.importedNames key :=
  h.symbols.filterMap_eq fun _ _ _ he => by
    simp only [he.definition, he.references.mem_iff]

theorem renderModule (h : s.Alike s') (current : Path) (key : String) :
    s.renderModule current key = s'.renderModule current key := by
  simp only [State.renderModule, renderImports, renderExports, imports, h.importedNames,
    h.definedIn, h.files]

theorem report (h : s.Alike s') (rules : Coercion) (r : Option Resolution) :
    Report.text rules s r = Report.text rules s' r := by
  have hsymbols := h.symbols.map_eq (f := fun e => (e.1, Report.symbolDocument e.2))
    fun _ _ _ he => by rw [he.document_eq]
  have hsize : s.symbols.size = s'.symbols.size := List.Forall₂.length_eq h.symbols
  simp only [Report.text, Report.document, hsymbols, hsize, h.files, h.merges, h.renames,
    h.skipped, h.purged]

end Alike

/-! ## Runs -/

/-- All that is computed from the two states for a reader is the same. In the search for cycles the
targets of both import graphs may be listed in any order. -/
structure SameOutput (s s' : State) : Prop where
  cycles : ∀ g g' : Graph, g.Alike s.importGraph → g'.Alike s'.importGraph →
    g.findCycles = g'.findCycles
  residualCycles : s.residualCycles = s'.residualCycles
  module : ∀ current key, s.renderModule current key = s'.renderModule current key
  aggregator : ∀ current index,
    renderAggregator current s.files.keys index = renderAggregator current s'.files.keys index
  report : ∀ rules r, Report.text rules s r = Report.text rules s' r

theorem Alike.sameOutput {s s' : State} (h : s.Alike s') : SameOutput s s' where
  cycles _ _ hg hg' := (hg.trans (h.importGraph.trans hg'.symm)).findCycles_eq
  residualCycles := h.residualCycles
  module := h.renderModule
  aggregator _ _ := by rw [h.files]
  report := h.report

/-- The results of one operation on two states: the same answer, and states that have the same
files, texts and journals and are shown in the same way. -/
structure SameResult {α : Type} (x y : State × α) : Prop where
  alike : x.1.Alike y.1
  output : SameOutput x.1 y.1
  answer : x.2 = y.2

theorem Alike.sameResult {α : Type} (x y : State × α) (h : Alike.Answer x y) : SameResult x y :=
  ⟨h.1, h.1.sameOutput, h.2⟩

/-- The states are shown in the same way, and each operation gives the same notices and the same
result on both. The walk over pairs of files that import each other may start from the import graph
with its targets listed in any order. -/
structure Indistinguishable (s s' : State) : Prop where
  output : SameOutput s s'
  absorb : ∀ survivor retired record,
    Logged.Rel SameResult (s.absorb survivor retired record) (s'.absorb survivor retired record)
  combine : Logged.Rel SameResult s.combine s'.combine
  walk : ∀ g g' : Graph, g.Alike s.importGraph → g'.Alike s'.importGraph →
    Logged.Rel (fun x y => SameResult (x.1.1, x.2) (y.1.1, y.2))
      ((backwards s.files.keys).foldlM joinWith ((s, g), 0))
      ((backwards s'.files.keys).foldlM joinWith ((s', g'), 0))
  joinCircular : Logged.Rel SameResult s.joinCircular s'.joinCircular
  resolve : ∀ o, Logged.Rel SameResult (s.resolve o) (s'.resolve o)

/-- No operation and no output tells states apart that differ only in the order of their sets. -/
theorem Alike.indistinguishable {s s' : State} (h : s.Alike s') : Indistinguishable s s' where
  output := h.sameOutput
  absorb survivor retired record := (h.absorb survivor retired record).imp Alike.sameResult
  combine := h.combine.imp Alike.sameResult
  walk g g' hg hg' := by
    have hgraphs : g.Alike g' := hg.trans (h.importGraph.trans hg'.symm)
    refine (h.joinAll hgraphs).imp ?_
    rintro x y ⟨hs, -, hcount⟩
    exact Alike.sameResult _ _ ⟨hs, hcount⟩
  joinCircular := h.joinCircular.imp Alike.sameResult
  resolve o := (h.resolve o).imp Alike.sameResult

/-- A name of `a.js` that the files of a set assign and read. -/
def sharedBy (users : KeySet) : State :=
  { empty with
    symbols := ⟨[("x", ⟨some "a.js", users, users⟩)], by simp⟩
    files := ⟨[("a.js", "var x;\n"), ("b.js", "x = x + 1;\n"), ("c.js", "x = x + 2;\n")], by decide⟩
    sources := ⟨[("a.js", "a.js"), ("b.js", "b.js"), ("c.js", "c.js")], by decide⟩ }

theorem indistinguishable_sharedBy :
    let s := sharedBy ⟨["b.js", "c.js"], by decide⟩
    let s' := sharedBy ⟨["c.js", "b.js"], by decide⟩
    s ≠ s' ∧ s.Alike s' ∧ Indistinguishable s s' := by
  intro s s'
  have hne : (s.entry "x").assignments.items ≠ (s'.entry "x").assignments.items := by decide
  have halike : s.Alike s' :=
    ⟨.cons ⟨rfl, rfl, by decide, by decide⟩ .nil, rfl, rfl, rfl, rfl, rfl, rfl⟩
  exact ⟨fun h => hne (by rw [h]), halike, halike.indistinguishable⟩

end State

end ScriptModules
