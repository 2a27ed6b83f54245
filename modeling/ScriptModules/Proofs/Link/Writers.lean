import ScriptModules.Proofs.Link.Clash
import ScriptModules.Proofs.Merge.Assignment
import ScriptModules.Proofs.Tree.Targets

/-!
# Modules that write what they import

An imported name cannot be written, so a part that assigns a name has to end in the module that owns
the name. Combining sees to it for every assignment in the tables (`Run.not_imported`), and the
tables hold the assignments that a node of the script makes directly. A name that a script writes
inside a destructuring pattern only is taken for read: its module imports the name and writes it
all the same (`scattered`).
-/

namespace ScriptModules

namespace State

open Scope (ofSource textOf AssignsAt FreeAt)

variable {t u : State} {ps : List Partition} {policy : DuplicatePolicy} {n : String}

/-- What a pass of `combine`, or a resolution that combines, makes of the files. -/
inductive Combined (u : State) : State → Prop
  | pass : Combined u u.combine.value.1
  | resolution (o : ResolveOptions) (ho : o.combine = true) : Combined u (u.resolve o).value.1

theorem Combined.exclusive (h : Combined u t) (hu : u.Closed) : t.Exclusive := by
  cases h with
  | pass => exact combine_exclusive hu
  | resolution o ho => exact (resolve_exclusive hu ho).1

theorem Combined.run (h : Combined u t) : ∃ ms, Run (Called true) u ms t := by
  cases h with
  | pass =>
    obtain ⟨ms, hrun, -⟩ := combine_advances u
    exact ⟨ms, hrun.mono fun _ _ h => .inl ⟨rfl, h⟩⟩
  | resolution o ho => exact ho ▸ resolve_run u o

/-- Where nobody but the owner assigns a name, no module imports a name that a part of it
assigns. -/
theorem Run.not_imported {P : State → Merge → Prop} {ms : List Merge} (h : Run P u ms t)
    (hu : Tabulates policy ps u) (ht : t.Exclusive) {part : Partition} (hpart : part ∈ ps)
    (hn : part.Assigns n) : n ∉ (t.imports (u.home t part.key)).flatMap (·.2) := by
  intro himport
  obtain ⟨d, hd⟩ := mem_flatMap_imports.mp himport
  obtain ⟨e', he', hd, hne, -⟩ := mem_importedNames.mp hd
  obtain ⟨e, he, hr⟩ := h.renames.source he'
  have hassigned : part.key ∈ e.assignments := (hu.assignments he _).mpr ⟨part, hpart, rfl, hn⟩
  have hhome : u.home t part.key ∈ e'.assignments := by
    rw [home, h.journal_eq]
    exact (hr.assignments _).mpr ⟨part.key, hassigned, rfl⟩
  exact hne (ht n e' he' d hd _ hhome).symm

/-- What the analysis of a script, and the modules made with it, know about its writes. -/
structure WritesKnown (source : ByteArray) (root : Node) (a : Analysis) : Prop where
  /-- A name is recorded as assigned exactly when a node directly writes it where it is free. -/
  assigned_iff : ∀ name, (∃ g ∈ a.globals, g.name = name ∧ g.isAssigned = true) ↔
    ∃ p x, AssignsAt (textOf source) root p x ∧ textOf source x = name
  /-- An identifier that stands alone on the left is written directly. -/
  alone : ∀ p n x, root.nodeAt? p = some n → n.Writes x → n.child? "left" = some x →
    x.kind = "identifier" → FreeAt (textOf source) root p (textOf source x) →
    AssignsAt (textOf source) root p x
  /-- An identifier that is written, alone or in a pattern, is reported. -/
  reported : ∀ p n x, root.nodeAt? p = some n → n.Writes x → x.kind = "identifier" →
    FreeAt (textOf source) root p (textOf source x) → ∃ g ∈ a.globals, g.name = textOf source x
  /-- Names are what their bytes spell. -/
  spelled : ∀ p x, AssignsAt (textOf source) root p x →
    Utf8.decode (x.bytes source) = .ok (textOf source x)
  /-- When the script is one of the parts that are combined, its module imports no name that it
  directly writes. -/
  owned : ∀ policy ps part, Admissible policy ps → part ∈ ps → part.analysis = a →
    ∃ s, (addPartitions policy .empty ps).value = (s, .ok ()) ∧
      ∀ t, Combined s.purge.value.1 t → ∀ p x, AssignsAt (textOf source) root p x →
        textOf source x ∉ (t.imports (s.purge.value.1.home t part.key)).flatMap (·.2)

/-- A script is analysed with its direct writes known, unless the text of some node of its tree is
not UTF-8. -/
theorem ofSource_writesKnown (source : ByteArray) (root : Node) :
    match ofSource source root with
    | .ok a => WritesKnown source root a
    | .error e => ∃ p n, root.nodeAt? p = some n ∧ Utf8.decode (n.bytes source) = .error e := by
  rw [Scope.ofSource_eq]
  cases h : Scope.texts source (Scope.readNodes root) with
  | ok ts =>
    refine ⟨fun name => Scope.exists_assigned_iff, fun p n x hn hw hleft hx hfree => ?_,
      fun p n x hn hw hx hfree => Scope.exists_global_of_writes hn hw hx hfree,
      fun p x hx => ?_, fun policy ps part hps hpart ha => ?_⟩
    · exact ⟨n, hn, hw.directly hleft hx, hfree⟩
    · obtain ⟨i, hx, hfree, -⟩ := hx.exists_use
      exact Scope.decode_of_texts h (Scope.mem_readNodes_of_isFree hfree hx)
    · obtain ⟨s, hs, hsum⟩ := addPartitions_summary hps
      refine ⟨s, hs, fun t ht p x hx => ?_⟩
      obtain ⟨ms, hrun⟩ := ht.run
      have hexclusive := ht.exclusive hsum.purge.closed
      have hassigns : part.Assigns (textOf source x) := by
        rw [Partition.Assigns, ha]
        exact Scope.exists_assigned_iff.mpr ⟨p, x, hx, rfl⟩
      exact hrun.not_imported (addPartitions_purge hs) hexclusive hpart hassigns
  | error e => exact Scope.exists_error_of_readNodes h

/-- A script that writes a name inside a pattern. -/
def writer : String := "[x] = [1];\n"

/-- The use of the name in `writer`. -/
def spot : Node := ⟨"identifier", 1, 2, [], none, true, false, false⟩

/-- The assignment of `writer`. -/
def destructuring : Node :=
  ⟨"assignment_expression", 0, 9,
    [⟨"array_pattern", 0, 3, [spot], some "left", true, false, false⟩,
     ⟨"array", 6, 9, [⟨"number", 7, 8, [], none, true, false, false⟩],
      some "right", true, false, false⟩],
    none, true, false, false⟩

/-- The tree of `writer`. -/
def writerTree : Node :=
  ⟨"program", 0, 11,
    [⟨"expression_statement", 0, 10, [destructuring], none, true, false, false⟩],
    none, true, false, false⟩

/-- A script that declares the name, and `writer`. -/
def scattered : List Partition :=
  [⟨"a.js", "var x = 0;\n", "a.js", ["x"], []⟩,
   ⟨"b.js", writer, "b.js", [], [⟨"x", [⟨1, 2, false⟩]⟩]⟩]

/-- No scope of `writer` holds the name. -/
theorem freeAt_destructuring : FreeAt (textOf writer.toUTF8) writerTree [0, 0] "x" := by
  have hroot : FreeAt (textOf writer.toUTF8) writerTree [] "x" := by
    refine ⟨?_, ?_⟩
    · rintro m ⟨q, hq, hne, -⟩
      exact (hne (List.prefix_nil.mp hq)).elim
    · rintro q hq ⟨m, hm, h⟩
      obtain rfl := List.prefix_nil.mp hq
      obtain rfl : writerTree = m := Option.some.inj hm
      rcases h with ⟨-, x, hx, -⟩ | ⟨h, -⟩
      · obtain ⟨d, hd, -⟩ := Node.mem_hoistedAll_iff.mpr hx
        have hnone : Node.hoistedAll writerTree.children = [] := rfl
        rw [hnone] at hd
        cases hd
      · simp at h
  have hstatement := hroot.child rfl rfl (i := 0) rfl rfl
  exact hstatement.child rfl rfl (i := 0) rfl rfl

/-- A name that is written inside a pattern is not recorded as assigned. So `combine` leaves the
writer in a module of its own, which imports the name. -/
theorem pattern_write_unrecorded :
    Script.parse writer.toUTF8 = .ok writerTree ∧
    (¬ match ofSource writer.toUTF8 writerTree with
      | .ok a => ∀ p n x, writerTree.nodeAt? p = some n → n.Writes x →
          FreeAt (textOf writer.toUTF8) writerTree p (textOf writer.toUTF8 x) →
          ∃ g ∈ a.globals, g.name = textOf writer.toUTF8 x ∧ g.isAssigned = true
      | .error e => ∃ p n, writerTree.nodeAt? p = some n ∧
          Utf8.decode (n.bytes writer.toUTF8) = .error e) ∧
    (∀ p ∈ scattered, AnalysedBy Script.parse p) ∧
    ∃ s, (addPartitions .last .empty scattered).value = (s, .ok ()) ∧
      ∀ current, s.purge.value.1.combine.value.1.renderModule current "b.js" =
        .ok "import \x7bx\x7d from './a.js';\n\n[x] = [1];\n" := by
  refine ⟨rfl, ?_, by decide +kernel, ?_⟩
  · have hrun : ofSource writer.toUTF8 writerTree = .ok ⟨[], [⟨"x", [⟨1, 2, false⟩]⟩]⟩ := by
      decide +kernel
    rw [hrun]
    intro hall
    have hname : textOf writer.toUTF8 spot = "x" := by decide +kernel
    have hwrites : destructuring.Writes spot :=
      ⟨.inl rfl, _, rfl, .parts (.inr (.inl rfl)) (List.mem_singleton.mpr rfl) (.name (.inl rfl))⟩
    obtain ⟨g, hg, -, hassigned⟩ := hall [0, 0] destructuring spot rfl hwrites
      (hname ▸ freeAt_destructuring)
    rw [List.mem_singleton.mp hg] at hassigned
    cases hassigned
  · have hadmissible : Admissible .last scattered := ⟨by decide, nofun⟩
    obtain ⟨s, hs⟩ := admissible_iff.mp hadmissible
    obtain rfl : (addPartitions .last .empty scattered).value.1 = s := by rw [hs]
    refine ⟨_, hs, fun current => ?_⟩
    rw [renderModule_eq current ⟨.root, []⟩ (by decide +kernel) (by decide +kernel)]
    decide +kernel

end State

end ScriptModules
