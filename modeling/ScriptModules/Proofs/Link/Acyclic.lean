import ScriptModules.Proofs.Merge.Assignment
import ScriptModules.Proofs.Merge.Contraction
import ScriptModules.Proofs.Merge.Upkeep

/-!
# The import statements follow the import graph

The import graph has an edge from every file that reads or assigns a name to the owner of the name,
but a module imports only what it reads. The two agree where no name is assigned outside its owner
(`Exclusive`), which is how a resolution that combines leaves the tables of any scripts. The cycles
that it reports are then the cycles of the modules that are written.

* `emits_iff`: the modules import along the edges of the graph;
* `residualCycles_eq_nil_iff`: no cycle is reported exactly when the graph has none;
* `Linkage.lasting_gathered`: the tables of scripts are closed, whatever becomes of the scripts.

Main statement: `imports_follow_graph`.
-/

namespace ScriptModules

namespace State

variable {s t : State} {a b d k : String}

/-- The module of `a` has an import statement for the module of `b`. -/
def Emits (s : State) (a b : String) : Prop := a ∈ s.files.keys ∧ b ∈ (s.imports a).map (·.1)

/-- No module imports itself, directly or through others. -/
def Acyclic (s : State) : Prop := ∀ a, ¬ Relation.TransGen s.Emits a a

/-! ## Statements and edges -/

theorem mem_map_imports : d ∈ (s.imports k).map (·.1) ↔
    ∃ n e, s.symbols.get? n = some e ∧ e.definition = some d ∧ d ≠ k ∧ k ∈ e.references := by
  constructor
  · intro h
    obtain ⟨⟨d', ns⟩, hg, rfl⟩ := List.mem_map.mp h
    obtain ⟨-, n, hn⟩ := mem_imports.mp hg
    exact ⟨n, mem_importedNames.mp hn⟩
  · rintro ⟨n, hn⟩
    exact List.mem_map.mpr ⟨(d, _), mem_imports.mpr ⟨rfl, n, mem_importedNames.mpr hn⟩, rfl⟩

/-- A file that uses a name of another file reads it, if nobody else than the owner assigns it. -/
theorem emits_iff (hs : s.Exclusive) : s.Emits a b ↔ s.Imports a b := by
  rw [Emits, mem_map_imports, imports_iff]
  constructor
  · rintro ⟨ha, n, e, he, hd, hne, href⟩
    exact ⟨ha, hne.symm, n, e, he, hd, by simp [SymbolEntry.users, href]⟩
  · rintro ⟨ha, hne, n, e, he, hd, huser⟩
    have huser : a ∈ e.assignments ∨ a ∈ e.references := by simpa [SymbolEntry.users] using huser
    refine ⟨ha, n, e, he, hd, hne.symm, huser.resolve_left fun hassign => ?_⟩
    exact hne (hs n e he b hd a hassign)

/-- The import statements of a file are for the targets of its node. -/
theorem get?_importGraph (hs : s.Exclusive) (hk : k ∈ s.files.keys) :
    ∃ ts, s.importGraph.get? k = some ts ∧ ∀ d, d ∈ ts ↔ d ∈ (s.imports k).map (·.1) := by
  obtain ⟨ts, hts⟩ := Table.exists_get?_of_mem_keys (s.keys_importGraph ▸ hk)
  refine ⟨ts, hts, fun d => ?_⟩
  have hedge : d ∈ ts ↔ s.Imports k d := by rw [Imports, Graph.targets, hts, Option.getD_some]
  rw [hedge, ← emits_iff hs, Emits, and_iff_right hk]

/-! ## Cycles -/

/-- No cycle is reported exactly when no file imports itself, directly or through others. -/
theorem residualCycles_eq_nil_iff :
    s.residualCycles = [] ↔ ∀ a, ¬ Relation.TransGen s.Imports a a := by
  constructor
  · intro hnil a hloop
    -- The first file on the way round is another one, and connected with `a`.
    obtain ⟨b, hab, hba⟩ := Relation.TransGen.head'_iff.mp hloop
    have hcomponent : s.IsComponent {c | s.StronglyConnected a c} := ⟨a, hab.mem_keys, rfl⟩
    have hnontrivial : {c | s.StronglyConnected a c}.Nontrivial :=
      ⟨a, ⟨.refl, .refl⟩, b, ⟨.single hab, hba⟩, hab.ne⟩
    obtain ⟨c, hc, -⟩ := (residualCycles_iff _).mpr ⟨hcomponent, hnontrivial⟩
    rw [hnil] at hc
    cases hc
  · intro hacyclic
    rw [List.eq_nil_iff_forall_not_mem]
    intro c hc
    obtain ⟨⟨a, -, hset⟩, x, hx, y, hy, hne⟩ := (residualCycles_iff _).mp ⟨c, hc, rfl⟩
    rw [hset] at hx hy
    have hequiv := s.stronglyConnected_equivalence
    obtain ⟨hxy, hyx⟩ : s.StronglyConnected x y := hequiv.trans (hequiv.symm hx) hy
    rcases Relation.reflTransGen_iff_eq_or_transGen.mp hxy with heq | hround
    · exact hne heq.symm
    · exact hacyclic x (hround.trans_left hyx)

theorem residualCycles_eq_nil_iff_acyclic (hs : s.Exclusive) :
    s.residualCycles = [] ↔ s.Acyclic := by
  have hsame : s.Emits = s.Imports := by
    funext a b
    exact propext (emits_iff hs)
  rw [residualCycles_eq_nil_iff, Acyclic, hsame]

/-! ## The tables of scripts -/

theorem Gathered.place (hs : Gathered s) (hk : k ∉ s.files.keys) (text source : String) :
    Gathered (s.place k text source) := by
  -- A part without any names is placed, and nothing else is done.
  have hadd := hs.addPartition .last ⟨k, text, source, [], []⟩
  rw [State.addPartition, Table.contains_eq_false hk] at hadd
  exact hadd

/-- Only four of the tables count. -/
theorem Gathered.of_eq (hs : Gathered s) (hsymbols : t.symbols = s.symbols)
    (hfiles : t.files = s.files) (hsources : t.sources = s.sources)
    (hmerges : t.merges = s.merges) : Gathered t := by
  refine ⟨⟨?_, ?_, ?_⟩, ?_, hmerges.trans hs.merges_eq⟩
  · rw [hsymbols, hfiles]
    exact hs.closed.definition
  · rw [hsymbols, hfiles]
    exact hs.closed.assignments
  · rw [hsymbols, hfiles]
    exact hs.closed.references
  · rw [Paired, hsources, hfiles]
    exact hs.paired

theorem Gathered.addPart (hs : Gathered s) (policy : DuplicatePolicy) (key name : String)
    (p : Part) : Gathered (s.addPart policy key name p).value.1 := by
  unfold State.addPart
  split
  · exact hs
  · next text _ =>
    split
    · next analysis _ => exact hs.addPartition policy ⟨key, text, name, analysis⟩
    · split
      · exact hs
      · next hk => exact hs.place (fun hmem => hk ((Table.contains_iff _ _).mpr hmem)) text name

end State

theorem Linkage.lasting_gathered (parser : Parser) (policy : DuplicatePolicy) :
    Lasting parser policy State.Gathered where
  addPart hs _ key name := hs.addPart policy key name _
  skip hs := hs.of_eq rfl rfl rfl rfl

namespace State

/-- The tables of scripts are closed, and every name in them has an owner. -/
theorem upkept_link {parser : Parser} {o : IngestOptions} {registry : Registry}
    {inputs : List Input} {l : Linkage} (h : (link parser o registry inputs).value = .ok l) :
    Upkept l.state l.state := by
  obtain ⟨l₁, hrun, hstate⟩ := link_ok h
  have hall := (Linkage.lasting_gathered parser o.policy).ingestAll inputs ⟨.empty, registry⟩ .empty
  rw [hrun] at hall
  have hrenamed : Gathered { l₁.state with renames := l₁.state.renames ++ l₁.registry.renames } :=
    hall.of_eq rfl rfl rfl rfl
  rw [hstate]
  exact hrenamed.purge

/-- Where no name is assigned outside its owner, the import statements of each file are for the
targets that the import graph has for it, and no cycle is reported exactly when the statements of
the modules make none. A resolution that combines leaves the tables of any scripts so: all that
assigns a name is the owner that the name has. -/
theorem imports_follow_graph :
    (∀ s : State, s.Exclusive →
      (∀ k ∈ s.files.keys, ∃ ts, s.importGraph.get? k = some ts ∧
        ∀ d, d ∈ ts ↔ d ∈ (s.imports k).map (·.1)) ∧
      (s.residualCycles = [] ↔ s.Acyclic)) ∧
    ∀ (parser : Parser) (o : IngestOptions) (registry : Registry) (inputs : List Input)
      (l : Linkage), (link parser o registry inputs).value = .ok l →
      ∀ r : ResolveOptions, r.combine = true →
        let t := (l.state.resolve r).value.1
        (∀ n e, t.symbols.get? n = some e → ∀ k ∈ e.assignments, e.definition = some k) ∧
        t.Exclusive ∧ ((l.state.resolve r).value.2.residual = [] ↔ t.Acyclic) := by
  refine ⟨fun s hs => ⟨fun k hk => get?_importGraph hs hk, residualCycles_eq_nil_iff_acyclic hs⟩,
    fun parser o registry inputs l hl r hcombine => ?_⟩
  intro t
  have hupkept := upkept_link hl
  have hexclusive : t.Exclusive := (resolve_exclusive hupkept.closed hcombine).1
  refine ⟨fun n e he k hk => ?_, hexclusive, residualCycles_eq_nil_iff_acyclic hexclusive⟩
  obtain ⟨ms, hrun⟩ := l.state.resolve_run r
  obtain ⟨d, hd⟩ := Option.isSome_iff_exists.mp ((hupkept.run hrun).owned he)
  rw [hd, hexclusive n e he d hd k hk]

/-- Three files in a ring, and one that assigns a name of the first. -/
def orbit : State :=
  { empty with
    files := .ofList [("a.js", "A"), ("b.js", "B"), ("c.js", "C"), ("d.js", "D")]
    symbols := .ofList [
      ("x", ⟨some "a.js", .ofList ["d.js"], .ofList ["c.js"]⟩),
      ("y", ⟨some "b.js", .empty, .ofList ["a.js"]⟩),
      ("z", ⟨some "c.js", .empty, .ofList ["b.js"]⟩)] }

/-- The second script assigns a name of the first, which reads one of the second. -/
def entangled : List Input :=
  [⟨"a.js", "a.js", "var x = y;\n".toUTF8⟩, ⟨"b.js", "b.js", "var y = 1;\nx = 2;\n".toUTF8⟩]

theorem imports_follow_graph_orbit :
    let o : ResolveOptions := ⟨true, true, 10, none⟩
    let t := (orbit.resolve o).value.1
    (t.Exclusive ∧ "c.js" ∈ t.files.keys ∧ (∃ ts, t.importGraph.get? "c.js" = some ts ∧
      ∀ d, d ∈ ts ↔ d ∈ (t.imports "c.js").map (·.1)) ∧ ¬ t.Acyclic) ∧
    ∃ l, (link (parserFor ["var x = y;\n", "var y = 1;\nx = 2;\n"]) ⟨false, none, .last⟩ (.new true)
        entangled).value = .ok l ∧ ¬ l.state.Exclusive ∧
      (l.state.resolve o).value.1.Exclusive ∧
      ((l.state.resolve o).value.2.residual = [] ↔ (l.state.resolve o).value.1.Acyclic) := by
  intro o t
  obtain ⟨hgraph, hlink⟩ := imports_follow_graph
  have hexclusive : t.Exclusive := (resolve_exclusive (s := orbit) (by decide) rfl).1
  have hkey : "c.js" ∈ t.files.keys := by decide +kernel
  have hcycle : (orbit.resolve ⟨true, true, 10, none⟩).value.2.residual =
      [["a.js", "b.js", "c.js"]] := by
    have hfound : (orbit.resolve ⟨true, true, 10, none⟩).value.1.importGraph.findCycles =
        [["c.js", "b.js", "a.js"]] := by decide +kernel
    exact residualCycles_of_single hfound (by decide) (by decide +kernel)
  obtain ⟨htargets, hacyclic⟩ := hgraph t hexclusive
  refine ⟨⟨hexclusive, hkey, htargets _ hkey, fun h => ?_⟩, ?_⟩
  · have hnone : (orbit.resolve o).value.2.residual = [] := hacyclic.mpr h
    rw [hcycle] at hnone
    cases hnone
  have heval : (link (parserFor ["var x = y;\n", "var y = 1;\nx = 2;\n"]) ⟨false, none, .last⟩
      (.new true) entangled).value.toOption.map (fun l => (l.state.symbols.get? "x").map fun e =>
        (e.definition, e.assignments.items)) = some (some (some "a.js", ["b.js"])) := by
    decide +kernel
  cases hl : (link (parserFor ["var x = y;\n", "var y = 1;\nx = 2;\n"]) ⟨false, none, .last⟩
      (.new true) entangled).value with
  | error fault =>
    rw [hl] at heval
    cases heval
  | ok l =>
    rw [hl] at heval
    obtain ⟨e, he, hpair⟩ := Option.map_eq_some_iff.mp (Option.some.inj heval)
    obtain ⟨hd, hassign⟩ := Prod.mk.inj hpair
    obtain ⟨-, hafter, hresidual⟩ := hlink _ _ _ _ l hl o rfl
    refine ⟨l, rfl, fun hs => ?_, hafter, hresidual⟩
    have hb : "b.js" ∈ e.assignments := by
      rw [KeySet.mem_def, hassign]
      decide
    exact absurd (hs "x" e he "a.js" hd "b.js" hb) (by decide)

end State

end ScriptModules
