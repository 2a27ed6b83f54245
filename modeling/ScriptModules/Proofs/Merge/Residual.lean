import ScriptModules.Proofs.Merge.Contraction

/-!
# The cycles that are reported

A cycle in file order is the file table without the other files (`mergeSort_position`), and no two
cycles have the same first file. So the list is determined by what the cycles are, in whatever order
they were found (`ListsCycles.unique`, `arranged_lists`).

Main statement: `residualCycles_exact`.
-/

namespace ScriptModules

/-- The lists are the cycles of the graph, each of them once; the order of the lists, and of the
nodes in each, is any. -/
structure Graph.Discovers (g : Graph) (found : List (List String)) : Prop where
  cycles : ∀ c ∈ found, g.IsCycle c
  all : ∀ c, g.IsCycle c → ∃ c' ∈ found, ∀ v, v ∈ c' ↔ v ∈ c
  apart : found.Pairwise List.Disjoint

theorem Graph.discovers_findCycles (g : Graph) : g.Discovers g.findCycles := by
  obtain ⟨hcycles, hall, horder⟩ := g.findCycles_spec
  refine ⟨hcycles, hall, horder.imp fun hapart v hv hv' => ?_⟩
  exact hapart v hv v hv' .refl

theorem Graph.IsCycle.of_perm {g : Graph} {c c' : List String} (h : g.IsCycle c)
    (hperm : c'.Perm c) : g.IsCycle c' := by
  have hmem : ∀ v, v ∈ c' ↔ v ∈ c := fun v => hperm.mem_iff
  refine ⟨hperm.nodup_iff.mpr h.nodup, fun a ha b => ?_, ?_⟩
  · rw [hmem] at ha ⊢
    exact h.component a ha b
  · simpa only [hmem] using h.round

/-- The cycles may be listed in another order, and the nodes of each too. -/
theorem Graph.Discovers.rearrange {g : Graph} {found found' : List (List String)}
    (h : g.Discovers found) {f : List String → List String} (hf : ∀ c, (f c).Perm c)
    (hperm : found'.Perm (found.map f)) : g.Discovers found' := by
  refine ⟨fun c' hc' => ?_, fun c hc => ?_, ?_⟩
  · obtain ⟨c, hc, rfl⟩ := List.mem_map.mp (hperm.mem_iff.mp hc')
    exact (h.cycles c hc).of_perm (hf c)
  · obtain ⟨c₀, hc₀, hsame⟩ := h.all c hc
    refine ⟨f c₀, hperm.mem_iff.mpr (List.mem_map_of_mem hc₀), fun v => ?_⟩
    rw [(hf c₀).mem_iff]
    exact hsame v
  · refine (hperm.pairwise_iff fun h => h.symm).mpr (List.pairwise_map.mpr ?_)
    refine h.apart.imp fun {c c'} hdisjoint v hv hv' => ?_
    exact hdisjoint ((hf c).mem_iff.mp hv) ((hf c').mem_iff.mp hv')

namespace State

/-- The lists are the strongly connected components of the import graph with at least two nodes.
Each is in file order, and they stand by the positions of their first files. -/
structure ListsCycles (s : State) (cs : List (List String)) : Prop where
  components : ∀ C : Set String, (∃ c ∈ cs, C = {k | k ∈ c}) ↔
    (∃ a, C = s.importGraph.component a) ∧ C.Nontrivial
  inOrder : ∀ c ∈ cs, c.Sublist s.files.keys
  byFirst : cs.Pairwise fun c c' => ∃ a ∈ c.head?, ∃ b ∈ c'.head?, s.position a < s.position b

variable {s : State} {c c' : List String} {cs cs' found : List (List String)} {a b : String}

/-! ## Positions -/

theorem position_injective (ha : a ∈ s.files.keys) (h : s.position a = s.position b) : a = b :=
  (List.idxOf_inj ha).mp h

theorem pairwise_position (h : c.Sublist s.files.keys) :
    c.Pairwise fun a b => s.position a < s.position b :=
  (pairwise_idxOf s.files.keys_nodup).sublist h

/-- In file order there is one list of the same files. -/
theorem eq_of_sublist_keys (h : c.Sublist s.files.keys) (h' : c'.Sublist s.files.keys)
    (hmem : ∀ k, k ∈ c ↔ k ∈ c') : c = c' := by
  refine List.Perm.eq_of_pairwise (fun a b _ _ hab hba => ?_) (pairwise_position h)
    (pairwise_position h') ?_
  · omega
  · exact (List.perm_ext_iff_of_nodup (s.files.keys_nodup.sublist h)
      (s.files.keys_nodup.sublist h')).mpr hmem

/-- A list of files in file order is the file table without the other files. -/
theorem mergeSort_position (hc : c.Nodup) (hkeys : ∀ k ∈ c, k ∈ s.files.keys) :
    (c.mergeSort fun a b => s.position a ≤ s.position b) = s.files.keys.filter (· ∈ c) := by
  have hmem : ∀ k, k ∈ c ↔ k ∈ s.files.keys.filter (· ∈ c) := fun k => by
    simp only [List.mem_filter, decide_eq_true_eq]
    exact ⟨fun hk => ⟨hkeys k hk, hk⟩, And.right⟩
  refine mergeSort_rank_eq ?_ (pairwise_position List.filter_sublist)
  exact ((List.perm_ext_iff_of_nodup hc (s.files.keys_nodup.filter _)).mpr hmem).symm

/-! ## One list -/

/-- A cycle of one list is in the other one, as a list. -/
theorem ListsCycles.mem_of_mem (h : s.ListsCycles cs) (h' : s.ListsCycles cs') (hc : c ∈ cs) :
    c ∈ cs' := by
  obtain ⟨c', hc', hset⟩ := (h'.components _).mpr ((h.components {k | k ∈ c}).mp ⟨c, hc, rfl⟩)
  have hsame : ∀ k, k ∈ c ↔ k ∈ c' := fun k => iff_of_eq (congrFun hset k)
  rwa [eq_of_sublist_keys (h.inOrder c hc) (h'.inOrder c' hc') hsame]

theorem ListsCycles.pairwise_first (h : s.ListsCycles cs) :
    cs.Pairwise fun c c' => s.first c < s.first c' := by
  refine h.byFirst.imp ?_
  rintro c c' ⟨a, ha, b, hb, hlt⟩
  rw [Option.mem_def] at ha hb
  simpa [first, ha, hb] using hlt

theorem ListsCycles.unique (h : s.ListsCycles cs) (h' : s.ListsCycles cs') : cs = cs' := by
  have hnodup : ∀ {cs}, s.ListsCycles cs → cs.Nodup := fun h =>
    h.pairwise_first.imp fun hlt heq => by simp [heq] at hlt
  refine List.Perm.eq_of_pairwise (fun c c' _ _ hlt hgt => ?_) h.pairwise_first h'.pairwise_first ?_
  · omega
  · exact (List.perm_ext_iff_of_nodup (hnodup h) (hnodup h')).mpr fun c =>
      ⟨h.mem_of_mem h', h'.mem_of_mem h⟩

/-- The cycles of an import graph have more than one node, since no file imports itself. -/
theorem exists_mem_of_discovers (h : s.importGraph.Discovers found) (C : Set String) :
    (∃ c ∈ found, C = {k | k ∈ c}) ↔ (∃ a, C = s.importGraph.component a) ∧ C.Nontrivial := by
  constructor
  · rintro ⟨c, hc, rfl⟩
    have hcycle := h.cycles c hc
    obtain ⟨a, ha⟩ := hcycle.exists_mem
    refine ⟨⟨a, hcycle.component_eq ha⟩, ?_⟩
    rcases hcycle.round with hmany | ⟨v, -, hloop⟩
    · exact hmany
    · exact (Imports.ne hloop rfl).elim
  · rintro ⟨⟨a, rfl⟩, hmany⟩
    obtain ⟨c, hc, hset⟩ := Graph.exists_isCycle (.inl hmany)
    obtain ⟨c', hc', hsame⟩ := h.all c hc
    exact ⟨c', hc', hset.symm.trans (Set.ext fun v => (hsame v).symm)⟩

/-- However the cycles were found, putting them in order lists them. -/
theorem arranged_lists (h : s.importGraph.Discovers found) : s.ListsCycles (s.arranged found) := by
  have harranged : s.importGraph.Discovers (s.arranged found) :=
    h.rearrange (fun c => List.mergeSort_perm c _) (List.mergeSort_perm _ _)
  refine ⟨exists_mem_of_discovers harranged, fun c hc => ?_, ?_⟩
  · obtain ⟨c₀, hc₀, rfl⟩ := List.mem_map.mp (List.mem_mergeSort.mp hc)
    have hcycle := h.cycles c₀ hc₀
    rw [mergeSort_position hcycle.nodup fun k => mem_keys_of_isCycle hcycle]
    exact List.filter_sublist
  · have hsorted : (s.arranged found).Pairwise fun c c' => s.first c ≤ s.first c' :=
      pairwise_mergeSort_rank s.first _
    -- Two cycles have no file in common, so their first files stand at different positions.
    refine (hsorted.and harranged.apart).imp_of_mem fun {c c'} hc hc' ⟨hle, hdisjoint⟩ => ?_
    obtain ⟨v, hv⟩ := (harranged.cycles c hc).exists_mem
    obtain ⟨v', hv'⟩ := (harranged.cycles c' hc').exists_mem
    obtain ⟨a, ha, hhead, hfirst, -⟩ := exists_first (s := s) hv
    obtain ⟨b, hb, hhead', hfirst', -⟩ := exists_first (s := s) hv'
    have hne : s.position a ≠ s.position b := fun heq => by
      have hab := position_injective (mem_keys_of_isCycle (harranged.cycles c hc) ha) heq
      exact hdisjoint (hab ▸ ha) hb
    exact ⟨a, hhead, b, hhead', by omega⟩

/-- For every state, whatever its symbols name, the cycles are put in order without a fault. The
list is the one that holds the strongly connected components of the import graph with at least two
nodes, each in file order and by the positions of their first files. It does not depend on the order
in which the cycles, and the nodes in each, were found. -/
theorem residualCycles_exact (s : State) :
    s.residualCycles? = .ok s.residualCycles ∧
    (∀ cs, s.ListsCycles cs ↔ cs = s.residualCycles) ∧
    s.importGraph.Discovers s.importGraph.findCycles ∧
    ∀ found, s.importGraph.Discovers found → s.arranged found = s.residualCycles := by
  have hdiscovers := s.importGraph.discovers_findCycles
  have hlists : s.ListsCycles s.residualCycles := s.residualCycles_eq ▸ arranged_lists hdiscovers
  refine ⟨residualCycles?_eq s, fun cs => ⟨fun h => h.unique hlists, ?_⟩, hdiscovers,
    fun found h => (arranged_lists h).unique hlists⟩
  rintro rfl
  exact hlists

/-- Two pairs of files that import each other. A symbol is owned by a file that is not there, and
another one is read by such a file. -/
def dangling : State :=
  { empty with
    files := .ofList [("d.js", "D"), ("a.js", "A"), ("c.js", "C"), ("b.js", "B")]
    symbols := .ofList [
      ("w", ⟨some "a.js", .ofList ["gone.js"], .ofList ["b.js"]⟩),
      ("x", ⟨some "b.js", .ofList ["a.js"], .empty⟩),
      ("y", ⟨some "c.js", .empty, .ofList ["d.js"]⟩),
      ("z", ⟨some "d.js", .empty, .ofList ["c.js", "b.js"]⟩),
      ("lost", ⟨some "lost.js", .ofList ["c.js"], .ofList ["a.js"]⟩)] }

theorem residualCycles_exact_dangling :
    "lost.js" ∈ dangling.importGraph.targets "a.js" ∧
    dangling.residualCycles? = .ok [["d.js", "c.js"], ["a.js", "b.js"]] ∧
    dangling.importGraph.findCycles = [["c.js", "d.js"], ["b.js", "a.js"]] ∧
    dangling.importGraph.Discovers [["a.js", "b.js"], ["d.js", "c.js"]] ∧
    dangling.arranged [["a.js", "b.js"], ["d.js", "c.js"]] =
      [["d.js", "c.js"], ["a.js", "b.js"]] := by
  obtain ⟨hchecked, -, hdiscovers, harranged⟩ := residualCycles_exact dangling
  have hfound : dangling.importGraph.findCycles = [["c.js", "d.js"], ["b.js", "a.js"]] := by
    have ha (w : Walk) : w.frame dangling.importGraph "a.js" =
        ⟨"a.js", w.found.length, ["b.js", "lost.js"]⟩ := w.frame_of_pairwise rfl (by decide)
    have hb (w : Walk) : w.frame dangling.importGraph "b.js" =
        ⟨"b.js", w.found.length, ["a.js", "d.js"]⟩ := w.frame_of_pairwise rfl (by decide)
    have hc (w : Walk) : w.frame dangling.importGraph "c.js" =
        ⟨"c.js", w.found.length, ["d.js", "lost.js"]⟩ := w.frame_of_pairwise rfl (by decide)
    have hd (w : Walk) : w.frame dangling.importGraph "d.js" =
        ⟨"d.js", w.found.length, ["c.js"]⟩ := w.frame_of_pairwise rfl (by decide)
    have hlost (w : Walk) : w.frame dangling.importGraph "lost.js" =
        ⟨"lost.js", w.found.length, []⟩ := w.frame_of_pairwise rfl (by decide)
    have halone : "lost.js" ∉ dangling.importGraph.targets "lost.js" := by decide
    have hkeys : dangling.importGraph.keys = ["d.js", "a.js", "c.js", "b.js"] := rfl
    have hbound : dangling.importGraph.walkBound = 18 := rfl
    rw [Graph.findCycles, Graph.walk, hkeys, hbound]
    simp [Walk.run, Walk.step, Walk.start, Walk.enter, Walk.leave, Walk.complete, Frame.lower,
      Frame.lowerFirst, Pending.push, Pending.extract, Pending.popTo, ha, hb, hc, hd, hlost,
      halone, Except.map, bind, Except.bind, pure, Except.pure]
  have hresidual : dangling.residualCycles = [["d.js", "c.js"], ["a.js", "b.js"]] := by
    rw [residualCycles_eq, hfound]
    exact arranged_eq [["d.js", "c.js"], ["a.js", "b.js"]]
      (.cons ⟨by decide, by decide⟩ (.cons ⟨by decide, by decide⟩ .nil)) (.refl _) (by decide)
  have hother : dangling.importGraph.Discovers [["a.js", "b.js"], ["d.js", "c.js"]] :=
    hdiscovers.rearrange List.reverse_perm (by rw [hfound]; decide)
  refine ⟨by decide, hresidual ▸ hchecked, hfound, hother, hresidual ▸ harranged _ hother⟩

end State

end ScriptModules
