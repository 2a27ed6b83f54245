import ScriptModules.Proofs.Data.Group
import ScriptModules.Proofs.Link.Partition
import ScriptModules.Proofs.Merge.Passes

/-!
# The modules link

Parts are added, undeclared names are purged, and files are merged. Every name that a module imports
is then exported by the module it is imported from, every name has one exporting module, and every
declared name that a module reads is its own or imported once. `Linked` collects the three; they
hold whatever the parts, the policy and the options are.

The proof has two halves: `Summary.purge` relates the purged tables to the parts, and the merges
only rename files (`Run.renames`), so that what the tables said of a part they say of its home.
-/

namespace ScriptModules

namespace State

variable {s t u : State} {k d n : String}

/-! ## Import and export lists -/

theorem mem_definedIn : n ∈ s.definedIn k ↔
    ∃ e, s.symbols.get? n = some e ∧ e.definition = some k := by
  simp [definedIn, Table.get?_eq_some_iff]

theorem mem_importedNames : (n, d) ∈ s.importedNames k ↔
    ∃ e, s.symbols.get? n = some e ∧ e.definition = some d ∧ d ≠ k ∧ k ∈ e.references := by
  simp only [importedNames, List.mem_filterMap, Prod.exists, Table.get?_eq_some_iff]
  constructor
  · rintro ⟨a, e, he, h⟩
    split at h
    · next d' hd =>
      split at h
      · next hk =>
        cases h
        exact ⟨e, he, hd, hk⟩
      · cases h
    · cases h
  · rintro ⟨e, he, hd, hk⟩
    refine ⟨n, e, he, ?_⟩
    simp [hd, hk]

/-- A name is imported by a file at most once. -/
theorem importedNames_nodup (s : State) (k : String) : ((s.importedNames k).map (·.1)).Nodup := by
  unfold importedNames
  rw [List.Nodup, List.pairwise_map]
  refine List.Pairwise.filterMap _ (fun p q hpq b hb c hc => ?_)
    (List.pairwise_map.mp s.symbols.nodup)
  -- An imported name is the name of the entry that it comes from.
  have hname : b.1 = p.1 := by grind
  have hname' : c.1 = q.1 := by grind
  rw [hname, hname']
  exact hpq

theorem mem_imports {ns : List String} : (d, ns) ∈ s.imports k ↔
    ns = ((s.importedNames k).filter fun p => p.2 == d).map (·.1) ∧
      ∃ n, (n, d) ∈ s.importedNames k := by
  simp only [imports, List.mem_map, Prod.exists, mem_groupBy_iff, Prod.mk.injEq]
  constructor
  · rintro ⟨d', ps, ⟨⟨n, d'', hn, rfl⟩, rfl⟩, rfl, rfl⟩
    exact ⟨rfl, n, hn⟩
  · rintro ⟨rfl, n, hn⟩
    exact ⟨d, _, ⟨⟨n, d, hn, rfl⟩, rfl⟩, rfl, rfl⟩

/-- The import statements of a file list each imported name once. -/
theorem count_imports (h : (n, d) ∈ s.importedNames k) :
    ((s.imports k).flatMap (·.2)).count n = 1 := by
  have hperm : ((s.imports k).flatMap (·.2)).Perm ((s.importedNames k).map (·.1)) := by
    have hgroups := (perm_groupBy (·.2) (s.importedNames k)).map (·.1)
    rw [List.map_flatMap] at hgroups
    rwa [imports, List.flatMap_map]
  have hmem : n ∈ (s.importedNames k).map (·.1) := List.mem_map.mpr ⟨(n, d), h, rfl⟩
  rw [hperm.count_eq]
  exact List.count_eq_one_of_mem (s.importedNames_nodup k) hmem

/-! ## The purged tables -/

variable {ps : List Partition} {policy : DuplicatePolicy}

theorem get?_purge {e : SymbolEntry} : s.purge.value.1.symbols.get? n = some e ↔
    s.symbols.get? n = some e ∧ e.definition.isSome = true := by
  have hpurge : s.purge.value.1.symbols = s.symbols.filter fun _ e => e.definition.isSome := rfl
  rw [hpurge, Table.get?_filter, Option.filter_eq_some_iff]

/-- What the purged tables say about the parts. -/
structure Described (ps : List Partition) (u : State) : Prop where
  closed : u.Closed
  keys_eq : u.files.keys = ps.map (·.key)
  owner : ∀ {n e}, u.symbols.get? n = some e → ∃ p ∈ ps, e.definition = some p.key ∧ p.Declares n
  declared : ∀ {q n}, q ∈ ps → q.Declares n → ∃ e, u.symbols.get? n = some e
  reads : ∀ {p n e}, u.symbols.get? n = some e → p ∈ ps → p.Reads n → p.key ∈ e.references

theorem Summary.purge (h : Summary ps s) : Described ps s.purge.value.1 := by
  have hkeys : s.purge.value.1.files.keys = ps.map (·.key) := h.keys_eq
  have hmem : ∀ {p}, p ∈ ps → p.key ∈ s.purge.value.1.files.keys := fun hp => by
    rw [hkeys]
    exact List.mem_map.mpr ⟨_, hp, rfl⟩
  refine ⟨⟨fun he hd => ?_, fun he hk => ?_, fun he hk => ?_⟩, hkeys, fun he => ?_,
    fun hq hn => ?_, fun he hp hn => ?_⟩
  · rw [← entry_eq (get?_purge.mp he).1] at hd
    obtain ⟨p, hp, rfl, -⟩ := h.owner hd
    exact hmem hp
  · rw [← entry_eq (get?_purge.mp he).1, h.assignments] at hk
    obtain ⟨p, hp, rfl, -⟩ := hk
    exact hmem hp
  · rw [← entry_eq (get?_purge.mp he).1, h.references] at hk
    obtain ⟨p, hp, rfl, -⟩ := hk
    exact hmem hp
  · obtain ⟨hs, hsome⟩ := get?_purge.mp he
    obtain ⟨d, hd⟩ := Option.isSome_iff_exists.mp hsome
    rw [← entry_eq hs] at hd
    obtain ⟨p, hp, rfl, hn⟩ := h.owner hd
    exact ⟨p, hp, by rw [← entry_eq hs, hd], hn⟩
  · obtain ⟨d, hd⟩ := Option.isSome_iff_exists.mp (h.declared hq hn)
    obtain ⟨e, he, hed⟩ := definition_entry_iff.mp hd
    exact ⟨e, get?_purge.mpr ⟨he, by rw [hed]; rfl⟩⟩
  · rw [← entry_eq (get?_purge.mp he).1, h.references]
    exact ⟨_, hp, rfl, hn⟩

/-! ## Linking -/

/-- The modules of `t`, which come from the parts `ps` in `u`, fit together. -/
structure Linked (ps : List Partition) (u t : State) : Prop where
  /-- What is imported is exported by another module. -/
  imports_exported : ∀ k ∈ t.files.keys, ∀ g ∈ t.imports k,
    g.1 ≠ k ∧ g.1 ∈ t.files.keys ∧ ∀ n ∈ g.2, n ∈ t.definedIn g.1
  /-- Every name is exported by one module, into which a part went that declares it. -/
  exported_once : ∀ n ∈ t.symbols.keys, ∃ k ∈ t.files.keys,
    (∀ k', n ∈ t.definedIn k' ↔ k' = k) ∧ ∃ p ∈ ps, u.home t p.key = k ∧ p.Declares n
  /-- Every part went into one of the modules. -/
  home_mem_keys : ∀ p ∈ ps, u.home t p.key ∈ t.files.keys
  /-- A declared name that a part reads is exported by its module or imported there once. -/
  reads_resolved : ∀ p ∈ ps, ∀ n, p.Reads n → (∃ q ∈ ps, q.Declares n) →
    n ∈ t.definedIn (u.home t p.key) ∨ ((t.imports (u.home t p.key)).flatMap (·.2)).count n = 1

theorem Closed.imports_exported (ht : t.Closed) {g : String × List String}
    (hg : g ∈ t.imports k) :
    g.1 ≠ k ∧ g.1 ∈ t.files.keys ∧ ∀ n ∈ g.2, n ∈ t.definedIn g.1 := by
  obtain ⟨d, ns⟩ := g
  obtain ⟨rfl, m, hm⟩ := mem_imports.mp hg
  obtain ⟨e, he, hd, hne, -⟩ := mem_importedNames.mp hm
  refine ⟨hne, ht.definition he hd, fun n hn => ?_⟩
  obtain ⟨⟨n', d'⟩, hp, rfl⟩ := List.mem_map.mp hn
  obtain ⟨hmem, hd'⟩ := List.mem_filter.mp hp
  obtain rfl : d' = d := by simpa using hd'
  obtain ⟨f, hf, hfd, -⟩ := mem_importedNames.mp hmem
  exact mem_definedIn.mpr ⟨f, hf, hfd⟩

/-- A run of merges leaves modules that fit together. -/
theorem Run.linked {P : State → Merge → Prop} {ms : List Merge} (h : Run P u ms t)
    (hu : Described ps u) : Linked ps u t := by
  have hren := h.renames
  have ht := h.closed hu.closed
  have hhome : ∀ k, u.home t k = Merge.home ms k := fun k => by rw [State.home, h.journal_eq]
  refine ⟨fun k _ g hg => ht.imports_exported hg, fun n hn => ?_, fun p hp => ?_,
    fun p hp n hread hdecl => ?_⟩
  · obtain ⟨e', he'⟩ := Table.exists_get?_of_mem_keys hn
    obtain ⟨e, he, hr⟩ := hren.source he'
    obtain ⟨p, hp, hd, hn'⟩ := hu.owner he
    have hd' : e'.definition = some (Merge.home ms p.key) := by
      rw [hr.definition, hd]
      rfl
    refine ⟨Merge.home ms p.key, ht.definition he' hd', fun k' => ?_, p, hp, hhome _, hn'⟩
    rw [mem_definedIn]
    constructor
    · rintro ⟨f, hf, hfk⟩
      rw [he'] at hf
      cases hf
      rw [hd'] at hfk
      exact (Option.some.inj hfk).symm
    · rintro rfl
      exact ⟨e', he', hd'⟩
  · rw [hhome]
    refine h.home_mem_keys ?_
    rw [hu.keys_eq]
    exact List.mem_map.mpr ⟨p, hp, rfl⟩
  · obtain ⟨q, hq, hqn⟩ := hdecl
    obtain ⟨e, he⟩ := hu.declared hq hqn
    obtain ⟨o, -, hod, -⟩ := hu.owner he
    obtain ⟨e', he', hr⟩ := hren.entry he
    have hd' : e'.definition = some (Merge.home ms o.key) := by
      rw [hr.definition, hod]
      rfl
    have href : Merge.home ms p.key ∈ e'.references :=
      (hr.references _).mpr ⟨p.key, hu.reads he hp hread, rfl⟩
    rw [hhome]
    -- The owner of the name has gone into the reader's module, or is another module.
    by_cases hk : Merge.home ms o.key = Merge.home ms p.key
    · exact .inl (mem_definedIn.mpr ⟨e', he', hk ▸ hd'⟩)
    · exact .inr (count_imports (mem_importedNames.mpr ⟨e', he', hd', hk, href⟩))

/-- Parts that are added without a fault, purged of undeclared names and resolved in any way make
modules that link. The admissible lists of parts are all those that are added without a fault
(`admissible_iff`). -/
theorem resolve_linked (h : Admissible policy ps) (o : ResolveOptions) :
    ∃ s, (addPartitions policy .empty ps).value = (s, .ok ()) ∧
      Linked ps s.purge.value.1 (s.purge.value.1.resolve o).value.1 := by
  obtain ⟨s, hs, hsum⟩ := addPartitions_summary h
  obtain ⟨ms, hrun⟩ := resolve_run s.purge.value.1 o
  exact ⟨s, hs, hrun.linked hsum.purge⟩

/-- Two parts that read names of each other, and a third that declares a name again. -/
def knot : List Partition :=
  [⟨"a", "A", "app", ["f"], [⟨"g", [⟨0, 1, false⟩]⟩]⟩,
   ⟨"b", "B", "app", ["g", "h"], [⟨"f", [⟨0, 1, false⟩]⟩, ⟨"window", [⟨2, 8, false⟩]⟩]⟩,
   ⟨"c", "C", "app", ["f"], [⟨"h", [⟨0, 1, false⟩]⟩, ⟨"g", [⟨2, 3, false⟩]⟩]⟩]

theorem resolve_linked_knot : Admissible .first knot ∧
    ∃ s, (addPartitions .first .empty knot).value = (s, .ok ()) ∧
      Linked knot s.purge.value.1 (s.purge.value.1.resolve .default).value.1 ∧
      (s.purge.value.1.resolve .default).value.1.imports "c" = [("a", ["g", "h"])] := by
  have hknot : Admissible .first knot := ⟨by decide, nofun⟩
  obtain ⟨s, hs, hl⟩ := resolve_linked hknot .default
  refine ⟨hknot, s, hs, hl, ?_⟩
  obtain rfl : (addPartitions .first .empty knot).value.1 = s := by rw [hs]
  decide +kernel

end State

end ScriptModules
