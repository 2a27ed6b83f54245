import ScriptModules.Proofs.Emit.Imports
import ScriptModules.Proofs.Link.Ownership
import ScriptModules.Script.Parse

/-!
# Modules that import a name of their own

A name that two parts declare has one owner, and the other declaration stays in the text of its
part. As long as that part is a module of its own nothing happens: a part does not read what it
declares. But a merge can bring it together with a part that reads the name. The module then
imports the name from the owner and declares it as well, which is no valid module.

* `Run.mem_imports_iff`: what a module imports, read off the parts;
* `resolve_clashes`: the exact condition under which a module clashes over a name. It needs two
  declarations that ended in different modules, so there is no clash where duplicates are errors;
* `import_redeclared`: three scripts that meet the condition.
-/

namespace ScriptModules

namespace State

open ScriptModules.Partition (Declared owner?)

variable {s t u : State} {ps : List Partition} {policy : DuplicatePolicy} {k n d : String}

/-- The module `k` imports the name, and a part that went into the module declares it. -/
def Clashes (ps : List Partition) (u t : State) (k n : String) : Prop :=
  n ∈ (t.imports k).flatMap (·.2) ∧ ∃ p ∈ ps, u.home t p.key = k ∧ p.Declares n

theorem mem_flatMap_imports :
    n ∈ (s.imports k).flatMap (·.2) ↔ ∃ d, (n, d) ∈ s.importedNames k := by
  simp only [List.mem_flatMap, Prod.exists, mem_imports]
  constructor
  · rintro ⟨d, ns, ⟨rfl, -⟩, hn⟩
    obtain ⟨⟨m, d'⟩, hmem, rfl⟩ := List.mem_map.mp hn
    exact ⟨d', (List.mem_filter.mp hmem).1⟩
  · rintro ⟨d, hd⟩
    exact ⟨d, _, ⟨rfl, n, hd⟩, List.mem_map.mpr ⟨(n, d), List.mem_filter.mpr ⟨hd, by simp⟩, rfl⟩⟩

theorem Tabulates.entry_of_owner (hu : Tabulates policy ps u) {w : String}
    (hw : owner? policy ps n = some w) :
    ∃ e, u.symbols.get? n = some e ∧ e.definition = some w := by
  have hdeclared : Declared ps n := by
    obtain ⟨p, hp, -, hn⟩ := Partition.declares_of_owner hw
    exact ⟨p, hp, hn⟩
  have hmem : n ∈ u.symbols.keys := by
    rw [hu.names]
    exact List.mem_filter.mpr ⟨Partition.mem_mentioned hdeclared, decide_eq_true hdeclared⟩
  obtain ⟨e, he⟩ := Table.exists_get?_of_mem_keys hmem
  exact ⟨e, he, (hu.definition he).trans hw⟩

/-- A module imports a name exactly when a part of it reads the name and the owner went into
another module. -/
theorem Run.mem_imports_iff {P : State → Merge → Prop} {ms : List Merge} (h : Run P u ms t)
    (hu : Tabulates policy ps u) : n ∈ (t.imports k).flatMap (·.2) ↔
      (∃ q ∈ ps, Merge.home ms q.key = k ∧ q.Reads n) ∧
        ∃ w, owner? policy ps n = some w ∧ Merge.home ms w ≠ k := by
  simp only [mem_flatMap_imports, mem_importedNames]
  constructor
  · rintro ⟨d, e', he', hd, hne, hk⟩
    obtain ⟨e, he, hr⟩ := h.renames.source he'
    rw [hr.definition, hu.definition he] at hd
    obtain ⟨w, hw, rfl⟩ := Option.map_eq_some_iff.mp hd
    obtain ⟨a, ha, rfl⟩ := (hr.references k).mp hk
    obtain ⟨q, hq, rfl, hread⟩ := (hu.references he a).mp ha
    exact ⟨⟨q, hq, rfl, hread⟩, w, hw, hne⟩
  · rintro ⟨⟨q, hq, rfl, hread⟩, w, hw, hne⟩
    obtain ⟨e, he, hd⟩ := hu.entry_of_owner hw
    obtain ⟨e', he', hr⟩ := h.renames.entry he
    refine ⟨Merge.home ms w, e', he', ?_, hne, ?_⟩
    · rw [hr.definition, hd, Option.map_some]
    · exact (hr.references _).mpr ⟨q.key, (hu.references he _).mpr ⟨q, hq, rfl, hread⟩, rfl⟩

/-- The exact condition for a clash. There is none over a name whose declarations all went into one
module, none where duplicates are errors, and none in a module that took nothing in, as long as no
part reads what it declares. -/
theorem resolve_clashes (h : Admissible policy ps) (o : ResolveOptions) :
    ∃ s, (addPartitions policy .empty ps).value = (s, .ok ()) ∧
      let u := s.purge.value.1
      let t := (u.resolve o).value.1
      (∀ k n, Clashes ps u t k n ↔
        (∃ p ∈ ps, u.home t p.key = k ∧ p.Declares n) ∧
        (∃ q ∈ ps, u.home t q.key = k ∧ q.Reads n) ∧
        ∃ w, owner? policy ps n = some w ∧ u.home t w ≠ k) ∧
      (∀ n, (∀ p ∈ ps, ∀ q ∈ ps, p.Declares n → q.Declares n →
          u.home t p.key = u.home t q.key) → ∀ k, ¬ Clashes ps u t k n) ∧
      (policy = .error → ∀ k n, ¬ Clashes ps u t k n) ∧
      (∀ k n, (∀ p ∈ ps, u.home t p.key = k → p.key = k) →
        (∀ p ∈ ps, p.Declares n → ¬ p.Reads n) → ¬ Clashes ps u t k n) := by
  obtain ⟨s, hs⟩ := admissible_iff.mp h
  refine ⟨s, hs, ?_⟩
  intro u t
  obtain ⟨ms, hrun⟩ := u.resolve_run o
  have hhome : ∀ k, u.home t k = Merge.home ms k := fun k => by
    rw [State.home, hrun.journal_eq]
  have hexact : ∀ k n, Clashes ps u t k n ↔
      (∃ p ∈ ps, u.home t p.key = k ∧ p.Declares n) ∧
      (∃ q ∈ ps, u.home t q.key = k ∧ q.Reads n) ∧
      ∃ w, owner? policy ps n = some w ∧ u.home t w ≠ k := by
    intro k n
    simp only [Clashes, hhome]
    rw [hrun.mem_imports_iff (addPartitions_purge hs), and_comm]
  have htogether : ∀ n, (∀ p ∈ ps, ∀ q ∈ ps, p.Declares n → q.Declares n →
      u.home t p.key = u.home t q.key) → ∀ k, ¬ Clashes ps u t k n := by
    intro n hall k hclash
    obtain ⟨⟨p, hp, hpk, hpn⟩, -, w, hw, hne⟩ := (hexact k n).mp hclash
    obtain ⟨q, hq, rfl, hqn⟩ := Partition.declares_of_owner hw
    exact hne ((hall q hq p hp hqn hpn).trans hpk)
  refine ⟨hexact, htogether, ?_, ?_⟩
  · rintro rfl k n
    refine htogether n (fun p hp q hq hpn hqn => ?_) k
    by_contra hne
    have hkey : p.key ≠ q.key := fun e => hne (congrArg _ e)
    exact (Partition.contested_iff h.keys).mp ⟨p, hp, q, hq, hkey, n, hpn, hqn⟩ (h.names rfl)
  · intro k n halone hproper hclash
    obtain ⟨⟨p, hp, hpk, hpn⟩, ⟨q, hq, hqk, hqn⟩, -⟩ := (hexact k n).mp hclash
    have hsame : p = q := List.inj_on_of_nodup_map h.keys hp hq
      ((halone p hp hpk).trans (halone q hq hqk).symm)
    exact hproper p hp hpn (hsame ▸ hqn)

/-- Two scripts that import each other and a third one, which declares a name of the first again;
the second reads that name. -/
def rivals : List Partition :=
  [⟨"a.js", "var f = 1;\nvar x = y;\n", "a.js", ["f", "x"], [⟨"y", [⟨19, 20, false⟩]⟩]⟩,
   ⟨"b.js", "var y = x + f;\n", "b.js", ["y"], [⟨"x", [⟨8, 9, false⟩]⟩, ⟨"f", [⟨12, 13, false⟩]⟩]⟩,
   ⟨"c.js", "var f = 2;\n", "c.js", ["f"], []⟩]

theorem resolve_clashes_rivals : Admissible .last rivals ∧ Admissible .first rivals ∧
    (∃ s, (addPartitions .last .empty rivals).value = (s, .ok ()) ∧
      Clashes rivals s.purge.value.1 (s.purge.value.1.resolve .default).value.1 "a.js" "f") ∧
    ∃ s, (addPartitions .first .empty rivals).value = (s, .ok ()) ∧
      ¬ Clashes rivals s.purge.value.1 (s.purge.value.1.resolve .default).value.1 "a.js" "f" := by
  have hlast : Admissible .last rivals := ⟨by decide, nofun⟩
  have hfirst : Admissible .first rivals := ⟨by decide, nofun⟩
  refine ⟨hlast, hfirst, ?_, ?_⟩
  · obtain ⟨s, hs, hexact, -⟩ := resolve_clashes hlast .default
    refine ⟨s, hs, (hexact "a.js" "f").mpr ⟨?_, ?_, "c.js", ?_⟩⟩
    all_goals
      obtain rfl : (addPartitions .last .empty rivals).value.1 = s := by rw [hs]
      decide +kernel
  · obtain ⟨s, hs, hexact, -⟩ := resolve_clashes hfirst .default
    refine ⟨s, hs, fun h => ?_⟩
    obtain ⟨-, -, w, hw, hne⟩ := (hexact "a.js" "f").mp h
    obtain rfl : (addPartitions .first .empty rivals).value.1 = s := by rw [hs]
    obtain rfl : "a.js" = w := Option.some.inj hw
    exact hne (by decide +kernel)

/-- The analysis of the part is that of its text. -/
def AnalysedBy (parser : Parser) (p : Partition) : Prop :=
  ((parser p.text.toUTF8).toOption.bind fun root =>
    (Scope.ofSource p.text.toUTF8 root).toOption) = some p.analysis

instance (parser : Parser) (p : Partition) : Decidable (AnalysedBy parser p) :=
  inferInstanceAs (Decidable (_ = some p.analysis))

/-- The second script is folded into the first one, which declares `f`, and brings the import of the
other `f` along. -/
theorem import_redeclared : (∀ p ∈ rivals, AnalysedBy Script.parse p) ∧
    ∃ s, (addPartitions .last .empty rivals).value = (s, .ok ()) ∧
      Clashes rivals s.purge.value.1 (s.purge.value.1.resolve .default).value.1 "a.js" "f" ∧
      ∀ current, (s.purge.value.1.resolve .default).value.1.renderModule current "a.js" =
        .ok ("import \x7bf\x7d from './c.js';\n\nvar f = 1;\nvar x = y;\nvar y = x + f;\n" ++
          "\n\nexport \x7bx, y\x7d;\n") := by
  have hadmissible : Admissible .last rivals := ⟨by decide, nofun⟩
  obtain ⟨s, hs⟩ := admissible_iff.mp hadmissible
  obtain rfl : (addPartitions .last .empty rivals).value.1 = s := by rw [hs]
  refine ⟨by decide +kernel, _, hs, ⟨by decide +kernel, by decide +kernel⟩, fun current => ?_⟩
  rw [renderModule_eq current ⟨.root, []⟩ (by decide +kernel) (by decide +kernel)]
  decide +kernel

end State

end ScriptModules
