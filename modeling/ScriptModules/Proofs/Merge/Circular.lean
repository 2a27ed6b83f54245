import ScriptModules.Proofs.Data.Order
import ScriptModules.Proofs.Merge.Conservation
import ScriptModules.Proofs.Merge.Grouping

/-!
# What one pass of `joinCircular` does

The pass walks from the last file to the first and compares each with the files behind it, in the
order in which they stood before the pass. By the time it comes to a pair, either file may be gone.
Still no pair that imports each other at the start is missed: when the walk comes to the earlier
file, the later one stands in some file behind it that the two import relations have followed, and
the walk has yet to come to that one.

* `foldl_joinPair_gathers`: a file takes in every file behind it with which it imports mutually;
* `backwards_joined`: after the walk over the last files of the table, two of them that imported
  each other stand in one file, and every merge folded a file into one before it;
* `Run.stronglyConnected`: merges of files that import each other stay inside the strongly connected
  components of the first import graph.
-/

namespace ScriptModules

/-- When every merge goes to a place at or before that of the retired file, no file moves back. -/
theorem Merge.home_le {ms : List Merge} (place : String → Nat)
    (h : ∀ m ∈ ms, place m.survivor ≤ place m.retired) (k : String) :
    place (home ms k) ≤ place k := by
  induction ms generalizing k with
  | nil => exact Nat.le_refl _
  | cons m ms ih =>
    obtain ⟨hm, hms⟩ := List.forall_mem_cons.mp h
    refine Nat.le_trans (ih hms (m.carry k)) ?_
    by_cases hk : k = m.retired
    · rw [hk, carry_retired]
      exact hm
    · exact Nat.le_of_eq (by rw [carry_of_ne hk])

namespace State

variable {s t : State} {ms ns : List Merge} {a b k x y : String} {P : State → Merge → Prop}

/-- Each of the two files reaches the other one by imports. -/
def StronglyConnected (s : State) (a b : String) : Prop :=
  Relation.ReflTransGen s.Imports a b ∧ Relation.ReflTransGen s.Imports b a

theorem stronglyConnected_equivalence (s : State) : Equivalence s.StronglyConnected where
  refl _ := ⟨.refl, .refl⟩
  symm h := ⟨h.2, h.1⟩
  trans h h' := ⟨h.1.trans h'.1, h'.2.trans h.2⟩

/-! ## Imports along a run -/

/-- An import after a run comes from one before it. -/
theorem Run.imports_source (h : Run P s ms t) (hxy : t.Imports x y) :
    ∃ a b, s.Imports a b ∧ Merge.home ms a = x ∧ Merge.home ms b = y :=
  h.renames.imports_source (fun _ => h.mem_keys_of_home) hxy

/-- An import stays one along a run, unless its two files become one. -/
theorem Run.imports (h : Run P s ms t) (hab : s.Imports a b)
    (hne : Merge.home ms a ≠ Merge.home ms b) : t.Imports (Merge.home ms a) (Merge.home ms b) :=
  h.renames.imports hab (h.home_mem_keys hab.mem_keys) hne

/-- Merges of files that import each other fold strongly connected files only. -/
theorem Run.stronglyConnected (h : Run Mutual s ms t) (a b : String)
    (heq : Merge.home ms a = Merge.home ms b) : s.StronglyConnected a b := by
  refine h.related (stronglyConnected_equivalence s) ?_ a b heq
  rintro u ns m hrun hrel - ⟨-, -, hto, hfrom⟩
  obtain ⟨x, y, hxy, hx, hy⟩ := hrun.imports_source hto
  obtain ⟨y', x', hyx, hy', hx'⟩ := hrun.imports_source hfrom
  -- From `x` to `y` by the one import; back inside the place of `y`, by the other import, and
  -- inside the place of `x`.
  have hyy : s.StronglyConnected y y' := hrel y y' (hy.trans hy'.symm)
  have hxx : s.StronglyConnected x' x := hrel x' x (hx'.trans hx.symm)
  exact ⟨x, y, hx, hy, .single hxy, (hyy.1.tail hyx).trans hxx.1⟩

/-! ## One file and the files behind it -/

/-- A file takes in every listed file with which it imports mutually, and nothing goes elsewhere. -/
theorem foldl_joinPair_gathers (l : List String) (acc : (State × Graph) × Nat)
    (htracked : Tracked acc) (hk : k ∈ acc.1.1.files.keys) :
    let acc' := l.foldl (fun acc later => (joinPair k acc later).value) acc
    Tracked acc' ∧ ∃ ns, Run Mutual acc.1.1 ns acc'.1.1 ∧
      (∀ m ∈ ns, m.survivor = k ∧ m.retired ∈ l) ∧ Merge.home ns k = k ∧
      ∀ b ∈ l, acc.1.1.Imports k b → acc.1.1.Imports b k → Merge.home ns b = k := by
  induction l generalizing acc with
  | nil => exact ⟨htracked, [], .refl _, by simp, rfl, by simp⟩
  | cons later l ih =>
    simp only [List.foldl_cons]
    rw [value_joinPair acc later]
    split
    · next hif =>
      simp only [Bool.and_eq_true] at hif
      obtain ⟨⟨-, hmut⟩, hcan⟩ := hif
      rw [htracked] at hmut
      let m : Merge := ⟨k, later, .circular, none⟩
      have hne : k ≠ later := (canAbsorb_iff.mp hcan).1
      have hmutual : acc.1.1.Mutual m := ⟨rfl, rfl, isMutual_importGraph_iff.mp hmut⟩
      have hone : Run Mutual acc.1.1 [m] (acc.1.1.after m) := .step hcan hmutual (.refl _)
      obtain ⟨htracked', ns, hrun, hwithin, hhome, hgather⟩ :=
        ih ((acc.1.1.after m, (acc.1.1.after m).importGraph), acc.2 + 1) rfl
          (mem_keys_after.mpr ⟨hk, hne⟩)
      refine ⟨htracked', m :: ns, .step hcan hmutual hrun, ?_, ?_, fun b hb hkb hbk => ?_⟩
      · refine List.forall_mem_cons.mpr ⟨⟨rfl, List.mem_cons_self⟩, fun n hn => ?_⟩
        exact ⟨(hwithin n hn).1, List.mem_cons_of_mem _ (hwithin n hn).2⟩
      · rw [Merge.home_cons, Merge.carry_of_ne hne]
        exact hhome
      · rw [Merge.home_cons]
        by_cases hbl : b = later
        · subst hbl
          rw [m.carry_retired]
          exact hhome
        · -- A file that is left still imports mutually with `k`.
          have hcb : Merge.home [m] b = b := Merge.carry_of_ne hbl
          have hck : Merge.home [m] k = k := Merge.carry_of_ne hne
          have hkb' := hone.imports hkb (by rw [hcb, hck]; exact hkb.ne)
          have hbk' := hone.imports hbk (by rw [hcb, hck]; exact hbk.ne)
          rw [hcb, hck] at hkb' hbk'
          rw [Merge.carry_of_ne hbl]
          exact hgather b ((List.mem_cons.mp hb).resolve_left hbl) hkb' hbk'
    · next hif =>
      obtain ⟨htracked', ns, hrun, hwithin, hhome, hgather⟩ := ih acc htracked hk
      refine ⟨htracked', ns, hrun, fun n hn => ?_, hhome, fun b hb hkb hbk => ?_⟩
      · exact ⟨(hwithin n hn).1, List.mem_cons_of_mem _ (hwithin n hn).2⟩
      · rcases List.mem_cons.mp hb with rfl | hb
        · -- The walk would have merged here.
          have hcan := canAbsorb_iff.mpr ⟨hkb.ne, hbk.mem_keys, hk⟩
          have hmut := isMutual_importGraph_iff.mpr ⟨hkb, hbk⟩
          have hmem := (Table.contains_iff acc.1.1.files b).mpr hbk.mem_keys
          rw [← htracked] at hmut
          simp [hcan, hmut, hmem] at hif
        · exact hgather b hb hkb hbk

/-! ## All files -/

/-- What the walk from the last of the listed files to the first did. -/
structure Joined (s : State) (l : List String) (acc : (State × Graph) × Nat) (ms : List Merge) :
    Prop where
  tracked : Tracked acc
  run : Run Mutual s ms acc.1.1
  /-- Files go into files before them. -/
  within : ∀ m ∈ ms, [m.survivor, m.retired].Sublist l
  joined : ∀ a ∈ l, ∀ b ∈ l, s.Imports a b → s.Imports b a → Merge.home ms a = Merge.home ms b

namespace Joined

variable {l : List String} {acc : (State × Graph) × Nat}

/-- The walk moves none of the listed files out of the list. -/
theorem home_mem (h : Joined s l acc ms) (hb : b ∈ l) : Merge.home ms b ∈ l := by
  rcases Merge.home_eq_or_survivor ms b with e | ⟨m, hm, e⟩
  · rwa [e]
  · rw [← e]
    exact (h.within m hm).subset (by simp)

theorem home_of_not_mem (h : Joined s l acc ms) (hk : k ∉ l) : Merge.home ms k = k := by
  refine Merge.home_of_not_retired fun m hm e => hk ?_
  rw [← e]
  exact (h.within m hm).subset (by simp)

/-- The step to one more file in front. -/
theorem cons (h : Joined s l acc ms) (hk : k ∉ l) (hkeys : k ∈ s.files.keys) :
    ∃ ns, Joined s (k :: l) (joinWith acc (k, l)).value (ms ++ ns) := by
  have hstay : Merge.home ms k = k := h.home_of_not_mem hk
  have hleft : k ∈ acc.1.1.files.keys := hstay ▸ h.run.home_mem_keys hkeys
  obtain ⟨htracked, ns, hrun, hwithin, hhome, hgather⟩ :=
    foldl_joinPair_gathers l acc h.tracked hleft
  have hpair : ∀ b ∈ l, s.Imports k b → s.Imports b k →
      Merge.home (ms ++ ns) k = Merge.home (ms ++ ns) b := by
    intro b hb hkb hbk
    -- The file that `b` stands in by now is one that the walk has yet to come to.
    have hmem := h.home_mem hb
    have hne : k ≠ Merge.home ms b := fun e => hk (e ▸ hmem)
    have hkb' := h.run.imports hkb (by rwa [hstay])
    have hbk' := h.run.imports hbk (by rw [hstay]; exact hne.symm)
    rw [hstay] at hkb' hbk'
    rw [Merge.home_append, Merge.home_append, hstay, hhome, hgather _ hmem hkb' hbk']
  refine ⟨ns, ?_⟩
  rw [value_joinWith, if_pos ((Table.contains_iff _ _).mpr hleft)]
  refine ⟨htracked, h.run.append hrun, fun m hm => ?_, fun a ha b hb hab hba => ?_⟩
  · rcases List.mem_append.mp hm with hm | hm
    · exact (h.within m hm).cons k
    · obtain ⟨hs, hr⟩ := hwithin m hm
      rw [hs]
      exact (List.singleton_sublist.mpr hr).cons_cons k
  · rcases List.mem_cons.mp ha with rfl | ha'
    · rcases List.mem_cons.mp hb with rfl | hb'
      · rfl
      · exact hpair b hb' hab hba
    · rcases List.mem_cons.mp hb with rfl | hb'
      · exact (hpair a ha' hba hab).symm
      · rw [Merge.home_append, Merge.home_append, h.joined a ha' b hb' hab hba]

end Joined

/-- The walk from the last of the listed files to the first joins those that import each other. -/
theorem backwards_joined (s : State) (l : List String) (hl : l.Nodup) (hkeys : l ⊆ s.files.keys) :
    ∃ ms, Joined s l ((backwards l).foldl (fun acc split => (joinWith acc split).value)
      ((s, s.importGraph), 0)) ms := by
  induction l with
  | nil => exact ⟨[], rfl, .refl s, by simp, by simp⟩
  | cons k l ih =>
    obtain ⟨hk, hl⟩ := List.nodup_cons.mp hl
    obtain ⟨hkmem, hlmem⟩ := List.cons_subset.mp hkeys
    obtain ⟨ms, h⟩ := ih hl hlmem
    obtain ⟨ns, h'⟩ := h.cons hk hkmem
    rw [backwards, List.foldl_append]
    exact ⟨ms ++ ns, h'⟩

/-- What one pass of `joinCircular` guarantees. Two files that import each other at its start stand
in one file at its end, so files that import each other at its end did not at its start. Every file
that is left is the first of the files folded into it, and files are folded together only inside a
strongly connected component of the import graph. -/
theorem joinCircular_contracts (s : State) :
    let t := s.joinCircular.value.1
    (∀ k ∈ s.files.keys, s.home t k ∈ t.files.keys) ∧
    (∀ k ∈ t.files.keys, ∃ parts, Composition s t (s.journal t) k parts) ∧
    (∀ a b, s.importGraph.isMutual a b = true → s.home t a = s.home t b) ∧
    (∀ a b, t.importGraph.isMutual a b = true → s.importGraph.isMutual a b = false) ∧
    (∀ k ∈ t.files.keys, ∀ a ∈ s.files.keys, s.home t a = k → s.position k ≤ s.position a) ∧
    (∀ a b, s.home t a = s.home t b → s.StronglyConnected a b) := by
  obtain ⟨ms, h⟩ := backwards_joined s s.files.keys s.files.keys_nodup (List.Subset.refl _)
  have hrun : Run Mutual s ms s.joinCircular.value.1 := by
    rw [value_joinCircular]
    exact h.run
  have hjoin : ∀ a b, s.importGraph.isMutual a b = true → Merge.home ms a = Merge.home ms b := by
    intro a b hmut
    obtain ⟨hab, hba⟩ := isMutual_importGraph_iff.mp hmut
    exact h.joined a hab.mem_keys b hba.mem_keys hab hba
  simp only [home, hrun.journal_eq]
  refine ⟨fun k => hrun.home_mem_keys, fun k => hrun.composition, hjoin, fun a b hmut => ?_, ?_,
    hrun.stronglyConnected⟩
  · rw [Bool.eq_false_iff]
    intro hmut'
    obtain ⟨hab, hba⟩ := isMutual_importGraph_iff.mp hmut
    have heq := hjoin a b hmut'
    rw [hrun.home_of_mem_keys hab.mem_keys, hrun.home_of_mem_keys hba.mem_keys] at heq
    exact hab.ne heq
  · rintro k - a - rfl
    refine Merge.home_le s.position (fun m hm => ?_) a
    exact Nat.le_of_lt (idxOf_lt_of_sublist s.files.keys_nodup (h.within m hm))

/-- Three files. `c.js` imports mutually with both others, and is gone when the walk comes to
`a.js`. -/
def braid : State :=
  { empty with
    files := .ofList [("a.js", "A"), ("b.js", "B"), ("c.js", "C")]
    symbols := .ofList [
      ("x", ⟨some "a.js", .empty, .ofList ["c.js"]⟩),
      ("y", ⟨some "b.js", .empty, .ofList ["c.js"]⟩),
      ("z", ⟨some "c.js", .empty, .ofList ["a.js", "b.js"]⟩)] }

theorem joinCircular_contracts_braid :
    let t := braid.joinCircular.value.1
    braid.importGraph.isMutual "a.js" "c.js" = true ∧
      braid.importGraph.isMutual "a.js" "b.js" = false ∧
      braid.home t "a.js" = braid.home t "c.js" ∧ braid.StronglyConnected "a.js" "b.js" := by
  obtain ⟨-, -, hjoin, -, -, hconnected⟩ := joinCircular_contracts braid
  have hac : braid.importGraph.isMutual "a.js" "c.js" = true := by decide
  have hbc : braid.importGraph.isMutual "b.js" "c.js" = true := by decide
  exact ⟨hac, by decide, hjoin _ _ hac,
    hconnected _ _ ((hjoin _ _ hac).trans (hjoin _ _ hbc).symm)⟩

end State

end ScriptModules
