import ScriptModules.Proofs.Merge.Passes

/-!
# Which files end up together

With `fixpoint`, a resolution goes on until nothing calls for a merge. Which files it then has
folded together does not depend on the order of the merges: `Grouped` is the least equivalence on
the files that holds a file which assigns a name together with the owner of the name (when
`combine` is set), and two files that import each other up to files already held together.

* `Run.grouped`: every merge of a run is forced, so files with one home are grouped. A merge
  changes the tables, but what is grouped after it was grouped before it
  (`Grouped.of_after`).
* `Grouped.home_eq`: when nothing calls for a merge any more, grouped files have one home.
-/

namespace ScriptModules

namespace State

/-- The least equivalence on the files that a resolution has to respect. -/
inductive Grouped (s : State) (combine : Bool) : String → String → Prop
  | refl {a : String} (ha : a ∈ s.files.keys) : Grouped s combine a a
  | symm {a b : String} (h : Grouped s combine a b) : Grouped s combine b a
  | trans {a b c : String} (h : Grouped s combine a b) (h' : Grouped s combine b c) :
      Grouped s combine a c
  /-- The owner of a name and a file that assigns it. -/
  | assigned {n d a : String} {e : SymbolEntry} (hc : combine = true)
      (he : s.symbols.get? n = some e) (hd : e.definition = some d) (ha : a ∈ e.assignments) :
      Grouped s combine d a
  /-- Two files that import each other, up to files that belong together already. -/
  | circular {x y x' y' : String} (hxy : s.Imports x y) (hyx : s.Imports y' x')
      (hx : Grouped s combine x x') (hy : Grouped s combine y y') : Grouped s combine x y

/-- The tables of two states hold the same, perhaps in another order. -/
structure Rearranged (s s' : State) : Prop where
  files : s'.files.entries.Perm s.files.entries
  symbols : s'.symbols.entries.Perm s.symbols.entries

variable {s t s' : State} {c : Bool} {m : Merge} {ms : List Merge} {a b x y : String}

/-! ## Imports under renaming -/

theorem Imports.target_mem_keys (hs : s.Closed) (h : s.Imports a b) : b ∈ s.files.keys := by
  obtain ⟨-, -, n, e, he, hd, -⟩ := imports_iff.mp h
  exact hs.definition he hd

/-- An import after a renaming comes from one before it, if only files become files. -/
theorem Renames.imports_source {φ : String → String} (h : Renames φ s t)
    (hkeys : ∀ k, φ k ∈ t.files.keys → k ∈ s.files.keys) (hxy : t.Imports x y) :
    ∃ a b, s.Imports a b ∧ φ a = x ∧ φ b = y := by
  obtain ⟨hx, hne, n, e', he', hd', hu'⟩ := imports_iff.mp hxy
  obtain ⟨e, he, hr⟩ := h.source he'
  rw [hr.definition] at hd'
  obtain ⟨b, hb, rfl⟩ := Option.map_eq_some_iff.mp hd'
  obtain ⟨a, ha, rfl⟩ := (hr.users x).mp hu'
  have hab : a ≠ b := fun e => hne (by rw [e])
  exact ⟨a, b, imports_iff.mpr ⟨hkeys a hx, hab, n, e, he, hb, ha⟩, rfl, rfl⟩

/-- An import stays one after a renaming, unless its two files become one. -/
theorem Renames.imports {φ : String → String} (h : Renames φ s t) (hab : s.Imports a b)
    (hmem : φ a ∈ t.files.keys) (hne : φ a ≠ φ b) : t.Imports (φ a) (φ b) := by
  obtain ⟨-, -, n, e, he, hd, hu⟩ := imports_iff.mp hab
  obtain ⟨e', he', hr⟩ := h.entry he
  refine imports_iff.mpr ⟨hmem, hne, n, e', he', ?_, (hr.users _).mpr ⟨a, hu, rfl⟩⟩
  rw [hr.definition, hd]
  rfl

/-! ## Every merge is forced -/

theorem Grouped.mem_keys (hs : s.Closed) (h : s.Grouped c a b) :
    a ∈ s.files.keys ∧ b ∈ s.files.keys := by
  induction h with
  | refl ha => exact ⟨ha, ha⟩
  | symm _ ih => exact ih.symm
  | trans _ _ ih ih' => exact ⟨ih.1, ih'.2⟩
  | assigned _ he hd ha => exact ⟨hs.definition he hd, hs.assignments he ha⟩
  | circular hxy _ _ _ ihx ihy => exact ⟨ihx.1, ihy.1⟩

/-- What calls for a merge groups its two files. -/
theorem Called.grouped (h : s.Called c m) : s.Grouped c m.survivor m.retired := by
  rcases h with ⟨hc, -, n, e, -, he, hd, ha⟩ | ⟨-, -, h₁, h₂⟩
  · exact .assigned hc he hd ha
  · exact .circular h₁ h₂ (.refl h₁.mem_keys) (.refl h₂.mem_keys)

/-- Files that a merge brings to one place were grouped. -/
theorem Grouped.of_carry_eq (hm : s.Called c m) (ha : a ∈ s.files.keys)
    (h : m.carry a = m.carry b) : s.Grouped c a b := by
  rcases Merge.carry_eq_carry_iff.mp h with rfl | ⟨rfl, rfl⟩ | ⟨rfl, rfl⟩
  · exact .refl ha
  · exact hm.grouped.symm
  · exact hm.grouped

/-- What is grouped after a merge was grouped before it. -/
theorem Grouped.of_after (hs : s.Closed) (hcan : s.canAbsorb m.survivor m.retired = true)
    (hm : s.Called c m) (h : (s.after m).Grouped c x y) (ha : a ∈ s.files.keys)
    (hb : b ∈ s.files.keys) (hx : m.carry a = x) (hy : m.carry b = y) : s.Grouped c a b := by
  have hren := renames_after s m
  have hs' : (s.after m).Closed := hs.of_renames hren fun _ hk => carry_mem_keys_after hcan hk
  induction h generalizing a b with
  | refl _ => exact .of_carry_eq hm ha (hx.trans hy.symm)
  | symm _ ih => exact (ih hb ha hy hx).symm
  | trans h _ ih ih' =>
    -- A file that is left after the merge stands for itself before it.
    obtain ⟨hmem, hne⟩ := mem_keys_after.mp (h.mem_keys hs').2
    have hcarry := Merge.carry_of_ne hne
    exact (ih ha hmem hx hcarry).trans (ih' hmem hb hcarry hy)
  | assigned hc he hd hk =>
    obtain ⟨f, hf, hr⟩ := hren.source he
    rw [hr.definition] at hd
    obtain ⟨d, hfd, rfl⟩ := Option.map_eq_some_iff.mp hd
    obtain ⟨k, hfk, rfl⟩ := (hr.assignments _).mp hk
    have hdk : s.Grouped c d k := .assigned hc hf hfd hfk
    have had : s.Grouped c a d := .of_carry_eq hm ha hx
    have hkb : s.Grouped c k b := .of_carry_eq hm (hs.assignments hf hfk) hy.symm
    exact (had.trans hdk).trans hkb
  | circular hxy hyx _ _ ihx ihy =>
    have hkeys : ∀ k, m.carry k ∈ (s.after m).files.keys → k ∈ s.files.keys :=
      fun _ => mem_keys_of_carry hcan
    obtain ⟨u, d, hud, rfl, rfl⟩ := hren.imports_source hkeys hxy
    obtain ⟨u', d', hud', rfl, rfl⟩ := hren.imports_source hkeys hyx
    have hd := hud.target_mem_keys hs
    have hx' : s.Grouped c u d' := ihx hud.mem_keys (hud'.target_mem_keys hs) rfl rfl
    have hy' : s.Grouped c d u' := ihy hd hud'.mem_keys rfl rfl
    have hau : s.Grouped c a u := .of_carry_eq hm ha hx
    have hdb : s.Grouped c d b := .of_carry_eq hm hd hy.symm
    exact (hau.trans (.circular hud hud' hx' hy')).trans hdb

/-- Files that a run brings to one place are grouped. -/
theorem Run.grouped (h : Run (Called c) s ms t) (hs : s.Closed) (ha : a ∈ s.files.keys)
    (hb : b ∈ s.files.keys) (heq : Merge.home ms a = Merge.home ms b) : s.Grouped c a b := by
  induction h generalizing a b with
  | refl s =>
    rw [Merge.home_nil, Merge.home_nil] at heq
    subst heq
    exact .refl ha
  | step hcan hm hrun ih =>
    have hs' := hs.of_renames (renames_after _ _) fun _ hk => carry_mem_keys_after hcan hk
    have ha' := carry_mem_keys_after hcan ha
    have hb' := carry_mem_keys_after hcan hb
    exact (ih hs' ha' hb' heq).of_after hs hcan hm ha hb rfl rfl

/-! ## Nothing is left out -/

/-- When no merge is called for any more, grouped files have come to one place. -/
theorem Grouped.home_eq {P : State → Merge → Prop} (h : s.Grouped c a b) (hrun : Run P s ms t)
    (ht : Settled c t) : Merge.home ms a = Merge.home ms b := by
  induction h with
  | refl _ => rfl
  | symm _ ih => exact ih.symm
  | trans _ _ ih ih' => exact ih.trans ih'
  | assigned hc he hd ha =>
    obtain ⟨e', he', hr⟩ := hrun.renames.entry he
    have hd' := hr.definition
    rw [hd] at hd'
    exact (ht.assigned hc he' hd' ((hr.assignments _).mpr ⟨_, ha, rfl⟩)).symm
  | circular hxy hyx _ _ ihx ihy =>
    -- Otherwise the two homes would still import each other.
    by_contra hne
    have hxy' := hrun.renames.imports hxy (hrun.home_mem_keys hxy.mem_keys) hne
    have hyx' := hrun.renames.imports hyx (hrun.home_mem_keys hyx.mem_keys)
      (by rw [← ihx, ← ihy]; exact fun e => hne e.symm)
    rw [← ihx, ← ihy] at hyx'
    exact ht.circular hxy' hyx'

/-! ## The order of the tables -/

namespace Rearranged

theorem symm (h : s.Rearranged s') : s'.Rearranged s := ⟨h.files.symm, h.symbols.symm⟩

theorem mem_keys_iff (h : s.Rearranged s') : a ∈ s'.files.keys ↔ a ∈ s.files.keys :=
  (h.files.map Prod.fst).mem_iff

theorem size_eq (h : s.Rearranged s') : s'.files.size = s.files.size := h.files.length_eq

theorem get?_eq (h : s.Rearranged s') (n : String) : s'.symbols.get? n = s.symbols.get? n := by
  ext e
  rw [Table.get?_eq_some_iff, Table.get?_eq_some_iff, h.symbols.mem_iff]

theorem imports_iff (h : s.Rearranged s') : s'.Imports a b ↔ s.Imports a b := by
  simp only [State.imports_iff, h.mem_keys_iff, h.get?_eq]

theorem closed (h : s.Rearranged s') (hs : s.Closed) : s'.Closed := by
  refine ⟨fun he hd => ?_, fun he hk => ?_, fun he hk => ?_⟩ <;>
    rw [h.get?_eq] at he <;> rw [h.mem_keys_iff]
  · exact hs.definition he hd
  · exact hs.assignments he hk
  · exact hs.references he hk

theorem grouped (h : s.Rearranged s') (hab : s.Grouped c a b) : s'.Grouped c a b := by
  induction hab with
  | refl ha => exact .refl (h.mem_keys_iff.mpr ha)
  | symm _ ih => exact ih.symm
  | trans _ _ ih ih' => exact ih.trans ih'
  | assigned hc he hd ha => exact .assigned hc (by rw [h.get?_eq]; exact he) hd ha
  | circular hxy hyx _ _ ihx ihy =>
    exact .circular (h.imports_iff.mpr hxy) (h.imports_iff.mpr hyx) ihx ihy

theorem grouped_iff (h : s.Rearranged s') : s'.Grouped c a b ↔ s.Grouped c a b :=
  ⟨h.symm.grouped, h.grouped⟩

end Rearranged

/-! ## Resolutions -/

/-- Two files go into one file exactly when they are grouped. -/
theorem home_resolve_eq_iff {o : ResolveOptions} (hs : s.Closed) (hf : o.fixpoint = true)
    (hcap : (s.files.size : Int) ≤ o.maxPasses) (ha : a ∈ s.files.keys) (hb : b ∈ s.files.keys) :
    s.home (s.resolve o).value.1 a = s.home (s.resolve o).value.1 b ↔ s.Grouped o.combine a b := by
  obtain ⟨ms, hrun⟩ := resolve_run s o
  simp only [home, hrun.journal_eq]
  exact ⟨hrun.grouped hs ha hb, fun h => h.home_eq hrun (resolve_settled hs hf hcap)⟩

/-- A resolution that may go on to the end groups the files canonically. Files go into one file
exactly when `Grouped` holds of them, so the order of the tables does not matter to the grouping.
At the end no name is assigned outside its owner, when `combine` is set, and no two files import
each other. -/
theorem resolve_canonical (s : State) (o : ResolveOptions) (hs : s.Closed)
    (hf : o.fixpoint = true) (hcap : (s.files.size : Int) ≤ o.maxPasses) :
    let t := (s.resolve o).value.1
    t.merges = s.merges ++ (s.journal t).map .merged ∧
    (∀ k ∈ s.files.keys, s.home t k ∈ t.files.keys) ∧
    (∀ a ∈ s.files.keys, ∀ b ∈ s.files.keys,
      (s.home t a = s.home t b ↔ s.Grouped o.combine a b)) ∧
    (∀ s', s.Rearranged s' → ∀ a ∈ s.files.keys, ∀ b ∈ s.files.keys,
      (s'.home (s'.resolve o).value.1 a = s'.home (s'.resolve o).value.1 b ↔
        s.home t a = s.home t b)) ∧
    (o.combine = true → ∀ n e d k, t.symbols.get? n = some e → e.definition = some d →
      k ∈ e.assignments → k = d) ∧
    (∀ a b, t.importGraph.isMutual a b = false) := by
  obtain ⟨ms, hrun⟩ := resolve_run s o
  have hsettled := resolve_settled hs hf hcap
  refine ⟨?_, ?_, fun a ha b hb => home_resolve_eq_iff hs hf hcap ha hb, ?_, ?_, ?_⟩
  · rw [hrun.journal_eq]
    exact hrun.merges_eq
  · intro k hk
    simp only [home, hrun.journal_eq]
    exact hrun.home_mem_keys hk
  · intro s' h a ha b hb
    rw [home_resolve_eq_iff hs hf hcap ha hb, ← h.grouped_iff]
    exact home_resolve_eq_iff (h.closed hs) hf (by rw [h.size_eq]; exact hcap)
      (h.mem_keys_iff.mpr ha) (h.mem_keys_iff.mpr hb)
  · intro hc n e d k he hd hk
    exact hsettled.assigned hc he hd hk
  · intro a b
    rw [Bool.eq_false_iff]
    intro hmut
    obtain ⟨hab, hba⟩ := isMutual_importGraph_iff.mp hmut
    exact hsettled.circular hab hba

/-- Four files. `b.js` assigns a name of `a.js`, and the two together import from `c.js` and the
other way round; `d.js` is only read. -/
def ring : State :=
  { empty with
    files := .ofList [("a.js", "A"), ("b.js", "B"), ("c.js", "C"), ("d.js", "D")]
    symbols := .ofList [
      ("x", ⟨some "a.js", .ofList ["b.js"], .empty⟩),
      ("y", ⟨some "b.js", .empty, .ofList ["c.js"]⟩),
      ("z", ⟨some "c.js", .empty, .ofList ["a.js"]⟩),
      ("w", ⟨some "d.js", .empty, .ofList ["a.js"]⟩)] }

theorem resolve_canonical_ring :
    ring.Closed ∧ (ring.files.size : Int) ≤ 4 ∧
      let t := (ring.resolve ⟨true, true, 4, none⟩).value.1
      ring.home t "a.js" ∈ t.files.keys ∧ ring.home t "a.js" = ring.home t "c.js" ∧
        t.importGraph.isMutual "a.js" "d.js" = false := by
  have hclosed : ring.Closed := by decide
  obtain ⟨-, hmem, hgroup, -, -, hmut⟩ :=
    resolve_canonical ring ⟨true, true, 4, none⟩ hclosed rfl (by decide)
  have hab : ring.Grouped true "a.js" "b.js" :=
    .assigned rfl (n := "x") rfl rfl (by decide)
  -- `c.js` imports from `b.js`, and `a.js`, which belongs to `b.js`, imports from `c.js`.
  have hcb : ring.Grouped true "c.js" "b.js" :=
    .circular (by decide) (by decide) (.refl (by decide)) hab.symm
  refine ⟨hclosed, by decide, hmem _ (by decide), ?_, hmut _ _⟩
  exact (hgroup _ (by decide) _ (by decide)).mpr (hab.trans hcb.symm)

end State

end ScriptModules
