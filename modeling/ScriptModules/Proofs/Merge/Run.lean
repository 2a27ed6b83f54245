import ScriptModules.Merge.Absorb
import ScriptModules.Proofs.Data.Table
import ScriptModules.Proofs.Merge.Journal

/-!
# Runs of merges

Everything that resolution does to a state is a sequence of merges. `Run P s ms t` says that the
merges `ms`, one after the other, lead from `s` to `t`, that each of them had something to do when
its turn came, and that `P` held of it then. What a run does is said once here, whatever called for
its merges:

* `Run.merges_eq`, `Run.orderly`: the journal grows by exactly `ms`, which is orderly;
* `Run.keys_sublist`, `Run.mem_keys_iff`, `Run.size_eq`: the files that stay keep their order, and
  a file is gone exactly when a merge retired it;
* `Run.renames`: every file named in the symbol table is replaced by its home, and nothing else
  happens to the symbols.

`State.Closed` says that the symbol table names no file which is not there; runs keep it.
-/

namespace ScriptModules

/-- `e'` is the entry `e` with each file `k` in it called `φ k`. -/
structure SymbolEntry.Renamed (φ : String → String) (e e' : SymbolEntry) : Prop where
  definition : e'.definition = e.definition.map φ
  assignments : ∀ k, k ∈ e'.assignments ↔ ∃ a ∈ e.assignments, φ a = k
  references : ∀ k, k ∈ e'.references ↔ ∃ a ∈ e.references, φ a = k

namespace SymbolEntry

variable {φ ψ : String → String} {e e' f : SymbolEntry}

theorem Renamed.id (e : SymbolEntry) : e.Renamed (fun k => k) e := ⟨by simp, by simp, by simp⟩

theorem Renamed.comp (h : e.Renamed φ e') (h' : e'.Renamed ψ f) :
    e.Renamed (fun k => ψ (φ k)) f := by
  refine ⟨?_, fun k => ?_, fun k => ?_⟩
  · rw [h'.definition, h.definition, Option.map_map]
    rfl
  · simp only [h'.assignments, h.assignments]
    grind
  · simp only [h'.references, h.references]
    grind

theorem Renamed.users (h : e.Renamed φ e') (k : String) :
    k ∈ e'.users ↔ ∃ a ∈ e.users, φ a = k := by
  simp only [SymbolEntry.users, KeySet.mem_union, h.assignments, h.references]
  grind

theorem mem_replace_iff {s : KeySet} {m : Merge} {k : String} :
    k ∈ s.replace m.retired m.survivor ↔ ∃ a ∈ s, m.carry a = k := by
  rw [KeySet.mem_replace]
  constructor
  · rintro (⟨hk, hne⟩ | ⟨hr, rfl⟩)
    · exact ⟨k, hk, Merge.carry_of_ne hne⟩
    · exact ⟨m.retired, hr, m.carry_retired⟩
  · rintro ⟨a, ha, rfl⟩
    by_cases h : a = m.retired
    · subst h
      exact .inr ⟨ha, m.carry_retired⟩
    · rw [Merge.carry_of_ne h]
      exact .inl ⟨ha, h⟩

/-- A merge renames the files of an entry. -/
theorem renamed_repoint (e : SymbolEntry) (m : Merge) :
    e.Renamed m.carry (e.repoint m.retired m.survivor) := by
  refine ⟨?_, fun k => mem_replace_iff, fun k => mem_replace_iff⟩
  simp only [repoint]
  cases e.definition with
  | none => simp
  | some d =>
    by_cases h : d = m.retired
    · simp [h, Merge.carry]
    · simp [h, Merge.carry]

end SymbolEntry

namespace State

/-- The text of a file; empty for a key that is not there. -/
def text (s : State) (k : String) : String := (s.files.get? k).getD ""

/-- The state after a merge that has something to do. -/
def after (s : State) (m : Merge) : State := s.absorbed m.survivor m.retired (.merged m)

/-- Every file that the symbol table names is in the file table. -/
structure Closed (s : State) : Prop where
  definition : ∀ {n e d}, s.symbols.get? n = some e → e.definition = some d → d ∈ s.files.keys
  assignments : ∀ {n e k}, s.symbols.get? n = some e → k ∈ e.assignments → k ∈ s.files.keys
  references : ∀ {n e k}, s.symbols.get? n = some e → k ∈ e.references → k ∈ s.files.keys

/-- The symbols of `t` are those of `s`, with each file `k` called `φ k`. -/
structure Renames (φ : String → String) (s t : State) : Prop where
  keys_eq : t.symbols.keys = s.symbols.keys
  entry : ∀ {n e}, s.symbols.get? n = some e → ∃ e', t.symbols.get? n = some e' ∧ e.Renamed φ e'

/-- `Run P s ms t`: the merges `ms` lead from `s` to `t`, and `P` held of each at its turn. -/
inductive Run (P : State → Merge → Prop) : State → List Merge → State → Prop
  | refl (s : State) : Run P s [] s
  | step {s t : State} {m : Merge} {ms : List Merge}
      (hcan : s.canAbsorb m.survivor m.retired = true) (hP : P s m)
      (hrun : Run P (s.after m) ms t) : Run P s (m :: ms) t

/-! ## One merge -/

variable {s t u : State} {m : Merge} {ms ns : List Merge} {P Q : State → Merge → Prop}

theorem canAbsorb_iff {a b : String} :
    s.canAbsorb a b = true ↔ a ≠ b ∧ b ∈ s.files.keys ∧ a ∈ s.files.keys := by
  simp only [canAbsorb, Bool.and_eq_true, decide_eq_true_eq, Table.contains_iff, and_assoc]

theorem value_merge (s : State) (m : Merge) : (s.merge m).value =
    if s.canAbsorb m.survivor m.retired then (s.after m, true) else (s, false) := by
  unfold merge absorb
  split <;> rfl

theorem keys_after (s : State) (m : Merge) :
    (s.after m).files.keys = s.files.keys.filter (· ≠ m.retired) := by
  simp [after, absorbed, Table.keys_erase]

theorem mem_keys_after {k : String} :
    k ∈ (s.after m).files.keys ↔ k ∈ s.files.keys ∧ k ≠ m.retired := by
  rw [keys_after]
  simp

theorem symbols_after (s : State) (m : Merge) :
    (s.after m).symbols = s.symbols.map fun _ e => e.repoint m.retired m.survivor := rfl

theorem merges_after (s : State) (m : Merge) : (s.after m).merges = s.merges ++ [.merged m] := rfl

/-- The survivor of a merge gets the text of the retired file appended; other files keep theirs. -/
theorem get?_after {k : String} (hk : k ≠ m.retired) : (s.after m).files.get? k =
    if k = m.survivor then (s.files.get? k).map (· ++ s.text m.retired) else s.files.get? k := by
  simp only [after, absorbed, Table.get?_erase, Table.get?_modify, text]
  rw [if_neg hk]

theorem text_after {k : String} (hk : k ∈ (s.after m).files.keys) : (s.after m).text k =
    if k = m.survivor then s.text k ++ s.text m.retired else s.text k := by
  obtain ⟨hmem, hne⟩ := mem_keys_after.mp hk
  obtain ⟨v, hv⟩ := Table.exists_get?_of_mem_keys hmem
  rw [text, get?_after hne]
  split
  · simp [text, hv]
  · rfl

theorem carry_mem_keys_after (hcan : s.canAbsorb m.survivor m.retired = true) {k : String}
    (hk : k ∈ s.files.keys) : m.carry k ∈ (s.after m).files.keys := by
  obtain ⟨hne, -, hs⟩ := canAbsorb_iff.mp hcan
  rw [mem_keys_after]
  refine ⟨?_, Merge.carry_ne_retired hne k⟩
  unfold Merge.carry
  split
  · exact hs
  · exact hk

/-- A key that a merge carries to a file was a file. -/
theorem mem_keys_of_carry (hcan : s.canAbsorb m.survivor m.retired = true) {k : String}
    (hk : m.carry k ∈ (s.after m).files.keys) : k ∈ s.files.keys := by
  by_cases hretired : k = m.retired
  · rw [hretired]
    exact (canAbsorb_iff.mp hcan).2.1
  · rw [Merge.carry_of_ne hretired] at hk
    exact (mem_keys_after.mp hk).1

theorem size_after (hcan : s.canAbsorb m.survivor m.retired = true) :
    s.files.size = (s.after m).files.size + 1 := by
  obtain ⟨-, hr, -⟩ := canAbsorb_iff.mp hcan
  have herase : s.files.keys.filter (· ≠ m.retired) = s.files.keys.erase m.retired := by
    rw [s.files.keys_nodup.erase_eq_filter]
    exact List.filter_congr fun k _ => by rw [Bool.eq_iff_iff]; simp
  have hlen := List.length_erase_of_mem hr
  have hpos := List.length_pos_of_mem hr
  rw [Table.size_eq, Table.size_eq, keys_after, herase]
  omega

/-! ## Renaming the files of the symbol table -/

theorem Renames.id (s : State) : Renames (fun k => k) s s :=
  ⟨rfl, fun {_ e} h => ⟨e, h, .id e⟩⟩

theorem Renames.comp {φ ψ : String → String} (h : Renames φ s t) (h' : Renames ψ t u) :
    Renames (fun k => ψ (φ k)) s u := by
  refine ⟨h'.keys_eq.trans h.keys_eq, fun he => ?_⟩
  obtain ⟨e', he', hr⟩ := h.entry he
  obtain ⟨f, hf, hr'⟩ := h'.entry he'
  exact ⟨f, hf, hr.comp hr'⟩

/-- Every symbol after the renaming comes from one before it. -/
theorem Renames.source {φ : String → String} (h : Renames φ s t) {n : String} {e' : SymbolEntry}
    (he' : t.symbols.get? n = some e') : ∃ e, s.symbols.get? n = some e ∧ e.Renamed φ e' := by
  have hn : n ∈ s.symbols.keys := h.keys_eq ▸ Table.mem_keys_of_get? he'
  obtain ⟨e, he⟩ := Table.exists_get?_of_mem_keys hn
  obtain ⟨f, hf, hr⟩ := h.entry he
  rw [he'] at hf
  cases hf
  exact ⟨e, he, hr⟩

theorem renames_after (s : State) (m : Merge) : Renames m.carry s (s.after m) := by
  refine ⟨by rw [symbols_after, Table.keys_map], fun {n e} he => ?_⟩
  refine ⟨e.repoint m.retired m.survivor, ?_, e.renamed_repoint m⟩
  rw [symbols_after, Table.get?_map, he]
  rfl

theorem closed_iff : s.Closed ↔ ∀ p ∈ s.symbols.entries,
    (∀ d ∈ p.2.definition, d ∈ s.files.keys) ∧ (∀ k ∈ p.2.users.items, k ∈ s.files.keys) := by
  constructor
  · intro hs p hp
    have he := Table.get?_eq_some_iff.mpr hp
    refine ⟨fun d hd => hs.definition he hd, fun k hk => ?_⟩
    rcases KeySet.mem_union.mp hk with hk | hk
    · exact hs.assignments he hk
    · exact hs.references he hk
  · intro h
    refine ⟨fun he hd => ?_, fun he hk => ?_, fun he hk => ?_⟩ <;>
      obtain ⟨hdef, husers⟩ := h _ (Table.get?_eq_some_iff.mp he)
    · exact hdef _ hd
    · exact husers _ (KeySet.mem_union.mpr (.inl hk))
    · exact husers _ (KeySet.mem_union.mpr (.inr hk))

instance (s : State) : Decidable s.Closed := decidable_of_iff _ closed_iff.symm

/-- A renaming that leads into the new file table keeps the symbol table closed. -/
theorem Closed.of_renames {φ : String → String} (hs : s.Closed) (h : Renames φ s t)
    (hφ : ∀ k ∈ s.files.keys, φ k ∈ t.files.keys) : t.Closed := by
  refine ⟨fun he hd => ?_, fun he hk => ?_, fun he hk => ?_⟩
  · obtain ⟨e, hse, hr⟩ := h.source he
    rw [hr.definition] at hd
    obtain ⟨d, hsd, rfl⟩ := Option.map_eq_some_iff.mp hd
    exact hφ d (hs.definition hse hsd)
  · obtain ⟨e, hse, hr⟩ := h.source he
    obtain ⟨a, ha, rfl⟩ := (hr.assignments _).mp hk
    exact hφ a (hs.assignments hse ha)
  · obtain ⟨e, hse, hr⟩ := h.source he
    obtain ⟨a, ha, rfl⟩ := (hr.references _).mp hk
    exact hφ a (hs.references hse ha)

/-! ## Whole runs -/

namespace Run

theorem mono (hPQ : ∀ s m, P s m → Q s m) (h : Run P s ms t) : Run Q s ms t := by
  induction h with
  | refl s => exact .refl s
  | step hcan hP _ ih => exact .step hcan (hPQ _ _ hP) ih

theorem append (h : Run P s ms t) (h' : Run P t ns u) : Run P s (ms ++ ns) u := by
  induction h with
  | refl s => exact h'
  | step hcan hP _ ih => exact .step hcan hP (ih h')

theorem merges_eq (h : Run P s ms t) : t.merges = s.merges ++ ms.map .merged := by
  induction h with
  | refl s => simp
  | step hcan hP _ ih => simp [ih, merges_after]

theorem journal_eq (h : Run P s ms t) : s.journal t = ms := State.journal_eq h.merges_eq

theorem keys_sublist (h : Run P s ms t) : t.files.keys.Sublist s.files.keys := by
  induction h with
  | refl s => exact .refl _
  | step hcan hP _ ih =>
    rw [keys_after] at ih
    exact ih.trans List.filter_sublist

theorem size_eq (h : Run P s ms t) : s.files.size = t.files.size + ms.length := by
  induction h with
  | refl s => simp
  | step hcan hP _ ih =>
    rw [size_after hcan, ih, List.length_cons]
    omega

/-- A run only speaks of files that are there at its start. -/
theorem mem_keys (h : Run P s ms t) :
    ∀ m ∈ ms, m.retired ∈ s.files.keys ∧ m.survivor ∈ s.files.keys := by
  induction h with
  | refl s => simp
  | step hcan hP _ ih =>
    intro n hn
    rcases List.mem_cons.mp hn with rfl | hn
    · exact (canAbsorb_iff.mp hcan).2
    · obtain ⟨hr, hs⟩ := ih n hn
      exact ⟨(mem_keys_after.mp hr).1, (mem_keys_after.mp hs).1⟩

theorem orderly (h : Run P s ms t) : Merge.Orderly ms := by
  induction h with
  | refl s => exact .nil
  | step hcan hP hrun ih =>
    refine Merge.Orderly.cons_iff.mpr ⟨(canAbsorb_iff.mp hcan).1, fun n hn => ?_, ih⟩
    obtain ⟨hr, hs⟩ := hrun.mem_keys n hn
    exact ⟨(mem_keys_after.mp hr).2, (mem_keys_after.mp hs).2⟩

/-- A file is gone exactly when a merge retired it. -/
theorem mem_keys_iff (h : Run P s ms t) {k : String} :
    k ∈ t.files.keys ↔ k ∈ s.files.keys ∧ ∀ m ∈ ms, m.retired ≠ k := by
  induction h with
  | refl s => simp
  | step hcan hP _ ih =>
    rw [ih, mem_keys_after, List.forall_mem_cons, and_assoc, ne_comm]

theorem home_mem_keys (h : Run P s ms t) {k : String} (hk : k ∈ s.files.keys) :
    Merge.home ms k ∈ t.files.keys := by
  induction h generalizing k with
  | refl s => exact hk
  | step hcan hP _ ih => exact ih (carry_mem_keys_after hcan hk)

theorem renames (h : Run P s ms t) : Renames (Merge.home ms) s t := by
  induction h with
  | refl s => exact .id s
  | step hcan hP _ ih => exact (renames_after _ _).comp ih

theorem closed (h : Run P s ms t) (hs : s.Closed) : t.Closed :=
  hs.of_renames h.renames fun _ hk => h.home_mem_keys hk

/-- A key that comes to stand at a file was a file. -/
theorem mem_keys_of_home (h : Run P s ms t) {k : String} (hk : Merge.home ms k ∈ t.files.keys) :
    k ∈ s.files.keys := by
  by_contra hne
  have hstay : Merge.home ms k = k :=
    Merge.home_of_not_retired fun m hm e => hne (e ▸ (h.mem_keys m hm).1)
  rw [hstay] at hk
  exact hne (h.keys_sublist.subset hk)

/-- A file that is left stands where it stood. -/
theorem home_of_mem_keys (h : Run P s ms t) {k : String} (hk : k ∈ t.files.keys) :
    Merge.home ms k = k :=
  Merge.home_of_not_retired (h.mem_keys_iff.mp hk).2

/-! ## What folded files have in common -/

variable {E : String → String → Prop}

/-- One more merge folds no unrelated files together, when it joins two places at which related
files stand. -/
theorem related_snoc (hE : Equivalence E)
    (hrel : ∀ a b, Merge.home ns a = Merge.home ns b → E a b)
    (hm : ∃ a b, Merge.home ns a = m.survivor ∧ Merge.home ns b = m.retired ∧ E a b) (a b : String)
    (heq : Merge.home (ns ++ [m]) a = Merge.home (ns ++ [m]) b) : E a b := by
  obtain ⟨x, y, hx, hy, hxy⟩ := hm
  rw [Merge.home_append, Merge.home_append] at heq
  rcases Merge.carry_eq_carry_iff.mp heq with h | ⟨ha, hb⟩ | ⟨ha, hb⟩
  · exact hrel a b h
  · have hay : E a y := hrel a y (ha.trans hy.symm)
    have hxb : E x b := hrel x b (hx.trans hb.symm)
    exact hE.trans hay (hE.trans (hE.symm hxy) hxb)
  · have hax : E a x := hrel a x (ha.trans hx.symm)
    have hyb : E y b := hrel y b (hy.trans hb.symm)
    exact hE.trans hax (hE.trans hxy hyb)

/-- A run folds related files only, when each of its merges joins two places at which related files
stand. The relation is one of the first state; what calls for a merge is read in the state that the
merge is made in, and led back through the merges before it. -/
theorem related (hE : Equivalence E)
    (hstep : ∀ {u ns m}, Run P s ns u → (∀ a b, Merge.home ns a = Merge.home ns b → E a b) →
      m.survivor ≠ m.retired → P u m →
      ∃ a b, Merge.home ns a = m.survivor ∧ Merge.home ns b = m.retired ∧ E a b)
    (h : Run P s ms t) (a b : String) (heq : Merge.home ms a = Merge.home ms b) : E a b := by
  -- The run is taken apart from the front; `ns` are the merges that were made already.
  suffices hfrom : ∀ {u v ms}, Run P u ms v → ∀ {ns}, Run P s ns u →
      (∀ a b, Merge.home ns a = Merge.home ns b → E a b) →
      ∀ a b, Merge.home (ns ++ ms) a = Merge.home (ns ++ ms) b → E a b by
    refine hfrom h (.refl s) (fun a b hab => ?_) a b heq
    rw [Merge.home_nil, Merge.home_nil] at hab
    exact hab ▸ hE.refl a
  intro u v ms hrun
  induction hrun with
  | refl u =>
    intro ns _ hrel
    rwa [List.append_nil]
  | step hcan hP _ ih =>
    intro ns hns hrel
    have hm := hstep hns hrel (canAbsorb_iff.mp hcan).1 hP
    rw [List.append_cons]
    exact ih (hns.append (.step hcan hP (.refl _))) (related_snoc hE hrel hm)

end Run

end State

end ScriptModules
