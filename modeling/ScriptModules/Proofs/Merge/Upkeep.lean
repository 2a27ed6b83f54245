import ScriptModules.Proofs.Link.Ingest
import ScriptModules.Proofs.Link.Linked

/-!
# The tables stay closed

Parts are added, each under a policy of its own and whatever comes of it: a part that fails leaves
what it noted so far. The tables are then purged, and any operations follow that fold files
together. `Sound` says what holds at every point: each name has an owner, the tables speak of no
file that is not there, and files and sources have the same keys.

* `addPartition_changes`: what adding a part can do, also when it fails;
* `Upkept.absorbed`: what one merge keeps, if its journal entry names the file that goes;
* `Upkept.run`, `Upkept.apply`, `Upkept.operate`: the same for runs of merges and for operations.

Main statement: `operations_sound`.
-/

namespace ScriptModules

/-- The journal entry says that the file `k` is gone. -/
def MergeRecord.Retires : MergeRecord → String → Prop
  | .merged m, k => m.retired = k
  | .unchecked _ retired _ _, k => retired = .text k

namespace State

variable {s s' t u : State} {policy : DuplicatePolicy} {key : String} {p : Partition}

/-! ## Adding parts, whatever comes of it -/

/-- Adds parts one after the other, each under its own policy; one that fails does not end it. -/
def addEach (s : State) (calls : List (DuplicatePolicy × Partition)) : State :=
  calls.foldl (fun s c =>
    (s.addPartition c.1 c.2.key c.2.text c.2.source c.2.analysis).value.1) s

/-- Declarations are noted up to the first that fails. -/
theorem defineAll_defined (policy : DuplicatePolicy) (key : String) (names : List String)
    (s : State) : ∃ ns, (∀ n ∈ ns, n ∈ names) ∧
      Defined key ns s (defineAll policy key s names).value.1 := by
  induction names generalizing s with
  | nil => exact ⟨[], by simp, .nil key s⟩
  | cons n names ih =>
    simp only [defineAll, Logged.value_bind]
    generalize hd : (s.define policy key n).value = r
    obtain ⟨s₁, (fault | ⟨⟩)⟩ := r
    · obtain ⟨rfl, -⟩ := define_error hd
      exact ⟨[], by simp, .nil key _⟩
    · obtain ⟨ns, hsub, hns⟩ := ih s₁
      refine ⟨[n] ++ ns, ?_, (define_ok hd).trans hns⟩
      exact List.forall_mem_cons.mpr ⟨by simp, fun m hm => by simp [hsub m hm]⟩

/-- A part is not added at all, or it is placed and some of its declarations and uses are noted. -/
theorem addPartition_changes (policy : DuplicatePolicy) (s : State) (p : Partition) :
    let s' := (s.addPartition policy p.key p.text p.source p.analysis).value.1
    s' = s ∨ p.key ∉ s.files.keys ∧ ∃ ns gs s₁,
      (∀ n ∈ ns, n ∈ p.analysis.declarations) ∧ (∀ g ∈ gs, g ∈ p.analysis.globals) ∧
      Defined p.key ns (s.place p.key p.text p.source) s₁ ∧ Used p.key gs s₁ s' := by
  unfold addPartition
  split
  · exact .inl rfl
  · next hk =>
    refine .inr ⟨fun hm => hk ((Table.contains_iff _ _).mpr hm), ?_⟩
    obtain ⟨ns, hsub, hns⟩ := defineAll_defined policy p.key p.analysis.declarations
      (s.place p.key p.text p.source)
    simp only [fold, Logged.value_bind]
    generalize (defineAll policy p.key (s.place p.key p.text p.source)
      p.analysis.declarations).value = r at hns ⊢
    obtain ⟨s₁, (fault | ⟨⟩)⟩ := r
    · exact ⟨ns, [], s₁, hsub, by simp, hns, .nil _ _⟩
    · refine ⟨ns, p.analysis.globals, s₁, hsub, fun _ hg => hg, hns, ?_⟩
      simp only [Logged.value_bind, Logged.value_pure, Logged.value_foldlM]
      exact foldl_use_used p.key _ s₁

theorem closed_iff_entry : s.Closed ↔ ∀ n,
    (∀ d, (s.entry n).definition = some d → d ∈ s.files.keys) ∧
    (∀ k ∈ (s.entry n).assignments, k ∈ s.files.keys) ∧
    ∀ k ∈ (s.entry n).references, k ∈ s.files.keys := by
  constructor
  · intro hs n
    unfold entry
    cases he : s.symbols.get? n with
    | none => simp [SymbolEntry.empty, KeySet.mem_def, KeySet.empty]
    | some e => exact ⟨fun d => hs.definition he, fun k => hs.assignments he,
        fun k => hs.references he⟩
  · intro h
    refine ⟨fun he hd => ?_, fun he hk => ?_, fun he hk => ?_⟩
    · exact (h _).1 _ (by rwa [entry_eq he])
    · exact (h _).2.1 _ (by rwa [entry_eq he])
    · exact (h _).2.2 _ (by rwa [entry_eq he])

/-- What holds of the tables while parts are added: they speak of no file that is not there, files
and sources have the same keys, and nothing was merged. -/
structure Gathered (s : State) : Prop where
  closed : s.Closed
  paired : s.Paired
  merges_eq : s.merges = []

theorem Gathered.empty : Gathered .empty :=
  ⟨⟨nofun, nofun, nofun⟩, rfl, rfl⟩

theorem Gathered.addPartition (hs : Gathered s) (policy : DuplicatePolicy) (p : Partition) :
    Gathered (s.addPartition policy p.key p.text p.source p.analysis).value.1 := by
  rcases s.addPartition_changes policy p with heq | ⟨hk, ns, gs, s₁, -, -, hdef, huse⟩
  · rwa [heq]
  · generalize (s.addPartition policy p.key p.text p.source p.analysis).value.1 = s' at huse ⊢
    have honly := hdef.only.trans huse.only
    have hfiles : s'.files.keys = s.files.keys ++ [p.key] := by
      rw [honly]
      simp [place, Table.keys_insert, Table.contains_eq_false hk]
    have hsources : s'.sources.keys = s.sources.keys ++ [p.key] := by
      rw [honly]
      have hk' : p.key ∉ s.sources.keys := by rwa [hs.paired]
      simp [place, Table.keys_insert, Table.contains_eq_false hk']
    have hold := closed_iff_entry.mp hs.closed
    refine ⟨closed_iff_entry.mpr fun n => ?_, ?_, ?_⟩
    · have hentry : (s.place p.key p.text p.source).entry n = s.entry n := rfl
      simp only [huse.definition, huse.assignments, huse.references, hdef.assignments,
        hdef.references, hentry, hfiles, List.mem_append, List.mem_singleton]
      refine ⟨fun d hd => ?_, fun k hk => ?_, fun k hk => ?_⟩
      · rcases hdef.owner hd with hd | ⟨rfl, -⟩
        · exact .inl ((hold n).1 d hd)
        · exact .inr rfl
      · exact hk.imp ((hold n).2.1 k) And.left
      · exact hk.imp ((hold n).2.2 k) And.left
    · rw [Paired, hsources, hfiles, hs.paired]
    · rw [honly]
      exact hs.merges_eq

theorem Gathered.addEach (hs : Gathered s) (calls : List (DuplicatePolicy × Partition)) :
    Gathered (s.addEach calls) :=
  List.foldlRecOn calls _ hs fun _ h c _ => h.addPartition c.1 c.2

/-! ## Sound tables -/

/-- Every name has an owner, the symbol table names files that are there, files and sources have
the same keys, and no trace is left of a file that was folded into another. -/
structure Sound (s : State) : Prop where
  owned : ∀ {n e}, s.symbols.get? n = some e → ∃ d ∈ s.files.keys, e.definition = some d
  assignments : ∀ {n e k}, s.symbols.get? n = some e → k ∈ e.assignments → k ∈ s.files.keys
  references : ∀ {n e k}, s.symbols.get? n = some e → k ∈ e.references → k ∈ s.files.keys
  paired : s.sources.keys = s.files.keys
  retired : ∀ {r k}, r ∈ s.merges → r.Retires k → k ∉ s.files.keys ∧
    ∀ {n e}, s.symbols.get? n = some e →
      e.definition ≠ some k ∧ k ∉ e.assignments ∧ k ∉ e.references

/-- What every merge keeps, counted from the state `u`: the symbol table is closed and owned, each
file has a source, and the files that `u` has and `s` has not are those that the journal retires. -/
structure Upkept (u s : State) : Prop where
  closed : s.Closed
  owned : ∀ {n e}, s.symbols.get? n = some e → e.definition.isSome = true
  paired : s.Paired
  mem_keys_iff : ∀ {k}, k ∈ s.files.keys ↔
    k ∈ u.files.keys ∧ ∀ r ∈ s.merges, ¬ r.Retires k
  retired_mem : ∀ {r k}, r ∈ s.merges → r.Retires k → k ∈ u.files.keys

/-- A closed symbol table does not name files that are gone. -/
theorem Upkept.sound (h : Upkept u s) : Sound s := by
  refine ⟨fun he => ?_, h.closed.assignments, h.closed.references, h.paired, fun hr hk => ?_⟩
  · obtain ⟨d, hd⟩ := Option.isSome_iff_exists.mp (h.owned he)
    exact ⟨d, h.closed.definition he hd, hd⟩
  · have hgone := fun hmem => (h.mem_keys_iff.mp hmem).2 _ hr hk
    exact ⟨hgone, fun he => ⟨fun hd => hgone (h.closed.definition he hd),
      fun hmem => hgone (h.closed.assignments he hmem),
      fun hmem => hgone (h.closed.references he hmem)⟩⟩

theorem Upkept.gone_iff (h : Upkept u s) {k : String} :
    k ∈ u.files.keys ∧ k ∉ s.files.keys ↔ ∃ r ∈ s.merges, r.Retires k := by
  rw [h.mem_keys_iff]
  constructor
  · rintro ⟨hk, hgone⟩
    by_contra hnot
    exact hgone ⟨hk, fun r hr hrk => hnot ⟨r, hr, hrk⟩⟩
  · rintro ⟨r, hr, hrk⟩
    exact ⟨h.retired_mem hr hrk, fun hk => hk.2 r hr hrk⟩

theorem Gathered.purge (hs : Gathered s) : Upkept s.purge.value.1 s.purge.value.1 := by
  have hmerges : s.purge.value.1.merges = [] := hs.merges_eq
  refine ⟨⟨fun he => ?_, fun he => ?_, fun he => ?_⟩, fun he => (get?_purge.mp he).2, hs.paired,
    ?_, ?_⟩
  · exact hs.closed.definition (get?_purge.mp he).1
  · exact hs.closed.assignments (get?_purge.mp he).1
  · exact hs.closed.references (get?_purge.mp he).1
  · simp [hmerges]
  · simp [hmerges]

/-- One merge: the journal entry may say anything else, as long as it names the retired file. -/
theorem Upkept.absorbed (h : Upkept u s) {survivor retired : String} {record : MergeRecord}
    (hcan : s.canAbsorb survivor retired = true)
    (hrecord : ∀ k, record.Retires k ↔ retired = k) :
    Upkept u (s.absorbed survivor retired record) := by
  obtain ⟨-, hretired, -⟩ := canAbsorb_iff.mp hcan
  -- But for the journal, this is the state after any other merge of the two files.
  let m : Merge := ⟨survivor, retired, .assignment, none⟩
  have hrenames := s.renames_after m
  have hclosed : (s.after m).Closed :=
    h.closed.of_renames hrenames fun _ hk => carry_mem_keys_after hcan hk
  have hkeys : ∀ {k}, k ∈ (s.absorbed survivor retired record).files.keys ↔
      k ∈ s.files.keys ∧ k ≠ retired := mem_keys_after (m := m)
  have hmerges : (s.absorbed survivor retired record).merges = s.merges ++ [record] := rfl
  refine ⟨⟨hclosed.definition, hclosed.assignments, hclosed.references⟩, fun he => ?_, ?_, ?_, ?_⟩
  · obtain ⟨e, hse, hr⟩ := hrenames.source he
    rw [hr.definition, Option.isSome_map]
    exact h.owned hse
  · have hsources : (s.after m).sources.keys = s.sources.keys.filter (· ≠ m.retired) :=
      Table.keys_erase _ _
    exact hsources.trans (by rw [h.paired, ← keys_after]; rfl)
  · intro k
    rw [hkeys, h.mem_keys_iff, hmerges, List.forall_mem_append, List.forall_mem_singleton, hrecord,
      and_assoc, ne_comm]
  · intro r k hr hrk
    rw [hmerges, List.mem_append, List.mem_singleton] at hr
    rcases hr with hr | rfl
    · exact h.retired_mem hr hrk
    · obtain rfl := (hrecord k).mp hrk
      exact (h.mem_keys_iff.mp hretired).1

variable {P : State → Merge → Prop} {ms : List Merge}

theorem Upkept.run (h : Upkept u s) (hrun : Run P s ms t) : Upkept u t := by
  induction hrun with
  | refl s => exact h
  | step hcan hP _ ih => exact ih (h.absorbed hcan fun _ => Iff.rfl)

/-! ## Operations -/

/-- What can be asked of the tables once they are purged. -/
inductive Operation where
  | merge (m : Merge)
  /-- A merge whose reason and symbol were not checked. -/
  | mergeUnchecked (survivor retired : String) (reason symbol : Value)
  | combine
  | joinCircular
  | resolve (o : ResolveOptions)

/-- The state after an operation. -/
def Operation.apply (s : State) : Operation → State
  | .merge m => (s.merge m).value.1
  | .mergeUnchecked survivor retired reason symbol =>
    (s.absorb survivor retired
      (.unchecked (.text survivor) (.text retired) reason symbol)).value.1
  | .combine => s.combine.value.1
  | .joinCircular => s.joinCircular.value.1
  | .resolve o => (s.resolve o).value.1

/-- The state after operations, one after the other. -/
def operate (s : State) (ops : List Operation) : State := ops.foldl Operation.apply s

theorem Upkept.absorb (h : Upkept u s) {survivor retired : String} {record : MergeRecord}
    (hrecord : ∀ k, record.Retires k ↔ retired = k) :
    Upkept u (s.absorb survivor retired record).value.1 := by
  unfold State.absorb
  split
  · next hcan => exact h.absorbed hcan hrecord
  · exact h

theorem Upkept.apply (h : Upkept u s) (op : Operation) : Upkept u (op.apply s) := by
  cases op with
  | merge m => exact h.absorb fun _ => Iff.rfl
  | mergeUnchecked survivor retired reason symbol =>
    refine h.absorb fun k => ?_
    rw [MergeRecord.Retires, Value.text.injEq]
  | combine =>
    obtain ⟨ms, hrun, -⟩ := combine_advances s
    exact h.run hrun
  | joinCircular =>
    obtain ⟨ms, hrun, -⟩ := joinCircular_advances s
    exact h.run hrun
  | resolve o =>
    obtain ⟨ms, hrun⟩ := resolve_run s o
    exact h.run hrun

theorem Upkept.operate (h : Upkept u s) (ops : List Operation) : Upkept u (s.operate ops) :=
  List.foldlRecOn ops _ h fun _ h op _ => h.apply op

theorem absorb_false_iff {survivor retired : String} {record : MergeRecord} :
    (s.absorb survivor retired record).value.2 = false ↔
      survivor = retired ∨ retired ∉ s.files.keys ∨ survivor ∉ s.files.keys := by
  have hcan : s.canAbsorb survivor retired = false ↔
      survivor = retired ∨ retired ∉ s.files.keys ∨ survivor ∉ s.files.keys := by
    rw [← Bool.not_eq_true, canAbsorb_iff, not_and_or, not_and_or, not_not]
  rw [← hcan]
  unfold absorb
  split <;> simp_all

theorem absorb_of_false {survivor retired : String} {record : MergeRecord}
    (h : (s.absorb survivor retired record).value.2 = false) :
    (s.absorb survivor retired record).value.1 = s := by
  unfold absorb at h ⊢
  split at h
  · cases h
  · next hcan => rw [if_neg hcan]

/-- However parts are added, and whatever operations follow the purge, the tables are sound. The
files that are gone are those that the journal retires, and a merge that does nothing leaves the
state as it is. -/
theorem operations_sound (calls : List (DuplicatePolicy × Partition)) (ops : List Operation) :
    let u := (State.empty.addEach calls).purge.value.1
    let t := u.operate ops
    Sound t ∧
    (∀ k, k ∈ u.files.keys ∧ k ∉ t.files.keys ↔ ∃ r ∈ t.merges, r.Retires k) ∧
    ∀ survivor retired record,
      ((t.absorb survivor retired record).value.2 = false ↔
        survivor = retired ∨ retired ∉ t.files.keys ∨ survivor ∉ t.files.keys) ∧
      ((t.absorb survivor retired record).value.2 = false →
        (t.absorb survivor retired record).value.1 = t) := by
  intro u t
  have hupkept : Upkept u t := (Gathered.empty.addEach calls).purge.operate ops
  exact ⟨hupkept.sound, fun _ => hupkept.gone_iff,
    fun _ _ _ => ⟨absorb_false_iff, absorb_of_false⟩⟩

end State

end ScriptModules
