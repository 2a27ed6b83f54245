import ScriptModules.Proofs.Merge.Passes

/-!
# Merging loses and repeats nothing

After a run of merges, each file that is left holds the texts of the files that went into it, each
once and its own first. `Composition` says so for one file and a list of parts; a merge replaces
the survivor in such a list by the survivor and the retired file behind it (`expand`), which gives
the step from a state to the one before it, and a run by induction (`Run.composition`).
-/

namespace ScriptModules

namespace State

variable {s t : State} {m : Merge} {ms : List Merge} {k : String} {parts : List String}
  {P : State → Merge → Prop}

/-- The text of the file `k` of `t` is made up of the texts of the files `parts` of `s`, which are
the files that the merges `ms` put into `k`. -/
structure Composition (s t : State) (ms : List Merge) (k : String) (parts : List String) :
    Prop where
  head : parts.head? = some k
  nodup : parts.Nodup
  mem_iff : ∀ a, a ∈ parts ↔ a ∈ s.files.keys ∧ Merge.home ms a = k
  text : t.files.get? k = some (String.join (parts.map s.text))

/-- The files behind one file of the state after a merge. -/
def origins (m : Merge) (a : String) : List String :=
  if a = m.survivor then [m.survivor, m.retired] else [a]

/-- A list of files after a merge, as a list of files before it. -/
def expand (m : Merge) (parts : List String) : List String := parts.flatMap (origins m)

theorem mem_origins_iff {a b : String} (hb : b ≠ m.retired) :
    a ∈ origins m b ↔ m.carry a = b := by
  unfold origins Merge.carry
  split
  · next h =>
    subst h
    simp only [List.mem_cons, List.not_mem_nil, or_false]
    split
    · next ha => simp [ha]
    · next ha => simp [ha]
  · next h =>
    simp only [List.mem_singleton]
    split
    · next ha =>
      subst ha
      exact ⟨fun e => (hb e.symm).elim, fun e => (h e.symm).elim⟩
    · exact Iff.rfl

theorem mem_expand_iff (hparts : m.retired ∉ parts) {a : String} :
    a ∈ expand m parts ↔ m.carry a ∈ parts := by
  have hmem : ∀ {b}, b ∈ parts → (a ∈ origins m b ↔ m.carry a = b) := fun hb =>
    mem_origins_iff fun e => hparts (e ▸ hb)
  rw [expand, List.mem_flatMap]
  constructor
  · rintro ⟨b, hb, ha⟩
    rw [(hmem hb).mp ha]
    exact hb
  · intro ha
    exact ⟨m.carry a, ha, (hmem ha).mpr rfl⟩

theorem nodup_expand (hne : m.survivor ≠ m.retired) (hparts : m.retired ∉ parts)
    (hnodup : parts.Nodup) : (expand m parts).Nodup := by
  rw [expand, List.nodup_flatMap]
  constructor
  · intro b _
    unfold origins
    split <;> simp [hne]
  · -- Both files would be the file that `a` is carried to.
    refine hnodup.imp_of_mem fun {b b'} hb hb' hbb' => ?_
    intro a ha ha'
    have e := (mem_origins_iff fun e => hparts (e ▸ hb)).mp ha
    have e' := (mem_origins_iff fun e => hparts (e ▸ hb')).mp ha'
    exact hbb' (e.symm.trans e')

theorem head?_expand (h : parts.head? = some k) : (expand m parts).head? = some k := by
  cases parts with
  | nil => cases h
  | cons a parts =>
    simp only [List.head?_cons, Option.some.injEq] at h
    subst h
    rw [expand, List.flatMap_cons]
    unfold origins
    split
    · next h => simp [h]
    · rfl

/-- The texts before the merge, in the order of the expanded list, are the texts after it. -/
theorem join_expand (hparts : ∀ a ∈ parts, a ∈ (s.after m).files.keys) :
    String.join ((expand m parts).map s.text) = String.join (parts.map (s.after m).text) := by
  induction parts with
  | nil => rfl
  | cons a parts ih =>
    obtain ⟨ha, hrest⟩ := List.forall_mem_cons.mp hparts
    rw [expand, List.flatMap_cons, List.map_append, String.join_append, List.map_cons,
      String.join_cons, text_after ha]
    congr 1
    · unfold origins
      split
      · next h => simp [h]
      · simp
    · exact ih hrest

/-- The step from the state after a merge to the state before it. -/
theorem Composition.of_after (hcan : s.canAbsorb m.survivor m.retired = true)
    (h : Composition (s.after m) t ms k parts) :
    Composition s t (m :: ms) k (expand m parts) := by
  have hne := (canAbsorb_iff.mp hcan).1
  have hkeys : ∀ a ∈ parts, a ∈ (s.after m).files.keys := fun a ha => ((h.mem_iff a).mp ha).1
  have hparts : m.retired ∉ parts := fun hm => (mem_keys_after.mp (hkeys _ hm)).2 rfl
  refine ⟨head?_expand h.head, nodup_expand hne hparts h.nodup, fun a => ?_, ?_⟩
  · rw [mem_expand_iff hparts, h.mem_iff, Merge.home_cons]
    exact and_congr_left fun _ => ⟨mem_keys_of_carry hcan, carry_mem_keys_after hcan⟩
  · rw [join_expand hkeys]
    exact h.text

/-- The files that the merges `ms` put into the file `k`, in the order in which their texts stand
there. -/
def contents (ms : List Merge) (k : String) : List String := ms.foldr expand [k]

/-- Every file that is left after a run holds the texts of its contents, one after the other. -/
theorem Run.composition_contents (h : Run P s ms t) (hk : k ∈ t.files.keys) :
    Composition s t ms k (contents ms k) := by
  induction h with
  | refl s =>
    obtain ⟨v, hv⟩ := Table.exists_get?_of_mem_keys hk
    refine ⟨rfl, by simp [contents], fun a => ?_, ?_⟩
    · simp only [contents, List.foldr_nil, List.mem_singleton, Merge.home_nil]
      exact ⟨fun e => ⟨e ▸ hk, e⟩, And.right⟩
    · simp [contents, hv, text]
  | step hcan _ _ ih => exact (ih hk).of_after hcan

/-- Every file that is left after a run holds the texts of the files that went into it. -/
theorem Run.composition (h : Run P s ms t) (hk : k ∈ t.files.keys) :
    ∃ parts, Composition s t ms k parts :=
  ⟨_, h.composition_contents hk⟩

/-- A resolution loses and repeats nothing and keeps the order. The links from retired files to
survivors end, for every file, in exactly one file that is left: no file is retired twice, and none
takes a text in after it was retired. The files that are left keep their order, and the text of
each is that of the files whose links end in it, each once, its own first. -/
theorem resolve_conserves (s : State) (o : ResolveOptions) :
    let t := (s.resolve o).value.1
    let ms := s.journal t
    t.merges = s.merges ++ ms.map .merged ∧
    (ms.map (·.retired)).Nodup ∧
    ms.Pairwise (fun m n => n.survivor ≠ m.retired) ∧
    (WellFounded fun b a => Merge.Links ms a b) ∧
    (∀ k ∈ s.files.keys, ∃ l ∈ t.files.keys, ∀ x,
      (Relation.ReflTransGen (Merge.Links ms) k x ∧ ∀ y, ¬ Merge.Links ms x y) ↔ x = l) ∧
    t.files.keys.Sublist s.files.keys ∧
    (∀ k ∈ t.files.keys, ∃ parts : List String,
      parts.head? = some k ∧ parts.Nodup ∧
      (∀ a, a ∈ parts ↔ a ∈ s.files.keys ∧ Relation.ReflTransGen (Merge.Links ms) a k) ∧
      t.files.get? k = some (String.join (parts.map s.text))) := by
  obtain ⟨ms, hrun⟩ := resolve_run s o
  have horderly := hrun.orderly
  simp only [hrun.journal_eq]
  refine ⟨hrun.merges_eq, horderly.retired_nodup, horderly.later.imp And.right,
    horderly.wellFounded, fun k hk => ?_, hrun.keys_sublist, fun k hk => ?_⟩
  · exact ⟨Merge.home ms k, hrun.home_mem_keys hk, fun x => horderly.ends_iff⟩
  · obtain ⟨parts, hparts⟩ := hrun.composition hk
    refine ⟨parts, hparts.head, hparts.nodup, fun a => ?_, hparts.text⟩
    rw [hparts.mem_iff, horderly.chain_iff (hrun.mem_keys_iff.mp hk).2]

end State

end ScriptModules
