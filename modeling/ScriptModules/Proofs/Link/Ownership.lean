import Mathlib.Data.List.Pairwise
import ScriptModules.Proofs.Link.Linked

/-!
# The symbol table as a closed form

Declarations and uses of a name arrive part by part, in any order. What the tables hold in the end
is said here without the order of the steps: who owns a name is read off the list of the parts that
declare it (`owner?`), and the names stand in the order of first mention (`mentioned`).

* `define_definition`, `defineAll_definition`: the owner after a declaration, by
  `DuplicatePolicy.next`;
* `addPartitions_owner`: the owner of every name after all parts;
* `addPartitions_lists`: the order of the table;
* `addPartitions_error_iff`: where duplicates are errors, adding parts stops at the first
  declaration of a name that an earlier part declares.

Main statement: `addPartitions_tabulates`.
-/

namespace ScriptModules

/-- The owner of a name after the file `key` declared it too. -/
def DuplicatePolicy.next (policy : DuplicatePolicy) (existing : Option String) (key : String) :
    String :=
  match policy with
  | .last => key
  | .first | .error => existing.getD key

namespace Partition

variable {policy : DuplicatePolicy} {ps : List Partition} {p : Partition} {n : String}

instance (p : Partition) (n : String) : Decidable (p.Declares n) :=
  inferInstanceAs (Decidable (n ∈ p.analysis.declarations))

instance (p : Partition) (n : String) : Decidable (p.Reads n) :=
  inferInstanceAs (Decidable (∃ g ∈ p.analysis.globals, g.name = n ∧ g.isRead = true))

/-- Some part declares the name. -/
def Declared (ps : List Partition) (n : String) : Prop := ∃ p ∈ ps, p.Declares n

instance (ps : List Partition) (n : String) : Decidable (Declared ps n) :=
  inferInstanceAs (Decidable (∃ p ∈ ps, p.Declares n))

/-- The names that a part mentions: those that it declares, then those that it uses. -/
def mentions (p : Partition) : List String :=
  p.analysis.declarations ++ p.analysis.globals.map (·.name)

/-- The names that parts mention, each where it is mentioned first. -/
def mentioned (ps : List Partition) : List String := (ps.flatMap mentions).eraseDups

/-- The keys of the parts that declare a name, in order. -/
def declarers (ps : List Partition) (n : String) : List String :=
  (ps.filter (·.Declares n)).map (·.key)

/-- The owner of a name: the last part that declares it, or else the first. -/
def owner? (policy : DuplicatePolicy) (ps : List Partition) (n : String) : Option String :=
  match policy with
  | .last => (declarers ps n).getLast?
  | .first | .error => (declarers ps n).head?

/-- No two parts declare one name. -/
def Apart (ps : List Partition) : Prop :=
  ps.Pairwise fun p q => ∀ n, p.Declares n → ¬ q.Declares n

/-- Two parts declare one name. -/
def Contested (ps : List Partition) : Prop :=
  ∃ p ∈ ps, ∃ q ∈ ps, p.key ≠ q.key ∧ ∃ n, p.Declares n ∧ q.Declares n

/-- The first declaration, in the order of arrival, of a name that an earlier part declares: the
part `duplicate` declares `name`, which `existing` declared before. -/
def FirstConflict (ps : List Partition) (name existing duplicate : String) : Prop :=
  ∃ before p after, ps = before ++ p :: after ∧ p.key = duplicate ∧ Apart before ∧
    ∃ names more, p.analysis.declarations = names ++ name :: more ∧
      (∀ n ∈ names, ¬ Declared before n) ∧
      ∃ q ∈ before, q.key = existing ∧ q.Declares name

theorem declarers_snoc (ps : List Partition) (p : Partition) (n : String) :
    declarers (ps ++ [p]) n =
      if p.Declares n then declarers ps n ++ [p.key] else declarers ps n := by
  by_cases h : p.Declares n <;> simp [declarers, h]

/-- One more part changes the owners of the names that it declares. -/
theorem owner?_snoc (policy : DuplicatePolicy) (ps : List Partition) (p : Partition)
    (n : String) : owner? policy (ps ++ [p]) n =
      if p.Declares n then some (policy.next (owner? policy ps n) p.key)
      else owner? policy ps n := by
  unfold owner?
  rw [declarers_snoc]
  by_cases h : p.Declares n
  · cases policy <;> simp [h, DuplicatePolicy.next, List.head?_append]
  · simp [h]

theorem declares_of_owner {w : String} (h : owner? policy ps n = some w) :
    ∃ p ∈ ps, p.key = w ∧ p.Declares n := by
  have hmem : w ∈ declarers ps n := by
    cases policy with
    | last => exact List.mem_of_getLast? h
    | first => exact List.mem_of_head? h
    | error => exact List.mem_of_head? h
  obtain ⟨p, hp, rfl⟩ := List.mem_map.mp hmem
  obtain ⟨hps, hn⟩ := List.mem_filter.mp hp
  exact ⟨p, hps, rfl, of_decide_eq_true hn⟩

theorem mem_mentioned (h : Declared ps n) : n ∈ mentioned ps := by
  obtain ⟨p, hp, hn⟩ := h
  exact List.mem_eraseDups.mpr (List.mem_flatMap.mpr ⟨p, hp, List.mem_append_left _ hn⟩)

theorem contested_iff (hkeys : (ps.map (·.key)).Nodup) : Contested ps ↔ ¬ Apart ps := by
  have hps : ps.Nodup := hkeys.of_map
  constructor
  · rintro ⟨p, hp, q, hq, hne, n, hpn, hqn⟩ hapart
    have hsymm : Std.Symm fun p q : Partition => ∀ n, p.Declares n → ¬ q.Declares n :=
      ⟨fun _ _ h n hq hp => h n hp hq⟩
    exact hapart.forall hp hq (fun e => hne (congrArg _ e)) n hpn hqn
  · intro hapart
    by_contra hnot
    refine hapart (hps.pairwise_of_forall_ne fun p hp q hq hne n hpn hqn => ?_)
    have hkey : p.key ≠ q.key := fun e => hne (List.inj_on_of_nodup_map hkeys hp hq e)
    exact hnot ⟨p, hp, q, hq, hkey, n, hpn, hqn⟩

end Partition

namespace State

open ScriptModules.Partition (Declared Apart Contested FirstConflict declarers mentioned owner?)

variable {s s' t : State} {policy : DuplicatePolicy} {key n : String} {names : List String}
  {ps qs : List Partition} {p : Partition} {fault : LinkFault}

/-! ## Owners -/

theorem define_definition (h : (s.define policy key n).value = (s', .ok ())) (a : String) :
    (s'.entry a).definition =
      if a = n then some (policy.next (s.entry a).definition key) else (s.entry a).definition := by
  unfold define at h
  split at h
  · next hn =>
    cases h
    rw [entry_withEntry]
    split
    · next ha => cases policy <;> simp [ha, hn, DuplicatePolicy.next]
    · rfl
  · next existing he =>
    split at h
    · next hk =>
      cases h
      split
      · next ha => cases policy <;> simp [ha, he, hk, DuplicatePolicy.next]
      · rfl
    · split at h
      · cases h
      · next owner hc =>
        cases h
        rw [entry_withEntry]
        split
        · next ha => cases policy <;> cases hc <;> simp [ha, he, DuplicatePolicy.next]
        · rfl

/-- Declaring a name once more changes nothing. -/
theorem next_next (policy : DuplicatePolicy) (existing : Option String) (key : String) :
    policy.next (some (policy.next existing key)) key = policy.next existing key := by
  cases policy <;> rfl

theorem defineAll_definition (names : List String) (s : State)
    (h : (defineAll policy key s names).value = (s', .ok ())) (a : String) :
    (s'.entry a).definition =
      if a ∈ names then some (policy.next (s.entry a).definition key)
      else (s.entry a).definition := by
  induction names generalizing s with
  | nil =>
    cases h
    simp
  | cons n names ih =>
    obtain ⟨s₁, h₁, h⟩ := defineAll_cons_ok.mp h
    rw [ih s₁ h, define_definition h₁]
    by_cases han : a = n <;> by_cases ha : a ∈ names <;> simp [han, ha, next_next]

/-- The owner of each name is read off the parts. -/
def Owned (policy : DuplicatePolicy) (ps : List Partition) (s : State) : Prop :=
  ∀ n, (s.entry n).definition = owner? policy ps n

theorem Owned.snoc (hs : Owned policy ps s)
    (h : (s.addPartition policy p.key p.text p.source p.analysis).value = (s', .ok ())) :
    Owned policy (ps ++ [p]) s' := by
  intro n
  obtain ⟨-, s₁, hall, huse⟩ := addPartition_ok h
  have hplace : ((s.place p.key p.text p.source).entry n).definition = owner? policy ps n := hs n
  rw [huse.definition, defineAll_definition _ _ hall, Partition.owner?_snoc, hplace]
  rfl

/-! ## The order of the table -/

/-- The table holds the names that were mentioned, each where it was mentioned first. -/
def Lists (s : State) (names : List String) : Prop := s.symbols.keys = names.eraseDups

theorem Lists.mention (hs : s.Lists names) (hn : n ∈ s.symbols.keys) : s.Lists (names ++ [n]) := by
  unfold Lists at *
  rw [hs, List.mem_eraseDups] at hn
  rw [eraseDups_append_singleton, if_pos hn, hs]

theorem Lists.withEntry (hs : s.Lists names) (n : String) (f : SymbolEntry → SymbolEntry) :
    (s.withEntry n f).Lists (names ++ [n]) := by
  unfold Lists at *
  have hcontains : s.symbols.contains n = true ↔ n ∈ names := by
    rw [Table.contains_iff, hs, List.mem_eraseDups]
  rw [eraseDups_append_singleton]
  simp only [State.withEntry, Table.keys_insert, hcontains, hs]

theorem Lists.define (hs : s.Lists names) (h : (s.define policy key n).value = (s', .ok ())) :
    s'.Lists (names ++ [n]) := by
  unfold State.define at h
  split at h
  · cases h
    exact hs.withEntry n _
  · next existing he =>
    obtain ⟨e, hget, -⟩ := definition_entry_iff.mp he
    split at h
    · cases h
      exact hs.mention (Table.mem_keys_of_get? hget)
    · split at h
      · cases h
      · cases h
        exact hs.withEntry n _

theorem Lists.defineAll (ns : List String) (s : State) (hs : s.Lists names)
    (h : (defineAll policy key s ns).value = (s', .ok ())) : s'.Lists (names ++ ns) := by
  induction ns generalizing s names with
  | nil =>
    cases h
    rwa [List.append_nil]
  | cons n ns ih =>
    obtain ⟨s₁, h₁, h⟩ := defineAll_cons_ok.mp h
    rw [List.append_cons]
    exact ih s₁ (hs.define h₁) h

theorem Lists.foldl_use (gs : List GlobalName) (s : State) (hs : s.Lists names) :
    (gs.foldl (fun s g => (s.use key g).value) s).Lists (names ++ gs.map (·.name)) := by
  induction gs generalizing s names with
  | nil => simpa using hs
  | cons g gs ih =>
    rw [List.map_cons, List.append_cons]
    exact ih _ (hs.withEntry g.name _)

theorem Lists.addPartition (hs : s.Lists names)
    (h : (s.addPartition policy p.key p.text p.source p.analysis).value = (s', .ok ())) :
    s'.Lists (names ++ p.mentions) := by
  obtain ⟨-, s₁, hall, rfl⟩ := addPartition_steps h
  have hplace : (s.place p.key p.text p.source).Lists names := hs
  rw [Partition.mentions, ← List.append_assoc]
  exact Lists.foldl_use _ s₁ (hplace.defineAll _ _ hall)

/-! ## All parts -/

/-- What every part that is added keeps, all of them keep. -/
theorem addPartitions_run {I : List Partition → State → Prop} (hempty : I [] .empty)
    (hstep : ∀ {ps s p s'}, I ps s →
      (s.addPartition policy p.key p.text p.source p.analysis).value = (s', .ok ()) →
      I (ps ++ [p]) s')
    (h : (addPartitions policy .empty ps).value = (t, .ok ())) : I ps t := by
  suffices hfrom : ∀ {qs ps s}, I ps s → (addPartitions policy s qs).value = (t, .ok ()) →
      I (ps ++ qs) t from hfrom hempty h
  intro qs
  induction qs with
  | nil =>
    intro ps s hs h
    cases h
    rwa [List.append_nil]
  | cons q qs ih =>
    intro ps s hs h
    obtain ⟨s₁, h₁, h⟩ := addPartitions_cons_ok.mp h
    rw [List.append_cons]
    exact ih (hstep hs h₁) h

theorem addPartitions_owner (h : (addPartitions policy .empty ps).value = (s, .ok ())) :
    Owned policy ps s :=
  addPartitions_run (fun n => by cases policy <;> rfl) (fun hs h₁ => hs.snoc h₁) h

theorem addPartitions_lists (h : (addPartitions policy .empty ps).value = (s, .ok ())) :
    s.Lists (ps.flatMap (·.mentions)) := by
  refine addPartitions_run (I := fun ps s => s.Lists (ps.flatMap (·.mentions))) rfl
    (fun hs h₁ => ?_) h
  rw [List.flatMap_append, List.flatMap_singleton]
  exact hs.addPartition h₁

theorem addPartitions_summarized (h : (addPartitions policy .empty ps).value = (s, .ok ())) :
    Summary ps s :=
  addPartitions_run Summary.empty (fun hs h₁ => hs.snoc h₁) h

theorem addPartitions_purged (h : (addPartitions policy .empty ps).value = (s, .ok ())) :
    s.purged = [] := by
  refine addPartitions_run (I := fun _ s => s.purged = []) rfl (fun hs h₁ => ?_) h
  obtain ⟨-, s₁, hall, huse⟩ := addPartition_ok h₁
  rw [(defineAll_ok _ _ hall).only.trans huse.only]
  exact hs

/-! ## Where adding parts stops -/

theorem defineAll_append (ns ms : List String) (s : State) :
    (defineAll policy key s (ns ++ ms)).value =
      match (defineAll policy key s ns).value with
      | (s₁, .ok ()) => (defineAll policy key s₁ ms).value
      | (s₁, .error fault) => (s₁, .error fault) := by
  induction ns generalizing s with
  | nil => rfl
  | cons n ns ih =>
    simp only [List.cons_append, defineAll, Logged.value_bind]
    obtain ⟨s₁, (fault | ⟨⟩)⟩ := (s.define policy key n).value
    · rfl
    · exact ih s₁

theorem addPartitions_append (ps qs : List Partition) (s : State) :
    (addPartitions policy s (ps ++ qs)).value =
      match (addPartitions policy s ps).value with
      | (s₁, .ok ()) => (addPartitions policy s₁ qs).value
      | (s₁, .error fault) => (s₁, .error fault) := by
  induction ps generalizing s with
  | nil => rfl
  | cons p ps ih =>
    simp only [List.cons_append, addPartitions, Logged.value_bind]
    obtain ⟨s₁, (fault | ⟨⟩)⟩ :=
      (s.addPartition policy p.key p.text p.source p.analysis).value
    · rfl
    · exact ih s₁

theorem addPartitions_singleton (policy : DuplicatePolicy) (s : State) (p : Partition) :
    (addPartitions policy s [p]).value =
      (s.addPartition policy p.key p.text p.source p.analysis).value := by
  simp only [addPartitions, Logged.value_bind]
  obtain ⟨s₁, (f | ⟨⟩)⟩ :=
    (s.addPartition policy p.key p.text p.source p.analysis).value <;> rfl

theorem addPartitions_cons_error
    (h : (s.addPartition policy p.key p.text p.source p.analysis).value.2 = .error fault)
    (qs : List Partition) : (addPartitions policy s (p :: qs)).value.2 = .error fault := by
  simp only [addPartitions, Logged.value_bind]
  generalize (s.addPartition policy p.key p.text p.source p.analysis).value = r at h
  obtain ⟨s₁, (f | ⟨⟩)⟩ := r
  · exact h
  · cases h

theorem define_error_iff : (s.define .error key n).value.2 = .error fault ↔
    ∃ d, (s.entry n).definition = some d ∧ d ≠ key ∧ fault = .duplicateDefinition n d key := by
  unfold define
  split
  · next hn => simp [hn]
  · next existing he =>
    rw [he]
    split
    · next hk => simp [hk]
    · next hk =>
      constructor
      · intro h
        cases h
        exact ⟨existing, rfl, hk, rfl⟩
      · rintro ⟨d, hd, -, rfl⟩
        cases hd
        rfl

/-- Declarations stop at the first that another file owns. -/
theorem defineAll_error_iff (names : List String) (s : State) :
    (defineAll .error key s names).value.2 = .error fault ↔
      ∃ ns n ms d, names = ns ++ n :: ms ∧
        (∀ m ∈ ns, ∀ d, (s.entry m).definition = some d → d = key) ∧
        (s.entry n).definition = some d ∧ d ≠ key ∧ fault = .duplicateDefinition n d key := by
  constructor
  · intro h
    induction names generalizing s with
    | nil => cases h
    | cons n names ih =>
      rw [defineAll, Logged.value_bind] at h
      generalize hd : (s.define .error key n).value = r at h
      obtain ⟨s₁, (f | ⟨⟩)⟩ := r
      · have hstop : (s.define .error key n).value.2 = .error fault := by rw [hd]; exact h
        obtain ⟨d, hnd, hne, rfl⟩ := define_error_iff.mp hstop
        exact ⟨[], n, names, d, rfl, by simp, hnd, hne, rfl⟩
      · obtain ⟨ns, m, ms, d, rfl, hns, hmd, hne, rfl⟩ := ih s₁ h
        obtain ⟨hn, hkeep⟩ := define_error_ok hd
        refine ⟨n :: ns, m, ms, d, rfl, ?_, ?_, hne, rfl⟩
        · exact List.forall_mem_cons.mpr ⟨hn, fun a ha d had => hns a ha d (hkeep a d had)⟩
        · exact ((define_ok hd).owner hmd).resolve_right fun h => hne h.1
  · rintro ⟨ns, n, ms, d, rfl, hns, hnd, hne, rfl⟩
    have hfits : ∃ s₁, (defineAll .error key s ns).value = (s₁, .ok ()) :=
      defineAll_fits ns s fun _ => hns
    obtain ⟨s₁, h₁⟩ := hfits
    have hkeep : (s₁.entry n).definition = some d := by
      rw [defineAll_definition _ _ h₁, hnd]
      split <;> rfl
    have hstop := define_error_iff.mpr ⟨d, hkeep, hne, rfl⟩
    rw [defineAll_append, h₁]
    simp only [defineAll, Logged.value_bind]
    generalize (s₁.define .error key n).value = r at hstop
    obtain ⟨s₂, (f | ⟨⟩)⟩ := r
    · exact hstop
    · cases hstop

theorem Summary.isSome_iff (hs : Summary ps s) :
    (s.entry n).definition.isSome = true ↔ Declared ps n := by
  constructor
  · intro h
    obtain ⟨d, hd⟩ := Option.isSome_iff_exists.mp h
    obtain ⟨p, hp, -, hn⟩ := hs.owner hd
    exact ⟨p, hp, hn⟩
  · rintro ⟨p, hp, hn⟩
    exact hs.declared hp hn

/-- Of the parts so far, at most one declares a name, and then it owns the name. -/
theorem Summary.definition_iff (hs : Summary ps s) (hkeys : (ps.map (·.key)).Nodup)
    (hapart : Apart ps) {d : String} :
    (s.entry n).definition = some d ↔ ∃ q ∈ ps, q.key = d ∧ q.Declares n := by
  refine ⟨hs.owner, ?_⟩
  rintro ⟨q, hq, rfl, hqn⟩
  obtain ⟨d, hd⟩ := Option.isSome_iff_exists.mp (hs.declared hq hqn)
  obtain ⟨r, hr, rfl, hrn⟩ := hs.owner hd
  by_contra hne
  have hkey : q.key ≠ r.key := fun e => hne (e ▸ hd)
  exact (Partition.contested_iff hkeys).mp ⟨q, hq, r, hr, hkey, n, hqn, hrn⟩ hapart

theorem addPartition_error_iff_defineAll (hkey : p.key ∉ s.files.keys) :
    (s.addPartition policy p.key p.text p.source p.analysis).value.2 = .error fault ↔
      (defineAll policy p.key (s.place p.key p.text p.source)
        p.analysis.declarations).value.2 = .error fault := by
  unfold addPartition
  simp only [Table.contains_eq_false hkey, Bool.false_eq_true, if_false, fold, Logged.value_bind]
  obtain ⟨s₁, (f | ⟨⟩)⟩ := (defineAll policy p.key (s.place p.key p.text p.source)
    p.analysis.declarations).value
  · rfl
  · constructor <;> intro h <;> cases h

/-- A part is refused on account of the first of its names that an earlier part declares. -/
theorem Summary.addPartition_error_iff (hs : Summary ps s) (hkeys : ((ps ++ [p]).map (·.key)).Nodup)
    (hapart : Apart ps) :
    (s.addPartition .error p.key p.text p.source p.analysis).value.2 = .error fault ↔
      ∃ names n more, p.analysis.declarations = names ++ n :: more ∧
        (∀ m ∈ names, ¬ Declared ps m) ∧
        ∃ q ∈ ps, q.Declares n ∧ fault = .duplicateDefinition n q.key p.key := by
  rw [List.map_append, List.map_singleton, ← List.concat_eq_append, List.nodup_concat] at hkeys
  obtain ⟨hfresh, hkeys⟩ := hkeys
  have hfiles : p.key ∉ s.files.keys := by rwa [hs.keys_eq]
  have hentry : ∀ a, (s.place p.key p.text p.source).entry a = s.entry a := fun _ => rfl
  -- The file at hand owns nothing yet.
  have hother : ∀ {m d}, (s.entry m).definition = some d → d ≠ p.key := by
    rintro m d hd rfl
    obtain ⟨q, hq, hqk, -⟩ := hs.owner hd
    exact hfresh (hqk ▸ List.mem_map.mpr ⟨q, hq, rfl⟩)
  have hfree : ∀ m, (∀ d, (s.entry m).definition = some d → d = p.key) ↔ ¬ Declared ps m := by
    intro m
    rw [← hs.isSome_iff, Option.isSome_iff_exists]
    exact ⟨fun h ⟨d, hd⟩ => hother hd (h d hd), fun h d hd => (h ⟨d, hd⟩).elim⟩
  simp only [addPartition_error_iff_defineAll hfiles, defineAll_error_iff, hentry, hfree]
  constructor
  · rintro ⟨ns, n, ms, d, hdecl, hns, hd, -, rfl⟩
    obtain ⟨q, hq, rfl, hqn⟩ := hs.owner hd
    exact ⟨ns, n, ms, hdecl, hns, q, hq, hqn, rfl⟩
  · rintro ⟨ns, n, ms, hdecl, hns, q, hq, hqn, rfl⟩
    have hd := (hs.definition_iff hkeys hapart).mpr ⟨q, hq, rfl, hqn⟩
    exact ⟨ns, n, ms, q.key, hdecl, hns, hd, hother hd, rfl⟩

/-- Where duplicates are errors, adding parts stops at the first conflict. -/
theorem addPartitions_error_iff (hkeys : (ps.map (·.key)).Nodup) :
    (addPartitions .error .empty ps).value.2 = .error fault ↔
      ∃ n existing duplicate, fault = .duplicateDefinition n existing duplicate ∧
        FirstConflict ps n existing duplicate := by
  constructor
  · intro h
    induction ps using List.reverseRecOn with
    | nil => cases h
    | append_singleton ps p ih =>
      have hkeys' : (ps.map (·.key)).Nodup := by
        rw [List.map_append] at hkeys
        exact hkeys.of_append_left
      rw [addPartitions_append] at h
      generalize hr : (addPartitions .error .empty ps).value = r at h
      obtain ⟨s, (f | ⟨⟩)⟩ := r
      · obtain ⟨n, e, d, rfl, before, q, after, rfl, hrest⟩ := ih hkeys' (by rw [hr]; exact h)
        exact ⟨n, e, d, rfl, before, q, after ++ [p], by simp, hrest⟩
      · have hsum := addPartitions_summarized hr
        have hapart : Apart ps := (admissible_iff.mpr ⟨s, hr⟩).names rfl
        simp only [addPartitions_singleton] at h
        obtain ⟨ns, n, ms, hdecl, hns, q, hq, hqn, rfl⟩ :=
          (hsum.addPartition_error_iff hkeys hapart).mp h
        exact ⟨n, q.key, p.key, rfl, ps, p, [], rfl, rfl, hapart, ns, ms, hdecl, hns, q, hq, rfl,
          hqn⟩
  · rintro ⟨n, -, -, rfl, before, p, after, rfl, rfl, hapart, ns, ms, hdecl, hns, q, hq, rfl, hqn⟩
    rw [List.append_cons, List.map_append] at hkeys
    have hkeys' := hkeys.of_append_left
    have hbefore : (before.map (·.key)).Nodup := by
      rw [List.map_append] at hkeys'
      exact hkeys'.of_append_left
    have hadmissible : Admissible .error before := ⟨hbefore, fun _ => hapart⟩
    obtain ⟨s, hs, hsum⟩ := addPartitions_summary hadmissible
    have hstop := (hsum.addPartition_error_iff hkeys' hapart).mpr
      ⟨ns, n, ms, hdecl, hns, q, hq, hqn, rfl⟩
    rw [addPartitions_append, hs]
    exact addPartitions_cons_error hstop after

/-! ## The purged tables -/

/-- The purged tables are exactly what the parts say: the declared names in the order of first
mention, each with its owner, the parts that assign it and the parts that read it; and the names
that are mentioned but not declared. -/
structure Tabulates (policy : DuplicatePolicy) (ps : List Partition) (t : State) : Prop where
  names : t.symbols.keys = (mentioned ps).filter (Declared ps ·)
  purged : t.purged = (mentioned ps).filter (¬ Declared ps ·)
  definition : ∀ {n e}, t.symbols.get? n = some e → e.definition = owner? policy ps n
  assignments : ∀ {n e}, t.symbols.get? n = some e →
    ∀ k, k ∈ e.assignments ↔ ∃ p ∈ ps, p.key = k ∧ p.Assigns n
  references : ∀ {n e}, t.symbols.get? n = some e →
    ∀ k, k ∈ e.references ↔ ∃ p ∈ ps, p.key = k ∧ p.Reads n

theorem addPartitions_purge (h : (addPartitions policy .empty ps).value = (s, .ok ())) :
    Tabulates policy ps s.purge.value.1 := by
  have hsum := addPartitions_summarized h
  have hnames : s.symbols.keys = mentioned ps := addPartitions_lists h
  have hdeclared : ∀ e ∈ s.symbols.entries,
      e.2.definition.isSome = decide (Declared ps e.1) := by
    intro e he
    rw [← entry_eq (Table.get?_eq_some_iff.mpr he), Bool.eq_iff_iff, hsum.isSome_iff,
      decide_eq_true_iff]
  refine ⟨?_, ?_, fun he => ?_, fun he k => ?_, fun he k => ?_⟩
  · rw [← hnames]
    exact Table.map_fst_filter hdeclared
  · have hundeclared : s.undeclared = s.symbols.keys.filter (¬ Declared ps ·) := by
      refine Table.map_fst_filter fun e he => ?_
      rw [← Option.not_isSome, hdeclared e he, decide_not]
    show s.purged ++ s.undeclared = _
    rw [addPartitions_purged h, hundeclared, hnames, List.nil_append]
  · rw [← entry_eq (get?_purge.mp he).1]
    exact addPartitions_owner h _
  · rw [← entry_eq (get?_purge.mp he).1]
    exact hsum.assignments _ k
  · rw [← entry_eq (get?_purge.mp he).1]
    exact hsum.references _ k

theorem exists_error_iff {r : Outcome State Unit} :
    (∃ fault, r.2 = .error fault) ↔ ¬ ∃ s, r = (s, .ok ()) := by
  obtain ⟨s, (fault | ⟨⟩)⟩ := r <;> simp

/-- Parts with distinct keys are added one after the other. That fails exactly when duplicates are
errors and two parts declare one name, and then with the first conflict. Otherwise the purged tables
are the closed form of the parts. -/
theorem addPartitions_tabulates (policy : DuplicatePolicy) (hkeys : (ps.map (·.key)).Nodup) :
    ((∃ fault, (addPartitions policy .empty ps).value.2 = .error fault) ↔
      policy = .error ∧ Contested ps) ∧
    (∀ fault, (addPartitions policy .empty ps).value.2 = .error fault ↔
      policy = .error ∧ ∃ n existing duplicate,
        fault = .duplicateDefinition n existing duplicate ∧
          FirstConflict ps n existing duplicate) ∧
    (¬ (policy = .error ∧ Contested ps) →
      ∃ s, (addPartitions policy .empty ps).value = (s, .ok ()) ∧
        Tabulates policy ps s.purge.value.1) := by
  have hfails : (∃ fault, (addPartitions policy .empty ps).value.2 = .error fault) ↔
      policy = .error ∧ Contested ps := by
    rw [exists_error_iff, ← admissible_iff, Partition.contested_iff hkeys]
    constructor
    · intro h
      by_contra hnot
      exact h ⟨hkeys, fun hp => by_contra fun hapart => hnot ⟨hp, hapart⟩⟩
    · rintro ⟨hp, hapart⟩ h
      exact hapart (h.names hp)
  refine ⟨hfails, fun fault => ?_, fun h => ?_⟩
  · constructor
    · intro h
      obtain ⟨rfl, -⟩ := hfails.mp ⟨fault, h⟩
      exact ⟨rfl, (addPartitions_error_iff hkeys).mp h⟩
    · rintro ⟨rfl, hconflict⟩
      exact (addPartitions_error_iff hkeys).mpr hconflict
  · rw [← hfails, exists_error_iff, not_not] at h
    obtain ⟨s, hs⟩ := h
    exact ⟨s, hs, addPartitions_purge hs⟩

/-- Parts that use names before these are declared, and that declare one name three times. -/
def handover : List Partition :=
  [⟨"a.js", "A", "a.js", ["f"],
      [⟨"g", [⟨0, 1, true⟩, ⟨2, 3, false⟩]⟩, ⟨"window", [⟨4, 10, false⟩]⟩]⟩,
   ⟨"b.js", "B", "b.js", ["g", "f"], [⟨"h", [⟨0, 1, true⟩]⟩]⟩,
   ⟨"c.js", "C", "c.js", ["f", "h"], [⟨"g", [⟨0, 1, false⟩]⟩, ⟨"document", [⟨2, 10, false⟩]⟩]⟩]

theorem addPartitions_tabulates_handover : (handover.map (·.key)).Nodup ∧
    (∃ s, (addPartitions .last .empty handover).value = (s, .ok ()) ∧
      Tabulates .last handover s.purge.value.1 ∧
      s.purge.value.1.symbols.keys = ["f", "g", "h"] ∧
      s.purge.value.1.purged = ["window", "document"] ∧
      owner? .last handover "f" = some "c.js" ∧ owner? .first handover "f" = some "a.js") ∧
    (addPartitions .error .empty handover).value.2 =
      .error (.duplicateDefinition "f" "a.js" "b.js") := by
  have hkeys : (handover.map (·.key)).Nodup := by decide
  obtain ⟨-, -, hlast⟩ := addPartitions_tabulates .last hkeys
  obtain ⟨-, herror, -⟩ := addPartitions_tabulates .error hkeys
  obtain ⟨s, hs, htab⟩ := hlast fun h => nomatch h.1
  refine ⟨hkeys, ⟨s, hs, htab, ?_, ?_, by decide, by decide⟩,
    (herror _).mpr ⟨rfl, _, _, _, rfl, ?_⟩⟩
  · rw [htab.names]
    decide +kernel
  · rw [htab.purged]
    decide +kernel
  · exact ⟨[_], _, [_], rfl, rfl, List.pairwise_singleton _ _, ["g"], [], rfl, by decide, _,
      List.mem_singleton_self _, rfl, by decide⟩

end State

end ScriptModules
