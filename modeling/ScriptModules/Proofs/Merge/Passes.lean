import ScriptModules.Merge.Resolve
import ScriptModules.Proofs.Graph.Import
import ScriptModules.Proofs.Merge.Run

/-!
# The passes of a resolution as runs

Both passes walk over lists that were taken before their first merge, while the merges rewrite the
tables under them. Still each merge is called for by the state that it is made in:

* `combine_advances`: a pass of `combine` is a run of merges that fold an assigning file into the
  owner (`Assigned`);
* `joinCircular_advances`: a pass of `joinCircular` is a run of merges of two files that import
  each other (`Mutual`);
* `resolve_run`: a resolution is a run of such merges.

In the other direction, a pass that merges nothing has looked at everything: `combine_fixed` and
`joinCircular_fixed` say what is settled then, and `resolve_settled` that passes go on until it is,
when the cap allows as many of them as there are files.
-/

namespace ScriptModules

/-! ## Folds that count their changes -/

/-- Each step changes nothing or raises the count. -/
def Progress {σ α : Type} (f : σ → α → σ) (count : σ → Nat) : Prop :=
  ∀ a x, f a x = a ∨ count a < count (f a x)

/-- A fold of such steps raises the count, unless no step had anything to do. -/
theorem Progress.foldl {σ α : Type} {f : σ → α → σ} {count : σ → Nat} (h : Progress f count)
    (l : List α) (a : σ) :
    (l.foldl f a = a ∧ ∀ x ∈ l, f a x = a) ∨ count a < count (l.foldl f a) := by
  induction l generalizing a with
  | nil => exact .inl ⟨rfl, by simp⟩
  | cons x l ih =>
    rw [List.foldl_cons]
    rcases h a x with hx | hx
    · rw [hx]
      rcases ih a with ⟨hl, hall⟩ | hl
      · exact .inl ⟨hl, List.forall_mem_cons.mpr ⟨hx, hall⟩⟩
      · exact .inr hl
    · right
      rcases ih (f a x) with ⟨hl, -⟩ | hl
      · rw [hl]
        exact hx
      · exact Nat.lt_trans hx hl

/-- When the count stays, no step had anything to do. -/
theorem Progress.fixed {σ α : Type} {f : σ → α → σ} {count : σ → Nat} (h : Progress f count)
    {l : List α} {a : σ} (heq : count (l.foldl f a) = count a) :
    l.foldl f a = a ∧ ∀ x ∈ l, f a x = a := by
  rcases h.foldl l a with hfix | hlt
  · exact hfix
  · rw [heq] at hlt
    exact (Nat.lt_irrefl _ hlt).elim

namespace State

variable {s t : State} {P Q : State → Merge → Prop}

/-- The merge folds a file that assigns a name into the owner of the name. -/
def Assigned (s : State) (m : Merge) : Prop :=
  m.reason = .assignment ∧ ∃ n e, m.symbol = some n ∧ s.symbols.get? n = some e ∧
    e.definition = some m.survivor ∧ m.retired ∈ e.assignments

/-- The merge folds two files together that import each other. -/
def Mutual (s : State) (m : Merge) : Prop :=
  m.reason = .circular ∧ m.symbol = none ∧ s.Imports m.survivor m.retired ∧
    s.Imports m.retired m.survivor

/-- The merges that a resolution may make; `combine` tells whether assignments count. -/
def Called (combine : Bool) (s : State) (m : Merge) : Prop :=
  (combine = true ∧ s.Assigned m) ∨ s.Mutual m

/-- A run leads from one state to another, and the count grows by its length. -/
def Advances (P : State → Merge → Prop) (a b : State × Nat) : Prop :=
  ∃ ms, Run P a.1 ms b.1 ∧ b.2 = a.2 + ms.length

namespace Advances

variable {a b c : State × Nat}

theorem refl (a : State × Nat) : Advances P a a := ⟨[], .refl _, rfl⟩

theorem trans (h : Advances P a b) (h' : Advances P b c) : Advances P a c := by
  obtain ⟨ms, hrun, hcount⟩ := h
  obtain ⟨ns, hrun', hcount'⟩ := h'
  refine ⟨ms ++ ns, hrun.append hrun', ?_⟩
  rw [hcount', hcount, List.length_append]
  omega

theorem step {m : Merge} {n : Nat} (hcan : s.canAbsorb m.survivor m.retired = true) (hP : P s m) :
    Advances P (s, n) (s.after m, n + 1) :=
  ⟨[m], .step hcan hP (.refl _), rfl⟩

end Advances

/-- What calls for the merges of a run holds of each of them. -/
theorem Run.forall_mem {R : Merge → Prop} {ms : List Merge} (hPR : ∀ s m, P s m → R m)
    (h : Run P s ms t) : ∀ m ∈ ms, R m := by
  induction h with
  | refl s => simp
  | step hcan hP _ ih => exact List.forall_mem_cons.mpr ⟨hPR _ _ hP, ih⟩

/-! ## Folding assigning files into owners -/

theorem definition_entry_iff {n d : String} : (s.entry n).definition = some d ↔
    ∃ e, s.symbols.get? n = some e ∧ e.definition = some d := by
  unfold entry
  cases s.symbols.get? n <;> simp [SymbolEntry.empty]

theorem entry_eq {n : String} {e : SymbolEntry} (h : s.symbols.get? n = some e) :
    s.entry n = e := by
  simp [entry, h]

theorem value_combineFile {name owner : String} (acc : State × Nat) (other : String)
    (h : (acc.1.entry name).definition = some owner) : (combineFile name acc other).value =
      if acc.1.canAbsorb owner other then
        (acc.1.after ⟨owner, other, .assignment, some name⟩, acc.2 + 1)
      else acc := by
  unfold combineFile
  rw [h]
  simp only [Logged.value_bind, Logged.value_pure, value_merge]
  split <;> rfl

/-- The files that assign one symbol are folded into its owner. The list was taken before; a merge
of one of its files leaves the others among the assigning ones. -/
theorem advances_foldl_combineFile {name owner : String} (l : List String) (acc : State × Nat)
    {e : SymbolEntry} (hl : l.Nodup) (he : acc.1.symbols.get? name = some e)
    (hd : e.definition = some owner) (hassign : ∀ k ∈ l, k ∈ e.assignments ∧ k ≠ owner) :
    Advances Assigned acc (l.foldl (fun acc k => (combineFile name acc k).value) acc) := by
  induction l generalizing acc e with
  | nil => exact .refl acc
  | cons k l ih =>
    obtain ⟨hk, hl⟩ := List.nodup_cons.mp hl
    obtain ⟨⟨hka, hko⟩, hrest⟩ := List.forall_mem_cons.mp hassign
    rw [List.foldl_cons, value_combineFile acc k (definition_entry_iff.mpr ⟨e, he, hd⟩)]
    split
    · next hcan =>
      let m : Merge := ⟨owner, k, .assignment, some name⟩
      have hstep : Advances Assigned acc (acc.1.after m, acc.2 + 1) :=
        .step hcan ⟨rfl, name, e, rfl, he, hd, hka⟩
      obtain ⟨e', he', hr⟩ := (renames_after acc.1 m).entry he
      have hd' : e'.definition = some owner := by
        rw [hr.definition, hd, Option.map_some, Merge.carry_of_ne hko.symm]
      refine hstep.trans (ih _ hl he' hd' fun k' hk' => ?_)
      obtain ⟨ha, ho⟩ := hrest k' hk'
      have hne : k' ≠ k := fun h => hk (h ▸ hk')
      exact ⟨(hr.assignments k').mpr ⟨k', ha, Merge.carry_of_ne hne⟩, ho⟩
    · exact ih acc hl he hd hrest

theorem mem_sortedOn {pos : String → Nat} {l : List String} {k : String} :
    k ∈ sortedOn pos l ↔ k ∈ l :=
  (List.mergeSort_perm l _).mem_iff

theorem nodup_sortedOn {pos : String → Nat} {l : List String} :
    (sortedOn pos l).Nodup ↔ l.Nodup :=
  (List.mergeSort_perm l _).nodup_iff

theorem mem_foreignAssignments {e : SymbolEntry} {owner k : String}
    (hd : e.definition = some owner) :
    k ∈ e.foreignAssignments.items ↔ k ∈ e.assignments ∧ k ≠ owner := by
  rw [← KeySet.mem_def]
  simp [SymbolEntry.foreignAssignments, hd]

theorem value_combineSymbol {order : String → Nat} (acc : State × Nat) {name owner : String}
    {e : SymbolEntry} (he : acc.1.symbols.get? name = some e) (hd : e.definition = some owner) :
    (combineSymbol order acc name).value =
      (sortedOn order e.foreignAssignments.items).foldl
        (fun acc k => (combineFile name acc k).value) acc := by
  unfold combineSymbol
  simp only [entry_eq he, hd, Logged.value_foldlM]

theorem value_combineSymbol_of_none {order : String → Nat} {acc : State × Nat} {name : String}
    (h : (acc.1.entry name).definition = none) : (combineSymbol order acc name).value = acc := by
  unfold combineSymbol
  simp only [h]
  rfl

theorem combineSymbol_advances (order : String → Nat) (acc : State × Nat) (name : String) :
    Advances Assigned acc (combineSymbol order acc name).value := by
  cases h : (acc.1.entry name).definition with
  | none =>
    rw [value_combineSymbol_of_none h]
    exact .refl acc
  | some owner =>
    obtain ⟨e, he, hd⟩ := definition_entry_iff.mp h
    rw [value_combineSymbol acc he hd]
    refine advances_foldl_combineFile _ acc (nodup_sortedOn.mpr e.foreignAssignments.nodup) he hd ?_
    intro k hk
    exact (mem_foreignAssignments hd).mp (mem_sortedOn.mp hk)

/-- A pass of `combine` folds assigning files into owners. -/
theorem combine_advances (s : State) : Advances Assigned (s, 0) s.combine.value := by
  unfold combine
  rw [Logged.value_foldlM]
  exact List.foldlRecOn s.symbols.keys _ (.refl _) fun acc h name _ =>
    h.trans (combineSymbol_advances s.position acc name)

theorem progress_combineFile (name : String) :
    Progress (fun acc k => (combineFile name acc k).value) Prod.snd := by
  intro acc k
  cases h : (acc.1.entry name).definition with
  | none =>
    left
    simp only [combineFile, h]
    rfl
  | some owner =>
    simp only [value_combineFile acc k h]
    split
    · exact .inr (Nat.lt_succ_self _)
    · exact .inl rfl

theorem progress_combineSymbol (order : String → Nat) :
    Progress (fun acc name => (combineSymbol order acc name).value) Prod.snd := by
  intro acc name
  cases h : (acc.1.entry name).definition with
  | none => exact .inl (value_combineSymbol_of_none h)
  | some owner =>
    obtain ⟨e, he, hd⟩ := definition_entry_iff.mp h
    simp only [value_combineSymbol acc he hd]
    exact ((progress_combineFile name).foldl _ acc).imp_left And.left

/-- A pass of `combine` without a merge leaves the state as it is, and then no name is assigned
outside its owner. -/
theorem combine_fixed (hs : s.Closed) (h : s.combine.value.2 = 0) :
    s.combine.value.1 = s ∧ ∀ {n e d k}, s.symbols.get? n = some e → e.definition = some d →
      k ∈ e.assignments → k = d := by
  unfold combine at h ⊢
  rw [Logged.value_foldlM] at h ⊢
  obtain ⟨hfix, hall⟩ := (progress_combineSymbol s.position).fixed h
  refine ⟨by rw [hfix], fun {n e d k} he hd hk => ?_⟩
  by_contra hne
  have hn := hall n (Table.mem_keys_of_get? he)
  simp only [value_combineSymbol (s, 0) he hd] at hn
  -- The walk over the files that assign `n` came to `k` and did nothing there.
  obtain ⟨-, hfile⟩ := (progress_combineFile n).fixed (congrArg Prod.snd hn)
  have hk' := hfile k (mem_sortedOn.mpr ((mem_foreignAssignments hd).mpr ⟨hk, hne⟩))
  have hcan : s.canAbsorb d k = true :=
    canAbsorb_iff.mpr ⟨fun e => hne e.symm, hs.assignments he hk, hs.definition he hd⟩
  simp only [value_combineFile (s, 0) k (definition_entry_iff.mpr ⟨e, he, hd⟩), hcan,
    if_true] at hk'
  have := congrArg Prod.snd hk'
  simp at this

/-! ## Folding files that import each other -/

/-- A state with its import graph, and a count: what the walk over pairs of files carries. -/
def Tracked (acc : (State × Graph) × Nat) : Prop := acc.1.2 = acc.1.1.importGraph

theorem value_joinPair {earlier : String} (acc : (State × Graph) × Nat) (later : String) :
    (joinPair earlier acc later).value =
      if acc.1.1.files.contains later && acc.1.2.isMutual earlier later &&
          acc.1.1.canAbsorb earlier later then
        let s := acc.1.1.after ⟨earlier, later, .circular, none⟩
        ((s, s.importGraph), acc.2 + 1)
      else acc := by
  obtain ⟨⟨s, g⟩, n⟩ := acc
  simp only [joinPair]
  cases h : (s.files.contains later && g.isMutual earlier later) with
  | false => simp
  | true =>
    simp only [if_true, Bool.true_and, Logged.value_bind, value_merge]
    split <;> rfl

/-- The walk got from one point to another by merges of files that import each other. -/
def Walked (a b : (State × Graph) × Nat) : Prop :=
  Tracked b ∧ Advances Mutual (a.1.1, a.2) (b.1.1, b.2)

theorem joinPair_walked {earlier : String} {acc : (State × Graph) × Nat} (later : String)
    (h : Tracked acc) : Walked acc (joinPair earlier acc later).value := by
  rw [value_joinPair]
  split
  · next hif =>
    simp only [Bool.and_eq_true] at hif
    obtain ⟨⟨-, hmut⟩, hcan⟩ := hif
    rw [h] at hmut
    obtain ⟨h₁, h₂⟩ := isMutual_importGraph_iff.mp hmut
    exact ⟨rfl, .step hcan ⟨rfl, rfl, h₁, h₂⟩⟩
  · exact ⟨h, .refl _⟩

theorem foldl_walked {α : Type} {f : (State × Graph) × Nat → α → (State × Graph) × Nat}
    (hf : ∀ acc x, Tracked acc → Walked acc (f acc x)) (l : List α) {acc : (State × Graph) × Nat}
    (h : Tracked acc) : Walked acc (l.foldl f acc) := by
  refine List.foldlRecOn l f ⟨h, .refl _⟩ fun b hb x _ => ?_
  obtain ⟨htracked, hadv⟩ := hf b x hb.1
  exact ⟨htracked, hb.2.trans hadv⟩

theorem value_joinWith (acc : (State × Graph) × Nat) (split : String × List String) :
    (joinWith acc split).value =
      if acc.1.1.files.contains split.1 then
        split.2.foldl (fun acc later => (joinPair split.1 acc later).value) acc
      else acc := by
  unfold joinWith
  split
  · rw [Logged.value_foldlM]
  · rfl

theorem joinWith_walked (acc : (State × Graph) × Nat) (split : String × List String)
    (h : Tracked acc) : Walked acc (joinWith acc split).value := by
  rw [value_joinWith]
  split
  · exact foldl_walked (fun _ later => joinPair_walked later) split.2 h
  · exact ⟨h, .refl _⟩

theorem value_joinCircular (s : State) : s.joinCircular.value =
    let acc := (backwards s.files.keys).foldl (fun acc split => (joinWith acc split).value)
      ((s, s.importGraph), 0)
    (acc.1.1, acc.2) := by
  unfold joinCircular
  simp only [Logged.value_bind, Logged.value_foldlM, Logged.value_pure]

/-- A pass of `joinCircular` folds files together that import each other. -/
theorem joinCircular_advances (s : State) : Advances Mutual (s, 0) s.joinCircular.value := by
  have htracked : Tracked ((s, s.importGraph), 0) := rfl
  rw [value_joinCircular]
  exact (foldl_walked joinWith_walked (backwards s.files.keys) htracked).2

theorem progress_joinPair (earlier : String) :
    Progress (fun acc later => (joinPair earlier acc later).value) Prod.snd := by
  intro acc later
  simp only [value_joinPair]
  split
  · exact .inr (Nat.lt_succ_self _)
  · exact .inl rfl

theorem progress_joinWith : Progress (fun acc split => (joinWith acc split).value) Prod.snd := by
  intro acc split
  simp only [value_joinWith]
  split
  · exact ((progress_joinPair split.1).foldl _ acc).imp_left And.left
  · exact .inl rfl

/-- Of two items, the walk from the last to the first comes to one with the other behind it. -/
theorem exists_mem_backwards {l : List String} {a b : String} (ha : a ∈ l) (hb : b ∈ l)
    (hne : a ≠ b) : ∃ ks, ((a, ks) ∈ backwards l ∧ b ∈ ks) ∨ ((b, ks) ∈ backwards l ∧ a ∈ ks) := by
  induction l with
  | nil => cases ha
  | cons k l ih =>
    simp only [backwards, List.mem_append, List.mem_singleton]
    rcases List.mem_cons.mp ha with rfl | ha'
    · rcases List.mem_cons.mp hb with rfl | hb'
      · exact (hne rfl).elim
      · exact ⟨l, .inl ⟨.inr rfl, hb'⟩⟩
    · rcases List.mem_cons.mp hb with rfl | hb'
      · exact ⟨l, .inr ⟨.inr rfl, ha'⟩⟩
      · obtain ⟨ks, h | h⟩ := ih ha' hb'
        · exact ⟨ks, .inl ⟨.inl h.1, h.2⟩⟩
        · exact ⟨ks, .inr ⟨.inl h.1, h.2⟩⟩

theorem Imports.mem_keys {a b : String} (h : s.Imports a b) : a ∈ s.files.keys :=
  (imports_iff.mp h).1

theorem Imports.ne {a b : String} (h : s.Imports a b) : a ≠ b := (imports_iff.mp h).2.1

/-- A pass of `joinCircular` without a merge leaves the state as it is. Then no two files import
each other. -/
theorem joinCircular_fixed (h : s.joinCircular.value.2 = 0) :
    s.joinCircular.value.1 = s ∧ ∀ {a b}, s.Imports a b → ¬ s.Imports b a := by
  rw [value_joinCircular] at h ⊢
  obtain ⟨hfix, hall⟩ := progress_joinWith.fixed (a := ((s, s.importGraph), 0)) h
  refine ⟨by rw [hfix], ?_⟩
  -- No pair that the walk comes to is mutual: there it would have merged.
  have hpair : ∀ {a b ks}, (a, ks) ∈ backwards s.files.keys → b ∈ ks → s.Imports a b →
      ¬ s.Imports b a := by
    intro a b ks hks hb hab hba
    have hsplit := hall _ hks
    have ha := (Table.contains_iff s.files a).mpr hab.mem_keys
    simp only [value_joinWith, ha, if_true] at hsplit
    obtain ⟨-, hwith⟩ := (progress_joinPair a).fixed (congrArg Prod.snd hsplit)
    have hb' := hwith b hb
    have hcan : s.canAbsorb a b = true := canAbsorb_iff.mpr ⟨hab.ne, hba.mem_keys, hab.mem_keys⟩
    have hmut := isMutual_importGraph_iff.mpr ⟨hab, hba⟩
    have hmem := (Table.contains_iff s.files b).mpr hba.mem_keys
    simp only [value_joinPair, hcan, hmut, hmem, Bool.and_self, if_true] at hb'
    have := congrArg Prod.snd hb'
    simp at this
  intro a b hab hba
  obtain ⟨ks, ⟨hks, hb⟩ | ⟨hks, ha⟩⟩ := exists_mem_backwards hab.mem_keys hba.mem_keys hab.ne
  · exact hpair hks hb hab hba
  · exact hpair hks ha hba hab

/-! ## Passes and resolutions -/

theorem value_pass (combine : Bool) (s : State) : (s.pass combine).value =
    let first := if combine then s.combine.value else (s, 0)
    let second := first.1.joinCircular.value
    (second.1, first.2, second.2) := by
  cases combine <;> rfl

/-- A pass is a run of merges that the state calls for: first those for assignments, then those of
files that import each other. The counts tell how many of each there are. -/
theorem pass_halves (combine : Bool) (s : State) : ∃ ms ns,
    Run (Called combine) s (ms ++ ns) (s.pass combine).value.1 ∧
      (s.pass combine).value.2 = (ms.length, ns.length) ∧
      (∀ m ∈ ms, m.reason = .assignment) ∧ ∀ m ∈ ns, m.reason = .circular := by
  rw [value_pass]
  -- The first half is there only when assignments count.
  have hfirst : ∃ ms, Run (Called combine) s ms (if combine then s.combine.value else (s, 0)).1 ∧
      (if combine then s.combine.value else (s, 0)).2 = ms.length ∧
        ∀ m ∈ ms, m.reason = .assignment := by
    cases combine with
    | false => exact ⟨[], .refl s, rfl, by simp⟩
    | true =>
      obtain ⟨ms, hrun, hcount⟩ := combine_advances s
      exact ⟨ms, hrun.mono fun _ _ hm => .inl ⟨rfl, hm⟩, by simpa using hcount,
        hrun.forall_mem fun _ _ hm => hm.1⟩
  obtain ⟨ms, hms, hcount, hreason⟩ := hfirst
  obtain ⟨ns, hns, hcount'⟩ :=
    joinCircular_advances (if combine then s.combine.value else (s, 0)).1
  refine ⟨ms, ns, hms.append (hns.mono fun _ _ hm => .inr hm), ?_, hreason,
    hns.forall_mem fun _ _ hm => hm.1⟩
  exact Prod.ext hcount (by simpa using hcount')

/-- The counts of a pass tell how many merges it made. -/
theorem pass_run (combine : Bool) (s : State) : ∃ ms, Run (Called combine) s ms
    (s.pass combine).value.1 ∧
      (s.pass combine).value.2.1 + (s.pass combine).value.2.2 = ms.length := by
  obtain ⟨ms, ns, hrun, hcounts, -⟩ := pass_halves combine s
  exact ⟨ms ++ ns, hrun, by rw [hcounts, List.length_append]⟩

/-- No merge is called for. -/
structure Settled (combine : Bool) (s : State) : Prop where
  assigned : combine = true → ∀ {n e d k}, s.symbols.get? n = some e → e.definition = some d →
    k ∈ e.assignments → k = d
  circular : ∀ {a b}, s.Imports a b → ¬ s.Imports b a

/-- A pass without a merge leaves the state as it is, and then none is called for. -/
theorem pass_fixed {combine : Bool} (hs : s.Closed)
    (h : (s.pass combine).value.2.1 + (s.pass combine).value.2.2 = 0) :
    (s.pass combine).value.1 = s ∧ Settled combine s := by
  rw [value_pass] at h ⊢
  cases combine with
  | false =>
    have hcirc : s.joinCircular.value.2 = 0 := (Nat.add_eq_zero_iff.mp h).2
    obtain ⟨hfix, hmut⟩ := joinCircular_fixed hcirc
    exact ⟨hfix, by simp, hmut⟩
  | true =>
    obtain ⟨hcomb, hcirc⟩ := Nat.add_eq_zero_iff.mp h
    obtain ⟨hfix, hassign⟩ := combine_fixed hs hcomb
    simp only [if_true, hfix] at hcirc ⊢
    obtain ⟨hfix', hmut⟩ := joinCircular_fixed hcirc
    exact ⟨hfix', fun _ => hassign, hmut⟩

theorem value_nextPass (o : ResolveOptions) (s : State) (r : Resolution) :
    (s.nextPass o r).value =
      let p := (s.pass o.combine).value
      let r' := r.count p.2.1 p.2.2
      (p.1, r', o.fixpoint && p.2.1 + p.2.2 ≠ 0 && (r'.passes : Int) < o.maxPasses) := by
  unfold nextPass
  simp only [Logged.value_bind]
  generalize (s.pass o.combine).value = p
  split
  · next h =>
    have hmore : (o.fixpoint && p.2.1 + p.2.2 ≠ 0) = false := by
      cases hf : o.fixpoint <;> simp_all
    rw [hmore]
    rfl
  · next h =>
    have hmore : (o.fixpoint && p.2.1 + p.2.2 ≠ 0) = true := by
      cases hf : o.fixpoint <;> simp_all
    rw [hmore, Bool.true_and]
    split
    · next hcap =>
      rw [decide_eq_false (Int.not_lt.mpr hcap)]
      rfl
    · next hcap =>
      rw [decide_eq_true (Int.not_le.mp hcap)]
      rfl

/-- Passes are runs of merges that the state calls for. -/
theorem passes_run (o : ResolveOptions) (fuel : Nat) (s : State) (r : Resolution) :
    ∃ ms, Run (Called o.combine) s ms (passes o fuel s r).value.1 := by
  induction fuel generalizing s r with
  | zero =>
    obtain ⟨ms, hrun, -⟩ := pass_run o.combine s
    refine ⟨ms, ?_⟩
    simp only [passes, Logged.value_bind, Logged.value_pure, value_nextPass]
    exact hrun
  | succ fuel ih =>
    obtain ⟨ms, hrun, -⟩ := pass_run o.combine s
    simp only [passes, Logged.value_bind, value_nextPass]
    split
    · obtain ⟨ns, hrun'⟩ := ih (s.pass o.combine).value.1 _
      exact ⟨ms ++ ns, hrun.append hrun'⟩
    · exact ⟨ms, hrun⟩

theorem value_resolve (s : State) (o : ResolveOptions) :
    (s.resolve o).value.1 = (passes o s.files.size s ⟨0, 0, 0, []⟩).value.1 := rfl

/-- A resolution is a run of merges that the state calls for. -/
theorem resolve_run (s : State) (o : ResolveOptions) :
    ∃ ms, Run (Called o.combine) s ms (s.resolve o).value.1 := by
  rw [value_resolve]
  exact passes_run o _ s _

/-- A run with a merge ends with a file. -/
theorem Run.one_le_size {m : Merge} {ms : List Merge} (h : Run P s (m :: ms) t) :
    1 ≤ t.files.size := by
  obtain ⟨hm, -⟩ := h.mem_keys m (by simp)
  have hhome := h.home_mem_keys hm
  rw [Table.size_eq]
  exact List.length_pos_of_mem hhome

/-- Passes go on until no merge is called for, when there may be as many of them as there are
files. -/
theorem passes_settled (o : ResolveOptions) (hf : o.fixpoint = true) (fuel : Nat) (s : State)
    (r : Resolution) (hs : s.Closed) (hfuel : s.files.size ≤ fuel)
    (hcap : (r.passes + s.files.size : Int) ≤ o.maxPasses) :
    Settled o.combine (passes o fuel s r).value.1 := by
  induction fuel generalizing s r with
  | zero =>
    obtain ⟨ms, hrun, hcount⟩ := pass_run o.combine s
    have hsize := hrun.size_eq
    have hzero : (s.pass o.combine).value.2.1 + (s.pass o.combine).value.2.2 = 0 := by omega
    obtain ⟨hfix, hsettled⟩ := pass_fixed hs hzero
    simp only [passes, Logged.value_bind, Logged.value_pure, value_nextPass]
    rw [hfix]
    exact hsettled
  | succ fuel ih =>
    obtain ⟨ms, hrun, hcount⟩ := pass_run o.combine s
    simp only [passes, Logged.value_bind, value_nextPass]
    cases ms with
    | nil =>
      obtain ⟨hfix, hsettled⟩ := pass_fixed hs hcount
      have hstop : (o.fixpoint && (s.pass o.combine).value.2.1 + (s.pass o.combine).value.2.2 ≠ 0)
          = false := by simp [hcount]
      rw [hstop]
      simp only [Bool.false_and, Bool.false_eq_true, if_false, Logged.value_pure]
      rw [hfix]
      exact hsettled
    | cons m ms =>
      -- The pass took at least one file away and left at least one.
      have hsize := hrun.size_eq
      have hleft := hrun.one_le_size
      rw [List.length_cons] at hcount hsize
      have hpasses : (r.count (s.pass o.combine).value.2.1 (s.pass o.combine).value.2.2).passes =
        r.passes + 1 := rfl
      rw [if_pos (by simp [hf, hcount, hpasses]; omega)]
      exact ih _ _ (hrun.closed hs) (by omega) (by rw [hpasses]; push_cast; omega)

/-- A resolution that may make as many passes as there are files ends when no merge is called
for. -/
theorem resolve_settled {o : ResolveOptions} (hs : s.Closed) (hf : o.fixpoint = true)
    (hcap : (s.files.size : Int) ≤ o.maxPasses) : Settled o.combine (s.resolve o).value.1 := by
  rw [value_resolve]
  exact passes_settled o hf _ s _ hs (Nat.le_refl _) (by simpa using hcap)

end State

end ScriptModules
