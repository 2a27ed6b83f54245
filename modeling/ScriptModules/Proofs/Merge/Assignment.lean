import Mathlib.Combinatorics.SimpleGraph.Connectivity.Connected
import Mathlib.Data.List.NodupEquivFin
import Mathlib.SetTheory.Cardinal.Finite
import ScriptModules.Proofs.Merge.Conservation

/-!
# One pass of `combine` is enough

A pass of `combine` goes once through the symbols, and for each through the files that assign it,
while its merges rewrite the entries of all symbols, also of those it is done with. No second pass
is needed, because what a pass settles stays settled: an entry is `Exclusive` when nobody but the
owner of the name assigns it, and giving the files of an exclusive entry other names leaves it
exclusive (`Renamed.exclusive`).

* `combine_exclusive`: after a pass every entry is exclusive;
* `home_combine_eq_iff`: the pass folds two files together exactly when they are connected in the
  graph that joins the owner of each name with the files that assign it;
* `card_connectedComponent`: every component of that graph leaves one file;
* `passes_of_exclusive`: passes over a state with exclusive entries fold no file into an owner.
-/

namespace ScriptModules

/-- Nobody but the owner assigns the name. -/
def SymbolEntry.Exclusive (e : SymbolEntry) : Prop :=
  ∀ d, e.definition = some d → ∀ k ∈ e.assignments, k = d

/-- An exclusive entry stays so when its files get other names. -/
theorem SymbolEntry.Renamed.exclusive {φ : String → String} {e e' : SymbolEntry}
    (h : e.Renamed φ e') (he : e.Exclusive) : e'.Exclusive := by
  intro d' hd' k' hk'
  rw [h.definition] at hd'
  obtain ⟨d, hd, rfl⟩ := Option.map_eq_some_iff.mp hd'
  obtain ⟨k, hk, rfl⟩ := (h.assignments k').mp hk'
  rw [he d hd k hk]

theorem SymbolEntry.Exclusive.foreignAssignments {e : SymbolEntry} {d : String}
    (h : e.Exclusive) (hd : e.definition = some d) : e.foreignAssignments.items = [] := by
  rw [List.eq_nil_iff_forall_not_mem]
  intro k hk
  obtain ⟨hk, hne⟩ := (State.mem_foreignAssignments hd).mp hk
  exact hne (h d hd k hk)

namespace State

variable {s t u : State} {m : Merge} {ms : List Merge} {P : State → Merge → Prop}
  {name owner : String}

/-- No name is assigned outside the file that owns it. -/
def Exclusive (s : State) : Prop := ∀ n e, s.symbols.get? n = some e → e.Exclusive

/-- The file `a` assigns a name that `d` owns. -/
def AssignedBy (s : State) (d a : String) : Prop :=
  ∃ n e, s.symbols.get? n = some e ∧ e.definition = some d ∧ a ∈ e.assignments

/-- The undirected graph on the files that joins the owner of each name with the files that assign
the name. -/
def assignmentGraph (s : State) : SimpleGraph {k // k ∈ s.files.keys} :=
  .fromRel fun d a => s.AssignedBy d a

/-- One of the steps that can come after a pass of `combine`: folding any file into any other, with
any record of it, or a pass of `joinCircular`. -/
inductive Fold : State → State → Prop
  | absorb (s : State) (survivor retired : String) (record : MergeRecord) :
      Fold s (s.absorb survivor retired record).value.1
  | joinCircular (s : State) : Fold s s.joinCircular.value.1

/-! ## What is settled stays settled -/

theorem Renames.exclusive {φ : String → String} (h : Renames φ s t) (hs : s.Exclusive) :
    t.Exclusive := by
  intro n e' he'
  obtain ⟨e, he, hr⟩ := h.source he'
  exact hr.exclusive (hs n e he)

theorem Run.exclusive (h : Run P s ms t) (hs : s.Exclusive) : t.Exclusive :=
  h.renames.exclusive hs

/-- The record of a merge does not matter to the symbols. -/
theorem renames_absorbed (s : State) (survivor retired : String) (record : MergeRecord) :
    ∃ φ, Renames φ s (s.absorbed survivor retired record) := by
  obtain ⟨hkeys, hentry⟩ := renames_after s ⟨survivor, retired, .circular, none⟩
  exact ⟨_, hkeys, hentry⟩

theorem joinCircular_exclusive (hs : s.Exclusive) : s.joinCircular.value.1.Exclusive := by
  obtain ⟨ms, hrun, -⟩ := joinCircular_advances s
  exact hrun.exclusive hs

theorem Fold.exclusive (h : Fold s t) (hs : s.Exclusive) : t.Exclusive := by
  cases h with
  | absorb survivor retired record =>
    unfold State.absorb
    split
    · obtain ⟨φ, h⟩ := renames_absorbed s survivor retired record
      exact h.exclusive hs
    · exact hs
  | joinCircular => exact joinCircular_exclusive hs

/-! ## A pass settles every symbol -/

/-- The walk over the files that assign a name ends with an exclusive entry: at each point of it,
the files that assign the name are the owner and those that the walk has yet to come to. -/
theorem foldl_combineFile_exclusive (l : List String) (acc : State × Nat) {e : SymbolEntry}
    (hs : acc.1.Closed) (hl : l.Nodup) (he : acc.1.symbols.get? name = some e)
    (hd : e.definition = some owner)
    (hassign : ∀ k, k ∈ e.assignments ∧ k ≠ owner ↔ k ∈ l) :
    ∃ e', (l.foldl (fun acc k => (combineFile name acc k).value) acc).1.symbols.get? name =
      some e' ∧ e'.Exclusive := by
  induction l generalizing acc e with
  | nil =>
    refine ⟨e, he, fun d hd' k hk => ?_⟩
    rw [hd] at hd'
    cases hd'
    by_contra hne
    exact List.not_mem_nil ((hassign k).mp ⟨hk, hne⟩)
  | cons k l ih =>
    obtain ⟨hkl, hl⟩ := List.nodup_cons.mp hl
    obtain ⟨hk, hko⟩ := (hassign k).mpr (by simp)
    let m : Merge := ⟨owner, k, .assignment, some name⟩
    have hcan : acc.1.canAbsorb owner k = true :=
      canAbsorb_iff.mpr ⟨hko.symm, hs.assignments he hk, hs.definition he hd⟩
    have hren := renames_after acc.1 m
    have hclosed : (acc.1.after m).Closed :=
      hs.of_renames hren fun _ h => carry_mem_keys_after hcan h
    obtain ⟨e', he', hr⟩ := hren.entry he
    have howner : m.carry owner = owner := Merge.carry_of_ne hko.symm
    have hd' : e'.definition = some owner := by
      rw [hr.definition, hd, Option.map_some, howner]
    rw [List.foldl_cons, value_combineFile acc k (definition_entry_iff.mpr ⟨e, he, hd⟩),
      if_pos hcan]
    refine ih _ hclosed hl he' hd' fun x => ?_
    rw [hr.assignments]
    constructor
    · rintro ⟨⟨a, ha, rfl⟩, hne⟩
      by_cases hao : a = owner
      · rw [hao, howner] at hne
        exact (hne rfl).elim
      · rcases List.mem_cons.mp ((hassign a).mp ⟨ha, hao⟩) with rfl | hal
        · exact (hne m.carry_retired).elim
        · have hak : a ≠ k := fun h => hkl (h ▸ hal)
          rw [Merge.carry_of_ne hak]
          exact hal
    · intro hx
      obtain ⟨ha, hxo⟩ := (hassign x).mpr (List.mem_cons_of_mem k hx)
      have hxk : x ≠ k := fun h => hkl (h ▸ hx)
      exact ⟨⟨x, ha, Merge.carry_of_ne hxk⟩, hxo⟩

/-- Going through the files that assign a name settles the name. -/
theorem combineSymbol_exclusive (order : String → Nat) (acc : State × Nat) (name : String)
    (hs : acc.1.Closed) {e : SymbolEntry}
    (he : (combineSymbol order acc name).value.1.symbols.get? name = some e) : e.Exclusive := by
  cases h : (acc.1.entry name).definition with
  | none =>
    rw [value_combineSymbol_of_none h] at he
    rw [entry_eq he] at h
    intro d hd
    rw [h] at hd
    cases hd
  | some owner =>
    obtain ⟨f, hf, hd⟩ := definition_entry_iff.mp h
    rw [value_combineSymbol acc hf hd] at he
    obtain ⟨e', he', hexc⟩ := foldl_combineFile_exclusive
      (sortedOn order f.foreignAssignments.items) acc hs
      (nodup_sortedOn.mpr f.foreignAssignments.nodup) hf hd
      fun k => by rw [mem_sortedOn, mem_foreignAssignments hd]
    rw [he] at he'
    cases he'
    exact hexc

/-- Going through the symbols settles those that it comes to and unsettles none. -/
theorem foldl_combineSymbol_exclusive (order : String → Nat) (names : List String)
    (acc : State × Nat) (hs : acc.1.Closed) {n : String}
    (hn : n ∈ names ∨ ∀ e, acc.1.symbols.get? n = some e → e.Exclusive) {e : SymbolEntry}
    (he : (names.foldl (fun acc name => (combineSymbol order acc name).value) acc).1.symbols.get? n
      = some e) : e.Exclusive := by
  induction names generalizing acc with
  | nil => exact hn.resolve_left List.not_mem_nil e he
  | cons name names ih =>
    rw [List.foldl_cons] at he
    obtain ⟨ms, hrun, -⟩ := combineSymbol_advances order acc name
    refine ih _ (hrun.closed hs) ?_ he
    rcases hn with hn | hn
    · rcases List.mem_cons.mp hn with rfl | hn
      · exact .inr fun e he => combineSymbol_exclusive order acc n hs he
      · exact .inl hn
    · right
      intro e' he'
      obtain ⟨f, hf, hr⟩ := hrun.renames.source he'
      exact hr.exclusive (hn f hf)

/-- After a pass of `combine` no name is assigned outside the file that owns it. -/
theorem combine_exclusive (hs : s.Closed) : s.combine.value.1.Exclusive := by
  intro n e he
  obtain ⟨ms, hrun, -⟩ := combine_advances s
  have hn : n ∈ s.symbols.keys := hrun.renames.keys_eq ▸ Table.mem_keys_of_get? he
  unfold combine at he
  rw [Logged.value_foldlM] at he
  exact foldl_combineSymbol_exclusive s.position s.symbols.keys (s, 0) hs (.inl hn) he

/-- Where nobody but the owner assigns a name, there is nothing to combine. -/
theorem Exclusive.combine_eq (hs : s.Exclusive) : s.combine.value = (s, 0) := by
  have hstep : ∀ name, (combineSymbol s.position (s, 0) name).value = (s, 0) := by
    intro name
    cases h : (s.entry name).definition with
    | none => exact value_combineSymbol_of_none h
    | some owner =>
      obtain ⟨e, he, hd⟩ := definition_entry_iff.mp h
      rw [value_combineSymbol (s, 0) he hd, (hs name e he).foreignAssignments hd]
      simp [sortedOn]
  unfold combine
  rw [Logged.value_foldlM]
  exact List.foldl_fixed' hstep s.symbols.keys

/-! ## Which files a pass folds together -/

/-- Two keys are the same, or two connected files. -/
def Connected (s : State) (a b : String) : Prop :=
  a = b ∨ ∃ (ha : a ∈ s.files.keys) (hb : b ∈ s.files.keys),
    s.assignmentGraph.Reachable ⟨a, ha⟩ ⟨b, hb⟩

theorem connected_equivalence (s : State) : Equivalence s.Connected where
  refl a := .inl rfl
  symm := by
    rintro a b (rfl | ⟨ha, hb, h⟩)
    · exact .inl rfl
    · exact .inr ⟨hb, ha, h.symm⟩
  trans := by
    rintro a b c (rfl | ⟨ha, hb, h⟩) (rfl | ⟨hb', hc, h'⟩)
    · exact .inl rfl
    · exact .inr ⟨hb', hc, h'⟩
    · exact .inr ⟨ha, hb, h⟩
    · exact .inr ⟨ha, hc, h.trans h'⟩

/-- Every merge that an assignment calls for joins two places at which connected files stand. -/
theorem Run.connected (hs : s.Closed) (h : Run Assigned s ms t) (a b : String)
    (heq : Merge.home ms a = Merge.home ms b) : s.Connected a b := by
  refine h.related (connected_equivalence s) ?_ a b heq
  rintro u ns m hrun - hne ⟨-, n, e', -, he', hd', ha'⟩
  obtain ⟨e, he, hr⟩ := hrun.renames.source he'
  rw [hr.definition] at hd'
  obtain ⟨d, hd, hsurvivor⟩ := Option.map_eq_some_iff.mp hd'
  obtain ⟨k, hk, hretired⟩ := (hr.assignments _).mp ha'
  refine ⟨d, k, hsurvivor, hretired, .inr ⟨hs.definition he hd, hs.assignments he hk, ?_⟩⟩
  apply SimpleGraph.Adj.reachable
  rw [assignmentGraph, SimpleGraph.fromRel_adj]
  refine ⟨fun hdk => hne ?_, .inl ⟨n, e, he, hd, hk⟩⟩
  rw [← hsurvivor, ← hretired, Subtype.mk.inj hdk]

/-- Connected files come to one place when nothing is assigned outside its owner any more. -/
theorem Run.home_eq_of_reachable (h : Run P s ms t) (ht : t.Exclusive)
    {a b : {k // k ∈ s.files.keys}} (hab : s.assignmentGraph.Reachable a b) :
    Merge.home ms a = Merge.home ms b := by
  have hassigned : ∀ {d k}, s.AssignedBy d k → Merge.home ms d = Merge.home ms k := by
    rintro d k ⟨n, e, he, hd, hk⟩
    obtain ⟨e', he', hr⟩ := h.renames.entry he
    have hd' : e'.definition = some (Merge.home ms d) := by rw [hr.definition, hd, Option.map_some]
    exact (ht n e' he' _ hd' _ ((hr.assignments _).mpr ⟨k, hk, rfl⟩)).symm
  rw [SimpleGraph.reachable_iff_reflTransGen] at hab
  induction hab with
  | refl => rfl
  | tail _ hadj ih =>
    obtain ⟨-, hbc | hcb⟩ := (SimpleGraph.fromRel_adj _ _ _).mp hadj
    · exact ih.trans (hassigned hbc)
    · exact ih.trans (hassigned hcb).symm

theorem home_combine_eq_iff (hs : s.Closed) (hrun : Run Assigned s ms s.combine.value.1)
    (a b : {k // k ∈ s.files.keys}) :
    Merge.home ms a = Merge.home ms b ↔ s.assignmentGraph.Reachable a b := by
  refine ⟨fun heq => ?_, hrun.home_eq_of_reachable (combine_exclusive hs)⟩
  rcases hrun.connected hs a b heq with hab | ⟨_, _, h⟩
  · rw [Subtype.ext hab]
  · exact h

/-- A pass leaves one file for each component of the graph. -/
theorem card_connectedComponent (hs : s.Closed) (hrun : Run Assigned s ms s.combine.value.1) :
    Nat.card s.assignmentGraph.ConnectedComponent = s.combine.value.1.files.size := by
  let t := s.combine.value.1
  let place (k : {k // k ∈ s.files.keys}) : {k // k ∈ t.files.keys} :=
    ⟨Merge.home ms k, hrun.home_mem_keys k.2⟩
  have hplace : ∀ a b, place a = place b ↔ s.assignmentGraph.Reachable a b := by
    intro a b
    rw [Subtype.mk.injEq]
    exact home_combine_eq_iff hs hrun a b
  let lift : s.assignmentGraph.ConnectedComponent → {k // k ∈ t.files.keys} :=
    SimpleGraph.ConnectedComponent.lift place fun a b p _ => (hplace a b).mpr p.reachable
  have hbij : Function.Bijective lift := by
    constructor
    · intro x y
      refine SimpleGraph.ConnectedComponent.ind₂ (fun a b h => ?_) x y
      exact SimpleGraph.ConnectedComponent.sound ((hplace a b).mp h)
    · rintro ⟨k, hk⟩
      -- A file that is left is its own place.
      refine ⟨s.assignmentGraph.connectedComponentMk ⟨k, hrun.keys_sublist.subset hk⟩, ?_⟩
      exact Subtype.ext (hrun.home_of_mem_keys hk)
  rw [Nat.card_congr (Equiv.ofBijective lift hbij),
    Nat.card_congr (List.Nodup.getEquiv _ t.files.keys_nodup).symm, Nat.card_fin, Table.size_eq]

/-! ## The passes of a resolution -/

/-- A pass over a state with exclusive entries folds no file into an owner. -/
theorem pass_of_exclusive (combine : Bool) (hs : s.Exclusive) :
    (s.pass combine).value.1.Exclusive ∧ (s.pass combine).value.2.1 = 0 := by
  have hfirst : (if combine then s.combine.value else (s, 0)) = (s, 0) := by
    cases combine with
    | false => rfl
    | true => exact hs.combine_eq
  rw [value_pass, hfirst]
  exact ⟨joinCircular_exclusive hs, rfl⟩

theorem passes_of_exclusive (o : ResolveOptions) (fuel : Nat) (s : State) (r : Resolution)
    (hs : s.Exclusive) : (passes o fuel s r).value.1.Exclusive ∧
      (passes o fuel s r).value.2.assignmentMerges = r.assignmentMerges := by
  induction fuel generalizing s r with
  | zero =>
    obtain ⟨hexc, hzero⟩ := pass_of_exclusive o.combine hs
    simp only [passes, Logged.value_bind, Logged.value_pure, value_nextPass, Resolution.count]
    exact ⟨hexc, by rw [hzero, Nat.add_zero]⟩
  | succ fuel ih =>
    obtain ⟨hexc, hzero⟩ := pass_of_exclusive o.combine hs
    have hcount : ∀ n, (r.count (s.pass o.combine).value.2.1 n).assignmentMerges =
        r.assignmentMerges := fun n => by rw [Resolution.count, hzero, Nat.add_zero]
    simp only [passes, Logged.value_bind, value_nextPass]
    split
    · obtain ⟨hexc', hmerges⟩ := ih _ (r.count (s.pass o.combine).value.2.1 _) hexc
      exact ⟨hexc', hmerges.trans (hcount _)⟩
    · exact ⟨hexc, hcount _⟩

/-- A pass that combines leaves exclusive entries. -/
theorem pass_exclusive (hs : s.Closed) : (s.pass true).value.1.Exclusive := by
  rw [value_pass]
  exact joinCircular_exclusive (combine_exclusive hs)

/-- A resolution that combines ends with exclusive entries, and folds files into owners in its first
pass only. -/
theorem resolve_exclusive {o : ResolveOptions} (hs : s.Closed) (hc : o.combine = true) :
    (s.resolve o).value.1.Exclusive ∧
      (s.resolve o).value.2.assignmentMerges = s.combine.value.2 := by
  have hexc : (s.pass o.combine).value.1.Exclusive := hc ▸ pass_exclusive hs
  have hcount : (s.pass o.combine).value.2.1 = s.combine.value.2 := by rw [hc]; rfl
  have hfirst : ∀ fuel r, (passes o fuel s r).value.1.Exclusive ∧
      (passes o fuel s r).value.2.assignmentMerges = r.assignmentMerges + s.combine.value.2 := by
    intro fuel r
    cases fuel with
    | zero =>
      simp only [passes, Logged.value_bind, Logged.value_pure, value_nextPass, Resolution.count]
      exact ⟨hexc, by rw [hcount]⟩
    | succ fuel =>
      simp only [passes, Logged.value_bind, value_nextPass]
      split
      · obtain ⟨hexc', hmerges⟩ := passes_of_exclusive o fuel _
          (r.count (s.pass o.combine).value.2.1 (s.pass o.combine).value.2.2) hexc
        exact ⟨hexc', hmerges.trans (by rw [Resolution.count, hcount])⟩
      · exact ⟨hexc, by rw [← hcount]; rfl⟩
  obtain ⟨h, hmerges⟩ := hfirst s.files.size ⟨0, 0, 0, []⟩
  exact ⟨h, hmerges.trans (Nat.zero_add _)⟩

/-- One pass of `combine` suffices. After it no name is assigned outside its owner; it folds two
files together exactly when they are connected by assignments, and the number of its merges is the
number of files less the number of components. Folding files together later on, for whatever
reason, brings no such assignment back, so every further pass finds nothing to combine. -/
theorem combine_suffices (s : State) (hs : s.Closed) :
    let t := s.combine.value.1
    t.Exclusive ∧
    (∀ a b : {k // k ∈ s.files.keys},
      s.home t a = s.home t b ↔ s.assignmentGraph.Reachable a b) ∧
    (∀ k ∈ s.files.keys, s.home t k ∈ t.files.keys) ∧
    (∀ k ∈ t.files.keys, ∃ parts, Composition s t (s.journal t) k parts) ∧
    s.combine.value.2 + Nat.card s.assignmentGraph.ConnectedComponent = s.files.size ∧
    (∀ u, Relation.ReflTransGen Fold t u → u.Exclusive) ∧
    (∀ o : ResolveOptions, o.combine = true → (s.resolve o).value.1.Exclusive ∧
      (s.resolve o).value.2.assignmentMerges = s.combine.value.2) ∧
    (∀ n, (((fun u : State => (u.pass true).value.1)^[n + 1] s).pass true).value.2.1 = 0) := by
  obtain ⟨ms, hrun, hcount⟩ := combine_advances s
  have hexc := combine_exclusive hs
  simp only [home, hrun.journal_eq]
  refine ⟨hexc, home_combine_eq_iff hs hrun, fun k => hrun.home_mem_keys, fun k => hrun.composition,
    ?_, fun u hu => ?_, fun o => resolve_exclusive hs, fun n => ?_⟩
  · have hsize : s.files.size = s.combine.value.1.files.size + ms.length := hrun.size_eq
    rw [card_connectedComponent hs hrun]
    omega
  · induction hu with
    | refl => exact hexc
    | tail _ hstep ih => exact hstep.exclusive ih
  · -- From the first pass on the entries are exclusive.
    have hlater : ((fun u : State => (u.pass true).value.1)^[n + 1] s).Exclusive := by
      induction n with
      | zero => exact pass_exclusive hs
      | succ n ih =>
        rw [Function.iterate_succ_apply']
        exact (pass_of_exclusive true ih).1
    exact (pass_of_exclusive true hlater).2

/-- Four files. `b.js` assigns a name of `c.js`, which by then assigns one of `a.js`; `d.js` stands
alone. -/
def relay : State :=
  { empty with
    files := .ofList [("a.js", "A"), ("b.js", "B"), ("c.js", "C"), ("d.js", "D")]
    symbols := .ofList [
      ("x", ⟨some "c.js", .ofList ["b.js"], .empty⟩),
      ("y", ⟨some "a.js", .ofList ["c.js"], .ofList ["d.js"]⟩)] }

theorem combine_suffices_relay :
    relay.Closed ∧ relay.combine.value.1.Exclusive ∧
      relay.assignmentGraph.Reachable ⟨"a.js", by decide⟩ ⟨"b.js", by decide⟩ ∧
      ¬ relay.assignmentGraph.Reachable ⟨"a.js", by decide⟩ ⟨"d.js", by decide⟩ ∧
      Nat.card relay.assignmentGraph.ConnectedComponent = 2 := by
  have hclosed : relay.Closed := by decide
  obtain ⟨hexc, hgroup, -, -, hcount, -⟩ := combine_suffices relay hclosed
  have htwo : relay.combine.value.2 = 2 := by decide +kernel
  have hsize : relay.files.size = 4 := by decide
  refine ⟨hclosed, hexc, (hgroup _ _).mp (by decide +kernel), fun h => ?_, by omega⟩
  exact absurd ((hgroup _ _).mpr h) (by decide +kernel)

end State

end ScriptModules
