import ScriptModules.Proofs.Merge.Passes

/-!
# Passes and merges are accounted for

The passes of a resolution are a loop without a bound of its own: `PassLoop` says when it goes on
and when it stops, and `passes` runs it with as many further passes as there are files. That is
enough (`passes_loop`), because a pass after which the loop goes on has taken a file away.

* `pass_tally`: the counts of a pass tell how many of its merges have which reason;
* `PassLoop.length_le_size`, `PassLoop.length_le_cap`: how many passes there are;
* `PassLoop.run`: the counts of all passes, and the merges that they count;
* `PassLoop.getLast?_eq`: below the cap, the last pass merged nothing.

Main statement: `resolve_accounts`.
-/

namespace ScriptModules

/-- How many of the merges have the reason. -/
def Merge.tally (ms : List Merge) (reason : MergeReason) : Nat := ms.countP (·.reason = reason)

namespace Merge

variable {ms : List Merge} {r r' : MergeReason}

theorem tally_append (ms ns : List Merge) (r : MergeReason) :
    tally (ms ++ ns) r = tally ms r + tally ns r :=
  List.countP_append

theorem tally_of_forall (h : ∀ m ∈ ms, m.reason = r) (r' : MergeReason) :
    tally ms r' = if r = r' then ms.length else 0 := by
  unfold tally
  split
  · next heq => exact List.countP_eq_length.mpr fun m hm => decide_eq_true ((h m hm).trans heq)
  · next hne =>
    refine List.countP_eq_zero.mpr fun m hm => ?_
    rw [h m hm, decide_eq_true_eq]
    exact hne

/-- Every merge has one of the two reasons. -/
theorem tally_add (ms : List Merge) : tally ms .assignment + tally ms .circular = ms.length := by
  rw [List.length_eq_countP_add_countP fun m => m.reason = .assignment]
  congr 1
  refine List.countP_congr fun m _ => ?_
  cases m.reason <;> simp

end Merge

/-- The counts of passes, added up. -/
def Resolution.counted (r : Resolution) (counts : List (Nat × Nat)) : Resolution :=
  counts.foldl (fun r c => r.count c.1 c.2) r

theorem Resolution.passes_counted (r : Resolution) (counts : List (Nat × Nat)) :
    (r.counted counts).passes = r.passes + counts.length := by
  induction counts generalizing r with
  | nil => rfl
  | cons c counts ih =>
    show ((r.count c.1 c.2).counted counts).passes = _
    have hone : (r.count c.1 c.2).passes = r.passes + 1 := rfl
    rw [ih, hone, List.length_cons]
    omega

namespace State

variable {s t u : State} {o : ResolveOptions} {ms : List Merge} {counts : List (Nat × Nat)}
  {done assignment circular : Nat}

/-- The loop of passes from `s`, when `done` passes were made before, comes to its end in `t`. Each
pass folded assigning files into owners and files that import each other together as often as
`counts` says. -/
inductive PassLoop (o : ResolveOptions) :
    (done : Nat) → State → (counts : List (Nat × Nat)) → State → Prop where
  /-- The last pass: it is the only one, or it merged nothing, or the cap is reached. -/
  | stop {done : Nat} {s t : State} {assignment circular : Nat}
      (hpass : (s.pass o.combine).value = (t, assignment, circular))
      (hstop : o.fixpoint = false ∨ assignment + circular = 0 ∨ o.maxPasses ≤ (done + 1 : Nat)) :
      PassLoop o done s [(assignment, circular)] t
  /-- A pass that merged something, with more passes allowed. -/
  | again {done : Nat} {s u t : State} {assignment circular : Nat} {counts : List (Nat × Nat)}
      (hpass : (s.pass o.combine).value = (u, assignment, circular)) (hfixpoint : o.fixpoint = true)
      (hmerged : assignment + circular ≠ 0) (hcap : (done + 1 : Nat) < o.maxPasses)
      (hrest : PassLoop o (done + 1) u counts t) :
      PassLoop o done s ((assignment, circular) :: counts) t

/-! ## One pass -/

/-- A pass counts its merges by their reasons. -/
theorem pass_tally {combine : Bool} (h : (s.pass combine).value = (t, assignment, circular)) :
    ∃ ms, Run (Called combine) s ms t ∧ Merge.tally ms .assignment = assignment ∧
      Merge.tally ms .circular = circular := by
  obtain ⟨ms, ns, hrun, hcounts, hreason, hreason'⟩ := pass_halves combine s
  rw [h] at hrun hcounts
  obtain ⟨rfl, rfl⟩ := Prod.mk.inj hcounts
  refine ⟨ms ++ ns, hrun, ?_, ?_⟩ <;>
    simp [Merge.tally_append, Merge.tally_of_forall hreason, Merge.tally_of_forall hreason']

/-- A pass that merges something takes a file away and leaves one. -/
theorem pass_size {combine : Bool} (h : (s.pass combine).value = (t, assignment, circular)) :
    t.files.size + (assignment + circular) = s.files.size ∧
      (assignment + circular ≠ 0 → 1 ≤ t.files.size) := by
  obtain ⟨ms, hrun, rfl, rfl⟩ := pass_tally h
  rw [Merge.tally_add]
  refine ⟨hrun.size_eq.symm, fun hne => ?_⟩
  cases ms with
  | nil => exact (hne rfl).elim
  | cons m ms => exact hrun.one_le_size

/-! ## The loop -/

namespace PassLoop

theorem length_pos (h : PassLoop o done s counts t) : 1 ≤ counts.length := by
  cases h <;> simp

/-- There are no more passes than files, or one. -/
theorem length_le_size (h : PassLoop o done s counts t) : counts.length ≤ max 1 s.files.size := by
  induction h with
  | stop => exact Nat.le_max_left 1 _
  | again hpass _ hmerged _ _ ih =>
    obtain ⟨hsize, hleft⟩ := pass_size hpass
    have hleft := hleft hmerged
    rw [List.length_cons]
    omega

/-- There are no more passes than the cap allows, or one. -/
theorem length_le_cap (h : PassLoop o done s counts t) :
    (done + counts.length : Int) ≤ max (done + 1 : Int) o.maxPasses := by
  induction h with
  | stop => exact Int.le_max_left _ _
  | again _ _ _ hcap _ ih =>
    rw [List.length_cons]
    push_cast at hcap ih ⊢
    omega

theorem length_eq_one (h : PassLoop o done s counts t) (hfixpoint : o.fixpoint = false) :
    counts.length = 1 := by
  cases h with
  | stop => rfl
  | again _ hfix => rw [hfixpoint] at hfix; cases hfix

/-- A loop that repeats its passes and ends below the cap has merged nothing in the last one. -/
theorem getLast?_eq (h : PassLoop o done s counts t) (hfixpoint : o.fixpoint = true)
    (hbelow : (done + counts.length : Int) < o.maxPasses) : counts.getLast? = some (0, 0) := by
  induction h with
  | stop hpass hstop =>
    rcases hstop with hfix | hzero | hcap
    · rw [hfixpoint] at hfix
      cases hfix
    · obtain ⟨rfl, rfl⟩ := Nat.add_eq_zero_iff.mp hzero
      rfl
    · simp only [List.length_singleton] at hbelow
      push_cast at hcap
      omega
  | again _ _ _ _ hrest ih =>
    rw [List.length_cons] at hbelow
    rw [List.getLast?_cons_of_ne_nil (List.ne_nil_of_length_pos hrest.length_pos)]
    exact ih (by push_cast at hbelow ⊢; omega)

/-- The loop is a run of merges, and the counts of its passes tell how many of them have which
reason. -/
theorem run (h : PassLoop o done s counts t) (r : Resolution) :
    ∃ ms, Run (Called o.combine) s ms t ∧
      (r.counted counts).assignmentMerges = r.assignmentMerges + Merge.tally ms .assignment ∧
      (r.counted counts).circularMerges = r.circularMerges + Merge.tally ms .circular := by
  induction h generalizing r with
  | stop hpass =>
    obtain ⟨ms, hrun, rfl, rfl⟩ := pass_tally hpass
    exact ⟨ms, hrun, rfl, rfl⟩
  | again hpass _ _ _ _ ih =>
    obtain ⟨ms, hrun, rfl, rfl⟩ := pass_tally hpass
    obtain ⟨ns, hrun', hassign, hcirc⟩ :=
      ih (r.count (Merge.tally ms .assignment) (Merge.tally ms .circular))
    refine ⟨ms ++ ns, hrun.append hrun', ?_, ?_⟩
    · rw [Merge.tally_append, ← Nat.add_assoc]
      exact hassign
    · rw [Merge.tally_append, ← Nat.add_assoc]
      exact hcirc

end PassLoop

/-- As many further passes as there are files let the loop come to its end. -/
theorem passes_loop (o : ResolveOptions) (fuel : Nat) (s : State) (r : Resolution)
    (hfuel : s.files.size ≤ fuel) :
    ∃ counts, PassLoop o r.passes s counts (passes o fuel s r).value.1 ∧
      (passes o fuel s r).value.2 = r.counted counts := by
  induction fuel generalizing s r with
  | zero =>
    simp only [passes, Logged.value_bind, Logged.value_pure, value_nextPass]
    rcases hpass : (s.pass o.combine).value with ⟨u, assignment, circular⟩
    obtain ⟨hsize, -⟩ := pass_size hpass
    exact ⟨_, .stop hpass (.inr (.inl (by omega))), rfl⟩
  | succ fuel ih =>
    simp only [passes, Logged.value_bind, value_nextPass]
    rcases hpass : (s.pass o.combine).value with ⟨u, assignment, circular⟩
    split
    · next hmore =>
      simp only [Bool.and_eq_true, decide_eq_true_eq] at hmore
      obtain ⟨⟨hfixpoint, hmerged⟩, hcap⟩ := hmore
      obtain ⟨hsize, -⟩ := pass_size hpass
      obtain ⟨counts, hloop, hcounted⟩ := ih u (r.count assignment circular) (by omega)
      exact ⟨_, .again hpass hfixpoint hmerged hcap hloop, hcounted⟩
    · next hmore =>
      simp only [Bool.and_eq_true, decide_eq_true_eq, not_and_or] at hmore
      refine ⟨_, .stop hpass ?_, rfl⟩
      rcases hmore with (hfixpoint | hmerged) | hcap
      · exact .inl (Bool.not_eq_true _ ▸ hfixpoint)
      · exact .inr (.inl (not_not.mp hmerged))
      · exact .inr (.inr (Int.not_lt.mp hcap))

/-- A resolution comes to an end for every state and all options: its passes are the loop, which
has no bound of its own. There is at least one, and there are no more than files or than the cap
allows, one apart, and only one unless passes are repeated. The summary counts the merges: they are
the files that were lost and the records that were added, and each reason is counted apart. Repeated
passes that end below the cap have merged nothing in the last one. -/
theorem resolve_accounts (s : State) (o : ResolveOptions) :
    let t := (s.resolve o).value.1
    let r := (s.resolve o).value.2
    (1 ≤ r.passes ∧ r.passes ≤ max 1 s.files.size ∧ (r.passes : Int) ≤ max 1 o.maxPasses ∧
      (o.fixpoint = false → r.passes = 1)) ∧
    t.files.size + r.mergeCount = s.files.size ∧
    (∃ ms : List Merge, t.merges = s.merges ++ ms.map .merged ∧ r.mergeCount = ms.length ∧
      r.assignmentMerges = Merge.tally ms .assignment ∧
      r.circularMerges = Merge.tally ms .circular) ∧
    ∃ counts, PassLoop o 0 s counts t ∧ r.passes = counts.length ∧
      (o.fixpoint = true → (r.passes : Int) < o.maxPasses → counts.getLast? = some (0, 0)) := by
  intro t r
  obtain ⟨counts, hloop, hcounted⟩ :=
    passes_loop o s.files.size s ⟨0, 0, 0, []⟩ (Nat.le_refl _)
  have hpasses : r.passes = counts.length := by
    show (passes o s.files.size s ⟨0, 0, 0, []⟩).value.2.passes = _
    rw [hcounted, Resolution.passes_counted, Nat.zero_add]
  obtain ⟨ms, hrun, hassign, hcirc⟩ := hloop.run ⟨0, 0, 0, []⟩
  rw [← hcounted, Nat.zero_add] at hassign hcirc
  have hmerges : r.mergeCount = ms.length := by
    rw [← Merge.tally_add, ← hassign, ← hcirc]
    rfl
  have hcap := hloop.length_le_cap
  rw [hpasses, hmerges]
  refine ⟨⟨hloop.length_pos, hloop.length_le_size, by simpa using hcap, hloop.length_eq_one⟩,
    hrun.size_eq.symm, ⟨ms, hrun.merges_eq, rfl, hassign, hcirc⟩, counts, hloop, rfl, ?_⟩
  intro hfixpoint hbelow
  exact hloop.getLast?_eq hfixpoint (by simpa using hbelow)

/-- `a.js` and `c.js` import each other. Once they are one file, it and `b.js` do, which the pass
that folds them together has gone by. -/
def relapse : State :=
  { empty with
    files := .ofList [("a.js", "A"), ("b.js", "B"), ("c.js", "C"), ("d.js", "D")]
    symbols := .ofList [
      ("x", ⟨some "a.js", .ofList ["d.js"], .ofList ["b.js", "c.js"]⟩),
      ("y", ⟨some "c.js", .empty, .ofList ["a.js"]⟩),
      ("z", ⟨some "b.js", .empty, .ofList ["c.js"]⟩)] }

theorem resolve_accounts_relapse :
    let o : ResolveOptions := ⟨true, true, 10, none⟩
    (relapse.resolve o).value.2 = ⟨1, 2, 3, []⟩ ∧
    (∃ counts, PassLoop o 0 relapse counts (relapse.resolve o).value.1 ∧ counts.length = 3 ∧
      counts.getLast? = some (0, 0)) ∧
    (relapse.resolve { o with fixpoint := false }).value.2.passes = 1 := by
  intro o
  have hsummary : (relapse.resolve o).value.2 = ⟨1, 2, 3, []⟩ := by decide +kernel
  obtain ⟨-, -, -, counts, hloop, hpasses, hlast⟩ := resolve_accounts relapse o
  rw [hsummary] at hpasses hlast
  obtain ⟨⟨-, -, -, hone⟩, -⟩ := resolve_accounts relapse { o with fixpoint := false }
  exact ⟨hsummary, ⟨counts, hloop, hpasses.symm, hlast rfl (by decide)⟩, hone rfl⟩

end State

end ScriptModules
