import ScriptModules.Proofs.Data.Order
import ScriptModules.Proofs.Graph.Cycle

/-!
# The order in which cycles are listed

Depth-first search is a recursion: it takes the nodes that it is given one after the other, passes
over those that it knows, and goes through the targets of a new node before it takes the next one.
`Graph.Explores` says this without a stack. The walk of `findCycles` keeps the targets that are left
in its frames; read from the innermost frame outwards they are the nodes that the search is still to
take, so the walk meets nodes in the order of the search.

* `Walk.step_cases`, `Walk.leave_cases`: what a step can do, and what leaving a node can do;
* `Walk.step_explores`: what the search is still to take before and after a step;
* `Walk.Backward.step`: the stack and the cycles list their nodes from the last met to the first;
* `Walk.run_explores`, `Graph.walk_explores`: both for a walk to its end and over the whole graph.

Main statement: `findCycles_ordered`.
-/

namespace ScriptModules

namespace Graph

/-- Depth-first search from the listed nodes, one after the other. The nodes `found` were met before
it, and the nodes `found'` were met at its end, both in order of discovery. -/
inductive Explores (g : Graph) : (found nodes found' : List String) → Prop where
  | nil (found : List String) : Explores g found [] found
  /-- A node that was met before is passed over. -/
  | known {found found' nodes : List String} {v : String} (hv : v ∈ found)
      (hrest : Explores g found nodes found') : Explores g found (v :: nodes) found'
  /-- A new node comes before its targets, and these, by code point, before the next node. -/
  | new {found inner found' nodes : List String} {v : String} (hv : v ∉ found)
      (htargets : Explores g (found ++ [v]) (sorted (g.targets v).items) inner)
      (hrest : Explores g inner nodes found') : Explores g found (v :: nodes) found'

namespace Explores

variable {g : Graph} {found found' found'' inner nodes more : List String}

/-- The search meets nodes in one order only. -/
theorem unique (h : g.Explores found nodes found') (h' : g.Explores found nodes found'') :
    found'' = found' := by
  induction h generalizing found'' with
  | nil => cases h'; rfl
  | known hv _ ih =>
    cases h' with
    | known _ hrest => exact ih hrest
    | new hnew _ _ => exact (hnew hv).elim
  | new hnew _ _ ihtargets ihrest =>
    cases h' with
    | known hv _ => exact (hnew hv).elim
    | new _ htargets hrest =>
      obtain rfl := ihtargets htargets
      exact ihrest hrest

/-- A search from two lists, one behind the other, is the search from the first and then from the
second. -/
theorem append_iff : g.Explores found (nodes ++ more) found' ↔
    ∃ inner, g.Explores found nodes inner ∧ g.Explores inner more found' := by
  induction nodes generalizing found with
  | nil =>
    constructor
    · intro h
      exact ⟨found, .nil found, h⟩
    · rintro ⟨inner, hnil, h⟩
      cases hnil
      exact h
  | cons v nodes ih =>
    constructor
    · intro h
      cases h with
      | known hv hrest =>
        obtain ⟨inner, hnodes, hmore⟩ := ih.mp hrest
        exact ⟨inner, .known hv hnodes, hmore⟩
      | new hv htargets hrest =>
        obtain ⟨inner, hnodes, hmore⟩ := ih.mp hrest
        exact ⟨inner, .new hv htargets hnodes, hmore⟩
    · rintro ⟨inner, hnodes, hmore⟩
      cases hnodes with
      | known hv hrest => exact .known hv (ih.mpr ⟨inner, hrest, hmore⟩)
      | new hv htargets hrest => exact .new hv htargets (ih.mpr ⟨inner, hrest, hmore⟩)

end Explores

end Graph

/-- What is taken from the stack lay on top of what is left. -/
theorem Pending.popTo_append {root : String} {stack component : List String} {marked : KeySet}
    {p : Pending} (h : popTo root stack marked = .ok (component, p)) :
    stack = component ++ p.stack := by
  induction stack generalizing marked component with
  | nil => cases h
  | cons node rest ih =>
    simp only [popTo] at h
    split at h
    · split at h
      · cases h
        rfl
      · cases hpop : popTo root rest (marked.erase node) with
        | error fault => simp [hpop, bind, Except.bind] at h
        | ok r =>
          simp only [hpop, bind, Except.bind, pure, Except.pure, Except.ok.injEq,
            Prod.mk.injEq] at h
          obtain ⟨rfl, rfl⟩ := h
          rw [List.cons_append, ← ih hpop]
    · cases h

namespace Walk

variable {g : Graph} {w w' : Walk} {f : Frame} {outer frames : List Frame} {found : List String}

/-! ## What a step does -/

/-- Leaving a node changes nothing, or takes a component from the stack, which may be a cycle. -/
theorem leave_cases (h : w.leave g f = .ok w') :
    w' = w ∨ ∃ component, w'.found = w.found ∧
      w.pending.stack = component ++ w'.pending.stack ∧
      (w'.cycles = w.cycles ++ [component] ∨ w'.cycles = w.cycles) := by
  unfold leave at h
  split at h
  · right
    unfold complete at h
    cases hpop : w.pending.extract f.node with
    | error fault => simp [hpop, bind, Except.bind] at h
    | ok r =>
      simp only [hpop, bind, Except.bind, pure, Except.pure, Except.ok.injEq] at h
      subst h
      refine ⟨r.1, rfl, Pending.popTo_append hpop, ?_⟩
      dsimp only
      split
      · exact .inl rfl
      · exact .inr rfl
  · cases h
    exact .inl rfl

/-- A step enters the next target, passes over it, or leaves the node when there is none. -/
theorem step_cases (h : w.step g f outer = .ok (w', frames)) :
    (∃ t left, f.left = t :: left ∧ t ∉ w.found ∧ w' = w.enter t ∧
      frames = w.frame g t :: { f with left } :: outer) ∨
    (∃ t left low, f.left = t :: left ∧ t ∈ w.found ∧ w' = w ∧
      frames = ⟨f.node, low, left⟩ :: outer) ∨
    (f.left = [] ∧ w.leave g f = .ok w' ∧ frames = Frame.lowerFirst f.low outer) := by
  unfold step at h
  split at h
  · next t left hleft =>
    split at h
    · next hnew =>
      cases h
      exact .inl ⟨t, left, hleft, hnew, rfl, rfl⟩
    · next hfound =>
      have hfound := not_not.mp hfound
      split at h
      · cases h
        exact .inr (.inl ⟨t, left, _, hleft, hfound, rfl, rfl⟩)
      · cases h
        exact .inr (.inl ⟨t, left, f.low, hleft, hfound, rfl, rfl⟩)
  · next hleft =>
    cases hw : w.leave g f with
    | error fault => simp [hw, Except.map] at h
    | ok w₁ =>
      rw [hw] at h
      cases h
      exact .inr (.inr ⟨hleft, rfl, rfl⟩)

/-! ## The walk is the search -/

theorem flatMap_left_lowerFirst (low : Nat) (frames : List Frame) :
    (Frame.lowerFirst low frames).flatMap Frame.left = frames.flatMap Frame.left := by
  cases frames <;> rfl

/-- The targets that are left, from the innermost node outwards, are what the search is still to
take; a step takes at most one of them. -/
theorem step_explores (h : w.step g f outer = .ok (w', frames))
    (hrest : g.Explores w'.found (frames.flatMap Frame.left) found) :
    g.Explores w.found ((f :: outer).flatMap Frame.left) found := by
  rw [List.flatMap_cons]
  rcases step_cases h with ⟨t, left, hleft, hnew, rfl, rfl⟩ |
      ⟨t, left, low, hleft, hfound, rfl, rfl⟩ |
      ⟨hleft, hleave, rfl⟩
  · rw [List.flatMap_cons, Graph.Explores.append_iff] at hrest
    obtain ⟨inner, htargets, hrest⟩ := hrest
    rw [hleft]
    exact .new hnew htargets hrest
  · rw [hleft]
    exact .known hfound hrest
  · have hsame : w'.found = w.found := by
      rcases leave_cases hleave with rfl | ⟨component, hfound, -⟩
      · rfl
      · exact hfound
    rw [flatMap_left_lowerFirst, hsame] at hrest
    rwa [hleft]

/-! ## Backwards in order of discovery -/

/-- The stack and the cycles found so far list their nodes from the last met to the first. -/
structure Backward (w : Walk) : Prop where
  stack : w.pending.stack.Sublist w.found.reverse
  cycles : ∀ c ∈ w.cycles, c.Sublist w.found.reverse

namespace Backward

theorem start : Walk.start.Backward := ⟨List.Sublist.refl _, by simp [Walk.start]⟩

theorem enter (h : w.Backward) (node : String) : (w.enter node).Backward := by
  have hfound : (w.enter node).found.reverse = node :: w.found.reverse := by simp [Walk.enter]
  refine ⟨?_, fun c hc => ?_⟩
  · rw [hfound]
    exact h.stack.cons_cons node
  · rw [hfound]
    exact (h.cycles c hc).cons node

theorem leave (h : w.Backward) (hleave : w.leave g f = .ok w') : w'.Backward := by
  rcases leave_cases hleave with rfl | ⟨component, hfound, hstack, hcycles⟩
  · exact h
  · have hsub := h.stack
    rw [hstack] at hsub
    have hcomponent : component.Sublist w.found.reverse :=
      (List.sublist_append_left _ _).trans hsub
    refine ⟨?_, fun c hc => ?_⟩
    · rw [hfound]
      exact (List.sublist_append_right _ _).trans hsub
    · rw [hfound]
      rcases hcycles with heq | heq
      · rw [heq, List.mem_append, List.mem_singleton] at hc
        rcases hc with hc | rfl
        · exact h.cycles c hc
        · exact hcomponent
      · rw [heq] at hc
        exact h.cycles c hc

theorem step (h : w.Backward) (hstep : w.step g f outer = .ok (w', frames)) : w'.Backward := by
  rcases step_cases hstep with ⟨t, _, -, -, rfl, -⟩ | ⟨_, _, _, -, -, rfl, -⟩ | ⟨-, hleave, -⟩
  · exact h.enter t
  · exact h
  · exact h.leave hleave

end Backward

/-- A walk that comes to its end has made the search from all targets that were left. -/
theorem run_explores {bound : Nat} (hw : w.Backward) (h : w.run g bound frames = .ok w') :
    w'.Backward ∧ g.Explores w.found (frames.flatMap Frame.left) w'.found := by
  induction bound generalizing w frames with
  | zero =>
    cases frames with
    | nil => cases h; exact ⟨hw, .nil _⟩
    | cons f outer => cases h
  | succ bound ih =>
    cases frames with
    | nil => cases h; exact ⟨hw, .nil _⟩
    | cons f outer =>
      simp only [run] at h
      split at h
      · next hstep =>
        obtain ⟨hback, hrest⟩ := ih (hw.step hstep) h
        exact ⟨hback, step_explores hstep hrest⟩
      · cases h

end Walk

namespace Graph

/-! ## The whole walk -/

/-- The walk over the listed start nodes is the search from them. -/
theorem foldlM_run_explores {g : Graph} (l : List String) {w w' : Walk} (hw : w.Backward)
    (h : l.foldlM (fun w node => if node ∈ w.found then .ok w else
      Walk.run g g.walkBound (w.enter node) [w.frame g node]) w = .ok w') :
    w'.Backward ∧ g.Explores w.found l w'.found := by
  induction l generalizing w with
  | nil =>
    cases h
    exact ⟨hw, .nil _⟩
  | cons v l ih =>
    rw [List.foldlM_cons] at h
    by_cases hv : v ∈ w.found
    · rw [if_pos hv] at h
      obtain ⟨hback, hrest⟩ := ih hw h
      exact ⟨hback, .known hv hrest⟩
    · rw [if_neg hv] at h
      cases hrun : Walk.run g g.walkBound (w.enter v) [w.frame g v] with
      | error fault =>
        rw [hrun] at h
        cases h
      | ok w₁ =>
        rw [hrun] at h
        obtain ⟨hback₁, htargets⟩ := Walk.run_explores (hw.enter v) hrun
        rw [List.flatMap_singleton] at htargets
        obtain ⟨hback, hrest⟩ := ih hback₁ h
        exact ⟨hback, .new hv htargets hrest⟩

theorem walk_explores {g : Graph} {w : Walk} (h : g.walk = .ok w) :
    w.Backward ∧ g.Explores [] g.keys w.found :=
  foldlM_run_explores g.keys .start h

/-- What is listed backwards is listed by decreasing positions. -/
theorem pairwise_of_sublist_reverse {order c : List String} (horder : order.Nodup)
    (h : c.Sublist order.reverse) : c.Pairwise fun a b => order.idxOf b < order.idxOf a :=
  (List.pairwise_reverse.mpr (pairwise_idxOf horder)).sublist h

/-- Every component with more than one node or a loop is listed, and those that can be reached from
it are listed before it. Inside a list the nodes stand in reverse order of discovery by the
depth-first search that starts at the keys in their order, so the last node is the one that was met
first. -/
theorem findCycles_ordered (g : Graph) :
    (∀ c, g.IsCycle c → ∃ c' ∈ g.findCycles, c'.Perm c) ∧
    (∀ i j : Fin g.findCycles.length, i ≠ j → ∀ a ∈ g.findCycles.get i, ∀ b ∈ g.findCycles.get j,
      g.Reaches b a → i < j) ∧
    ∃ order : List String, (∀ found, g.Explores [] g.keys found ↔ found = order) ∧ order.Nodup ∧
      ∀ c ∈ g.findCycles, (∀ v ∈ c, v ∈ order) ∧
        c.Pairwise (fun a b => order.idxOf b < order.idxOf a) ∧
        ∃ first, c.getLast? = some first ∧ ∀ v ∈ c, v ≠ first →
          order.idxOf first < order.idxOf v := by
  obtain ⟨hcycles, hall, hapart⟩ := g.findCycles_spec
  obtain ⟨w, hwalk, hsound, -⟩ := g.walk_sound
  obtain ⟨hback, hexplores⟩ := walk_explores hwalk
  refine ⟨fun c hc => ?_, fun i j hne a ha b hb hba => ?_, w.found, fun found => ?_, hsound.nodup,
    fun c hc => ?_⟩
  · obtain ⟨c', hc', hsame⟩ := hall c hc
    exact ⟨c', hc', (List.perm_ext_iff_of_nodup (hcycles c' hc').nodup hc.nodup).mpr hsame⟩
  · -- Otherwise the list of `b` would come first and lead to that of `a`.
    by_contra hle
    have hlt : j < i := by omega
    exact List.pairwise_iff_get.mp hapart j i hlt b hb a ha hba
  · constructor
    · exact hexplores.unique
    · rintro rfl
      exact hexplores
  · have hsub : c.Sublist w.found.reverse := by
      refine hback.cycles c ?_
      rw [findCycles, hwalk] at hc
      exact hc
    have hpairwise := pairwise_of_sublist_reverse hsound.nodup hsub
    refine ⟨fun v hv => List.mem_reverse.mp (hsub.subset hv), hpairwise, ?_⟩
    rcases List.eq_nil_or_concat' c with rfl | ⟨init, first, rfl⟩
    · obtain ⟨a, ha⟩ := (hcycles _ hc).exists_mem
      cases ha
    · obtain ⟨-, -, hlast⟩ := List.pairwise_append.mp hpairwise
      refine ⟨first, List.getLast?_concat, fun v hv hne => ?_⟩
      have hinit : v ∈ init := (List.mem_append.mp hv).resolve_right fun h =>
        hne (List.mem_singleton.mp h)
      exact hlast v hinit first (List.mem_singleton_self _)

/-- Two pairs of nodes that point to each other. The pair that is met last is reached from the
other one. -/
def chain : Graph :=
  .ofList [("a", .ofList ["b"]), ("b", .ofList ["a", "c"]), ("c", .ofList ["d"]),
    ("d", .ofList ["c"])]

theorem findCycles_ordered_chain :
    chain.findCycles = [["d", "c"], ["b", "a"]] ∧ chain.Reaches "a" "c" ∧
    (∀ i j : Fin chain.findCycles.length, i ≠ j → "c" ∈ chain.findCycles.get i →
      "a" ∈ chain.findCycles.get j → i < j) ∧
    ∃ order, chain.Explores [] ["a", "b", "c", "d"] order ∧
      order.idxOf "a" < order.idxOf "b" ∧ order.idxOf "c" < order.idxOf "d" := by
  obtain ⟨-, hdependency, order, hexplores, -, hinside⟩ := findCycles_ordered chain
  have hfound : chain.findCycles = [["d", "c"], ["b", "a"]] := by
    have ha (w : Walk) : w.frame chain "a" = ⟨"a", w.found.length, ["b"]⟩ :=
      w.frame_of_pairwise rfl (by decide)
    have hb (w : Walk) : w.frame chain "b" = ⟨"b", w.found.length, ["a", "c"]⟩ :=
      w.frame_of_pairwise rfl (by decide)
    have hc (w : Walk) : w.frame chain "c" = ⟨"c", w.found.length, ["d"]⟩ :=
      w.frame_of_pairwise rfl (by decide)
    have hd (w : Walk) : w.frame chain "d" = ⟨"d", w.found.length, ["c"]⟩ :=
      w.frame_of_pairwise rfl (by decide)
    have hkeys : chain.keys = ["a", "b", "c", "d"] := rfl
    have hbound : chain.walkBound = 14 := rfl
    rw [findCycles, walk, hkeys, hbound]
    simp [Walk.run, Walk.step, Walk.start, Walk.enter, Walk.leave, Walk.complete, Frame.lower,
      Frame.lowerFirst, Pending.push, Pending.extract, Pending.popTo, ha, hb, hc, hd, Except.map,
      bind, Except.bind, pure, Except.pure]
  have hab : "b" ∈ chain.targets "a" := by decide
  have hbc : "c" ∈ chain.targets "b" := by decide
  have hreach : chain.Reaches "a" "c" := .tail (.single hab) hbc
  have hmem : ["b", "a"] ∈ chain.findCycles ∧ ["d", "c"] ∈ chain.findCycles := by simp [hfound]
  obtain ⟨-, hfirst, -⟩ := hinside _ hmem.1
  obtain ⟨-, hsecond, -⟩ := hinside _ hmem.2
  exact ⟨hfound, hreach, fun i j hne hc ha => hdependency i j hne "c" hc "a" ha hreach, order,
    (hexplores order).mpr rfl, List.rel_of_pairwise_cons hfirst (List.mem_singleton_self _),
    List.rel_of_pairwise_cons hsecond (List.mem_singleton_self _)⟩

end Graph

end ScriptModules
