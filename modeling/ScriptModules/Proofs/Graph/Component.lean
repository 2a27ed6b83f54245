import Mathlib.Data.List.Nodup
import Mathlib.Logic.Relation
import ScriptModules.Graph.Cycle
import ScriptModules.Proofs.Data.Table

/-!
# Components on the stack of a walk

The walk of `Graph.findCycles` is described by what holds whenever it meets or leaves a node
(`Walk.Sound`), with the nodes that it is inside of as a list `path`. The nodes on the stack are
those whose component is not complete: each of them reaches a node of the path that was met no
later, and is reached from every node of the path that was met no later. A node whose component is
complete leads to such nodes only.

* `Walk.Sound.enter`: meeting a node;
* `Walk.Sound.leave`: leaving a node whose component goes on further down the stack;
* `Walk.Ripe.component`, `Walk.Ripe.sound_complete`: leaving the first node of a component, which is
  then what lies on the stack down to the node.
-/

namespace ScriptModules

namespace Graph

variable {g : Graph} {a b : String} {c c' : List String}

/-- There is an edge from `a` to `b`. -/
def Edge (g : Graph) (a b : String) : Prop := b ∈ g.targets a

/-- There is a path from `a` to `b`. -/
def Reaches (g : Graph) : String → String → Prop := Relation.ReflTransGen g.Edge

/-- There are paths between `a` and `b` in both directions. -/
def Connected (g : Graph) (a b : String) : Prop := g.Reaches a b ∧ g.Reaches b a

/-- The list is a strongly connected component with more than one node or a loop. -/
structure IsCycle (g : Graph) (c : List String) : Prop where
  nodup : c.Nodup
  component : ∀ a ∈ c, ∀ b, b ∈ c ↔ g.Connected a b
  round : (∃ a ∈ c, ∃ b ∈ c, a ≠ b) ∨ ∃ a ∈ c, g.Edge a a

/-- The nodes of a graph, as keys or as targets, some of them repeatedly. -/
def nodes (g : Graph) : List String := g.keys ++ g.entries.flatMap (·.2.items)

theorem mem_nodes_of_edge (h : g.Edge a b) : b ∈ g.nodes := by
  unfold Edge targets at h
  cases hg : g.get? a with
  | none => simp [hg, KeySet.mem_def, KeySet.empty] at h
  | some ts =>
    rw [hg] at h
    have hmem := Table.get?_eq_some_iff.mp hg
    exact List.mem_append_right _ (List.mem_flatMap.mpr ⟨(a, ts), hmem, h⟩)

theorem walkBound_eq (g : Graph) :
    g.walkBound = g.nodes.length + (g.entries.flatMap (·.2.items)).length := by
  have hfold : ∀ (l : List (String × KeySet)) (n : Nat),
      l.foldl (fun n e => n + 2 * e.2.items.length) n =
        n + 2 * (l.flatMap (·.2.items)).length := by
    intro l
    induction l with
    | nil => intro n; rfl
    | cons e l ih =>
      intro n
      rw [List.foldl_cons, ih, List.flatMap_cons, List.length_append]
      omega
  rw [walkBound, hfold, nodes, List.length_append, Table.size_eq]
  omega

/-- Two components with a common node are the same. -/
theorem IsCycle.mem_iff (h : g.IsCycle c) (h' : g.IsCycle c') (ha : a ∈ c) (ha' : a ∈ c')
    (b : String) : b ∈ c ↔ b ∈ c' := by
  rw [h.component a ha, h'.component a ha']

end Graph

/-! ## Taking a component from the stack -/

theorem Pending.popTo_eq {root : String} {rest : List String} (new : List String)
    (marked : KeySet) (hnodup : (new ++ root :: rest).Nodup)
    (hmarked : ∀ v, v ∈ marked ↔ v ∈ new ++ root :: rest) :
    ∃ p, popTo root (new ++ root :: rest) marked = .ok (new ++ [root], p) ∧ p.stack = rest ∧
      ∀ v, v ∈ p.marked ↔ v ∈ rest := by
  induction new generalizing marked with
  | nil =>
    have hroot : root ∈ marked := (hmarked root).mpr (by simp)
    refine ⟨⟨rest, marked.erase root⟩, by simp [popTo, hroot], rfl, fun v => ?_⟩
    have hne : root ∉ rest := (List.nodup_cons.mp hnodup).1
    rw [KeySet.mem_erase, hmarked]
    simp only [List.nil_append, List.mem_cons]
    constructor
    · rintro ⟨rfl | hv, hvr⟩
      · exact (hvr rfl).elim
      · exact hv
    · exact fun hv => ⟨.inr hv, fun e => hne (e ▸ hv)⟩
  | cons x new ih =>
    obtain ⟨hx, hnodup'⟩ := List.nodup_cons.mp hnodup
    have hxm : x ∈ marked := (hmarked x).mpr (by simp)
    have hxr : x ≠ root := fun e => hx (by simp [e])
    obtain ⟨p, hp, hstack, hmem⟩ := ih (marked.erase x) hnodup' fun v => by
      rw [KeySet.mem_erase, hmarked, List.cons_append, List.mem_cons]
      constructor
      · rintro ⟨rfl | hv, hne⟩
        · exact (hne rfl).elim
        · exact hv
      · exact fun hv => ⟨.inr hv, fun e => hx (e ▸ hv)⟩
    refine ⟨p, ?_, hstack, hmem⟩
    simp only [List.cons_append, popTo, if_pos hxm, if_neg hxr, hp]
    rfl

namespace Walk

variable {g : Graph} {w w' : Walk} {path : List String} {node u v : String}

/-- The number of a node in order of discovery. -/
def index (w : Walk) (v : String) : Nat := w.found.idxOf v

/-- The component of the node is complete. -/
def Done (w : Walk) (v : String) : Prop := v ∈ w.found ∧ v ∉ w.pending.stack

theorem index_lt (hv : v ∈ w.found) : w.index v < w.found.length :=
  List.idxOf_lt_length_of_mem hv

theorem index_of_grown (h : w.found <+: w'.found) (hv : v ∈ w.found) : w'.index v = w.index v := by
  obtain ⟨more, hmore⟩ := h
  rw [index, ← hmore, List.idxOf_append_of_mem hv]
  rfl

/-- A node that was met later has a number behind those of all the nodes met before. -/
theorem le_index_of_grown (h : w.found <+: w'.found) (hv : v ∉ w.found) :
    w.found.length ≤ w'.index v := by
  obtain ⟨more, hmore⟩ := h
  rw [index, ← hmore, List.idxOf_append_of_notMem hv]
  omega

/-- What holds of a walk that is inside the visits of the nodes in `path`. -/
structure Sound (g : Graph) (path : List String) (w : Walk) : Prop where
  nodup : w.found.Nodup
  stack : w.pending.stack.Sublist w.found.reverse
  marked : ∀ v, v ∈ w.pending.marked ↔ v ∈ w.pending.stack
  path_subset : path ⊆ w.pending.stack
  /-- A node that was left leads to nodes that were met. -/
  followed : ∀ v ∈ w.found, v ∉ path → ∀ t, g.Edge v t → t ∈ w.found
  closed : ∀ v t, w.Done v → g.Edge v t → w.Done t
  back : ∀ v ∈ w.pending.stack, ∃ u ∈ path, w.index u ≤ w.index v ∧ g.Reaches v u
  forth : ∀ u ∈ path, ∀ v ∈ w.pending.stack, w.index u ≤ w.index v → g.Reaches u v
  cycles : ∀ c ∈ w.cycles, g.IsCycle c ∧ ∀ v ∈ c, w.Done v
  listed : ∀ c v, g.IsCycle c → v ∈ c → w.Done v → ∃ c' ∈ w.cycles, v ∈ c'
  order : w.cycles.Pairwise fun c c' => ∀ a ∈ c, ∀ b ∈ c', ¬ g.Reaches a b

namespace Sound

theorem start (g : Graph) : Sound g [] Walk.start where
  nodup := List.nodup_nil
  stack := List.Sublist.refl _
  marked v := by simp [Walk.start, KeySet.mem_def, KeySet.empty]
  path_subset := List.Subset.refl _
  followed v hv := by simp [Walk.start] at hv
  closed v t hv := by simp [Done, Walk.start] at hv
  back v hv := by simp [Walk.start] at hv
  forth u hu := by simp at hu
  cycles c hc := by simp [Walk.start] at hc
  listed c v _ _ hv := by simp [Done, Walk.start] at hv
  order := List.Pairwise.nil

theorem mem_found (h : Sound g path w) (hv : v ∈ w.pending.stack) : v ∈ w.found :=
  List.mem_reverse.mp (h.stack.subset hv)

/-- A complete component leads to complete ones only. -/
theorem done_of_reaches (h : Sound g path w) (hu : w.Done u) (huv : g.Reaches u v) : w.Done v := by
  induction huv with
  | refl => exact hu
  | tail _ hedge ih => exact h.closed _ _ ih hedge

/-- Outside of all visits no node is left on the stack. -/
theorem stack_nil (h : Sound g [] w) : w.pending.stack = [] := by
  rw [List.eq_nil_iff_forall_not_mem]
  intro v hv
  obtain ⟨u, hu, -⟩ := h.back v hv
  simp at hu

/-! ## Meeting and leaving nodes -/

theorem enter (h : Sound g path w) (hnode : node ∉ w.found)
    (hreach : ∀ u ∈ path, g.Reaches u node) :
    Sound g (node :: path) (w.enter node) := by
  have hprefix : w.found <+: (w.enter node).found := List.prefix_append _ _
  have hindex : (w.enter node).index node = w.found.length := by
    simp [index, Walk.enter, List.idxOf_append_of_notMem hnode]
  have hdone : ∀ v, (w.enter node).Done v ↔ w.Done v := by
    intro v
    simp only [Done, Walk.enter, Pending.push, List.mem_append, List.mem_cons, List.not_mem_nil,
      or_false]
    constructor
    · rintro ⟨hv | rfl, hnot⟩
      · exact ⟨hv, fun hs => hnot (.inr hs)⟩
      · exact (hnot (.inl rfl)).elim
    · rintro ⟨hv, hnot⟩
      refine ⟨.inl hv, ?_⟩
      rintro (rfl | hs)
      · exact hnode hv
      · exact hnot hs
  have hmem : ∀ v, v ∈ (w.enter node).pending.stack ↔ v = node ∨ v ∈ w.pending.stack :=
    fun v => List.mem_cons
  have hsame : ∀ v ∈ w.pending.stack, (w.enter node).index v = w.index v :=
    fun v hv => index_of_grown hprefix (h.mem_found hv)
  refine ⟨?_, ?_, fun v => ?_, ?_, fun v hv hpath t hedge => ?_, fun v t hv hedge => ?_,
    fun v hv => ?_, fun u hu v hv hle => ?_, fun c hc => ?_, fun c v hc hv hd => ?_, h.order⟩
  · rw [Walk.enter, List.nodup_append]
    refine ⟨h.nodup, List.nodup_singleton _, fun a ha b hb e => hnode ?_⟩
    rw [← List.mem_singleton.mp hb, ← e]
    exact ha
  · simp only [Walk.enter, Pending.push, List.reverse_append, List.reverse_singleton,
      List.singleton_append]
    exact h.stack.cons_cons node
  · rw [hmem]
    simp only [Walk.enter, Pending.push, KeySet.mem_insert, h.marked]
    exact or_comm
  · exact List.cons_subset_cons _ h.path_subset
  · obtain ⟨hne, hpath⟩ := List.ne_and_not_mem_of_not_mem_cons hpath
    have hfound : v ∈ w.found := by
      rcases List.mem_append.mp hv with hv | hv
      · exact hv
      · exact (hne (List.mem_singleton.mp hv)).elim
    exact hprefix.subset (h.followed v hfound hpath t hedge)
  · rw [hdone] at hv ⊢
    exact h.closed v t hv hedge
  · rcases (hmem v).mp hv with rfl | hv
    · exact ⟨v, List.mem_cons_self, Nat.le_refl _, .refl⟩
    · obtain ⟨u, hu, hle, hvu⟩ := h.back v hv
      refine ⟨u, List.mem_cons_of_mem _ hu, ?_, hvu⟩
      rw [hsame u (h.path_subset hu), hsame v hv]
      exact hle
  · rcases (hmem v).mp hv with rfl | hv
    · rcases List.mem_cons.mp hu with rfl | hu
      · exact .refl
      · exact hreach u hu
    · have hlt : (w.enter node).index v < w.found.length := by
        rw [hsame v hv]
        exact index_lt (h.mem_found hv)
      rcases List.mem_cons.mp hu with rfl | hu
      · omega
      · rw [hsame u (h.path_subset hu), hsame v hv] at hle
        exact h.forth u hu v hv hle
  · obtain ⟨hcycle, hc⟩ := h.cycles c hc
    exact ⟨hcycle, fun v hv => (hdone v).mpr (hc v hv)⟩
  · exact h.listed c v hc hv ((hdone v).mp hd)

/-- Leaving a node from which a node further down the stack is reached. -/
theorem leave (h : Sound g (node :: path) w) (htargets : ∀ t, g.Edge node t → t ∈ w.found)
    (hlow : ∃ y ∈ w.pending.stack, w.index y < w.index node ∧ g.Reaches node y) :
    Sound g path w := by
  have hback : ∃ u ∈ path, w.index u < w.index node ∧ g.Reaches node u := by
    obtain ⟨y, hy, hlt, hreach⟩ := hlow
    obtain ⟨u, hu, hle, hyu⟩ := h.back y hy
    rcases List.mem_cons.mp hu with rfl | hu
    · omega
    · exact ⟨u, hu, by omega, hreach.trans hyu⟩
  refine ⟨h.nodup, h.stack, h.marked, fun u hu => h.path_subset (List.mem_cons_of_mem _ hu),
    fun v hv hpath t hedge => ?_, h.closed, fun v hv => ?_,
    fun u hu => h.forth u (List.mem_cons_of_mem _ hu), h.cycles, h.listed, h.order⟩
  · by_cases hne : v = node
    · exact htargets t (hne ▸ hedge)
    · exact h.followed v hv (List.not_mem_cons_of_ne_of_not_mem hne hpath) t hedge
  · obtain ⟨u, hu, hle, hvu⟩ := h.back v hv
    rcases List.mem_cons.mp hu with rfl | hu
    · obtain ⟨u', hu', hlt, hreach⟩ := hback
      exact ⟨u', hu', by omega, hvu.trans hreach⟩
    · exact ⟨u, hu, hle, hvu⟩

end Sound

/-! ## Leaving the first node of a component -/

/-- What lies on the stack from the top down to `node`, all of it above `rest`, leads to nowhere
further down. -/
structure Ripe (g : Graph) (path : List String) (w : Walk) (node : String)
    (new rest : List String) :
    Prop where
  sound : Sound g (node :: path) w
  stack : w.pending.stack = new ++ node :: rest
  path_subset : path ⊆ rest
  above : ∀ v ∈ new, w.index node ≤ w.index v
  below : ∀ v ∈ rest, w.index v < w.index node
  targets : ∀ t, g.Edge node t → t ∈ w.found
  edges : ∀ x ∈ new ++ [node], ∀ y ∈ rest, ¬ g.Edge x y

namespace Ripe

variable {new rest : List String}

theorem mem_stack (h : Ripe g path w node new rest) (v : String) :
    v ∈ w.pending.stack ↔ v ∈ new ++ [node] ∨ v ∈ rest := by
  rw [h.stack]
  simp [or_assoc]

theorem nodup (h : Ripe g path w node new rest) : ((new ++ [node]) ++ rest).Nodup := by
  rw [← List.append_cons, ← h.stack]
  exact h.sound.stack.nodup (List.nodup_reverse.mpr h.sound.nodup)

theorem not_mem_rest (h : Ripe g path w node new rest) (hv : v ∈ new ++ [node]) : v ∉ rest :=
  List.disjoint_of_nodup_append h.nodup hv

theorem ne_node (h : Ripe g path w node new rest) (hv : v ∈ new) : v ≠ node := by
  rintro rfl
  exact List.disjoint_of_nodup_append (List.nodup_append.mp h.nodup).1 hv List.mem_cons_self

/-- Edges lead back into what lies there, or to complete components. -/
theorem stays (h : Ripe g path w node new rest) (hu : u ∈ new ++ [node] ∨ w.Done u)
    (hedge : g.Edge u v) : v ∈ new ++ [node] ∨ w.Done v := by
  rcases hu with hu | hu
  · have hv : v ∈ w.found := by
      rcases List.mem_append.mp hu with hu' | hu'
      · have hfound := h.sound.mem_found ((h.mem_stack u).mpr (.inl hu))
        have hpath : u ∉ path := fun hp => h.not_mem_rest hu (h.path_subset hp)
        exact h.sound.followed u hfound (List.not_mem_cons_of_ne_of_not_mem (h.ne_node hu') hpath)
          v hedge
      · exact h.targets v (List.mem_singleton.mp hu' ▸ hedge)
    by_cases hs : v ∈ w.pending.stack
    · exact .inl (((h.mem_stack v).mp hs).resolve_right fun hr => h.edges u hu v hr hedge)
    · exact .inr ⟨hv, hs⟩
  · exact .inr (h.sound.closed u v hu hedge)

theorem stays_of_reaches (h : Ripe g path w node new rest) (hu : u ∈ new ++ [node])
    (huv : g.Reaches u v) : v ∈ new ++ [node] ∨ w.Done v := by
  induction huv with
  | refl => exact .inl hu
  | tail _ hedge ih => exact h.stays ih hedge

theorem connected (h : Ripe g path w node new rest) (hv : v ∈ new ++ [node]) :
    g.Connected node v := by
  have hstack : v ∈ w.pending.stack := (h.mem_stack v).mpr (.inl hv)
  have hle : w.index node ≤ w.index v := by
    rcases List.mem_append.mp hv with hv' | hv'
    · exact h.above v hv'
    · exact Nat.le_of_eq (by rw [List.mem_singleton.mp hv'])
  refine ⟨h.sound.forth node List.mem_cons_self v hstack hle, ?_⟩
  obtain ⟨u, hu, -, hvu⟩ := h.sound.back v hstack
  rcases List.mem_cons.mp hu with rfl | hu
  · exact hvu
  · -- A node of the path lies further down, where nothing leads to.
    rcases h.stays_of_reaches hv hvu with hin | hdone
    · exact (h.not_mem_rest hin (h.path_subset hu)).elim
    · exact (hdone.2 ((h.mem_stack u).mpr (.inr (h.path_subset hu)))).elim

theorem component (h : Ripe g path w node new rest) (hu : u ∈ new ++ [node]) (v : String) :
    v ∈ new ++ [node] ↔ g.Connected u v := by
  constructor
  · intro hv
    exact ⟨(h.connected hu).2.trans (h.connected hv).1, (h.connected hv).2.trans (h.connected hu).1⟩
  · rintro ⟨huv, hvu⟩
    refine (h.stays_of_reaches hu huv).resolve_right fun hdone => ?_
    exact (h.sound.done_of_reaches hdone hvu).2 ((h.mem_stack u).mpr (.inl hu))

theorem isCycle_iff (h : Ripe g path w node new rest) :
    g.IsCycle (new ++ [node]) ↔ 1 < (new ++ [node]).length ∨ g.Edge node node := by
  constructor
  · intro hc
    cases new with
    | nil =>
      rcases hc.round with ⟨a, ha, b, hb, hne⟩ | ⟨a, ha, hloop⟩
      · exact (hne (by rw [List.mem_singleton.mp ha, List.mem_singleton.mp hb])).elim
      · exact .inr (List.mem_singleton.mp ha ▸ hloop)
    | cons x new => exact .inl (by simp)
  · intro hflag
    refine ⟨(List.nodup_append.mp h.nodup).1, fun a ha => h.component ha, ?_⟩
    rcases hflag with hlen | hloop
    · cases new with
      | nil => simp at hlen
      | cons x new => exact .inl ⟨x, by simp, node, by simp, h.ne_node List.mem_cons_self⟩
    · exact .inr ⟨node, by simp, hloop⟩

/-- The walk after the component was taken from the stack. -/
theorem complete (h : Ripe g path w node new rest) :
    ∃ w', w.complete g node = .ok w' ∧ w'.found = w.found ∧ w'.pending.stack = rest ∧
      (∀ v, v ∈ w'.pending.marked ↔ v ∈ rest) ∧
      (g.IsCycle (new ++ [node]) ∧ w'.cycles = w.cycles ++ [new ++ [node]] ∨
        ¬ g.IsCycle (new ++ [node]) ∧ w'.cycles = w.cycles) := by
  obtain ⟨p, hpop, hstack, hmarked⟩ := Pending.popTo_eq new w.pending.marked
    (List.append_cons new node rest ▸ h.nodup) fun v => by rw [h.sound.marked, h.stack]
  have hextract : w.pending.extract node = .ok (new ++ [node], p) := by
    rw [Pending.extract, h.stack]
    exact hpop
  have hflag : (decide ((new ++ [node]).length > 1) || (g.targets node).contains node) = true ↔
      g.IsCycle (new ++ [node]) := by
    rw [h.isCycle_iff, Bool.or_eq_true, decide_eq_true_eq, KeySet.contains_iff]
    rfl
  have heq : w.complete g node = .ok ⟨w.found, p,
      if decide ((new ++ [node]).length > 1) || (g.targets node).contains node then
        w.cycles ++ [new ++ [node]] else w.cycles⟩ := by
    rw [Walk.complete, hextract]
    rfl
  refine ⟨_, heq, rfl, hstack, hmarked, ?_⟩
  by_cases hcycle : g.IsCycle (new ++ [node])
  · exact .inl ⟨hcycle, if_pos (hflag.mpr hcycle)⟩
  · exact .inr ⟨hcycle, if_neg fun hif => hcycle (hflag.mp hif)⟩

theorem done_iff (h : Ripe g path w node new rest) (hfound : w'.found = w.found)
    (hstack : w'.pending.stack = rest) (v : String) :
    w'.Done v ↔ v ∈ new ++ [node] ∨ w.Done v := by
  have hsub : v ∈ new ++ [node] → v ∈ w.found :=
    fun hv => h.sound.mem_found ((h.mem_stack v).mpr (.inl hv))
  have hmem := h.mem_stack v
  have hnot : v ∈ new ++ [node] → v ∉ rest := h.not_mem_rest
  unfold Done
  rw [hfound, hstack]
  tauto

theorem sound_complete (h : Ripe g path w node new rest) (hfound : w'.found = w.found)
    (hstack : w'.pending.stack = rest) (hmarked : ∀ v, v ∈ w'.pending.marked ↔ v ∈ rest)
    (hcycles : g.IsCycle (new ++ [node]) ∧ w'.cycles = w.cycles ++ [new ++ [node]] ∨
      ¬ g.IsCycle (new ++ [node]) ∧ w'.cycles = w.cycles) : Sound g path w' := by
  have hdone := h.done_iff hfound hstack
  have hindex : ∀ v, w'.index v = w.index v := fun v => by rw [index, hfound, index]
  have hdown : ∀ v ∈ rest, v ∈ w.pending.stack := fun v hv => (h.mem_stack v).mpr (.inr hv)
  refine ⟨hfound ▸ h.sound.nodup, ?_, fun v => by rw [hmarked, hstack], hstack ▸ h.path_subset,
    fun v hv hp t hedge => ?_, fun v t hv hedge => ?_, fun v hv => ?_, fun u hu v hv hle => ?_,
    fun c hc => ?_, fun c v hc hv hd => ?_, ?_⟩
  · rw [hstack, hfound]
    exact List.Sublist.trans (by simp [h.stack]) h.sound.stack
  · rw [hfound] at hv ⊢
    by_cases hne : v = node
    · exact h.targets t (hne ▸ hedge)
    · exact h.sound.followed v hv (List.not_mem_cons_of_ne_of_not_mem hne hp) t hedge
  · rw [hdone] at hv ⊢
    exact h.stays hv hedge
  · rw [hstack] at hv
    obtain ⟨u, hu, hle, hvu⟩ := h.sound.back v (hdown v hv)
    have hlt := h.below v hv
    rcases List.mem_cons.mp hu with rfl | hu
    · omega
    · exact ⟨u, hu, by rw [hindex, hindex]; exact hle, hvu⟩
  · rw [hindex, hindex] at hle
    exact h.sound.forth u (List.mem_cons_of_mem _ hu) v (hdown v (hstack ▸ hv)) hle
  · have hold : c ∈ w.cycles → g.IsCycle c ∧ ∀ v ∈ c, w'.Done v := fun hc =>
      ⟨(h.sound.cycles c hc).1, fun v hv => (hdone v).mpr (.inr ((h.sound.cycles c hc).2 v hv))⟩
    rcases hcycles with ⟨hcycle, heq⟩ | ⟨-, heq⟩
    · rcases List.mem_append.mp (heq ▸ hc) with hc | hc
      · exact hold hc
      · rw [List.mem_singleton.mp hc]
        exact ⟨hcycle, fun v hv => (hdone v).mpr (.inl hv)⟩
    · exact hold (heq ▸ hc)
  · rcases (hdone v).mp hd with hin | hdv
    · -- The component of `v` is what was taken from the stack.
      have hsame : ∀ b, b ∈ c ↔ b ∈ new ++ [node] := fun b => by
        rw [hc.component v hv, h.component hin]
      have hcycle : g.IsCycle (new ++ [node]) :=
        ⟨(List.nodup_append.mp h.nodup).1, fun a ha => h.component ha,
          by simpa only [hsame] using hc.round⟩
      rcases hcycles with ⟨-, heq⟩ | ⟨hnot, -⟩
      · exact ⟨new ++ [node], by simp [heq], hin⟩
      · exact (hnot hcycle).elim
    · obtain ⟨c', hc', hvc⟩ := h.sound.listed c v hc hv hdv
      rcases hcycles with ⟨-, heq⟩ | ⟨-, heq⟩
      · exact ⟨c', by simp [heq, hc'], hvc⟩
      · exact ⟨c', heq ▸ hc', hvc⟩
  · rcases hcycles with ⟨-, heq⟩ | ⟨-, heq⟩
    · rw [heq, List.pairwise_append]
      refine ⟨h.sound.order, List.pairwise_singleton _ _, fun c hc c' hc' a ha b hb hab => ?_⟩
      rw [List.mem_singleton.mp hc'] at hb
      have hdb := h.sound.done_of_reaches ((h.sound.cycles c hc).2 a ha) hab
      exact hdb.2 ((h.mem_stack b).mpr (.inl hb))
    · exact heq ▸ h.sound.order

end Ripe

end Walk

end ScriptModules
