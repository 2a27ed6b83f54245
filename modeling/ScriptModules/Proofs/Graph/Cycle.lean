import Mathlib.Data.List.Dedup
import Mathlib.Data.List.Flatten
import Mathlib.Data.Set.Subsingleton
import ScriptModules.Proofs.Graph.Component

/-!
# The cycles of a graph are its components

Between two steps the walk is inside some nodes, which it entered one from the other. For each of
them, `Walk.Looked` says what its visit did since it was entered, up to the targets that are left:
the low link is the least number on the old stack to which an edge leads from a node that the visit
left on the stack. `Walk.Inside` puts these facts together for all nodes that the walk is inside of.

* `Walk.Inside.step`: a step never fails, keeps these facts, and leaves fewer steps to be taken;
* `Walk.Inside.run`: so the walk from a start node comes to its end;
* `Graph.walk_sound`: the walk over the whole graph;
* `Graph.findCycles_spec`: the cycles are the components with more than one node or a loop, each
  once, and no component leads to one that is listed behind it;
* `Graph.findCycles_exact`: the same about the cycles as sets.
-/

namespace ScriptModules

namespace Walk

variable {g : Graph} {w w₀ w' : Walk} {path ts : List String} {node u v t : String} {low l : Nat}

/-- Targets that are in order already are looked at as they stand. -/
theorem frame_of_pairwise (w : Walk) (hts : (g.targets node).items = ts)
    (h : ts.Pairwise fun a b => nameLe a b = true) :
    w.frame g node = ⟨node, w.found.length, ts⟩ := by
  rw [frame, hts, sorted, List.mergeSort_of_pairwise h]

/-! ## The steps that are left -/

/-- The nodes that the walk has not met. -/
def unmet (g : Graph) (w : Walk) : List String := g.nodes.dedup.filter (· ∉ w.found)

/-- How many steps the walk can still take: one to leave each node that it has not met or is inside
of, and one for each target of such a node that it has not looked at. -/
def stepsLeft (g : Graph) (w : Walk) (frames : List Frame) : Nat :=
  ((w.unmet g).flatMap fun v => v :: (g.targets v).items).length +
    (frames.flatMap fun f => f.node :: f.left).length

theorem stepsLeft_cons (g : Graph) (w : Walk) (f : Frame) (frames : List Frame) :
    w.stepsLeft g (f :: frames) = w.stepsLeft g frames + f.left.length + 1 := by
  rw [stepsLeft, stepsLeft, List.flatMap_cons, List.length_append, List.length_cons]
  omega

theorem stepsLeft_congr (hfound : w'.found = w.found) (frames : List Frame) :
    w'.stepsLeft g frames = w.stepsLeft g frames := by
  rw [stepsLeft, stepsLeft, unmet, unmet, hfound]

theorem stepsLeft_lowerFirst (g : Graph) (w : Walk) (low : Nat) (frames : List Frame) :
    w.stepsLeft g (Frame.lowerFirst low frames) = w.stepsLeft g frames := by
  cases frames <;> rfl

theorem unmet_perm (hnode : node ∈ g.nodes) (hnew : node ∉ w.found) :
    (w.unmet g).Perm (node :: (w.enter node).unmet g) := by
  have hentered : node ∉ (w.enter node).unmet g := by simp [unmet, Walk.enter]
  refine (List.perm_ext_iff_of_nodup (g.nodes.nodup_dedup.filter _)
    (List.nodup_cons.mpr ⟨hentered, g.nodes.nodup_dedup.filter _⟩)).mpr fun v => ?_
  simp only [unmet, Walk.enter, List.mem_cons, List.mem_filter, List.mem_dedup, List.mem_append,
    List.not_mem_nil, or_false, decide_eq_true_eq, not_or]
  by_cases hv : v = node
  · simp [hv, hnode, hnew]
  · simp [hv]

/-- What a node needs is taken over from the nodes that were not met. -/
theorem stepsLeft_enter (hnode : node ∈ g.nodes) (hnew : node ∉ w.found) (frames : List Frame) :
    (w.enter node).stepsLeft g (w.frame g node :: frames) = w.stepsLeft g frames := by
  have hlength : (w.frame g node).left.length = (g.targets node).items.length :=
    List.length_mergeSort _
  have hunmet := ((unmet_perm hnode hnew).flatMap_right fun v => v :: (g.targets v).items).length_eq
  rw [List.flatMap_cons, List.length_append, List.length_cons] at hunmet
  rw [stepsLeft_cons, hlength, stepsLeft, stepsLeft, hunmet]
  omega

/-- Each target is listed once, under its node. -/
theorem length_flatMap_targets (g : Graph) :
    (g.nodes.dedup.flatMap fun v => (g.targets v).items).length =
      (g.entries.flatMap (·.2.items)).length := by
  have hkeys : (g.nodes.dedup.filter (· ∈ g.keys)).Perm g.keys := by
    refine (List.perm_ext_iff_of_nodup (g.nodes.nodup_dedup.filter _) g.keys_nodup).mpr fun v => ?_
    simp only [List.mem_filter, List.mem_dedup, decide_eq_true_eq, and_iff_right_iff_imp]
    exact List.mem_append_left _
  have hfilter : ∀ l : List String, l.flatMap (fun v => (g.targets v).items) =
      (l.filter (· ∈ g.keys)).flatMap fun v => (g.targets v).items := by
    intro l
    induction l with
    | nil => rfl
    | cons v l ih =>
      by_cases hv : v ∈ g.keys
      · rw [List.filter_cons_of_pos (by simpa using hv), List.flatMap_cons, List.flatMap_cons, ih]
      · have hnone : (g.targets v).items = [] := by
          simp [Graph.targets, Table.get?_eq_none_iff.mpr hv, KeySet.empty]
        rw [List.filter_cons_of_neg (by simpa using hv), List.flatMap_cons, ih, hnone,
          List.nil_append]
  have hentries : g.keys.flatMap (fun v => (g.targets v).items) =
      g.entries.flatMap (·.2.items) := by
    rw [Table.keys, List.flatMap_map]
    refine List.flatMap_congr fun e he => ?_
    rw [Graph.targets, Table.get?_eq_some_iff.mpr he, Option.getD_some]
  rw [hfilter, (hkeys.flatMap_right _).length_eq, hentries]

theorem stepsLeft_nil_le (g : Graph) (w : Walk) : w.stepsLeft g [] ≤ g.walkBound := by
  have hcons : ∀ l : List String, (l.flatMap fun v => v :: (g.targets v).items).length =
      l.length + (l.flatMap fun v => (g.targets v).items).length := by
    intro l
    induction l with
    | nil => rfl
    | cons v l ih =>
      simp only [List.flatMap_cons, List.length_append, List.length_cons, ih]
      omega
  have hnodes : g.nodes.dedup.length ≤ g.nodes.length := g.nodes.dedup_sublist.length_le
  calc w.stepsLeft g []
      = ((w.unmet g).flatMap fun v => v :: (g.targets v).items).length := Nat.add_zero _
    _ ≤ (g.nodes.dedup.flatMap fun v => v :: (g.targets v).items).length :=
        (List.filter_sublist.flatMap _).length_le
    _ = g.nodes.dedup.length + (g.entries.flatMap (·.2.items)).length := by
        rw [hcons, length_flatMap_targets]
    _ ≤ g.walkBound := by
        rw [Graph.walkBound_eq]
        omega

/-! ## Visits -/

/-- What a visit of `node` did to the walk; `low` is the low link. -/
structure Visited (g : Graph) (w : Walk) (node : String) (w' : Walk) (low : Nat) : Prop where
  found : w.found <+: w'.found
  mem : node ∈ w'.found
  stack : ∃ new, w'.pending.stack = new ++ w.pending.stack ∧ ∀ v ∈ new, v ∉ w.found
  low_le : low ≤ w.found.length
  reached : low = w.found.length ∨ ∃ y ∈ w.pending.stack, w.index y = low ∧ g.Reaches node y
  least : ∀ x ∈ w'.pending.stack, x ∉ w.found → ∀ y ∈ w.pending.stack, g.Edge x y →
    low ≤ w.index y

/-- What the visit of `node` did so far, when it has looked at the targets `ts`. -/
structure Looked (g : Graph) (path : List String) (w₀ : Walk) (node : String) (ts : List String)
    (w : Walk) (low : Nat) : Prop where
  sound : Sound g (node :: path) w
  found : (w₀.enter node).found <+: w.found
  stack : ∃ new, w.pending.stack = new ++ node :: w₀.pending.stack ∧
    ∀ v ∈ new, v ∉ (w₀.enter node).found
  low_le : low ≤ w₀.found.length
  reached : low = w₀.found.length ∨ ∃ y ∈ w₀.pending.stack, w₀.index y = low ∧ g.Reaches node y
  least : ∀ x ∈ w.pending.stack, x ∉ w₀.found → x ≠ node → ∀ y ∈ w₀.pending.stack, g.Edge x y →
    low ≤ w₀.index y
  targets : ∀ t ∈ ts, t ∈ w.found ∧ (t ∈ w₀.pending.stack → low ≤ w₀.index t)

namespace Looked

theorem start (hs : Sound g path w) (hnode : node ∉ w.found)
    (hreach : ∀ u ∈ path, g.Reaches u node) :
    Looked g path w node [] (w.enter node) w.found.length := by
  refine ⟨hs.enter hnode hreach, List.prefix_refl _, ⟨[], rfl, by simp⟩, Nat.le_refl _, .inl rfl,
    fun x hx hnew hne => ?_, by simp⟩
  rcases List.mem_cons.mp hx with rfl | hx
  · exact (hne rfl).elim
  · exact (hnew (hs.mem_found hx)).elim

theorem found_old (h : Looked g path w₀ node ts w low) : w₀.found <+: w.found :=
  (List.prefix_append _ _).trans h.found

theorem mem_found (h : Looked g path w₀ node ts w low) : node ∈ w.found :=
  h.found.subset (by simp [Walk.enter])

theorem index_node (h : Looked g path w₀ node ts w low) (hnode : node ∉ w₀.found) :
    w.index node = w₀.found.length := by
  rw [index_of_grown h.found (by simp [Walk.enter])]
  simp [index, Walk.enter, List.idxOf_append_of_notMem hnode]

theorem mem_stack_old (h : Looked g path w₀ node ts w low) (hv : v ∈ w₀.pending.stack) :
    v ∈ w.pending.stack := by
  obtain ⟨new, hstack, -⟩ := h.stack
  rw [hstack]
  exact List.mem_append_right _ (List.mem_cons_of_mem _ hv)

/-- A node on the stack that was met before `node` was on the stack then. -/
theorem mem_old (h : Looked g path w₀ node ts w low) (hnode : node ∉ w₀.found)
    (hv : v ∈ w.pending.stack) (hlt : w.index v < w₀.found.length) : v ∈ w₀.pending.stack := by
  obtain ⟨new, hstack, hnew⟩ := h.stack
  rw [hstack] at hv
  rcases List.mem_append.mp hv with hv | hv
  · have hle := le_index_of_grown h.found (hnew v hv)
    simp only [Walk.enter, List.length_append, List.length_singleton] at hle
    omega
  · rcases List.mem_cons.mp hv with rfl | hv
    · rw [h.index_node hnode] at hlt
      omega
    · exact hv

/-- A new target was visited. -/
theorem visited (h : Looked g path w₀ node ts w low) (hs : Sound g path w₀)
    (hnode : node ∉ w₀.found) (hedge : g.Edge node t) (ht : t ∉ w.found)
    (hsound : Sound g (node :: path) w') (hv : Visited g w t w' l) :
    Looked g path w₀ node (ts ++ [t]) w' (min low l) := by
  have hold : ∀ y ∈ w₀.pending.stack, w.index y = w₀.index y :=
    fun y hy => index_of_grown h.found_old (hs.mem_found hy)
  have hlow := h.low_le
  refine ⟨hsound, h.found.trans hv.found, ?_, by omega, ?_, fun x hx hnew hne y hy hxy => ?_,
    fun t' ht' => ?_⟩
  · obtain ⟨new, hstack, hnew⟩ := h.stack
    obtain ⟨more, hstack', hmore⟩ := hv.stack
    refine ⟨more ++ new, by rw [hstack', hstack, List.append_assoc], fun x hx => ?_⟩
    rcases List.mem_append.mp hx with hx | hx
    · exact fun hf => hmore x hx (h.found.subset hf)
    · exact hnew x hx
  · by_cases hle : low ≤ l
    · rw [Nat.min_eq_left hle]
      exact h.reached
    · -- The new low link is one that the visit found, further down than `node`.
      rw [Nat.min_eq_right (by omega)]
      have hlen := h.found_old.length_le
      rcases hv.reached with hl | ⟨y, hy, hyl, hty⟩
      · omega
      · have hy' := h.mem_old hnode hy (by omega)
        exact .inr ⟨y, hy', by rw [← hold y hy']; exact hyl, .head hedge hty⟩
  · by_cases hxw : x ∈ w.found
    · have hxs : x ∈ w.pending.stack := by
        obtain ⟨more, hstack', hmore⟩ := hv.stack
        rcases List.mem_append.mp (hstack' ▸ hx) with hx | hx
        · exact (hmore x hx hxw).elim
        · exact hx
      have := h.least x hxs hnew hne y hy hxy
      omega
    · have := hv.least x hx hxw y (h.mem_stack_old hy) hxy
      rw [hold y hy] at this
      omega
  · rcases List.mem_append.mp ht' with ht' | ht'
    · obtain ⟨hf, hl⟩ := h.targets t' ht'
      exact ⟨hv.found.subset hf, fun hy => Nat.le_trans (Nat.min_le_left _ _) (hl hy)⟩
    · rw [List.mem_singleton.mp ht']
      exact ⟨hv.mem, fun hy => (ht (h.found_old.subset (hs.mem_found hy))).elim⟩

/-- A target on the stack lowers the low link. -/
theorem pending (h : Looked g path w₀ node ts w low) (hs : Sound g path w₀)
    (hnode : node ∉ w₀.found) (hedge : g.Edge node t) (ht : t ∈ w.pending.stack) :
    Looked g path w₀ node (ts ++ [t]) w (min low (w.index t)) := by
  have hold : ∀ y ∈ w₀.pending.stack, w.index y = w₀.index y :=
    fun y hy => index_of_grown h.found_old (hs.mem_found hy)
  have hlow := h.low_le
  refine ⟨h.sound, h.found, h.stack, by omega, ?_, fun x hx hnew hne y hy hxy => ?_,
    fun t' ht' => ?_⟩
  · by_cases hle : low ≤ w.index t
    · rw [Nat.min_eq_left hle]
      exact h.reached
    · rw [Nat.min_eq_right (by omega)]
      have ht' := h.mem_old hnode ht (by omega)
      exact .inr ⟨t, ht', (hold t ht').symm, .single hedge⟩
  · exact Nat.le_trans (Nat.min_le_left _ _) (h.least x hx hnew hne y hy hxy)
  · rcases List.mem_append.mp ht' with ht' | ht'
    · obtain ⟨hf, hl⟩ := h.targets t' ht'
      exact ⟨hf, fun hy => Nat.le_trans (Nat.min_le_left _ _) (hl hy)⟩
    · rw [List.mem_singleton.mp ht']
      exact ⟨h.sound.mem_found ht, fun hy => by rw [← hold t hy]; exact Nat.min_le_right _ _⟩

/-- A target whose component is complete changes nothing. -/
theorem done (h : Looked g path w₀ node ts w low) (ht : w.Done t) :
    Looked g path w₀ node (ts ++ [t]) w low := by
  refine ⟨h.sound, h.found, h.stack, h.low_le, h.reached, h.least, fun t' ht' => ?_⟩
  rcases List.mem_append.mp ht' with ht' | ht'
  · exact h.targets t' ht'
  · rw [List.mem_singleton.mp ht']
    exact ⟨ht.1, fun hy => (ht.2 (h.mem_stack_old hy)).elim⟩

/-- When all targets were looked at and none of them lies further down than `node`, the stack down
to `node` is a component. -/
theorem ripe (h : Looked g path w₀ node ts w w₀.found.length) (hs : Sound g path w₀)
    (hnode : node ∉ w₀.found) (hts : ∀ t, g.Edge node t → t ∈ ts) :
    ∃ new, Ripe g path w node new w₀.pending.stack := by
  obtain ⟨new, hstack, hnew⟩ := h.stack
  have hindex := h.index_node hnode
  have hold : ∀ y ∈ w₀.pending.stack, w.index y < w.index node := fun y hy => by
    rw [index_of_grown h.found_old (hs.mem_found hy), hindex]
    exact index_lt (hs.mem_found hy)
  refine ⟨new, h.sound, hstack, hs.path_subset, fun v hv => ?_, hold,
    fun t ht => (h.targets t (hts t ht)).1, fun x hx y hy hxy => ?_⟩
  · have hle := le_index_of_grown h.found (hnew v hv)
    simp only [Walk.enter, List.length_append, List.length_singleton] at hle
    omega
  · have hlt : w₀.index y < w₀.found.length := index_lt (hs.mem_found hy)
    rcases List.mem_append.mp hx with hx | hx
    · have hxs : x ∈ w.pending.stack := hstack ▸ List.mem_append_left _ hx
      have hxf : x ∉ w₀.found := fun hf => hnew x hx (List.mem_append_left _ hf)
      have hxn : x ≠ node := fun e => hnew x hx (by simp [Walk.enter, e])
      have := h.least x hxs hxf hxn y hy hxy
      omega
    · rw [List.mem_singleton.mp hx] at hxy
      have := (h.targets y (hts y hxy)).2 hy
      omega

/-- When all targets were looked at, the node is left, with its component if it is the first of

it. -/
theorem leave (h : Looked g path w₀ node ts w low) (hs : Sound g path w₀) (hnode : node ∉ w₀.found)
    (hts : ∀ t, g.Edge node t → t ∈ ts) :
    ∃ w', w.leave g ⟨node, low, []⟩ = .ok w' ∧ w'.found = w.found ∧ Sound g path w' ∧
      Visited g w₀ node w' low := by
  have hindex : w.found.idxOf node = w₀.found.length := h.index_node hnode
  rw [Walk.leave, hindex]
  by_cases hlow : low = w₀.found.length
  · subst hlow
    obtain ⟨new, hripe⟩ := h.ripe hs hnode hts
    obtain ⟨w', heq, hfound, hstack, hmarked, hcycles⟩ := hripe.complete
    refine ⟨w', by rw [if_pos rfl, heq], hfound,
      hripe.sound_complete hfound hstack hmarked hcycles, ?_⟩
    refine ⟨hfound ▸ h.found_old, hfound ▸ h.mem_found, ⟨[], hstack, by simp⟩, Nat.le_refl _,
      .inl rfl, fun x hx hnew => ?_⟩
    exact (hnew (hs.mem_found (hstack ▸ hx))).elim
  · have hlt : low < w₀.found.length := Nat.lt_of_le_of_ne h.low_le hlow
    obtain ⟨y, hy, hyl, hreaches⟩ := h.reached.resolve_left hlow
    have hyi : w.index y = low := by
      rw [index_of_grown h.found_old (hs.mem_found hy), hyl]
    have hbelow : w.index y < w.index node := by
      rw [hyi, h.index_node hnode]
      exact hlt
    refine ⟨w, if_neg hlow, rfl, h.sound.leave (fun t ht => (h.targets t (hts t ht)).1)
      ⟨y, h.mem_stack_old hy, hbelow, hreaches⟩, ?_⟩
    obtain ⟨new, hstack, hnew⟩ := h.stack
    refine ⟨h.found_old, h.mem_found, ⟨new ++ [node], by simp [hstack], fun v hv => ?_⟩, h.low_le,
      h.reached, fun x hx hxf z hz hxz => ?_⟩
    · rcases List.mem_append.mp hv with hv | hv
      · exact fun hf => hnew v hv (List.mem_append_left _ hf)
      · rwa [List.mem_singleton.mp hv]
    · by_cases hxn : x = node
      · exact (h.targets z (hts z (hxn ▸ hxz))).2 hz
      · exact h.least x hx hxf hxn z hz hxz

end Looked

/-! ## Steps -/

/-- The walk goes on to `node`: as the first node of all, or as a target of the innermost node,
which is then no longer left to look at. -/
inductive Calls (node : String) : List Frame → List Frame → Prop where
  | start : Calls node [] []
  | target (caller : String) (low : Nat) (left : List String) (outer : List Frame) :
      Calls node (⟨caller, low, node :: left⟩ :: outer) (⟨caller, low, left⟩ :: outer)

theorem Calls.map_node {frames outer : List Frame} (h : Calls node frames outer) :
    outer.map Frame.node = frames.map Frame.node := by
  cases h <;> rfl

/-- What holds of a walk between two steps: the nodes that it is inside of were entered one from the
other, and the targets of each were looked at up to those that are left. -/
inductive Inside (g : Graph) : Walk → List Frame → Prop where
  | outside {w : Walk} (h : Sound g [] w) : Inside g w []
  | entered {w₀ w : Walk} {before outer : List Frame} {f : Frame} {ts : List String}
      (h : Inside g w₀ before) (hcall : Calls f.node before outer) (hnew : f.node ∉ w₀.found)
      (hreach : ∀ u ∈ outer.map Frame.node, g.Reaches u f.node)
      (looked : Looked g (outer.map Frame.node) w₀ f.node ts w f.low)
      (targets : ts ++ f.left = sorted (g.targets f.node).items) : Inside g w (f :: outer)

theorem mem_targets_iff : t ∈ sorted (g.targets node).items ↔ g.Edge node t := by
  rw [sorted, List.mem_mergeSort]
  rfl

namespace Inside

variable {f : Frame} {outer frames : List Frame} {left : List String}

theorem sound (h : Inside g w frames) : Sound g (frames.map Frame.node) w := by
  cases h with
  | outside h => exact h
  | entered _ _ _ _ looked _ => exact looked.sound

/-- A node is entered. -/
theorem enter (h : Inside g w frames) (hcall : Calls node frames outer) (hnew : node ∉ w.found)
    (hreach : ∀ u ∈ outer.map Frame.node, g.Reaches u node) :
    Inside g (w.enter node) (w.frame g node :: outer) := by
  have hs : Sound g (outer.map Frame.node) w := hcall.map_node ▸ h.sound
  exact .entered h hcall hnew hreach (Looked.start hs hnew hreach) rfl

/-- The next target of the innermost node was looked at. -/
theorem looked (h : Inside g w (⟨node, low, t :: left⟩ :: outer))
    (hlook : ∀ w₀ ts, Sound g (outer.map Frame.node) w₀ → node ∉ w₀.found → g.Edge node t →
      Looked g (outer.map Frame.node) w₀ node ts w low →
      Looked g (outer.map Frame.node) w₀ node (ts ++ [t]) w' l) :
    Inside g w' (⟨node, l, left⟩ :: outer) := by
  cases h with
  | @entered w₀ _ before _ _ ts h hcall hnew hreach looked targets =>
    have hs : Sound g (outer.map Frame.node) w₀ := hcall.map_node ▸ h.sound
    have hedge : g.Edge node t := mem_targets_iff.mp (targets ▸ by simp)
    refine .entered h hcall hnew hreach (hlook w₀ ts hs hnew hedge looked) ?_
    simp [← targets]

/-- The innermost node leads to its targets, and so do the nodes around it. -/
theorem reaches (h : Inside g w (⟨node, low, t :: left⟩ :: outer)) :
    g.Edge node t ∧ ∀ u ∈ node :: outer.map Frame.node, g.Reaches u t := by
  cases h with
  | entered _ _ _ hreach _ targets =>
    have hedge : g.Edge node t := mem_targets_iff.mp (targets ▸ by simp)
    refine ⟨hedge, fun u hu => ?_⟩
    rcases List.mem_cons.mp hu with rfl | hu
    · exact .single hedge
    · exact (hreach u hu).tail hedge

/-- The step that looks at a target. -/
theorem step_target (h : Inside g w (⟨node, low, t :: left⟩ :: outer)) :
    ∃ w' frames, w.step g ⟨node, low, t :: left⟩ outer = .ok (w', frames) ∧ Inside g w' frames ∧
      w.found <+: w'.found ∧
      w'.stepsLeft g frames < w.stepsLeft g (⟨node, low, t :: left⟩ :: outer) := by
  obtain ⟨hedge, hreach⟩ := h.reaches
  have hfewer (low' : Nat) : w.stepsLeft g (⟨node, low', left⟩ :: outer) <
      w.stepsLeft g (⟨node, low, t :: left⟩ :: outer) := by
    simp only [stepsLeft_cons, List.length_cons]
    omega
  by_cases hfound : t ∈ w.found
  · by_cases hstack : t ∈ w.pending.stack
    · have hmark := (h.sound.marked t).mpr hstack
      refine ⟨w, ⟨node, min low (w.index t), left⟩ :: outer, ?_, ?_, List.prefix_refl _, hfewer _⟩
      · simp [step, hfound, hmark, Frame.lower, index]
      · exact h.looked fun w₀ ts hs hnew hedge looked => looked.pending hs hnew hedge hstack
    · have hmark : t ∉ w.pending.marked := fun hm => hstack ((h.sound.marked t).mp hm)
      refine ⟨w, ⟨node, low, left⟩ :: outer, ?_, ?_, List.prefix_refl _, hfewer _⟩
      · simp [step, hfound, hmark]
      · exact h.looked fun w₀ ts _ _ _ looked => looked.done ⟨hfound, hstack⟩
  · refine ⟨w.enter t, w.frame g t :: ⟨node, low, left⟩ :: outer, by simp [step, hfound],
      h.enter (.target node low left outer) hfound hreach, List.prefix_append _ _, ?_⟩
    rw [stepsLeft_enter (Graph.mem_nodes_of_edge hedge) hfound]
    exact hfewer low

/-- The step that leaves a node. -/
theorem step_leave (h : Inside g w (⟨node, low, []⟩ :: outer)) :
    ∃ w' frames, w.step g ⟨node, low, []⟩ outer = .ok (w', frames) ∧ Inside g w' frames ∧
      w.found <+: w'.found ∧ w'.stepsLeft g frames < w.stepsLeft g (⟨node, low, []⟩ :: outer) := by
  cases h with
  | @entered w₀ _ before _ _ ts h hcall hnew hreach looked targets =>
    rw [List.append_nil] at targets
    have hs : Sound g (outer.map Frame.node) w₀ := hcall.map_node ▸ h.sound
    obtain ⟨w', hleave, hfound, hsound, hvisited⟩ :=
      looked.leave hs hnew fun t ht => targets ▸ mem_targets_iff.mpr ht
    refine ⟨w', Frame.lowerFirst low outer, ?_, ?_, hfound ▸ List.prefix_refl _, ?_⟩
    · show (w.leave g ⟨node, low, []⟩).map _ = _
      rw [hleave]
      rfl
    · cases hcall with
      | start => exact .outside hsound
      | target caller l left outer =>
        exact h.looked fun w₁ ts hs₁ hnew₁ hedge looked₁ =>
          looked₁.visited hs₁ hnew₁ hedge hnew hsound hvisited
    · rw [stepsLeft_lowerFirst, stepsLeft_congr hfound, stepsLeft_cons]
      exact Nat.lt_succ_of_le (Nat.le_add_right _ _)

/-- Every step succeeds, keeps what holds of the walk, and leaves fewer steps to be taken. -/
theorem step (h : Inside g w (f :: outer)) :
    ∃ w' frames, w.step g f outer = .ok (w', frames) ∧ Inside g w' frames ∧
      w.found <+: w'.found ∧ w'.stepsLeft g frames < w.stepsLeft g (f :: outer) := by
  obtain ⟨node, low, left⟩ := f
  cases left with
  | nil => exact h.step_leave
  | cons t left => exact h.step_target

/-- A walk with enough steps comes to its end, outside of all nodes. -/
theorem run (h : Inside g w frames) {bound : Nat} (hbound : w.stepsLeft g frames ≤ bound) :
    ∃ w', w.run g bound frames = .ok w' ∧ Sound g [] w' ∧ w.found <+: w'.found := by
  induction bound generalizing w frames with
  | zero =>
    cases frames with
    | nil => exact ⟨w, rfl, h.sound, List.prefix_refl _⟩
    | cons f outer =>
      rw [stepsLeft_cons] at hbound
      omega
  | succ bound ih =>
    cases frames with
    | nil => exact ⟨w, rfl, h.sound, List.prefix_refl _⟩
    | cons f outer =>
      obtain ⟨w₁, frames, hstep, h₁, hgrow, hless⟩ := h.step
      obtain ⟨w', hrun, hsound, hgrow'⟩ := ih h₁ (by omega)
      refine ⟨w', ?_, hsound, hgrow.trans hgrow'⟩
      rw [Walk.run, hstep]
      exact hrun

end Inside

end Walk

namespace Graph

/-! ## The whole walk -/

/-- The walk over the listed start nodes, from one that is outside of all nodes. -/
theorem foldlM_run_sound (g : Graph) (l : List String) (hl : ∀ v ∈ l, v ∈ g.nodes) (w : Walk)
    (hw : Walk.Sound g [] w) :
    ∃ w', l.foldlM (fun w node => if node ∈ w.found then .ok w else
        Walk.run g g.walkBound (w.enter node) [w.frame g node]) w = .ok w' ∧
      Walk.Sound g [] w' ∧ w.found <+: w'.found ∧ ∀ v ∈ l, v ∈ w'.found := by
  induction l generalizing w with
  | nil => exact ⟨w, rfl, hw, List.prefix_refl _, by simp⟩
  | cons v l ih =>
    obtain ⟨hv, hl⟩ := List.forall_mem_cons.mp hl
    rw [List.foldlM_cons]
    by_cases hfound : v ∈ w.found
    · obtain ⟨w', heq, hsound, hgrow, hmem⟩ := ih hl w hw
      refine ⟨w', ?_, hsound, hgrow, List.forall_mem_cons.mpr ⟨hgrow.subset hfound, hmem⟩⟩
      rw [if_pos hfound]
      exact heq
    · have hinside : Walk.Inside g (w.enter v) [w.frame g v] :=
        (Walk.Inside.outside hw).enter .start hfound (by simp)
      have hbound : (w.enter v).stepsLeft g [w.frame g v] ≤ g.walkBound := by
        rw [Walk.stepsLeft_enter hv hfound]
        exact Walk.stepsLeft_nil_le g w
      obtain ⟨w₁, hrun, hsound₁, hgrow₁⟩ := hinside.run hbound
      obtain ⟨w', heq, hsound, hgrow, hmem⟩ := ih hl w₁ hsound₁
      have hentered : v ∈ w₁.found := hgrow₁.subset (by simp [Walk.enter])
      refine ⟨w', ?_, hsound, ((List.prefix_append _ _).trans hgrow₁).trans hgrow,
        List.forall_mem_cons.mpr ⟨hgrow.subset hentered, hmem⟩⟩
      rw [if_neg hfound, hrun]
      exact heq

theorem walk_sound (g : Graph) : ∃ w, g.walk = .ok w ∧ Walk.Sound g [] w ∧
    ∀ v ∈ g.keys, v ∈ w.found := by
  obtain ⟨w, heq, hsound, -, hmem⟩ := foldlM_run_sound g g.keys
    (fun v hv => List.mem_append_left _ hv) Walk.start (Walk.Sound.start g)
  exact ⟨w, heq, hsound, hmem⟩

theorem mem_keys_of_edge {g : Graph} {a b : String} (h : g.Edge a b) : a ∈ g.keys := by
  by_contra hnot
  simp [Edge, targets, Table.get?_eq_none_iff.mpr hnot, KeySet.mem_def, KeySet.empty] at h

theorem mem_keys_of_reaches {g : Graph} {a b : String} (h : g.Reaches a b) (hne : b ≠ a) :
    a ∈ g.keys := by
  rcases Relation.ReflTransGen.cases_head h with rfl | ⟨y, hedge, -⟩
  · exact (hne rfl).elim
  · exact mem_keys_of_edge hedge

/-- Nodes that lead to each other, more than one or with a loop, have edges, so they are keys. -/
theorem mem_keys_of_round {g : Graph} {S : Set String} {a : String}
    (hreach : ∀ b ∈ S, g.Reaches a b) (hround : S.Nontrivial ∨ ∃ v ∈ S, g.Edge v v) :
    a ∈ g.keys := by
  rcases hround with ⟨x, hx, y, hy, hne⟩ | ⟨v, hv, hloop⟩
  · by_cases hxa : x = a
    · exact mem_keys_of_reaches (hreach y hy) fun hya => hne (hxa.trans hya.symm)
    · exact mem_keys_of_reaches (hreach x hx) hxa
  · by_cases hva : v = a
    · exact mem_keys_of_edge (hva ▸ hloop)
    · exact mem_keys_of_reaches (hreach v hv) hva

theorem IsCycle.mem_keys {g : Graph} {c : List String} (h : g.IsCycle c) {a : String} (ha : a ∈ c) :
    a ∈ g.keys :=
  mem_keys_of_round (S := {v | v ∈ c}) (fun b hb => ((h.component a ha b).mp hb).1) h.round

theorem IsCycle.exists_mem {g : Graph} {c : List String} (h : g.IsCycle c) : ∃ a, a ∈ c := by
  rcases h.round with ⟨a, ha, -⟩ | ⟨a, ha, -⟩ <;> exact ⟨a, ha⟩

/-- What is listed are the components with more than one node or a loop, each of them once, and none
leads to one behind it. -/
theorem findCycles_spec (g : Graph) :
    (∀ c ∈ g.findCycles, g.IsCycle c) ∧
    (∀ c, g.IsCycle c → ∃ c' ∈ g.findCycles, ∀ v, v ∈ c' ↔ v ∈ c) ∧
    g.findCycles.Pairwise fun c c' => ∀ a ∈ c, ∀ b ∈ c', ¬ g.Reaches a b := by
  obtain ⟨w, hwalk, hsound, hfound⟩ := g.walk_sound
  have heq : g.findCycles = w.cycles := by rw [findCycles, hwalk]
  rw [heq]
  refine ⟨fun c hc => (hsound.cycles c hc).1, fun c hc => ?_, hsound.order⟩
  obtain ⟨v, hv⟩ := hc.exists_mem
  have hdone : w.Done v := ⟨hfound v (hc.mem_keys hv), by simp [hsound.stack_nil]⟩
  obtain ⟨c', hc', hvc⟩ := hsound.listed c v hc hv hdone
  exact ⟨c', hc', fun u => (hsound.cycles c' hc').1.mem_iff hc hvc hv u⟩

/-! ## Cycles as sets -/

theorem connected_trans {g : Graph} {a b c : String} (h : g.Connected a b) (h' : g.Connected b c) :
    g.Connected a c := ⟨h.1.trans h'.1, h'.2.trans h.2⟩

theorem connected_symm {g : Graph} {a b : String} (h : g.Connected a b) : g.Connected b a :=
  ⟨h.2, h.1⟩

/-- The strongly connected component of a node. -/
def component (g : Graph) (a : String) : Set String := {b | g.Connected a b}

theorem IsCycle.component_eq {g : Graph} {c : List String} (h : g.IsCycle c) {a : String}
    (ha : a ∈ c) : {v | v ∈ c} = g.component a :=
  Set.ext fun v => h.component a ha v

/-- A component with more than one node or a loop can be listed, since its nodes are keys. -/
theorem exists_isCycle {g : Graph} {a : String}
    (h : (g.component a).Nontrivial ∨ ∃ v ∈ g.component a, g.Edge v v) :
    ∃ c, g.IsCycle c ∧ {v | v ∈ c} = g.component a := by
  classical
  let c := g.keys.filter fun v => decide (v ∈ g.component a)
  have hmem : ∀ v, v ∈ c ↔ v ∈ g.component a := by
    intro v
    simp only [c, List.mem_filter, decide_eq_true_eq]
    refine ⟨fun hv => hv.2, fun hv => ⟨mem_keys_of_round (fun b hb => ?_) h, hv⟩⟩
    exact (connected_trans (connected_symm hv) hb).1
  refine ⟨c, ⟨g.keys_nodup.filter _, fun u hu v => ?_, ?_⟩, Set.ext hmem⟩
  · have hu : g.Connected a u := (hmem u).mp hu
    rw [hmem]
    exact ⟨connected_trans (connected_symm hu), connected_trans hu⟩
  · rcases h with ⟨x, hx, y, hy, hne⟩ | ⟨v, hv, hloop⟩
    · exact .inl ⟨x, (hmem x).mpr hx, y, (hmem y).mpr hy, hne⟩
    · exact .inr ⟨v, (hmem v).mpr hv, hloop⟩

/-- The walk comes to its end without a fault. What is listed are, as sets, the strongly connected
components with more than one node or a loop, each of them once, and no list repeats a node. -/
theorem findCycles_exact (g : Graph) :
    (∃ w, g.walk = .ok w ∧ g.findCycles = w.cycles) ∧
    (∀ C : Set String, C ∈ g.findCycles.map (fun c => {v | v ∈ c}) ↔
      (∃ a, C = g.component a) ∧ (C.Nontrivial ∨ ∃ v ∈ C, g.Edge v v)) ∧
    (g.findCycles.map fun c => {v | v ∈ c}).Nodup ∧ ∀ c ∈ g.findCycles, c.Nodup := by
  obtain ⟨w, hwalk, -, -⟩ := g.walk_sound
  obtain ⟨hcycles, hall, horder⟩ := g.findCycles_spec
  refine ⟨⟨w, hwalk, by rw [findCycles, hwalk]⟩, fun C => ?_, ?_, fun c hc => (hcycles c hc).nodup⟩
  · rw [List.mem_map]
    constructor
    · rintro ⟨c, hc, rfl⟩
      obtain ⟨a, ha⟩ := (hcycles c hc).exists_mem
      exact ⟨⟨a, (hcycles c hc).component_eq ha⟩, (hcycles c hc).round⟩
    · rintro ⟨⟨a, rfl⟩, hround⟩
      obtain ⟨c, hc, hset⟩ := exists_isCycle hround
      obtain ⟨c', hc', hsame⟩ := hall c hc
      exact ⟨c', hc', (Set.ext hsame).trans hset⟩
  · -- Two lists with the same nodes would lead to each other.
    refine List.pairwise_map.mpr (horder.imp_of_mem fun hc hc' hapart hsame => ?_)
    obtain ⟨a, ha⟩ := (hcycles _ hc).exists_mem
    exact hapart a ha a (hsame.subset ha) .refl

end Graph

end ScriptModules
