import ScriptModules.Proofs.Tree.Report

/-!
# The names that a script writes

An assignment, or the head of a loop without a keyword, writes what stands on its left: a single
identifier, or every name of a destructuring pattern (`Writes`). The analysis takes a use for an
assignment when the node right above it writes it, which no pattern does. So a name is recorded as
assigned exactly when some node writes it directly (`WritesDirectly`, `exists_assigned_iff`). An
identifier inside a pattern is only known to be used (`exists_global_of_writes`).
-/

namespace ScriptModules

namespace Node

variable {n m x root : Node} {p q : List Nat} {i : Nat}

/-- The node is an assignment or the head of a loop without a keyword, and the name that `x` spells
is on its left, alone or in a pattern. -/
def Writes (n x : Node) : Prop :=
  (n.kind = "assignment_expression" ∨ n.kind = "augmented_assignment_expression" ∨
    (n.kind = "for_in_statement" ∧ n.child? "kind" = none)) ∧
  ∃ target, n.child? "left" = some target ∧ target.Binds x

/-- The node writes the identifier `x`, which stands right below it. -/
def WritesDirectly (n x : Node) : Prop :=
  x.kind = "identifier" ∧ ∃ f, n.writtenField? = some f ∧ n.child? f = some x

/-- A name that stands alone on the left is written directly. -/
theorem Writes.directly (h : n.Writes x) (hleft : n.child? "left" = some x)
    (hx : x.kind = "identifier") : n.WritesDirectly x := by
  refine ⟨hx, "left", ?_, hleft⟩
  rcases h.1 with h | h | ⟨h, hkind⟩
  · simp [writtenField?, h]
  · simp [writtenField?, h]
  · simp [writtenField?, h, hkind]

theorem WritesDirectly.not_reference (h : n.WritesDirectly x) : n.isReference = false := by
  obtain ⟨-, f, hf, -⟩ := h
  unfold writtenField? at hf
  split at hf
  · next hk => rcases hk with hk | hk <;> simp [isReference, hk]
  · split at hf
    · next hk => simp [isReference, hk]
    · split at hf
      · next hk => simp [isReference, hk.1]
      · cases hf

theorem Writes.not_reference (h : n.Writes x) : n.isReference = false := by
  rcases h.1 with h | h | ⟨h, -⟩ <;> simp [isReference, h]

/-- A pattern is no scope. -/
theorem Binds.ownNames?_eq_none (h : n.Binds x) : n.ownNames? = none := by
  cases h with
  | name h => rcases h with h | h <;> simp [ownNames?, isFunction, h]
  | default h => rcases h with h | h <;> simp [ownNames?, isFunction, h]
  | pair h => simp [ownNames?, isFunction, h]
  | parts h => rcases h with h | h | h | h <;> simp [ownNames?, isFunction, h]

/-! ## The last step of an address -/

theorem nodeAt?_concat (h : root.nodeAt? p = some n) (i : Nat) :
    root.nodeAt? (p ++ [i]) = n.children[i]? := by
  rw [nodeAt?_append, h, Option.bind_some, nodeAt?_cons]
  cases n.children[i]? <;> rfl

theorem above_concat_iff :
    root.Above (p ++ [i]) m ↔ root.nodeAt? p = some m ∨ root.Above p m := by
  constructor
  · rintro ⟨q, hq, hne, hm⟩
    have hqp := (List.prefix_concat_iff.mp hq).resolve_left hne
    by_cases heq : q = p
    · exact .inl (heq ▸ hm)
    · exact .inr ⟨q, hqp, heq, hm⟩
  · rintro (hm | ⟨q, hq, hne, hm⟩)
    · exact ⟨p, List.prefix_append p [i], by simp, hm⟩
    · refine ⟨q, hq.trans (List.prefix_append p [i]), fun heq => ?_, hm⟩
      have hlen := hq.length_le
      rw [heq, List.length_append, List.length_singleton] at hlen
      omega

/-- What is written directly is an identifier that stands at an index which the node writes. -/
theorem writesDirectly_iff : n.WritesDirectly x ↔
    x.kind = "identifier" ∧ ∃ i, n.writesChild i = true ∧ n.children[i]? = some x := by
  refine and_congr_right fun _ => ?_
  simp only [writesChild, Option.any_eq_true, decide_eq_true_eq, child?,
    List.find?_eq_bind_findIdx?_getElem?, Option.bind_eq_some_iff]
  constructor
  · rintro ⟨f, hf, i, hi, hx⟩
    exact ⟨i, ⟨f, hf, hi⟩, hx⟩
  · rintro ⟨i, ⟨f, hf, hi⟩, hx⟩
    exact ⟨f, hf, i, hi, hx⟩

theorem spelling_eq {text : Node → String} (h : root.nodeAt? p = some x) :
    root.spelling text p = text x := by
  rw [spelling, h]
  rfl

theorem isWritten_concat (h : root.nodeAt? p = some n) (i : Nat) :
    root.isWritten (p ++ [i]) = n.writesChild i := by
  simp [isWritten, h]

end Node

namespace Scope

open Node

variable {text : Node → String} {root n x : Node} {p : List Nat} {i : Nat} {name : String}

/-- The node at the address `p` stands in no use of a name, and no scope around it holds the
name. -/
def FreeAt (text : Node → String) (root : Node) (p : List Nat) (name : String) : Prop :=
  (∀ m, root.Above p m → m.isReference = false) ∧
    ∀ q, q <+: p → ¬ HoldsAt false text root q name

/-- The node at the address `p` directly writes the name that `x` spells, and the name is free
there. -/
def AssignsAt (text : Node → String) (root : Node) (p : List Nat) (x : Node) : Prop :=
  ∃ n, root.nodeAt? p = some n ∧ n.WritesDirectly x ∧ FreeAt text root p (text x)

theorem isFree_iff : IsFree false text root p ↔
    ∃ n, root.nodeAt? p = some n ∧ n.isReference = true ∧ FreeAt text root p (text n) := Iff.rfl

/-- A node below the root that is no scope holds no name. -/
theorem not_holdsAt_of_ownNames? (hp : p ≠ []) (hn : root.nodeAt? p = some n)
    (hown : n.ownNames? = none) : ¬ HoldsAt false text root p name := by
  rintro ⟨m, hm, h⟩
  obtain rfl : n = m := Option.some.inj (hn.symm.trans hm)
  have hholds : n.Holds text name := by
    rcases h with ⟨hscope, hhoists⟩ | ⟨-, howns⟩
    · exact .inr ⟨hscope.resolve_left hp, hhoists⟩
    · exact .inl howns
  rw [← mem_scopeNames?_iff, scopeNames?, hown] at hholds
  cases hholds

/-- What is free at a node is free at a child that is no scope, unless the node is itself a use. -/
theorem FreeAt.child {c : Node} (h : FreeAt text root p name) (hn : root.nodeAt? p = some n)
    (href : n.isReference = false) (hc : n.children[i]? = some c) (hown : c.ownNames? = none) :
    FreeAt text root (p ++ [i]) name := by
  refine ⟨fun k hk => ?_, fun q hq => ?_⟩
  · rcases above_concat_iff.mp hk with hk | hk
    · obtain rfl : n = k := Option.some.inj (hn.symm.trans hk)
      exact href
    · exact h.1 k hk
  · rcases List.prefix_concat_iff.mp hq with rfl | hq
    · exact not_holdsAt_of_ownNames? (by simp) ((nodeAt?_concat hn i).trans hc) hown
    · exact h.2 q hq

theorem FreeAt.of_concat (h : FreeAt text root (p ++ [i]) name) : FreeAt text root p name :=
  ⟨fun k hk => h.1 k (above_concat_iff.mpr (.inr hk)),
    fun q hq => h.2 q (hq.trans (List.prefix_append p [i]))⟩

/-! ## Direct writes -/

/-- What a node directly writes is a free use when its name is free at the node. -/
theorem isFree_concat_iff (hn : root.nodeAt? p = some n) (hc : n.children[i]? = some x)
    (hw : n.WritesDirectly x) :
    IsFree false text root (p ++ [i]) ↔ FreeAt text root p (text x) := by
  have hx : root.nodeAt? (p ++ [i]) = some x := (nodeAt?_concat hn i).trans hc
  rw [isFree_iff]
  constructor
  · rintro ⟨m, hm, -, hfree⟩
    obtain rfl : x = m := Option.some.inj (hx.symm.trans hm)
    exact hfree.of_concat
  · intro hfree
    have href : x.isReference = true := by simp [isReference, hw.1]
    have hown : x.ownNames? = none := by simp [ownNames?, isFunction, hw.1]
    exact ⟨x, hx, href, hfree.child hn hw.not_reference hc hown⟩

/-- A use counts as an assignment when it is an identifier that the node above it writes. -/
theorem isAssignment_iff {u : List Nat} (hx : root.nodeAt? u = some x) :
    (root.occurrence u).isAssignment = true ↔ x.kind = "identifier" ∧ ∃ p i n, u = p ++ [i] ∧
      root.nodeAt? p = some n ∧ n.writesChild i = true := by
  have hocc : (root.occurrence u).isAssignment =
      (decide (x.kind = "identifier") && root.isWritten u) := by
    rw [occurrence, hx]
  rw [hocc, Bool.and_eq_true, decide_eq_true_eq]
  refine and_congr_right fun _ => ⟨fun hw => ?_, ?_⟩
  · rcases List.eq_nil_or_concat u with rfl | ⟨p, i, rfl⟩
    · cases hw
    · rw [List.concat_eq_append] at hw ⊢
      cases hn : root.nodeAt? p with
      | none => simp [isWritten, hn] at hw
      | some n => exact ⟨p, i, n, rfl, hn, isWritten_concat hn i ▸ hw⟩
  · rintro ⟨p, i, n, rfl, hn, hw⟩
    rw [isWritten_concat hn, hw]

/-- The uses behind the names that are recorded as assigned. -/
theorem exists_assigned_iff_use :
    (∃ g ∈ (analyze text root).globals, g.name = name ∧ g.isAssigned = true) ↔
      ∃ u, IsFree false text root u ∧ root.spelling text u = name ∧
        (root.occurrence u).isAssignment = true := by
  obtain ⟨uses, -, hmem, hgs⟩ := analyze_reported text root
  rw [hgs]
  constructor
  · rintro ⟨g, hg, rfl, hassigned⟩
    obtain ⟨name, -, rfl⟩ := List.mem_map.mp hg
    obtain ⟨o, ho, hwritten⟩ := List.any_eq_true.mp hassigned
    obtain ⟨u, hu, rfl⟩ := List.mem_map.mp ho
    obtain ⟨hu, hname⟩ := List.mem_filter.mp hu
    exact ⟨u, (hmem u).mp hu, by simpa using hname, hwritten⟩
  · rintro ⟨u, hfree, rfl, hwritten⟩
    have hu := (hmem u).mpr hfree
    refine ⟨_, List.mem_map.mpr ⟨root.spelling text u, ?_, rfl⟩, rfl, ?_⟩
    · exact List.mem_eraseDups.mpr (List.mem_map_of_mem hu)
    · refine List.any_eq_true.mpr ⟨root.occurrence u, List.mem_map_of_mem ?_, hwritten⟩
      exact List.mem_filter.mpr ⟨hu, by simp⟩

/-- What is assigned is used right below the node that writes it. -/
theorem AssignsAt.exists_use (h : AssignsAt text root p x) :
    ∃ i, root.nodeAt? (p ++ [i]) = some x ∧ IsFree false text root (p ++ [i]) ∧
      (root.occurrence (p ++ [i])).isAssignment = true := by
  obtain ⟨n, hn, hw, hfree⟩ := h
  obtain ⟨hk, i, hi, hc⟩ := writesDirectly_iff.mp hw
  have hx : root.nodeAt? (p ++ [i]) = some x := (nodeAt?_concat hn i).trans hc
  exact ⟨i, hx, (isFree_concat_iff hn hc hw).mpr hfree,
    (isAssignment_iff hx).mpr ⟨hk, p, i, n, rfl, hn, hi⟩⟩

/-- A name is recorded as assigned when some node directly writes it where it is free. -/
theorem exists_assigned_iff :
    (∃ g ∈ (analyze text root).globals, g.name = name ∧ g.isAssigned = true) ↔
      ∃ p x, AssignsAt text root p x ∧ text x = name := by
  rw [exists_assigned_iff_use]
  constructor
  · rintro ⟨u, hfree, rfl, hwritten⟩
    obtain ⟨x, hx, -⟩ := id hfree
    obtain ⟨hk, p, i, n, rfl, hn, hi⟩ := (isAssignment_iff hx).mp hwritten
    have hc : n.children[i]? = some x := (nodeAt?_concat hn i).symm.trans hx
    have hw : n.WritesDirectly x := writesDirectly_iff.mpr ⟨hk, i, hi, hc⟩
    exact ⟨p, x, ⟨n, hn, hw, (isFree_concat_iff hn hc hw).mp hfree⟩, (spelling_eq hx).symm⟩
  · rintro ⟨p, x, hassigns, rfl⟩
    obtain ⟨i, hx, hfree, hwritten⟩ := hassigns.exists_use
    exact ⟨p ++ [i], hfree, spelling_eq hx, hwritten⟩

/-! ## Writes inside patterns -/

/-- What is free at a node is free at a pattern right below it. -/
theorem FreeAt.below {c : Node} (h : FreeAt text root p name) (hn : root.nodeAt? p = some n)
    (href : n.isReference = false) (hc : c ∈ n.children) (hb : c.Binds x) :
    ∃ u, root.nodeAt? u = some c ∧ FreeAt text root u name := by
  obtain ⟨i, hi⟩ := List.getElem?_of_mem hc
  exact ⟨p ++ [i], (nodeAt?_concat hn i).trans hi, h.child hn href hi hb.ownNames?_eq_none⟩

/-- A name that a pattern binds is free where it stands when it is free at the pattern. -/
theorem FreeAt.binds {c : Node} (hb : c.Binds x) (h : FreeAt text root p name)
    (hc : root.nodeAt? p = some c) :
    ∃ u, root.nodeAt? u = some x ∧ FreeAt text root u name := by
  induction hb generalizing p with
  | name => exact ⟨p, hc, h⟩
  | @default n d x hk hd hb ih =>
    have href : n.isReference = false := by rcases hk with hk | hk <;> simp [isReference, hk]
    obtain ⟨u, hu, hfree⟩ := h.below hc href (mem_children_of_child? hd) hb
    exact ih hfree hu
  | @pair n d x hk hd hb ih =>
    have href : n.isReference = false := by simp [isReference, hk]
    obtain ⟨u, hu, hfree⟩ := h.below hc href (mem_children_of_child? hd) hb
    exact ih hfree hu
  | @parts n d x hk hd hb ih =>
    have href : n.isReference = false := by
      rcases hk with hk | hk | hk | hk <;> simp [isReference, hk]
    obtain ⟨u, hu, hfree⟩ := h.below hc href (List.mem_filter.mp hd).1 hb
    exact ih hfree hu

theorem exists_global_of_isFree {u : List Nat} (h : IsFree false text root u)
    (hx : root.nodeAt? u = some x) : ∃ g ∈ (analyze text root).globals, g.name = text x := by
  obtain ⟨uses, -, hmem, hgs⟩ := analyze_reported text root
  rw [hgs]
  refine ⟨_, List.mem_map.mpr ⟨text x, List.mem_eraseDups.mpr ?_, rfl⟩, rfl⟩
  exact List.mem_map.mpr ⟨u, (hmem u).mpr h, spelling_eq hx⟩

/-- An identifier that is written, alone or in a pattern, is reported where its name is free. -/
theorem exists_global_of_writes (hn : root.nodeAt? p = some n) (hw : n.Writes x)
    (hx : x.kind = "identifier") (hfree : FreeAt text root p (text x)) :
    ∃ g ∈ (analyze text root).globals, g.name = text x := by
  obtain ⟨target, hleft, hb⟩ := hw.2
  obtain ⟨q, hq, hfree⟩ := hfree.below hn hw.not_reference (mem_children_of_child? hleft) hb
  obtain ⟨u, hu, hfree⟩ := hfree.binds hb hq
  have href : x.isReference = true := by simp [isReference, hx]
  exact exists_global_of_isFree (isFree_iff.mpr ⟨x, hu, href, hfree⟩) hu

end Scope

end ScriptModules
