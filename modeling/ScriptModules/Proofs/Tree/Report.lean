import ScriptModules.Proofs.Tree.Free

/-!
# What is reported of a script

A script is bytes and a tree over them, and a name is the text of a node. The analysis fails only
when a node of the tree is not UTF-8; otherwise it reports the free uses of the tree, each under
the name that its bytes spell. Both rest on which nodes it reads: they all stand in the tree
(`within_of_mem_readNodes`), and every free use is among them (`mem_readNodes_of_isFree`).

The root counts as the program, whatever its kind. A root that is a function does not hide its own
parameters: `arrow` is such a tree.
-/

namespace ScriptModules

namespace Scope

open Node

variable {n : Node}

/-! ## The nodes that are read stand in the tree -/

theorem texts_cons (source : ByteArray) (n : Node) (nodes : List Node) :
    texts source (n :: nodes) = (Utf8.decode (n.bytes source)).bind fun t =>
      (texts source nodes).bind fun ts => .ok (t :: ts) := by
  rw [texts, List.mapM_cons]
  rfl

theorem exists_error_of_texts {source : ByteArray} {nodes : List Node} {e : Utf8.Fault}
    (h : texts source nodes = .error e) :
    ∃ n ∈ nodes, Utf8.decode (n.bytes source) = .error e := by
  induction nodes with
  | nil => cases h
  | cons n nodes ih =>
    rw [texts_cons] at h
    cases hn : Utf8.decode (n.bytes source) with
    | error f =>
      rw [hn] at h
      cases h
      exact ⟨n, by simp, hn⟩
    | ok t =>
      rw [hn] at h
      cases hrest : texts source nodes with
      | error f =>
        rw [hrest] at h
        cases h
        obtain ⟨m, hm, he⟩ := ih hrest
        exact ⟨m, by simp [hm], he⟩
      | ok ts =>
        rw [hrest] at h
        cases h

theorem decode_of_texts {source : ByteArray} {nodes : List Node} {ts : List String}
    (h : texts source nodes = .ok ts) (hn : n ∈ nodes) :
    Utf8.decode (n.bytes source) = .ok (textOf source n) := by
  induction nodes generalizing ts with
  | nil => cases hn
  | cons m nodes ih =>
    rw [texts_cons] at h
    cases hm : Utf8.decode (m.bytes source) with
    | error f =>
      rw [hm] at h
      cases h
    | ok t =>
      rw [hm] at h
      cases hrest : texts source nodes with
      | error f =>
        rw [hrest] at h
        cases h
      | ok ts' =>
        rcases List.mem_cons.mp hn with rfl | hn
        · simp [textOf, hm, Except.toOption]
        · exact ih hrest hn

theorem within_of_mem_ownNames {x : Node} (h : x ∈ n.ownNames?.getD []) : n.Within x := by
  by_cases hf : n.isFunction = true
  · rcases (mem_ownNames_function hf).mp h with ⟨ps, hp, hb⟩ | ⟨-, hx⟩
    · have hps : ps ∈ n.children := by
        rcases Option.or_eq_some_iff.mp hp with hp | ⟨-, hp⟩
        · exact mem_children_of_child? hp
        · exact mem_children_of_child? hp
      exact (Within.child hps).trans hb.within
    · exact .child (mem_children_of_child? hx)
  · rw [Bool.not_eq_true] at hf
    rcases (mem_ownNames_of_not_function hf).mp h with ⟨-, hx⟩ | ⟨-, ps, hp, hb⟩
    · exact .child (mem_children_of_child? hx)
    · exact (Within.child (mem_children_of_child? hp)).trans hb.within

theorem within_of_mem_declarationSpellings {x : Node} (h : x ∈ declarationSpellings n) :
    n.Within x := by
  obtain ⟨d, hd, hx⟩ := List.mem_flatMap.mp h
  rcases List.mem_cons.mp hx with rfl | hx
  · exact (declares_of_mem_declared hd).1.within
  · cases hk : d.keyword with
    | fixed w => simp [hk] at hx
    | spelled k =>
      obtain rfl : x = k := by simpa [hk] using hx
      exact .child (mem_children_of_child? ((declares_of_mem_declared hd).2 _ hk))

theorem spellingsAll_eq (used : Bool) (cs : List Node) :
    spellingsAll used cs = cs.flatMap (spellings used) := by
  induction cs with
  | nil => simp [spellingsAll]
  | cons c cs ih => simp [spellingsAll, ih]

theorem spellings_eq (used : Bool) (n : Node) : spellings used n =
    declarationSpellings n ++ n.ownNames?.getD [] ++
      (if used && n.isReference then [n] else []) ++
      n.children.flatMap (spellings (used && !n.isReference)) := by
  rw [← spellingsAll_eq]
  cases n
  rw [spellings]

theorem within_of_mem_spellings {used : Bool} {x : Node} (h : x ∈ spellings used n) :
    n.Within x := by
  induction n using induct generalizing used with
  | node n ih =>
    rw [spellings_eq] at h
    rcases List.mem_append.mp h with h | h
    · rcases List.mem_append.mp h with h | h
      · rcases List.mem_append.mp h with h | h
        · exact within_of_mem_declarationSpellings h
        · exact within_of_mem_ownNames h
      · split at h
        · rw [List.mem_singleton.mp h]
          exact .refl n
        · cases h
    · obtain ⟨c, hc, hx⟩ := List.mem_flatMap.mp h
      exact (Within.child hc).trans (ih c hc hx)

/-- The nodes whose text the analysis of a tree reads. -/
def readNodes (root : Node) : List Node :=
  (if root.isReference then [root] else []) ++ spellingsAll (!root.isReference) root.children

theorem ofSource_eq (source : ByteArray) (root : Node) : ofSource source root =
    (texts source (readNodes root)).bind fun _ => .ok (analyze (textOf source) root) := rfl

theorem ofSource_ok {source : ByteArray} {root : Node} {a : Analysis}
    (h : ofSource source root = .ok a) : a = analyze (textOf source) root := by
  rw [ofSource_eq] at h
  cases htexts : texts source (readNodes root) with
  | error fault =>
    rw [htexts] at h
    cases h
  | ok _ =>
    rw [htexts] at h
    exact (Except.ok.inj h).symm

theorem within_of_mem_readNodes {root x : Node} (h : x ∈ readNodes root) : root.Within x := by
  rw [readNodes, spellingsAll_eq] at h
  rcases List.mem_append.mp h with h | h
  · split at h
    · rw [List.mem_singleton.mp h]
      exact .refl root
    · cases h
  · obtain ⟨c, hc, hx⟩ := List.mem_flatMap.mp h
    exact (Within.child hc).trans (within_of_mem_spellings hx)

/-- When the analysis cannot read a text, some node of the tree is not UTF-8. -/
theorem exists_error_of_readNodes {source : ByteArray} {root : Node} {e : Utf8.Fault}
    (h : texts source (readNodes root) = .error e) :
    ∃ p n, root.nodeAt? p = some n ∧ Utf8.decode (n.bytes source) = .error e := by
  obtain ⟨n, hn, he⟩ := exists_error_of_texts h
  obtain ⟨p, hp⟩ := within_of_mem_readNodes hn
  exact ⟨p, n, hp, he⟩

/-- A use that stands in no other one is read. -/
theorem mem_spellings_of_use {p : List Nat} {m : Node} (hm : n.nodeAt? p = some m)
    (href : m.isReference = true) (habove : ∀ k, n.Above p k → k.isReference = false) :
    m ∈ spellings true n := by
  induction p generalizing n with
  | nil =>
    cases hm
    rw [spellings_eq]
    simp [href]
  | cons i p ih =>
    obtain ⟨c, hc, hm⟩ := exists_child_of_nodeAt? hm
    simp only [above_cons_iff hc, forall_eq_or_imp] at habove
    have hmem := ih hm habove.2
    rw [spellings_eq]
    refine List.mem_append_right _ (List.mem_flatMap.mpr ⟨c, List.mem_of_getElem? hc, ?_⟩)
    simpa [habove.1] using hmem

theorem mem_readNodes_of_isFree {text : Node → String} {root m : Node} {p : List Nat}
    (h : IsFree false text root p) (hm : root.nodeAt? p = some m) : m ∈ readNodes root := by
  obtain ⟨n, hn, href, habove, -⟩ := h
  rw [hm] at hn
  cases hn
  rw [readNodes, spellingsAll_eq]
  cases p with
  | nil =>
    cases hm
    simp [href]
  | cons i p =>
    obtain ⟨c, hc, hm⟩ := exists_child_of_nodeAt? hm
    simp only [above_cons_iff hc, forall_eq_or_imp] at habove
    have hmem := mem_spellings_of_use hm href habove.2
    refine List.mem_append_right _ (List.mem_flatMap.mpr ⟨c, List.mem_of_getElem? hc, ?_⟩)
    simpa [habove.1] using hmem

/-! ## The report -/

/-- The analysis of a script reports the free uses of its tree, each under the name that its bytes
spell, unless the text of some node of the tree is not UTF-8. -/
theorem ofSource_reported (source : ByteArray) (root : Node) :
    match ofSource source root with
    | .ok a => Reported false (textOf source) root a.globals ∧
        ∀ p n, IsFree false (textOf source) root p → root.nodeAt? p = some n →
          Utf8.decode (n.bytes source) = .ok (textOf source n)
    | .error e => ∃ p n, root.nodeAt? p = some n ∧ Utf8.decode (n.bytes source) = .error e := by
  rw [ofSource_eq]
  cases h : texts source (readNodes root) with
  | ok ts =>
    refine ⟨analyze_reported (textOf source) root, fun p n hfree hn => ?_⟩
    exact decode_of_texts h (mem_readNodes_of_isFree hfree hn)
  | error e =>
    obtain ⟨n, hn, he⟩ := exists_error_of_texts h
    obtain ⟨p, hp⟩ := within_of_mem_readNodes hn
    exact ⟨p, n, hp, he⟩

/-- The parameter of `arrow`. -/
def parameter : Node := ⟨"identifier", 0, 1, [], some "parameter", true, false, false⟩

/-- An arrow function with the parameter `x`, as the root of a tree over the one byte `x`. -/
def arrow : Node := ⟨"arrow_function", 0, 1, [parameter], none, true, false, false⟩

/-- If a root that is a function counted for its own names, `arrow` would have no free use. -/
theorem not_isFree_arrow (text : Node → String) (p : List Nat) : ¬ IsFree true text arrow p := by
  rintro ⟨n, hn, href, -, hscopes⟩
  cases p with
  | nil =>
    cases hn
    revert href
    decide
  | cons i p =>
    obtain ⟨c, hc, hn⟩ := exists_child_of_nodeAt? hn
    obtain rfl : c = parameter := List.mem_singleton.mp (List.mem_of_getElem? hc)
    cases p with
    | nil =>
      cases hn
      have howns : arrow.Owns text (text parameter) :=
        .parameter (by decide) rfl (.name (.inl rfl))
      exact hscopes [] List.nil_prefix ⟨arrow, rfl, .inr ⟨.inr rfl, howns⟩⟩
    | cons j p => cases hn

/-- The parameter of a root that is a function is reported, so the root does not count for its own
names. -/
theorem parameter_of_root_reported :
    ¬ match ofSource ⟨#[120]⟩ arrow with
      | .ok a => Reported true (textOf ⟨#[120]⟩) arrow a.globals
      | .error e => ∃ p n, arrow.nodeAt? p = some n ∧
          Utf8.decode (n.bytes ⟨#[120]⟩) = .error e := by
  have hrun : ofSource ⟨#[120]⟩ arrow = .ok ⟨[], [⟨"x", [⟨0, 1, false⟩]⟩]⟩ := by decide +kernel
  rw [hrun]
  rintro ⟨uses, -, hmem, hgs⟩
  cases uses with
  | nil => cases hgs
  | cons p uses => exact not_isFree_arrow _ p ((hmem p).mp (by simp))

end Scope

end ScriptModules
