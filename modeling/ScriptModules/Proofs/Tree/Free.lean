import ScriptModules.Proofs.Data.Group
import ScriptModules.Proofs.Tree.Binding

/-!
# Free uses of names

The rule of scoping, by addresses: a use at an address is free when no scope at a prefix of the
address holds the name (`IsFree`). The program is the scope at the empty address, whatever the kind
of its node: names are hoisted into it, but it brings none of its own. `Reported` says of a list of
global names that it holds the free uses of a tree and nothing else, each use once, the uses of a
name in preorder and the names by their first use.

The analysis walks the tree once, with the names of the scopes around the node at hand.
`isFreeAt` is the test that the walk makes, read along one address: `usesIn_eq` says that the walk
gives the addresses that pass it, in preorder, and `isFreeAt_root_iff` that the test is the rule.
-/

namespace ScriptModules

namespace Node

/-- The text of the node at an address. -/
def spelling (text : Node → String) (root : Node) (p : List Nat) : String :=
  ((root.nodeAt? p).map text).getD ""

/-- Is the child with index `i` the first one in the field that the node writes? -/
def writesChild (n : Node) (i : Nat) : Bool :=
  n.writtenField?.any fun f => n.children.findIdx? (·.field = some f) = some i

/-- Does the parent of the node at an address write it? -/
def isWritten (root : Node) (p : List Nat) : Bool :=
  match p.getLast? with
  | none => false
  | some i => (root.nodeAt? p.dropLast).any (·.writesChild i)

/-- The use at an address. -/
def occurrence (root : Node) (p : List Nat) : Occurrence :=
  match root.nodeAt? p with
  | some n => ⟨n.start, n.stop, n.kind = "identifier" && root.isWritten p⟩
  | none => ⟨0, 0, false⟩

variable {text : Node → String} {n c : Node} {i : Nat} {p : List Nat} {w : Bool}

theorem isWritten_singleton (n : Node) (i : Nat) : n.isWritten [i] = n.writesChild i := rfl

theorem isWritten_cons (h : n.children[i]? = some c) (hp : p ≠ []) :
    n.isWritten (i :: p) = c.isWritten p := by
  cases p with
  | nil => exact (hp rfl).elim
  | cons j p =>
    simp only [isWritten, List.getLast?_cons_cons, List.dropLast_cons_cons,
      nodeAt?_cons_of_child h]

theorem spelling_cons (h : n.children[i]? = some c) :
    n.spelling text (i :: p) = c.spelling text p := by
  rw [spelling, nodeAt?_cons_of_child h, spelling]

theorem occurrence_cons (h : n.children[i]? = some c) (hp : p ≠ []) :
    n.occurrence (i :: p) = c.occurrence p := by
  rw [occurrence, occurrence, nodeAt?_cons_of_child h, isWritten_cons h hp]

/-- The use at an address of a tree whose own parent writes it or not. -/
def use (text : Node → String) (w : Bool) (n : Node) (p : List Nat) : String × Occurrence :=
  (n.spelling text p,
    if p = [] then ⟨n.start, n.stop, n.kind = "identifier" && w⟩ else n.occurrence p)

theorem use_cons (h : n.children[i]? = some c) :
    n.use text w (i :: p) = c.use text (n.writesChild i) p := by
  rw [use, use, spelling_cons h, if_neg (by simp)]
  by_cases hp : p = []
  · subst hp
    rw [if_pos rfl, occurrence, nodeAt?_cons_of_child h, isWritten_singleton]
    rfl
  · rw [if_neg hp, occurrence_cons h hp]

theorem use_root (text : Node → String) (n : Node) (p : List Nat) :
    n.use text false p = (n.spelling text p, n.occurrence p) := by
  rw [use]
  split
  · next hp =>
    subst hp
    rfl
  · rfl

end Node

namespace Scope

open Node

/-- The scope at the address `q` holds the name. With `rootOwns`, a root that is itself a function,
class expression or catch clause counts for the names that such a node brings. -/
def HoldsAt (rootOwns : Bool) (text : Node → String) (root : Node) (q : List Nat)
    (name : String) : Prop :=
  ∃ m, root.nodeAt? q = some m ∧
    (((q = [] ∨ m.isFunction = true) ∧ m.HoistsName text name) ∨
      ((q ≠ [] ∨ rootOwns = true) ∧ m.Owns text name))

/-- At the address `p` stands a use, not inside another one, of a name that no scope around it
holds. -/
def IsFree (rootOwns : Bool) (text : Node → String) (root : Node) (p : List Nat) : Prop :=
  ∃ n, root.nodeAt? p = some n ∧ n.isReference = true ∧
    (∀ m, root.Above p m → m.isReference = false) ∧
    ∀ q, q <+: p → ¬ HoldsAt rootOwns text root q (text n)

/-- The global names are those of the free uses, by first use, each with its uses in preorder. -/
def Reported (rootOwns : Bool) (text : Node → String) (root : Node) (gs : List GlobalName) : Prop :=
  ∃ uses : List (List Nat), uses.Pairwise (List.Lex (· < ·)) ∧
    (∀ p, p ∈ uses ↔ IsFree rootOwns text root p) ∧
    gs = (uses.map (root.spelling text)).eraseDups.map fun name =>
      ⟨name, (uses.filter fun p => root.spelling text p == name).map root.occurrence⟩

/-! ## The walk, read along addresses -/

/-- The scopes inside a node. -/
def inner (text : Node → String) (scopes : List (List String)) (n : Node) : List (List String) :=
  match n.scopeNames? text with
  | some names => names :: scopes
  | none => scopes

/-- The free uses of a tree, where `scopes` are the scopes inside its root. -/
def usesIn (text : Node → String) (scopes : List (List String)) (w : Bool) (n : Node) :
    List (String × Occurrence) :=
  if n.isReference then
    if resolves scopes (text n) then []
    else [(text n, ⟨n.start, n.stop, n.kind = "identifier" && w⟩)]
  else freeAll text scopes n.writtenField? n.children

/-- Is there a free use at the address, where `scopes` are the scopes inside the root? -/
def isFreeAt (text : Node → String) : (scopes : List (List String)) → Node → List Nat → Bool
  | scopes, n, [] => n.isReference && !resolves scopes (text n)
  | scopes, n, i :: p => !n.isReference &&
      n.children[i]?.any fun c => isFreeAt text (inner text scopes c) c p

variable {text : Node → String} {scopes : List (List String)} {w : Bool} {n c : Node} {i : Nat}
  {p : List Nat} {name : String}

theorem free_eq (text : Node → String) (scopes : List (List String)) (w : Bool) (n : Node) :
    free text scopes w n = usesIn text (inner text scopes n) w n := by
  cases n
  rw [free]
  rfl

theorem isFreeAt_cons (h : n.children[i]? = some c) (hn : n.isReference = false) :
    isFreeAt text scopes n (i :: p) = isFreeAt text (inner text scopes c) c p := by
  simp [isFreeAt, h, hn]

theorem findIdx?_append_cons (P : Node → Bool) (before cs : List Node) (c : Node) :
    (before ++ c :: cs).findIdx? P = some before.length ↔ before.any P = false ∧ P c = true := by
  induction before with
  | nil => cases h : P c <;> simp [List.findIdx?_cons, h]
  | cons b before ih =>
    rw [List.cons_append, List.findIdx?_cons, List.any_cons]
    cases hb : P b with
    | true => simp
    | false => simpa using ih

/-- The field that a node writes, unless one of the children `before` stands in it. -/
def pending (n : Node) (before : List Node) : Option String :=
  n.writtenField?.filter fun f => !before.any (·.field = some f)

theorem pending_nil (n : Node) : pending n [] = n.writtenField? := by
  cases h : n.writtenField? <;> simp [pending, h]

theorem writesChild_eq {before cs : List Node} (h : n.children = before ++ c :: cs) :
    n.writesChild before.length =
      ((pending n before).isSome && decide (c.field = pending n before)) := by
  unfold writesChild pending
  rw [h]
  cases n.writtenField? with
  | none => rfl
  | some f =>
    have hfirst := findIdx?_append_cons (fun d => decide (d.field = some f)) before cs c
    cases hb : before.any (fun d => decide (d.field = some f)) <;> grind

theorem pending_snoc {before cs : List Node} (h : n.children = before ++ c :: cs) :
    pending n (before ++ [c]) = if n.writesChild before.length then none else pending n before := by
  rw [writesChild_eq h]
  unfold pending
  cases n.writtenField? with
  | none => simp
  | some f =>
    simp only [Option.filter_some, List.any_append, List.any_cons, List.any_nil, Bool.or_false]
    rcases Bool.eq_false_or_eq_true (before.any fun d => decide (d.field = some f)) with hb | hb
    · simp only [hb]
      rfl
    · simp only [hb]
      by_cases hc : c.field = some f <;> simp [hc]

/-- The walk over siblings gives the addresses below them that pass the test. -/
theorem freeAll_eq (scopes : List (List String)) (w : Bool) (hn : n.isReference = false)
    (ih : ∀ c ∈ n.children, ∀ scopes w, usesIn text scopes w c =
      (c.preorder.filter (isFreeAt text scopes c)).map (c.use text w))
    (before cs : List Node) (hcs : n.children = before ++ cs) :
    freeAll text scopes (pending n before) cs =
      ((preorderFrom before.length cs).filter (isFreeAt text scopes n)).map (n.use text w) := by
  induction cs generalizing before with
  | nil => simp [freeAll, preorderFrom]
  | cons c cs ihcs =>
    have hc : n.children[before.length]? = some c := by simp [hcs]
    have htest : (isFreeAt text scopes n ∘ fun p => before.length :: p) =
        isFreeAt text (inner text scopes c) c := funext fun p => isFreeAt_cons hc hn
    have huse : (n.use text w ∘ fun p => before.length :: p) =
        c.use text (n.writesChild before.length) := funext fun p => use_cons hc
    have hrest := ihcs (before ++ [c]) (by simp [hcs])
    rw [pending_snoc hcs, List.length_append, List.length_singleton] at hrest
    rw [freeAll, ← writesChild_eq hcs, hrest, free_eq, ih c (List.mem_of_getElem? hc),
      preorderFrom, List.filter_append, List.map_append, List.filter_map, List.map_map, htest, huse]

/-- The walk gives the addresses that pass the test, in preorder. -/
theorem usesIn_eq (text : Node → String) (scopes : List (List String)) (w : Bool) (n : Node) :
    usesIn text scopes w n = (n.preorder.filter (isFreeAt text scopes n)).map (n.use text w) := by
  induction n using induct generalizing scopes w with
  | node n ih =>
    rw [usesIn, preorder_eq, List.filter_cons]
    cases hn : n.isReference with
    | true =>
      have hbelow : (preorderFrom 0 n.children).filter (isFreeAt text scopes n) = [] := by
        rw [List.filter_eq_nil_iff]
        intro p hp
        cases p with
        | nil => exact (nil_not_mem_preorderFrom _ _ hp).elim
        | cons i p => simp [isFreeAt, hn]
      rw [hbelow]
      cases hr : resolves scopes (text n) <;> simp [isFreeAt, hn, hr, use, spelling]
    | false =>
      have hroot : isFreeAt text scopes n [] = false := by simp [isFreeAt, hn]
      have hall := freeAll_eq scopes w hn (fun c hc scopes w => ih c hc scopes w) [] n.children rfl
      rw [pending_nil] at hall
      simpa [hroot] using hall

/-! ## The test follows the rule -/

theorem resolves_iff : resolves scopes name = true ↔ ∃ names ∈ scopes, name ∈ names := by
  simp [resolves]

theorem resolves_inner_eq_false_iff : resolves (inner text scopes n) name = false ↔
    resolves scopes name = false ∧ ¬ n.Holds text name := by
  rw [← mem_scopeNames?_iff]
  unfold inner
  cases n.scopeNames? text with
  | none => simp
  | some names =>
    simp only [resolves, List.any_cons, Bool.or_eq_false_iff, Option.getD_some]
    rw [and_comm]
    simp

/-- The test at an address asks for a use, not inside another one, of a name that neither the
scopes at hand nor those on the way hold. -/
theorem isFreeAt_iff : isFreeAt text scopes n p = true ↔ ∃ m, n.nodeAt? p = some m ∧
    m.isReference = true ∧ (∀ k, n.Above p k → k.isReference = false) ∧
    resolves scopes (text m) = false ∧ ∀ k, n.Passes p k → ¬ k.Holds text (text m) := by
  induction p generalizing scopes n with
  | nil =>
    simp only [isFreeAt, Bool.and_eq_true, Bool.not_eq_true', nodeAt?_nil, Option.some.injEq,
      exists_eq_left']
    constructor
    · rintro ⟨hn, hr⟩
      exact ⟨hn, fun k hk => (not_above_nil hk).elim, hr, fun k hk => (not_passes_nil hk).elim⟩
    · rintro ⟨hn, -, hr, -⟩
      exact ⟨hn, hr⟩
  | cons i p ih =>
    cases hc : n.children[i]? with
    | none => simp [isFreeAt, nodeAt?_cons, hc]
    | some c =>
      have hstep : isFreeAt text scopes n (i :: p) = true ↔
          n.isReference = false ∧ isFreeAt text (inner text scopes c) c p = true := by
        simp [isFreeAt, hc]
      simp only [hstep, ih, resolves_inner_eq_false_iff, nodeAt?_cons_of_child hc,
        above_cons_iff hc, passes_cons_iff hc, forall_eq_or_imp]
      constructor
      · rintro ⟨hn, m, hm, href, habove, ⟨hr, hholds⟩, hpass⟩
        exact ⟨m, hm, href, ⟨hn, habove⟩, hr, hholds, hpass⟩
      · rintro ⟨m, hm, href, ⟨hn, habove⟩, hr, hholds, hpass⟩
        exact ⟨hn, m, hm, href, habove, ⟨hr, hholds⟩, hpass⟩

/-- The names of the program are those hoisted into it. -/
theorem mem_programNames_iff {root : Node} :
    name ∈ (programNames text root).map (·.1) ↔ root.HoistsName text name := by
  rw [programNames, List.map_map, groupBy_eq, List.map_map]
  simp only [Function.comp_def, List.map_id', List.mem_eraseDups]
  exact mem_map_hoistedAll_iff

theorem forall_not_holdsAt_iff {root : Node} :
    (∀ q, q <+: p → ¬ HoldsAt false text root q name) ↔
      ¬ root.HoistsName text name ∧ ∀ k, root.Passes p k → ¬ k.Holds text name := by
  constructor
  · intro h
    refine ⟨fun hh => h [] List.nil_prefix ⟨root, rfl, .inl ⟨.inl rfl, hh⟩⟩, ?_⟩
    rintro k ⟨q, hq, hne, hk⟩ (ho | ⟨hf, hh⟩)
    · exact h q hq ⟨k, hk, .inr ⟨.inl hne, ho⟩⟩
    · exact h q hq ⟨k, hk, .inl ⟨.inr hf, hh⟩⟩
  · rintro ⟨hroot, hpass⟩ q hq ⟨m, hm, ⟨hscope, hh⟩ | ⟨hne, ho⟩⟩
    · by_cases hnil : q = []
      · subst hnil
        cases hm
        exact hroot hh
      · exact hpass m ⟨q, hq, hnil, hm⟩ (.inr ⟨hscope.resolve_left hnil, hh⟩)
    · exact hpass m ⟨q, hq, hne.resolve_right (by simp), hm⟩ (.inl ho)

/-- The test at the root of a program is the rule of scoping. -/
theorem isFreeAt_root_iff {root : Node} :
    isFreeAt text [(programNames text root).map (·.1)] root p = true ↔
      IsFree false text root p := by
  rw [isFreeAt_iff]
  unfold IsFree
  refine exists_congr fun m => and_congr_right fun _ => and_congr_right fun _ =>
    and_congr_right fun _ => ?_
  rw [forall_not_holdsAt_iff, ← mem_programNames_iff, ← Bool.not_eq_true, resolves_iff]
  simp

/-- The analysis groups the uses that the walk finds. -/
theorem globals_analyze (text : Node → String) (root : Node) : (analyze text root).globals =
    (groupBy (·.1) (usesIn text [(programNames text root).map (·.1)] false root)).map
      fun g => ⟨g.1, g.2.map (·.2)⟩ := by
  simp only [analyze, usesIn, Bool.and_false]

theorem analyze_reported (text : Node → String) (root : Node) :
    Reported false text root (analyze text root).globals := by
  refine ⟨root.preorder.filter (isFreeAt text [(programNames text root).map (·.1)] root),
    root.preorder_sorted.filter _, fun p => ?_, ?_⟩
  · rw [List.mem_filter, isFreeAt_root_iff, mem_preorder_iff]
    constructor
    · exact fun h => h.2
    · rintro ⟨n, hn, h⟩
      exact ⟨by rw [hn]; rfl, n, hn, h⟩
  · rw [globals_analyze, usesIn_eq, groupBy_eq, List.map_map, List.map_map]
    have huse : root.use text false = fun p => (root.spelling text p, root.occurrence p) :=
      funext fun p => use_root text root p
    rw [huse]
    refine List.map_congr_left fun name _ => ?_
    rw [Function.comp_apply, List.filter_map, List.map_map]
    rfl

end Scope

end ScriptModules
