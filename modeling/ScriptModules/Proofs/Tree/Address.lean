import Mathlib.Data.List.Infix
import ScriptModules.Tree.Node

/-!
# Addresses of nodes

An address is the list of child indices on the way down from a node. It tells two nodes of a tree
apart even when they are equal, the addresses of the nodes around a node are the prefixes of its
own, and the order of the tree in preorder is the lexicographic order of addresses:

* `mem_preorder_iff`: `preorder` lists the addresses at which a tree has a node;
* `preorder_sorted`: it lists them in increasing order, so each once.
-/

namespace ScriptModules

namespace Node

/-- A property of trees holds when each node has it as soon as its children do. -/
theorem induct {P : Node → Prop} (node : ∀ n, (∀ c ∈ n.children, P c) → P n) (n : Node) : P n := by
  refine @Node.rec P (fun cs => ∀ c ∈ cs, P c)
    (fun kind start stop children field named missing flagged ih => node _ ih) ?_ ?_ n
  · intro c hc
    cases hc
  · intro c cs hc hcs d hd
    rcases List.mem_cons.mp hd with rfl | hd
    · exact hc
    · exact hcs d hd

/-- The node at an address. -/
def nodeAt? : Node → List Nat → Option Node
  | n, [] => some n
  | n, i :: p => n.children[i]?.bind fun c => c.nodeAt? p

@[simp] theorem nodeAt?_nil (n : Node) : n.nodeAt? [] = some n := rfl

theorem nodeAt?_cons (n : Node) (i : Nat) (p : List Nat) :
    n.nodeAt? (i :: p) = n.children[i]?.bind fun c => c.nodeAt? p := rfl

theorem nodeAt?_cons_of_child {n c : Node} {i : Nat} (h : n.children[i]? = some c) (p : List Nat) :
    n.nodeAt? (i :: p) = c.nodeAt? p := by
  rw [nodeAt?_cons, h]
  rfl

theorem nodeAt?_append (n : Node) (p q : List Nat) :
    n.nodeAt? (p ++ q) = (n.nodeAt? p).bind fun m => m.nodeAt? q := by
  induction p generalizing n with
  | nil => rfl
  | cons i p ih =>
    rw [List.cons_append, nodeAt?_cons, nodeAt?_cons]
    cases n.children[i]? with
    | none => rfl
    | some c => exact ih c

theorem exists_child_of_nodeAt? {n m : Node} {i : Nat} {p : List Nat}
    (h : n.nodeAt? (i :: p) = some m) : ∃ c, n.children[i]? = some c ∧ c.nodeAt? p = some m :=
  Option.bind_eq_some_iff.mp h

/-- What stands in a tree. -/
def Within (n m : Node) : Prop := ∃ p, n.nodeAt? p = some m

theorem Within.refl (n : Node) : n.Within n := ⟨[], rfl⟩

theorem Within.trans {n m k : Node} (h : n.Within m) (h' : m.Within k) : n.Within k := by
  obtain ⟨p, hp⟩ := h
  obtain ⟨q, hq⟩ := h'
  refine ⟨p ++ q, ?_⟩
  rw [nodeAt?_append, hp]
  exact hq

theorem Within.child {n c : Node} (h : c ∈ n.children) : n.Within c := by
  obtain ⟨i, hi⟩ := List.getElem?_of_mem h
  refine ⟨[i], ?_⟩
  rw [nodeAt?_cons_of_child hi]
  rfl

theorem mem_children_of_child? {n c : Node} {f : String} (h : n.child? f = some c) :
    c ∈ n.children :=
  List.mem_of_find?_eq_some h

/-- In the tree of `n`, the node `m` stands strictly above the node at the address `p`. -/
def Above (n : Node) (p : List Nat) (m : Node) : Prop :=
  ∃ q, q <+: p ∧ q ≠ p ∧ n.nodeAt? q = some m

theorem not_above_nil {n m : Node} : ¬ n.Above [] m := by
  rintro ⟨q, hq, hne, -⟩
  exact hne (List.prefix_nil.mp hq)

theorem above_cons_iff {n c m : Node} {i : Nat} {p : List Nat} (h : n.children[i]? = some c) :
    n.Above (i :: p) m ↔ m = n ∨ c.Above p m := by
  constructor
  · rintro ⟨q, hq, hne, hm⟩
    rcases List.prefix_cons_iff.mp hq with rfl | ⟨q, rfl, hqp⟩
    · exact .inl (Option.some.inj hm).symm
    · rw [nodeAt?_cons_of_child h] at hm
      exact .inr ⟨q, hqp, fun e => hne (by rw [e]), hm⟩
  · rintro (rfl | ⟨q, hq, hne, hm⟩)
    · exact ⟨[], List.nil_prefix, by simp, rfl⟩
    · refine ⟨i :: q, List.prefix_cons_iff.mpr (.inr ⟨q, rfl, hq⟩), by simpa using hne, ?_⟩
      rw [nodeAt?_cons_of_child h]
      exact hm

/-- The way down from `n` to the address `p` passes the node `m`, or ends in it. -/
def Passes (n : Node) (p : List Nat) (m : Node) : Prop :=
  ∃ q, q <+: p ∧ q ≠ [] ∧ n.nodeAt? q = some m

theorem not_passes_nil {n m : Node} : ¬ n.Passes [] m := by
  rintro ⟨q, hq, hne, -⟩
  exact hne (List.prefix_nil.mp hq)

theorem passes_cons_iff {n c m : Node} {i : Nat} {p : List Nat} (h : n.children[i]? = some c) :
    n.Passes (i :: p) m ↔ m = c ∨ c.Passes p m := by
  constructor
  · rintro ⟨q, hq, hne, hm⟩
    obtain ⟨q, rfl, hqp⟩ := (List.prefix_cons_iff.mp hq).resolve_left hne
    rw [nodeAt?_cons_of_child h] at hm
    by_cases hnil : q = []
    · subst hnil
      exact .inl (Option.some.inj hm).symm
    · exact .inr ⟨q, hqp, hnil, hm⟩
  · rintro (rfl | ⟨q, hq, hne, hm⟩)
    · refine ⟨[i], List.prefix_cons_iff.mpr (.inr ⟨[], rfl, List.nil_prefix⟩), by simp, ?_⟩
      rw [nodeAt?_cons_of_child h]
      rfl
    · refine ⟨i :: q, List.prefix_cons_iff.mpr (.inr ⟨q, rfl, hq⟩), by simp, ?_⟩
      rw [nodeAt?_cons_of_child h]
      exact hm

/-! ## Preorder -/

mutual

/-- The addresses of a tree, each before those below it and to the right of it. -/
def preorder : Node → List (List Nat)
  | ⟨_, _, _, children, _, _, _, _⟩ => [] :: preorderFrom 0 children

/-- The addresses of a list of subtrees, of which the first is the child with index `i`. -/
def preorderFrom (i : Nat) : List Node → List (List Nat)
  | [] => []
  | c :: cs => (preorder c).map (i :: ·) ++ preorderFrom (i + 1) cs

end

theorem preorder_eq (n : Node) : n.preorder = [] :: preorderFrom 0 n.children := by
  cases n
  rw [preorder]

theorem mem_preorderFrom_iff (cs : List Node) (i j : Nat) (p : List Nat) :
    j :: p ∈ preorderFrom i cs ↔ i ≤ j ∧ ∃ c, cs[j - i]? = some c ∧ p ∈ c.preorder := by
  induction cs generalizing i with
  | nil => simp [preorderFrom]
  | cons c cs ih =>
    rw [preorderFrom, List.mem_append, ih]
    have hhead : j :: p ∈ (preorder c).map (i :: ·) ↔ i = j ∧ p ∈ c.preorder := by
      simp only [List.mem_map, List.cons.injEq]
      constructor
      · rintro ⟨q, hq, rfl, rfl⟩
        exact ⟨rfl, hq⟩
      · rintro ⟨rfl, hp⟩
        exact ⟨p, hp, rfl, rfl⟩
    rw [hhead]
    rcases Nat.lt_trichotomy i j with hij | rfl | hij
    · obtain ⟨k, rfl⟩ : ∃ k, j = i + 1 + k := ⟨j - (i + 1), by omega⟩
      have hk : i + 1 + k - i = k + 1 := by omega
      have hk' : i + 1 + k - (i + 1) = k := by omega
      have hne : i ≠ i + 1 + k := by omega
      have hle : i ≤ i + 1 + k := by omega
      rw [hk, hk', List.getElem?_cons_succ]
      simp [hne, hle]
    · have hlt : ¬ i + 1 ≤ i := by omega
      simp [hlt]
    · have hne : i ≠ j := by omega
      have hlt : ¬ i + 1 ≤ j := by omega
      have hle : ¬ i ≤ j := by omega
      simp [hne, hlt, hle]

theorem nil_not_mem_preorderFrom (cs : List Node) (i : Nat) : [] ∉ preorderFrom i cs := by
  induction cs generalizing i with
  | nil => simp [preorderFrom]
  | cons c cs ih => simp [preorderFrom, ih]

/-- What the children of a node give, one after the other, is read off from the addresses below the
node, if what each child gives is read off from the addresses below that child. -/
theorem flatMap_children_eq {α : Type} {n : Node} {give : Node → List α}
    (readOff : List (List Nat) → List α) (hnil : readOff [] = [])
    (happend : ∀ ps qs, readOff (ps ++ qs) = readOff ps ++ readOff qs)
    (hchild : ∀ i c, n.children[i]? = some c → give c = readOff (c.preorder.map (i :: ·))) :
    n.children.flatMap give = readOff (preorderFrom 0 n.children) := by
  -- The children from some index on, with the addresses that start at this index or behind it.
  have hsuffix : ∀ before cs, n.children = before ++ cs →
      cs.flatMap give = readOff (preorderFrom before.length cs) := by
    intro before cs
    induction cs generalizing before with
    | nil => exact fun _ => hnil.symm
    | cons c cs ih =>
      intro hcs
      have hc : n.children[before.length]? = some c := by simp [hcs]
      have hrest := ih (before ++ [c]) (by simp [hcs])
      rw [List.length_append, List.length_singleton] at hrest
      rw [List.flatMap_cons, hrest, hchild _ c hc, preorderFrom, happend]
  exact hsuffix [] n.children rfl

/-- The preorder lists the addresses at which a tree has a node. -/
theorem mem_preorder_iff {n : Node} {p : List Nat} :
    p ∈ n.preorder ↔ (n.nodeAt? p).isSome = true := by
  induction p generalizing n with
  | nil => simp [preorder_eq]
  | cons i p ih =>
    rw [preorder_eq, List.mem_cons, mem_preorderFrom_iff, nodeAt?_cons]
    cases n.children[i]? with
    | none => simp
    | some c => simp [ih]

/-- The preorder is the lexicographic order of addresses. -/
theorem preorder_sorted (n : Node) : n.preorder.Pairwise (List.Lex (· < ·)) := by
  induction n using induct with
  | node n ih =>
    rw [preorder_eq, List.pairwise_cons]
    refine ⟨fun p hp => ?_, ?_⟩
    · cases p with
      | nil => exact (nil_not_mem_preorderFrom _ _ hp).elim
      | cons i p => exact .nil
    · generalize n.children = cs at ih
      generalize 0 = i
      induction cs generalizing i with
      | nil => exact .nil
      | cons c cs ihcs =>
        rw [preorderFrom, List.pairwise_append]
        refine ⟨?_, ihcs (fun d hd => ih d (by simp [hd])) (i + 1), fun p hp q hq => ?_⟩
        · rw [List.pairwise_map]
          exact (ih c (by simp)).imp .cons
        · obtain ⟨p, -, rfl⟩ := List.mem_map.mp hp
          -- Addresses below later siblings start with a greater index.
          cases q with
          | nil => exact (nil_not_mem_preorderFrom _ _ hq).elim
          | cons j q =>
            have hij := ((mem_preorderFrom_iff _ _ _ _).mp hq).1
            exact .rel (by omega)

end Node

end ScriptModules
