import ScriptModules.Proofs.Tree.Address
import ScriptModules.Tree.Scope

/-!
# The names that nodes bind and hold

The rules of scoping, said without the lists that the analysis computes:

* `Binds`: a pattern binds the name that a node in it spells;
* `Declares`: a declaration introduces a name into the function or program around it;
* `Hoists`: a name reaches the body's function or program from a declaration below it with no
  function in between;
* `Owns`: a function, class expression or catch clause brings names of its own.

Each is tied to its list: `mem_bindings_iff`, `mem_declared_iff`, `mem_hoistedAll_iff`,
`mem_scopeNames?_iff`.
-/

namespace ScriptModules

namespace Node

/-! ## Patterns -/

/-- The pattern binds the name that the second node spells. -/
inductive Binds : Node → Node → Prop
  | name {n : Node}
      (h : n.kind = "identifier" ∨ n.kind = "shorthand_property_identifier_pattern") : Binds n n
  /-- A pattern with a default value. -/
  | default {n c x : Node}
      (h : n.kind = "assignment_pattern" ∨ n.kind = "object_assignment_pattern")
      (hc : n.child? "left" = some c) (hb : Binds c x) : Binds n x
  | pair {n c x : Node} (h : n.kind = "pair_pattern") (hc : n.child? "value" = some c)
      (hb : Binds c x) : Binds n x
  | parts {n c x : Node}
      (h : n.kind = "object_pattern" ∨ n.kind = "array_pattern" ∨ n.kind = "rest_pattern" ∨
        n.kind = "formal_parameters")
      (hc : c ∈ n.namedChildren) (hb : Binds c x) : Binds n x

theorem bindingsInField_eq (f : String) (cs : List Node) : bindingsInField f cs =
    ((cs.find? (·.field = some f)).map bindings).getD [] := by
  induction cs with
  | nil => simp [bindingsInField]
  | cons c cs ih =>
    rw [bindingsInField, List.find?_cons, ih]
    by_cases hc : c.field = some f <;> simp [hc]

theorem bindingsInNamed_eq (cs : List Node) :
    bindingsInNamed cs = (cs.filter (·.named)).flatMap bindings := by
  induction cs with
  | nil => simp [bindingsInNamed]
  | cons c cs ih =>
    rw [bindingsInNamed, List.filter_cons, ih]
    cases c.named <;> simp

/-- The bindings of a pattern, by the kind of the pattern. -/
theorem bindings_eq (n : Node) : n.bindings =
    if ["identifier", "shorthand_property_identifier_pattern"].contains n.kind then [n]
    else if ["assignment_pattern", "object_assignment_pattern"].contains n.kind then
      ((n.child? "left").map bindings).getD []
    else if n.kind = "pair_pattern" then ((n.child? "value").map bindings).getD []
    else if ["object_pattern", "array_pattern", "rest_pattern", "formal_parameters"].contains n.kind
    then n.namedChildren.flatMap bindings
    else [] := by
  cases n
  rw [bindings, bindingsInField_eq, bindingsInField_eq, bindingsInNamed_eq]
  rfl

theorem mem_bindings_of_field {n x : Node} {f : String} :
    x ∈ ((n.child? f).map bindings).getD [] ↔ ∃ c, n.child? f = some c ∧ x ∈ c.bindings := by
  cases n.child? f <;> simp

/-- The bindings of a pattern are the nodes that spell its names. -/
theorem mem_bindings_iff {n x : Node} : x ∈ n.bindings ↔ n.Binds x := by
  constructor
  · intro h
    induction n using induct with
    | node n ih =>
      rw [bindings_eq] at h
      split at h
      · next hk =>
        rw [List.mem_singleton.mp h]
        exact .name (by simpa using hk)
      · split at h
        · next hk =>
          obtain ⟨c, hc, hx⟩ := mem_bindings_of_field.mp h
          exact .default (by simpa using hk) hc (ih c (mem_children_of_child? hc) hx)
        · split at h
          · next hk =>
            obtain ⟨c, hc, hx⟩ := mem_bindings_of_field.mp h
            exact .pair hk hc (ih c (mem_children_of_child? hc) hx)
          · split at h
            · next hk =>
              obtain ⟨c, hc, hx⟩ := List.mem_flatMap.mp h
              exact .parts (by simpa using hk) hc (ih c (List.mem_filter.mp hc).1 hx)
            · cases h
  · intro h
    induction h with
    | name h =>
      rw [bindings_eq]
      rcases h with h | h <;> simp [h]
    | default h hc _ ih =>
      rw [bindings_eq]
      rcases h with h | h <;> simp [h, hc, ih]
    | pair h hc _ ih =>
      rw [bindings_eq]
      simp [h, hc, ih]
    | @parts n c x h hc _ ih =>
      have hx : x ∈ n.namedChildren.flatMap bindings := List.mem_flatMap.mpr ⟨c, hc, ih⟩
      rw [bindings_eq]
      rcases h with h | h | h | h <;> simpa [h] using hx

theorem Binds.within {n x : Node} (h : n.Binds x) : n.Within x := by
  induction h with
  | name _ => exact .refl _
  | default _ hc _ ih => exact (Within.child (mem_children_of_child? hc)).trans ih
  | pair _ hc _ ih => exact (Within.child (mem_children_of_child? hc)).trans ih
  | parts _ hc _ ih => exact (Within.child (List.mem_filter.mp hc).1).trans ih

/-! ## Declarations -/

/-- The node introduces, into the function or program around it, the name that the second node
spells. -/
inductive Declares (n : Node) : Node → Prop
  | function {x : Node} (h : n.isDeclaredFunction = true) (hx : n.child? "name" = some x) :
      Declares n x
  | className {x : Node} (h : n.kind = "class_declaration") (hx : n.child? "name" = some x) :
      Declares n x
  | declarator {d target x : Node}
      (h : n.kind = "variable_declaration" ∨ n.kind = "lexical_declaration")
      (hd : d ∈ n.namedChildren) (hk : d.kind = "variable_declarator")
      (ht : d.child? "name" = some target) (hb : target.Binds x) : Declares n x
  /-- The head of a loop over keys or items, with a keyword. -/
  | head {k target x : Node} (h : n.kind = "for_in_statement") (hk : n.child? "kind" = some k)
      (ht : n.child? "left" = some target) (hb : target.Binds x) : Declares n x

theorem mem_declarators_iff {n x : Node} : x ∈ n.declarators ↔ ∃ d ∈ n.namedChildren,
    d.kind = "variable_declarator" ∧ ∃ target, d.child? "name" = some target ∧ target.Binds x := by
  simp only [declarators, List.mem_flatMap]
  refine exists_congr fun d => and_congr_right fun _ => ?_
  split
  · next hk =>
    cases d.child? "name" with
    | none => simp
    | some target => simp [hk, mem_bindings_iff]
  · next hk => simp [hk]

/-- What is listed as declared at a node is introduced there, and a keyword that is spelled out
stands in the field for it. -/
theorem declares_of_mem_declared {n : Node} {d : Declaration} (hd : d ∈ n.declared) :
    n.Declares d.name ∧ ∀ k, d.keyword = .spelled k → n.child? "kind" = some k := by
  unfold declared at hd
  split at hd
  · next hk =>
    obtain ⟨a, ha, rfl⟩ := by simpa using hd
    exact ⟨.function hk ha, nofun⟩
  · split at hd
    · next hk =>
      obtain ⟨a, ha, rfl⟩ := by simpa using hd
      exact ⟨.className hk ha, nofun⟩
    · split at hd
      · next hk =>
        obtain ⟨a, ha, rfl⟩ := List.mem_map.mp hd
        obtain ⟨e, he, hek, target, ht, hb⟩ := mem_declarators_iff.mp ha
        exact ⟨.declarator (.inl hk) he hek ht hb, nofun⟩
      · split at hd
        · next hk =>
          obtain ⟨a, ha, rfl⟩ := List.mem_map.mp hd
          obtain ⟨e, he, hek, target, ht, hb⟩ := mem_declarators_iff.mp ha
          refine ⟨.declarator (.inr hk) he hek ht hb, fun k hword => ?_⟩
          cases hkind : n.child? "kind" with
          | none => simp [hkind] at hword
          | some k' => simpa [hkind] using hword
        · split at hd
          · next hk =>
            split at hd
            · next k target hkind hleft =>
              obtain ⟨a, ha, rfl⟩ := List.mem_map.mp hd
              refine ⟨.head hk hkind hleft (mem_bindings_iff.mp ha), fun k' hword => ?_⟩
              cases hword
              exact hkind
            · cases hd
          · cases hd

/-- The declared names of a node are those that it introduces. -/
theorem mem_declared_iff {n x : Node} : (∃ d ∈ n.declared, d.name = x) ↔ n.Declares x := by
  constructor
  · rintro ⟨d, hd, rfl⟩
    exact (declares_of_mem_declared hd).1
  · intro h
    unfold declared
    cases h with
    | function h hx => exact ⟨⟨x, .fixed "function"⟩, by simp [h, hx], rfl⟩
    | className h hx => exact ⟨⟨x, .fixed "class"⟩, by simp [isDeclaredFunction, h, hx], rfl⟩
    | declarator h hd hk ht hb =>
      have hx := mem_declarators_iff.mpr ⟨_, hd, hk, _, ht, hb⟩
      rcases h with h | h
      · exact ⟨⟨x, .fixed "var"⟩, by simp [isDeclaredFunction, h, hx], rfl⟩
      · cases n.child? "kind" with
        | none => exact ⟨⟨x, .fixed "let"⟩, by simp [isDeclaredFunction, h, hx], rfl⟩
        | some k => exact ⟨⟨x, .spelled k⟩, by simp [isDeclaredFunction, h, hx], rfl⟩
    | @head k target _ h hk ht hb =>
      have hx := mem_bindings_iff.mpr hb
      exact ⟨⟨x, .spelled k⟩, by simp [isDeclaredFunction, h, hk, ht, hx], rfl⟩

theorem Declares.within {n x : Node} (h : n.Declares x) : n.Within x := by
  cases h with
  | function _ hx => exact .child (mem_children_of_child? hx)
  | className _ hx => exact .child (mem_children_of_child? hx)
  | declarator _ hd _ ht hb =>
    have hchild : n.Within _ := .child (List.mem_filter.mp hd).1
    exact (hchild.trans (.child (mem_children_of_child? ht))).trans hb.within
  | head _ _ ht hb => exact (Within.child (mem_children_of_child? ht)).trans hb.within

/-- A declaration below the node introduces the name that `x` spells, and no function stands
between the two. -/
def Hoists (n x : Node) : Prop :=
  ∃ c ∈ n.children, ∃ p d, c.nodeAt? p = some d ∧ d.Declares x ∧
    ∀ m, c.Above p m → m.isFunction = false

theorem hoisted_eq (n : Node) :
    n.hoisted = n.declared ++ if n.isFunction then [] else hoistedAll n.children := by
  cases n
  rw [hoisted]

theorem hoistedAll_eq (cs : List Node) : hoistedAll cs = cs.flatMap hoisted := by
  induction cs with
  | nil => simp [hoistedAll]
  | cons c cs ih => simp [hoistedAll, ih]

theorem mem_hoisted_iff {n x : Node} : (∃ d ∈ n.hoisted, d.name = x) ↔
    ∃ p d, n.nodeAt? p = some d ∧ d.Declares x ∧ ∀ m, n.Above p m → m.isFunction = false := by
  induction n using induct with
  | node n ih =>
    rw [hoisted_eq, hoistedAll_eq]
    constructor
    · rintro ⟨e, he, rfl⟩
      rcases List.mem_append.mp he with he | he
      · exact ⟨[], n, rfl, mem_declared_iff.mp ⟨e, he, rfl⟩, fun m hm => (not_above_nil hm).elim⟩
      · split at he
        · cases he
        · next hf =>
          obtain ⟨c, hc, hec⟩ := List.mem_flatMap.mp he
          obtain ⟨p, d, hp, hd, hm⟩ := (ih c hc).mp ⟨e, hec, rfl⟩
          obtain ⟨i, hi⟩ := List.getElem?_of_mem hc
          refine ⟨i :: p, d, by rw [nodeAt?_cons_of_child hi, hp], hd, fun m ha => ?_⟩
          rcases (above_cons_iff hi).mp ha with rfl | ha
          · simpa using hf
          · exact hm m ha
    · rintro ⟨p, d, hp, hd, hm⟩
      cases p with
      | nil =>
        cases hp
        obtain ⟨e, he, hx⟩ := mem_declared_iff.mpr hd
        exact ⟨e, by simp [he], hx⟩
      | cons i p =>
        obtain ⟨c, hi, hp⟩ := exists_child_of_nodeAt? hp
        have hc := List.mem_of_getElem? hi
        have hf : n.isFunction = false := hm n ((above_cons_iff hi).mpr (.inl rfl))
        obtain ⟨e, he, hx⟩ := (ih c hc).mpr
          ⟨p, d, hp, hd, fun m ha => hm m ((above_cons_iff hi).mpr (.inr ha))⟩
        refine ⟨e, List.mem_append_right _ ?_, hx⟩
        rw [hf]
        exact List.mem_flatMap.mpr ⟨c, hc, he⟩

/-- The names hoisted out of the children of a node are those that reach it from below. -/
theorem mem_hoistedAll_iff {n x : Node} :
    (∃ d ∈ hoistedAll n.children, d.name = x) ↔ n.Hoists x := by
  rw [hoistedAll_eq]
  simp only [List.mem_flatMap]
  constructor
  · rintro ⟨e, ⟨c, hc, he⟩, hx⟩
    exact ⟨c, hc, mem_hoisted_iff.mp ⟨e, he, hx⟩⟩
  · rintro ⟨c, hc, h⟩
    obtain ⟨e, he, hx⟩ := mem_hoisted_iff.mpr h
    exact ⟨e, ⟨c, hc, he⟩, hx⟩

/-! ## Scopes -/

/-- A function, class expression or catch clause brings the name by itself. -/
inductive Owns (text : Node → String) (n : Node) : String → Prop
  | parameter {ps x : Node} (h : n.isFunction = true) (hp : n.parameters? = some ps)
      (hb : ps.Binds x) : Owns text n (text x)
  /-- The own name of a function expression. -/
  | self {x : Node} (h : n.isFunction = true) (hs : n.isSelfNamed = true)
      (hx : n.child? "name" = some x) : Owns text n (text x)
  | arguments (h : n.isFunction = true) (ha : n.kind ≠ "arrow_function") : Owns text n "arguments"
  /-- The own name of a class expression. -/
  | className {x : Node} (h : n.kind = "class") (hx : n.child? "name" = some x) :
      Owns text n (text x)
  | caught {ps x : Node} (h : n.kind = "catch_clause") (hp : n.child? "parameter" = some ps)
      (hb : ps.Binds x) : Owns text n (text x)

/-- A declaration below the node introduces the name into it. -/
def HoistsName (text : Node → String) (n : Node) (name : String) : Prop :=
  ∃ x, n.Hoists x ∧ text x = name

/-- The node is a scope that holds the name: it brings it, or is a function into which it is
hoisted. -/
def Holds (text : Node → String) (n : Node) (name : String) : Prop :=
  n.Owns text name ∨ (n.isFunction = true ∧ n.HoistsName text name)

variable {text : Node → String} {n x : Node} {name : String}

theorem mem_map_hoistedAll_iff :
    name ∈ (hoistedAll n.children).map (fun d => text d.name) ↔ n.HoistsName text name := by
  rw [List.mem_map]
  constructor
  · rintro ⟨d, hd, rfl⟩
    exact ⟨d.name, mem_hoistedAll_iff.mp ⟨d, hd, rfl⟩, rfl⟩
  · rintro ⟨x, hx, rfl⟩
    obtain ⟨d, hd, rfl⟩ := mem_hoistedAll_iff.mpr hx
    exact ⟨d, hd, rfl⟩

theorem mem_ownNames_function (h : n.isFunction = true) : x ∈ n.ownNames?.getD [] ↔
    (∃ ps, n.parameters? = some ps ∧ ps.Binds x) ∨
      (n.isSelfNamed = true ∧ n.child? "name" = some x) := by
  have hparams : x ∈ (n.parameters?.map bindings).getD [] ↔
      ∃ ps, n.parameters? = some ps ∧ ps.Binds x := by
    cases n.parameters? <;> simp [mem_bindings_iff]
  have hself : x ∈ (if n.isSelfNamed then (n.child? "name").toList else []) ↔
      n.isSelfNamed = true ∧ n.child? "name" = some x := by
    split <;> simp_all
  simp only [ownNames?, h, if_true, Option.getD_some, List.mem_append, hparams, hself]

theorem mem_ownNames_of_not_function (h : n.isFunction = false) : x ∈ n.ownNames?.getD [] ↔
    (n.kind = "class" ∧ n.child? "name" = some x) ∨
      (n.kind = "catch_clause" ∧ ∃ ps, n.child? "parameter" = some ps ∧ ps.Binds x) := by
  simp only [ownNames?, h, Bool.false_eq_true, if_false]
  by_cases hclass : n.kind = "class"
  · cases n.child? "name" <;> simp [hclass, eq_comm]
  · by_cases hcatch : n.kind = "catch_clause"
    · cases n.child? "parameter" <;> simp [hcatch, mem_bindings_iff]
    · simp [hclass, hcatch]

theorem mem_scopeNames?_split : name ∈ (n.scopeNames? text).getD [] ↔
    (∃ x ∈ n.ownNames?.getD [], text x = name) ∨ (n.isFunction = true ∧
      ((n.kind ≠ "arrow_function" ∧ name = "arguments") ∨ n.HoistsName text name)) := by
  unfold scopeNames?
  cases hown : n.ownNames? with
  | none =>
    have hf : ¬ n.isFunction = true := fun hf => by simp [ownNames?, hf] at hown
    simp [hf]
  | some own =>
    rw [Option.map_some, Option.getD_some, Option.getD_some, List.mem_append, List.mem_map]
    refine or_congr_right ?_
    split
    · next hf =>
      rw [List.mem_append, mem_map_hoistedAll_iff]
      by_cases ha : n.kind = "arrow_function" <;> simp [hf, ha]
    · next hf => simp [hf]

/-- The names of a scope are those that it holds. -/
theorem mem_scopeNames?_iff : name ∈ (n.scopeNames? text).getD [] ↔ n.Holds text name := by
  rw [mem_scopeNames?_split]
  constructor
  · rintro (⟨x, hx, rfl⟩ | ⟨hf, ⟨ha, rfl⟩ | h⟩)
    · by_cases hf : n.isFunction = true
      · rcases (mem_ownNames_function hf).mp hx with ⟨ps, hp, hb⟩ | ⟨hs, hx⟩
        · exact .inl (.parameter hf hp hb)
        · exact .inl (.self hf hs hx)
      · rw [Bool.not_eq_true] at hf
        rcases (mem_ownNames_of_not_function hf).mp hx with ⟨hk, hx⟩ | ⟨hk, ps, hp, hb⟩
        · exact .inl (.className hk hx)
        · exact .inl (.caught hk hp hb)
    · exact .inl (.arguments hf ha)
    · exact .inr ⟨hf, h⟩
  · rintro (h | ⟨hf, h⟩)
    · cases h with
      | parameter hf hp hb =>
        exact .inl ⟨_, (mem_ownNames_function hf).mpr (.inl ⟨_, hp, hb⟩), rfl⟩
      | self hf hs hx => exact .inl ⟨_, (mem_ownNames_function hf).mpr (.inr ⟨hs, hx⟩), rfl⟩
      | arguments hf ha => exact .inr ⟨hf, .inl ⟨ha, rfl⟩⟩
      | className hk hx =>
        have hf : n.isFunction = false := by simp [isFunction, hk]
        exact .inl ⟨_, (mem_ownNames_of_not_function hf).mpr (.inl ⟨hk, hx⟩), rfl⟩
      | caught hk hp hb =>
        have hf : n.isFunction = false := by simp [isFunction, hk]
        exact .inl ⟨_, (mem_ownNames_of_not_function hf).mpr (.inr ⟨hk, _, hp, hb⟩), rfl⟩
    · exact .inr ⟨hf, .inr h⟩

end Node

end ScriptModules
