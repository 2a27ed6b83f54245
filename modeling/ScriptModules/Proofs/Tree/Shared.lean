import Mathlib.Data.List.Lex
import ScriptModules.Proofs.Tree.Report
import ScriptModules.Script.Parse

/-!
# The names that a script shares

A name is shared with the other scripts when it is declared at program level by `var` or as a
function. The program keeps one word for each name, the one of its first declaration, and a
declaration by `let`, `const` or `class` may stand at program level too, deep in a block. So a name
is shared exactly when a declaration by `var` or as a function comes before every other declaration
of it (`mem_declarations_iff`); `blocked` is a script whose `var` comes too late.

Declarations are told apart by their addresses, whose order is the order in which the program meets
them: `hoistedAll_eq_preorder` lists them so.
-/

namespace ScriptModules

namespace Node

/-- The word by which a node declares names: the keyword that it spells, unless its kind tells. -/
def declarationWord (text : Node → String) (n : Node) : String :=
  if n.isDeclaredFunction then "function"
  else if n.kind = "class_declaration" then "class"
  else if n.kind = "variable_declaration" then "var"
  else ((n.child? "kind").map text).getD "let"

/-- At the address `p` below the root stands the node `d`, and no function stands between the
two. -/
def InProgram (root : Node) (p : List Nat) (d : Node) : Prop :=
  p ≠ [] ∧ root.nodeAt? p = some d ∧
    ∀ q m, q <+: p → q ≠ [] → q ≠ p → root.nodeAt? q = some m → m.isFunction = false

/-- At the address `p` the name is declared by the word, at program level. -/
def DeclaredAt (text : Node → String) (root : Node) (p : List Nat) (word name : String) : Prop :=
  ∃ d x, root.InProgram p d ∧ d.Declares x ∧ text x = name ∧ d.declarationWord text = word

/-- Is the way down from the node to the address free of functions in between? -/
def isOpen : Node → List Nat → Bool
  | _, [] => true
  | n, i :: p => n.children[i]?.any fun c => (p = [] || !c.isFunction) && c.isOpen p

/-- What the node at an address declares. -/
def declaredAt (n : Node) (p : List Nat) : List Declaration :=
  ((n.nodeAt? p).map declared).getD []

variable {text : Node → String} {n c root : Node} {i : Nat} {p : List Nat} {word name : String}

/-! ## Words -/

theorem word_of_mem_declared {d : Declaration} (hd : d ∈ n.declared) :
    d.keyword.word text = n.declarationWord text := by
  unfold declared at hd
  split_ifs at hd with hfun hclass hvar hlexical hloop
  · obtain ⟨x, -, rfl⟩ := by simpa using hd
    simp [declarationWord, hfun, Keyword.word]
  · obtain ⟨x, -, rfl⟩ := by simpa using hd
    simp [declarationWord, hfun, hclass, Keyword.word]
  · obtain ⟨x, -, rfl⟩ := List.mem_map.mp hd
    simp [declarationWord, hfun, hvar, Keyword.word]
  · obtain ⟨x, -, rfl⟩ := List.mem_map.mp hd
    cases hkind : n.child? "kind" with
    | none => simp [declarationWord, hfun, hlexical, hkind, Keyword.word]
    | some k => simp [declarationWord, hfun, hlexical, hkind, Keyword.word]
  · split at hd
    · next hkind _ =>
      obtain ⟨x, -, rfl⟩ := List.mem_map.mp hd
      simp [declarationWord, hfun, hloop, hkind, Keyword.word]
    · cases hd
  · cases hd

/-! ## Declarations by address -/

theorem isOpen_cons (h : n.children[i]? = some c) :
    n.isOpen (i :: p) = ((p = [] || !c.isFunction) && c.isOpen p) := by
  rw [isOpen, h]
  rfl

theorem declaredAt_cons (h : n.children[i]? = some c) :
    n.declaredAt (i :: p) = c.declaredAt p := by
  rw [declaredAt, nodeAt?_cons_of_child h, declaredAt]

/-- What a child hands up, by the addresses below its parent. -/
theorem hoisted_eq_preorder (h : n.children[i]? = some c)
    (ih : hoistedAll c.children =
      ((preorderFrom 0 c.children).filter c.isOpen).flatMap c.declaredAt) :
    c.hoisted = ((c.preorder.map (i :: ·)).filter n.isOpen).flatMap n.declaredAt := by
  have hopen : (n.isOpen ∘ fun p => i :: p) =
      fun p => (p = [] || !c.isFunction) && c.isOpen p := funext fun p => isOpen_cons h
  have hdeclared : (fun p => n.declaredAt (i :: p)) = c.declaredAt :=
    funext fun p => declaredAt_cons h
  -- Below the child, its own kind decides whether anything reaches the parent.
  have hbelow : (preorderFrom 0 c.children).filter
      (fun p => (p = [] || !c.isFunction) && c.isOpen p) =
        if c.isFunction then [] else (preorderFrom 0 c.children).filter c.isOpen := by
    have hne : ∀ p ∈ preorderFrom 0 c.children, decide (p = []) = false := by
      intro p hp
      simpa using fun e : p = [] => nil_not_mem_preorderFrom _ _ (e ▸ hp)
    split
    · next hf =>
      rw [List.filter_eq_nil_iff]
      intro p hp
      simp [hne p hp, hf]
    · next hf =>
      refine List.filter_congr fun p hp => ?_
      simp [hf]
  rw [List.filter_map, List.flatMap_map, hopen, hdeclared, preorder_eq, List.filter_cons_of_pos rfl,
    List.flatMap_cons, hbelow, hoisted_eq, ih]
  split <;> rfl

/-- The declarations that reach a node from below come in the order of their addresses. -/
theorem hoistedAll_eq_preorder (n : Node) : hoistedAll n.children =
    ((preorderFrom 0 n.children).filter n.isOpen).flatMap n.declaredAt := by
  induction n using induct with
  | node n ih =>
    rw [hoistedAll_eq]
    refine flatMap_children_eq (fun ps => (ps.filter n.isOpen).flatMap n.declaredAt) rfl
      (fun ps qs => ?_) fun i c hc => ?_
    · rw [List.filter_append, List.flatMap_append]
    · exact hoisted_eq_preorder hc (ih c (List.mem_of_getElem? hc))

theorem isOpen_iff {d : Node} (h : n.nodeAt? p = some d) : n.isOpen p = true ↔
    ∀ q m, q <+: p → q ≠ [] → q ≠ p → n.nodeAt? q = some m → m.isFunction = false := by
  induction p generalizing n with
  | nil =>
    refine iff_of_true rfl fun q m hq hne => ?_
    exact (hne (List.prefix_nil.mp hq)).elim
  | cons i p ih =>
    obtain ⟨c, hc, h⟩ := exists_child_of_nodeAt? h
    rw [isOpen_cons hc, Bool.and_eq_true, ih h]
    constructor
    · rintro ⟨hfirst, hrest⟩ q m hq hne hqp hm
      obtain ⟨q, rfl, hpre⟩ := (List.prefix_cons_iff.mp hq).resolve_left hne
      have hqp : q ≠ p := fun e => hqp (by rw [e])
      rw [nodeAt?_cons_of_child hc] at hm
      by_cases hnil : q = []
      · subst hnil
        cases hm
        simpa [hqp.symm] using hfirst
      · exact hrest q m hpre hnil hqp hm
    · intro hall
      constructor
      · by_cases hnil : p = []
        · simp [hnil]
        · have hcut : [i] <+: i :: p := List.prefix_cons_iff.mpr (.inr ⟨[], rfl, List.nil_prefix⟩)
          have hcf := hall [i] c hcut (by simp) (by simpa using Ne.symm hnil)
            (by rw [nodeAt?_cons_of_child hc]; rfl)
          simp [hcf]
      · intro q m hq hne hqp hm
        refine hall (i :: q) m (List.prefix_cons_iff.mpr (.inr ⟨q, rfl, hq⟩)) (by simp)
          (by simpa using hqp) ?_
        rw [nodeAt?_cons_of_child hc]
        exact hm

theorem mem_open_iff : p ∈ (preorderFrom 0 root.children).filter root.isOpen ↔
    ∃ d, root.InProgram p d := by
  have hmem : p ∈ preorderFrom 0 root.children ↔ p ≠ [] ∧ ∃ d, root.nodeAt? p = some d := by
    rw [← Option.isSome_iff_exists, ← mem_preorder_iff, preorder_eq, List.mem_cons]
    constructor
    · intro hp
      exact ⟨fun e => nil_not_mem_preorderFrom _ _ (e ▸ hp), .inr hp⟩
    · rintro ⟨hne, hp⟩
      exact hp.resolve_left hne
  rw [List.mem_filter, hmem]
  constructor
  · rintro ⟨⟨hne, d, hd⟩, hopen⟩
    exact ⟨d, hne, hd, (isOpen_iff hd).mp hopen⟩
  · rintro ⟨d, hne, hd, hbetween⟩
    exact ⟨⟨hne, d, hd⟩, (isOpen_iff hd).mpr hbetween⟩

theorem InProgram.declaredAt_eq {d : Node} (h : root.InProgram p d) :
    root.declaredAt p = d.declared := by
  rw [declaredAt, h.2.1]
  rfl

/-! ## The first declaration of a name -/

/-- Does the declaration introduce the name? -/
def introduces (text : Node → String) (name : String) (d : Declaration) : Bool :=
  text d.name == name

/-- What is declared at an address is found among the declarations there. -/
theorem DeclaredAt.find?_ne_none (h : DeclaredAt text root p word name) :
    (root.declaredAt p).find? (introduces text name) ≠ none := by
  obtain ⟨d, x, hp, hx, rfl, -⟩ := h
  obtain ⟨e, he, rfl⟩ := mem_declared_iff.mpr hx
  rw [hp.declaredAt_eq, Ne, List.find?_eq_none, not_forall]
  exact ⟨e, by simp [he, introduces]⟩

/-- The first declaration that introduces a name stands before all others of the name. -/
theorem exists_first_of_find? {e : Declaration}
    (h : (hoistedAll root.children).find? (introduces text name) = some e) :
    ∃ p, DeclaredAt text root p (e.keyword.word text) name ∧
      ∀ q w, DeclaredAt text root q w name → q = p ∨ List.Lex (· < ·) p q := by
  rw [hoistedAll_eq_preorder, List.find?_flatMap, List.findSome?_eq_some_iff] at h
  obtain ⟨before, p, after, hlist, hfind, hnone⟩ := h
  have hsorted : (before ++ p :: after).Pairwise (List.Lex (· < ·)) := by
    rw [← hlist]
    have hall := root.preorder_sorted
    rw [preorder_eq] at hall
    exact hall.of_cons.filter _
  have hmem : ∀ {q}, q ∈ before ++ p :: after ↔ ∃ d, root.InProgram q d := by
    intro q
    rw [← hlist]
    exact mem_open_iff
  obtain ⟨d, hp⟩ := hmem.mp (by simp : p ∈ before ++ p :: after)
  refine ⟨p, ⟨d, e.name, hp, ?_⟩, fun q w hq => ?_⟩
  · have he : e ∈ d.declared := hp.declaredAt_eq ▸ List.mem_of_find?_eq_some hfind
    have hname : text e.name = name := by simpa [introduces] using List.find?_some hfind
    exact ⟨mem_declared_iff.mp ⟨e, he, rfl⟩, hname, (word_of_mem_declared he).symm⟩
  · have hqmem : q ∈ before ++ p :: after := hmem.mpr (hq.imp fun _ ⟨_, h, _⟩ => h)
    rcases List.mem_append.mp hqmem with hbefore | hrest
    · exact (hq.find?_ne_none (hnone q hbefore)).elim
    · rcases List.mem_cons.mp hrest with rfl | hafter
      · exact .inl rfl
      · exact .inr (List.rel_of_pairwise_cons (List.pairwise_append.mp hsorted).2.1 hafter)

theorem DeclaredAt.exists_find? (h : DeclaredAt text root p word name) :
    ∃ e, (hoistedAll root.children).find? (introduces text name) = some e := by
  rw [← Option.ne_none_iff_exists', hoistedAll_eq_preorder, List.find?_flatMap, Ne,
    List.findSome?_eq_none_iff, not_forall]
  refine ⟨p, fun hnone => h.find?_ne_none (hnone (mem_open_iff.mpr ?_))⟩
  exact h.imp fun _ ⟨_, h, _⟩ => h

/-- Two declarations at one address have one word. -/
theorem DeclaredAt.word_eq {w : String} {other : String} (h : DeclaredAt text root p word name)
    (h' : DeclaredAt text root p w other) : w = word := by
  obtain ⟨d, -, hp, -, -, rfl⟩ := h
  obtain ⟨d', -, hp', -, -, rfl⟩ := h'
  obtain rfl : d = d' := Option.some.inj (hp.2.1.symm.trans hp'.2.1)
  rfl

end Node

namespace Scope

open Node

variable {text : Node → String} {root : Node} {name : String}

/-- The program keeps a name with the word of its first declaration. -/
theorem mem_programNames_find? {word : String} : (name, word) ∈ programNames text root ↔
    ∃ e, (hoistedAll root.children).find? (introduces text name) = some e ∧
      e.keyword.word text = word := by
  -- The group of a name holds its declarations in order, so the first of them leads it.
  have hhead : ∀ {k e}, (hoistedAll root.children).find? (introduces text k) = some e →
      ((hoistedAll root.children).filter fun d => text d.name == k).head? = some e :=
    fun h => List.head?_filter.trans h
  rw [programNames, List.mem_map]
  constructor
  · rintro ⟨⟨k, ds⟩, hg, hword⟩
    obtain ⟨hname, rfl⟩ := mem_groupBy_iff.mp hg
    obtain ⟨rfl, rfl⟩ := Prod.mk.inj hword
    obtain ⟨d, hd, hk⟩ := List.mem_map.mp hname
    obtain ⟨e, he⟩ : ∃ e, (hoistedAll root.children).find? (introduces text k) = some e := by
      rw [← Option.isSome_iff_exists, List.find?_isSome]
      exact ⟨d, hd, by simp [introduces, hk]⟩
    refine ⟨e, he, ?_⟩
    rw [hhead he]
    rfl
  · rintro ⟨e, he, rfl⟩
    have hname : text e.name = name := by simpa [introduces] using List.find?_some he
    refine ⟨(name, _), mem_groupBy_iff.mpr ⟨?_, rfl⟩, ?_⟩
    · exact List.mem_map.mpr ⟨e, List.mem_of_find?_eq_some he, hname⟩
    · rw [hhead he]
      rfl

/-- The declarations of a script are the names whose first declaration shares them. -/
theorem mem_declarations_find? : name ∈ (analyze text root).declarations ↔
    ∃ e, (hoistedAll root.children).find? (introduces text name) = some e ∧
      isShared (e.keyword.word text) = true := by
  have hmem : name ∈ (analyze text root).declarations ↔
      ∃ word, (name, word) ∈ programNames text root ∧ isShared word = true := by
    simp [analyze]
  rw [hmem]
  constructor
  · rintro ⟨word, hword, hshared⟩
    obtain ⟨e, he, rfl⟩ := mem_programNames_find?.mp hword
    exact ⟨e, he, hshared⟩
  · rintro ⟨e, he, hshared⟩
    exact ⟨_, mem_programNames_find?.mpr ⟨e, he, rfl⟩, hshared⟩

/-- A name is shared when it is declared at program level by `var` or as a function, before every
other declaration of it. -/
theorem mem_declarations_iff : name ∈ (analyze text root).declarations ↔
    ∃ p word, DeclaredAt text root p word name ∧ isShared word = true ∧
      ∀ q w, DeclaredAt text root q w name → isShared w = false → List.Lex (· < ·) p q := by
  rw [mem_declarations_find?]
  constructor
  · rintro ⟨e, hfind, hshared⟩
    obtain ⟨p, hp, hfirst⟩ := exists_first_of_find? hfind
    refine ⟨p, _, hp, hshared, fun q w hq hw => (hfirst q w hq).resolve_left ?_⟩
    rintro rfl
    rw [hp.word_eq hq, hshared] at hw
    cases hw
  · rintro ⟨p, word, hp, hshared, hbefore⟩
    obtain ⟨e, hfind⟩ := hp.exists_find?
    obtain ⟨q, hq, hfirst⟩ := exists_first_of_find? hfind
    refine ⟨e, hfind, ?_⟩
    -- Were the first declaration another one, it would stand both before and behind `p`.
    by_contra hother
    rw [Bool.not_eq_true] at hother
    have hpq := hbefore q _ hq hother
    rcases hfirst p word hp with rfl | hqp
    · rw [hq.word_eq hp] at hshared
      rw [hshared] at hother
      cases hother
    · exact Std.Asymm.asymm _ _ hpq hqp

/-! ## The declarations of a script -/

/-- What the declarations at a node depend on is read wherever the node stands. -/
theorem mem_spellings_of_declared {n d x : Node} {p : List Nat} {used : Bool}
    (hd : n.nodeAt? p = some d) (hx : x ∈ declarationSpellings d) : x ∈ spellings used n := by
  induction p generalizing n used with
  | nil =>
    cases hd
    rw [spellings_eq]
    simp [hx]
  | cons i p ih =>
    obtain ⟨c, hc, hd⟩ := exists_child_of_nodeAt? hd
    rw [spellings_eq]
    exact List.mem_append_right _ (List.mem_flatMap.mpr ⟨c, List.mem_of_getElem? hc, ih hd⟩)

theorem mem_readNodes_of_declared {d x : Node} {p : List Nat} (hd : root.InProgram p d)
    (hx : x ∈ declarationSpellings d) : x ∈ readNodes root := by
  obtain ⟨hne, hd, -⟩ := hd
  obtain ⟨i, p, rfl⟩ := List.exists_cons_of_ne_nil hne
  obtain ⟨c, hc, hd⟩ := exists_child_of_nodeAt? hd
  rw [readNodes, spellingsAll_eq]
  exact List.mem_append_right _
    (List.mem_flatMap.mpr ⟨c, List.mem_of_getElem? hc, mem_spellings_of_declared hd hx⟩)

/-- The declarations of a script are the names that it declares at program level by `var` or as
functions, before every other declaration of the name, unless the text of some node of the tree is
not UTF-8. Names and keywords are what their bytes spell. -/
theorem ofSource_declarations (source : ByteArray) (root : Node) :
    match ofSource source root with
    | .ok a =>
        (∀ name, name ∈ a.declarations ↔
          ∃ p word, DeclaredAt (textOf source) root p word name ∧ isShared word = true ∧
            ∀ q w, DeclaredAt (textOf source) root q w name → isShared w = false →
              List.Lex (· < ·) p q) ∧
        ∀ p d x, root.InProgram p d → x ∈ declarationSpellings d →
          Utf8.decode (x.bytes source) = .ok (textOf source x)
    | .error e => ∃ p n, root.nodeAt? p = some n ∧ Utf8.decode (n.bytes source) = .error e := by
  rw [ofSource_eq]
  cases h : texts source (readNodes root) with
  | ok ts =>
    refine ⟨fun name => mem_declarations_iff, fun p d x hd hx => ?_⟩
    exact decode_of_texts h (mem_readNodes_of_declared hd hx)
  | error e => exact exists_error_of_readNodes h

/-- A declarator without a value, for the name at the offset. -/
def declarator (start : Nat) : Node :=
  ⟨"variable_declarator", start, start + 1,
    [⟨"identifier", start, start + 1, [], some "name", true, false, false⟩],
    none, true, false, false⟩

/-- A block with a `let`. -/
def lexicalBlock : Node :=
  ⟨"statement_block", 0, 7,
    [⟨"lexical_declaration", 1, 6,
      [⟨"let", 1, 4, [], some "kind", false, false, false⟩, declarator 5],
      none, true, false, false⟩],
    none, true, false, false⟩

/-- A declaration by `var`. -/
def lateVar : Node :=
  ⟨"variable_declaration", 7, 12, [declarator 11], none, true, false, false⟩

/-- A script in which a `let` in a block comes before the `var` of its name. -/
def blockedText : String := "\x7blet x\x7dvar x"

/-- The tree of `blockedText`. -/
def blocked : Node := ⟨"program", 0, 12, [lexicalBlock, lateVar], none, true, false, false⟩

/-- A name that is declared at program level by `var` need not be shared. -/
theorem var_behind_let_dropped : Script.parse blockedText.toUTF8 = .ok blocked ∧
    ¬ match ofSource blockedText.toUTF8 blocked with
      | .ok a => ∀ name, name ∈ a.declarations ↔ ∃ p word,
          DeclaredAt (textOf blockedText.toUTF8) blocked p word name ∧ isShared word = true
      | .error e => ∃ p n, blocked.nodeAt? p = some n ∧
          Utf8.decode (n.bytes blockedText.toUTF8) = .error e := by
  refine ⟨rfl, ?_⟩
  have hrun : ofSource blockedText.toUTF8 blocked = .ok ⟨[], []⟩ := by decide +kernel
  rw [hrun]
  intro hall
  have hplace : blocked.InProgram [1] lateVar := by
    refine ⟨by simp, rfl, fun q m hq hne hother => ?_⟩
    obtain ⟨q, rfl, hnil⟩ := (List.prefix_cons_iff.mp hq).resolve_left hne
    rw [List.prefix_nil.mp hnil] at hother
    exact (hother rfl).elim
  have hdeclares : lateVar.Declares ⟨"identifier", 11, 12, [], some "name", true, false, false⟩ :=
    .declarator (.inl rfl) (List.mem_singleton.mpr rfl) rfl rfl (.name (.inl rfl))
  refine List.not_mem_nil
    ((hall "x").mpr ⟨[1], "var", ⟨_, _, hplace, hdeclares, ?_, ?_⟩, by decide⟩)
  · decide +kernel
  · decide +kernel

end Scope

end ScriptModules
