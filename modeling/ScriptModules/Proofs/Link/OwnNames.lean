import ScriptModules.Proofs.Merge.Upkeep
import ScriptModules.Proofs.Tree.Report

/-!
# The names of a file are not foreign to it

A name that a script declares at program level is held by the outermost scope, in which every use of
it is looked up last. So it is not among the free names of the script, wherever the declaration
stands (`analyze_apart`).

The tables say no more about a file than its text does: who owns a name declares it, and who reads
or assigns it does so without declaring it (`Documented`). Each part that is added is documented by
its own text, and leaves those of the others as they are.

Main statement: `declarers_not_users`.
-/

namespace ScriptModules

namespace Scope

/-! ## Declarations and free names -/

theorem declarations_sublist (text : Node → String) (root : Node) :
    ((analyze text root).declarations).Sublist ((programNames text root).map (·.1)) :=
  List.filter_sublist.map _

/-- No name is declared and free, and neither list repeats one. -/
theorem analyze_apart (text : Node → String) (root : Node) :
    (analyze text root).declarations.Nodup ∧ ((analyze text root).globals.map (·.name)).Nodup ∧
      ∀ n ∈ (analyze text root).declarations, n ∉ (analyze text root).globals.map (·.name) := by
  obtain ⟨uses, -, huses, hglobals⟩ := analyze_reported text root
  have hnames : (analyze text root).globals.map (·.name) =
      (uses.map (root.spelling text)).eraseDups := by
    rw [hglobals, List.map_map]
    exact List.map_id _
  refine ⟨?_, ?_, fun n hn hfree => ?_⟩
  · refine List.Nodup.sublist (declarations_sublist text root) ?_
    rw [programNames, List.map_map]
    exact nodup_groupBy _ _
  · rw [hnames]
    exact nodup_eraseDups _
  · rw [hnames, List.mem_eraseDups] at hfree
    obtain ⟨p, hp, rfl⟩ := List.mem_map.mp hfree
    obtain ⟨m, hm, -, -, hholds⟩ := (huses p).mp hp
    have hspelling : root.spelling text p = text m := by simp [Node.spelling, hm]
    have hdeclared := mem_programNames_iff.mp ((declarations_sublist text root).subset hn)
    rw [hspelling] at hdeclared
    exact (forall_not_holdsAt_iff.mp hholds).1 hdeclared

end Scope

namespace State

variable {parser : Parser} {policy : DuplicatePolicy} {s t : State} {key k n text name : String}
  {a : Analysis}

/-! ## What the texts say -/

/-- The declarations and free names in the text of a file, if it parses. -/
def analysis? (parser : Parser) (s : State) (key : String) : Option Analysis :=
  (s.files.get? key).bind fun text => (parser text.toUTF8).toOption.bind fun root =>
    (Scope.ofSource text.toUTF8 root).toOption

/-- The text of the file declares the name at program level. -/
def Declares (parser : Parser) (s : State) (key n : String) : Prop :=
  ∃ a, s.analysis? parser key = some a ∧ n ∈ a.declarations

/-- The text of the file uses the name without declaring it. -/
def Mentions (parser : Parser) (s : State) (key n : String) : Prop :=
  ∃ a, s.analysis? parser key = some a ∧ n ∈ a.globals.map (·.name)

theorem analysis?_of_get? {root : Node} (htext : s.files.get? key = some text)
    (hroot : parser text.toUTF8 = .ok root) (ha : Scope.ofSource text.toUTF8 root = .ok a) :
    s.analysis? parser key = some a := by
  unfold analysis?
  rw [htext, Option.bind_some, hroot]
  show (Scope.ofSource text.toUTF8 root).toOption = some a
  rw [ha]
  rfl

/-- An analysis is that of a tree. -/
theorem exists_analyze (h : s.analysis? parser key = some a) :
    ∃ text root, a = Scope.analyze text root := by
  obtain ⟨text, -, h⟩ := Option.bind_eq_some_iff.mp h
  obtain ⟨root, -, h⟩ := Option.bind_eq_some_iff.mp h
  cases ha : Scope.ofSource text.toUTF8 root with
  | error fault =>
    rw [ha] at h
    cases h
  | ok b =>
    rw [ha] at h
    cases h
    exact ⟨_, root, Scope.ofSource_ok ha⟩

/-- A file does not mention what it declares. -/
theorem Declares.not_mentions (h : s.Declares parser key n) : ¬ s.Mentions parser key n := by
  obtain ⟨a, ha, hn⟩ := h
  rintro ⟨b, hb, hfree⟩
  obtain rfl := Option.some.inj (ha.symm.trans hb)
  obtain ⟨text, root, rfl⟩ := exists_analyze ha
  exact (Scope.analyze_apart text root).2.2 n hn hfree

/-- What the files say stays, as long as their texts do. -/
theorem analysis?_mono (hfiles : ∀ k text, s.files.get? k = some text → t.files.get? k = some text)
    (h : s.analysis? parser key = some a) : t.analysis? parser key = some a := by
  obtain ⟨text, htext, h⟩ := Option.bind_eq_some_iff.mp h
  exact Option.bind_eq_some_iff.mpr ⟨text, hfiles key text htext, h⟩

/-- The tables say nothing about a file that its text does not say. -/
structure Documented (parser : Parser) (s : State) : Prop where
  definition : ∀ {n d}, (s.entry n).definition = some d → s.Declares parser d n
  assignments : ∀ {n k}, k ∈ (s.entry n).assignments → s.Mentions parser k n
  references : ∀ {n k}, k ∈ (s.entry n).references → s.Mentions parser k n

namespace Documented

theorem empty (parser : Parser) : Documented parser .empty where
  definition h := by cases h
  assignments h := by cases h
  references h := by cases h

/-- The tables may get more files, and what is said about the new ones must be in their texts. -/
theorem step (hs : Documented parser s)
    (hfiles : ∀ k text, s.files.get? k = some text → t.files.get? k = some text)
    (hdefinition : ∀ {n d}, (t.entry n).definition = some d →
      (s.entry n).definition = some d ∨ t.Declares parser d n)
    (hassignments : ∀ {n k}, k ∈ (t.entry n).assignments →
      k ∈ (s.entry n).assignments ∨ t.Mentions parser k n)
    (hreferences : ∀ {n k}, k ∈ (t.entry n).references →
      k ∈ (s.entry n).references ∨ t.Mentions parser k n) : Documented parser t where
  definition hd := (hdefinition hd).elim
    (fun hd => (hs.definition hd).imp fun _ h => ⟨analysis?_mono hfiles h.1, h.2⟩) id
  assignments hk := (hassignments hk).elim
    (fun hk => (hs.assignments hk).imp fun _ h => ⟨analysis?_mono hfiles h.1, h.2⟩) id
  references hk := (hreferences hk).elim
    (fun hk => (hs.references hk).imp fun _ h => ⟨analysis?_mono hfiles h.1, h.2⟩) id

/-- A new file leaves the texts of the others as they are. -/
theorem get?_place (hkey : key ∉ s.files.keys) (text name k : String) {text' : String}
    (h : s.files.get? k = some text') : (s.place key text name).files.get? k = some text' := by
  show (s.files.insert key text).get? k = _
  rw [Table.get?_insert, if_neg]
  · exact h
  · rintro rfl
    exact hkey (Table.mem_keys_of_get? h)

theorem place (hs : Documented parser s) (hkey : key ∉ s.files.keys) (text name : String) :
    Documented parser (s.place key text name) :=
  hs.step (fun k _ => get?_place hkey text name k) .inl .inl .inl

/-- A part is documented by its own text. -/
theorem addPartition (hs : Documented parser s) {root : Node}
    (hroot : parser text.toUTF8 = .ok root)
    (ha : Scope.ofSource text.toUTF8 root = .ok a) (policy : DuplicatePolicy) (key name : String) :
    Documented parser (s.addPartition policy key text name a).value.1 := by
  have hchanges := s.addPartition_changes policy ⟨key, text, name, a⟩
  generalize (s.addPartition policy key text name a).value.1 = t at hchanges ⊢
  rcases hchanges with rfl | ⟨hkey, ns, gs, s₁, hns, hgs, hdef, huse⟩
  · exact hs
  · have hfiles : t.files = (s.place key text name).files := by rw [hdef.only.trans huse.only]
    have hentry : ∀ n, (s.place key text name).entry n = s.entry n := fun _ => rfl
    have hnew : t.analysis? parser key = some a := by
      refine analysis?_of_get? ?_ hroot ha
      rw [hfiles]
      exact (Table.get?_insert _ _ _ _).trans (if_pos rfl)
    have hmentions : ∀ {g n}, g ∈ gs → g.name = n → t.Mentions parser key n := by
      rintro g n hg rfl
      exact ⟨a, hnew, List.mem_map.mpr ⟨g, hgs g hg, rfl⟩⟩
    refine hs.step (fun k text' h => ?_) (fun {n d} hd => ?_) (fun {n k} hk => ?_)
      fun {n k} hk => ?_
    · rw [hfiles]
      exact get?_place hkey text name k h
    · rw [huse.definition] at hd
      rcases hdef.owner hd with hd | ⟨rfl, hn⟩
      · exact .inl hd
      · exact .inr ⟨a, hnew, hns n hn⟩
    · rw [huse.assignments, hdef.assignments, hentry] at hk
      rcases hk with hk | ⟨rfl, g, hg, hname, -⟩
      · exact .inl hk
      · exact .inr (hmentions hg hname)
    · rw [huse.references, hdef.references, hentry] at hk
      rcases hk with hk | ⟨rfl, g, hg, hname, -⟩
      · exact .inl hk
      · exact .inr (hmentions hg hname)

theorem addPart (hs : Documented parser s) {p : Part} (hp : parser p.source = .ok p.root)
    (policy : DuplicatePolicy) (key name : String) :
    Documented parser (s.addPart policy key name p).value.1 := by
  unfold State.addPart
  split
  · exact hs
  · next text hdecode =>
    rw [Utf8.decode_eq_ok_iff.mp hdecode] at hp ⊢
    split
    · next a ha => exact hs.addPartition hp ha policy key name
    · split
      · exact hs
      · next hkey => exact hs.place (fun hmem => hkey ((Table.contains_iff _ _).mpr hmem)) text name

end Documented

theorem lasting_documented (parser : Parser) (policy : DuplicatePolicy) :
    Linkage.Lasting parser policy (Documented parser) where
  addPart hs hp key name := hs.addPart hp policy key name
  skip hs := ⟨hs.definition, hs.assignments, hs.references⟩

/-- No script declares a name that is free in it, and neither list repeats a name. So in the tables
of any scripts, under any policy, no file that declares a name is among those that assign or read
it, whether it owns the name or not. The owner of a name is one of the files that declare it. -/
theorem declarers_not_users :
    (∀ (text : Node → String) (root : Node),
      (Scope.analyze text root).declarations.Nodup ∧
      ((Scope.analyze text root).globals.map (·.name)).Nodup ∧
      ∀ n ∈ (Scope.analyze text root).declarations,
        n ∉ (Scope.analyze text root).globals.map (·.name)) ∧
    ∀ (parser : Parser) (o : IngestOptions) (registry : Registry) (inputs : List Input)
      (l : Linkage), (link parser o registry inputs).value = .ok l →
      ∀ n e, l.state.symbols.get? n = some e →
        (∃ owner, e.definition = some owner ∧ l.state.Declares parser owner n) ∧
        ∀ key, l.state.Declares parser key n → key ∉ e.assignments ∧ key ∉ e.references := by
  refine ⟨Scope.analyze_apart, fun parser o registry inputs l hl n e he => ?_⟩
  obtain ⟨l₁, hrun, hstate⟩ := link_ok hl
  have hall : Documented parser l₁.state := by
    have := (lasting_documented parser o.policy).ingestAll inputs ⟨.empty, registry⟩ (.empty parser)
    rwa [hrun] at this
  rw [hstate] at he ⊢
  obtain ⟨he, hsome⟩ := get?_purge.mp he
  obtain ⟨owner, howner⟩ := Option.isSome_iff_exists.mp hsome
  obtain rfl : l₁.state.entry n = e := entry_eq he
  -- The purge takes no file away, so the files declare in the end what they declared before.
  refine ⟨⟨owner, howner, hall.definition howner⟩, fun key hkey => ?_⟩
  have hnot : ¬ l₁.state.Mentions parser key n := Declares.not_mentions hkey
  exact ⟨fun h => hnot (hall.assignments h), fun h => hnot (hall.references h)⟩

/-- Two scripts that declare a name, of which the second assigns it before the declaration and
inside a function, and a script that only assigns it. -/
def contested : List Input :=
  [⟨"a.js", "a.js", "var x = 1;\n".toUTF8⟩,
   ⟨"b.js", "b.js", "x = 2; f();\nfunction f() { x = 3; }\nvar x;\n".toUTF8⟩,
   ⟨"c.js", "c.js", "x = f;\n".toUTF8⟩]

/-- The texts that are parsed when `contested` are taken in. -/
def contestedTexts : List String :=
  ["var x = 1;\n", "x = 2; f();\nfunction f() { x = 3; }\nvar x;\n", "x = f;\n"]

theorem declarers_not_users_contested : ∃ l e,
    (link (parserFor contestedTexts) ⟨false, none, .first⟩ (.new true) contested).value = .ok l ∧
    l.state.symbols.get? "x" = some e ∧ e.definition = some "a.js" ∧
    e.assignments.items = ["c.js"] ∧ l.state.Declares (parserFor contestedTexts) "b.js" "x" ∧
    "b.js" ∉ e.assignments ∧ "b.js" ∉ e.references := by
  have heval : (link (parserFor contestedTexts) ⟨false, none, .first⟩ (.new true)
      contested).value.toOption.bind (fun l => (l.state.symbols.get? "x").bind fun e =>
        (l.state.analysis? (parserFor contestedTexts) "b.js").map fun a =>
          (e.definition, e.assignments.items, a.declarations)) =
      some (some "a.js", ["c.js"], ["f", "x"]) := by decide +kernel
  cases hl : (link (parserFor contestedTexts) ⟨false, none, .first⟩ (.new true)
      contested).value with
  | error fault =>
    rw [hl] at heval
    cases heval
  | ok l =>
    rw [hl] at heval
    obtain ⟨_, hsome, heval⟩ := Option.bind_eq_some_iff.mp heval
    cases hsome
    obtain ⟨e, he, heval⟩ := Option.bind_eq_some_iff.mp heval
    obtain ⟨a, ha, heval⟩ := Option.map_eq_some_iff.mp heval
    obtain ⟨howner, hassign, hdeclared⟩ : e.definition = some "a.js" ∧
        e.assignments.items = ["c.js"] ∧ a.declarations = ["f", "x"] := by simpa using heval
    have hdeclares : l.state.Declares (parserFor contestedTexts) "b.js" "x" :=
      ⟨a, ha, by simp [hdeclared]⟩
    obtain ⟨-, hlink⟩ := declarers_not_users
    obtain ⟨-, hapart⟩ := hlink _ _ _ _ l hl "x" e he
    exact ⟨l, e, rfl, he, howner, hassign, hdeclares, hapart "b.js" hdeclares⟩

end State

end ScriptModules
