import ScriptModules.Link.Define
import ScriptModules.Proofs.Data.Table

/-!
# What the tables say about the parts

A `Partition` is a part of a script as it is added to the tables, with any analysis of its names.
`addPartitions` adds parts one after the other. `Summary` says what the tables then hold of them:
a file for each part, and for each name the parts that read and assign it, and an owner that
declares it as soon as some part does. Every step is described by what it does to the entries:

* `Defined`: noting declarations changes owners only;
* `Used`: noting uses changes the sets of readers and assigning files only;
* `Summary.snoc`: adding a part keeps the summary.
-/

namespace ScriptModules

/-- A part of a script, as it is added to the tables. -/
structure Partition where
  key : String
  text : String
  source : String
  analysis : Analysis

namespace Partition

/-- The part declares the name at program level. -/
def Declares (p : Partition) (n : String) : Prop := n ∈ p.analysis.declarations

/-- The part reads the name without declaring it. -/
def Reads (p : Partition) (n : String) : Prop :=
  ∃ g ∈ p.analysis.globals, g.name = n ∧ g.isRead = true

/-- The part assigns the name without declaring it. -/
def Assigns (p : Partition) (n : String) : Prop :=
  ∃ g ∈ p.analysis.globals, g.name = n ∧ g.isAssigned = true

end Partition

namespace State

/-- Adds parts one after the other, up to the first that fails. -/
def addPartitions (policy : DuplicatePolicy) :
    (s : State) → List Partition → Logged (Outcome State Unit)
  | s, [] => pure (s, .ok ())
  | s, p :: ps => do
    match ← s.addPartition policy p.key p.text p.source p.analysis with
    | (s, .ok ()) => addPartitions policy s ps
    | (s, .error fault) => return (s, .error fault)

/-- Nothing but the symbols changed. -/
def OnlySymbols (s s' : State) : Prop := s' = { s with symbols := s'.symbols }

theorem OnlySymbols.trans {s s' t : State} (h : OnlySymbols s s') (h' : OnlySymbols s' t) :
    OnlySymbols s t := by
  unfold OnlySymbols at *
  rw [h', h]

theorem entry_withEntry (s : State) (n a : String) (f : SymbolEntry → SymbolEntry) :
    (s.withEntry n f).entry a = if a = n then f (s.entry n) else s.entry a := by
  simp only [entry, withEntry, Table.get?_insert]
  split <;> rfl

/-- What a change of one entry keeps, it keeps in all of them. -/
theorem entry_withEntry_congr {α : Type} (get : SymbolEntry → α) {s : State} {n : String}
    {f : SymbolEntry → SymbolEntry} (h : ∀ e, get (f e) = get e) (a : String) :
    get ((s.withEntry n f).entry a) = get (s.entry a) := by
  rw [entry_withEntry]
  split
  · next ha => rw [h, ha]
  · rfl

/-- A change that adds a key to a set of one entry adds it there only. -/
theorem mem_entry_withEntry (get : SymbolEntry → KeySet) {s : State} {n key : String} {b : Bool}
    {f : SymbolEntry → SymbolEntry} (h : ∀ e, get (f e) = if b then (get e).insert key else get e)
    (a k : String) : k ∈ get ((s.withEntry n f).entry a) ↔
      k ∈ get (s.entry a) ∨ (k = key ∧ n = a ∧ b = true) := by
  rw [entry_withEntry]
  by_cases ha : a = n
  · subst ha
    rw [if_pos rfl, h]
    cases b <;> simp
  · have hne : n ≠ a := fun e => ha e.symm
    simp [ha, hne]

/-! ## Declarations -/

/-- What noting that `key` declares `names` does to the tables. -/
structure Defined (key : String) (names : List String) (s s' : State) : Prop where
  only : OnlySymbols s s'
  assignments : ∀ a, (s'.entry a).assignments = (s.entry a).assignments
  references : ∀ a, (s'.entry a).references = (s.entry a).references
  owner : ∀ {a d}, (s'.entry a).definition = some d →
    (s.entry a).definition = some d ∨ (d = key ∧ a ∈ names)
  declared : ∀ {a}, a ∈ names ∨ (s.entry a).definition.isSome → (s'.entry a).definition.isSome

variable {s s' t : State} {policy : DuplicatePolicy} {key n : String}

theorem Defined.nil (key : String) (s : State) : Defined key [] s s :=
  ⟨rfl, fun _ => rfl, fun _ => rfl, .inl, fun h => h.resolve_left (by simp)⟩

theorem Defined.trans {ns ms : List String} (h : Defined key ns s s') (h' : Defined key ms s' t) :
    Defined key (ns ++ ms) s t := by
  refine ⟨h.only.trans h'.only, fun a => (h'.assignments a).trans (h.assignments a),
    fun a => (h'.references a).trans (h.references a), fun hd => ?_, fun ha => ?_⟩
  · rcases h'.owner hd with hd | ⟨rfl, ha⟩
    · rcases h.owner hd with hd | ⟨rfl, ha⟩
      · exact .inl hd
      · exact .inr ⟨rfl, by simp [ha]⟩
    · exact .inr ⟨rfl, by simp [ha]⟩
  · apply h'.declared
    rcases ha with ha | ha
    · rcases List.mem_append.mp ha with ha | ha
      · exact .inr (h.declared (.inl ha))
      · exact .inl ha
    · exact .inr (h.declared (.inr ha))

/-- Giving a name an owner, the file at hand or the one that it has. -/
theorem Defined.withEntry {owner : String}
    (ho : owner = key ∨ (s.entry n).definition = some owner) :
    Defined key [n] s (s.withEntry n fun e => { e with definition := some owner }) := by
  refine ⟨rfl, entry_withEntry_congr SymbolEntry.assignments fun _ => rfl,
    entry_withEntry_congr SymbolEntry.references fun _ => rfl, fun {a d} hd => ?_,
    fun {a} ha => ?_⟩ <;>
    rw [entry_withEntry] at *
  · split at hd
    · next h =>
      subst h
      cases hd
      rcases ho with rfl | ho
      · exact .inr ⟨rfl, by simp⟩
      · exact .inl ho
    · exact .inl hd
  · split
    · rfl
    · next h => exact ha.resolve_left (by simpa using h)

theorem choose_eq {name existing duplicate owner : String}
    (h : policy.choose name existing duplicate = .ok owner) :
    owner = duplicate ∨ owner = existing := by
  cases policy with
  | last => cases h; exact .inl rfl
  | first => cases h; exact .inr rfl
  | error => cases h

theorem define_ok (h : (s.define policy key n).value = (s', .ok ())) : Defined key [n] s s' := by
  unfold define at h
  split at h
  · cases h
    exact .withEntry (.inl rfl)
  · next existing he =>
    split at h
    · next hk =>
      cases h
      refine ⟨rfl, fun _ => rfl, fun _ => rfl, .inl, fun {a} ha => ?_⟩
      rcases ha with ha | ha
      · simp only [List.mem_singleton] at ha
        rw [ha, he]
        rfl
      · exact ha
    · split at h
      · cases h
      · next owner hc =>
        cases h
        rcases choose_eq hc with rfl | rfl
        · exact .withEntry (.inl rfl)
        · exact .withEntry (.inr he)

theorem defineAll_cons_ok {names : List String} :
    (defineAll policy key s (n :: names)).value = (s', .ok ()) ↔
      ∃ s₁, (s.define policy key n).value = (s₁, .ok ()) ∧
        (defineAll policy key s₁ names).value = (s', .ok ()) := by
  simp only [defineAll, Logged.value_bind]
  obtain ⟨s₁, (fault | ⟨⟩)⟩ := (s.define policy key n).value <;> simp

theorem defineAll_ok (names : List String) (s : State)
    (h : (defineAll policy key s names).value = (s', .ok ())) : Defined key names s s' := by
  induction names generalizing s with
  | nil =>
    cases h
    exact .nil key _
  | cons n names ih =>
    obtain ⟨s₁, h₁, h⟩ := defineAll_cons_ok.mp h
    exact (define_ok h₁).trans (ih s₁ h)

/-- A declaration fails only when duplicates are errors and another file owns the name. -/
theorem define_fits (h : policy = .error → ∀ d, (s.entry n).definition = some d → d = key) :
    ∃ s', (s.define policy key n).value = (s', .ok ()) := by
  unfold define
  split
  · exact ⟨_, rfl⟩
  · next existing he =>
    split
    · exact ⟨_, rfl⟩
    · next hne =>
      cases policy with
      | last => exact ⟨_, rfl⟩
      | first => exact ⟨_, rfl⟩
      | error => exact (hne (h rfl existing he)).elim

theorem defineAll_fits (names : List String) (s : State)
    (h : policy = .error → ∀ n ∈ names, ∀ d, (s.entry n).definition = some d → d = key) :
    ∃ s', (defineAll policy key s names).value = (s', .ok ()) := by
  induction names generalizing s with
  | nil => exact ⟨s, rfl⟩
  | cons n names ih =>
    obtain ⟨s₁, h₁⟩ := define_fits fun hp => h hp n (by simp)
    have hrest : policy = .error → ∀ m ∈ names, ∀ d,
        (s₁.entry m).definition = some d → d = key := by
      intro hp m hm d hd
      rcases (define_ok h₁).owner hd with hd | ⟨rfl, -⟩
      · exact h hp m (by simp [hm]) d hd
      · rfl
    obtain ⟨s', h'⟩ := ih s₁ hrest
    exact ⟨s', defineAll_cons_ok.mpr ⟨s₁, h₁, h'⟩⟩

/-- Where duplicates are errors, a declaration that succeeds was not owned by another file, and
every owner stays. -/
theorem define_error_ok (h : (s.define .error key n).value = (s', .ok ())) :
    (∀ d, (s.entry n).definition = some d → d = key) ∧
      ∀ a d, (s.entry a).definition = some d → (s'.entry a).definition = some d := by
  unfold define at h
  split at h
  · next hn =>
    cases h
    refine ⟨by simp [hn], fun a d hd => ?_⟩
    rw [entry_withEntry]
    split
    · next ha =>
      rw [ha, hn] at hd
      cases hd
    · exact hd
  · next existing he =>
    split at h
    · next hk =>
      cases h
      refine ⟨fun d hd => ?_, fun a d hd => hd⟩
      rw [he] at hd
      cases hd
      exact hk
    · cases h

theorem defineAll_error_ok (names : List String) (s : State)
    (h : (defineAll .error key s names).value = (s', .ok ())) :
    ∀ n ∈ names, ∀ d, (s.entry n).definition = some d → d = key := by
  induction names generalizing s with
  | nil => simp
  | cons n names ih =>
    obtain ⟨s₁, h₁, h⟩ := defineAll_cons_ok.mp h
    obtain ⟨hn, hkeep⟩ := define_error_ok h₁
    intro m hm d hmd
    rcases List.mem_cons.mp hm with rfl | hm
    · exact hn d hmd
    · exact ih s₁ h m hm d (hkeep m d hmd)

/-! ## Uses -/

/-- What noting that `key` uses the names `gs` does to the tables. -/
structure Used (key : String) (gs : List GlobalName) (s s' : State) : Prop where
  only : OnlySymbols s s'
  definition : ∀ a, (s'.entry a).definition = (s.entry a).definition
  assignments : ∀ a k, k ∈ (s'.entry a).assignments ↔ k ∈ (s.entry a).assignments ∨
    (k = key ∧ ∃ g ∈ gs, g.name = a ∧ g.isAssigned = true)
  references : ∀ a k, k ∈ (s'.entry a).references ↔ k ∈ (s.entry a).references ∨
    (k = key ∧ ∃ g ∈ gs, g.name = a ∧ g.isRead = true)

theorem Used.nil (key : String) (s : State) : Used key [] s s :=
  ⟨rfl, fun _ => rfl, by simp, by simp⟩

theorem Used.trans {gs hs : List GlobalName} (h : Used key gs s s') (h' : Used key hs s' t) :
    Used key (gs ++ hs) s t := by
  refine ⟨h.only.trans h'.only, fun a => (h'.definition a).trans (h.definition a),
    fun a k => ?_, fun a k => ?_⟩
  · rw [h'.assignments, h.assignments]
    simp only [List.mem_append]
    grind
  · rw [h'.references, h.references]
    simp only [List.mem_append]
    grind

theorem use_used (s : State) (key : String) (g : GlobalName) :
    Used key [g] s (s.use key g).value := by
  refine ⟨rfl, entry_withEntry_congr SymbolEntry.definition fun _ => rfl, fun a k => ?_,
    fun a k => ?_⟩
  · rw [use, mem_entry_withEntry SymbolEntry.assignments fun _ => rfl]
    simp
  · rw [use, mem_entry_withEntry SymbolEntry.references fun _ => rfl]
    simp

theorem foldl_use_used (key : String) (gs : List GlobalName) (s : State) :
    Used key gs s (gs.foldl (fun s g => (s.use key g).value) s) := by
  induction gs generalizing s with
  | nil => exact .nil key s
  | cons g gs ih => exact (use_used s key g).trans (ih _)

/-! ## Parts -/

/-- Adding a part that fits places its text, then notes its declarations, then its uses. -/
theorem addPartition_steps {p : Partition}
    (h : (s.addPartition policy p.key p.text p.source p.analysis).value = (s', .ok ())) :
    p.key ∉ s.files.keys ∧ ∃ s₁, (defineAll policy p.key (s.place p.key p.text p.source)
      p.analysis.declarations).value = (s₁, .ok ()) ∧
      s' = p.analysis.globals.foldl (fun s g => (s.use p.key g).value) s₁ := by
  unfold addPartition at h
  split at h
  · cases h
  · next hk =>
    refine ⟨fun hm => hk ((Table.contains_iff _ _).mpr hm), ?_⟩
    simp only [fold, Logged.value_bind] at h
    generalize hd : (defineAll policy p.key (s.place p.key p.text p.source)
      p.analysis.declarations).value = r at h
    obtain ⟨s₁, (fault | ⟨⟩)⟩ := r
    · cases h
    · refine ⟨s₁, rfl, ?_⟩
      simp only [Logged.value_bind, Logged.value_pure, Logged.value_foldlM, Prod.mk.injEq,
        and_true] at h
      exact h.symm

theorem addPartition_ok {p : Partition}
    (h : (s.addPartition policy p.key p.text p.source p.analysis).value = (s', .ok ())) :
    p.key ∉ s.files.keys ∧ ∃ s₁, (defineAll policy p.key (s.place p.key p.text p.source)
      p.analysis.declarations).value = (s₁, .ok ()) ∧ Used p.key p.analysis.globals s₁ s' := by
  obtain ⟨hk, s₁, hall, rfl⟩ := addPartition_steps h
  exact ⟨hk, s₁, hall, foldl_use_used p.key _ s₁⟩

/-- What the tables hold of the parts that were added. -/
structure Summary (ps : List Partition) (s : State) : Prop where
  keys_eq : s.files.keys = ps.map (·.key)
  merges_eq : s.merges = []
  owner : ∀ {n d}, (s.entry n).definition = some d → ∃ p ∈ ps, p.key = d ∧ p.Declares n
  declared : ∀ {p n}, p ∈ ps → p.Declares n → (s.entry n).definition.isSome
  assignments : ∀ n k, k ∈ (s.entry n).assignments ↔ ∃ p ∈ ps, p.key = k ∧ p.Assigns n
  references : ∀ n k, k ∈ (s.entry n).references ↔ ∃ p ∈ ps, p.key = k ∧ p.Reads n

theorem Summary.empty : Summary [] State.empty where
  keys_eq := rfl
  merges_eq := rfl
  owner h := by cases h
  declared h := by cases h
  assignments n k := by simp [entry, State.empty, SymbolEntry.empty, KeySet.mem_def, KeySet.empty]
  references n k := by simp [entry, State.empty, SymbolEntry.empty, KeySet.mem_def, KeySet.empty]

/-- Adding a part keeps the summary. -/
theorem Summary.snoc {ps : List Partition} {p : Partition} (hs : Summary ps s)
    (h : (s.addPartition policy p.key p.text p.source p.analysis).value = (s', .ok ())) :
    Summary (ps ++ [p]) s' := by
  obtain ⟨hk, s₁, hall, huse⟩ := addPartition_ok h
  have hdef := defineAll_ok _ _ hall
  have honly := hdef.only.trans huse.only
  have hentry : ∀ a, (s.place p.key p.text p.source).entry a = s.entry a := fun _ => rfl
  refine ⟨?_, ?_, fun {n d} hd => ?_, fun {q n} hq hn => ?_, fun n k => ?_, fun n k => ?_⟩
  · rw [honly]
    have hcontains : s.files.contains p.key = false := by
      rw [Bool.eq_false_iff]
      exact fun h => hk ((Table.contains_iff _ _).mp h)
    simp [place, Table.keys_insert, hcontains, hs.keys_eq]
  · rw [honly]
    exact hs.merges_eq
  · rw [huse.definition] at hd
    rcases hdef.owner hd with hd | ⟨rfl, hn⟩
    · obtain ⟨q, hq, hqk, hqd⟩ := hs.owner hd
      exact ⟨q, by simp [hq], hqk, hqd⟩
    · exact ⟨p, by simp, rfl, hn⟩
  · rw [huse.definition]
    apply hdef.declared
    rcases List.mem_append.mp hq with hq | hq
    · exact .inr (hs.declared hq hn)
    · rw [List.mem_singleton.mp hq] at hn
      exact .inl hn
  · rw [huse.assignments, hdef.assignments, hentry, hs.assignments]
    simp only [List.mem_append, List.mem_singleton, Partition.Assigns]
    grind
  · rw [huse.references, hdef.references, hentry, hs.references]
    simp only [List.mem_append, List.mem_singleton, Partition.Reads]
    grind

/-- A part whose key is new fits, unless duplicates are errors and it declares a name again. -/
theorem Summary.fits {ps : List Partition} {p : Partition} (hs : Summary ps s)
    (hk : p.key ∉ ps.map (·.key))
    (hd : policy = .error → ∀ q ∈ ps, ∀ n, q.Declares n → ¬ p.Declares n) :
    ∃ s', (s.addPartition policy p.key p.text p.source p.analysis).value = (s', .ok ()) := by
  unfold addPartition
  split
  · next hc =>
    rw [Table.contains_iff, hs.keys_eq] at hc
    exact (hk hc).elim
  · have howner : policy = .error → ∀ n ∈ p.analysis.declarations, ∀ d,
        ((s.place p.key p.text p.source).entry n).definition = some d → d = p.key := by
      intro hp n hn d hnd
      obtain ⟨q, hq, -, hqn⟩ := hs.owner hnd
      exact (hd hp q hq n hqn hn).elim
    obtain ⟨s₁, h₁⟩ := defineAll_fits _ _ howner
    simp only [fold, Logged.value_bind, h₁]
    exact ⟨_, rfl⟩

/-- The parts have distinct keys, and where duplicates are errors no two declare one name. -/
structure Admissible (policy : DuplicatePolicy) (ps : List Partition) : Prop where
  keys : (ps.map (·.key)).Nodup
  names : policy = .error → ps.Pairwise fun p q => ∀ n, p.Declares n → ¬ q.Declares n

theorem Admissible.snoc_iff {ps : List Partition} {p : Partition} :
    Admissible policy (ps ++ [p]) ↔ Admissible policy ps ∧ p.key ∉ ps.map (·.key) ∧
      (policy = .error → ∀ q ∈ ps, ∀ n, q.Declares n → ¬ p.Declares n) := by
  have hkeys : ((ps ++ [p]).map (·.key)).Nodup ↔
      (ps.map (·.key)).Nodup ∧ p.key ∉ ps.map (·.key) := by
    rw [List.map_append, List.map_singleton, ← List.concat_eq_append, List.nodup_concat, and_comm]
  have hnames : (ps ++ [p]).Pairwise (fun p q => ∀ n, p.Declares n → ¬ q.Declares n) ↔
      ps.Pairwise (fun p q => ∀ n, p.Declares n → ¬ q.Declares n) ∧
        ∀ q ∈ ps, ∀ n, q.Declares n → ¬ p.Declares n := by
    simp [List.pairwise_append]
  constructor
  · rintro ⟨hk, hn⟩
    have hk' := hkeys.mp hk
    exact ⟨⟨hk'.1, fun hp => (hnames.mp (hn hp)).1⟩, hk'.2, fun hp => (hnames.mp (hn hp)).2⟩
  · rintro ⟨⟨hk, hn⟩, hpk, hpn⟩
    exact ⟨hkeys.mpr ⟨hk, hpk⟩, fun hp => hnames.mpr ⟨hn hp, hpn hp⟩⟩

theorem Admissible.of_append {ps qs : List Partition} (h : Admissible policy (ps ++ qs)) :
    Admissible policy ps := by
  refine ⟨?_, fun hp => (List.pairwise_append.mp (h.names hp)).1⟩
  have hk := h.keys
  rw [List.map_append] at hk
  exact hk.of_append_left

/-- A part that was added keeps the list of parts admissible. -/
theorem Summary.admissible_snoc {ps : List Partition} {p : Partition} (hs : Summary ps s)
    (ha : Admissible policy ps)
    (h : (s.addPartition policy p.key p.text p.source p.analysis).value = (s', .ok ())) :
    Admissible policy (ps ++ [p]) := by
  obtain ⟨hk, s₁, hall, -⟩ := addPartition_ok h
  rw [hs.keys_eq] at hk
  refine Admissible.snoc_iff.mpr ⟨ha, hk, ?_⟩
  rintro rfl q hq n hqn hpn
  obtain ⟨d, hd⟩ := Option.isSome_iff_exists.mp (hs.declared hq hqn)
  have hdk := defineAll_error_ok _ _ hall n hpn d hd
  obtain ⟨r, hr, hrd, -⟩ := hs.owner hd
  exact hk (List.mem_map.mpr ⟨r, hr, hrd.trans hdk⟩)

theorem addPartitions_cons_ok {q : Partition} {qs : List Partition} :
    (addPartitions policy s (q :: qs)).value = (t, .ok ()) ↔
      ∃ s₁, (s.addPartition policy q.key q.text q.source q.analysis).value = (s₁, .ok ()) ∧
        (addPartitions policy s₁ qs).value = (t, .ok ()) := by
  simp only [addPartitions, Logged.value_bind]
  obtain ⟨s₁, (fault | ⟨⟩)⟩ :=
    (s.addPartition policy q.key q.text q.source q.analysis).value <;> simp

theorem Summary.addPartitions {ps qs : List Partition} (hs : Summary ps s)
    (h : Admissible policy (ps ++ qs)) :
    ∃ t, (State.addPartitions policy s qs).value = (t, .ok ()) ∧ Summary (ps ++ qs) t := by
  induction qs generalizing s ps with
  | nil => exact ⟨s, rfl, by simpa using hs⟩
  | cons q qs ih =>
    rw [List.append_cons] at h ⊢
    obtain ⟨-, hk, hd⟩ := Admissible.snoc_iff.mp h.of_append
    obtain ⟨s₁, h₁⟩ := hs.fits hk hd
    obtain ⟨t, ht, hsum⟩ := ih (hs.snoc h₁) h
    exact ⟨t, addPartitions_cons_ok.mpr ⟨s₁, h₁, ht⟩, hsum⟩

theorem Summary.admissible {ps qs : List Partition} (hs : Summary ps s)
    (ha : Admissible policy ps) (h : (State.addPartitions policy s qs).value = (t, .ok ())) :
    Admissible policy (ps ++ qs) := by
  induction qs generalizing s ps with
  | nil => simpa using ha
  | cons q qs ih =>
    obtain ⟨s₁, h₁, h⟩ := addPartitions_cons_ok.mp h
    rw [List.append_cons]
    exact ih (hs.snoc h₁) (hs.admissible_snoc ha h₁) h

/-- Admissible parts are added without a fault, and the tables hold what they say. -/
theorem addPartitions_summary {ps : List Partition} (h : Admissible policy ps) :
    ∃ s, (addPartitions policy .empty ps).value = (s, .ok ()) ∧ Summary ps s :=
  Summary.empty.addPartitions h

/-- The admissible lists of parts are those which are added without a fault. -/
theorem admissible_iff {ps : List Partition} :
    Admissible policy ps ↔ ∃ s, (addPartitions policy .empty ps).value = (s, .ok ()) := by
  constructor
  · intro h
    obtain ⟨s, hs, -⟩ := addPartitions_summary h
    exact ⟨s, hs⟩
  · rintro ⟨s, hs⟩
    exact Summary.empty.admissible ⟨by simp, by simp⟩ hs

end State

end ScriptModules
