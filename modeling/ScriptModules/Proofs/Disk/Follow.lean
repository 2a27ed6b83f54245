import ScriptModules.Disk.Read
import ScriptModules.Proofs.Disk.Shape

/-!
# Where paths lead

`Disk.Leads base parts n loc` says that the components `parts` lead from `base` to `loc` over `n`
links. It is what `follow` computes (`follow_iff`), and does not depend on what else is on the disk
(`Leads.mono`).

The main result is `canonical_of_locate`: the canonical form of a path that means something is its
location. A path is made canonical with a list of the links whose targets are being resolved, and
stops at a link inside its own target. A path that leads somewhere never comes to that: a link that
is being resolved needs more links than what is left of its target (`Guards`).
-/

namespace ScriptModules

namespace Disk

variable {d d' : Disk} {base loc : Location} {parts rest : List String} {name : String} {n : Nat}

/-! ## Leading -/

/-- The components lead from the folder at `base` to `loc`, over `n` links. -/
inductive Leads (d : Disk) : Location → List String → Nat → Location → Prop where
  | done (base : Location) : Leads d base [] 0 base
  | up {base : Location} {rest : List String} {n : Nat} {loc : Location}
      (h : Leads d base.dropLast rest n loc) : Leads d base (".." :: rest) n loc
  | folder {base : Location} {name : String} {rest : List String} {n : Nat} {loc : Location}
      (hname : IsName name) (hshape : d.shape? (base ++ [name]) = some .folder)
      (h : Leads d (base ++ [name]) rest n loc) : Leads d base (name :: rest) n loc
  | file {base : Location} {name : String} {content : ByteArray} (hname : IsName name)
      (hshape : d.shape? (base ++ [name]) = some (.file content)) :
      Leads d base [name] 0 (base ++ [name])
  | link {base : Location} {name target : String} {rest : List String} {n : Nat} {loc : Location}
      (hname : IsName name) (hshape : d.shape? (base ++ [name]) = some (.link target))
      (h : Leads d (jump base target rest).1 (jump base target rest).2 n loc) :
      Leads d base (name :: rest) (n + 1) loc

/-- What a disk has, the other has too, unchanged. -/
def Extends (d d' : Disk) : Prop := ∀ loc s, d.shape? loc = some s → d'.shape? loc = some s

theorem Leads.mono (hext : d.Extends d') (h : d.Leads base parts n loc) :
    d'.Leads base parts n loc := by
  induction h with
  | done base => exact .done base
  | up _ ih => exact .up ih
  | folder hname hshape _ ih => exact .folder hname (hext _ _ hshape) ih
  | file hname hshape => exact .file hname (hext _ _ hshape)
  | link hname hshape _ ih => exact .link hname (hext _ _ hshape) ih

theorem Leads.arrived (h : d.Leads base parts n loc) (hn : n = 0) :
    d.stretch true base parts = .ok (.arrived loc) := by
  induction h with
  | done base => rfl
  | up _ ih => simpa [stretch] using ih hn
  | folder hname hshape _ ih =>
    obtain ⟨entries, hat⟩ := shape?_eq_folder.mp hshape
    simpa [stretch, hname.1, hname.2, hat] using ih hn
  | file hname hshape => simp [stretch, hname.1, hname.2, shape?_eq_file.mp hshape]
  | link => omega

theorem Leads.linked (h : d.Leads base parts n loc) (hn : n ≠ 0) :
    ∃ base' target rest m, n = m + 1 ∧ d.stretch true base parts = .ok (.linked base' target rest) ∧
      d.Leads (jump base' target rest).1 (jump base' target rest).2 m loc := by
  induction h with
  | done base => exact absurd rfl hn
  | up _ ih => simpa [stretch] using ih hn
  | folder hname hshape _ ih =>
    obtain ⟨entries, hat⟩ := shape?_eq_folder.mp hshape
    simpa [stretch, hname.1, hname.2, hat] using ih hn
  | file => exact absurd rfl hn
  | link hname hshape h ih =>
    exact ⟨_, _, _, _, rfl, by simp [stretch, hname.1, hname.2, shape?_eq_link.mp hshape], h⟩

theorem leads_of_stretch {result : Stretch} (h : d.stretch true base parts = .ok result) :
    match result with
    | .arrived loc => d.Leads base parts 0 loc
    | .linked base' target rest => ∀ n loc,
      d.Leads (jump base' target rest).1 (jump base' target rest).2 n loc →
        d.Leads base parts (n + 1) loc := by
  induction parts generalizing base with
  | nil =>
    cases h
    exact .done base
  | cons name rest ih =>
    by_cases hup : name = ".."
    · subst hup
      have hstretch : d.stretch true base.dropLast rest = .ok result := by
        simpa [stretch] using h
      have h := ih hstretch
      cases result with
      | arrived loc => exact .up h
      | linked base' target rest => exact fun n loc hleads => .up (h n loc hleads)
    · by_cases hnull : hasNull name = true
      · simp [stretch, hup, hnull] at h
      · have hname : IsName name := ⟨hup, by simpa using hnull⟩
        cases hat : d.at? (base ++ [name]) with
        | none => simp [stretch, hup, hnull, hat] at h
        | some e =>
          cases e with
          | folder entries =>
            have hshape := shape?_eq_folder.mpr ⟨entries, hat⟩
            have hstretch : d.stretch true (base ++ [name]) rest = .ok result := by
              simpa [stretch, hup, hnull, hat] using h
            have h := ih hstretch
            cases result with
            | arrived loc => exact .folder hname hshape h
            | linked base' target rest =>
              exact fun n loc hleads => .folder hname hshape (h n loc hleads)
          | file content =>
            by_cases hrest : rest = []
            · subst hrest
              have hresult : Stretch.arrived (base ++ [name]) = result := by
                simpa [stretch, hup, hnull, hat] using h
              subst hresult
              exact .file hname (shape?_eq_file.mpr hat)
            · simp [stretch, hup, hnull, hat, hrest] at h
          | link target =>
            have hresult : Stretch.linked base target rest = result := by
              simpa [stretch, hup, hnull, hat] using h
            subst hresult
            exact fun n loc hleads => .link hname (shape?_eq_link.mpr hat) hleads

theorem follow_of_arrived {last : Bool} {budget : Nat}
    (h : d.stretch last base parts = .ok (.arrived loc)) :
    d.follow last budget base parts = .ok loc := by
  rw [follow, h]
  rfl

theorem follow_of_error {last : Bool} {budget : Nat} {fault : DiskFault}
    (h : d.stretch last base parts = .error fault) :
    d.follow last budget base parts = .error fault := by
  rw [follow, h]
  rfl

theorem follow_of_linked {last : Bool} {budget : Nat} {target : String}
    (h : d.stretch last base parts = .ok (.linked loc target rest)) :
    d.follow last (budget + 1) base parts =
      d.follow last budget (jump loc target rest).1 (jump loc target rest).2 := by
  rw [follow, h]
  rfl

/-- Following a path succeeds when it leads somewhere over few enough links. -/
theorem follow_iff {budget : Nat} :
    d.follow true budget base parts = .ok loc ↔ ∃ n ≤ budget, d.Leads base parts n loc := by
  constructor
  · intro h
    induction budget generalizing base parts with
    | zero =>
      cases hstretch : d.stretch true base parts with
      | error fault => simp [follow_of_error hstretch] at h
      | ok result =>
        cases result with
        | arrived loc' =>
          have hloc : loc' = loc := by simpa [follow_of_arrived hstretch] using h
          exact ⟨0, le_refl 0, hloc ▸ leads_of_stretch hstretch⟩
        | linked base' target rest =>
          rw [follow, hstretch] at h
          cases h
    | succ budget ih =>
      cases hstretch : d.stretch true base parts with
      | error fault => simp [follow_of_error hstretch] at h
      | ok result =>
        cases result with
        | arrived loc' =>
          have hloc : loc' = loc := by simpa [follow_of_arrived hstretch] using h
          exact ⟨0, Nat.zero_le _, hloc ▸ leads_of_stretch hstretch⟩
        | linked base' target rest =>
          rw [follow_of_linked hstretch] at h
          obtain ⟨n, hn, hleads⟩ := ih h
          exact ⟨n + 1, by omega, leads_of_stretch hstretch n loc hleads⟩
  · rintro ⟨n, hn, h⟩
    induction budget generalizing base parts n with
    | zero => exact follow_of_arrived (h.arrived (by omega))
    | succ budget ih =>
      by_cases hzero : n = 0
      · exact follow_of_arrived (h.arrived hzero)
      · obtain ⟨base', target, rest, m, rfl, hstretch, hleads⟩ := h.linked hzero
        rw [follow_of_linked hstretch]
        exact ih m (by omega) hleads

theorem locate_iff {p : Path} :
    d.locate p = .ok loc ↔ ∃ n ≤ linkLimit, d.Leads [] p.parts n loc := follow_iff

theorem locate_mono (hext : d.Extends d') {p : Path} (h : d.locate p = .ok loc) :
    d'.locate p = .ok loc := by
  obtain ⟨n, hn, hleads⟩ := locate_iff.mp h
  exact locate_iff.mpr ⟨n, hn, hleads.mono hext⟩

theorem Leads.unique {m : Nat} {loc' : Location} (h : d.Leads base parts n loc)
    (h' : d.Leads base parts m loc') : n = m ∧ loc = loc' := by
  induction h generalizing m loc' with
  | done base =>
    cases h'
    exact ⟨rfl, rfl⟩
  | up _ ih =>
    cases h' with
    | up h' => exact ih h'
    | folder hname _ _ => exact absurd rfl hname.1
    | file hname _ => exact absurd rfl hname.1
    | link hname _ _ => exact absurd rfl hname.1
  | folder hname hshape _ ih =>
    cases h' with
    | up h' => exact absurd rfl hname.1
    | folder _ _ h' => exact ih h'
    | file _ hshape' => simp [hshape] at hshape'
    | link _ hshape' _ => simp [hshape] at hshape'
  | file hname hshape =>
    cases h' with
    | up h' => exact absurd rfl hname.1
    | folder _ hshape' _ => simp [hshape] at hshape'
    | file _ _ => exact ⟨rfl, rfl⟩
    | link _ hshape' _ => simp [hshape] at hshape'
  | link hname hshape _ ih =>
    cases h' with
    | up h' => exact absurd rfl hname.1
    | folder _ hshape' _ => simp [hshape] at hshape'
    | file _ hshape' => simp [hshape] at hshape'
    | link _ hshape' h' =>
      obtain rfl : _ = _ := Shape.link.inj (Option.some.inj (hshape.symm.trans hshape'))
      obtain ⟨hn, hloc⟩ := ih h'
      exact ⟨by omega, hloc⟩

theorem jump_append (base : Location) (target : String) (parts rest : List String) :
    jump base target (parts ++ rest) =
      ((jump base target parts).1, (jump base target parts).2 ++ rest) := by
  simp [jump]

theorem Leads.split (h : d.Leads base (parts ++ rest) n loc) :
    ∃ n₁ n₂ mid, n = n₁ + n₂ ∧ d.Leads base parts n₁ mid ∧ d.Leads mid rest n₂ loc := by
  generalize hall : parts ++ rest = all at h
  induction h generalizing parts with
  | done base =>
    obtain ⟨rfl, rfl⟩ := List.append_eq_nil_iff.mp hall
    exact ⟨0, 0, base, rfl, .done base, .done base⟩
  | @up base rest' n loc h ih =>
    rcases List.append_eq_cons_iff.mp hall with ⟨rfl, rfl⟩ | ⟨parts, rfl, rfl⟩
    · exact ⟨0, n, base, (Nat.zero_add n).symm, .done base, .up h⟩
    · obtain ⟨n₁, n₂, mid, hn, h₁, h₂⟩ := ih rfl
      exact ⟨n₁, n₂, mid, hn, .up h₁, h₂⟩
  | @folder base name rest' n loc hname hshape h ih =>
    rcases List.append_eq_cons_iff.mp hall with ⟨rfl, rfl⟩ | ⟨parts, rfl, rfl⟩
    · exact ⟨0, n, base, (Nat.zero_add n).symm, .done base, .folder hname hshape h⟩
    · obtain ⟨n₁, n₂, mid, hn, h₁, h₂⟩ := ih rfl
      exact ⟨n₁, n₂, mid, hn, .folder hname hshape h₁, h₂⟩
  | @file base name content hname hshape =>
    rcases List.append_eq_cons_iff.mp hall with ⟨rfl, rfl⟩ | ⟨parts, rfl, hnil⟩
    · exact ⟨0, 0, base, rfl, .done base, .file hname hshape⟩
    · obtain ⟨rfl, rfl⟩ := List.append_eq_nil_iff.mp hnil.symm
      exact ⟨0, 0, _, rfl, .file hname hshape, .done _⟩
  | @link base name target rest' n loc hname hshape h ih =>
    rcases List.append_eq_cons_iff.mp hall with ⟨rfl, rfl⟩ | ⟨parts, rfl, rfl⟩
    · exact ⟨0, n + 1, base, (Nat.zero_add _).symm, .done base, .link hname hshape h⟩
    · rw [jump_append] at ih
      obtain ⟨n₁, n₂, mid, hn, h₁, h₂⟩ := ih rfl
      exact ⟨n₁ + 1, n₂, mid, by omega, .link hname hshape h₁, h₂⟩

theorem Leads.hasNull_eq_false (h : d.Leads base parts n loc) :
    ∀ name ∈ parts, hasNull name = false := by
  induction h with
  | done base => simp
  | up _ ih => simpa using ⟨by decide, ih⟩
  | folder hname _ _ ih => simpa using ⟨hname.2, ih⟩
  | file hname _ => simpa using hname.2
  | link hname _ _ ih => 
    intro name hmem
    rcases List.mem_cons.mp hmem with rfl | hmem
    · exact hname.2
    · exact ih name (List.mem_append_right _ hmem)

/-- The names of an entry lead to it; to a link only when it is not followed. -/
theorem stretch_self {last : Bool} (hnames : ∀ name ∈ rest, IsName name)
    (hshape : d.shape? (base ++ rest) ≠ none)
    (hlink : last = true → ∀ target, d.shape? (base ++ rest) ≠ some (.link target)) :
    d.stretch last base rest = .ok (.arrived (base ++ rest)) := by
  induction rest generalizing base with
  | nil => simp [stretch]
  | cons name rest ih =>
    rw [List.append_cons] at hshape hlink ⊢
    have hname := hnames name (List.mem_cons_self ..)
    have hnames : ∀ n ∈ rest, IsName n := fun n hn => hnames n (List.mem_cons_of_mem name hn)
    by_cases hrest : rest = []
    · subst hrest
      rw [List.append_nil] at hshape hlink ⊢
      cases hat : d.at? (base ++ [name]) with
      | none => exact absurd (shape?_eq_none.mpr hat) hshape
      | some e =>
        cases e with
        | file content => simp [stretch, hname.1, hname.2, hat]
        | link target =>
          cases last with
          | true => exact absurd (shape?_eq_link.mpr hat) (hlink rfl target)
          | false => simp [stretch, hname.1, hname.2, hat]
        | folder entries => simp [stretch, hname.1, hname.2, hat]
    · obtain ⟨entries, hat⟩ := shape?_eq_folder.mp (shape?_folder_of_append hrest hshape)
      simpa [stretch, hname.1, hname.2, hat] using ih hnames hshape hlink

theorem leads_self (hnames : ∀ name ∈ rest, IsName name)
    (hshape : d.shape? (base ++ rest) ≠ none)
    (hlink : ∀ target, d.shape? (base ++ rest) ≠ some (.link target)) :
    d.Leads base rest 0 (base ++ rest) :=
  leads_of_stretch (stretch_self hnames hshape fun _ => hlink)

/-- A place that a path can lead to: its names are proper, and it is a file or a folder. -/
def IsPlace (d : Disk) (loc : Location) : Prop :=
  (∀ name ∈ loc, IsName name) ∧ d.shape? loc ≠ none ∧ ∀ target, d.shape? loc ≠ some (.link target)

theorem isPlace_nil (d : Disk) : d.IsPlace [] := ⟨by simp, by simp, by simp⟩

theorem IsPlace.leads (h : d.IsPlace loc) : d.Leads [] loc 0 loc := leads_self h.1 h.2.1 h.2.2

theorem IsPlace.dropLast (h : d.IsPlace loc) : d.IsPlace loc.dropLast := by
  by_cases hloc : loc = []
  · exact hloc ▸ h
  · rw [← List.dropLast_append_getLast hloc] at h
    have hfolder := shape?_folder_of_append (List.cons_ne_nil _ _) h.2.1
    refine ⟨fun name hname => h.1 name (List.mem_append_left _ hname), by simp [hfolder], ?_⟩
    simp [hfolder]

theorem IsPlace.child {s : Shape} (h : d.IsPlace base) (hname : IsName name)
    (hshape : d.shape? (base ++ [name]) = some s) (hlink : ∀ target, s ≠ .link target) :
    d.IsPlace (base ++ [name]) := by
  refine ⟨?_, by simp [hshape], fun target htarget => ?_⟩
  · intro x hx
    rcases List.mem_append.mp hx with hx | hx
    · exact h.1 x hx
    · exact List.mem_singleton.mp hx ▸ hname
  · exact hlink target (Option.some.inj (hshape.symm.trans htarget))

theorem Leads.isPlace (h : d.Leads base parts n loc) (hbase : d.IsPlace base) : d.IsPlace loc := by
  induction h with
  | done base => exact hbase
  | up _ ih => exact ih hbase.dropLast
  | folder hname hshape _ ih => exact ih (hbase.child hname hshape (by simp))
  | file hname hshape => exact hbase.child hname hshape (by simp)
  | @link base name target rest n loc hname hshape h ih =>
    refine ih ?_
    show d.IsPlace (if (Path.ofString target).isAbsolute then [] else base)
    split
    · exact isPlace_nil d
    · exact hbase

/-! ## Canonical paths -/

/-- The link needs more links than `n`. -/
def Outlasts (d : Disk) (link : Location) (n : Nat) : Prop :=
  ∃ base name k loc, link = base ++ [name] ∧ d.Leads base [name] k loc ∧ n < k

/-- The links whose targets are being resolved, innermost first, with what is left to resolve: each
link needs more links than what is left up to the end of its target. `passed` are the components
before those that are left. -/
def Guards (d : Disk) (base : Location) : List String → List Todo → List Location → Prop
  | _, [], active => active = []
  | passed, .name n :: todo, active => Guards d base (passed ++ [n]) todo active
  | _, .leave :: _, [] => False
  | passed, .leave :: todo, link :: active =>
    (∀ n loc, d.Leads base passed n loc → d.Outlasts link n) ∧ Guards d base passed todo active

variable {passed passed' : List String} {todo : List Todo} {active : List Location}
  {base' link : Location}

/-- What is left may be looked at from another place, from which it needs no more links. -/
theorem Guards.transfer (h : d.Guards base passed todo active)
    (hleads : ∀ more, more <+: todoNames todo → ∀ n loc, d.Leads base' (passed' ++ more) n loc →
      ∃ m, n ≤ m ∧ d.Leads base (passed ++ more) m loc) :
    d.Guards base' passed' todo active := by
  induction todo generalizing passed passed' active with
  | nil => exact h
  | cons t todo ih =>
    cases t with
    | name x =>
      refine ih h fun more hmore n loc hn => ?_
      rw [List.append_assoc] at hn ⊢
      exact hleads ([x] ++ more) (by simpa [todoNames, List.cons_prefix_cons] using hmore) n loc hn
    | leave =>
      cases active with
      | nil => exact h
      | cons link active =>
        refine ⟨fun n loc hn => ?_, ih h.2 hleads⟩
        obtain ⟨m, hm, hm'⟩ := hleads [] ⟨_, rfl⟩ n loc (by simpa using hn)
        obtain ⟨b, x, k, l, rfl, hk, hlt⟩ := h.1 m loc (by simpa using hm')
        exact ⟨b, x, k, l, rfl, hk, by omega⟩

theorem Guards.outlasts (h : d.Guards base passed todo active) (hlink : link ∈ active) :
    ∃ more, more <+: todoNames todo ∧
      ∀ n loc, d.Leads base (passed ++ more) n loc → d.Outlasts link n := by
  induction todo generalizing passed active with
  | nil =>
    rw [show active = [] from h] at hlink
    cases hlink
  | cons t todo ih =>
    cases t with
    | name x =>
      obtain ⟨more, hmore, hout⟩ := ih h hlink
      refine ⟨x :: more, by simpa [todoNames, List.cons_prefix_cons] using hmore, ?_⟩
      simpa using hout
    | leave =>
      cases active with
      | nil => cases hlink
      | cons first active =>
        rcases List.mem_cons.mp hlink with rfl | hlink
        · exact ⟨[], ⟨_, rfl⟩, by simpa using h.1⟩
        · exact ih h.2 hlink

/-- A path that leads somewhere meets no link whose target is being resolved. -/
theorem Guards.not_mem (h : d.Guards base [] (.name name :: todo) active)
    (hleads : d.Leads base (name :: todoNames todo) n loc) : base ++ [name] ∉ active := by
  intro hmem
  have h : d.Guards base [name] todo active := h
  obtain ⟨more, ⟨rest, hrest⟩, hout⟩ := h.outlasts hmem
  rw [← hrest, ← List.cons_append, ← List.singleton_append] at hleads
  obtain ⟨n₁, n₂, mid, -, h₁, -⟩ := hleads.split
  obtain ⟨b, x, k, l, heq, hk, hlt⟩ := hout n₁ mid h₁
  obtain ⟨rfl, hx⟩ := List.append_inj' heq rfl
  obtain rfl := List.singleton_inj.mp hx
  obtain ⟨m₁, m₂, mid', rfl, h₁, -⟩ := h₁.split
  have := (h₁.unique hk).1
  omega

theorem guards_names (names : List String) :
    d.Guards base passed (names.map .name ++ todo) active ↔
      d.Guards base (passed ++ names) todo active := by
  induction names generalizing passed with
  | nil => simp
  | cons x names ih =>
    rw [← List.singleton_append, ← List.append_assoc]
    exact ih

theorem todoNames_append (names : List String) (todo : List Todo) :
    todoNames (names.map .name ++ todo) = names ++ todoNames todo := by
  induction names with
  | nil => rfl
  | cons x names ih => simpa [todoNames] using ih

theorem resolve_of_nil {fuel left : Nat}
    (h : d.resolveUpTo base 0 todo = (loc, left, [])) : d.resolve fuel active base todo = loc := by
  rw [resolve, h]

theorem resolve_of_link {fuel left : Nat} {more : List Todo} {target : String}
    (h : d.resolveUpTo base 0 todo = (loc, left, .name name :: more))
    (hat : d.at? (loc ++ [name]) = some (.link target)) :
    d.resolve (fuel + 1) active base todo =
      if (active.drop left).contains (loc ++ [name]) then collapse (loc ++ [name] ++ todoNames more)
      else d.resolve fuel ((loc ++ [name]) :: active.drop left)
        (if (Path.ofString target).isAbsolute then [] else loc)
        ((Path.ofString target).parts.map .name ++ .leave :: more) := by
  rw [resolve, h]
  simp only [hat]

theorem resolve_of_exhausted {left : Nat} {more : List Todo}
    (h : d.resolveUpTo base 0 todo = (loc, left, .name name :: more)) :
    d.resolve 0 active base todo = collapse (loc ++ [name] ++ todoNames more) := by
  rw [resolve, h]

/-- Resolving up to the first link keeps where the path leads. -/
theorem resolveUpTo_leads (hleads : d.Leads base (todoNames todo) n loc)
    (hguards : d.Guards base [] todo active) (depth : Nat) :
    ∃ base' left todo', d.resolveUpTo base depth todo = (base', depth + left, todo') ∧
      d.Leads base' (todoNames todo') n loc ∧ d.Guards base' [] todo' (active.drop left) ∧
      (todo' = [] ∨ ∃ x todo'' target, todo' = .name x :: todo'' ∧ IsName x ∧
        d.shape? (base' ++ [x]) = some (.link target)) := by
  induction todo generalizing base active depth with
  | nil => exact ⟨base, 0, [], rfl, hleads, hguards, .inl rfl⟩
  | cons t todo ih =>
    cases t with
    | leave =>
      cases active with
      | nil => exact hguards.elim
      | cons link active =>
        obtain ⟨base', left, todo', heq, h⟩ := ih hleads hguards.2 (depth + 1)
        exact ⟨base', left + 1, todo', by rw [resolveUpTo, heq]; congr 2; omega, h⟩
    | name x =>
      have hguards : d.Guards base [x] todo active := hguards
      rw [todoNames] at hleads
      generalize hrest : todoNames todo = rest at hleads
      cases hleads with
      | up h =>
        obtain ⟨base', left, todo', heq, h⟩ := ih (hrest ▸ h)
          (hguards.transfer fun more _ m l hl => ⟨m, le_refl m, .up hl⟩) depth
        exact ⟨base', left, todo', by simpa [resolveUpTo] using heq, h⟩
      | folder hname hshape h =>
        obtain ⟨entries, hat⟩ := shape?_eq_folder.mp hshape
        obtain ⟨base', left, todo', heq, h⟩ := ih (hrest ▸ h)
          (hguards.transfer fun more _ m l hl => ⟨m, le_refl m, .folder hname hshape hl⟩) depth
        exact ⟨base', left, todo', by simpa [resolveUpTo, hname.1, hat] using heq, h⟩
      | file hname hshape =>
        have hguards : d.Guards (base ++ [x]) [] todo active := by
          refine hguards.transfer fun more hmore m l hl => ?_
          -- Nothing follows a file.
          obtain rfl : more = [] := List.prefix_nil.mp (hrest ▸ hmore)
          cases hl
          exact ⟨0, le_refl 0, .file hname hshape⟩
        have hdone : d.Leads (base ++ [x]) (todoNames todo) 0 (base ++ [x]) := by
          rw [hrest]
          exact .done _
        obtain ⟨base', left, todo', heq, h⟩ := ih hdone hguards depth
        exact ⟨base', left, todo',
          by simpa [resolveUpTo, hname.1, shape?_eq_file.mp hshape] using heq, h⟩
      | link hname hshape h =>
        subst hrest
        refine ⟨base, 0, .name x :: todo, ?_, .link hname hshape h, hguards,
          .inr ⟨x, todo, _, rfl, hname, hshape⟩⟩
        simp [resolveUpTo, hname.1, shape?_eq_link.mp hshape]

theorem Leads.of_link {target : String} (h : d.Leads base (name :: rest) n loc)
    (hname : IsName name) (hshape : d.shape? (base ++ [name]) = some (.link target)) :
    ∃ m, n = m + 1 ∧ d.Leads (jump base target rest).1 (jump base target rest).2 m loc := by
  cases h with
  | up h => exact absurd rfl hname.1
  | folder _ hshape' _ => simp [hshape] at hshape'
  | file _ hshape' => simp [hshape] at hshape'
  | link _ hshape' h =>
    obtain rfl := Shape.link.inj (Option.some.inj (hshape.symm.trans hshape'))
    exact ⟨_, rfl, h⟩

theorem Leads.of_up (h : d.Leads base (".." :: rest) n loc) : d.Leads base.dropLast rest n loc := by
  cases h with
  | up h => exact h
  | folder hname _ _ => exact absurd rfl hname.1
  | file hname _ => exact absurd rfl hname.1
  | link hname _ _ => exact absurd rfl hname.1

theorem Leads.of_folder (h : d.Leads base (name :: rest) n loc) (hname : IsName name)
    (hshape : d.shape? (base ++ [name]) = some .folder) : d.Leads (base ++ [name]) rest n loc := by
  cases h with
  | up h => exact absurd rfl hname.1
  | folder _ _ h => exact h
  | file _ hshape' => simp [hshape] at hshape'
  | link _ hshape' _ => simp [hshape] at hshape'

theorem Leads.of_file {content : ByteArray} (h : d.Leads base (name :: rest) n loc)
    (hname : IsName name) (hshape : d.shape? (base ++ [name]) = some (.file content)) :
    rest = [] := by
  cases h with
  | up h => exact absurd rfl hname.1
  | folder _ hshape' _ => simp [hshape] at hshape'
  | file _ _ => rfl
  | link _ hshape' _ => simp [hshape] at hshape'

/-- Resolving a path that leads somewhere ends there. -/
theorem resolve_leads {fuel : Nat} (hleads : d.Leads base (todoNames todo) n loc)
    (hguards : d.Guards base [] todo active) (hfuel : n ≤ fuel) :
    d.resolve fuel active base todo = loc := by
  induction fuel generalizing n base todo active with
  | zero =>
    obtain ⟨base', left, todo', heq, hleads, -, hend⟩ := resolveUpTo_leads hleads hguards 0
    rcases hend with rfl | ⟨x, todo, target, rfl, hname, hshape⟩
    · cases hleads
      exact resolve_of_nil heq
    · obtain ⟨m, rfl, -⟩ := hleads.of_link hname hshape
      omega
  | succ fuel ih =>
    obtain ⟨base', left, todo', heq, hleads, hguards, hend⟩ := resolveUpTo_leads hleads hguards 0
    rcases hend with rfl | ⟨x, todo, target, rfl, hname, hshape⟩
    · cases hleads
      exact resolve_of_nil heq
    · have hnot := hguards.not_mem hleads
      obtain ⟨m, rfl, hjump⟩ := hleads.of_link hname hshape
      have hguards : d.Guards base' [x] todo (active.drop left) := hguards
      rw [resolve_of_link heq (shape?_eq_link.mp hshape), Nat.zero_add,
        if_neg (by simpa using hnot)]
      refine ih (n := m) ?_ ?_ (by omega)
      · rw [todoNames_append]
        exact hjump
      · rw [guards_names]
        refine ⟨fun k l hl => ⟨base', x, k + 1, l, rfl, .link hname hshape ?_, by omega⟩, ?_⟩
        · simpa [jump] using hl
        · refine hguards.transfer fun more _ k l hl => ⟨k + 1, by omega, .link hname hshape ?_⟩
          simpa [jump] using hl

/-- The canonical form of a path that means something is its location. -/
theorem canonical_of_locate {p : Path} (h : d.locate p = .ok loc) :
    d.canonical p = .ok ⟨.root, loc⟩ := by
  obtain ⟨n, hn, hleads⟩ := locate_iff.mp h
  have hnull : p.parts.any hasNull = false := by
    simpa [List.any_eq_false] using hleads.hasNull_eq_false
  have hresolve : d.resolve canonicalFuel [] [] (p.parts.map .name) = loc := by
    have hnames : todoNames (p.parts.map .name) = p.parts := by
      simpa [todoNames] using todoNames_append p.parts []
    have hguards : d.Guards [] [] (p.parts.map .name ++ []) [] := (guards_names p.parts).mpr rfl
    rw [List.append_nil] at hguards
    exact resolve_leads (hnames.symm ▸ hleads) hguards (hn.trans (by decide))
  have hplace := hleads.isPlace (isPlace_nil d)
  have hself : d.locate ⟨.root, loc⟩ = .ok loc := locate_iff.mpr ⟨0, Nat.zero_le _, hplace.leads⟩
  simp [canonical, hnull, hresolve, hself]

end Disk

end ScriptModules
