import ScriptModules.Input.Find
import ScriptModules.Proofs.Disk.Follow

/-!
# Reading by location

What is read at a path is what stands at its location (`read_iff`, `list_iff`, `isFolder_iff`), so a
disk that has more gives the same answers about what is there (`read_mono`).

A path is straight when its components are names and none of them is a link. It then leads to its
own components or nowhere (`stretch_straight`, `stretch_self`, `stretch_absent`). Canonical forms
have no component `..`, and they depend on the links of a disk only (`resolve_congr`).
-/

namespace ScriptModules

namespace Disk

variable {d d' d'' : Disk} {p root : Path} {base loc names : Location} {parts rest : List String}
  {content : ByteArray} {follow : Bool}

theorem Extends.trans (h : d.Extends d') (h' : d'.Extends d'') : d.Extends d'' :=
  fun loc s hs => h' loc s (h loc s hs)

theorem remove_extends (hne : loc ≠ []) : (d.remove loc).Extends d := by
  intro target shape hshape
  rw [shape?_remove hne] at hshape
  split at hshape
  · cases hshape
  · exact hshape

theorem entry_iff {e : Entry} :
    d.entry p = .ok e ↔ ∃ loc, d.locate p = .ok loc ∧ d.at? loc = some e := by
  unfold entry
  cases hloc : d.locate p with
  | error fault => simp [bind, Except.bind]
  | ok loc =>
    cases hat : d.at? loc with
    | none => simp [bind, Except.bind, hat, throw, throwThe, MonadExceptOf.throw]
    | some e => simp [bind, Except.bind, hat, pure, Except.pure]

theorem read_iff :
    d.read p = .ok content ↔ ∃ loc, d.locate p = .ok loc ∧ d.shape? loc = some (.file content) := by
  have hentry : d.read p = .ok content ↔ d.entry p = .ok (.file content) := by
    unfold read
    cases d.entry p with
    | error fault => simp [bind, Except.bind]
    | ok e =>
      cases e <;>
        simp [bind, Except.bind, throw, throwThe, MonadExceptOf.throw, pure, Except.pure]
  simp only [hentry, entry_iff, shape?_eq_file]

theorem list_iff {entries : List (String × Entry)} :
    d.list p = .ok entries ↔ ∃ loc, d.locate p = .ok loc ∧ d.at? loc = some (.folder entries) := by
  have hentry : d.list p = .ok entries ↔ d.entry p = .ok (.folder entries) := by
    unfold list
    cases d.entry p with
    | error fault => simp [bind, Except.bind]
    | ok e =>
      cases e <;>
        simp [bind, Except.bind, throw, throwThe, MonadExceptOf.throw, pure, Except.pure]
  rw [hentry, entry_iff]

theorem isFile_iff : d.isFile p = true ↔ ∃ content, d.read p = .ok content := by
  unfold isFile read
  cases d.entry p with
  | error fault => simp [bind, Except.bind]
  | ok e =>
    cases e <;>
      simp [bind, Except.bind, throw, throwThe, MonadExceptOf.throw, pure, Except.pure]

theorem isFolder_iff :
    d.isFolder p = true ↔ ∃ loc, d.locate p = .ok loc ∧ d.shape? loc = some .folder := by
  have hentry : d.isFolder p = true ↔ ∃ entries, d.entry p = .ok (.folder entries) := by
    unfold isFolder
    cases d.entry p with
    | error fault => simp
    | ok e => cases e <;> simp
  simp only [hentry, entry_iff, shape?_eq_folder]
  tauto

theorem exists?_iff : d.exists? p = true ↔ ∃ loc, d.locate p = .ok loc := by
  unfold exists?
  cases d.locate p <;> simp [Except.isOk, Except.toBool]

theorem read_mono (hext : d.Extends d') (h : d.read p = .ok content) : d'.read p = .ok content := by
  obtain ⟨loc, hloc, hshape⟩ := read_iff.mp h
  exact read_iff.mpr ⟨loc, locate_mono hext hloc, hext loc _ hshape⟩

theorem isFile_mono (hext : d.Extends d') (h : d.isFile p = true) : d'.isFile p = true := by
  obtain ⟨content, hread⟩ := isFile_iff.mp h
  exact isFile_iff.mpr ⟨content, read_mono hext hread⟩

theorem Leads.append {n m : Nat} {mid : Location} (h : d.Leads base parts n mid)
    (hmid : d.shape? mid = some .folder) (h' : d.Leads mid rest m loc) :
    d.Leads base (parts ++ rest) (n + m) loc := by
  induction h with
  | done base => simpa using h'
  | up _ ih => exact .up (ih hmid h')
  | folder hname hshape _ ih => exact .folder hname hshape (ih hmid h')
  | file hname hshape => simp [hshape] at hmid
  | @link base name target parts n mid hname hshape _ ih =>
    rw [Nat.add_right_comm]
    refine .link hname hshape ?_
    show d.Leads (jump base target (parts ++ rest)).1 (jump base target (parts ++ rest)).2 _ _
    rw [jump_append]
    exact ih hmid h'

/-- A path goes on only behind folders. -/
theorem Leads.folder_of_append {n m : Nat} {mid : Location} (h : d.Leads base parts n mid)
    (hbase : d.shape? base = some .folder) (hrest : rest ≠ [])
    (h' : d.Leads base (parts ++ rest) m loc) : d.shape? mid = some .folder := by
  induction h generalizing m with
  | done base => exact hbase
  | @up base parts n mid _ ih =>
    refine ih ?_ (Leads.of_up h')
    rcases List.eq_nil_or_concat' base with rfl | ⟨init, name, rfl⟩
    · exact hbase
    · rw [List.dropLast_concat]
      exact shape?_folder_of_append (List.cons_ne_nil name []) (by simp [hbase])
  | folder hname hshape _ ih => exact ih hshape (Leads.of_folder h' hname hshape)
  | file hname hshape => exact absurd (Leads.of_file h' hname hshape) hrest
  | @link base name target parts n mid hname hshape _ ih =>
    obtain ⟨k, -, h'⟩ := Leads.of_link h' hname hshape
    change d.Leads (jump base target (parts ++ rest)).1 (jump base target (parts ++ rest)).2 k loc
      at h'
    rw [jump_append] at h'
    refine ih ?_ h'
    show d.shape? (if (Path.ofString target).isAbsolute then [] else base) = some .folder
    split
    · rfl
    · exact hbase

/-- The names of an entry below a folder lead to it from the folder's path. -/
theorem locate_under (hroot : d.locate root = .ok base) (hnames : ∀ name ∈ names, IsName name)
    (hshape : d.shape? (base ++ names) ≠ none)
    (hlink : ∀ target, d.shape? (base ++ names) ≠ some (.link target)) :
    d.locate (under root names) = .ok (base ++ names) := by
  obtain ⟨n, hn, hleads⟩ := locate_iff.mp hroot
  by_cases hnil : names = []
  · subst hnil
    simpa [under] using hroot
  · have hfolder := shape?_folder_of_append hnil hshape
    exact locate_iff.mpr ⟨n, hn, hleads.append hfolder (leads_self hnames hshape hlink)⟩

/-- Links on the way are followed also where a link at the end is not. -/
theorem Leads.follow_self {n budget : Nat} {mid : Location} (h : d.Leads base parts n mid)
    (hmid : d.shape? mid = some .folder) (hrest : rest ≠ [])
    (harrived : d.stretch false mid rest = .ok (.arrived loc)) (hbudget : n ≤ budget) :
    d.follow false budget base (parts ++ rest) = .ok loc := by
  induction h generalizing budget with
  | done base => exact follow_of_arrived harrived
  | up _ ih =>
    have hstep := ih hmid harrived hbudget
    rw [follow] at hstep ⊢
    simpa [stretch] using hstep
  | folder hname hshape _ ih =>
    obtain ⟨entries, hat⟩ := shape?_eq_folder.mp hshape
    have hstep := ih hmid harrived hbudget
    rw [follow] at hstep ⊢
    simpa [stretch, hname.1, hname.2, hat] using hstep
  | file hname hshape => simp [hshape] at hmid
  | @link base name target parts n mid hname hshape _ ih =>
    obtain ⟨budget, rfl⟩ : ∃ b, budget = b + 1 := ⟨budget - 1, by omega⟩
    have hlinked : d.stretch false base (name :: parts ++ rest) =
        .ok (.linked base target (parts ++ rest)) := by
      simp [stretch, hname.1, hname.2, shape?_eq_link.mp hshape, hrest]
    rw [follow_of_linked hlinked, jump_append]
    exact ih hmid harrived (by omega)

/-- The names of an entry below a folder lead to the entry itself, be it a link. -/
theorem locateSelf_under (hroot : d.locate root = .ok base) (hnames : ∀ name ∈ names, IsName name)
    (hne : names ≠ []) (hshape : d.shape? (base ++ names) ≠ none) :
    d.locateSelf (under root names) = .ok (base ++ names) := by
  obtain ⟨n, hn, hleads⟩ := locate_iff.mp hroot
  have harrived : d.stretch false base names = .ok (.arrived (base ++ names)) :=
    stretch_self hnames hshape (by simp)
  exact hleads.follow_self (shape?_folder_of_append hne hshape) hne harrived hn

/-- What stands below a folder is a link exactly when its path is one. -/
theorem isLink_under_iff (hroot : d.locate root = .ok base) (hnames : ∀ name ∈ names, IsName name)
    (hne : names ≠ []) (hshape : d.shape? (base ++ names) ≠ none) :
    d.isLink (under root names) = true ↔
      ∃ target, d.shape? (base ++ names) = some (.link target) := by
  unfold isLink entrySelf
  rw [locateSelf_under hroot hnames hne hshape]
  cases hat : d.at? (base ++ names) with
  | none => exact absurd (shape?_eq_none.mpr hat) hshape
  | some e =>
    simp only [shape?_eq_link, hat]
    cases e <;> simp [hat, bind, Except.bind, pure, Except.pure]

/-! ## Straight paths -/

/-- Names without a link on the way lead to what they spell. -/
theorem Leads.eq_append {n : Nat} (h : d.Leads base names n loc)
    (hnames : ∀ name ∈ names, IsName name)
    (hlinks : ∀ way target, way ≠ [] → way <+: names →
      d.shape? (base ++ way) ≠ some (.link target)) : loc = base ++ names := by
  induction h with
  | done base => simp
  | up _ _ => exact absurd rfl (hnames ".." (by simp)).1
  | @folder base name rest n loc hname hshape _ ih =>
    rw [List.append_cons]
    refine ih (fun m hm => hnames m (by simp [hm])) fun way target hne hway => ?_
    have := hlinks (name :: way) target (by simp) (List.cons_prefix_cons.mpr ⟨rfl, hway⟩)
    rwa [List.append_cons] at this
  | file hname hshape => rfl
  | link hname hshape _ _ => exact absurd hshape (hlinks [_] _ (by simp) (by simp))

/-- No component of the location is `..`, and nothing on the way to it or at it is a link. -/
def Straight (d : Disk) (loc : Location) : Prop :=
  ".." ∉ loc ∧ ∀ way target, way <+: loc → d.shape? way ≠ some (.link target)

theorem Straight.on_way (h : d.Straight loc) (hbase : base <+: loc) : d.Straight base :=
  ⟨fun hup => h.1 (hbase.subset hup), fun way target hway => h.2 way target (hway.trans hbase)⟩

theorem stretch_absent (hnames : ∀ name ∈ rest, IsName name)
    (hclear : ∀ way, way <+: rest → d.shape? (base ++ way) = none ∨
      d.shape? (base ++ way) = some .folder)
    (hbase : d.shape? base = some .folder) (habsent : d.shape? (base ++ rest) = none) :
    d.stretch follow base rest = .error .notFound := by
  induction rest generalizing base with
  | nil => simp [hbase] at habsent
  | cons name rest ih =>
    have hname := hnames name (List.mem_cons_self ..)
    have hnames : ∀ n ∈ rest, IsName n := fun n hn => hnames n (List.mem_cons_of_mem name hn)
    rcases hclear [name] (by simp) with hnone | hfolder
    · simp [stretch, hname.1, hname.2, shape?_eq_none.mp hnone]
    · obtain ⟨entries, hat⟩ := shape?_eq_folder.mp hfolder
      have hrest : d.stretch follow (base ++ [name]) rest = .error .notFound := by
        refine ih hnames (fun way hway => ?_) hfolder ?_
        · rw [List.append_assoc]
          exact hclear ([name] ++ way) (List.prefix_append_right_inj [name] |>.mpr hway)
        · rwa [List.append_assoc]
      simpa [stretch, hname.1, hname.2, hat] using hrest

/-- What a straight path can lead to. -/
theorem stretch_straight {result : Stretch} (hup : ".." ∉ rest)
    (hlinks : ∀ way target, way <+: rest → d.shape? (base ++ way) ≠ some (.link target))
    (h : d.stretch follow base rest = .ok result) :
    result = .arrived (base ++ rest) ∧ (∀ name ∈ rest, IsName name) ∧
      (rest ≠ [] → d.shape? (base ++ rest) ≠ none) := by
  induction rest generalizing base with
  | nil =>
    cases h
    simp
  | cons name rest ih =>
    have hname : name ≠ ".." := fun heq => hup (heq ▸ List.mem_cons_self ..)
    have hup : ".." ∉ rest := fun hmem => hup (List.mem_cons_of_mem name hmem)
    by_cases hnull : hasNull name = true
    · simp [stretch, hname, hnull] at h
    · have hisName : IsName name := ⟨hname, by simpa using hnull⟩
      cases hat : d.at? (base ++ [name]) with
      | none => simp [stretch, hname, hnull, hat] at h
      | some e =>
        cases e with
        | folder entries =>
          have hstretch : d.stretch follow (base ++ [name]) rest = .ok result := by
            simpa [stretch, hname, hnull, hat] using h
          have hlinks : ∀ way target, way <+: rest →
              d.shape? (base ++ [name] ++ way) ≠ some (.link target) := by
            intro way target hway
            rw [List.append_assoc]
            exact hlinks ([name] ++ way) target (List.prefix_append_right_inj [name] |>.mpr hway)
          obtain ⟨hresult, hnames, hshape⟩ := ih hup hlinks hstretch
          rw [List.append_cons]
          refine ⟨hresult, by simpa using ⟨hisName, hnames⟩, fun _ => ?_⟩
          by_cases hrest : rest = []
          · simp [hrest, shape?_eq_folder.mpr ⟨entries, hat⟩]
          · exact hshape hrest
        | file content =>
          by_cases hrest : rest = []
          · subst hrest
            have hresult : Stretch.arrived (base ++ [name]) = result := by
              simpa [stretch, hname, hnull, hat] using h
            exact ⟨hresult.symm, by simpa using hisName, by simp [shape?_eq_file.mpr hat]⟩
          · simp [stretch, hname, hnull, hat, hrest] at h
        | link target => exact absurd (shape?_eq_link.mpr hat) (hlinks [name] target (by simp))

/-! ## Canonical forms -/

theorem not_mem_dropLast {x : String} (h : x ∉ loc) : x ∉ loc.dropLast :=
  fun hmem => h (List.dropLast_subset loc hmem)

theorem up_not_mem_collapse (parts : List String) : ".." ∉ collapse parts := by
  have hfold : ∀ loc : Location, ".." ∉ loc →
      ".." ∉ parts.foldl (fun loc n => if n = ".." then loc.dropLast else loc ++ [n]) loc := by
    induction parts with
    | nil => exact fun loc h => h
    | cons name parts ih =>
      intro loc h
      refine ih _ ?_
      dsimp only
      split
      · exact not_mem_dropLast h
      · next hname => simpa using ⟨h, Ne.symm hname⟩
  exact hfold [] (by simp)

theorem up_not_mem_resolveUpTo {depth : Nat} {todo : List Todo} (h : ".." ∉ base) :
    ".." ∉ (d.resolveUpTo base depth todo).1 := by
  fun_induction resolveUpTo d base depth todo with
  | case1 => exact h
  | case2 base depth rest ih => exact ih h
  | case3 base depth rest ih => exact ih (not_mem_dropLast h)
  | case4 => exact h
  | case5 base depth name rest hname _ ih => exact ih (by simpa using ⟨h, Ne.symm hname⟩)

/-- Resolving up to the first link stops at a link or at the end. -/
theorem resolveUpTo_rest (d : Disk) (base : Location) (depth : Nat) (todo : List Todo) :
    (d.resolveUpTo base depth todo).2.2 = [] ∨ ∃ name rest target,
      (d.resolveUpTo base depth todo).2.2 = .name name :: rest ∧
        d.at? ((d.resolveUpTo base depth todo).1 ++ [name]) = some (.link target) := by
  fun_induction resolveUpTo d base depth todo with
  | case1 => exact .inl rfl
  | case2 base depth rest ih => exact ih
  | case3 base depth rest ih => exact ih
  | case4 base depth name rest hname target hat => exact .inr ⟨name, rest, target, rfl, hat⟩
  | case5 base depth name rest hname _ ih => exact ih

theorem up_not_mem_resolve {fuel : Nat} {active : List Location} {todo : List Todo}
    (h : ".." ∉ base) : ".." ∉ d.resolve fuel active base todo := by
  induction fuel generalizing active base todo with
  | zero =>
    have hbase : ".." ∉ (d.resolveUpTo base 0 todo).1 := up_not_mem_resolveUpTo h
    have hrest := d.resolveUpTo_rest base 0 todo
    rcases hup : d.resolveUpTo base 0 todo with ⟨loc, left, rest⟩
    rw [hup] at hbase hrest
    rcases hrest with hnil | ⟨name, rest, target, hcons, hat⟩
    · cases hnil
      rwa [resolve_of_nil hup]
    · cases hcons
      rw [resolve_of_exhausted hup]
      exact up_not_mem_collapse _
  | succ fuel ih =>
    have hbase : ".." ∉ (d.resolveUpTo base 0 todo).1 := up_not_mem_resolveUpTo h
    have hrest := d.resolveUpTo_rest base 0 todo
    rcases hup : d.resolveUpTo base 0 todo with ⟨loc, left, rest⟩
    rw [hup] at hbase hrest
    rcases hrest with hnil | ⟨name, rest, target, hcons, hat⟩
    · cases hnil
      rwa [resolve_of_nil hup]
    · cases hcons
      rw [resolve_of_link hup hat]
      split
      · exact up_not_mem_collapse _
      · refine ih ?_
        split
        · simp
        · exact hbase

/-- The same links are at the same locations. -/
def SameLinks (d d' : Disk) : Prop :=
  ∀ loc target, d.shape? loc = some (.link target) ↔ d'.shape? loc = some (.link target)

theorem resolveUpTo_congr (h : d.SameLinks d') (base : Location) (depth : Nat) (todo : List Todo) :
    d.resolveUpTo base depth todo = d'.resolveUpTo base depth todo := by
  fun_induction resolveUpTo d base depth todo with
  | case1 => rfl
  | case2 base depth rest ih => exact ih
  | case3 base depth rest ih => simpa [resolveUpTo] using ih
  | case4 base depth name rest hname target hat =>
    have hat' := shape?_eq_link.mp ((h _ _).mp (shape?_eq_link.mpr hat))
    simp [resolveUpTo, hname, hat']
  | case5 base depth name rest hname hat ih =>
    rw [resolveUpTo, if_neg hname]
    split
    · next target hat' =>
      exact absurd (shape?_eq_link.mp ((h _ _).mpr (shape?_eq_link.mpr hat'))) (hat target)
    · exact ih

/-- How a path is resolved depends on the links only. -/
theorem resolve_congr (h : d.SameLinks d') (fuel : Nat) (active : List Location) (base : Location)
    (todo : List Todo) : d.resolve fuel active base todo = d'.resolve fuel active base todo := by
  induction fuel generalizing active base todo with
  | zero =>
    have hrest := d.resolveUpTo_rest base 0 todo
    rcases hup : d.resolveUpTo base 0 todo with ⟨loc, left, rest⟩
    have hup' := resolveUpTo_congr h base 0 todo ▸ hup
    rw [hup] at hrest
    rcases hrest with hnil | ⟨name, rest, target, hcons, hat⟩
    · cases hnil
      rw [resolve_of_nil hup, resolve_of_nil hup']
    · cases hcons
      rw [resolve_of_exhausted hup, resolve_of_exhausted hup']
  | succ fuel ih =>
    have hrest := d.resolveUpTo_rest base 0 todo
    rcases hup : d.resolveUpTo base 0 todo with ⟨loc, left, rest⟩
    have hup' := resolveUpTo_congr h base 0 todo ▸ hup
    rw [hup] at hrest
    rcases hrest with hnil | ⟨name, rest, target, hcons, hat⟩
    · cases hnil
      rw [resolve_of_nil hup, resolve_of_nil hup']
    · cases hcons
      have hat' := shape?_eq_link.mp ((h _ _).mp (shape?_eq_link.mpr hat))
      rw [resolve_of_link hup hat, resolve_of_link hup' hat', ih]

theorem canonical_ok {q : Path} (h : d.canonical p = .ok q) :
    q = ⟨.root, d.resolve canonicalFuel [] [] (p.parts.map .name)⟩ ∧ ".." ∉ q.parts ∧
      p.parts.any hasNull = false := by
  unfold canonical at h
  split at h
  · cases h
  · next hnull =>
    dsimp only at h
    split at h
    · cases h
    · cases h
      exact ⟨rfl, up_not_mem_resolve (by simp), by simpa using hnull⟩

/-- A canonical form that is a place is the same on a disk with the same links. -/
theorem canonical_congr (h : d.SameLinks d') {q : Path} (hq : d.canonical p = .ok q)
    (hplace : d'.IsPlace q.parts) : d'.canonical p = .ok q := by
  obtain ⟨rfl, -, hnull⟩ := canonical_ok hq
  rw [resolve_congr h] at hplace ⊢
  have hself : d'.locate ⟨.root, d'.resolve canonicalFuel [] [] (p.parts.map .name)⟩ = .ok _ :=
    locate_iff.mpr ⟨0, Nat.zero_le _, hplace.leads⟩
  simp [canonical, hnull, hself]

end Disk

end ScriptModules
