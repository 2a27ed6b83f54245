import ScriptModules.Input.FileList
import ScriptModules.Proofs.Input.Finding
import ScriptModules.Proofs.Path.Retitle

/-!
# Listed input files

A list of input files is accepted when every entry is admitted and no two have the same normal form
(`listedInputs_ok_iff`). Where an entry leads to is looked up on the disk, but whether it repeats an
earlier one is told from its text. The text tells the file only for entries that go straight down
from the root (`Admits.locate_of_straight`); an entry that winds, over `..` or over a link, may lead
to a file that another entry lists too (`file_listed_twice`).

Main statement: `listedInputs_once_iff`.
-/

namespace ScriptModules

/-- The path that an entry of a list stands for. -/
def listedPath (root : Path) (entry : String) : Path := root.join (Path.ofString (normalize entry))

theorem listedPath_eq (root : Path) (entry : String) :
    listedPath root entry = Disk.under root (components isSeparator entry) := by
  have hkey : Path.ofString (normalize entry) = ⟨.none, components isSeparator entry⟩ :=
    keyPath_eq entry
  rw [listedPath, hkey]
  rfl

namespace Disk

/-- An entry that a list may hold: a relative path to a file that stays below the root. -/
structure Admits (d : Disk) (root : Path) (entry : String) : Prop where
  nonempty : normalize entry ≠ ""
  relative : (Path.ofString entry).isAbsolute = false
  within : d.isWithin (listedPath root entry) root = .ok true
  file : d.isFile (listedPath root entry) = true

/-- An entry does not go straight down from the root: it leads up, or over a link. -/
def Winds (d : Disk) (root : Path) (entry : String) : Prop :=
  ".." ∈ components isSeparator entry ∨
    ∃ way, way ≠ [] ∧ way <+: components isSeparator entry ∧ d.isLink (under root way) = true

instance (d : Disk) (root : Path) (entry : String) : Decidable (d.Winds root entry) :=
  decidable_of_iff (".." ∈ components isSeparator entry ∨
      ∃ way ∈ (components isSeparator entry).inits, way ≠ [] ∧ d.isLink (under root way) = true)
    (or_congr_right (exists_congr fun way => by rw [List.mem_inits, and_left_comm]))

/-- The paths mean the same file or folder. -/
def Same (d : Disk) (p q : Path) : Prop := ∃ loc, d.locate p = .ok loc ∧ d.locate q = .ok loc

instance (d : Disk) (p q : Path) : Decidable (d.Same p q) :=
  match hp : d.locate p with
  | .error _ => isFalse fun ⟨loc, h, _⟩ => by simp [hp] at h
  | .ok loc =>
    decidable_of_iff (d.locate q = .ok loc)
      ⟨fun hq => ⟨loc, hp, hq⟩, fun ⟨_, h, hq⟩ => by rw [hq, ← h, hp]⟩

/-- The path means a file that stands inside the folder which the root means. -/
def HoldsFile (d : Disk) (root p : Path) : Prop :=
  ∃ base names content, d.locate root = .ok base ∧ d.shape? base = some .folder ∧ names ≠ [] ∧
    d.locate p = .ok (base ++ names) ∧ d.shape? (base ++ names) = some (.file content)

end Disk

/-! ## Accepted lists -/

section

variable {d : Disk} {root : Path} {entry key : String} {entries seen keys : List String}
  {paths : List Path}

theorem checkInput_ok_iff : checkInput d root seen entry = .ok key ↔
    key = normalize entry ∧ d.Admits root entry ∧ key ∉ seen := by
  constructor
  · intro h
    unfold checkInput at h
    dsimp only at h
    split at h
    · cases h
    · next hrelative =>
      obtain ⟨within, hwithin, h⟩ := bind_eq_ok_iff.mp h
      split at h
      · cases h
      · next hin =>
        split at h
        · cases h
        · next hfile =>
          split at h
          · cases h
          · next hseen =>
            cases h
            obtain ⟨hne, hrel⟩ :
                normalize entry ≠ "" ∧ (Path.ofString entry).isAbsolute = false := by
              simpa using hrelative
            obtain rfl : within = true := by simpa using hin
            exact ⟨rfl, ⟨hne, hrel, hwithin, by simpa [listedPath] using hfile⟩,
              by simpa using hseen⟩
  · rintro ⟨rfl, hadmits, hseen⟩
    have hwithin := hadmits.within
    have hfile := hadmits.file
    rw [listedPath] at hwithin hfile
    simp [checkInput, hadmits.nonempty, hadmits.relative, hwithin, hfile, hseen, bind, Except.bind,
      pure, Except.pure]

theorem checkInputs_ok_iff : checkInputs d root seen entries = .ok keys ↔
    keys = seen ++ entries.map normalize ∧ (∀ e ∈ entries, d.Admits root e ∧ normalize e ∉ seen) ∧
      (entries.map normalize).Nodup := by
  induction entries generalizing seen with
  | nil => simp [checkInputs, eq_comm]
  | cons entry entries ih =>
    have hstep : checkInputs d root seen (entry :: entries) = .ok keys ↔
        (d.Admits root entry ∧ normalize entry ∉ seen) ∧
          checkInputs d root (seen ++ [normalize entry]) entries = .ok keys := by
      rw [checkInputs, bind_eq_ok_iff]
      simp only [checkInput_ok_iff]
      constructor
      · rintro ⟨key, ⟨rfl, hadmits, hnew⟩, h⟩
        exact ⟨⟨hadmits, hnew⟩, h⟩
      · rintro ⟨⟨hadmits, hnew⟩, h⟩
        exact ⟨_, ⟨rfl, hadmits, hnew⟩, h⟩
    rw [hstep, ih]
    simp only [List.map_cons, List.append_assoc, List.singleton_append, List.forall_mem_cons,
      List.nodup_cons, List.mem_append, List.mem_singleton, not_or, List.mem_map]
    grind

/-- A list is accepted exactly when it holds admitted entries with different normal forms. -/
theorem listedInputs_ok_iff : listedInputs d root entries = .ok paths ↔
    paths = entries.map (listedPath root) ∧ (∀ e ∈ entries, d.Admits root e) ∧
      (entries.map normalize).Nodup := by
  have hmap : (entries.map normalize).map (fun key => root.join (Path.ofString key)) =
      entries.map (listedPath root) := by
    rw [List.map_map]
    refine List.map_congr_left fun entry _ => ?_
    rw [Function.comp_apply, listedPath]
  rw [listedInputs, bind_eq_ok_iff]
  simp only [checkInputs_ok_iff, List.nil_append, List.not_mem_nil, not_false_eq_true, and_true,
    pure, Except.pure, Except.ok.injEq]
  constructor
  · rintro ⟨keys, ⟨rfl, hadmits, hnodup⟩, rfl⟩
    exact ⟨hmap, hadmits, hnodup⟩
  · rintro ⟨rfl, hadmits, hnodup⟩
    exact ⟨_, ⟨rfl, hadmits, hnodup⟩, hmap⟩

theorem mem_listedInputs (h : listedInputs d root entries = .ok paths) {p : Path} (hp : p ∈ paths) :
    ∃ entry ∈ entries, p = root.join (Path.ofString (normalize entry)) := by
  obtain ⟨rfl, -⟩ := listedInputs_ok_iff.mp h
  obtain ⟨entry, hentry, rfl⟩ := List.mem_map.mp hp
  exact ⟨entry, hentry, rfl⟩

end

/-! ## Where entries lead -/

namespace Disk

variable {d : Disk} {root : Path} {entry entry' : String} {base : Location}

/-- An admitted entry goes on from a folder, which the root means, and arrives at a file. -/
theorem Admits.leads (h : d.Admits root entry) :
    ∃ base n loc content, d.locate root = .ok base ∧ d.shape? base = some .folder ∧
      d.Leads base (components isSeparator entry) n loc ∧
      d.locate (listedPath root entry) = .ok loc ∧ d.shape? loc = some (.file content) := by
  obtain ⟨content, hread⟩ := isFile_iff.mp h.file
  obtain ⟨loc, hlocate, hshape⟩ := read_iff.mp hread
  have hne : components isSeparator entry ≠ [] :=
    fun hnil => h.nonempty (congrArg "/".intercalate hnil)
  obtain ⟨n, hn, hleads⟩ := locate_iff.mp hlocate
  rw [listedPath_eq, under] at hleads
  obtain ⟨n₁, n₂, base, rfl, hroot, hentry⟩ := hleads.split
  exact ⟨base, n₂, loc, content, locate_iff.mpr ⟨n₁, by omega, hroot⟩,
    hroot.folder_of_append (shape?_nil d) hne hleads, hentry, hlocate, hshape⟩

/-- An admitted entry leads to a file inside the root. -/
theorem Admits.holdsFile (h : d.Admits root entry) : d.HoldsFile root (listedPath root entry) := by
  obtain ⟨base, n, loc, content, hroot, hfolder, -, hlocate, hshape⟩ := h.leads
  have hbelow : base <+: loc := by
    have hwithin := h.within
    simpa [isWithin, canonical_of_locate hroot, canonical_of_locate hlocate, Path.below?, bind,
      Except.bind, pure, Except.pure] using hwithin
  obtain ⟨names, rfl⟩ := hbelow
  refine ⟨base, names, content, hroot, hfolder, ?_, hlocate, hshape⟩
  rintro rfl
  rw [List.append_nil, hfolder] at hshape
  cases hshape

/-- An entry that goes straight down leads to what it spells. -/
theorem Admits.locate_of_straight (h : d.Admits root entry) (hstraight : ¬ d.Winds root entry)
    (hroot : d.locate root = .ok base) :
    d.locate (listedPath root entry) = .ok (base ++ components isSeparator entry) := by
  obtain ⟨base', n, loc, content, hroot', -, hleads, hlocate, -⟩ := h.leads
  rw [hroot, Except.ok.injEq] at hroot'
  subst hroot'
  have hnames : ∀ name ∈ components isSeparator entry, IsName name := by
    intro name hname
    exact ⟨fun hup => hstraight (.inl (hup ▸ hname)), hleads.hasNull_eq_false name hname⟩
  have hlinks : ∀ way target, way ≠ [] → way <+: components isSeparator entry →
      d.shape? (base ++ way) ≠ some (.link target) := by
    intro way target hne hway hlink
    have hway' : ∀ name ∈ way, IsName name := fun name hname => hnames name (hway.subset hname)
    have hislink := (isLink_under_iff hroot hway' hne (by simp [hlink])).mpr ⟨target, hlink⟩
    exact hstraight (.inr ⟨way, hne, hway, hislink⟩)
  rw [hlocate, hleads.eq_append hnames hlinks]

/-- Entries that go straight down to the same file have the same normal form. -/
theorem Admits.normalize_eq (h : d.Admits root entry) (h' : d.Admits root entry')
    (hstraight : ¬ d.Winds root entry) (hstraight' : ¬ d.Winds root entry')
    (hsame : d.Same (listedPath root entry) (listedPath root entry')) :
    normalize entry = normalize entry' := by
  obtain ⟨loc, hloc, hloc'⟩ := hsame
  obtain ⟨base, -, -, -, hroot, -⟩ := h.leads
  rw [h.locate_of_straight hstraight hroot, Except.ok.injEq] at hloc
  rw [h'.locate_of_straight hstraight' hroot, Except.ok.injEq, ← hloc] at hloc'
  exact congrArg "/".intercalate (List.append_cancel_left hloc').symm

end Disk

/-- The paths of an accepted list come in its order, and each means a file inside the root. No file
is listed twice as long as no entry that winds leads to the file of another entry. -/
theorem listedInputs_once_iff (d : Disk) (root : Path) (entries : List String) (paths : List Path)
    (h : listedInputs d root entries = .ok paths) :
    paths = entries.map (listedPath root) ∧
    (∀ p ∈ paths, d.HoldsFile root p) ∧
    (paths.Pairwise (fun p q => ¬ d.Same p q) ↔ entries.Pairwise fun e e' =>
      d.Winds root e ∨ d.Winds root e' → ¬ d.Same (listedPath root e) (listedPath root e')) := by
  obtain ⟨rfl, hadmits, hnodup⟩ := listedInputs_ok_iff.mp h
  refine ⟨rfl, ?_, ?_⟩
  · intro p hp
    obtain ⟨entry, hentry, rfl⟩ := List.mem_map.mp hp
    exact (hadmits entry hentry).holdsFile
  · rw [List.pairwise_map]
    constructor
    · intro hapart
      refine hapart.imp ?_
      intro e e' hne _
      exact hne
    · intro hwinding
      refine ((List.pairwise_map.mp hnodup).and hwinding).imp_of_mem ?_
      rintro e e' he he' ⟨hne, hwinds⟩ hsame
      by_cases hwind : d.Winds root e ∨ d.Winds root e'
      · exact hwinds hwind hsame
      · -- Two straight entries have different normal forms, so they lead to different files.
        obtain ⟨hstraight, hstraight'⟩ := not_or.mp hwind
        exact hne ((hadmits e he).normalize_eq (hadmits e' he') hstraight hstraight' hsame)

/-- A folder with three files, one of which a link leads to. -/
def doubled : Disk :=
  ⟨[("src", .folder [("a.js", .file ⟨#[]⟩), ("b.js", .link "a.js"),
    ("lib", .folder [("c.js", .file ⟨#[]⟩)]), ("d.js", .file ⟨#[]⟩)])]⟩

theorem listedInputs_once_iff_doubled :
    let root : Path := ⟨.root, ["src"]⟩
    let entries := ["lib\\c.js", ".//d.js", "lib/../b.js"]
    let paths : List Path := [⟨.root, ["src", "lib", "c.js"]⟩, ⟨.root, ["src", "d.js"]⟩,
      ⟨.root, ["src", "lib", "..", "b.js"]⟩]
    listedInputs doubled root entries = .ok paths ∧ (∀ p ∈ paths, doubled.HoldsFile root p) ∧
      paths.Pairwise (fun p q => ¬ doubled.Same p q) := by
  intro root entries paths
  have h : listedInputs doubled root entries = .ok paths := by decide +kernel
  obtain ⟨-, hfiles, honce⟩ := listedInputs_once_iff doubled root entries paths h
  exact ⟨h, hfiles, honce.mpr (by decide +kernel)⟩

/-- A file is listed a second time over `..`, and a third time over a link. -/
theorem file_listed_twice :
    let p : Path := ⟨.root, ["src", "a.js"]⟩
    let q : Path := ⟨.root, ["src", "lib", "..", "a.js"]⟩
    let r : Path := ⟨.root, ["src", "b.js"]⟩
    listedInputs doubled ⟨.root, ["src"]⟩ ["a.js", "lib/../a.js", "b.js"] = .ok [p, q, r] ∧
      doubled.Same p q ∧ doubled.Same p r := by
  decide +kernel

end ScriptModules
