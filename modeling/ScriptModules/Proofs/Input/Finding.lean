import ScriptModules.Input.Find
import ScriptModules.Proofs.Disk.Listing
import ScriptModules.Proofs.Disk.Reading
import ScriptModules.Proofs.Disk.Step

/-!
# What a search for scripts finds

A walk starts at the location of the source root, and the canonical form of the root is that
location; so the folders that it skips are told by their locations (`mayEnter_iff`). The scripts and
the folders that are found are those that stand on the disk behind folders that may be entered
(`findScripts_iff`, `folderNames_eq`, `mem_walked`). Which files are ignored is told by the rules of
the ignore files that the walk passes (`ignoreFiles_ok_iff`, `isIgnored_iff`).
-/

namespace ScriptModules

namespace Disk

variable {d : Disk} {root : Path} {base names : Location} {skip : List Path}
  {entries : List (String × Entry)}

theorem Tidy.folder (h : d.Tidy) (hat : d.at? base = some (.folder entries)) :
    Entry.Tidy entries := by
  intro loc inner hinner
  have hinner' : d.at? (base ++ loc) = some (.folder inner) := by
    rw [at?_append, hat, Option.bind_some, Entry.inside?_folder, hinner]
  exact h (base ++ loc) inner hinner'

theorem mayEnter_iff :
    mayEnter ⟨.root, base⟩ skip names = true ↔ ⟨.root, base ++ names⟩ ∉ skip := by
  simp [mayEnter, under]

/-- What a walk meets: what is there, behind folders that are not skipped. -/
theorem mem_walked (htidy : d.Tidy) (hat : d.at? base = some (.folder entries)) {e : Entry} :
    (names, e) ∈ descendants entries (mayEnter ⟨.root, base⟩ skip) ↔
      names ≠ [] ∧ d.at? (base ++ names) = some e ∧
        ∀ way, way ≠ [] → way <+: names → way ≠ names → ⟨.root, base ++ way⟩ ∉ skip := by
  rw [mem_descendants (htidy.folder hat), at?_append, hat, Option.bind_some, Entry.inside?_folder]
  simp only [Entry.Passable, List.nil_append, mayEnter_iff]

theorem walk_iff {met : List (Location × Entry)} :
    d.walk root skip = .ok met ↔ ∃ base entries, d.locate root = .ok base ∧
      d.at? base = some (.folder entries) ∧
      met = descendants entries (mayEnter ⟨.root, base⟩ skip) := by
  constructor
  · intro h
    cases hlist : d.list root with
    | error fault => simp [walk, hlist, bind, Except.bind] at h
    | ok entries =>
      obtain ⟨base, hlocate, hat⟩ := list_iff.mp hlist
      have hmet : descendants entries (mayEnter ⟨.root, base⟩ skip) = met := by
        simpa [walk, hlist, canonical_of_locate hlocate, bind, Except.bind, pure, Except.pure]
          using h
      exact ⟨base, entries, hlocate, hat, hmet.symm⟩
  · rintro ⟨base, entries, hlocate, hat, rfl⟩
    have hlist := list_iff.mpr ⟨base, hlocate, hat⟩
    simp [walk, hlist, canonical_of_locate hlocate, bind, Except.bind, pure, Except.pure]

end Disk

/-! ## Ignore files -/

namespace Disk

variable {d : Disk} {root : Path} {base names target : Location} {nested : Bool}
  {content : ByteArray} {ignoring : IgnoreReader} {ignored : List (Location × (String → Bool))}

/-- What a path just below a folder leads to starts with what stands there. -/
theorem shape?_of_locate_under {name : String} {loc : Location} (hroot : d.locate root = .ok base)
    (hname : IsName name) (h : d.locate (under root [name]) = .ok loc) :
    d.shape? (base ++ [name]) ≠ none := by
  obtain ⟨n, -, hleads⟩ := locate_iff.mp h
  obtain ⟨n₁, n₂, mid, -, hfirst, hlast⟩ := hleads.split
  obtain ⟨m, -, hleads'⟩ := locate_iff.mp hroot
  obtain ⟨-, rfl⟩ := hfirst.unique hleads'
  cases hlast with
  | up h => exact absurd rfl hname.1
  | folder _ hshape _ => simp [hshape]
  | file _ hshape => simp [hshape]
  | link _ hshape _ => simp [hshape]

theorem mem_ignorePlaces (htidy : d.Tidy) (hroot : d.locate root = .ok base)
    (hfolder : d.shape? base = some .folder) :
    names ∈ d.ignorePlaces root nested ↔ d.isFile (under root names) = true ∧
      names.getLast? = some ignoreName ∧ d.shape? (base ++ names) ≠ none ∧
      (nested = false → names = [ignoreName]) := by
  obtain ⟨entries, hat⟩ := shape?_eq_folder.mp hfolder
  unfold ignorePlaces
  rw [List.mem_mergeSort, List.mem_filter]
  cases nested with
  | false =>
    simp only [Bool.false_eq_true, if_false, List.mem_singleton]
    constructor
    · rintro ⟨rfl, hfile⟩
      obtain ⟨content, hread⟩ := isFile_iff.mp hfile
      obtain ⟨loc, hlocate, -⟩ := read_iff.mp hread
      have hname : IsName ignoreName := by decide
      exact ⟨hfile, rfl, shape?_of_locate_under hroot hname hlocate, fun _ => rfl⟩
    · rintro ⟨hfile, -, -, hnames⟩
      exact ⟨hnames trivial, hfile⟩
  | true =>
    have hlist := list_iff.mpr ⟨base, hroot, hat⟩
    simp only [if_true, hlist, List.mem_filter, List.mem_map, decide_eq_true_eq]
    constructor
    · rintro ⟨⟨⟨⟨_, e⟩, hmem, rfl⟩, hlast⟩, hfile⟩
      obtain ⟨-, hlookup, -⟩ := (mem_descendants (htidy.folder hat)).mp hmem
      refine ⟨hfile, hlast, ?_, by simp⟩
      rw [Ne, shape?_eq_none, at?_append, hat, Option.bind_some, Entry.inside?_folder, hlookup]
      simp
    · rintro ⟨hfile, hlast, hshape, -⟩
      refine ⟨⟨?_, hlast⟩, hfile⟩
      rw [Ne, shape?_eq_none, at?_append, hat, Option.bind_some, Entry.inside?_folder] at hshape
      obtain ⟨e, he⟩ := Option.ne_none_iff_exists'.mp hshape
      have hnil : names ≠ [] := by
        rintro rfl
        simp at hlast
      exact ⟨(names, e),
        (mem_descendants (htidy.folder hat)).mpr ⟨hnil, he, by simp [Entry.Passable]⟩,
        rfl⟩

theorem shape?_of_mem_ignorePlaces (htidy : d.Tidy) (hroot : d.locate root = .ok base)
    (hfolder : d.shape? base = some .folder) (h : names ∈ d.ignorePlaces root nested) :
    d.shape? (base ++ names) ≠ none ∧ d.shape? (base ++ names) ≠ some .folder := by
  obtain ⟨hfile, -, hthere, -⟩ := (mem_ignorePlaces htidy hroot hfolder).mp h
  refine ⟨hthere, fun hshape => ?_⟩
  obtain ⟨content, hread⟩ := isFile_iff.mp hfile
  obtain ⟨loc, hlocate, hcontent⟩ := read_iff.mp hread
  have hnames : ∀ name ∈ names, IsName name := fun name hname =>
    htidy.isName hthere name (List.mem_append_right base hname)
  rw [locate_under hroot hnames hthere (by simp [hshape]), Except.ok.injEq] at hlocate
  rw [← hlocate, hshape] at hcontent
  cases hcontent

/-- The ignore file with these names can be read, and leaves these paths out. -/
def HasRules (ignoring : IgnoreReader) (d : Disk) (root : Path) (names : Location)
    (rules : String → Bool) : Prop :=
  ∃ content, d.read (under root names) = .ok content ∧ ignoring content = .ok rules

/-- What an ignore file leaves out, with the folder that it stands in. -/
def readIgnore (ignoring : IgnoreReader) (d : Disk) (root : Path) (names : Location) :
    Except Fault (Location × (String → Bool)) := do
  let content ← (d.read (under root names)).mapError (.disk · (under root names))
  let ignores ← (ignoring content).mapError .ignore
  return (names.dropLast, ignores)

theorem readIgnore_ok_iff {folder : Location} {rules : String → Bool} :
    d.readIgnore ignoring root names = .ok (folder, rules) ↔
      folder = names.dropLast ∧ d.HasRules ignoring root names rules := by
  simp only [readIgnore, HasRules, bind_eq_ok_iff, mapError_eq_ok_iff]
  constructor
  · rintro ⟨content, hread, rules, hrules, h⟩
    cases h
    exact ⟨rfl, content, hread, hrules⟩
  · rintro ⟨rfl, content, hread, hrules⟩
    exact ⟨content, hread, rules, hrules, rfl⟩

theorem ignoreFiles_ok_iff : (∃ ignored, d.ignoreFiles ignoring root nested = .ok ignored) ↔
    ∀ names ∈ d.ignorePlaces root nested, ∃ rules, d.HasRules ignoring root names rules := by
  constructor
  · rintro ⟨ignored, h⟩ names hnames
    obtain ⟨⟨folder, rules⟩, -, hread⟩ :=
      exists_ok_of_mapM (f := d.readIgnore ignoring root) h hnames
    exact ⟨rules, (readIgnore_ok_iff.mp hread).2⟩
  · intro h
    refine mapM_ok_of_forall (f := d.readIgnore ignoring root) fun names hnames => ?_
    obtain ⟨rules, hrules⟩ := h names hnames
    exact ⟨(names.dropLast, rules), readIgnore_ok_iff.mpr ⟨rfl, hrules⟩⟩

/-- A path is ignored when an ignore file in a folder on the way to it says so. -/
theorem isIgnored_iff (h : d.ignoreFiles ignoring root nested = .ok ignored) :
    isIgnored ignored target = true ↔ ∃ names ∈ d.ignorePlaces root nested,
      ∃ rules, d.HasRules ignoring root names rules ∧ names.dropLast <+: target ∧
        rules ("/".intercalate (target.drop names.dropLast.length)) = true := by
  simp only [isIgnored, List.any_eq_true, Bool.and_eq_true, List.isPrefixOf_iff_prefix]
  constructor
  · rintro ⟨⟨folder, rules⟩, hmem, hway, hignores⟩
    obtain ⟨names, hnames, hread⟩ := exists_mem_of_mapM (f := d.readIgnore ignoring root) h hmem
    obtain ⟨rfl, hrules⟩ := readIgnore_ok_iff.mp hread
    exact ⟨names, hnames, rules, hrules, hway, hignores⟩
  · rintro ⟨names, hnames, rules, hrules, hway, hignores⟩
    obtain ⟨r, hmem, hread⟩ := exists_ok_of_mapM (f := d.readIgnore ignoring root) h hnames
    rw [readIgnore_ok_iff.mpr ⟨rfl, hrules⟩, Except.ok.injEq] at hread
    exact ⟨r, hmem, hread ▸ ⟨hway, hignores⟩⟩

end Disk

/-- Is what a walk meets a script that is not ignored? -/
def FindOptions.picks (o : FindOptions) (ignores : Location → Bool) : Location × Entry → Bool
  | (names, .file _) => o.accepts names && !ignores names
  | _ => false

theorem FindOptions.picks_iff {o : FindOptions} {ignores : Location → Bool} {names : Location}
    {e : Entry} : o.picks ignores (names, e) = true ↔
      (∃ content, e = .file content) ∧ o.accepts names = true ∧ ignores names = false := by
  cases e <;> simp [picks]

/-- Is what a walk meets a folder that it enters? -/
def Disk.enters (real : Path) (skip : List Path) : Location × Entry → Bool
  | (names, .folder _) => Disk.mayEnter real skip names
  | _ => false

namespace Disk

variable {d : Disk} {root : Path} {skip : List Path}

theorem enters_iff {base names : Location} {e : Entry} :
    enters ⟨.root, base⟩ skip (names, e) = true ↔
      (∃ entries, e = .folder entries) ∧ ⟨.root, base ++ names⟩ ∉ skip := by
  cases e <;> simp [enters, mayEnter_iff]

theorem scriptsBelow_eq {o : FindOptions} {ignores : Location → Bool}
    {met : List (Location × Entry)} (hmet : d.walk root o.skip = .ok met) :
    d.scriptsBelow root o ignores =
      .ok (((met.filter (o.picks ignores)).map Prod.fst).map (under root)) := by
  simp only [scriptsBelow, hmet, bind, Except.bind, pure, Except.pure]
  rw [List.map_map]
  refine congrArg (fun l : List (Location × Entry) => Except.ok (l.map fun s => under root s.1)) ?_
  refine List.filter_congr fun ⟨names, e⟩ _ => ?_
  cases e <;> simp [FindOptions.picks]

theorem scriptsBelow_iff {o : FindOptions} {ignores : Location → Bool} {paths : List Path} :
    d.scriptsBelow root o ignores = .ok paths ↔ ∃ base entries, d.locate root = .ok base ∧
      d.at? base = some (.folder entries) ∧
      paths = (((descendants entries (mayEnter ⟨.root, base⟩ o.skip)).filter
        (o.picks ignores)).map Prod.fst).map (under root) := by
  constructor
  · intro h
    cases hmet : d.walk root o.skip with
    | error f => simp [scriptsBelow, hmet, bind, Except.bind] at h
    | ok met =>
      obtain ⟨base, entries, hlocate, hat, rfl⟩ := walk_iff.mp hmet
      rw [scriptsBelow_eq hmet, Except.ok.injEq] at h
      exact ⟨base, entries, hlocate, hat, h.symm⟩
  · rintro ⟨base, entries, hlocate, hat, rfl⟩
    exact scriptsBelow_eq (walk_iff.mpr ⟨base, entries, hlocate, hat, rfl⟩)

variable {ignoring : IgnoreReader}

/-- A search ignores what the ignore files say, and is otherwise like any other. -/
theorem findScripts_iff {o : FindOptions} {paths : List Path} :
    d.findScripts ignoring root o = .ok paths ↔ ∃ ignored,
      d.ignoreFiles ignoring root o.nestedIgnore = .ok ignored ∧
      d.scriptsBelow root o (isIgnored ignored) = .ok paths := bind_eq_ok_iff

theorem folderNames_eq {base : Location} {entries : List (String × Entry)}
    (hlocate : d.locate root = .ok base) (hat : d.at? base = some (.folder entries)) :
    d.folderNames root skip = .ok ((((descendants entries (mayEnter ⟨.root, base⟩ skip)).filter
      (enters ⟨.root, base⟩ skip)).map Prod.fst).map fun names => names.getLast?.getD "") := by
  have hmet : d.walk root skip = .ok _ := walk_iff.mpr ⟨base, entries, hlocate, hat, rfl⟩
  simp only [folderNames, hmet, canonical_of_locate hlocate, mapError_ok, bind, Except.bind, pure,
    Except.pure]
  rw [List.map_map]
  refine congrArg (fun l : List (Location × Entry) =>
    Except.ok (l.map fun m => m.1.getLast?.getD "")) ?_
  refine List.filter_congr fun m _ => ?_
  obtain ⟨names, e⟩ := m
  cases e <;> simp [enters]

/-- What a walk from the folder at a location meets, before it is put in order. -/
def unsorted (d : Disk) (base : Location) (skip : List Path) : List (Location × Entry) :=
  match d.at? base with
  | some (.folder entries) => Entry.listBelow (mayEnter ⟨.root, base⟩ skip) [] entries
  | _ => []

/-- The path means a folder whose entries stand in order. -/
structure InOrder (d : Disk) (root : Path) (base : Location) (skip : List Path) : Prop where
  locate : d.locate root = .ok base
  folder : d.shape? base = some .folder
  sorted : (d.unsorted base skip).Pairwise fun a b => namesLe a.1 b.1 = true

instance (d : Disk) (root : Path) (base : Location) (skip : List Path) :
    Decidable (d.InOrder root base skip) :=
  decidable_of_iff (d.locate root = .ok base ∧ d.shape? base = some .folder ∧
      (d.unsorted base skip).Pairwise fun a b => namesLe a.1 b.1 = true)
    ⟨fun h => ⟨h.1, h.2.1, h.2.2⟩, fun h => ⟨h.locate, h.folder, h.sorted⟩⟩

theorem InOrder.descendants_eq {base : Location} {entries : List (String × Entry)}
    (h : d.InOrder root base skip) (hat : d.at? base = some (.folder entries)) :
    descendants entries (mayEnter ⟨.root, base⟩ skip) = d.unsorted base skip := by
  have hsorted := h.sorted
  rw [unsorted, hat] at hsorted ⊢
  exact descendants_of_sorted hsorted

theorem InOrder.scriptsBelow_eq {o : FindOptions} {ignores : Location → Bool} {base : Location}
    (h : d.InOrder root base o.skip) :
    d.scriptsBelow root o ignores = .ok ((((d.unsorted base o.skip).filter
      (o.picks ignores)).map Prod.fst).map (under root)) := by
  obtain ⟨entries, hat⟩ := shape?_eq_folder.mp h.folder
  rw [Disk.scriptsBelow_eq (walk_iff.mpr ⟨base, entries, h.locate, hat, rfl⟩), h.descendants_eq hat]

theorem ignoreFiles_eq_nil {nested : Bool} (hnested : nested = false)
    (hignore : d.isFile (under root [ignoreName]) = false) :
    d.ignoreFiles ignoring root nested = .ok [] := by
  simp [ignoreFiles, ignorePlaces, hnested, hignore, pure, Except.pure]

theorem InOrder.findScripts_eq {o : FindOptions} {base : Location}
    (h : d.InOrder root base o.skip) (hnested : o.nestedIgnore = false)
    (hignore : d.isFile (under root [ignoreName]) = false) :
    d.findScripts ignoring root o =
      .ok ((((d.unsorted base o.skip).filter (o.picks (isIgnored []))).map Prod.fst).map
        (under root)) :=
  findScripts_iff.mpr ⟨[], ignoreFiles_eq_nil hnested hignore, h.scriptsBelow_eq⟩

theorem InOrder.folderNames_eq {base : Location} (h : d.InOrder root base skip) :
    d.folderNames root skip = .ok ((((d.unsorted base skip).filter
      (enters ⟨.root, base⟩ skip)).map Prod.fst).map fun names => names.getLast?.getD "") := by
  obtain ⟨entries, hat⟩ := shape?_eq_folder.mp h.folder
  rw [Disk.folderNames_eq h.locate hat, h.descendants_eq hat]

/-- A script that was found stands on the disk, behind folders that are not skipped. -/
theorem mem_scriptsBelow (htidy : d.Tidy) {o : FindOptions} {ignores : Location → Bool}
    {paths : List Path} (h : d.scriptsBelow root o ignores = .ok paths) {p : Path}
    (hp : p ∈ paths) :
    ∃ base names content, d.locate root = .ok base ∧ p = under root names ∧ names ≠ [] ∧
      d.shape? (base ++ names) = some (.file content) ∧
      ∀ way, way ≠ [] → way <+: names → way ≠ names → ⟨.root, base ++ way⟩ ∉ o.skip := by
  obtain ⟨base, entries, hlocate, hat, rfl⟩ := scriptsBelow_iff.mp h
  obtain ⟨names, hnames, rfl⟩ := List.mem_map.mp hp
  obtain ⟨⟨_, e⟩, hmem, rfl⟩ := List.mem_map.mp hnames
  obtain ⟨hmet, hpicks⟩ := List.mem_filter.mp hmem
  obtain ⟨⟨content, rfl⟩, -, -⟩ := FindOptions.picks_iff.mp hpicks
  obtain ⟨hne, hentry, hway⟩ := (mem_walked htidy hat).mp hmet
  exact ⟨base, _, content, hlocate, rfl, hne, shape?_eq_file.mpr hentry, hway⟩

theorem isFile_of_mem_scriptsBelow (htidy : d.Tidy) {o : FindOptions} {ignores : Location → Bool}
    {paths : List Path} (h : d.scriptsBelow root o ignores = .ok paths) {p : Path}
    (hp : p ∈ paths) :
    d.isFile p = true := by
  obtain ⟨base, names, content, hlocate, rfl, -, hshape, -⟩ := mem_scriptsBelow htidy h hp
  have hnames : ∀ name ∈ names, IsName name := fun name hname =>
    htidy.isName (by simp [hshape]) name (List.mem_append_right base hname)
  have hunder := locate_under hlocate hnames (by simp [hshape]) (by simp [hshape])
  exact isFile_iff.mpr ⟨content, read_iff.mpr ⟨_, hunder, hshape⟩⟩

end Disk

end ScriptModules
