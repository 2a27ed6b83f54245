import ScriptModules.Input.FileList
import ScriptModules.Proofs.Input.Finding

/-!
# Searches that do not see what was written

`GrownIn d₀ d skip` says that the disk `d` has what `d₀` has, and besides only folders and what lies
in the folders `skip`, which `d₀` does not have. A search that skips these folders finds on `d` what
a search that skips nothing finds on `d₀` (`findScripts_down`, `findScripts_up`), and listed input
files that are there on `d₀` are found on both (`listedInputs_eq`). The names of folders are the
same only when no folder was added that a walk from the source root enters (`folderNames_eq`).

So everything that is read from a disk is read from the part of it that was not written.
-/

namespace ScriptModules

namespace Disk

/-- The second disk has more than the first only in the skipped folders, folders apart. -/
structure GrownIn (d₀ d : Disk) (skip : List Path) : Prop where
  tidy₀ : d₀.Tidy
  tidy : d.Tidy
  extend : d₀.Extends d
  anchor : ∀ p ∈ skip, p.anchor = .root
  absent : ∀ p ∈ skip, d₀.shape? p.parts = none
  clear : ∀ p ∈ skip, d.shape? p.parts = none ∨ d.shape? p.parts = some .folder
  grown : ∀ loc s, d.shape? loc = some s → d₀.shape? loc = none →
    s = .folder ∨ ∃ p ∈ skip, p.parts <+: loc

/-- The path means a folder at a location, in which no link to an ignore file leads nowhere. -/
structure SourceAt (d : Disk) (root : Path) (base : Location) : Prop where
  locate : d.locate root = .ok base
  folder : d.shape? base = some .folder
  linked : ∀ names t, names.getLast? = some ignoreName → d.shape? (base ++ names) = some (.link t) →
    d.exists? (under root names) = true

/-- The location lies outside the skipped folders. -/
def Outside (skip : List Path) (loc : Location) : Prop := ∀ p ∈ skip, ¬ p.parts <+: loc

variable {d₀ d : Disk} {skip : List Path} {root : Path} {base names target : Location}
  {nested : Bool}
  {ignoring : IgnoreReader}

namespace GrownIn

/-- A skipped folder on the way to something below a folder that was there lies below that

folder. -/
theorem below (h : d₀.GrownIn d skip) (hfolder : d₀.shape? base = some .folder) {p : Path}
    (hp : p ∈ skip) (hbelow : p.parts <+: base ++ names) :
    ∃ way, way ≠ [] ∧ way <+: names ∧ p.parts = base ++ way := by
  refine (way_append_cases hbelow).resolve_left fun hway => ?_
  have habsent := h.absent p hp
  rw [shape?_folder_of_way hway hfolder] at habsent
  cases habsent

/-- What a walk meets behind folders that are not skipped is outside them, unless it is one. -/
theorem outside_of_passable (h : d₀.GrownIn d skip) (hfolder : d₀.shape? base = some .folder)
    (hway : ∀ way, way ≠ [] → way <+: names → way ≠ names → ⟨.root, base ++ way⟩ ∉ skip)
    (hself : ⟨.root, base ++ names⟩ ∉ skip) : Outside skip (base ++ names) := by
  intro p hp hbelow
  obtain ⟨way, hnil, hbefore, hparts⟩ := h.below hfolder hp hbelow
  have hp' : ⟨.root, base ++ way⟩ ∈ skip := by
    rw [← hparts, ← h.anchor p hp]
    exact hp
  by_cases heq : way = names
  · exact hself (heq ▸ hp')
  · exact hway way hnil hbefore heq hp'

/-- What was there lies outside the skipped folders. -/
theorem outside_of_there (h : d₀.GrownIn d skip) (hthere : d₀.shape? target ≠ none) :
    Outside skip target := by
  rintro p hp ⟨rest, rfl⟩
  have habsent := h.absent p hp
  by_cases hrest : rest = []
  · rw [hrest, List.append_nil] at hthere
    exact hthere habsent
  · rw [shape?_folder_of_append hrest hthere] at habsent
    cases habsent

/-- Outside the skipped folders a file or a link was there before. -/
theorem shape_of_outside (h : d₀.GrownIn d skip) (hout : Outside skip target) {s : Shape}
    (hshape : d.shape? target = some s) (hs : s ≠ .folder) : d₀.shape? target = some s := by
  cases hbefore : d₀.shape? target with
  | none =>
    rcases h.grown target s hshape hbefore with hfolder | ⟨p, hp, hbelow⟩
    · exact absurd hfolder hs
    · exact absurd hbelow (hout p hp)
  | some s₀ => rw [← h.extend target s₀ hbefore, hshape]

/-! ## Ignore files -/

theorem mem_ignorePlaces_up (h : d₀.GrownIn d skip) (hsource : d₀.SourceAt root base)
    (hmem : names ∈ d₀.ignorePlaces root nested) : names ∈ d.ignorePlaces root nested := by
  obtain ⟨hfile, hlast, hthere, hnested⟩ :=
    (mem_ignorePlaces h.tidy₀ hsource.locate hsource.folder).mp hmem
  obtain ⟨s, hs⟩ := Option.ne_none_iff_exists'.mp hthere
  refine (mem_ignorePlaces h.tidy (locate_mono h.extend hsource.locate)
    (h.extend base _ hsource.folder)).mpr ⟨isFile_mono h.extend hfile, hlast, ?_, hnested⟩
  simp [h.extend _ s hs]

theorem hasRules_up (h : d₀.GrownIn d skip) {rules : String → Bool}
    (hrules : d₀.HasRules ignoring root names rules) : d.HasRules ignoring root names rules := by
  obtain ⟨content, hread, hbytes⟩ := hrules
  exact ⟨content, read_mono h.extend hread, hbytes⟩

/-- An ignore file outside the skipped folders was there before. -/
theorem mem_ignorePlaces_down (h : d₀.GrownIn d skip) (hsource : d₀.SourceAt root base)
    (hout : Outside skip (base ++ names)) (hmem : names ∈ d.ignorePlaces root nested) :
    names ∈ d₀.ignorePlaces root nested := by
  have hroot := locate_mono h.extend hsource.locate
  have hfolder := h.extend base _ hsource.folder
  obtain ⟨hfile, hlast, -, hnested⟩ := (mem_ignorePlaces h.tidy hroot hfolder).mp hmem
  obtain ⟨hthere, hnot⟩ := shape?_of_mem_ignorePlaces h.tidy hroot hfolder hmem
  obtain ⟨s, hs⟩ := Option.ne_none_iff_exists'.mp hthere
  have hs₀ : d₀.shape? (base ++ names) = some s :=
    h.shape_of_outside hout hs fun heq => hnot (heq ▸ hs)
  refine (mem_ignorePlaces h.tidy₀ hsource.locate hsource.folder).mpr
    ⟨?_, hlast, by simp [hs₀], hnested⟩
  cases s with
  | folder => exact absurd hs hnot
  | file content =>
    have hnames : ∀ name ∈ names, IsName name := fun name hname =>
      h.tidy.isName hthere name (List.mem_append_right base hname)
    have hlocate := locate_under hsource.locate hnames (by simp [hs₀]) (by simp [hs₀])
    exact isFile_iff.mpr ⟨content, read_iff.mpr ⟨_, hlocate, hs₀⟩⟩
  | link t =>
    -- The link led somewhere before, so it leads there still.
    obtain ⟨loc, hlocate⟩ := exists?_iff.mp (hsource.linked names t hlast hs₀)
    obtain ⟨n, -, hleads⟩ := locate_iff.mp hlocate
    obtain ⟨s, hs⟩ := Option.ne_none_iff_exists'.mp (hleads.isPlace (isPlace_nil d₀)).2.1
    obtain ⟨content, hread⟩ := isFile_iff.mp hfile
    obtain ⟨loc', hlocate', hcontent⟩ := read_iff.mp hread
    rw [locate_mono h.extend hlocate, Except.ok.injEq] at hlocate'
    rw [← hlocate', h.extend loc s hs, Option.some.injEq] at hcontent
    exact isFile_iff.mpr ⟨content, read_iff.mpr ⟨loc, hlocate, hcontent ▸ hs⟩⟩

theorem hasRules_down (h : d₀.GrownIn d skip) {rules : String → Bool}
    (hfile : d₀.isFile (under root names) = true) (hrules : d.HasRules ignoring root names rules) :
    d₀.HasRules ignoring root names rules := by
  obtain ⟨content, hread, hbytes⟩ := hrules
  obtain ⟨content₀, hread₀⟩ := isFile_iff.mp hfile
  rw [read_mono h.extend hread₀, Except.ok.injEq] at hread
  exact ⟨content, hread ▸ hread₀, hbytes⟩

/-- Ignore files in the skipped folders do not speak about what is outside. -/
theorem isIgnored_eq (h : d₀.GrownIn d skip) (hsource : d₀.SourceAt root base)
    {ignored ignored₀ : List (Location × (String → Bool))}
    (hignored : d.ignoreFiles ignoring root nested = .ok ignored)
    (hignored₀ : d₀.ignoreFiles ignoring root nested = .ok ignored₀)
    (hout : Outside skip (base ++ target)) :
    isIgnored ignored target = isIgnored ignored₀ target := by
  have hroot := locate_mono h.extend hsource.locate
  have hfolder := h.extend base _ hsource.folder
  rw [Bool.eq_iff_iff, isIgnored_iff hignored, isIgnored_iff hignored₀]
  constructor
  · rintro ⟨names, hmem, rules, hrules, hway, hignores⟩
    have houtside : Outside skip (base ++ names) := by
      intro p hp hbelow
      obtain ⟨way, hnil, hbefore, hparts⟩ := h.below hsource.folder hp hbelow
      by_cases heq : way = names
      · -- A skipped folder is no ignore file.
        obtain ⟨hthere, hnot⟩ := shape?_of_mem_ignorePlaces h.tidy hroot hfolder hmem
        rw [← heq, ← hparts] at hthere hnot
        exact (h.clear p hp).elim hthere hnot
      · refine hout p hp (hparts ▸ (List.prefix_append_right_inj base).mpr ?_)
        exact (way_dropLast hbefore heq).trans hway
    have hmem₀ := h.mem_ignorePlaces_down hsource houtside hmem
    have hfile := ((mem_ignorePlaces h.tidy₀ hsource.locate hsource.folder).mp hmem₀).1
    exact ⟨names, hmem₀, rules, h.hasRules_down hfile hrules, hway, hignores⟩
  · rintro ⟨names, hmem, rules, hrules, hway, hignores⟩
    exact ⟨names, h.mem_ignorePlaces_up hsource hmem, rules, h.hasRules_up hrules, hway, hignores⟩

theorem ignoreFiles_down (h : d₀.GrownIn d skip) (hsource : d₀.SourceAt root base)
    (hignored : ∃ ignored, d.ignoreFiles ignoring root nested = .ok ignored) :
    ∃ ignored₀, d₀.ignoreFiles ignoring root nested = .ok ignored₀ := by
  rw [ignoreFiles_ok_iff] at hignored ⊢
  intro names hmem
  obtain ⟨rules, hrules⟩ := hignored names (h.mem_ignorePlaces_up hsource hmem)
  have hfile := ((mem_ignorePlaces h.tidy₀ hsource.locate hsource.folder).mp hmem).1
  exact ⟨rules, h.hasRules_down hfile hrules⟩

theorem ignoreFiles_up (h : d₀.GrownIn d skip) (hsource : d₀.SourceAt root base)
    (hinner : ∀ names ∈ d.ignorePlaces root nested, ¬ Outside skip (base ++ names) →
      ∃ rules, d.HasRules ignoring root names rules)
    (hignored₀ : ∃ ignored₀, d₀.ignoreFiles ignoring root nested = .ok ignored₀) :
    ∃ ignored, d.ignoreFiles ignoring root nested = .ok ignored := by
  rw [ignoreFiles_ok_iff] at hignored₀ ⊢
  intro names hmem
  by_cases hout : Outside skip (base ++ names)
  · obtain ⟨rules, hrules⟩ := hignored₀ names (h.mem_ignorePlaces_down hsource hout hmem)
    exact ⟨rules, h.hasRules_up hrules⟩
  · exact hinner names hmem hout

/-! ## Scripts and folders -/

variable {o : FindOptions} {paths : List Path}

/-- The same files are scripts, when the same of them are ignored. -/
theorem scriptsBelow_eq (h : d₀.GrownIn d skip) (hsource : d₀.SourceAt root base)
    {ignores ignores₀ : Location → Bool}
    (hsame : ∀ names, Outside skip (base ++ names) → ignores names = ignores₀ names) :
    d.scriptsBelow root { o with skip } ignores =
      d₀.scriptsBelow root { o with skip := [] } ignores₀ := by
  obtain ⟨entries₀, hat₀⟩ := shape?_eq_folder.mp hsource.folder
  obtain ⟨entries, hat⟩ := shape?_eq_folder.mp (h.extend base _ hsource.folder)
  have hroot := locate_mono h.extend hsource.locate
  rw [Disk.scriptsBelow_eq (walk_iff.mpr ⟨base, entries, hroot, hat, rfl⟩),
    Disk.scriptsBelow_eq (walk_iff.mpr ⟨base, entries₀, hsource.locate, hat₀, rfl⟩)]
  refine congrArg (fun l : List Location => Except.ok (l.map (under root))) ?_
  refine filter_descendants_eq (h.tidy.folder hat) (h.tidy₀.folder hat₀) fun names => ?_
  simp only [mem_walked h.tidy hat, mem_walked h.tidy₀ hat₀, FindOptions.picks_iff]
  constructor
  · rintro ⟨_, ⟨hnil, hentry, hway⟩, ⟨content, rfl⟩, haccepts, hnot⟩
    have hshape := shape?_eq_file.mpr hentry
    have hself : ⟨.root, base ++ names⟩ ∉ skip := fun hp => by
      have hclear := h.clear _ hp
      simp [hshape] at hclear
    have hout := h.outside_of_passable hsource.folder hway hself
    have hshape₀ := h.shape_of_outside hout hshape (by simp)
    refine ⟨.file content, ⟨hnil, shape?_eq_file.mp hshape₀, by simp⟩, ⟨content, rfl⟩, haccepts, ?_⟩
    rwa [← hsame names hout]
  · rintro ⟨_, ⟨hnil, hentry, -⟩, ⟨content, rfl⟩, haccepts, hnot⟩
    have hshape₀ := shape?_eq_file.mpr hentry
    have hout : Outside skip (base ++ names) := h.outside_of_there (by simp [hshape₀])
    refine ⟨.file content,
      ⟨hnil, shape?_eq_file.mp (h.extend _ _ hshape₀), fun way _ hway _ hp => ?_⟩,
      ⟨content, rfl⟩, haccepts, ?_⟩
    · exact hout _ hp ((List.prefix_append_right_inj base).mpr hway)
    · rwa [hsame names hout]

theorem findScripts_down (h : d₀.GrownIn d skip) (hsource : d₀.SourceAt root base)
    (hfound : d.findScripts ignoring root { o with skip } = .ok paths) :
    d₀.findScripts ignoring root { o with skip := [] } = .ok paths := by
  obtain ⟨ignored, hignored, hbelow⟩ := findScripts_iff.mp hfound
  obtain ⟨ignored₀, hignored₀⟩ := h.ignoreFiles_down hsource ⟨ignored, hignored⟩
  refine findScripts_iff.mpr ⟨ignored₀, hignored₀, ?_⟩
  rw [← hbelow, h.scriptsBelow_eq hsource fun _ => h.isIgnored_eq hsource hignored hignored₀]

theorem findScripts_up (h : d₀.GrownIn d skip) (hsource : d₀.SourceAt root base)
    (hinner : ∀ names ∈ d.ignorePlaces root o.nestedIgnore, ¬ Outside skip (base ++ names) →
      ∃ rules, d.HasRules ignoring root names rules)
    (hfound : d₀.findScripts ignoring root { o with skip := [] } = .ok paths) :
    d.findScripts ignoring root { o with skip } = .ok paths := by
  obtain ⟨ignored₀, hignored₀, hbelow⟩ := findScripts_iff.mp hfound
  obtain ⟨ignored, hignored⟩ := h.ignoreFiles_up hsource hinner ⟨ignored₀, hignored₀⟩
  refine findScripts_iff.mpr ⟨ignored, hignored, ?_⟩
  rw [← hbelow, h.scriptsBelow_eq hsource fun _ => h.isIgnored_eq hsource hignored hignored₀]

/-- Folders have the same names when none was added outside the skipped ones. -/
theorem folderNames_eq (h : d₀.GrownIn d skip) (hsource : d₀.SourceAt root base)
    (hfolders : ∀ names, d.shape? (base ++ names) = some .folder → Outside skip (base ++ names) →
      d₀.shape? (base ++ names) = some .folder) :
    d.folderNames root skip = d₀.folderNames root [] := by
  obtain ⟨entries₀, hat₀⟩ := shape?_eq_folder.mp hsource.folder
  obtain ⟨entries, hat⟩ := shape?_eq_folder.mp (h.extend base _ hsource.folder)
  have hmet : ((descendants entries (mayEnter ⟨.root, base⟩ skip)).filter
        (enters ⟨.root, base⟩ skip)).map Prod.fst =
      ((descendants entries₀ (mayEnter ⟨.root, base⟩ [])).filter
        (enters ⟨.root, base⟩ [])).map Prod.fst := by
    refine filter_descendants_eq (h.tidy.folder hat) (h.tidy₀.folder hat₀) fun names => ?_
    simp only [mem_walked h.tidy hat, mem_walked h.tidy₀ hat₀, enters_iff]
    constructor
    · rintro ⟨_, ⟨hnil, hentry, hway⟩, ⟨inner, rfl⟩, hself⟩
      have hout := h.outside_of_passable hsource.folder hway hself
      obtain ⟨inner₀, hinner₀⟩ :=
        shape?_eq_folder.mp (hfolders names (shape?_eq_folder.mpr ⟨inner, hentry⟩) hout)
      exact ⟨.folder inner₀, ⟨hnil, hinner₀, by simp⟩, ⟨inner₀, rfl⟩, by simp⟩
    · rintro ⟨_, ⟨hnil, hentry, -⟩, ⟨inner, rfl⟩, -⟩
      have hshape₀ := shape?_eq_folder.mpr ⟨inner, hentry⟩
      have hout : Outside skip (base ++ names) := h.outside_of_there (by simp [hshape₀])
      obtain ⟨inner', hinner'⟩ := shape?_eq_folder.mp (h.extend _ _ hshape₀)
      refine ⟨.folder inner', ⟨hnil, hinner', fun way _ hway _ hp => ?_⟩, ⟨inner', rfl⟩,
        fun hp => ?_⟩
      · exact hout _ hp ((List.prefix_append_right_inj base).mpr hway)
      · exact hout _ hp (List.prefix_refl _)
  rw [Disk.folderNames_eq (locate_mono h.extend hsource.locate) hat,
    Disk.folderNames_eq hsource.locate hat₀, hmet]

end GrownIn

/-! ## Listed files -/

theorem isWithin_mono (hext : d₀.Extends d) {p : Path} (hroot : d₀.locate root = .ok base)
    (hfile : d₀.isFile p = true) : d.isWithin p root = d₀.isWithin p root := by
  obtain ⟨content, hread⟩ := isFile_iff.mp hfile
  obtain ⟨loc, hlocate, -⟩ := read_iff.mp hread
  simp only [isWithin, canonical_of_locate hroot, canonical_of_locate (locate_mono hext hroot),
    canonical_of_locate hlocate, canonical_of_locate (locate_mono hext hlocate)]

end Disk

variable {d₀ d : Disk} {root : Path} {base : Location}

theorem checkInputs_eq (hext : d₀.Extends d) (hroot : d₀.locate root = .ok base)
    (seen : List String)
    (entries : List String)
    (hlisted : ∀ entry ∈ entries, d₀.isFile (root.join (Path.ofString (normalize entry))) = true) :
    checkInputs d root seen entries = checkInputs d₀ root seen entries := by
  induction entries generalizing seen with
  | nil => rfl
  | cons entry entries ih =>
    have hfile := hlisted entry (List.mem_cons_self ..)
    have hcheck : checkInput d root seen entry = checkInput d₀ root seen entry := by
      simp only [checkInput, Disk.isWithin_mono hext hroot hfile, hfile,
        Disk.isFile_mono hext hfile]
    have hrest := fun seen => ih seen fun e he => hlisted e (List.mem_cons_of_mem entry he)
    simp only [checkInputs, hcheck, hrest]

/-- Listed files that were there are listed in the same way. -/
theorem listedInputs_eq (hext : d₀.Extends d) (hroot : d₀.locate root = .ok base)
    {entries : List String}
    (hlisted : ∀ entry ∈ entries, d₀.isFile (root.join (Path.ofString (normalize entry))) = true) :
    listedInputs d root entries = listedInputs d₀ root entries := by
  simp only [listedInputs, checkInputs_eq hext hroot [] entries hlisted]

end ScriptModules
