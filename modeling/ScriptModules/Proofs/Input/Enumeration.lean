import ScriptModules.Proofs.Input.Finding

/-!
# The scripts below a folder

Which files a search finds can be told from their paths alone, without the walk: a file is found
when it is `Eligible`. The walk tells links and skipped folders by what stands on the disk, and the
rule tells them by what the paths mean; the two agree because the names behind the root lead to what
they spell as long as no link is on the way (`Eligible.shape?_eq`).

Each folder is gone through by name, so the paths come in the order of their lists of components.
That is not the order of their texts: `lib/a.js` comes before `lib.js`, since `lib` comes before
`lib.js`.

Main statement: `findScripts_enumerates`.
-/

namespace ScriptModules

theorem FindOptions.accepts_iff {o : FindOptions} {names : Location} : o.accepts names = true ↔
    Path.suffix ⟨.none, names⟩ ∈ o.extensions ∧
    (o.included = [] ∨ ∃ pattern ∈ o.included, glob pattern ("/".intercalate names) = true) ∧
    ∀ pattern ∈ o.excluded, glob pattern ("/".intercalate names) = false := by
  simp [accepts, and_assoc]

namespace Disk

variable {d : Disk} {root : Path} {base names way : Location} {o : FindOptions}
  {ignores : Location → Bool} {entries : List (String × Entry)}

/-- The names behind the root lead to a script: to a file that is no link, has one of the suffixes,
is not ignored and fits the patterns, and all folders on the way below the root are no links and not
to be skipped. -/
structure Eligible (d : Disk) (root : Path) (o : FindOptions) (ignores : Location → Bool)
    (names : Location) : Prop where
  ne_nil : names ≠ []
  isName : ∀ name ∈ names, IsName name
  file : d.isFile (under root names) = true
  notLink : d.isLink (under root names) = false
  suffix : (under root names).suffix ∈ o.extensions
  notIgnored : ignores names = false
  included : o.included = [] ∨ ∃ pattern ∈ o.included, glob pattern ("/".intercalate names) = true
  excluded : ∀ pattern ∈ o.excluded, glob pattern ("/".intercalate names) = false
  entered : ∀ way, way ≠ [] → way <+: names → way ≠ names →
    d.isLink (under root way) = false ∧ ∃ q, d.canonical (under root way) = .ok q ∧ q ∉ o.skip

theorem suffix_under (root : Path) (hne : names ≠ []) :
    (under root names).suffix = Path.suffix ⟨.none, names⟩ := by
  have hlast : (root.parts ++ names).getLast? = names.getLast? :=
    List.getLast?_append_of_ne_nil root.parts hne
  simp only [Path.suffix, Path.name, under, hlast]

/-- A folder on the way to something is where its names say. -/
theorem locate_way (hroot : d.locate root = .ok base) (hnames : ∀ name ∈ names, IsName name)
    (hthere : d.shape? (base ++ names) ≠ none) (hway : way <+: names) (hproper : way ≠ names) :
    d.shape? (base ++ way) = some .folder ∧ d.locate (under root way) = .ok (base ++ way) := by
  obtain ⟨rest, rfl⟩ := hway
  have hrest : rest ≠ [] := by
    rintro rfl
    exact hproper (by simp)
  rw [← List.append_assoc] at hthere
  have hfolder := shape?_folder_of_append hrest hthere
  refine ⟨hfolder, locate_under hroot (fun n hn => hnames n (by simp [hn])) ?_ ?_⟩
  · simp [hfolder]
  · simp [hfolder]

/-- No link is on the way to an eligible file, so it stands where its names say. -/
theorem Eligible.shape?_eq (h : d.Eligible root o ignores names)
    (hroot : d.locate root = .ok base) :
    ∃ content, d.shape? (base ++ names) = some (.file content) := by
  obtain ⟨content, hread⟩ := isFile_iff.mp h.file
  obtain ⟨loc, hlocate, hshape⟩ := read_iff.mp hread
  obtain ⟨n, -, hleads⟩ := locate_iff.mp hlocate
  obtain ⟨n₁, n₂, mid, -, hfirst, hlast⟩ := hleads.split
  obtain ⟨m, -, hleads'⟩ := locate_iff.mp hroot
  obtain ⟨-, rfl⟩ := hfirst.unique hleads'
  have hlinks : ∀ way target, way ≠ [] → way <+: names →
      d.shape? (mid ++ way) ≠ some (.link target) := by
    intro way target hne hway hlink
    have hnames : ∀ name ∈ way, IsName name := fun name hname => h.isName name (hway.subset hname)
    have hislink : d.isLink (under root way) = true :=
      (isLink_under_iff hroot hnames hne (by simp [hlink])).mpr ⟨target, hlink⟩
    by_cases hproper : way = names
    · rw [hproper, h.notLink] at hislink
      cases hislink
    · rw [(h.entered way hne hway hproper).1] at hislink
      cases hislink
  rw [hlast.eq_append h.isName hlinks] at hshape
  exact ⟨content, hshape⟩

/-- A walk picks the eligible files. -/
theorem eligible_iff (htidy : d.Tidy) (hroot : d.locate root = .ok base)
    (hat : d.at? base = some (.folder entries)) : d.Eligible root o ignores names ↔
      ∃ e, (names, e) ∈ descendants entries (mayEnter ⟨.root, base⟩ o.skip) ∧
        o.picks ignores (names, e) = true := by
  simp only [mem_walked htidy hat, FindOptions.picks_iff, FindOptions.accepts_iff]
  constructor
  · intro h
    obtain ⟨content, hshape⟩ := h.shape?_eq hroot
    refine ⟨.file content, ⟨h.ne_nil, shape?_eq_file.mp hshape, fun way hne hway hproper => ?_⟩,
      ⟨content, rfl⟩, ⟨?_, h.included, h.excluded⟩, h.notIgnored⟩
    · obtain ⟨-, q, hq, hskip⟩ := h.entered way hne hway hproper
      obtain ⟨-, hlocate⟩ := locate_way hroot h.isName (by simp [hshape]) hway hproper
      rw [canonical_of_locate hlocate, Except.ok.injEq] at hq
      rwa [hq]
    · rw [← suffix_under root h.ne_nil]
      exact h.suffix
  · rintro ⟨e, ⟨hne, he, hskip⟩, ⟨content, rfl⟩, ⟨hsuffix, hincluded, hexcluded⟩, hignores⟩
    have hshape := shape?_eq_file.mpr he
    have hthere : d.shape? (base ++ names) ≠ none := by simp [hshape]
    have hnames : ∀ name ∈ names, IsName name := fun name hname =>
      htidy.isName hthere name (List.mem_append_right base hname)
    have hlocate := locate_under hroot hnames hthere (by simp [hshape])
    refine ⟨hne, hnames, isFile_iff.mpr ⟨content, read_iff.mpr ⟨_, hlocate, hshape⟩⟩, ?_, ?_,
      hignores, hincluded, hexcluded, fun way hne' hway hproper => ⟨?_, ?_⟩⟩
    · rw [← Bool.not_eq_true, isLink_under_iff hroot hnames hne hthere]
      simp [hshape]
    · rwa [suffix_under root hne]
    · obtain ⟨hfolder, -⟩ := locate_way hroot hnames hthere hway hproper
      rw [← Bool.not_eq_true, isLink_under_iff hroot
        (fun n hn => hnames n (hway.subset hn)) hne' (by simp [hfolder])]
      simp [hfolder]
    · obtain ⟨-, hlocate⟩ := locate_way hroot hnames hthere hway hproper
      exact ⟨_, canonical_of_locate hlocate, hskip way hne' hway hproper⟩

/-- An eligible file passes the test for single files, which asks also where the path leads to. -/
theorem Eligible.isScript (h : d.Eligible root o ignores names) (hroot : d.locate root = .ok base) :
    d.isScript (under root names) root o = .ok true := by
  obtain ⟨content, hshape⟩ := h.shape?_eq hroot
  have hlocate := locate_under hroot h.isName (by simp [hshape]) (by simp [hshape])
  have hwithin : d.isWithin (under root names) root = .ok true := by
    simp [isWithin, canonical_of_locate hroot, canonical_of_locate hlocate, Path.below?, bind,
      Except.bind, pure, Except.pure]
  have hbelow : (under root names).below? root = some names := by simp [Path.below?, under]
  have hsuffix := suffix_under root h.ne_nil
  have haccepts : o.accepts names = true :=
    FindOptions.accepts_iff.mpr ⟨hsuffix ▸ h.suffix, h.included, h.excluded⟩
  simp [Disk.isScript, h.file, h.notLink, h.suffix, hwithin, hbelow, haccepts, bind, Except.bind,
    pure, Except.pure]

/-- The paths are those of the eligible files, each of them once, by their components. -/
structure Enumerates (d : Disk) (root : Path) (o : FindOptions) (ignores : Location → Bool)
    (paths : List Path) : Prop where
  mem_iff : ∀ p, p ∈ paths ↔ ∃ names, p = under root names ∧ d.Eligible root o ignores names
  nodup : paths.Nodup
  increasing : paths.Pairwise fun p q => p.parts < q.parts
  isScript : ∀ p ∈ paths, d.isScript p root o = .ok true

/-- Different lists of names that are in order are in strict order behind any root. -/
theorem parts_under_lt {a b : Location} (root : Path) (hle : namesLe a b = true) (hne : a ≠ b) :
    (under root a).parts < (under root b).parts := by
  rw [← namesLe_append root.parts, namesLe_iff] at hle
  exact hle.resolve_left fun heq => hne (List.append_cancel_left heq)

theorem scriptsBelow_enumerates (htidy : d.Tidy) (hroot : d.isFolder root = true)
    (o : FindOptions) (ignores : Location → Bool) :
    ∃ paths, d.scriptsBelow root o ignores = .ok paths ∧ d.Enumerates root o ignores paths := by
  obtain ⟨base, hlocate, hfolder⟩ := isFolder_iff.mp hroot
  obtain ⟨entries, hat⟩ := shape?_eq_folder.mp hfolder
  refine ⟨_, scriptsBelow_eq (walk_iff.mpr ⟨base, entries, hlocate, hat, rfl⟩), ?_⟩
  have hdistinct := nodup_filter_descendants (htidy.folder hat)
    (mayEnter ⟨.root, base⟩ o.skip) (o.picks ignores)
  have hsorted := pairwise_filter_descendants (htidy.folder hat)
    (mayEnter ⟨.root, base⟩ o.skip) (o.picks ignores)
  have hmem : ∀ names, names ∈ ((descendants entries (mayEnter ⟨.root, base⟩ o.skip)).filter
      (o.picks ignores)).map Prod.fst ↔ d.Eligible root o ignores names := by
    intro names
    simp [eligible_iff htidy hlocate hat]
  generalize ((descendants entries (mayEnter ⟨.root, base⟩ o.skip)).filter
      (o.picks ignores)).map Prod.fst = found at hdistinct hsorted hmem
  have hincreasing : (found.map (under root)).Pairwise fun p q => p.parts < q.parts :=
    List.pairwise_map.mpr ((hsorted.and hdistinct).imp fun h => parts_under_lt root h.1 h.2)
  refine ⟨fun p => ?_, hincreasing.imp fun h heq => ?_, hincreasing, fun p hp => ?_⟩
  · simp only [List.mem_map, hmem]
    exact ⟨fun ⟨names, h, heq⟩ => ⟨names, heq.symm, h⟩, fun ⟨names, heq, h⟩ => ⟨names, h, heq.symm⟩⟩
  · rw [heq] at h
    exact List.lt_irrefl _ h
  · obtain ⟨names, hnames, rfl⟩ := List.mem_map.mp hp
    exact ((hmem names).mp hnames).isScript hlocate

/-- On every disk and below every folder, a search for scripts finds the eligible files, each of
them once and no other path, in the order of their lists of components. That is so for any options
and for anything that may be ignored, and so for what the ignore files below the folder say. -/
theorem findScripts_enumerates (d : Disk) (htidy : d.Tidy) (root : Path)
    (hroot : d.isFolder root = true) (o : FindOptions) :
    (∀ ignores : Location → Bool, ∃ paths, d.scriptsBelow root o ignores = .ok paths ∧
      d.Enumerates root o ignores paths) ∧
    ∀ ignoring ignored, d.ignoreFiles ignoring root o.nestedIgnore = .ok ignored →
      ∃ paths, d.findScripts ignoring root o = .ok paths ∧
        d.Enumerates root o (isIgnored ignored) paths := by
  refine ⟨scriptsBelow_enumerates htidy hroot o, fun ignoring ignored hignored => ?_⟩
  obtain ⟨paths, hbelow, henumerates⟩ := scriptsBelow_enumerates htidy hroot o (isIgnored ignored)
  exact ⟨paths, findScripts_iff.mpr ⟨ignored, hignored, hbelow⟩, henumerates⟩

/-- What stands below a folder in any order is found in the order of lists of names. -/
theorem scriptsBelow_of_perm (htidy : d.Tidy) (hroot : d.locate root = .ok base)
    (hfolder : d.shape? base = some .folder) {found : List Location}
    (hfound : found.Perm (((d.unsorted base o.skip).filter (o.picks ignores)).map Prod.fst))
    (hsorted : found.Pairwise fun a b => namesLe a b = true) :
    d.scriptsBelow root o ignores = .ok (found.map (under root)) := by
  obtain ⟨entries, hat⟩ := shape?_eq_folder.mp hfolder
  rw [unsorted, hat] at hfound
  have hperm := (((perm_descendants entries (mayEnter ⟨.root, base⟩ o.skip)).filter
    (o.picks ignores)).map Prod.fst).trans hfound.symm
  rw [scriptsBelow_eq (walk_iff.mpr ⟨base, entries, hroot, hat, rfl⟩),
    hperm.eq_of_pairwise (fun a b _ _ => namesLe_antisymm)
      (pairwise_filter_descendants (htidy.folder hat) _ _) hsorted]

/-- A folder whose entries are out of order, with a link to a folder and one to a file. -/
def tangled : Disk :=
  ⟨[("src", .folder [("lib.js", .file ⟨#[]⟩),
    ("lib", .folder [("link.js", .link "b.js"), ("b.js", .file ⟨#[]⟩),
      ("a", .folder [("c.js", .file ⟨#[]⟩)])]),
    ("alias", .link "lib"), ("out", .folder [("d.js", .file ⟨#[]⟩)]),
    ("vendor", .folder [("e.js", .file ⟨#[]⟩)]), ("old.js", .file ⟨#[]⟩),
    ("f.txt", .file ⟨#[]⟩)])]⟩

theorem findScripts_enumerates_tangled :
    let root : Path := ⟨.root, ["src"]⟩
    let o : FindOptions := ⟨[".js"], [], ["vendor/*"], false, [⟨.root, ["src", "out"]⟩]⟩
    let paths : List Path := [⟨.root, ["src", "lib", "a", "c.js"]⟩, ⟨.root, ["src", "lib", "b.js"]⟩,
      ⟨.root, ["src", "lib.js"]⟩]
    tangled.Tidy ∧ tangled.isFolder root = true ∧
    (tangled.scriptsBelow root o (· == ["old.js"]) = .ok paths ∧
      tangled.Enumerates root o (· == ["old.js"]) paths) ∧
    ∀ ignoring, tangled.ignoreFiles ignoring root o.nestedIgnore = .ok [] ∧
      ∃ all, tangled.findScripts ignoring root o = .ok all ∧
        tangled.Enumerates root o (isIgnored []) all := by
  intro root o paths
  have htidy : tangled.Tidy := tidy_of_isTidy (by decide +kernel)
  have hroot : tangled.isFolder root = true := by decide +kernel
  have hfile : tangled.isFile (under root [ignoreName]) = false := by decide +kernel
  have hignored : ∀ ignoring, tangled.ignoreFiles ignoring root o.nestedIgnore = .ok [] := fun _ =>
    ignoreFiles_eq_nil rfl hfile
  have hpaths : tangled.scriptsBelow root o (· == ["old.js"]) = .ok paths :=
    scriptsBelow_of_perm (d := tangled) htidy
      (by decide +kernel : tangled.locate root = .ok ["src"])
      (by decide +kernel) (by decide +kernel : List.Perm
        [["lib", "a", "c.js"], ["lib", "b.js"], ["lib.js"]] _) (by decide +kernel)
  obtain ⟨hbelow, hfind⟩ := findScripts_enumerates tangled htidy root hroot o
  obtain ⟨found, hfound, henumerates⟩ := hbelow (· == ["old.js"])
  rw [hpaths] at hfound
  cases hfound
  exact ⟨htidy, hroot, ⟨hpaths, henumerates⟩, fun ignoring =>
    ⟨hignored ignoring, hfind ignoring [] (hignored ignoring)⟩⟩

end Disk

end ScriptModules
