import ScriptModules.Proofs.Convert.Stages
import ScriptModules.Proofs.Input.Growth
import ScriptModules.Proofs.Input.Listed

/-!
# Conversions do not see their output

What a conversion reads from a disk with the output folder skipped, it reads from the disk without
the output (`Reads.down`), and it reads the same from every disk that has grown in skipped folders
only (`Reads.up`).
-/

namespace ScriptModules

namespace Job

variable {ignoring : IgnoreReader} {j : Job} {d₀ d : Disk} {skip paths : List Path}
  {base : Location} {registry : Registry}
  {inputs : List Input}

/-- No folder that a walk from the source root enters was added, when folder names count. -/
def NoFolderAdded (j : Job) (d₀ d : Disk) (skip : List Path) (base : Location) : Prop :=
  j.options.renameDups = true → ∀ names, d.shape? (base ++ names) = some .folder →
    Disk.Outside skip (base ++ names) → d₀.shape? (base ++ names) = some .folder

/-- The listed input files are there. -/
def ListedOn (j : Job) (d : Disk) : Prop :=
  ∀ entry ∈ j.options.files, d.isFile (j.root.join (Path.ofString (normalize entry))) = true

theorem registry_eq (h : d₀.GrownIn d skip) (hsource : d₀.SourceAt j.root base)
    (hfolders : j.NoFolderAdded d₀ d skip base) : j.registry d skip = j.registry d₀ [] := by
  unfold registry
  by_cases hrename : j.options.renameDups = true
  · rw [h.folderNames_eq hsource (hfolders hrename)]
  · simp only [hrename, Bool.false_eq_true, if_false]

theorem readInput_mono (hext : d₀.Extends d) {p : Path} {i : Input}
    (h : j.readInput d₀ p = .ok i) : j.readInput d p = .ok i := by
  obtain ⟨content, hread, h⟩ := bind_eq_ok_iff.mp h
  have hread' := Disk.read_mono hext (mapError_eq_ok_iff.mp hread)
  exact bind_eq_ok_iff.mpr ⟨content, mapError_eq_ok_iff.mpr hread', h⟩

theorem mapM_readInput_mono (hext : d₀.Extends d) (h : paths.mapM (j.readInput d₀) = .ok inputs) :
    paths.mapM (j.readInput d) = .ok inputs :=
  mapM_eq_ok_iff.mpr ((mapM_eq_ok_iff.mp h).imp fun _ _ => readInput_mono hext)

theorem mapM_readInput_down (hext : d₀.Extends d) (hfiles : ∀ p ∈ paths, d₀.isFile p = true)
    (h : paths.mapM (j.readInput d) = .ok inputs) : paths.mapM (j.readInput d₀) = .ok inputs := by
  have hread : ∀ p ∈ paths, ∃ i, j.readInput d₀ p = .ok i := by
    intro p hp
    obtain ⟨content, hread⟩ := Disk.isFile_iff.mp (hfiles p hp)
    exact ⟨_, bind_eq_ok_iff.mpr ⟨content, mapError_eq_ok_iff.mpr hread, rfl⟩⟩
  obtain ⟨inputs₀, h₀⟩ := mapM_ok_of_forall hread
  rw [mapM_readInput_mono hext h₀, Except.ok.injEq] at h
  exact h ▸ h₀

theorem isFile_of_mem_inputPaths (htidy : d.Tidy) (hlisted : j.ListedOn d)
    (h : j.inputPaths ignoring d skip = .ok paths) : ∀ p ∈ paths, d.isFile p = true := by
  intro p hp
  unfold inputPaths at h
  split at h
  · obtain ⟨ignored, -, hfound⟩ := Disk.findScripts_iff.mp h
    exact Disk.isFile_of_mem_scriptsBelow htidy hfound hp
  · obtain ⟨entry, hentry, rfl⟩ := mem_listedInputs h hp
    exact hlisted entry hentry

theorem inputPaths_down (h : d₀.GrownIn d skip) (hsource : d₀.SourceAt j.root base)
    (hlisted : j.ListedOn d₀) (hpaths : j.inputPaths ignoring d skip = .ok paths) :
    j.inputPaths ignoring d₀ [] = .ok paths := by
  unfold inputPaths at hpaths ⊢
  split
  · next hfiles =>
    rw [if_pos hfiles] at hpaths
    exact h.findScripts_down (o := j.findOptions []) hsource hpaths
  · next hfiles =>
    rw [if_neg hfiles, listedInputs_eq h.extend hsource.locate hlisted] at hpaths
    exact hpaths

theorem inputPaths_up (h : d₀.GrownIn d skip) (hsource : d₀.SourceAt j.root base)
    (hlisted : j.ListedOn d₀)
    (hignores : ∀ names ∈ d.ignorePlaces j.root j.options.nestedIgnore,
      Disk.Outside skip (base ++ names))
    (hpaths : j.inputPaths ignoring d₀ [] = .ok paths) :
    j.inputPaths ignoring d skip = .ok paths := by
  unfold inputPaths at hpaths ⊢
  split
  · next hfiles =>
    rw [if_pos hfiles] at hpaths
    exact h.findScripts_up (o := j.findOptions []) hsource
      (fun names hmem hnot => absurd (hignores names hmem) hnot) hpaths
  · next hfiles =>
    rw [if_neg hfiles] at hpaths
    rw [listedInputs_eq h.extend hsource.locate hlisted, hpaths]

theorem Reads.down (hreads : j.Reads ignoring d skip registry inputs) (h : d₀.GrownIn d skip)
    (hsource : d₀.SourceAt j.root base) (hlisted : j.ListedOn d₀)
    (hfolders : j.NoFolderAdded d₀ d skip base) : j.Reads ignoring d₀ [] registry inputs := by
  obtain ⟨hregistry, paths, hpaths, hinputs⟩ := hreads
  have hpaths₀ := inputPaths_down h hsource hlisted hpaths
  refine ⟨registry_eq h hsource hfolders ▸ hregistry, paths, hpaths₀, ?_⟩
  exact mapM_readInput_down h.extend (isFile_of_mem_inputPaths h.tidy₀ hlisted hpaths₀) hinputs

theorem Reads.up (hreads : j.Reads ignoring d₀ [] registry inputs) (h : d₀.GrownIn d skip)
    (hsource : d₀.SourceAt j.root base) (hlisted : j.ListedOn d₀)
    (hfolders : j.NoFolderAdded d₀ d skip base)
    (hignores : ∀ names ∈ d.ignorePlaces j.root j.options.nestedIgnore,
      Disk.Outside skip (base ++ names)) : j.Reads ignoring d skip registry inputs := by
  obtain ⟨hregistry, paths, hpaths, hinputs⟩ := hreads
  refine ⟨(registry_eq h hsource hfolders).trans hregistry, paths, ?_, ?_⟩
  · exact inputPaths_up h hsource hlisted hignores hpaths
  · exact mapM_readInput_mono h.extend hinputs

end Job

end ScriptModules
