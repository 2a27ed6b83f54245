import ScriptModules.Proofs.Disk.Listing
import ScriptModules.Proofs.Disk.Step
import ScriptModules.Proofs.Disk.Writing
import ScriptModules.Proofs.Input.Finding
import ScriptModules.Verify

/-!
# Comparing outputs

Two folders that hold the same, links apart, have the same files (`filesBelow_eq`), and a comparison
of them finds no difference (`compare_same`). `value_on_verify` puts a verification together from
the conversion into the passing folder and the comparison.
-/

namespace ScriptModules

namespace Disk

variable {d : Disk} {p q : Path} {names : Location}

/-- A folder without links below it. -/
structure Plain (d : Disk) (p : Path) : Prop where
  names : ∀ name ∈ p.parts, IsName name
  folder : d.shape? p.parts = some .folder
  noLinks : ∀ names target, d.shape? (p.parts ++ names) ≠ some (.link target)

theorem Plain.locate (h : d.Plain p) : d.locate p = .ok p.parts :=
  (isPlace_of_folder h.names h.folder).locate (a := p.anchor)

/-- What is read below a folder without links is what stands there. -/
theorem Plain.read_iff (h : d.Plain p) (htidy : d.Tidy)
    (hthere : d.shape? (p.parts ++ names) ≠ none)
    {content : ByteArray} :
    d.read (under p names) = .ok content ↔ d.shape? (p.parts ++ names) = some (.file content) := by
  have hnames : ∀ name ∈ names, IsName name := fun name hname =>
    htidy.isName hthere name (List.mem_append_right p.parts hname)
  rw [Disk.read_iff, locate_under h.locate hnames hthere (h.noLinks names)]
  simp

theorem Plain.mem_descendants_iff (h : d.Plain p) (htidy : d.Tidy) {entries : List (String × Entry)}
    (hat : d.at? p.parts = some (.folder entries)) :
    (∃ e, (names, e) ∈ descendants entries (fun _ => true) ∧ d.isFile (under p names) = true) ↔
      names ≠ [] ∧ ∃ content, d.shape? (p.parts ++ names) = some (.file content) := by
  have hentry : Entry.lookup? entries names = d.at? (p.parts ++ names) := by
    rw [at?_append, hat, Option.bind_some, Entry.inside?_folder]
  simp only [mem_descendants (htidy.folder hat), hentry, isFile_iff]
  constructor
  · rintro ⟨e, ⟨hnil, he, -⟩, content, hread⟩
    have hthere : d.shape? (p.parts ++ names) ≠ none := by
      rw [Ne, shape?_eq_none, he]
      simp
    exact ⟨hnil, content, (h.read_iff htidy hthere).mp hread⟩
  · rintro ⟨hnil, content, hshape⟩
    refine ⟨.file content, ⟨hnil, shape?_eq_file.mp hshape, by simp [Entry.Passable]⟩, content, ?_⟩
    exact (h.read_iff htidy (by simp [hshape])).mpr hshape

theorem Plain.filesBelow_eq (hp : d.Plain p) (hq : d.Plain q) (htidy : d.Tidy)
    (hsame : ∀ names, d.shape? (p.parts ++ names) = d.shape? (q.parts ++ names)) :
    d.filesBelow p = d.filesBelow q := by
  obtain ⟨entries, hat⟩ := shape?_eq_folder.mp hp.folder
  obtain ⟨entries', hat'⟩ := shape?_eq_folder.mp hq.folder
  unfold filesBelow
  rw [list_iff.mpr ⟨_, hp.locate, hat⟩, list_iff.mpr ⟨_, hq.locate, hat'⟩]
  dsimp only
  rw [List.filter_map, List.filter_map]
  refine filter_descendants_eq (htidy.folder hat) (htidy.folder hat') fun names => ?_
  refine (hp.mem_descendants_iff htidy hat).trans ?_
  rw [hsame]
  exact (hq.mem_descendants_iff htidy hat').symm

theorem Plain.mem_filesBelow (h : d.Plain p) (htidy : d.Tidy) (hmem : names ∈ d.filesBelow p) :
    ∃ content, d.shape? (p.parts ++ names) = some (.file content) := by
  obtain ⟨entries, hat⟩ := shape?_eq_folder.mp h.folder
  unfold filesBelow at hmem
  rw [list_iff.mpr ⟨_, h.locate, hat⟩] at hmem
  obtain ⟨hnames, hfile⟩ := List.mem_filter.mp hmem
  obtain ⟨⟨_, e⟩, he, rfl⟩ := List.mem_map.mp hnames
  exact ((h.mem_descendants_iff htidy hat).mp ⟨e, he, hfile⟩).2

/-- The names of all that is below a folder, as it stands. -/
def namesBelow (d : Disk) (p : Path) : List Location :=
  match d.list p with
  | .ok entries => (Entry.listBelow (fun _ => true) [] entries).map Prod.fst
  | .error _ => []

theorem mem_filesBelow_iff :
    names ∈ d.filesBelow p ↔ names ∈ d.namesBelow p ∧ d.isFile (under p names) = true := by
  unfold filesBelow namesBelow
  cases d.list p with
  | error fault => simp
  | ok entries =>
    rw [List.mem_filter, ((perm_descendants entries fun _ => true).map Prod.fst).mem_iff]
    rfl

/-- A file that is in the first folder only is a difference. -/
theorem compare_ok_eq_false (hp : names ∈ d.namesBelow p) (hfile : d.isFile (under p names) = true)
    (hq : d.isFile (under q names) = false) : (d.compare p q).ok = false := by
  have hbefore : names ∈ d.filesBelow p := mem_filesBelow_iff.mpr ⟨hp, hfile⟩
  have hafter : names ∉ d.filesBelow q := fun hmem => by
    rw [(mem_filesBelow_iff.mp hmem).2] at hq
    cases hq
  have hmissing : "/".intercalate names ∈ (d.compare p q).missing := by
    refine List.mem_mergeSort.mpr (List.mem_map.mpr ⟨names, ?_, rfl⟩)
    exact List.mem_filter.mpr ⟨hbefore, by simpa using hafter⟩
  have hne : (d.compare p q).missing ≠ [] := List.ne_nil_of_mem hmissing
  simp [Comparison.ok, hne]

theorem sameFile_of_read {content : ByteArray} (hp : d.read p = .ok content)
    (hq : d.read q = .ok content) : d.sameFile p q = true := by
  rw [sameFile, hp, hq]
  show (content.data == content.data) = true
  simp

/-- Folders that hold the same do not differ. -/
theorem Plain.compare_same (hp : d.Plain p) (hq : d.Plain q) (htidy : d.Tidy)
    (hsame : ∀ names, d.shape? (p.parts ++ names) = d.shape? (q.parts ++ names)) :
    d.compare p q = ⟨[], [], []⟩ := by
  have hfiles := hp.filesBelow_eq hq htidy hsame
  have hmismatches : (d.filesBelow q).filter (fun names =>
      (d.filesBelow q).contains names && !d.sameFile (under p names) (under q names)) = [] := by
    refine List.filter_eq_nil_iff.mpr fun names hmem => ?_
    obtain ⟨content, hshape⟩ := hq.mem_filesBelow htidy hmem
    have hreadq : d.read (under q names) = .ok content :=
      (hq.read_iff htidy (by simp [hshape])).mpr hshape
    have hreadp : d.read (under p names) = .ok content :=
      (hp.read_iff htidy (by simp [hsame, hshape])).mpr (by rw [hsame, hshape])
    simp [sameFile_of_read hreadp hreadq]
  have hmissing : (d.filesBelow q).filter (fun names => !(d.filesBelow q).contains names) = [] :=
    List.filter_eq_nil_iff.mpr fun names hmem => by simpa using hmem
  unfold compare
  simp only [hfiles, hmismatches, hmissing, List.map_nil, sorted, List.mergeSort_nil]

end Disk

/-- A verification is the conversion into the passing folder, a comparison and the removal of that
folder. -/
theorem value_on_verify {tools : Tools} {w : Surroundings} {root dest : Path} {o : Options}
    {d d₁ d₂ d₃ : Disk} {c : Conversion} (hdest : d.isFolder dest = true)
    (hfolders : d.makeFolders w.temporary = (d₁, .ok ()))
    (hconvert : (DiskStep.on d₁ (Job.convert tools w
      ⟨root, { o with report := none }, some (w.temporary.child "out"), [dest]⟩)).value =
        (d₂, .ok c))
    (hremove : d₂.removeTree w.temporary = .ok d₃) :
    (DiskStep.on d (verify tools w root dest (some o))).value =
      (d₃, .ok (d₂.compare dest (w.temporary.child "out"))) := by
  have hexists : d.exists? dest = true := by
    obtain ⟨loc, hlocate, -⟩ := Disk.isFolder_iff.mp hdest
    exact Disk.exists?_iff.mpr ⟨loc, hlocate⟩
  have hcompared : (DiskStep.on d₁ (compareAfresh tools w root dest o)).value =
      (d₂, .ok (d₂.compare dest (w.temporary.child "out"))) := by
    unfold compareAfresh
    simp only [discard, LawfulFunctor.map_const, Function.comp_apply, map_eq_pure_bind, bind_assoc,
      pure_bind]
    rw [DiskStep.value_on_bind_of_ok hconvert]
    rfl
  unfold verify
  rw [DiskStep.value_on_bind_of_ok (DiskStep.value_on_get d)]
  simp only [hexists, hdest, Bool.not_true, Bool.false_eq_true, if_false, pure_bind]
  rw [DiskStep.value_on_bind_of_ok (DiskStep.value_on_makeFolders_of_ok hfolders)]
  have hattempt := DiskStep.value_on_attempt (ε := Fault) d₁ (compareAfresh tools w root dest o)
  rw [hcompared] at hattempt
  rw [DiskStep.value_on_bind_of_ok hattempt, DiskStep.value_on_bind, DiskStep.value_on_change,
    hremove]
  rfl

end ScriptModules
