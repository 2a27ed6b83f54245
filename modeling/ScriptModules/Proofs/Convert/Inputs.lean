import ScriptModules.Proofs.Emit.Planting
import ScriptModules.Proofs.Input.Finding
import ScriptModules.Tools

/-!
# Input files outlive a conversion

A conversion empties its output folder before it writes there, so an input file outlives it when it
does not lie in that folder. The output folder is neither the source root nor above it
(`output_ok`), and a search for scripts does not enter it (`mem_scriptsBelow`): a script that was
found is never in it (`not_below_dest`). Listed files are not held against the output folder: one
that lies there is removed with it.
-/

namespace ScriptModules

variable {w : Surroundings} {d d' : Disk} {root dest : Path}

theorem resolveDest_ok_iff {text : String} :
    resolveDest w d root text = .ok dest ↔ text ≠ "" ∧ ∃ real p, d.canonical root = .ok real ∧
      w.expand (Path.ofString text) = .ok p ∧ d.canonical (real.join p) = .ok dest ∧
      real.isAtOrBelow dest = false := by
  constructor
  · intro h
    unfold resolveDest at h
    split at h
    · cases h
    · next htext =>
      obtain ⟨real, hreal, h⟩ := bind_eq_ok_iff.mp h
      obtain ⟨p, hp, h⟩ := bind_eq_ok_iff.mp h
      obtain ⟨q, hq, h⟩ := bind_eq_ok_iff.mp h
      split at h
      · cases h
      · next hover =>
        cases h
        exact ⟨htext, real, p, mapError_eq_ok_iff.mp hreal, hp, mapError_eq_ok_iff.mp hq,
          by simpa using hover⟩
  · rintro ⟨htext, real, p, hreal, hp, hq, hover⟩
    simp [resolveDest, htext, hreal, hp, hq, hover, bind, Except.bind, pure, Except.pure]

namespace Job

variable {tools : Tools} {j : Job} {skip paths : List Path} {base : Location}

/-- The output folder as it is given. -/
def destText (j : Job) : Option String :=
  match j.dest, j.options.dest with
  | some p, _ => some p.toString
  | none, some s => if s = "" then none else some s
  | none, none => none

theorem output_ok_iff : j.output w d = .ok (some dest) ↔
    ∃ text, j.destText = some text ∧ resolveDest w d j.root text = .ok dest := by
  have hmap : ∀ text, (resolveDest w d j.root text).map some = .ok (some dest) ↔
      resolveDest w d j.root text = .ok dest := by
    intro text
    cases resolveDest w d j.root text <;> simp [Except.map]
  cases hdest : j.dest with
  | some p => simp [output, destText, hdest, hmap]
  | none =>
    cases hoption : j.options.dest with
    | none => simp [output, destText, hdest, hoption]
    | some s => by_cases hs : s = "" <;> simp [output, destText, hdest, hoption, hs, hmap]

/-- An output folder is not the source root, nor one that the source root lies in. -/
theorem output_ok (h : j.output w d = .ok (some dest)) :
    dest.anchor = .root ∧ ".." ∉ dest.parts ∧
      ∀ base, d.canonical j.root = .ok ⟨.root, base⟩ → ¬ dest.parts <+: base := by
  obtain ⟨text, -, htext⟩ := output_ok_iff.mp h
  obtain ⟨-, real, p, hreal, -, hcanonical, hover⟩ := resolveDest_ok_iff.mp htext
  obtain ⟨hdest, hup, -⟩ := Disk.canonical_ok hcanonical
  have hanchor : dest.anchor = .root := by rw [hdest]
  refine ⟨hanchor, hup, fun base hbase habove => ?_⟩
  rw [hbase, Except.ok.injEq] at hreal
  simp [← hreal, Path.isAtOrBelow, Path.below?, hanchor, habove] at hover

theorem mem_skipped (h : j.skipped d (some dest) = .ok skip) : dest ∈ skip := by
  obtain ⟨ignored, -, h⟩ := bind_eq_ok_iff.mp h
  cases h
  simp

/-- A script that was found does not lie in the output folder, unless it is the output folder. -/
theorem not_below_dest {names : Location} (hout : j.output w d = .ok (some dest))
    (hroot : d.locate j.root = .ok base) (hskip : dest ∈ skip)
    (hway : ∀ way, way ≠ [] → way <+: names → way ≠ names → ⟨.root, base ++ way⟩ ∉ skip)
    (hne : dest.parts ≠ base ++ names) : ¬ dest.parts <+: base ++ names := by
  intro hbelow
  obtain ⟨hanchor, -, hover⟩ := output_ok hout
  rcases way_append_cases hbelow with habove | ⟨way, hnil, hbefore, hdest⟩
  · exact hover base (Disk.canonical_of_locate hroot) habove
  · -- The output folder lies below the root, on the way to the script, and is not entered.
    refine hway way hnil hbefore (fun heq => hne (heq ▸ hdest)) ?_
    rw [← hdest, ← hanchor]
    exact hskip

theorem exists_read {inputs : List Input} (h : paths.mapM (j.readInput d) = .ok inputs) {p : Path}
    (hp : p ∈ paths) : ∃ content, d.read p = .ok content := by
  obtain ⟨input, -, hinput⟩ := exists_ok_of_mapM h hp
  obtain ⟨content, hread, -⟩ := bind_eq_ok_iff.mp hinput
  exact ⟨content, mapError_eq_ok_iff.mp hread⟩

variable {c : Conversion} {p : Path}

/-- The output folder of a conversion lies apart from its source root. -/
structure Apart (j : Job) (d : Disk) (s : State) (dest : Path) : Prop where
  /-- No link is on the way to the output folder. -/
  straight : d.Straight dest.parts
  /-- The path of the source root does not lead through the output folder. -/
  root : (d.remove dest.parts).isFolder j.root = true
  /-- All modules are written into the output folder. -/
  inward : ∀ key ∈ normalize j.options.index :: s.files.keys, Inward key

namespace Apart

variable {s : State}

theorem locate_root (h : j.Apart d s dest) :
    ∃ base, (d.remove dest.parts).locate j.root = .ok base ∧
      (d.remove dest.parts).shape? base = some .folder := Disk.isFolder_iff.mp h.root

theorem dest_ne_nil (h : j.Apart d s dest) (hout : j.output w d = .ok (some dest)) :
    dest.parts ≠ [] := by
  intro hnil
  obtain ⟨base, hlocate, -⟩ := h.locate_root
  rw [hnil] at hlocate
  exact (output_ok hout).2.2 base (Disk.canonical_of_locate hlocate) (by simp [hnil])

/-- An input file that was found is still there when the output folder is emptied. -/
theorem isFile_of_found (h : j.Apart d s dest) (htidy : d.Tidy)
    (hout : j.output w d = .ok (some dest)) {o : FindOptions} (hskip : dest ∈ o.skip)
    (hclear : d.shape? dest.parts = none ∨ d.shape? dest.parts = some .folder) {paths : List Path}
    {ignores : Location → Bool} (hfound : d.scriptsBelow j.root o ignores = .ok paths)
    (hp : p ∈ paths) :
    (d.remove dest.parts).isFile p = true := by
  obtain ⟨base, names, content, hlocate, rfl, -, hshape, hway⟩ :=
    Disk.mem_scriptsBelow htidy hfound hp
  have hne := h.dest_ne_nil hout
  have hplace : dest.parts ≠ base ++ names := by
    intro heq
    rw [heq, hshape] at hclear
    simp at hclear
  have hnot := not_below_dest hout hlocate hskip hway hplace
  have hshape' : (d.remove dest.parts).shape? (base ++ names) = some (.file content) := by
    rw [Disk.shape?_remove hne, if_neg hnot, hshape]
  obtain ⟨base', hlocate', -⟩ := h.locate_root
  have hbase := Disk.locate_mono (Disk.remove_extends hne) hlocate'
  rw [hlocate, Except.ok.injEq] at hbase
  subst hbase
  have hnames : ∀ name ∈ names, IsName name := fun name hname =>
    htidy.isName (by simp [hshape]) name (List.mem_append_right base hname)
  have hunder : (d.remove dest.parts).locate (Disk.under j.root names) = .ok (base ++ names) :=
    Disk.locate_under hlocate' hnames (by simp [hshape']) (by simp [hshape'])
  exact Disk.isFile_iff.mpr ⟨content, Disk.read_iff.mpr ⟨_, hunder, hshape'⟩⟩

end Apart

/-- After a conversion without a report, every input file that it found has the bytes that it had
before, and so has every listed one that does not lie in the output folder. -/
theorem convert_keeps_inputs (htidy : d.Tidy)
    (hreport : j.options.report = none ∨ j.options.report = some "")
    (h : (DiskStep.on d (j.convert tools w)).value = (d', .ok c))
    (hapart : ∀ dest, c.dest = some dest → j.Apart d c.state dest) :
    ∃ paths, j.inputs tools.ignoring w d = .ok paths ∧ ∀ p ∈ paths,
      (j.options.files ≠ [] → ∀ dest, c.dest = some dest → (d.remove dest.parts).isFile p = true) →
        ∃ content, d.read p = .ok content ∧ d'.read p = .ok content := by
  obtain ⟨hplan, hemission⟩ := (convert_ok_iff hreport).mp h
  obtain ⟨skip, registry, inputs, hout, hskip, ⟨-, paths, hpaths, hinputs⟩, -⟩ :=
    prepare_ok_iff.mp hplan
  have hall : j.inputs tools.ignoring w d = .ok paths :=
    bind_eq_ok_iff.mpr ⟨c.dest, hout, bind_eq_ok_iff.mpr ⟨skip, hskip, hpaths⟩⟩
  refine ⟨paths, hall, fun p hp hlisted => ?_⟩
  obtain ⟨content, hread⟩ := exists_read hinputs hp
  refine ⟨content, hread, ?_⟩
  cases hdest : c.dest with
  | none =>
    -- Without an output folder nothing is written.
    simp only [emission, hdest, DiskStep.value_on_pure, Prod.mk.injEq] at hemission
    rwa [← hemission.1]
  | some dest =>
    have h := hapart dest hdest
    rw [hdest] at hout hskip
    rw [emission_ok_iff hdest] at hemission
    have hne := h.dest_ne_nil hout
    obtain ⟨-, files, hemitted⟩ :=
      State.writeModules_ok htidy h.straight hne h.inward hemission
    have hspared : (d.remove dest.parts).isFile p = true := by
      by_cases hfiles : j.options.files = []
      · rw [inputPaths, if_pos hfiles] at hpaths
        obtain ⟨ignored, -, hfound⟩ := Disk.findScripts_iff.mp hpaths
        exact h.isFile_of_found htidy hout (mem_skipped hskip) hemitted.clear hfound hp
      · exact hlisted hfiles dest hdest
    obtain ⟨content', hread'⟩ := Disk.isFile_iff.mp hspared
    have hsame := Disk.read_mono (Disk.remove_extends hne) hread'
    rw [hread, Except.ok.injEq] at hsame
    rw [hsame]
    exact Disk.read_mono (hemitted.extends_removed hne) hread'

/-! ## Runs on disks in order

A search sorts what it meets. Where the entries of a disk stand in order the sorting can be left
out, so that a conversion on a given disk can be evaluated.
-/

/-- Scripts are searched for in a folder whose entries stand in order, and no ignore file counts. -/
structure SearchesInOrder (j : Job) (w : Surroundings) (d : Disk) (dest : Path) (skip : List Path)
    (base : Location) : Prop where
  output : j.output w d = .ok (some dest)
  skipped : j.skipped d (some dest) = .ok skip
  order : d.InOrder j.root base skip
  listed : j.options.files = []
  nested : j.options.nestedIgnore = false
  ignore : d.isFile (Disk.under j.root [ignoreName]) = false

instance (j : Job) (w : Surroundings) (d : Disk) (dest : Path) (skip : List Path)
    (base : Location) :
    Decidable (j.SearchesInOrder w d dest skip base) :=
  decidable_of_iff (j.output w d = .ok (some dest) ∧ j.skipped d (some dest) = .ok skip ∧
      d.InOrder j.root base skip ∧ j.options.files = [] ∧ j.options.nestedIgnore = false ∧
      d.isFile (Disk.under j.root [ignoreName]) = false)
    ⟨fun h => ⟨h.1, h.2.1, h.2.2.1, h.2.2.2.1, h.2.2.2.2.1, h.2.2.2.2.2⟩,
      fun h => ⟨h.output, h.skipped, h.order, h.listed, h.nested, h.ignore⟩⟩

/-- The scripts, as they stand. -/
def scriptsInOrder (j : Job) (d : Disk) (skip : List Path) (base : Location) : List Path :=
  (((d.unsorted base skip).filter ((j.findOptions skip).picks (isIgnored []))).map Prod.fst).map
    (Disk.under j.root)

/-- The registry, with the names of the folders as they stand. -/
def registryInOrder (j : Job) (d : Disk) (skip : List Path) (base : Location) : Registry :=
  let r := Registry.new j.options.renameDups
  if j.options.renameDups then
    r.seed ((((d.unsorted base skip).filter (Disk.enters ⟨.root, base⟩ skip)).map Prod.fst).map
      fun names => names.getLast?.getD "")
  else r

/-- A conversion without sorting. -/
def runInOrder (tools : Tools) (w : Surroundings) (j : Job) (d : Disk) (dest : Path)
    (skip : List Path) (base : Location) : Disk × Except Fault Conversion :=
  match (j.scriptsInOrder d skip base).mapM (j.readInput d) >>=
      j.planOf tools.parser (some dest) (j.registryInOrder d skip base) with
  | .ok plan => (DiskStep.on d (j.carryOut tools w plan)).value
  | .error f => (d, .error f)

namespace SearchesInOrder

variable (h : j.SearchesInOrder w d dest skip base)
include h

theorem inputPaths_eq (ignoring : IgnoreReader) :
    j.inputPaths ignoring d skip = .ok (j.scriptsInOrder d skip base) := by
  rw [inputPaths, if_pos h.listed]
  exact Disk.InOrder.findScripts_eq (o := j.findOptions skip) h.order h.nested h.ignore

theorem registry_eq : j.registry d skip = .ok (j.registryInOrder d skip base) := by
  unfold registry registryInOrder
  split
  · rw [h.order.folderNames_eq]
    rfl
  · rfl

theorem value_on_convert (tools : Tools) :
    (DiskStep.on d (j.convert tools w)).value = j.runInOrder tools w d dest skip base := by
  rw [Job.value_on_convert, value_prepare_of_paths h.output h.skipped h.registry_eq
    (h.inputPaths_eq _)]
  rfl

end SearchesInOrder

/-- A source root with scripts, and an output folder below it that holds a script as well. -/
def nested : Disk :=
  ⟨[("root", .folder [("a.js", .file "var x = 1;\n".toUTF8),
    ("lib", .folder [("b.js", .file "x = 2;\n".toUTF8)]),
    ("out", .folder [("a.js", .file "var y;\n".toUTF8)])])]⟩

/-- A conversion of all scripts of a source root, which may be renamed. -/
def searching : Job where
  root := ⟨.root, ["root"]⟩
  options := { Options.default with renameDups := true }
  dest := some ⟨.root, ["root", "out"]⟩
  ignored := []

theorem searching_nested : searching.SearchesInOrder .bare nested ⟨.root, ["root", "out"]⟩
    [⟨.root, ["root", "out"]⟩] ["root"] := by decide +kernel

theorem convert_nested :
    DiskStep.yields nested (searching.convert .own .bare) (fun c =>
      decide (c.dest = some ⟨.root, ["root", "out"]⟩ ∧
        ∀ key ∈ normalize searching.options.index :: c.state.files.keys,
          Inward key ∧ (Path.ofString key).parts ≠ [])) = true := by
  rw [DiskStep.yields, searching_nested.value_on_convert]
  decide +kernel

theorem convert_keeps_inputs_nested :
    ∃ d' c, (DiskStep.on nested (searching.convert .own .bare)).value = (d', .ok c) ∧
      c.dest = some ⟨.root, ["root", "out"]⟩ ∧
      searching.Apart nested c.state ⟨.root, ["root", "out"]⟩ ∧
      ∃ content, nested.read ⟨.root, ["root", "lib", "b.js"]⟩ = .ok content ∧
        d'.read ⟨.root, ["root", "lib", "b.js"]⟩ = .ok content := by
  obtain ⟨c, h, htest⟩ := DiskStep.ok_of_yields convert_nested
  obtain ⟨hdest, hinward⟩ := of_decide_eq_true htest
  have hapart : searching.Apart nested c.state ⟨.root, ["root", "out"]⟩ :=
    ⟨Disk.straight_of_folder (by decide) (by decide +kernel), by decide +kernel,
      fun key hkey => (hinward key hkey).1⟩
  obtain ⟨paths, hpaths, hkept⟩ := convert_keeps_inputs
    (Disk.tidy_of_isTidy (by decide +kernel)) (.inl rfl) h
    (fun dest heq => by
      rw [hdest, Option.some.injEq] at heq
      exact heq ▸ hapart)
  have hinputs : searching.inputs Tools.own.ignoring .bare nested =
      .ok (searching.scriptsInOrder nested _ _) :=
    bind_eq_ok_iff.mpr ⟨_, searching_nested.output,
      bind_eq_ok_iff.mpr ⟨_, searching_nested.skipped, searching_nested.inputPaths_eq _⟩⟩
  rw [hinputs, Except.ok.injEq] at hpaths
  have hmem : ⟨.root, ["root", "lib", "b.js"]⟩ ∈ paths := by
    rw [← hpaths]
    decide +kernel
  exact ⟨_, c, h, hdest, hapart, hkept _ hmem fun hfiles => absurd rfl hfiles⟩

/-- A source root with a script in a folder that is to be the output folder. -/
def overlapping : Disk :=
  ⟨[("root", .folder [("out", .folder [("a.js", .file "var x = 1;\n".toUTF8)])])]⟩

/-- A conversion of a listed script into the folder that it lies in. -/
def listing : Job where
  root := ⟨.root, ["root"]⟩
  options := { Options.default with files := ["out/a.js"] }
  dest := some ⟨.root, ["root", "out"]⟩
  ignored := []

/-- A listed script in the output folder is removed. -/
theorem listed_input_lost :
    ∃ d' c, (DiskStep.on overlapping (listing.convert .own .bare)).value = (d', .ok c) ∧
      listing.inputs Tools.own.ignoring .bare overlapping = .ok [⟨.root, ["root", "out", "a.js"]⟩] ∧
      overlapping.read ⟨.root, ["root", "out", "a.js"]⟩ = .ok "var x = 1;\n".toUTF8 ∧
      d'.read ⟨.root, ["root", "out", "a.js"]⟩ = .error .notFound := by
  obtain ⟨c, h, -⟩ := DiskStep.ok_of_yields
    (show DiskStep.yields overlapping (listing.convert .own .bare) (fun _ => true) = true by
      decide +kernel)
  exact ⟨_, c, h, by decide +kernel, by decide +kernel, by decide +kernel⟩

end Job

end ScriptModules
