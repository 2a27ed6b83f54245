import ScriptModules.Proofs.Convert.Blind
import ScriptModules.Proofs.Convert.Inputs
import ScriptModules.Proofs.Emit.Rewriting
import ScriptModules.Proofs.Path.Retitle
import ScriptModules.Proofs.Verify

/-!
# Conversions can be repeated

A conversion changes the disk that the next one reads. The argument that the next one still writes
the same goes through the disk without the output, from which all conversions read the same:

* `Repeatable.done`: what the first conversion read is there without its output;
* `Done.convert_again`: a second conversion reads it too, and writes the same files again;
* `Done.convert_elsewhere`: so does one into a passing folder, and a comparison finds no difference.

`Repeatable` lists what this needs. Most of it keeps the output apart from what is read. One
condition is about names: when files may be renamed, the names of folders are reserved, so the
folder in which the output folder lies must have been there if it is below the source root.
-/

namespace ScriptModules

namespace Job

variable {tools : Tools} {w : Surroundings} {j : Job} {d₀ d d₁ e : Disk} {c : Conversion}
  {dest : Path} {base : Location} {s : State} {files : List (Location × String)}
  {registry : Registry} {inputs : List Input}

/-- The output folder of a conversion and its files keep out of the way of another conversion. -/
structure Repeatable (j : Job) (w : Surroundings) (d : Disk) (s : State) (dest : Path)
    (base : Location) : Prop where
  /-- No link is on the way to the output folder. -/
  straight : d.Straight dest.parts
  /-- The source root and its ignore files do not need the output folder. -/
  source : (d.remove dest.parts).SourceAt j.root base
  /-- Neither does the name of the output folder. -/
  output : j.output w (d.remove dest.parts) = .ok (some dest)
  /-- No listed input file lies in the output folder. -/
  listed : j.ListedOn (d.remove dest.parts)
  /-- All modules are written into the output folder, and not in its place. -/
  inward : ∀ key ∈ normalize j.options.index :: s.files.keys,
    Inward key ∧ (Path.ofString key).parts ≠ []
  /-- No module is an ignore file that counts. -/
  unignored : j.options.nestedIgnore = true →
    ∀ key ∈ normalize j.options.index :: s.files.keys, (Path.ofString key).name ≠ ignoreName
  /-- Where folder names are reserved, no folder has to be made for the output folder to lie in. -/
  parent : j.options.renameDups = true → base <+: dest.parts →
    d.shape? dest.parts.dropLast = some .folder

/-- A passing folder that is not there yet, in a folder that is. -/
structure Passing (j : Job) (w : Surroundings) (d : Disk) (dest : Path) (base : Location) :
    Prop where
  anchor : w.temporary.anchor = .root
  names : ∀ name ∈ w.temporary.parts, IsName name ∧ Component (· = '/') name
  parent : d.shape? w.temporary.parts.dropLast = some .folder
  fresh : d.shape? w.temporary.parts = none
  outsideOutput : ¬ dest.parts <+: w.temporary.parts
  outsideRoot : j.options.renameDups = true → ¬ base <+: w.temporary.parts

instance (j : Job) (w : Surroundings) (d : Disk) (dest : Path) (base : Location) :
    Decidable (j.Passing w d dest base) :=
  decidable_of_iff (w.temporary.anchor = .root ∧
      (∀ name ∈ w.temporary.parts, IsName name ∧ Component (· = '/') name) ∧
      d.shape? w.temporary.parts.dropLast = some .folder ∧ d.shape? w.temporary.parts = none ∧
      ¬ dest.parts <+: w.temporary.parts ∧
      (j.options.renameDups = true → ¬ base <+: w.temporary.parts))
    ⟨fun h => ⟨h.1, h.2.1, h.2.2.1, h.2.2.2.1, h.2.2.2.2.1, h.2.2.2.2.2⟩,
      fun h => ⟨h.anchor, h.names, h.parent, h.fresh, h.outsideOutput, h.outsideRoot⟩⟩

/-- What a conversion did, told from the disk without its output. -/
structure Done (tools : Tools) (w : Surroundings) (j : Job) (d d₁ : Disk) (c : Conversion)
    (dest : Path) (files : List (Location × String)) (registry : Registry) (inputs : List Input) :
    Prop where
  tidy : d.Tidy
  anchor : dest.anchor = .root
  nonempty : dest.parts ≠ []
  reads : j.Reads tools.ignoring (d.remove dest.parts) [] registry inputs
  plan : j.planOf tools.parser (some dest) registry inputs = .ok c.toPlan
  emitted : Emitted c.state w.current dest j.options.index files d d₁
  named : ∀ f ∈ files, f.1 ≠ []
  written : c.written =
    (c.state.outputs w.current (normalize j.options.index)).map fun t => outputPath dest t.1

theorem skipped_eq (hignored : j.ignored = []) : j.skipped d (some dest) = .ok [dest] := by
  simp [skipped, hignored, bind, Except.bind, pure, Except.pure]

theorem Repeatable.apart (h : j.Repeatable w d s dest base) : j.Apart d s dest where
  straight := h.straight
  root := Disk.isFolder_iff.mpr ⟨base, h.source.locate, h.source.folder⟩
  inward key hkey := (h.inward key hkey).1

/-! ## The first conversion -/

/-- Without its output folder a disk has all other folders. -/
theorem noFolderAdded_removed (hne : dest.parts ≠ []) :
    j.NoFolderAdded (d.remove dest.parts) d [dest] base := by
  intro _ names hfolder hout
  rw [Disk.shape?_remove hne, if_neg (hout dest (by simp)), hfolder]

theorem Repeatable.done (htidy : d.Tidy)
    (hreport : j.options.report = none ∨ j.options.report = some "") (hignored : j.ignored = [])
    (h : (DiskStep.on d (j.convert tools w)).value = (d₁, .ok c)) (hdest : c.dest = some dest)
    (hrep : j.Repeatable w d c.state dest base) :
    ∃ files registry inputs, Done tools w j d d₁ c dest files registry inputs := by
  obtain ⟨hplan, hemission⟩ := (convert_ok_iff hreport).mp h
  obtain ⟨skip, registry, inputs, hout, hskip, hreads, hplan⟩ := prepare_ok_iff.mp hplan
  rw [hdest] at hout hskip hplan
  rw [skipped_eq hignored, Except.ok.injEq] at hskip
  subst hskip
  have hne := hrep.apart.dest_ne_nil hout
  have hanchor := (output_ok hout).1
  rw [emission_ok_iff hdest] at hemission
  obtain ⟨hwritten, files, hemitted⟩ :=
    State.writeModules_ok htidy hrep.straight hne hrep.apart.inward hemission
  have hgrown := Disk.grownIn_of_removed htidy hanchor hne hemitted.clear
  have hreads₀ := hreads.down hgrown hrep.source hrep.listed (noFolderAdded_removed hne)
  exact ⟨files, registry, inputs, htidy, hanchor, hne, hreads₀, hplan, hemitted,
    hemitted.named fun key hkey => (hrep.inward key hkey).2, hwritten⟩

/-! ## What a second conversion meets -/

/-- The output has made no folder that counts. -/
theorem Done.noFolderAdded (hdone : Done tools w j d d₁ c dest files registry inputs)
    (hrep : j.Repeatable w d c.state dest base) :
    j.NoFolderAdded (d.remove dest.parts) d₁ [dest] base := by
  intro hrename names hfolder hout
  have hbelow := hout dest (by simp)
  rw [Disk.shape?_remove hdone.nonempty, if_neg hbelow]
  by_cases habove : base ++ names <+: dest.parts
  · have hparent := hrep.parent hrename ((List.prefix_append base names).trans habove)
    have hproper : base ++ names ≠ dest.parts := fun heq => hbelow (heq ▸ List.prefix_refl _)
    exact Disk.shape?_folder_of_way (way_dropLast habove hproper) hparent
  · rw [← hdone.emitted.apart hdone.nonempty hbelow habove, hfolder]

/-- No ignore file that counts is in the output folder. -/
theorem Done.ignores_outside (hdone : Done tools w j d d₁ c dest files registry inputs)
    (hrep : j.Repeatable w d c.state dest base) (htidy : e.Tidy)
    (hext : (d.remove dest.parts).Extends e)
    (hinside : ∀ names, e.shape? (dest.parts ++ names) = d₁.shape? (dest.parts ++ names))
    {names : Location} (hmem : names ∈ e.ignorePlaces j.root j.options.nestedIgnore) :
    ¬ dest.parts <+: base ++ names := by
  rintro ⟨inner, hinner⟩
  have hroot := Disk.locate_mono hext hrep.source.locate
  have hfolder := hext base _ hrep.source.folder
  obtain ⟨-, hlast, -, hnested⟩ := (Disk.mem_ignorePlaces htidy hroot hfolder).mp hmem
  obtain ⟨hthere, hnot⟩ := Disk.shape?_of_mem_ignorePlaces htidy hroot hfolder hmem
  rw [← hinner, hinside] at hthere hnot
  obtain ⟨shape, hshape⟩ := Option.ne_none_iff_exists'.mp hthere
  obtain rfl | ⟨content, rfl, hfile⟩ := hdone.emitted.inside hdone.nonempty hshape
  · exact hnot hshape
  · obtain ⟨f, hf, rfl⟩ := List.mem_map.mp hfile
    have hnil := hdone.named f hf
    cases hcounts : j.options.nestedIgnore with
    | true =>
      obtain ⟨⟨key, text⟩, ht, hparts⟩ := hdone.emitted.rendered.exists_mem hf
      refine hrep.unignored hcounts key (State.mem_outputs ht) ?_
      have hnames : names ≠ [] := by
        rintro rfl
        simp at hlast
      have hsame : f.1.getLast? = names.getLast? := by
        rw [← List.getLast?_append_of_ne_nil dest.parts hnil, hinner,
          List.getLast?_append_of_ne_nil base hnames]
      rw [Path.name, hparts, hsame, hlast, Option.getD_some]
    | false =>
      -- The ignore file of the root itself would be in a folder above the root.
      have habove : dest.parts <+: base := by
        have hway : dest.parts <+: (base ++ names).dropLast := by
          refine way_dropLast ⟨f.1, hinner⟩ fun heq => hnil ?_
          rw [← heq] at hinner
          simpa using hinner
        rwa [hnested hcounts, List.dropLast_concat] at hway
      exact (output_ok hrep.output).2.2 base (Disk.canonical_of_locate hrep.source.locate) habove

theorem output_up (hroot : d₀.locate j.root = .ok base) (hext : d₀.Extends e)
    (hlinks : d₀.SameLinks e) (hplace : e.IsPlace dest.parts)
    (h : j.output w d₀ = .ok (some dest)) : j.output w e = .ok (some dest) := by
  obtain ⟨text, htext, h⟩ := output_ok_iff.mp h
  obtain ⟨hne, real, p, hreal, hp, hcanonical, hover⟩ := resolveDest_ok_iff.mp h
  rw [Disk.canonical_of_locate hroot] at hreal
  have hreal' : e.canonical j.root = .ok real := by
    rw [Disk.canonical_of_locate (Disk.locate_mono hext hroot), hreal]
  exact output_ok_iff.mpr ⟨text, htext, resolveDest_ok_iff.mpr
    ⟨hne, real, p, hreal', hp, Disk.canonical_congr hlinks hcanonical hplace, hover⟩⟩

/-- A second conversion does what the first one did. -/
theorem Done.convert_again (hdone : Done tools w j d d₁ c dest files registry inputs)
    (hrep : j.Repeatable w d c.state dest base)
    (hreport : j.options.report = none ∨ j.options.report = some "") (hignored : j.ignored = [])
    (hdest : c.dest = some dest) :
    ∃ d₂, (DiskStep.on d₁ (j.convert tools w)).value = (d₂, .ok c) ∧ d₂.shape? = d₁.shape? := by
  have hemitted := hdone.emitted
  have hne := hdone.nonempty
  have hgrown := hemitted.grownIn hdone.tidy hdone.anchor hne hdone.named
  have hfolder : ∀ way, way <+: dest.parts → d₁.shape? way = some .folder := fun way hway =>
    hemitted.folder hdone.named hway
  have hplace : d₁.IsPlace dest.parts :=
    Disk.isPlace_of_folder hemitted.isName (hfolder _ (List.prefix_refl _))
  have hout :=
    output_up hrep.source.locate hgrown.extend (hemitted.sameLinks hne hdone.named) hplace
    hrep.output
  have hreads : j.Reads tools.ignoring d₁ [dest] registry inputs := by
    refine hdone.reads.up hgrown hrep.source hrep.listed (hdone.noFolderAdded hrep) ?_
    intro names hmem p hp
    rw [List.mem_singleton.mp hp]
    exact hdone.ignores_outside hrep hemitted.tidy hgrown.extend (fun _ => rfl) hmem
  have hprepare : (j.prepare tools w d₁).value = .ok c.toPlan := by
    refine prepare_ok_iff.mpr ⟨[dest], registry, inputs, ?_⟩
    rw [hdest]
    exact ⟨hout, skipped_eq hignored, hreads, hdone.plan⟩
  obtain ⟨d₂, hwritten, hemitted₂⟩ := hemitted.again hne hrep.apart.inward hdone.named hemitted.tidy
    hne hemitted.isName fun way hway => .inr (hfolder way hway)
  refine ⟨d₂, (convert_ok_iff hreport).mpr ⟨hprepare, ?_⟩,
    hemitted.shape_again hemitted₂ hne hdone.named⟩
  rw [emission_ok_iff hdest, hdone.written]
  exact hwritten

/-! ## A conversion into a passing folder -/

/-- The output folder inside the passing folder. -/
def passingOut (w : Surroundings) : Path := ⟨.root, w.temporary.parts ++ ["out"]⟩

theorem passingOut_parts (w : Surroundings) :
    (passingOut w).parts = w.temporary.parts ++ ["out"] := rfl

namespace Passing

variable (h : j.Passing w d dest base)
include h

theorem out_eq : w.temporary.child "out" = passingOut w := by
  rw [Path.child, h.anchor, passingOut]

theorem out_names :
    ∀ name ∈ (passingOut w).parts, IsName name ∧ Component (· = '/') name := by
  intro name hname
  rcases List.mem_append.mp hname with hname | hname
  · exact h.names name hname
  · rw [List.mem_singleton.mp hname]
    exact ⟨by decide, by decide⟩

theorem clear : d.Clear w.temporary.parts := by
  intro way hway
  by_cases heq : way = w.temporary.parts
  · exact .inl (heq ▸ h.fresh)
  · exact .inr (Disk.shape?_folder_of_way (way_dropLast hway heq) h.parent)

/-- The folder inside the passing one is not there when that has been made. -/
theorem out_absent (hopened : d.Opened e w.temporary.parts) :
    e.shape? (passingOut w).parts = none := by
  have hnot : ¬ (passingOut w).parts <+: w.temporary.parts := fun hway => by
    have hlength := hway.length_le
    rw [passingOut_parts, List.length_append, List.length_singleton] at hlength
    omega
  rw [hopened.shape, if_neg hnot]
  exact Disk.shape?_append_of_ne_folder (by simp) (by simp [h.fresh])

theorem out_clear (hopened : d.Opened e w.temporary.parts) : e.Clear (passingOut w).parts := by
  intro way hway
  by_cases heq : way = (passingOut w).parts
  · exact .inl (heq ▸ h.out_absent hopened)
  · have hway := way_dropLast hway heq
    rw [passingOut_parts, List.dropLast_concat] at hway
    exact .inr (by rw [hopened.shape, if_pos hway])

/-- The passing folder leaves the output as it was. -/
theorem inside_opened (hopened : d.Opened e w.temporary.parts) (names : Location) :
    e.shape? (dest.parts ++ names) = d.shape? (dest.parts ++ names) := by
  rw [hopened.shape, if_neg fun hway => h.outsideOutput ((List.prefix_append _ _).trans hway)]

/-- The passing output does not lie in the output folder, nor that in the passing output. -/
theorem out_apart (hfolder : d.shape? dest.parts = some .folder) :
    ¬ dest.parts <+: (passingOut w).parts ∧ ¬ (passingOut w).parts <+: dest.parts := by
  have hnot : ¬ w.temporary.parts <+: dest.parts := fun hway => by
    have hfresh := h.fresh
    rw [Disk.shape?_folder_of_way hway hfolder] at hfresh
    cases hfresh
  refine ⟨fun hway => ?_, fun hway => hnot ((List.prefix_append _ _).trans hway)⟩
  by_cases heq : dest.parts = (passingOut w).parts
  · exact hnot (heq ▸ List.prefix_append _ _)
  · have hway := way_dropLast hway heq
    rw [passingOut_parts, List.dropLast_concat] at hway
    exact h.outsideOutput hway

/-- The output folder of a conversion into the passing folder. -/
theorem output_out {j' : Job} (hj : j'.dest = some (w.temporary.child "out"))
    (hopened : d.Opened e w.temporary.parts) {root : Location} (hroot : e.locate j'.root = .ok root)
    (hfolder : e.shape? root = some .folder) : j'.output w e = .ok (some (passingOut w)) := by
  have htext : j'.destText = some (passingOut w).toString := by
    simp [destText, hj, h.out_eq]
  have hread : Path.ofString (passingOut w).toString = passingOut w :=
    ofString_toString fun name hname => (h.out_names name hname).2
  have hne : (passingOut w).toString ≠ "" := by
    intro hempty
    have hanchor : (Path.ofString "").anchor = .root := by rw [← hempty, hread, passingOut]
    cases hanchor
  have hexpand : w.expand (Path.ofString (passingOut w).toString) = .ok (passingOut w) := by
    rw [hread]
    rfl
  have hcanonical : e.canonical (passingOut w) = .ok (passingOut w) :=
    Disk.canonical_of_clear (fun name hname => (h.out_names name hname).1) (h.out_clear hopened)
  -- The source root is there, and the passing output is not.
  have hnot : ¬ (passingOut w).parts <+: root := fun hway => by
    have habsent := h.out_absent hopened
    rw [Disk.shape?_folder_of_way hway hfolder] at habsent
    cases habsent
  have hover : Path.isAtOrBelow ⟨.root, root⟩ (passingOut w) = false := by
    simp [Path.isAtOrBelow, Path.below?, hnot]
  exact output_ok_iff.mpr ⟨_, htext, resolveDest_ok_iff.mpr
    ⟨hne, ⟨.root, root⟩, passingOut w, Disk.canonical_of_locate hroot, hexpand, hcanonical, hover⟩⟩

end Passing

/-- The conversion that a verification runs. -/
def afresh (j : Job) (w : Surroundings) (dest : Path) : Job :=
  ⟨j.root, { j.options with report := none }, some (w.temporary.child "out"), [dest]⟩

section Passing

variable (hdone : Done tools w j d d₁ c dest files registry inputs)
  (hrep : j.Repeatable w d c.state dest base) (hpassing : j.Passing w d₁ dest base)
  (hopened : d₁.Opened e w.temporary.parts)
include hdone hpassing hopened

theorem Done.grown_opened :
    (d.remove dest.parts).GrownIn e [passingOut w, dest] :=
  ((hdone.emitted.grownIn hdone.tidy hdone.anchor hdone.nonempty hdone.named).opened
    hopened).skip_more rfl (hpassing.out_absent hopened)

include hrep

/-- A conversion into the passing folder reads what the first one read. -/
theorem Done.reads_opened : j.Reads tools.ignoring e [passingOut w, dest] registry inputs := by
  have hgrown := hdone.grown_opened hpassing hopened
  refine hdone.reads.up hgrown hrep.source hrep.listed ?_ ?_
  · intro hrename names hfolder hout
    have hnot : ¬ base ++ names <+: w.temporary.parts := fun hway =>
      hpassing.outsideRoot hrename ((List.prefix_append base names).trans hway)
    rw [hopened.shape, if_neg hnot] at hfolder
    exact hdone.noFolderAdded hrep hrename names hfolder fun p hp =>
      hout p (List.mem_cons_of_mem _ hp)
  · intro names hmem p hp hbelow
    rcases List.mem_cons.mp hp with rfl | hp
    · -- Nothing is where the passing output is going to be.
      have hroot := Disk.locate_mono hgrown.extend hrep.source.locate
      have hfolder := hgrown.extend base _ hrep.source.folder
      obtain ⟨hthere, -⟩ := Disk.shape?_of_mem_ignorePlaces hgrown.tidy hroot hfolder hmem
      obtain ⟨rest, hrest⟩ := hbelow
      have habsent := hpassing.out_absent hopened
      by_cases hnil : rest = []
      · rw [← hrest, hnil, List.append_nil] at hthere
        exact hthere habsent
      · rw [← hrest] at hthere
        rw [Disk.shape?_folder_of_append hnil hthere] at habsent
        cases habsent
    · rw [List.mem_singleton.mp hp] at hbelow
      exact hdone.ignores_outside hrep hgrown.tidy hgrown.extend
        (hpassing.inside_opened hopened) hmem hbelow

/-- A conversion into the passing folder writes what the first one wrote. -/
theorem Done.convert_elsewhere :
    ∃ e' c', (DiskStep.on e ((j.afresh w dest).convert tools w)).value = (e', .ok c') ∧
      Emitted c.state w.current (passingOut w) j.options.index files e e' := by
  have hgrown := hdone.grown_opened hpassing hopened
  have hout : (j.afresh w dest).output w e = .ok (some (passingOut w)) :=
    hpassing.output_out rfl hopened (Disk.locate_mono hgrown.extend hrep.source.locate)
      (hgrown.extend base _ hrep.source.folder)
  have hfolder : e.shape? dest.parts = some .folder := by
    have hinside := hpassing.inside_opened hopened []
    rw [List.append_nil] at hinside
    rw [hinside, hdone.emitted.folder hdone.named (List.prefix_refl _)]
  have hcanonical : e.canonical dest = .ok dest := by
    obtain ⟨anchor, parts⟩ := dest
    have hanchor : anchor = .root := hdone.anchor
    subst hanchor
    exact Disk.canonical_of_locate (Disk.isPlace_of_folder hdone.emitted.isName hfolder).locate
  have hskip : (j.afresh w dest).skipped e (some (passingOut w)) = .ok [passingOut w, dest] := by
    simp [skipped, afresh, hcanonical, bind, Except.bind, pure, Except.pure]
  have hplan :
      (j.afresh w dest).planOf tools.parser (some (passingOut w)) registry inputs = .ok _ :=
    planOf_redirect hdone.plan
  obtain ⟨e', hwritten, hemitted⟩ :=
    hdone.emitted.again hdone.nonempty hrep.apart.inward hdone.named
    hgrown.tidy (by simp [passingOut]) (fun name hname => (hpassing.out_names name hname).1)
    (hpassing.out_clear hopened)
  have hprepare : ((j.afresh w dest).prepare tools w e).value =
      .ok { c.toPlan with dest := some (passingOut w) } :=
    prepare_ok_iff.mpr ⟨_, registry, inputs, hout, hskip,
      hdone.reads_opened hrep hpassing hopened, hplan⟩
  let written := (c.state.outputs w.current (normalize j.options.index)).map fun t =>
    outputPath (passingOut w) t.1
  have hconvert : (DiskStep.on e ((j.afresh w dest).convert tools w)).value =
      (e', .ok { c with dest := some (passingOut w), written }) :=
    (convert_ok_iff (.inl rfl)).mpr ⟨hprepare, (emission_ok_iff rfl).mpr hwritten⟩
  exact ⟨e', _, hconvert, hemitted⟩

omit hrep in
/-- The two outputs do not differ. -/
theorem Done.compare_elsewhere {e' : Disk}
    (hemitted : Emitted c.state w.current (passingOut w) j.options.index files e e') :
    e'.compare dest (passingOut w) = ⟨[], [], []⟩ := by
  have hne : (passingOut w).parts ≠ [] := by simp [passingOut]
  obtain ⟨hnot, hnot'⟩ :=
    hpassing.out_apart (hdone.emitted.folder hdone.named (List.prefix_refl _))
  have hinside : ∀ names, e'.shape? (dest.parts ++ names) = d₁.shape? (dest.parts ++ names) := by
    intro names
    rw [hemitted.apart hne, hpassing.inside_opened hopened]
    · exact fun hbelow => (List.prefix_or_prefix_of_prefix hbelow (List.prefix_append _ _)).elim
        hnot' hnot
    · exact fun habove => hnot ((List.prefix_append _ _).trans habove)
  have hsame : ∀ names,
      e'.shape? (dest.parts ++ names) = e'.shape? ((passingOut w).parts ++ names) := fun names =>
    (hinside names).trans (hdone.emitted.inside_eq hemitted hdone.nonempty hne names)
  have hlinks : ∀ names target,
      e'.shape? ((passingOut w).parts ++ names) ≠ some (.link target) := by
    intro names target hlink
    rcases hemitted.inside hne hlink with hfolder | ⟨content, hfile, -⟩
    · cases hfolder
    · cases hfile
  have hout : e'.Plain (passingOut w) :=
    ⟨hemitted.isName, hemitted.folder hdone.named (List.prefix_refl _), hlinks⟩
  have hfolder : e'.shape? dest.parts = some .folder := by
    rw [← List.append_nil dest.parts, hsame, List.append_nil, hout.folder]
  have hdest : e'.Plain dest :=
    ⟨hdone.emitted.isName, hfolder, fun names target => hsame names ▸ hlinks names target⟩
  exact hdest.compare_same hout hemitted.tidy hsame

end Passing

/-- A conversion without a report that keeps its output out of the way can be repeated: a second
conversion ends in the same way and leaves the disk as it was, and a verification of the output
finds no difference. -/
theorem convert_repeatable (htidy : d.Tidy)
    (hreport : j.options.report = none ∨ j.options.report = some "") (hignored : j.ignored = [])
    (h : (DiskStep.on d (j.convert tools w)).value = (d₁, .ok c)) (hdest : c.dest = some dest)
    (hrep : j.Repeatable w d c.state dest base) :
    (∃ d₂, (DiskStep.on d₁ (j.convert tools w)).value = (d₂, .ok c) ∧ d₂.shape? = d₁.shape?) ∧
      (j.Passing w d₁ dest base → ∃ d₃ r,
        (DiskStep.on d₁ (verify tools w j.root dest (some j.options))).value = (d₃, .ok r) ∧
          r.ok = true ∧ r = ⟨[], [], []⟩) := by
  obtain ⟨files, registry, inputs, hdone⟩ := Repeatable.done htidy hreport hignored h hdest hrep
  refine ⟨hdone.convert_again hrep hreport hignored hdest, fun hpassing => ?_⟩
  obtain ⟨e, hfolders⟩ := Disk.makeFolders_of_clear
    (fun name hname => (hpassing.names name hname).1) hpassing.clear
  have hopened : d₁.Opened e w.temporary.parts := Disk.makeFolders_ok
    (hpassing.clear.straight fun hup => (hpassing.names ".." hup).1.1 rfl) hfolders
  obtain ⟨e', c', hconvert, hemitted⟩ := hdone.convert_elsewhere hrep hpassing hopened
  have hfolder : d₁.isFolder dest = true := by
    have hshape := hdone.emitted.folder hdone.named (List.prefix_refl _)
    exact Disk.isFolder_iff.mpr
      ⟨_, (Disk.isPlace_of_folder hdone.emitted.isName hshape).locate (a := dest.anchor), hshape⟩
  have hremove : e'.removeTree w.temporary = .ok (e'.remove w.temporary.parts) :=
    Disk.removeTree_folder (a := w.temporary.anchor)
      (fun name hname => (hpassing.names name hname).1)
      (hemitted.folder hdone.named (List.prefix_append _ _))
  have hverify := value_on_verify hfolder hfolders hconvert hremove
  rw [hpassing.out_eq, hdone.compare_elsewhere hpassing hopened hemitted] at hverify
  exact ⟨_, _, hverify, rfl, rfl⟩

/-- The output folder of `searching`. -/
def nestedOut : Path := ⟨.root, ["root", "out"]⟩

theorem repeatable_nested {s : State}
    (hinward : ∀ key ∈ normalize searching.options.index :: s.files.keys,
      Inward key ∧ (Path.ofString key).parts ≠ []) :
    searching.Repeatable .bare nested s nestedOut ["root"] where
  straight := Disk.straight_of_folder (by decide) (by decide +kernel)
  source := ⟨by decide +kernel, by decide +kernel, fun names t _ hlink =>
    absurd hlink
      (Disk.shape?_ne_link (Disk.tidy_of_isTidy (by decide +kernel)) (by decide +kernel) _ t)⟩
  output := by decide +kernel
  listed := by
    intro entry hentry
    cases hentry
  inward := hinward
  unignored := by
    intro hnested
    cases hnested
  parent _ _ := by decide +kernel

theorem passing_nested : searching.Passing .bare
    (DiskStep.on nested (searching.convert .own .bare)).value.1 nestedOut ["root"] := by
  rw [searching_nested.value_on_convert]
  decide +kernel

theorem convert_repeatable_nested :
    ∃ d₁ c, (DiskStep.on nested (searching.convert .own .bare)).value = (d₁, .ok c) ∧
      searching.Repeatable .bare nested c.state nestedOut ["root"] ∧
      (∃ d₂, (DiskStep.on d₁ (searching.convert .own .bare)).value = (d₂, .ok c) ∧
        d₂.shape? = d₁.shape?) ∧
      ∃ d₃ r, (DiskStep.on d₁ (verify .own .bare searching.root nestedOut
        (some searching.options))).value = (d₃, .ok r) ∧ r.ok = true ∧ r = ⟨[], [], []⟩ := by
  obtain ⟨c, h, htest⟩ := DiskStep.ok_of_yields convert_nested
  obtain ⟨hdest, hinward⟩ := of_decide_eq_true htest
  have hrep := repeatable_nested hinward
  obtain ⟨hagain, hverify⟩ :=
    convert_repeatable (Disk.tidy_of_isTidy (by decide +kernel)) (.inl rfl)
    rfl h hdest hrep
  exact ⟨_, c, h, hrep, hagain, hverify passing_nested⟩

/-- A source root with one script, and no folder yet for the output folder to lie in. -/
def budding : Disk :=
  ⟨[("root", .folder [("a", .folder [("build.js", .file "var x = 1;\n".toUTF8)])])]⟩

/-- The output folder of `reserving`. -/
def buddingOut : Path := ⟨.root, ["root", "build", "out"]⟩

/-- A conversion that makes a folder with the name of a script. -/
def reserving : Job := { searching with dest := some buddingOut }

/-- The disk after the first conversion. -/
def budded : Disk :=
  (reserving.runInOrder .own .bare budding buddingOut [buddingOut] ["root"]).1

/-- The disk with the passing folder. -/
def opened : Disk := (budded.makeFolders Surroundings.bare.temporary).1

/-- The disk after a conversion into the passing folder. -/
def compared : Disk :=
  ((reserving.afresh .bare buddingOut).runInOrder .own .bare opened (passingOut .bare)
    [passingOut .bare, buddingOut] ["root"]).1

theorem reserving_budding :
    reserving.SearchesInOrder .bare budding buddingOut [buddingOut] ["root"] := by decide +kernel

theorem reserving_budded :
    reserving.SearchesInOrder .bare budded buddingOut [buddingOut] ["root"] := by decide +kernel

theorem afresh_opened : (reserving.afresh .bare buddingOut).SearchesInOrder .bare opened
    (passingOut .bare) [passingOut .bare, buddingOut] ["root"] := by decide +kernel

/-- The first conversion keeps the name of the script. -/
theorem convert_budding : ∃ c,
    (DiskStep.on budding (reserving.convert .own .bare)).value = (budded, .ok c) ∧
      c.dest = some buddingOut := by
  have hyields : DiskStep.yields budding (reserving.convert .own .bare) (fun c =>
      decide (c.dest = some buddingOut)) = true := by
    rw [DiskStep.yields, reserving_budding.value_on_convert]
    decide +kernel
  obtain ⟨c, hc, hdest⟩ := DiskStep.ok_of_yields hyields
  rw [reserving_budding.value_on_convert] at hc ⊢
  exact ⟨c, hc, of_decide_eq_true hdest⟩

/-- The second one renames it. -/
theorem convert_budded : ∃ d₂ c₂,
    (DiskStep.on budded (reserving.convert .own .bare)).value = (d₂, .ok c₂) ∧
      budded.isFile (Disk.under buddingOut ["a", "build.js"]) = true ∧
      d₂.isFile (Disk.under buddingOut ["a", "build.js"]) = false := by
  have hyields : DiskStep.yields budded (reserving.convert .own .bare) (fun _ => true) = true ∧
      budded.isFile (Disk.under buddingOut ["a", "build.js"]) = true ∧
      (DiskStep.on budded (reserving.convert .own .bare)).value.1.isFile
        (Disk.under buddingOut ["a", "build.js"]) = false := by
    rw [DiskStep.yields, reserving_budded.value_on_convert]
    decide +kernel
  obtain ⟨c₂, hc₂, -⟩ := DiskStep.ok_of_yields hyields.1
  exact ⟨_, c₂, hc₂, hyields.2⟩

theorem verify_budded : ∃ d₃ r, (DiskStep.on budded (verify .own .bare reserving.root
    buddingOut (some reserving.options))).value = (d₃, .ok r) ∧ r.ok = false := by
  have hbudded : budded.isFolder buddingOut = true ∧
      (budded.makeFolders Surroundings.bare.temporary).2 = .ok () := by decide +kernel
  have hcompared : DiskStep.yields opened ((reserving.afresh .bare buddingOut).convert .own
        .bare) (fun _ => true) = true ∧
      compared.shape? Surroundings.bare.temporary.parts = some .folder ∧
      ["a", "build.js"] ∈ compared.namesBelow buddingOut ∧
      compared.isFile (Disk.under buddingOut ["a", "build.js"]) = true ∧
      compared.isFile (Disk.under (passingOut .bare) ["a", "build.js"]) = false := by
    rw [DiskStep.yields, afresh_opened.value_on_convert]
    decide +kernel
  obtain ⟨hyields, htemporary, hnames, hfile, hnot⟩ := hcompared
  obtain ⟨c₃, hc₃, -⟩ := DiskStep.ok_of_yields hyields
  rw [afresh_opened.value_on_convert] at hc₃
  have hconvert : (DiskStep.on opened ((reserving.afresh .bare buddingOut).convert .own
      .bare)).value = (compared, .ok c₃) := (afresh_opened.value_on_convert _).trans hc₃
  have hremove : compared.removeTree Surroundings.bare.temporary = .ok _ :=
    Disk.removeTree_folder (a := .root) (by decide) htemporary
  exact ⟨_, _, value_on_verify hbudded.1 (Prod.ext rfl hbudded.2) hconvert hremove,
    Disk.compare_ok_eq_false hnames hfile hnot⟩

/-- When a conversion makes a folder that has the name of a script, that name is reserved for the
next one: it renames the script, and a verification finds a difference. -/
theorem name_reserved_by_output :
    ∃ d₁ c, (DiskStep.on budding (reserving.convert .own .bare)).value = (d₁, .ok c) ∧
      c.dest = some buddingOut ∧
      (∃ d₂ c₂, (DiskStep.on d₁ (reserving.convert .own .bare)).value = (d₂, .ok c₂) ∧
        d₁.isFile (Disk.under buddingOut ["a", "build.js"]) = true ∧
        d₂.isFile (Disk.under buddingOut ["a", "build.js"]) = false) ∧
      ∃ d₃ r, (DiskStep.on d₁ (verify .own .bare reserving.root buddingOut
        (some reserving.options))).value = (d₃, .ok r) ∧ r.ok = false := by
  obtain ⟨c, hc, hdest⟩ := convert_budding
  exact ⟨budded, c, hc, hdest, convert_budded, verify_budded⟩

end Job

end ScriptModules
