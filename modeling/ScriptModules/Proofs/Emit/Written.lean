import ScriptModules.Proofs.Disk.Detour
import ScriptModules.Proofs.Emit.Imports
import ScriptModules.Proofs.Emit.Rewriting
import ScriptModules.Proofs.Convert.Failure
import ScriptModules.Proofs.Data.Table
import ScriptModules.Proofs.Verify

/-!
# The written output

What `State.writeModules` leaves at its destination is the state: `State.writeModules_exact`. The
path of the destination may lead over links. Once the old output is gone the path means nothing,
and when files can be written below it all the same, it is a detour to a place where nothing is
(`State.writeModules_emitted`), so that what is known about straight paths applies there.

Each file is then in its place (`plantedAll_file`), whatever the order of writing, and there is
nothing else but folders on the way (`plantedAll_folder`).

The aggregator names every module in order, but it says so only when the names can stand between
quotes: `State.aggregator_misread` has two states for which it does not.
-/

namespace ScriptModules

variable {d d' : Disk} {a : Anchor} {dest : Path} {init base more rest : List String}
  {loc top target names : Location} {content : ByteArray} {files : List (Location × String)}
  {view : Location → Option Shape} {texts : List (String × Except RenderFault String)}

/-! ## Writing along a detour -/

theorem Disk.Detour.planted (h : d.Detour init base rest) (hplantable : Plantable d.shape? loc)
    (hshape : d'.shape? = planted d.shape? loc content) : d'.Detour init base rest := by
  refine h.mono (fun target s hs hbefore => ?_) ⟨h.straight.1, fun way target hway => ?_⟩
  · rw [hshape, ScriptModules.planted]
    split
    · next heq =>
      -- Only a file may have been in the place.
      rcases hplantable.place with hnone | ⟨content', hfile⟩
      · rw [← heq, hbefore] at hnone
        cases hnone
      · rw [← heq, hbefore] at hfile
        exact absurd (Option.some.inj hfile) (hs content')
    · next hne =>
      split
      · next hway =>
        rcases hplantable.way target hway hne with hnone | hfolder
        · rw [hbefore] at hnone
          cases hnone
        · rw [← hfolder, hbefore]
      · exact hbefore
  · rw [hshape]
    exact planted_ne_link (h.straight.2 way target hway)

theorem emitFile_detour {text : Except RenderFault String} (hdetour : d.Detour init base rest)
    (hrest : rest ≠ [])
    (h : (DiskStep.on d (emitFile ⟨a, init ++ rest⟩ text)).value = (d', .ok ())) :
    (DiskStep.on d (emitFile ⟨a, base ++ rest⟩ text)).value = (d', .ok ()) := by
  obtain ⟨d₁, _, hfolders, h⟩ := DiskStep.ok_of_bind h
  obtain ⟨d₂, s, htext, h⟩ := DiskStep.ok_of_bind h
  obtain ⟨rfl, rfl⟩ := DiskStep.ok_of_ofExcept htext
  have hparent : ∀ top : Location, Path.parent ⟨a, top ++ rest⟩ = ⟨a, top ++ rest.dropLast⟩ := by
    intro top
    rw [Path.parent, List.dropLast_append_of_ne_nil hrest]
  have hbefore := hdetour.take (List.dropLast_prefix rest)
  have hfolders : d.makeFolders ⟨a, base ++ rest.dropLast⟩ = (d₂, .ok ()) :=
    hbefore.makeFolders_ok (hparent init ▸ DiskStep.ok_of_makeFolders hfolders)
  have hopened := Disk.makeFolders_ok hbefore.straight hfolders
  have hwrite : d₂.write ⟨a, init ++ rest⟩ s.toUTF8 = .ok d' := DiskStep.ok_of_change h
  rw [(hdetour.opened hopened).write_eq hrest] at hwrite
  unfold emitFile
  rw [DiskStep.value_on_bind_of_ok
      (DiskStep.value_on_makeFolders_of_ok ((hparent base).symm ▸ hfolders)),
    DiskStep.value_on_bind_of_ok (DiskStep.value_on_ofExcept d₂ _ _), DiskStep.value_on_change,
    hwrite]

theorem emitAll_detour (hinward : ∀ t ∈ texts, Inward t.1)
    (hnamed : ∀ t ∈ texts, (Path.ofString t.1).parts ≠ [])
    (hdetour : ∀ t ∈ texts, d.Detour init base (more ++ (Path.ofString t.1).parts))
    (h : (DiskStep.on d (emitAll ⟨a, init ++ more⟩ texts)).value = (d', .ok ())) :
    (DiskStep.on d (emitAll ⟨a, base ++ more⟩ texts)).value = (d', .ok ()) := by
  induction texts generalizing d with
  | nil => exact h
  | cons t texts ih =>
    obtain ⟨d₁, _, hfile, h⟩ := DiskStep.ok_of_bind h
    obtain ⟨hin, hinward⟩ := List.forall_mem_cons.mp hinward
    obtain ⟨hname, hnamed⟩ := List.forall_mem_cons.mp hnamed
    obtain ⟨hfirst, hdetour⟩ := List.forall_mem_cons.mp hdetour
    have hpath : ∀ top : Location, outputPath ⟨a, top ++ more⟩ t.1 =
        ⟨a, top ++ (more ++ (Path.ofString t.1).parts)⟩ := by
      intro top
      rw [hin.outputPath_eq, Disk.under, List.append_assoc]
    rw [hpath] at hfile
    have hfile := emitFile_detour hfirst (by simp [hname]) hfile
    obtain ⟨s, -, hplantable, hshape, -⟩ := emitFile_ok hfirst.straight hfile
    rw [emitAll, hpath, DiskStep.value_on_bind_of_ok hfile]
    exact ih hinward hnamed (fun t ht => (hdetour t ht).planted hplantable hshape) h

/-! ## Clearing -/

/-- After clearing, the destination is no more. -/
theorem clearing_leaves (htidy : d.Tidy) (hne : dest.parts ≠ []) (hup : ".." ∉ dest.parts)
    (h : (DiskStep.on d (clearing dest)).value = (d', .ok ())) :
    d'.exists? dest = false ∧ d'.Tidy := by
  unfold clearing at h
  rw [DiskStep.value_on_bind_of_ok (DiskStep.value_on_get d)] at h
  by_cases hexists : d.exists? dest = true
  · rw [if_pos hexists] at h
    obtain ⟨anchor, parts⟩ := dest
    obtain ⟨init, name, rfl⟩ := (List.eq_nil_or_concat' parts).resolve_left hne
    obtain ⟨loc, hlocate⟩ := Disk.exists?_iff.mp hexists
    obtain ⟨hloc, rfl⟩ := Disk.removeTree_ok (fun heq => hup (by simp [heq])) hlocate
      (DiskStep.ok_of_change h)
    refine ⟨Bool.eq_false_iff.mpr fun hstill => ?_, htidy.remove loc⟩
    -- The path would lead to the same place as before, where nothing is.
    obtain ⟨loc', hlocate'⟩ := Disk.exists?_iff.mp hstill
    have hsame : loc' = loc := by
      have hbefore := Disk.locate_mono (Disk.remove_extends hloc) hlocate'
      rw [hlocate] at hbefore
      exact (Except.ok.inj hbefore).symm
    obtain ⟨n, -, hleads⟩ := Disk.locate_iff.mp hlocate'
    have hthere := (hleads.isPlace (Disk.isPlace_nil _)).2.1
    rw [hsame, Disk.shape?_remove hloc, if_pos (List.prefix_refl loc)] at hthere
    exact hthere rfl
  · rw [if_neg hexists] at h
    cases h
    exact ⟨by simpa using hexists, htidy⟩

/-! ## The place of the output -/

theorem IsKey.inward {key : String} (h : IsKey key) : Inward key := by
  refine ⟨by rw [h.ofString_eq]; rfl, ?_⟩
  rw [h.ofString_eq]
  exact h.up_notMem

theorem IsKey.parts_eq {key : String} (h : IsKey key) :
    (Path.ofString key).parts = slashParts key := by
  rw [h.ofString_eq]

theorem IsKey.named {key : String} (h : IsKey key) : (Path.ofString key).parts ≠ [] := by
  rw [h.parts_eq]
  exact slashParts_ne_nil key

/-- Where files could be written below a path that means nothing, the path is a detour. -/
theorem exists_detour_of_emitAll (hup : ".." ∉ dest.parts) (habsent : d.exists? dest = false)
    (hne : texts ≠ []) (hinward : ∀ t ∈ texts, Inward t.1)
    (hnamed : ∀ t ∈ texts, (Path.ofString t.1).parts ≠ [])
    (h : (DiskStep.on d (emitAll dest texts)).value = (d', .ok ())) :
    ∃ init base name more, dest.parts = init ++ name :: more ∧ d.shape? (base ++ [name]) = none ∧
      ∀ names, ".." ∉ names → d.Detour init base (name :: more ++ names) := by
  obtain ⟨t, texts, rfl⟩ := List.exists_cons_of_ne_nil hne
  have hin := hinward t (List.mem_cons_self ..)
  have hname := hnamed t (List.mem_cons_self ..)
  obtain ⟨d₁, _, hfile, -⟩ := DiskStep.ok_of_bind h
  obtain ⟨d₂, _, hfolders, -⟩ := DiskStep.ok_of_bind hfile
  have hfolders := DiskStep.ok_of_makeFolders hfolders
  rw [hin.outputPath_eq, Disk.under, Path.parent, List.dropLast_append_of_ne_nil hname] at hfolders
  have hfolder : d.isFolder dest = false := by
    refine Bool.eq_false_iff.mpr fun hfolder => ?_
    obtain ⟨loc, hlocate, -⟩ := Disk.isFolder_iff.mp hfolder
    rw [Disk.exists?_iff.mpr ⟨loc, hlocate⟩] at habsent
    cases habsent
  exact Disk.exists_detour hup hfolder (fun hmem => hin.noUp (List.dropLast_subset _ hmem)) hfolders

/-- The path leads to the output afterwards. -/
theorem Emitted.locate_detour {s : State} {current : Path} {index : String}
    (h : Emitted s current ⟨a, base ++ rest⟩ index files d d') (hdetour : d.Detour init base rest)
    (hrest : rest ≠ []) (hgone : d.shape? (base ++ rest) = none) (hnamed : ∀ f ∈ files, f.1 ≠ []) :
    d'.locate ⟨a, init ++ rest⟩ = .ok (base ++ rest) := by
  have hne : base ++ rest ≠ [] := by simp [hrest]
  -- The folder from which the detour goes on by names is still there.
  have hextends : d.Extends d' := by
    intro loc shape hloc
    exact h.extends_removed hne loc shape ((Disk.remove_absent hne hgone).symm ▸ hloc)
  have hlocate := Disk.locate_mono hextends (hdetour.locate a)
  have hfolder := h.folder hnamed (List.prefix_refl _)
  have hnames : ∀ name ∈ rest, IsName name := fun name hname =>
    h.isName name (List.mem_append_right base hname)
  exact Disk.locate_under hlocate hnames (by rw [hfolder]; simp) (by rw [hfolder]; simp)

namespace State

variable {s : State} {current : Path} {index : String} {written : List Path}

theorem outputs_ne_nil (s : State) (current : Path) (indexKey : String) :
    s.outputs current indexKey ≠ [] := by
  simp [outputs]

/-- Below a path that meant nothing, the output is written to a place where nothing was, and to
which the path leads afterwards. -/
theorem emitAll_emitted (htidy : d.Tidy) (hup : ".." ∉ dest.parts)
    (habsent : d.exists? dest = false)
    (hkeys : ∀ key ∈ normalize index :: s.files.keys, IsKey key)
    (hfree : ¬s.files.contains (normalize index) = true)
    (h : (DiskStep.on d (emitAll dest (s.outputs current (normalize index)))).value =
      (d', .ok ())) :
    ∃ top files, top ≠ [] ∧ d'.locate dest = .ok top ∧
      Emitted s current ⟨dest.anchor, top⟩ index files d d' := by
  have hkey : ∀ t ∈ s.outputs current (normalize index), IsKey t.1 :=
    fun t ht => hkeys _ (mem_outputs ht)
  have hinward : ∀ t ∈ s.outputs current (normalize index), Inward t.1 :=
    fun t ht => (hkey t ht).inward
  have hnamed : ∀ t ∈ s.outputs current (normalize index), (Path.ofString t.1).parts ≠ [] :=
    fun t ht => (hkey t ht).named
  obtain ⟨init, base, name, more, hdest, hnone, hdetour⟩ :=
    exists_detour_of_emitAll hup habsent (outputs_ne_nil s _ _) hinward hnamed h
  have hall : (DiskStep.on d (emitAll ⟨dest.anchor, init ++ name :: more⟩
      (s.outputs current (normalize index)))).value = (d', .ok ()) := hdest ▸ h
  have hall := emitAll_detour hinward hnamed (fun t ht => hdetour _ (hinward t ht).noUp) hall
  have hstraight : ∀ t ∈ s.outputs current (normalize index),
      d.Straight (base ++ name :: more ++ (Path.ofString t.1).parts) := by
    intro t ht
    rw [List.append_assoc]
    exact (hdetour _ (hinward t ht).noUp).straight
  obtain ⟨files, hrendered, hplantable, hshape, htidy'⟩ := emitAll_ok hinward hstraight hall
  have htop : base ++ name :: more ≠ [] := by simp
  have hgone : d.shape? (base ++ name :: more) = none := by
    rw [List.append_cons]
    by_cases hmore : more = []
    · rw [hmore, List.append_nil, hnone]
    · exact Disk.shape?_append_of_ne_folder hmore (by simp [hnone])
  have hremoved := Disk.remove_absent htop hgone
  have hemitted : Emitted s current ⟨dest.anchor, base ++ name :: more⟩ index files d d' := by
    refine ⟨hrendered, hfree, ?_, .inl hgone, hremoved.symm ▸ hplantable, hremoved.symm ▸ hshape,
      htidy' htidy⟩
    rintro rfl
    simp [Rendered, outputs] at hrendered
  have hlocate := hemitted.locate_detour (by simpa using hdetour [] (by simp)) (by simp) hgone
    (hemitted.named fun key hkey => (hkeys key hkey).named)
  rw [← hdest] at hlocate
  exact ⟨base ++ name :: more, files, htop, hlocate, hemitted⟩

theorem writeModules_emitted (htidy : d.Tidy) (hne : dest.parts ≠ []) (hup : ".." ∉ dest.parts)
    (hkeys : ∀ key ∈ normalize index :: s.files.keys, IsKey key)
    (h : (DiskStep.on d (s.writeModules current dest index)).value = (d', .ok written)) :
    written = (s.outputs current (normalize index)).map (fun t => outputPath dest t.1) ∧
      ∃ top files d₁, top ≠ [] ∧ d'.locate dest = .ok top ∧
        Emitted s current ⟨dest.anchor, top⟩ index files d₁ d' := by
  rw [value_on_writeModules] at h
  split at h
  · cases h
  · next hfree =>
    obtain ⟨d₁, _, hclearing, h⟩ := DiskStep.ok_of_bind h
    rw [value_on_filling] at h
    obtain ⟨d₂, _, hall, h⟩ := DiskStep.ok_of_bind h
    obtain ⟨rfl, hwritten⟩ := Prod.mk.inj h
    obtain ⟨habsent, htidy₁⟩ := clearing_leaves htidy hne hup hclearing
    obtain ⟨top, files, htop, hlocate, hemitted⟩ :=
      emitAll_emitted htidy₁ hup habsent hkeys hfree hall
    exact ⟨(Except.ok.inj hwritten).symm, top, files, d₁, htop, hlocate, hemitted⟩

end State

/-! ## What is in its place -/

/-- A file is not touched by those that are written after it to other places. -/
theorem plantedAll_keeps (h : PlantableAll view files) (hother : target ∉ files.map Prod.fst)
    (hfile : view target = some (.file content)) :
    plantedAll view files target = some (.file content) := by
  induction files generalizing view with
  | nil => exact hfile
  | cons f files ih =>
    obtain ⟨hplantable, hrest⟩ := h
    obtain ⟨hne, hother⟩ := not_or.mp (mt List.mem_cons.mpr hother)
    refine ih hrest hother ?_
    rw [planted, if_neg hne, if_neg, hfile]
    -- A file on the way would have kept the later one from being written.
    intro hway
    rcases hplantable.way target hway hne with hnone | hfolder
    · rw [hfile] at hnone
      cases hnone
    · rw [hfile] at hfolder
      cases hfolder

/-- Each file is in its place at the end. -/
theorem plantedAll_file (h : PlantableAll view files) (hnodup : (files.map Prod.fst).Nodup)
    {f : Location × String} (hf : f ∈ files) :
    plantedAll view files f.1 = some (.file f.2.toUTF8) := by
  induction files generalizing view with
  | nil => cases hf
  | cons g files ih =>
    obtain ⟨hfirst, hnodup⟩ := List.nodup_cons.mp hnodup
    rcases List.mem_cons.mp hf with rfl | hf
    · have hthere : planted view f.1 f.2.toUTF8 f.1 = some (.file f.2.toUTF8) := by
        rw [planted, if_pos rfl]
      show plantedAll (planted view f.1 f.2.toUTF8) files f.1 = _
      exact plantedAll_keeps h.2 hfirst hthere
    · exact ih h.2 hnodup hf

/-- The folders at the end were there, or lie on the way to a file. -/
theorem plantedAll_folder (h : plantedAll view files target = some .folder) :
    view target = some .folder ∨ ∃ f ∈ files, target <+: f.1 := by
  induction files generalizing view with
  | nil => exact .inl h
  | cons f files ih =>
    rcases ih h with h | ⟨g, hg, hway⟩
    · unfold planted at h
      split at h
      · cases h
      · split at h
        · next hway => exact .inr ⟨f, List.mem_cons_self .., hway⟩
        · exact .inl h
    · exact .inr ⟨g, List.mem_cons_of_mem f hg, hway⟩

namespace Emitted

variable {s : State} {current : Path} {index : String}

/-- The files that were written are in their places. -/
theorem file (h : Emitted s current dest index files d d') (hnodup : (files.map Prod.fst).Nodup)
    {f : Location × String} (hf : f ∈ files) :
    d'.shape? (dest.parts ++ f.1) = some (.file f.2.toUTF8) := by
  have hplaced : ((placed dest.parts files).map Prod.fst).Nodup := by
    have hmap : (placed dest.parts files).map Prod.fst =
        (files.map Prod.fst).map (dest.parts ++ ·) := by
      simp [placed]
    rw [hmap]
    exact hnodup.map fun x y => List.append_cancel_left
  rw [h.shape]
  exact plantedAll_file h.plantable hplaced (f := (dest.parts ++ f.1, f.2))
    (List.mem_map_of_mem hf)

/-- There are no other folders than those that the files lie in. -/
theorem folder_way (h : Emitted s current dest index files d d') (hne : dest.parts ≠ [])
    (hfolder : d'.shape? (dest.parts ++ names) = some .folder) : ∃ f ∈ files, names <+: f.1 := by
  rw [h.shape] at hfolder
  rcases plantedAll_folder hfolder with hbefore | ⟨g, hg, hway⟩
  · rw [Disk.shape?_remove hne, if_pos (List.prefix_append _ _)] at hbefore
    cases hbefore
  · obtain ⟨f, hf, rfl⟩ := List.mem_map.mp hg
    exact ⟨f, hf, (List.prefix_append_right_inj dest.parts).mp hway⟩

end Emitted

/-! ## The files below a folder -/

namespace Disk

variable {p : Path}

theorem read_under (htidy : d.Tidy) (hlocate : d.locate p = .ok top)
    (hfile : d.shape? (top ++ names) = some (.file content)) :
    d.read (under p names) = .ok content := by
  have hnames : ∀ name ∈ names, IsName name := fun name hname =>
    htidy.isName (by rw [hfile]; simp) name (List.mem_append_right top hname)
  exact read_iff.mpr
    ⟨_, locate_under hlocate hnames (by rw [hfile]; simp) (by rw [hfile]; simp), hfile⟩

/-- The files below a folder without links are those that stand there. -/
theorem mem_filesBelow_of_locate (htidy : d.Tidy) (hlocate : d.locate p = .ok top)
    (hfolder : d.shape? top = some .folder)
    (hlinks : ∀ names target, d.shape? (top ++ names) ≠ some (.link target)) :
    names ∈ d.filesBelow p ↔
      names ≠ [] ∧ ∃ content, d.shape? (top ++ names) = some (.file content) := by
  obtain ⟨entries, hat⟩ := shape?_eq_folder.mp hfolder
  have hentry : Entry.lookup? entries names = d.at? (top ++ names) := by
    rw [at?_append, hat, Option.bind_some, Entry.inside?_folder]
  unfold filesBelow
  rw [list_iff.mpr ⟨top, hlocate, hat⟩]
  simp only [List.mem_filter, List.mem_map, Prod.exists, exists_and_right, exists_eq_right,
    mem_descendants (htidy.folder hat), hentry]
  constructor
  · rintro ⟨⟨e, hne, he, -⟩, hfile⟩
    refine ⟨hne, ?_⟩
    cases e with
    | file content => exact ⟨content, shape?_eq_file.mpr he⟩
    | link target => exact absurd (shape?_eq_link.mpr he) (hlinks names target)
    | folder inner =>
      -- The path leads to the folder, so it is not a file.
      have hshape := shape?_eq_folder.mpr ⟨inner, he⟩
      have hnames : ∀ name ∈ names, IsName name := fun name hname =>
        htidy.isName (by rw [hshape]; simp) name (List.mem_append_right top hname)
      have hlocated := locate_under hlocate hnames (by rw [hshape]; simp) (hlinks names)
      obtain ⟨content, hread⟩ := isFile_iff.mp hfile
      obtain ⟨loc, hloc, hcontent⟩ := read_iff.mp hread
      rw [show d.locate ⟨p.anchor, p.parts ++ names⟩ = .ok (top ++ names) from hlocated] at hloc
      cases hloc
      rw [hshape] at hcontent
      cases hcontent
  · rintro ⟨hne, content, hshape⟩
    exact ⟨⟨.file content, hne, shape?_eq_file.mp hshape, by simp [Entry.Passable]⟩,
      isFile_iff.mpr ⟨content, read_under htidy hlocate hshape⟩⟩

theorem nodup_filesBelow (htidy : d.Tidy) (p : Path) : (d.filesBelow p).Nodup := by
  unfold filesBelow
  cases hlist : d.list p with
  | error fault => exact List.nodup_nil
  | ok entries =>
    obtain ⟨loc, -, hat⟩ := list_iff.mp hlist
    exact (nodup_descendants (htidy.folder hat)).filter _

end Disk

/-! ## The output -/

/-- The folder at `dest` holds the modules and the aggregator of a state, and nothing else, as a
program writes them that runs in the folder `current`. -/
structure Disk.HoldsOutput (d : Disk) (current dest : Path) (s : State) (index : String) :
    Prop where
  /-- The files are those of the keys and the aggregator, each once. -/
  files : (d.filesBelow dest).Perm ((s.files.keys ++ [normalize index]).map slashParts)
  /-- Each file of a key holds its module. -/
  modules : ∀ key ∈ s.files.keys, ∃ text, s.renderModule current key = .ok text ∧
    d.read (outputPath dest key) = .ok text.toUTF8
  /-- The aggregator has an import statement for each module, in order, with a specifier that leads
  to the module. -/
  aggregator : ∃ specs, d.read (outputPath dest (normalize index)) =
      .ok (aggregatorText specs).toUTF8 ∧
    List.Forall₂ (fun key spec => loaded (normalize index) spec = key) s.files.keys specs ∧
    -- It is read as these imports exactly when they can stand between quotes, as those of keys do
    -- that have no quotes and ends of lines.
    (importsOf? (aggregatorText specs) = some specs ↔ ∀ spec ∈ specs, Quotable spec) ∧
    ((∀ key ∈ s.files.keys, Quotable key) → importsOf? (aggregatorText specs) = some specs)
  /-- All that stands in the folder is one of the files, or a folder on the way to one. -/
  nothingElse : ∃ top, d.locate dest = .ok top ∧ ∀ names shape, names ≠ [] →
    d.shape? (top ++ names) = some shape → ∃ key ∈ s.files.keys ++ [normalize index],
      names <+: slashParts key ∧
        (names = slashParts key ∧ (∃ content, shape = .file content) ∨
          names ≠ slashParts key ∧ shape = .folder)

theorem Rendered.exists_file (h : Rendered texts files)
    {t : String × Except RenderFault String} (ht : t ∈ texts) :
    ∃ f ∈ files, f.1 = (Path.ofString t.1).parts ∧ t.2 = .ok f.2 := by
  have hmem : ((Path.ofString t.1).parts, t.2) ∈ files.map fun f => (f.1, .ok f.2) :=
    h ▸ List.mem_map_of_mem ht
  obtain ⟨f, hf, heq⟩ := List.mem_map.mp hmem
  obtain ⟨hnames, htext⟩ := Prod.mk.inj heq
  exact ⟨f, hf, hnames, htext.symm⟩

namespace Emitted

variable {s : State} {current : Path} {index : String}

theorem files_names (h : Emitted s current dest index files d d')
    (hkeys : ∀ key ∈ normalize index :: s.files.keys, IsKey key) :
    files.map Prod.fst = (s.files.keys ++ [normalize index]).map slashParts := by
  have hnames := congrArg (List.map Prod.fst) h.rendered
  simp only [List.map_map, Function.comp_def] at hnames
  rw [← hnames, State.outputs, List.map_append, List.map_append, List.map_map]
  refine congrArg₂ (· ++ ·) (List.map_congr_left fun key hkey => ?_) ?_
  · exact (hkeys key (List.mem_cons_of_mem _ hkey)).parts_eq
  · exact congrArg (· :: []) (hkeys _ (List.mem_cons_self ..)).parts_eq

theorem nodup_names (h : Emitted s current dest index files d d')
    (hkeys : ∀ key ∈ normalize index :: s.files.keys, IsKey key) :
    (files.map Prod.fst).Nodup := by
  have hindex : normalize index ∉ s.files.keys := fun hmem =>
    h.free ((Table.contains_iff _ _).mpr hmem)
  have hnodup : (s.files.keys ++ [normalize index]).Nodup := by
    rw [← List.concat_eq_append]
    exact (Table.keys_nodup _).concat hindex
  rw [h.files_names hkeys]
  exact hnodup.map fun x y => slashParts_injective

section Located

variable {p : Path} (h : Emitted s current ⟨p.anchor, top⟩ index files d d')
  (hkeys : ∀ key ∈ normalize index :: s.files.keys, IsKey key)
include h hkeys

/-- What is read at an output path is the text of that output. -/
theorem read_output (hlocate : d'.locate p = .ok top) {t : String × Except RenderFault String}
    (ht : t ∈ s.outputs current (normalize index)) :
    ∃ text, t.2 = .ok text ∧ d'.read (outputPath p t.1) = .ok text.toUTF8 := by
  obtain ⟨f, hf, hparts, htext⟩ := h.rendered.exists_file ht
  refine ⟨f.2, htext, ?_⟩
  rw [(hkeys _ (State.mem_outputs ht)).inward.outputPath_eq, ← hparts]
  exact Disk.read_under h.tidy hlocate (h.file (h.nodup_names hkeys) hf)

/-- The files in the folder are those of the keys and the aggregator. -/
theorem filesBelow_perm (hlocate : d'.locate p = .ok top) (hne : top ≠ []) :
    (d'.filesBelow p).Perm ((s.files.keys ++ [normalize index]).map slashParts) := by
  have hnodup := h.nodup_names hkeys
  have hnamed := h.named fun key hkey => (hkeys key hkey).named
  have hfolder : d'.shape? top = some .folder := h.folder hnamed (List.prefix_refl _)
  have hlinks : ∀ names target, d'.shape? (top ++ names) ≠ some (.link target) := by
    intro names target hlink
    rcases h.inside hne hlink with hfolder | ⟨content, hfile, -⟩
    · cases hfolder
    · cases hfile
  rw [← h.files_names hkeys, List.perm_ext_iff_of_nodup (Disk.nodup_filesBelow h.tidy p) hnodup]
  intro names
  rw [Disk.mem_filesBelow_of_locate h.tidy hlocate hfolder hlinks]
  constructor
  · rintro ⟨-, content, hshape⟩
    rcases h.inside hne hshape with hfolder | ⟨_, -, hmem⟩
    · cases hfolder
    · exact hmem
  · intro hmem
    obtain ⟨f, hf, rfl⟩ := List.mem_map.mp hmem
    exact ⟨hnamed f hf, _, h.file hnodup hf⟩

/-- All that stands in the folder is one of the files, or a folder on the way to one. -/
theorem exists_key_of_shape (hne : top ≠ []) {shape : Shape}
    (hshape : d'.shape? (top ++ names) = some shape) :
    ∃ key ∈ s.files.keys ++ [normalize index], names <+: slashParts key ∧
      (names = slashParts key ∧ (∃ content, shape = .file content) ∨
        names ≠ slashParts key ∧ shape = .folder) := by
  have hnames := h.files_names hkeys
  rcases h.inside hne hshape with rfl | ⟨content, rfl, hmem⟩
  · obtain ⟨f, hf, hway⟩ := h.folder_way hne hshape
    obtain ⟨key, hkey, hkeyNames⟩ := List.mem_map.mp (hnames ▸ List.mem_map_of_mem hf)
    rw [← hkeyNames] at hway
    refine ⟨key, hkey, hway, .inr ⟨fun heq => ?_, rfl⟩⟩
    rw [heq, hkeyNames, h.file (h.nodup_names hkeys) hf] at hshape
    cases hshape
  · obtain ⟨key, hkey, rfl⟩ := List.mem_map.mp (hnames ▸ hmem)
    exact ⟨key, hkey, List.prefix_refl _, .inl ⟨rfl, content, rfl⟩⟩

/-- An output that was written is all that its folder holds. -/
theorem holdsOutput (hlocate : d'.locate p = .ok top) (hne : top ≠ []) :
    d'.HoldsOutput current p s index where
  files := h.filesBelow_perm hkeys hlocate hne
  modules key hkey := h.read_output hkeys hlocate (t := (key, s.renderModule current key))
    (List.mem_append_left _
      (List.mem_map_of_mem (f := fun key => (key, s.renderModule current key)) hkey))
  aggregator := by
    obtain ⟨hindex, hmodules⟩ := List.forall_mem_cons.mp hkeys
    obtain ⟨specs, hrender, hspecs, hquotable⟩ :=
      exists_renderAggregator current hindex hmodules
    obtain ⟨text, htext, hread⟩ := h.read_output hkeys hlocate
      (List.mem_append_right _ (List.mem_singleton_self _))
    rw [hrender] at htext
    cases htext
    exact ⟨specs, hread, hspecs, importsOf?_aggregatorText_iff,
      fun h => importsOf?_aggregatorText_iff.mpr (hquotable h)⟩
  nothingElse := ⟨top, hlocate, fun names shape _ hshape => h.exists_key_of_shape hkeys hne hshape⟩

end Located

end Emitted

namespace State

/-- After modules were written, the destination holds them, the aggregator and nothing else, and the
result lists them in order. The aggregator imports the modules when their keys can stand between
quotes. Nothing is written exactly when a module has the aggregator's name. The
output folder of a conversion is never the top and never has `..` in its path (`Job.output_ok`). -/
theorem writeModules_exact (d : Disk) (s : State) (current dest : Path) (index : String)
    (htidy : d.Tidy) (hne : dest.parts ≠ []) (hup : ".." ∉ dest.parts)
    (hkeys : ∀ key ∈ s.files.keys, IsKey key) (hindex : IsKey (normalize index)) :
    (∀ d' written, (DiskStep.on d (s.writeModules current dest index)).value = (d', .ok written) →
      d'.HoldsOutput current dest s index ∧
        written = (s.files.keys ++ [normalize index]).map (outputPath dest)) ∧
    ∀ d' i, (DiskStep.on d (s.writeModules current dest index)).value =
        (d', .error (.indexTaken i)) ↔
      normalize index ∈ s.files.keys ∧ d' = d ∧ i = index := by
  have hall : ∀ key ∈ normalize index :: s.files.keys, IsKey key :=
    List.forall_mem_cons.mpr ⟨hindex, hkeys⟩
  refine ⟨fun d' written h => ?_, fun d' i => ?_⟩
  · obtain ⟨hwritten, top, files, d₁, htop, hlocate, hemitted⟩ :=
      writeModules_emitted htidy hne hup hall h
    refine ⟨hemitted.holdsOutput hall hlocate htop, ?_⟩
    rw [hwritten, outputs]
    simp
  · constructor
    · intro h
      have hunchanged := writeModules_indexTaken h
      rw [value_on_writeModules] at h
      split at h
      · next htaken =>
        cases h
        exact ⟨(Table.contains_iff _ _).mp htaken, rfl, rfl⟩
      · have hraises := (clearing_raises dest).bind fun _ =>
          s.filling_raises current dest (normalize index)
        exact (hraises d d' _ h i rfl).elim
    · rintro ⟨htaken, rfl, rfl⟩
      rw [value_on_writeModules, if_pos ((Table.contains_iff _ _).mpr htaken)]

/-- A disk with an old output, to which a link leads. -/
def stale : Disk :=
  ⟨[("home", .link "data"), ("data", .folder [("out", .folder [("old.js", .file "old".toUTF8),
    ("lib", .folder [("b.js", .folder [])])])])]⟩

/-- The old output by the link. -/
def staleOut : Path := ⟨.root, ["home", "out"]⟩

/-- A module at the top and one in a folder, which reads what the first declares. -/
def layered : State :=
  { empty with
    files := .ofList [("a.js", "var x = 1;\n"), ("lib/b.js", "x;\n")]
    symbols := .ofList [("x", ⟨some "a.js", .empty, .ofList ["lib/b.js"]⟩)] }

theorem writeModules_exact_stale :
    (stale.Tidy ∧ staleOut.parts ≠ [] ∧ ".." ∉ staleOut.parts ∧
      (∀ key ∈ layered.files.keys, IsKey key ∧ Quotable key) ∧
      IsKey (normalize "lib\\index.js") ∧ IsKey (normalize "lib\\b.js")) ∧
    (∃ d' written,
      (DiskStep.on stale (layered.writeModules ⟨.root, []⟩ staleOut "lib\\index.js")).value =
        (d', .ok written) ∧ d'.HoldsOutput ⟨.root, []⟩ staleOut layered "lib\\index.js") ∧
    (DiskStep.on stale (layered.writeModules ⟨.root, []⟩ staleOut "lib\\b.js")).value =
      (stale, .error (.indexTaken "lib\\b.js")) := by
  have htidy : stale.Tidy := Disk.tidy_of_isTidy (by decide +kernel)
  have hne : staleOut.parts ≠ [] := by decide
  have hup : ".." ∉ staleOut.parts := by decide
  have hboth : ∀ key ∈ layered.files.keys, IsKey key ∧ Quotable key := by decide +kernel
  have hkeys : ∀ key ∈ layered.files.keys, IsKey key := fun key hkey => (hboth key hkey).1
  have hindex : IsKey (normalize "lib\\index.js") := by decide +kernel
  have htaken : IsKey (normalize "lib\\b.js") := by decide +kernel
  have hrun : DiskStep.yields stale (layered.writeModules ⟨.root, []⟩ staleOut "lib\\index.js")
      (fun _ => true) = true := by decide +kernel
  obtain ⟨written, hwritten, -⟩ := DiskStep.ok_of_yields hrun
  refine ⟨⟨htidy, hne, hup, hboth, hindex, htaken⟩, ⟨_, written, hwritten, ?_⟩, ?_⟩
  · exact ((writeModules_exact stale layered ⟨.root, []⟩ staleOut _ htidy hne hup hkeys
      hindex).1 _ _ hwritten).1
  · exact ((writeModules_exact stale layered ⟨.root, []⟩ staleOut _ htidy hne hup hkeys
      htaken).2 _ _).mpr ⟨by decide +kernel, rfl, rfl⟩

/-- A module whose name has a quote. -/
def apostrophe : State := { empty with files := .ofList [("it's.js", "var x = 1;\n")] }

/-- A module in a folder whose name ends one import statement and starts another. -/
def forged : State := { empty with files := .ofList [("a.js';\nimport './b.js", "var x = 1;\n")] }

/-- A key in normal form with a quote makes the aggregator a text that is no script, and one with
the end of a line makes it import other modules. -/
theorem aggregator_misread :
    let written (s : State) :=
      DiskStep.on ⟨[]⟩ (s.writeModules ⟨.root, []⟩ ⟨.root, ["out"]⟩ "index.js")
    let index : Path := ⟨.root, ["out", "index.js"]⟩
    (∀ key ∈ apostrophe.files.keys ++ forged.files.keys, IsKey key) ∧
    ((written apostrophe).value.2.toOption.isSome ∧
      (written apostrophe).value.1.read index = .ok (aggregatorText ["./it's.js"]).toUTF8 ∧
      importsOf? (aggregatorText ["./it's.js"]) = none ∧
      (Script.parse (aggregatorText ["./it's.js"]).toUTF8).toOption = none) ∧
    (written forged).value.2.toOption.isSome ∧
      (written forged).value.1.read index = .ok (aggregatorText ["./a.js", "./b.js"]).toUTF8 ∧
      importsOf? (aggregatorText ["./a.js", "./b.js"]) = some ["./a.js", "./b.js"] := by
  decide +kernel

end State

end ScriptModules
