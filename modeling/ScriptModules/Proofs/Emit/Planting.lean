import ScriptModules.Proofs.Convert.Stages
import ScriptModules.Proofs.Disk.Writing

/-!
# What writing modules does to a disk

A file that is written in folders made for it is `planted`: the disk has the file at its location,
folders on the way, and is the same elsewhere. `emitFile_ok` and `emitFile_of_plantable` say that
this is what happens, and when it can happen.

All files of an output lie below its folder. What a sequence of such files leaves there depends
only on what was there before (`plantedAll_placed`), and all the rest of the disk keeps its shape
but for folders on the way (`plantedAll_apart`, `plantedAll_way`). So an output can be written
again, in the same place or another (`PlantableAll.relocate`). `State.writeModules_ok` and
`State.writeModules_of_plantable` are the outcome for the modules of a state.
-/

namespace ScriptModules

variable {view view' : Location → Option Shape} {loc top top' target names : Location}
  {content : ByteArray} {files : List (Location × String)}

/-- A disk with a file at a location and folders on the way to it. -/
def planted (view : Location → Option Shape) (loc : Location) (content : ByteArray) :
    Location → Option Shape := fun target =>
  if target = loc then some (.file content)
  else if target <+: loc then some .folder
  else view target

/-- On the way to the location there are folders, and nothing after; only a file may be in its
place. -/
structure Plantable (view : Location → Option Shape) (loc : Location) : Prop where
  nonempty : loc ≠ []
  names : ∀ name ∈ loc, IsName name
  way : ∀ way, way <+: loc → way ≠ loc → view way = none ∨ view way = some .folder
  place : view loc = none ∨ ∃ content, view loc = some (.file content)

/-- Files planted one after the other. -/
def plantedAll : (Location → Option Shape) → List (Location × String) → Location → Option Shape
  | view, [] => view
  | view, f :: files => plantedAll (planted view f.1 f.2.toUTF8) files

/-- Files can be planted one after the other. -/
def PlantableAll : (Location → Option Shape) → List (Location × String) → Prop
  | _, [] => True
  | view, f :: files => Plantable view f.1 ∧ PlantableAll (planted view f.1 f.2.toUTF8) files

/-! ## Files below a folder -/

theorem planted_ne_link {t : String} (h : view target ≠ some (.link t)) :
    planted view loc content target ≠ some (.link t) := by
  unfold planted
  split
  · simp
  · split
    · simp
    · exact h

/-- Apart from the folder and the way to it nothing changes. -/
theorem plantedAll_apart (hfiles : ∀ f ∈ files, top <+: f.1) (hbelow : ¬ top <+: target)
    (habove : ¬ target <+: top) : plantedAll view files target = view target := by
  induction files generalizing view with
  | nil => rfl
  | cons f files ih =>
    have hf := hfiles f (List.mem_cons_self ..)
    rw [plantedAll, ih fun g hg => hfiles g (List.mem_cons_of_mem f hg), planted]
    have hne : target ≠ f.1 := fun heq => hbelow (heq ▸ hf)
    have hway : ¬ target <+: f.1 := fun hway =>
      (List.prefix_or_prefix_of_prefix hway hf).elim habove hbelow
    rw [if_neg hne, if_neg hway]

theorem planted_way (hway : target <+: loc) (hne : target ≠ loc) :
    planted view loc content target = some .folder := by
  rw [planted, if_neg hne, if_pos hway]

/-- A place that all files lie in is a folder. -/
theorem plantedAll_way (hfiles : ∀ f ∈ files, target <+: f.1 ∧ target ≠ f.1)
    (hnonempty : files ≠ []) : plantedAll view files target = some .folder := by
  have hkeep : ∀ (files : List (Location × String)) (view : Location → Option Shape),
      (∀ f ∈ files, target <+: f.1 ∧ target ≠ f.1) → view target = some .folder →
        plantedAll view files target = some .folder := by
    intro files
    induction files with
    | nil => exact fun _ _ h => h
    | cons f files ih =>
      intro view hfiles _
      obtain ⟨hf, hne⟩ := hfiles f (List.mem_cons_self ..)
      exact ih _ (fun g hg => hfiles g (List.mem_cons_of_mem f hg)) (planted_way hf hne)
  obtain ⟨f, files, rfl⟩ := List.exists_cons_of_ne_nil hnonempty
  obtain ⟨hf, hne⟩ := hfiles f (List.mem_cons_self ..)
  exact hkeep files _ (fun g hg => hfiles g (List.mem_cons_of_mem f hg)) (planted_way hf hne)

/-- What is at and below the folder afterwards was there, or is a folder or one of the files. -/
theorem plantedAll_cases {s : Shape} (h : plantedAll view files target = some s) :
    view target = some s ∨ s = .folder ∨
      ∃ content, s = .file content ∧ target ∈ files.map Prod.fst := by
  induction files generalizing view with
  | nil => exact .inl h
  | cons f files ih =>
    rcases ih h with h | h | ⟨content, hs, hmem⟩
    · unfold planted at h
      split at h
      · next heq => exact .inr (.inr ⟨f.2.toUTF8, (Option.some.inj h).symm, by simp [heq]⟩)
      · split at h
        · exact .inr (.inl (Option.some.inj h).symm)
        · exact .inl h
    · exact .inr (.inl h)
    · exact .inr (.inr ⟨content, hs, List.mem_cons_of_mem _ hmem⟩)

/-- Files by their names below a folder, in their places. -/
def placed (top : Location) (files : List (Location × String)) : List (Location × String) :=
  files.map fun f => (top ++ f.1, f.2)

theorem planted_placed (h : view (top ++ target) = view' (top' ++ target)) :
    planted view (top ++ names) content (top ++ target) =
      planted view' (top' ++ names) content (top' ++ target) := by
  unfold planted
  simp only [List.append_cancel_left_eq, List.prefix_append_right_inj, h]

/-- What files leave below a folder depends on what was there, and not on where the folder is. -/
theorem plantedAll_placed (h : ∀ target, view (top ++ target) = view' (top' ++ target))
    (target : Location) :
    plantedAll view (placed top files) (top ++ target) =
      plantedAll view' (placed top' files) (top' ++ target) := by
  induction files generalizing view view' with
  | nil => exact h target
  | cons f files ih => exact ih fun target => planted_placed (h target)

theorem Plantable.relocate (h : Plantable view (top ++ names)) (hnames : names ≠ [])
    (hview : ∀ target, view (top ++ target) = view' (top' ++ target))
    (htop : ∀ name ∈ top', IsName name)
    (habove : ∀ way, way <+: top' → way ≠ top' → view' way = none ∨ view' way = some .folder) :
    Plantable view' (top' ++ names) where
  nonempty := by simp [hnames]
  names := by
    intro name hname
    rcases List.mem_append.mp hname with hname | hname
    · exact htop name hname
    · exact h.names name (List.mem_append_right top hname)
  way := by
    intro way hway hne
    -- A place on the way lies above the folder, or at or below it.
    by_cases hproper : way <+: top' ∧ way ≠ top'
    · exact habove way hproper.1 hproper.2
    · obtain ⟨more, rfl⟩ : top' <+: way := by
        rcases List.prefix_or_prefix_of_prefix hway (List.prefix_append top' names) with hup | hdown
        · exact not_not.mp fun hnot => hproper ⟨hup, fun heq => hnot (heq ▸ List.prefix_refl _)⟩
        · exact hdown
      have hmore : more <+: names := (List.prefix_append_right_inj top').mp hway
      rw [← hview]
      exact h.way (top ++ more) ((List.prefix_append_right_inj top).mpr hmore) fun heq =>
        hne (by rw [List.append_cancel_left heq])
  place := by
    rw [← hview]
    exact h.place

/-- Files that can be planted below a folder can be planted below another one that holds the same,
if there are no more than folders on the way to it. -/
theorem PlantableAll.relocate (h : PlantableAll view (placed top files))
    (hfiles : ∀ f ∈ files, f.1 ≠ [])
    (hview : ∀ target, view (top ++ target) = view' (top' ++ target))
    (htop : ∀ name ∈ top', IsName name)
    (habove : ∀ way, way <+: top' → way ≠ top' → view' way = none ∨ view' way = some .folder) :
    PlantableAll view' (placed top' files) := by
  induction files generalizing view view' with
  | nil => trivial
  | cons f files ih =>
    obtain ⟨hf, hrest⟩ := h
    refine ⟨hf.relocate (hfiles f (List.mem_cons_self ..)) hview htop habove, ?_⟩
    refine ih hrest (fun g hg => hfiles g (List.mem_cons_of_mem f hg))
      (fun target => planted_placed (hview target)) fun way hway hne => ?_
    unfold planted
    split
    · exact absurd (hway.eq_of_length_le (by simp_all)) hne
    · split
      · exact .inr rfl
      · exact habove way hway hne

/-! ## Writing a file -/

theorem Plantable.straight {d : Disk} (h : Plantable d.shape? loc) : d.Straight loc := by
  refine ⟨fun hup => (h.names ".." hup).1 rfl, fun way t hway hlink => ?_⟩
  by_cases heq : way = loc
  · subst heq
    rcases h.place with hnone | ⟨content, hfile⟩ <;> simp_all
  · rcases h.way way hway heq with hnone | hfolder <;> simp_all

/-- The disk after a file was written in folders that were made for it. -/
theorem shape?_opened_put {d d₁ : Disk} (hopened : d.Opened d₁ loc.dropLast) (hfree : d₁.Free loc) :
    (d₁.put loc (.file content)).shape? = planted d.shape? loc content := by
  funext target
  rw [Disk.shape?_put_file hfree, hopened.shape, planted]
  by_cases heq : target = loc
  · simp [heq]
  · have hiff : target <+: loc.dropLast ↔ target <+: loc :=
      ⟨fun h => h.trans (List.dropLast_prefix loc), fun h => way_dropLast h heq⟩
    simp [heq, hiff]

theorem emitFile_ok {d d' : Disk} {p : Path} {text : Except RenderFault String}
    (hstraight : d.Straight p.parts)
    (h : (DiskStep.on d (emitFile p text)).value = (d', .ok ())) :
    ∃ s, text = .ok s ∧ Plantable d.shape? p.parts ∧ d'.shape? = planted d.shape? p.parts s.toUTF8 ∧
      (d.Tidy → d'.Tidy) := by
  obtain ⟨d₁, _, hfolders, h⟩ := DiskStep.ok_of_bind h
  obtain ⟨d₂, s, htext, h⟩ := DiskStep.ok_of_bind h
  obtain ⟨rfl, rfl⟩ := DiskStep.ok_of_ofExcept htext
  have hopened : d.Opened d₂ p.parts.dropLast := Disk.makeFolders_ok
    (hstraight.on_way (List.dropLast_prefix p.parts)) (DiskStep.ok_of_makeFolders hfolders)
  have hwrite : d₂.write ⟨p.anchor, p.parts⟩ s.toUTF8 = .ok d' := DiskStep.ok_of_change h
  have hstraight₂ := hopened.straight hstraight
  have hfree : d₂.Free p.parts := Disk.write_free hstraight₂ hwrite
  have hlink := fun t => hstraight₂.2 _ t (List.prefix_refl p.parts)
  rw [Disk.write_eq hfree hlink] at hwrite
  cases hwrite
  refine ⟨s, rfl, ⟨hfree.nonempty, hfree.names, fun way hway hne => ?_, ?_⟩,
    shape?_opened_put hopened hfree, fun htidy => ?_⟩
  · exact hopened.clear way (way_dropLast hway hne)
  · -- The place itself is not on the way, so it was as it is before the file is written.
    have hshape : d₂.shape? p.parts = d.shape? p.parts := by
      rw [hopened.shape, if_neg (not_way_dropLast hfree.nonempty)]
    cases hs : d.shape? p.parts with
    | none => exact .inl rfl
    | some s =>
      cases s with
      | file content => exact .inr ⟨content, rfl⟩
      | link t => exact absurd (hshape.trans hs) (hlink t)
      | folder => exact absurd (hshape.trans hs) hfree.notFolder
  · refine (hopened.tidy htidy).put (fun name hname => ?_) (by simp)
    exact hfree.names name (List.mem_of_getLast? hname)

theorem emitFile_of_plantable {d : Disk} {p : Path} (h : Plantable d.shape? p.parts) (s : String) :
    ∃ d', (DiskStep.on d (emitFile p (.ok s))).value = (d', .ok ()) := by
  have hparent : p.parent.parts = p.parts.dropLast := rfl
  have hclear : d.Clear p.parent.parts := by
    rw [hparent]
    intro way hway
    have hne : way ≠ p.parts := fun heq => not_way_dropLast h.nonempty (heq ▸ hway)
    exact h.way way (hway.trans (List.dropLast_prefix p.parts)) hne
  have hnames : ∀ name ∈ p.parent.parts, IsName name :=
    fun name hname => h.names name (List.dropLast_subset p.parts hname)
  obtain ⟨d₁, hfolders⟩ := Disk.makeFolders_of_clear hnames hclear
  have hopened : d.Opened d₁ p.parts.dropLast := Disk.makeFolders_ok
    (h.straight.on_way (List.dropLast_prefix p.parts)) hfolders
  have hshape : d₁.shape? p.parts = d.shape? p.parts := by
    rw [hopened.shape, if_neg (not_way_dropLast h.nonempty)]
  have hfree : d₁.Free p.parts := by
    refine ⟨h.nonempty, h.names, by rw [hopened.shape, if_pos (List.prefix_refl _)], ?_⟩
    rw [hshape]
    rcases h.place with hnone | ⟨content, hfile⟩ <;> simp_all
  have hlink : ∀ t, d₁.shape? p.parts ≠ some (.link t) := by
    intro t
    rw [hshape]
    exact h.straight.2 p.parts t (List.prefix_refl p.parts)
  have hwrite : d₁.write p s.toUTF8 = .ok _ := Disk.write_eq hfree hlink
  refine ⟨d₁.put p.parts (.file s.toUTF8), ?_⟩
  unfold emitFile
  rw [DiskStep.value_on_bind_of_ok (DiskStep.value_on_makeFolders_of_ok hfolders),
    DiskStep.value_on_bind_of_ok (DiskStep.value_on_ofExcept d₁ _ _), DiskStep.value_on_change,
    hwrite]

/-! ## Writing all files -/

/-- The key does not lead out of a folder that it is looked for in. -/
structure Inward (key : String) : Prop where
  relative : (Path.ofString key).isAbsolute = false
  noUp : ".." ∉ (Path.ofString key).parts

instance (key : String) : Decidable (Inward key) :=
  decidable_of_iff ((Path.ofString key).isAbsolute = false ∧ ".." ∉ (Path.ofString key).parts)
    ⟨fun h => ⟨h.1, h.2⟩, fun h => ⟨h.relative, h.noUp⟩⟩

variable {d d' : Disk} {dest : Path} {texts : List (String × Except RenderFault String)}

theorem Inward.outputPath_eq {key : String} (h : Inward key) (dest : Path) :
    outputPath dest key = Disk.under dest (Path.ofString key).parts := by
  simp [outputPath, Path.join, h.relative, Disk.under]

/-- Writes files one after the other. -/
def emitAll (dest : Path) : List (String × Except RenderFault String) → DiskStep EmitFault Unit
  | [] => pure ()
  | t :: texts => do
    emitFile (outputPath dest t.1) t.2
    emitAll dest texts

/-- The texts are there, each with the names of its key. -/
def Rendered (texts : List (String × Except RenderFault String))
    (files : List (Location × String)) : Prop :=
  texts.map (fun t => ((Path.ofString t.1).parts, t.2)) = files.map fun f => (f.1, .ok f.2)

theorem Rendered.exists_mem (h : Rendered texts files) {f : Location × String} (hf : f ∈ files) :
    ∃ t ∈ texts, (Path.ofString t.1).parts = f.1 := by
  have hmem : (f.1, .ok f.2) ∈ texts.map fun t => ((Path.ofString t.1).parts, t.2) :=
    h ▸ List.mem_map_of_mem hf
  obtain ⟨t, ht, heq⟩ := List.mem_map.mp hmem
  exact ⟨t, ht, (Prod.mk.inj heq).1⟩

theorem emitAll_ok (hinward : ∀ t ∈ texts, Inward t.1)
    (hstraight : ∀ t ∈ texts, d.Straight (dest.parts ++ (Path.ofString t.1).parts))
    (h : (DiskStep.on d (emitAll dest texts)).value = (d', .ok ())) :
    ∃ files, Rendered texts files ∧ PlantableAll d.shape? (placed dest.parts files) ∧
      d'.shape? = plantedAll d.shape? (placed dest.parts files) ∧ (d.Tidy → d'.Tidy) := by
  induction texts generalizing d with
  | nil =>
    cases h
    exact ⟨[], rfl, trivial, rfl, id⟩
  | cons t texts ih =>
    obtain ⟨d₁, _, hfile, h⟩ := DiskStep.ok_of_bind h
    rw [(hinward t (List.mem_cons_self ..)).outputPath_eq] at hfile
    obtain ⟨s, htext, hplantable, hshape, htidy⟩ :=
      emitFile_ok (hstraight t (List.mem_cons_self ..)) hfile
    have hstraight₁ : ∀ t ∈ texts, d₁.Straight (dest.parts ++ (Path.ofString t.1).parts) := by
      intro t' ht'
      obtain ⟨hup, hlinks⟩ := hstraight t' (List.mem_cons_of_mem t ht')
      exact ⟨hup, fun way target hway => hshape ▸ planted_ne_link (hlinks way target hway)⟩
    obtain ⟨files, hrendered, hall, hshape', htidy'⟩ :=
      ih (fun t' ht' => hinward t' (List.mem_cons_of_mem t ht')) hstraight₁ h
    refine ⟨((Path.ofString t.1).parts, s) :: files, ?_, ⟨hplantable, hshape ▸ hall⟩, ?_,
      htidy' ∘ htidy⟩
    · rw [Rendered, List.map_cons, List.map_cons, htext, hrendered]
    · rw [hshape', hshape]
      rfl

theorem emitAll_of_plantable (hinward : ∀ t ∈ texts, Inward t.1) (hrendered : Rendered texts files)
    (h : PlantableAll d.shape? (placed dest.parts files)) :
    ∃ d', (DiskStep.on d (emitAll dest texts)).value = (d', .ok ()) := by
  induction texts generalizing d files with
  | nil => exact ⟨d, rfl⟩
  | cons t texts ih =>
    cases files with
    | nil => cases hrendered
    | cons f files =>
      obtain ⟨hhead, hrest⟩ := List.cons.inj hrendered
      obtain ⟨hparts, htext⟩ := Prod.mk.inj hhead
      have hplantable : Plantable d.shape? (dest.parts ++ f.1) := h.1
      have hall : PlantableAll (planted d.shape? (dest.parts ++ f.1) f.2.toUTF8)
        (placed dest.parts files) := h.2
      have hpath := (hinward t (List.mem_cons_self ..)).outputPath_eq dest
      rw [← hparts] at hplantable hall
      obtain ⟨d₁, hfile⟩ :=
        emitFile_of_plantable (p := Disk.under dest (Path.ofString t.1).parts) hplantable f.2
      obtain ⟨s, hs, -, hshape, -⟩ := emitFile_ok hplantable.straight hfile
      cases hs
      obtain ⟨d₂, hlast⟩ :=
        ih (fun t' ht' => hinward t' (List.mem_cons_of_mem t ht')) hrest (d := d₁) (hshape ▸ hall)
      refine ⟨d₂, ?_⟩
      rw [emitAll, hpath, htext, DiskStep.value_on_bind_of_ok hfile, hlast]

theorem value_on_emitAll_append (d : Disk) (dest : Path)
    (texts more : List (String × Except RenderFault String)) :
    (DiskStep.on d (emitAll dest (texts ++ more))).value =
      (DiskStep.on d (emitAll dest texts >>= fun _ => emitAll dest more)).value := by
  induction texts generalizing d with
  | nil => simp [emitAll]
  | cons t texts ih =>
    simp only [List.cons_append, emitAll, bind_assoc]
    exact DiskStep.value_on_bind_congr rfl fun d _ => ih d

namespace State

/-- The texts of the modules and of the aggregator, by key. -/
def outputs (s : State) (current : Path) (indexKey : String) :
    List (String × Except RenderFault String) :=
  s.files.keys.map (fun key => (key, s.renderModule current key)) ++
    [(indexKey, renderAggregator current s.files.keys indexKey)]

theorem value_on_mapM_writeModule (s : State) (current dest : Path) (keys : List String)
    (d : Disk) :
    (DiskStep.on d (keys.mapM (s.writeModule current dest))).value =
      (DiskStep.on d (do
        emitAll dest (keys.map fun key => (key, s.renderModule current key))
        return keys.map (outputPath dest))).value := by
  induction keys generalizing d with
  | nil => simp [emitAll]
  | cons key keys ih =>
    simp only [List.mapM_cons, writeModule, List.map_cons, emitAll, bind_assoc, pure_bind]
    refine DiskStep.value_on_bind_congr rfl fun d₁ _ => ?_
    rw [DiskStep.value_on_bind_of_ok (DiskStep.value_on_notify d₁ _)]
    refine (DiskStep.value_on_bind_congr (ih d₁) fun _ _ => rfl).trans ?_
    simp only [bind_assoc, pure_bind]

/-- Writing the modules is writing their texts. -/
theorem value_on_filling (s : State) (current dest : Path) (indexKey : String) (d : Disk) :
    (DiskStep.on d (s.filling current dest indexKey)).value =
      (DiskStep.on d (do
        emitAll dest (s.outputs current indexKey)
        return (s.outputs current indexKey).map fun t => outputPath dest t.1)).value := by
  unfold filling outputs
  refine (DiskStep.value_on_bind_congr (value_on_mapM_writeModule s current dest s.files.keys d)
    fun _ _ => rfl).trans ?_
  simp only [bind_assoc, pure_bind]
  refine Eq.trans ?_ (DiskStep.value_on_bind_congr (value_on_emitAll_append d dest _ _)
    fun _ _ => rfl).symm
  simp only [emitAll, bind_assoc, pure_bind]
  refine DiskStep.value_on_bind_congr rfl fun d₁ _ => ?_
  refine DiskStep.value_on_bind_congr rfl fun d₂ _ => ?_
  rw [DiskStep.value_on_bind_of_ok (DiskStep.value_on_notify d₂ _)]
  simp [Function.comp_def]

end State

/-! ## The whole output -/

/-- On a tidy disk a straight path means something when something is there. -/
theorem Disk.Straight.exists?_iff (hstraight : d.Straight dest.parts) (htidy : d.Tidy) :
    d.exists? dest = true ↔ d.shape? dest.parts ≠ none := by
  rw [Disk.exists?_iff]
  constructor
  · rintro ⟨out, hlocate⟩
    exact (hstraight.locate hlocate).2.2.1
  · intro hthere
    have hplace : d.IsPlace dest.parts :=
      ⟨htidy.isName hthere, hthere, fun t => hstraight.2 _ t (List.prefix_refl _)⟩
    exact ⟨dest.parts, hplace.locate⟩

theorem Disk.remove_absent (hne : loc ≠ []) (habsent : d.shape? loc = none) :
    (d.remove loc).shape? = d.shape? := by
  funext target
  rw [Disk.shape?_remove hne]
  split
  · next hbelow =>
    obtain ⟨rest, rfl⟩ := hbelow
    by_cases hrest : rest = []
    · rw [hrest, List.append_nil, habsent]
    · exact (Disk.shape?_append_of_ne_folder hrest (by simp [habsent])).symm
  · rfl

theorem clearing_ok (htidy : d.Tidy) (hstraight : d.Straight dest.parts) (hne : dest.parts ≠ [])
    (h : (DiskStep.on d (clearing dest)).value = (d', .ok ())) :
    (d.shape? dest.parts = none ∨ d.shape? dest.parts = some .folder) ∧
      d'.shape? = (d.remove dest.parts).shape? ∧ d'.Tidy := by
  unfold clearing at h
  rw [DiskStep.value_on_bind_of_ok (DiskStep.value_on_get d)] at h
  by_cases hexists : d.exists? dest = true
  · rw [if_pos hexists] at h
    have hremove : d.removeTree ⟨dest.anchor, dest.parts⟩ = .ok d' := DiskStep.ok_of_change h
    have hthere := (hstraight.exists?_iff htidy).mp hexists
    have hnames := htidy.isName hthere
    cases hs : d.shape? dest.parts with
    | none => exact absurd hs hthere
    | some s =>
      cases s with
      | file content =>
        rw [Disk.removeTree_file hnames hs] at hremove
        cases hremove
      | link t => exact absurd hs (hstraight.2 _ t (List.prefix_refl _))
      | folder =>
        rw [Disk.removeTree_folder hnames hs] at hremove
        cases hremove
        exact ⟨.inr rfl, rfl, htidy.remove dest.parts⟩
  · rw [if_neg hexists] at h
    cases h
    have habsent : d.shape? dest.parts = none :=
      not_not.mp fun hthere => hexists ((hstraight.exists?_iff htidy).mpr hthere)
    exact ⟨.inl habsent, (Disk.remove_absent hne habsent).symm, htidy⟩

theorem clearing_of_clear (htidy : d.Tidy) (hstraight : d.Straight dest.parts)
    (hclear : d.shape? dest.parts = none ∨ d.shape? dest.parts = some .folder) :
    ∃ d', (DiskStep.on d (clearing dest)).value = (d', .ok ()) := by
  unfold clearing
  rw [DiskStep.value_on_bind_of_ok (DiskStep.value_on_get d)]
  by_cases hexists : d.exists? dest = true
  · have hthere := (hstraight.exists?_iff htidy).mp hexists
    have hfolder := hclear.resolve_left hthere
    have hremove : d.removeTree dest = .ok (d.remove dest.parts) :=
      Disk.removeTree_folder (htidy.isName hthere) hfolder
    refine ⟨d.remove dest.parts, ?_⟩
    rw [if_pos hexists, DiskStep.value_on_change, hremove]
  · exact ⟨d, by rw [if_neg hexists]; rfl⟩

/-- Below a folder that was removed all paths are straight. -/
theorem Disk.Straight.below_removed (hstraight : d.Straight loc) (hne : loc ≠ [])
    (hd' : d'.shape? = (d.remove loc).shape?) (hup : ".." ∉ names) :
    d'.Straight (loc ++ names) := by
  refine ⟨by simpa using ⟨hstraight.1, hup⟩, fun way t hway => ?_⟩
  rw [hd', Disk.shape?_remove hne]
  split
  · simp
  · next hnot =>
    rcases List.prefix_or_prefix_of_prefix hway (List.prefix_append loc names) with habove | hbelow
    · exact hstraight.2 way t habove
    · exact absurd hbelow hnot

/-- An output that was written: the files that are now in its place, and nothing else. -/
structure Emitted (s : State) (current dest : Path) (index : String)
    (files : List (Location × String)) (d d' : Disk) : Prop where
  rendered : Rendered (s.outputs current (normalize index)) files
  free : ¬ s.files.contains (normalize index) = true
  nonempty : files ≠ []
  clear : d.shape? dest.parts = none ∨ d.shape? dest.parts = some .folder
  plantable : PlantableAll (d.remove dest.parts).shape? (placed dest.parts files)
  shape : d'.shape? = plantedAll (d.remove dest.parts).shape? (placed dest.parts files)
  tidy : d'.Tidy

theorem placed_below : ∀ f ∈ placed top files, top <+: f.1 := by
  intro f hf
  obtain ⟨g, -, rfl⟩ := List.mem_map.mp hf
  exact List.prefix_append top g.1

namespace Emitted

variable {s : State} {current : Path} {index : String}

theorem placed_ne_nil (h : Emitted s current dest index files d d') :
    placed dest.parts files ≠ [] := by
  simpa [placed] using h.nonempty

/-- On the way to the output folder there were folders, and nothing after. -/
theorem way (h : Emitted s current dest index files d d') (hne : dest.parts ≠ []) {way : Location}
    (hway : way <+: dest.parts) (hproper : way ≠ dest.parts) :
    d.shape? way = none ∨ d.shape? way = some .folder := by
  have hplantable := h.plantable
  obtain ⟨f, files, rfl⟩ := List.exists_cons_of_ne_nil h.nonempty
  have hnot : ¬ dest.parts <+: way := fun hbelow => hproper (hway.eq_of_length_le hbelow.length_le)
  have hfirst := hplantable.1.way way (hway.trans (List.prefix_append _ _)) fun heq =>
    hnot (heq ▸ List.prefix_append _ _)
  rwa [Disk.shape?_remove hne, if_neg hnot] at hfirst

/-- The names on the way to the output folder are proper. -/
theorem isName (h : Emitted s current dest index files d d') :
    ∀ name ∈ dest.parts, IsName name := by
  have hplantable := h.plantable
  obtain ⟨f, files, rfl⟩ := List.exists_cons_of_ne_nil h.nonempty
  exact fun name hname => hplantable.1.names name (List.mem_append_left _ hname)

/-- What was on the disk apart from the output folder is still there. -/
theorem extends_removed (h : Emitted s current dest index files d d') (hne : dest.parts ≠ []) :
    (d.remove dest.parts).Extends d' := by
  intro loc shape hshape
  have hnot : ¬ dest.parts <+: loc := fun hbelow => by
    rw [Disk.shape?_remove hne, if_pos hbelow] at hshape
    cases hshape
  rw [Disk.shape?_remove hne, if_neg hnot] at hshape
  rw [h.shape]
  by_cases habove : loc <+: dest.parts
  · have hway : ∀ f ∈ placed dest.parts files, loc <+: f.1 ∧ loc ≠ f.1 := fun f hf =>
      ⟨habove.trans (placed_below f hf), fun heq => hnot (heq ▸ placed_below f hf)⟩
    rw [plantedAll_way hway h.placed_ne_nil]
    have hproper : loc ≠ dest.parts := fun heq => hnot (heq ▸ List.prefix_refl _)
    rcases h.way hne habove hproper with hnone | hfolder
    · rw [hshape] at hnone
      cases hnone
    · rw [← hfolder, hshape]
  · rw [plantedAll_apart placed_below hnot habove, Disk.shape?_remove hne,
      if_neg hnot, hshape]

end Emitted

namespace State

variable {s : State} {current : Path} {index : String}

theorem mem_outputs {key : String} {text : Except RenderFault String} {indexKey : String}
    (h : (key, text) ∈ s.outputs current indexKey) : key ∈ indexKey :: s.files.keys := by
  rcases List.mem_append.mp h with h | h
  · obtain ⟨k, hk, heq⟩ := List.mem_map.mp h
    exact List.mem_cons_of_mem _ ((Prod.mk.inj heq).1 ▸ hk)
  · obtain ⟨rfl, -⟩ := Prod.mk.inj (List.mem_singleton.mp h)
    exact List.mem_cons_self ..

theorem writeModules_ok {written : List Path} (htidy : d.Tidy) (hstraight : d.Straight dest.parts)
    (hne : dest.parts ≠ []) (hinward : ∀ key ∈ normalize index :: s.files.keys, Inward key)
    (h : (DiskStep.on d (s.writeModules current dest index)).value = (d', .ok written)) :
    written = (s.outputs current (normalize index)).map (fun t => outputPath dest t.1) ∧
      ∃ files, Emitted s current dest index files d d' := by
  rw [value_on_writeModules] at h
  split at h
  · cases h
  · next hfree =>
    obtain ⟨d₁, _, hclearing, h⟩ := DiskStep.ok_of_bind h
    rw [value_on_filling] at h
    obtain ⟨d₂, _, hall, h⟩ := DiskStep.ok_of_bind h
    obtain ⟨rfl, hwritten⟩ := Prod.mk.inj h
    obtain ⟨hclear, hshape, htidy₁⟩ := clearing_ok htidy hstraight hne hclearing
    have hinward : ∀ t ∈ s.outputs current (normalize index), Inward t.1 :=
      fun t ht => hinward t.1 (mem_outputs ht)
    obtain ⟨files, hrendered, hplantable, hshape', htidy₂⟩ := emitAll_ok hinward
      (fun t ht => hstraight.below_removed hne hshape (hinward t ht).noUp) hall
    rw [hshape] at hplantable hshape'
    refine ⟨(Except.ok.inj hwritten).symm, files, hrendered, hfree, ?_, hclear, hplantable, hshape',
      htidy₂ htidy₁⟩
    rintro rfl
    simp [Rendered, outputs] at hrendered

theorem writeModules_of_plantable (htidy : d.Tidy) (hstraight : d.Straight dest.parts)
    (hne : dest.parts ≠ []) (hinward : ∀ key ∈ normalize index :: s.files.keys, Inward key)
    (hclear : d.shape? dest.parts = none ∨ d.shape? dest.parts = some .folder)
    (hfree : ¬ s.files.contains (normalize index) = true)
    (hrendered : Rendered (s.outputs current (normalize index)) files)
    (hplantable : PlantableAll (d.remove dest.parts).shape? (placed dest.parts files)) :
    ∃ d', (DiskStep.on d (s.writeModules current dest index)).value =
      (d', .ok ((s.outputs current (normalize index)).map fun t => outputPath dest t.1)) := by
  obtain ⟨d₁, hclearing⟩ := clearing_of_clear htidy hstraight hclear
  obtain ⟨-, hshape, -⟩ := clearing_ok htidy hstraight hne hclearing
  obtain ⟨d₂, hall⟩ := emitAll_of_plantable (fun t ht => hinward t.1 (mem_outputs ht)) hrendered
    (hshape ▸ hplantable)
  refine ⟨d₂, ?_⟩
  rw [value_on_writeModules, if_neg hfree, DiskStep.value_on_bind_of_ok hclearing,
    value_on_filling, DiskStep.value_on_bind_of_ok hall]
  rfl

end State

end ScriptModules
