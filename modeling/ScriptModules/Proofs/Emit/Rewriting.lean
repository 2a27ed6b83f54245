import ScriptModules.Proofs.Emit.Planting
import ScriptModules.Proofs.Input.Growth

/-!
# Writing an output again

An output that was written once can be written wherever the way is clear (`Emitted.again`): in the
same folder, where it then leaves what it left before (`Emitted.shape_again`), or in another folder,
which then holds the same (`Emitted.inside_eq`). Beside its files an output adds nothing but folders
on the way, so it is growth that a search with the output folder skipped does not see
(`Emitted.grownIn`).
-/

namespace ScriptModules

theorem Rendered.unique {texts : List (String × Except RenderFault String)}
    {files files' : List (Location × String)} (h : Rendered texts files)
    (h' : Rendered texts files') : files = files' := by
  have hinj : Function.Injective
      fun f : Location × String => (f.1, (Except.ok f.2 : Except RenderFault String)) := by
    rintro ⟨a, s⟩ ⟨b, t⟩ heq
    simpa using heq
  exact List.map_injective_iff.mpr hinj (h.symm.trans h')

namespace Emitted

variable {s : State} {current dest dest' : Path} {index : String} {files : List (Location × String)}
  {d d₁ d₂ e e' : Disk} {loc names : Location}

theorem named (h : Emitted s current dest index files d d₁)
    (hkeys : ∀ key ∈ normalize index :: s.files.keys, (Path.ofString key).parts ≠ []) :
    ∀ f ∈ files, f.1 ≠ [] := by
  intro f hf
  obtain ⟨⟨key, text⟩, ht, hparts⟩ := h.rendered.exists_mem hf
  exact hparts ▸ hkeys key (State.mem_outputs ht)

/-- The output folder and those that it lies in are there afterwards. -/
theorem folder (h : Emitted s current dest index files d d₁) (hnamed : ∀ f ∈ files, f.1 ≠ [])
    (hway : loc <+: dest.parts) : d₁.shape? loc = some .folder := by
  rw [h.shape]
  refine plantedAll_way (fun f hf => ?_) h.placed_ne_nil
  obtain ⟨g, hg, rfl⟩ := List.mem_map.mp hf
  refine ⟨hway.trans (List.prefix_append _ _), fun heq => hnamed g hg ?_⟩
  have hlength := hway.length_le
  simp only [heq, List.length_append] at hlength
  exact List.eq_nil_of_length_eq_zero (by omega)

theorem apart (h : Emitted s current dest index files d d₁) (hne : dest.parts ≠ [])
    (hbelow : ¬ dest.parts <+: loc) (habove : ¬ loc <+: dest.parts) :
    d₁.shape? loc = d.shape? loc := by
  rw [h.shape, plantedAll_apart placed_below hbelow habove, Disk.shape?_remove hne, if_neg hbelow]

/-- What is in the output folder afterwards does not depend on the disk or the folder. -/
theorem inside_eq (h : Emitted s current dest index files d d₁)
    (h' : Emitted s current dest' index files e e')
    (hne : dest.parts ≠ []) (hne' : dest'.parts ≠ []) (names : Location) :
    d₁.shape? (dest.parts ++ names) = e'.shape? (dest'.parts ++ names) := by
  rw [h.shape, h'.shape]
  refine plantedAll_placed (fun target => ?_) names
  rw [Disk.shape?_remove hne, Disk.shape?_remove hne', if_pos (List.prefix_append _ _),
    if_pos (List.prefix_append _ _)]

/-- In the output folder there are folders, and the files. -/
theorem inside (h : Emitted s current dest index files d d₁) (hne : dest.parts ≠ []) {shape : Shape}
    (hshape : d₁.shape? (dest.parts ++ names) = some shape) :
    shape = .folder ∨ ∃ content, shape = .file content ∧ names ∈ files.map Prod.fst := by
  rw [h.shape] at hshape
  rcases plantedAll_cases hshape with hbefore | hfolder | ⟨content, rfl, hmem⟩
  · rw [Disk.shape?_remove hne, if_pos (List.prefix_append _ _)] at hbefore
    cases hbefore
  · exact .inl hfolder
  · obtain ⟨_, hf, heq⟩ := List.mem_map.mp hmem
    obtain ⟨g, hg, rfl⟩ := List.mem_map.mp hf
    exact .inr ⟨content, rfl, List.append_cancel_left heq ▸ List.mem_map_of_mem hg⟩

/-- An output that was written can be written where the way is clear. -/
theorem again (h : Emitted s current dest index files d d₁) (hne : dest.parts ≠ [])
    (hinward : ∀ key ∈ normalize index :: s.files.keys, Inward key)
    (hnamed : ∀ f ∈ files, f.1 ≠ []) (htidy : e.Tidy) (hne' : dest'.parts ≠ [])
    (hnames : ∀ name ∈ dest'.parts, IsName name) (hclear : e.Clear dest'.parts) :
    ∃ e', (DiskStep.on e (s.writeModules current dest' index)).value =
        (e', .ok ((s.outputs current (normalize index)).map fun t => outputPath dest' t.1)) ∧
      Emitted s current dest' index files e e' := by
  have hstraight : e.Straight dest'.parts := hclear.straight fun hup => (hnames ".." hup).1 rfl
  have hview : ∀ target, (d.remove dest.parts).shape? (dest.parts ++ target) =
      (e.remove dest'.parts).shape? (dest'.parts ++ target) := by
    intro target
    rw [Disk.shape?_remove hne, Disk.shape?_remove hne', if_pos (List.prefix_append _ _),
      if_pos (List.prefix_append _ _)]
  have habove : ∀ way, way <+: dest'.parts → way ≠ dest'.parts →
      (e.remove dest'.parts).shape? way = none ∨
        (e.remove dest'.parts).shape? way = some .folder := by
    intro way hway hproper
    have hnot : ¬ dest'.parts <+: way := fun hbelow =>
      hproper (hway.eq_of_length_le hbelow.length_le)
    rw [Disk.shape?_remove hne', if_neg hnot]
    exact hclear way hway
  have hplantable := h.plantable.relocate hnamed hview hnames habove
  obtain ⟨e', hwritten⟩ := State.writeModules_of_plantable htidy hstraight hne' hinward
    (hclear _ (List.prefix_refl _)) h.free h.rendered hplantable
  obtain ⟨-, files', hemitted⟩ := State.writeModules_ok htidy hstraight hne' hinward hwritten
  rw [← h.rendered.unique hemitted.rendered] at hemitted
  exact ⟨e', hwritten, hemitted⟩

/-- Written again into the same folder, an output leaves what it left before. -/
theorem shape_again (h : Emitted s current dest index files d d₁)
    (h' : Emitted s current dest index files d₁ d₂)
    (hne : dest.parts ≠ []) (hnamed : ∀ f ∈ files, f.1 ≠ []) : d₂.shape? = d₁.shape? := by
  funext loc
  by_cases hbelow : dest.parts <+: loc
  · obtain ⟨names, rfl⟩ := hbelow
    exact h'.inside_eq h hne hne names
  · by_cases habove : loc <+: dest.parts
    · rw [h'.folder hnamed habove, h.folder hnamed habove]
    · exact h'.apart hne hbelow habove

theorem sameLinks (h : Emitted s current dest index files d d₁) (hne : dest.parts ≠ [])
    (hnamed : ∀ f ∈ files, f.1 ≠ []) : (d.remove dest.parts).SameLinks d₁ := by
  refine fun loc target => ⟨h.extends_removed hne loc _, fun hlink => ?_⟩
  by_cases hbelow : dest.parts <+: loc
  · obtain ⟨names, rfl⟩ := hbelow
    rcases h.inside hne hlink with hfolder | ⟨content, hfile, -⟩
    · cases hfolder
    · cases hfile
  · by_cases habove : loc <+: dest.parts
    · rw [h.folder hnamed habove] at hlink
      cases hlink
    · rw [Disk.shape?_remove hne, if_neg hbelow, ← h.apart hne hbelow habove, hlink]

/-- What an output adds to a disk is in its folder, folders apart. -/
theorem grownIn (h : Emitted s current dest index files d d₁) (htidy : d.Tidy)
    (hanchor : dest.anchor = .root)
    (hne : dest.parts ≠ []) (hnamed : ∀ f ∈ files, f.1 ≠ []) :
    (d.remove dest.parts).GrownIn d₁ [dest] where
  tidy₀ := htidy.remove dest.parts
  tidy := h.tidy
  extend := h.extends_removed hne
  anchor := by simpa using hanchor
  absent := by simp [Disk.shape?_remove hne]
  clear := by simpa using .inr (h.folder hnamed (List.prefix_refl _))
  grown := by
    intro loc shape hshape habsent
    by_cases hbelow : dest.parts <+: loc
    · exact .inr ⟨dest, by simp, hbelow⟩
    · by_cases habove : loc <+: dest.parts
      · rw [h.folder hnamed habove, Option.some.injEq] at hshape
        exact .inl hshape.symm
      · rw [Disk.shape?_remove hne, if_neg hbelow, ← h.apart hne hbelow habove, hshape] at habsent
        cases habsent

end Emitted

namespace Disk

variable {d₀ d d' : Disk} {dest p : Path} {skip : List Path} {loc : Location}

/-- A disk has grown in the folder that is removed from it. -/
theorem grownIn_of_removed (htidy : d.Tidy) (hanchor : dest.anchor = .root) (hne : dest.parts ≠ [])
    (hclear : d.shape? dest.parts = none ∨ d.shape? dest.parts = some .folder) :
    (d.remove dest.parts).GrownIn d [dest] where
  tidy₀ := htidy.remove dest.parts
  tidy := htidy
  extend := remove_extends hne
  anchor := by simpa using hanchor
  absent := by simp [shape?_remove hne]
  clear := by simpa using hclear
  grown := by
    intro loc shape hshape habsent
    rw [shape?_remove hne] at habsent
    split at habsent
    · next hbelow => exact .inr ⟨dest, by simp, hbelow⟩
    · rw [hshape] at habsent
      cases habsent

theorem Opened.extends (h : d.Opened d' loc) : d.Extends d' := by
  intro target shape hshape
  rw [h.shape]
  split
  · next hway =>
    rcases h.clear target hway with hnone | hfolder
    · rw [hshape] at hnone
      cases hnone
    · rw [← hfolder, hshape]
  · exact hshape

/-- Folders that are made are growth that counts nowhere. -/
theorem GrownIn.opened (h : d₀.GrownIn d skip) (hopened : d.Opened d' loc) :
    d₀.GrownIn d' skip where
  tidy₀ := h.tidy₀
  tidy := hopened.tidy h.tidy
  extend := h.extend.trans hopened.extends
  anchor := h.anchor
  absent := h.absent
  clear := by
    intro p hp
    rw [hopened.shape]
    split
    · exact .inr rfl
    · exact h.clear p hp
  grown := by
    intro target shape hshape habsent
    rw [hopened.shape] at hshape
    split at hshape
    · exact .inl (Option.some.inj hshape).symm
    · exact h.grown target shape hshape habsent

/-- A folder that is not there may be skipped as well. -/
theorem GrownIn.skip_more (h : d₀.GrownIn d skip) (hanchor : p.anchor = .root)
    (habsent : d.shape? p.parts = none) : d₀.GrownIn d (p :: skip) where
  tidy₀ := h.tidy₀
  tidy := h.tidy
  extend := h.extend
  anchor := List.forall_mem_cons.mpr ⟨hanchor, h.anchor⟩
  absent := by
    refine List.forall_mem_cons.mpr ⟨?_, h.absent⟩
    refine Option.eq_none_iff_forall_ne_some.mpr fun shape hshape => ?_
    rw [h.extend _ shape hshape] at habsent
    cases habsent
  clear := List.forall_mem_cons.mpr ⟨.inl habsent, h.clear⟩
  grown := by
    intro target shape hshape hbefore
    refine (h.grown target shape hshape hbefore).imp_right fun ⟨q, hq, hbelow⟩ => ?_
    exact ⟨q, List.mem_cons_of_mem p hq, hbelow⟩

end Disk

end ScriptModules
