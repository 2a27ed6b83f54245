import ScriptModules.Proofs.Disk.Writing

/-!
# Paths over links

A path may lead over links to a folder and go on from there by names. Then it stands for the
location below that folder (`Detour`): folders are made and files written along the path exactly as
they are along the location (`Detour.makeFolders_ok`, `Detour.write_eq`).

A path that means nothing, but along which folders can be made, is such a path: the folder is the
last one that it leads to, and nothing is there under the next name (`exists_detour`).
-/

namespace ScriptModules

namespace Disk

variable {d d' : Disk} {a : Anchor} {base loc mid : Location} {parts init rest way : List String}
  {name : String} {n budget : Nat}

/-! ## Going on from a folder -/

/-- A path over a folder is followed from there, with the links that are left. -/
theorem Leads.follow_append {last : Bool} (h : d.Leads base parts n mid)
    (hmid : d.shape? mid = some .folder) (hn : n ≤ budget) (hlast : last = true ∨ rest ≠ []) :
    d.follow last budget base (parts ++ rest) = d.follow last (budget - n) mid rest := by
  induction h generalizing budget with
  | done base => rfl
  | up _ ih =>
    rw [← ih hmid hn, List.cons_append, follow, follow, stretch, if_pos rfl]
  | folder hname hshape _ ih =>
    obtain ⟨entries, hat⟩ := shape?_eq_folder.mp hshape
    rw [← ih hmid hn, List.cons_append, follow, follow, stretch, if_neg hname.1,
      if_neg (by simp [hname.2]), hat]
  | file hname hshape =>
    rw [hshape] at hmid
    cases hmid
  | @link base name target parts n mid hname hshape _ ih =>
    obtain ⟨budget, rfl⟩ : ∃ b, budget = b + 1 := ⟨budget - 1, by omega⟩
    have hstretch : d.stretch last base (name :: (parts ++ rest)) =
        .ok (.linked base target (parts ++ rest)) := by
      rcases hlast with rfl | hrest
      · simp [stretch, hname.1, hname.2, shape?_eq_link.mp hshape]
      · simp [stretch, hname.1, hname.2, shape?_eq_link.mp hshape, hrest]
    rw [List.cons_append, follow_of_linked hstretch, jump_append, ih hmid (by omega)]
    congr 1
    omega

/-- Where there are no links, it does not matter how many may be followed. -/
theorem follow_straight (hup : ".." ∉ rest)
    (hlinks : ∀ way target, way <+: rest → d.shape? (base ++ way) ≠ some (.link target))
    (budget budget' : Nat) : d.follow true budget base rest = d.follow true budget' base rest := by
  cases hstretch : d.stretch true base rest with
  | error fault => rw [follow_of_error hstretch, follow_of_error hstretch]
  | ok result =>
    obtain ⟨rfl, -⟩ := stretch_straight hup hlinks hstretch
    rw [follow_of_arrived hstretch, follow_of_arrived hstretch]

/-- What leads to a folder does so on every disk with these folders and links. -/
theorem Leads.mono_folder
    (hkeep : ∀ loc s, (∀ content, s ≠ .file content) → d.shape? loc = some s →
      d'.shape? loc = some s)
    (h : d.Leads base parts n loc) (hloc : d.shape? loc = some .folder) :
    d'.Leads base parts n loc := by
  induction h with
  | done base => exact .done base
  | up _ ih => exact .up (ih hloc)
  | folder hname hshape _ ih => exact .folder hname (hkeep _ _ (by simp) hshape) (ih hloc)
  | file hname hshape =>
    rw [hshape] at hloc
    cases hloc
  | link hname hshape _ ih => exact .link hname (hkeep _ _ (by simp) hshape) (ih hloc)

/-- What a name leads on from is a folder. -/
theorem Leads.folder_of_cons (h : d.Leads base (name :: rest) n loc) (hname : name ≠ "..") :
    d.shape? base = some .folder ∧ hasNull name = false ∧ d.shape? (base ++ [name]) ≠ none := by
  have hthere : hasNull name = false ∧ d.shape? (base ++ [name]) ≠ none := by
    cases h with
    | up => exact absurd rfl hname
    | folder hisName hshape => exact ⟨hisName.2, by simp [hshape]⟩
    | file hisName hshape => exact ⟨hisName.2, by simp [hshape]⟩
    | link hisName hshape => exact ⟨hisName.2, by simp [hshape]⟩
  exact ⟨shape?_folder_of_append (List.cons_ne_nil _ _) hthere.2, hthere⟩

theorem locate_append (h : d.locate ⟨a, parts ++ rest⟩ = .ok loc) :
    ∃ mid m, d.locate ⟨a, parts⟩ = .ok mid ∧ d.Leads mid rest m loc := by
  obtain ⟨n, hn, hleads⟩ := locate_iff.mp h
  obtain ⟨n₁, n₂, mid, rfl, h₁, h₂⟩ := hleads.split
  exact ⟨mid, n₂, locate_iff.mpr ⟨n₁, by omega, h₁⟩, h₂⟩

/-! ## Detours -/

/-- The path `parts` leads to the folder at `base`, and `rest` goes on from there by names, without
a link. -/
structure Detour (d : Disk) (parts : List String) (base : Location) (rest : List String) :
    Prop where
  noUp : ".." ∉ parts
  located : d.locate ⟨.root, parts⟩ = .ok base
  folder : d.shape? base = some .folder
  straight : d.Straight (base ++ rest)

namespace Detour

theorem locate (h : d.Detour parts base rest) (a : Anchor) : d.locate ⟨a, parts⟩ = .ok base :=
  h.located

theorem place (h : d.Detour parts base rest) : d.IsPlace base := by
  obtain ⟨n, -, hleads⟩ := locate_iff.mp h.located
  exact hleads.isPlace (isPlace_nil d)

theorem base_noUp (h : d.Detour parts base rest) : ".." ∉ base := fun hup => (h.place.1 _ hup).1 rfl

theorem take (h : d.Detour parts base rest) (hway : way <+: rest) : d.Detour parts base way :=
  { h with straight := h.straight.on_way ((List.prefix_append_right_inj base).mpr hway) }

/-- The detour is there on a disk that has the same folders and links and no new links. -/
theorem mono (h : d.Detour parts base rest)
    (hkeep : ∀ loc s, (∀ content, s ≠ .file content) → d.shape? loc = some s →
      d'.shape? loc = some s)
    (hstraight : d'.Straight (base ++ rest)) : d'.Detour parts base rest := by
  obtain ⟨n, hn, hleads⟩ := locate_iff.mp h.located
  exact ⟨h.noUp, locate_iff.mpr ⟨n, hn, hleads.mono_folder hkeep h.folder⟩,
    hkeep _ _ (by simp) h.folder, hstraight⟩

/-- Along a detour the path and the location mean the same. -/
theorem locate_eq (h : d.Detour parts base rest) (hway : way <+: rest) :
    d.locate ⟨a, parts ++ way⟩ = d.locate ⟨a, base ++ way⟩ := by
  obtain ⟨n, hn, hleads⟩ := locate_iff.mp h.located
  have hstraight := (h.take hway).straight
  have hup : ".." ∉ way := fun hmem => hstraight.1 (List.mem_append_right base hmem)
  have hlinks : ∀ way' target, way' <+: way → d.shape? (base ++ way') ≠ some (.link target) :=
    fun way' target hway' => hstraight.2 _ target ((List.prefix_append_right_inj base).mpr hway')
  calc d.follow true linkLimit [] (parts ++ way)
      = d.follow true (linkLimit - n) base way := hleads.follow_append h.folder hn (.inl rfl)
    _ = d.follow true (linkLimit - 0) base way := follow_straight hup hlinks _ _
    _ = d.follow true linkLimit [] (base ++ way) :=
        (h.place.leads.follow_append h.folder (Nat.zero_le _) (.inl rfl)).symm

end Detour

/-! ## Folders along a detour -/

/-- A folder that is there is not made again. -/
theorem ensureFolder_there (hup : ".." ∉ parts) (hlocate : d.locate ⟨a, parts⟩ = .ok loc)
    (hfolder : d.shape? loc = some .folder) : d.ensureFolder ⟨a, parts⟩ = .ok d := by
  have hisFolder : d.isFolder ⟨a, parts⟩ = true := isFolder_iff.mpr ⟨loc, hlocate, hfolder⟩
  have hmake : d.makeFolder ⟨a, parts⟩ = .error .alreadyExists := by
    rcases List.eq_nil_or_concat' parts with rfl | ⟨init, name, rfl⟩
    · simp [makeFolder, Path.parent, (isPlace_nil d).locate, at?, Entry.lookup?, bind, Except.bind,
        throw, throwThe, MonadExceptOf.throw]
    · obtain ⟨mid, m, hmid, hleads⟩ := locate_append hlocate
      obtain ⟨hmidFolder, hnull, hthere⟩ :=
        hleads.folder_of_cons fun heq => hup (by simp [heq])
      obtain ⟨entries, hat⟩ := shape?_eq_folder.mp hmidFolder
      have hsome : (d.at? (mid ++ [name])).isSome = true := by
        simpa [Option.isSome_iff_ne_none, ← shape?_eq_none] using hthere
      simp [makeFolder, Path.parent, hmid, hat, hnull, hsome, bind, Except.bind, throw, throwThe,
        MonadExceptOf.throw]
  rw [ensureFolder, hmake]
  simp [hisFolder]

theorem Detour.ensureFolder_eq (h : d.Detour parts base rest) (hway : way <+: rest) :
    d.ensureFolder ⟨a, parts ++ way⟩ = d.ensureFolder ⟨a, base ++ way⟩ := by
  rcases List.eq_nil_or_concat' way with rfl | ⟨init, name, rfl⟩
  · rw [List.append_nil, List.append_nil, ensureFolder_there h.noUp (h.locate a) h.folder,
      ensureFolder_there h.base_noUp h.place.locate h.folder]
  · have hinit := h.locate_eq (a := a) ((List.prefix_append init [name]).trans hway)
    have hself := h.locate_eq (a := a) hway
    have hmake : d.makeFolder ⟨a, parts ++ (init ++ [name])⟩ =
        d.makeFolder ⟨a, base ++ (init ++ [name])⟩ := by
      simp only [makeFolder, Path.parent, ← List.append_assoc, List.dropLast_concat,
        List.getLast?_concat, hinit]
    have hisFolder : d.isFolder ⟨a, parts ++ (init ++ [name])⟩ =
        d.isFolder ⟨a, base ++ (init ++ [name])⟩ := by
      simp only [isFolder, entry, hself]
    rw [ensureFolder, ensureFolder, hmake, hisFolder]

theorem Detour.opened (h : d.Detour parts base rest) (hopened : d.Opened d' loc) :
    d'.Detour parts base rest := by
  refine h.mono (fun target s hs hshape => ?_) (hopened.straight h.straight)
  rw [hopened.shape]
  split
  · next hway =>
    rcases hopened.clear target hway with hnone | hfolder
    · rw [hshape] at hnone
      cases hnone
    · rw [← hfolder, hshape]
  · exact hshape

/-- Folders that can be made along the path are made along the location. -/
theorem Detour.makeFoldersTo_ok (h : d.Detour parts base rest) {k : Nat}
    (hmade : makeFoldersTo ⟨a, parts ++ rest⟩ (parts.length + k) d = (d', .ok ())) :
    makeFoldersTo ⟨a, base ++ rest⟩ (base.length + k) d = (d', .ok ()) := by
  have hensure : ∀ {e : Disk} (j : Nat), e.Detour parts base rest →
      e.ensureFolder ⟨a, (parts ++ rest).take (parts.length + j)⟩ =
        e.ensureFolder ⟨a, (base ++ rest).take (base.length + j)⟩ := by
    intro e j he
    rw [List.take_length_add_append, List.take_length_add_append]
    exact he.ensureFolder_eq (List.take_prefix _ _)
  induction k generalizing d' with
  | zero =>
    have hthere : d.ensureFolder ⟨a, (parts ++ rest).take (parts.length + 0)⟩ = .ok d := by
      simpa using ensureFolder_there h.noUp (h.locate a) h.folder
    rw [makeFoldersTo_of_ok hthere] at hmade
    cases hmade
    exact makeFoldersTo_of_ok ((hensure 0 h).symm.trans hthere)
  | succ k ih =>
    cases hfirst : d.ensureFolder ⟨a, (parts ++ rest).take (parts.length + (k + 1))⟩ with
    | ok made =>
      rw [makeFoldersTo_of_ok hfirst] at hmade
      cases hmade
      exact makeFoldersTo_of_ok ((hensure (k + 1) h).symm.trans hfirst)
    | error fault =>
      by_cases hfault : fault = .notFound
      · subst hfault
        obtain ⟨d₁, hbefore, hlast⟩ := (makeFoldersTo_of_notFound hfirst).mp hmade
        have hbefore := ih hbefore
        have hopened := Disk.makeFoldersTo_ok (h.straight.on_way (List.take_prefix _ _)) hbefore
        refine (makeFoldersTo_of_notFound ((hensure (k + 1) h).symm.trans hfirst)).mpr
          ⟨d₁, hbefore, ?_⟩
        exact (hensure (k + 1) (h.opened hopened)).symm.trans hlast
      · rw [makeFoldersTo_of_error hfirst hfault] at hmade
        cases hmade

theorem Detour.makeFolders_ok (h : d.Detour parts base rest)
    (hmade : d.makeFolders ⟨a, parts ++ rest⟩ = (d', .ok ())) :
    d.makeFolders ⟨a, base ++ rest⟩ = (d', .ok ()) := by
  have hmade : makeFoldersTo ⟨a, parts ++ rest⟩ (parts.length + rest.length) d = (d', .ok ()) := by
    rw [← List.length_append]
    exact hmade
  have hmade := h.makeFoldersTo_ok hmade
  rwa [← List.length_append] at hmade

/-- A file is written along the path as it is along the location. -/
theorem Detour.write_eq (h : d.Detour parts base rest) (hrest : rest ≠ []) (content : ByteArray) :
    d.write ⟨a, parts ++ rest⟩ content = d.write ⟨a, base ++ rest⟩ content := by
  obtain ⟨init, name, rfl⟩ := (List.eq_nil_or_concat' rest).resolve_left hrest
  have hinit : d.follow true linkLimit [] (parts ++ init) =
      d.follow true linkLimit [] (base ++ init) :=
    h.locate_eq (a := a) (List.prefix_append init [name])
  have htarget : d.locateTarget linkLimit [] (parts ++ (init ++ [name])) =
      d.locateTarget linkLimit [] (base ++ (init ++ [name])) := by
    rw [locateTarget, locateTarget, ← List.append_assoc, ← List.append_assoc, List.dropLast_concat,
      List.dropLast_concat, List.getLast?_concat, List.getLast?_concat, hinit]
  rw [write, write, htarget]

/-! ## Where a detour starts -/

/-- Below what is no folder a path by names leads nowhere. -/
theorem locate_below_ne_ok (hfolder : d.isFolder ⟨a, parts⟩ = false) (hne : rest ≠ [])
    (hup : ".." ∉ rest) : d.locate ⟨a, parts ++ rest⟩ ≠ .ok loc := by
  intro hlocate
  obtain ⟨mid, m, hmid, hleads⟩ := locate_append hlocate
  obtain ⟨name, rest, rfl⟩ := List.exists_cons_of_ne_nil hne
  have hname : name ≠ ".." := fun heq => hup (heq ▸ List.mem_cons_self ..)
  rw [isFolder_iff.mpr ⟨mid, hmid, (hleads.folder_of_cons hname).1⟩] at hfolder
  cases hfolder

/-- A folder is made in a folder, if it is not there. -/
theorem isFolder_of_ensureFolder (h : d.ensureFolder ⟨a, init ++ [name]⟩ = .ok d') :
    d.isFolder ⟨a, init⟩ = true ∨ d.isFolder ⟨a, init ++ [name]⟩ = true := by
  unfold ensureFolder at h
  split at h
  · next hmake =>
    refine .inl ?_
    cases hlocate : d.locate ⟨a, init⟩ with
    | error fault =>
      rw [makeFolder_error hlocate] at hmake
      cases hmake
    | ok loc =>
      have hparent : d.locate (Path.parent ⟨a, init ++ [name]⟩) = .ok loc := by
        simpa [Path.parent] using hlocate
      simp only [makeFolder, hparent, bind, Except.bind] at hmake
      split at hmake
      · next entries _ hat _ =>
        exact isFolder_iff.mpr ⟨loc, hlocate, shape?_eq_folder.mpr ⟨entries, hat⟩⟩
      · next hlast => simp at hlast
      · simp [throw, throwThe, MonadExceptOf.throw] at hmake
  · split at h
    · next hthere => exact .inr (Bool.and_eq_true_iff.mp hthere).2
    · cases h

/-- Where something else than a folder is, no folder is made. -/
theorem ensureFolder_taken (hlocate : d.locate ⟨a, parts⟩ = .ok base)
    (hfolder : d.isFolder ⟨a, parts ++ [name]⟩ = false)
    (hthere : d.shape? (base ++ [name]) ≠ none) :
    ∃ fault, fault ≠ .notFound ∧ d.ensureFolder ⟨a, parts ++ [name]⟩ = .error fault := by
  obtain ⟨entries, hat⟩ :=
    shape?_eq_folder.mp (shape?_folder_of_append (List.cons_ne_nil _ _) hthere)
  have hparent : d.locate (Path.parent ⟨a, parts ++ [name]⟩) = .ok base := by
    simpa [Path.parent] using hlocate
  have hsome : (d.at? (base ++ [name])).isSome = true := by
    simpa [Option.isSome_iff_ne_none, ← shape?_eq_none] using hthere
  by_cases hnull : hasNull name = true
  · refine ⟨.nullByte, by simp, ?_⟩
    simp [ensureFolder, makeFolder, hparent, hat, hnull, hfolder, bind, Except.bind, throw,
      throwThe, MonadExceptOf.throw]
  · refine ⟨.alreadyExists, by simp, ?_⟩
    simp [ensureFolder, makeFolder, hparent, hat, hnull, hsome, hfolder, bind, Except.bind, throw,
      throwThe, MonadExceptOf.throw]

/-- Below what is no folder a path by names leads to no folder. -/
theorem isFolder_below (hfolder : d.isFolder ⟨a, parts⟩ = false) (hup : ".." ∉ rest) :
    d.isFolder ⟨a, parts ++ rest⟩ = false := by
  by_cases hnil : rest = []
  · rw [hnil, List.append_nil, hfolder]
  · refine Bool.eq_false_iff.mpr fun h => ?_
    obtain ⟨loc, hlocate, -⟩ := isFolder_iff.mp h
    exact locate_below_ne_ok hfolder hnil hup hlocate

/-- Where something else than a folder is, and below it, no folder is made. -/
theorem ensureFolder_blocked (hlocate : d.locate ⟨a, parts⟩ = .ok base)
    (hfolder : d.isFolder ⟨a, parts ++ [name]⟩ = false) (hthere : d.shape? (base ++ [name]) ≠ none)
    (hup : ".." ∉ rest) : d.ensureFolder ⟨a, parts ++ [name] ++ rest⟩ ≠ .ok d' := by
  intro hensure
  rcases List.eq_nil_or_concat' rest with rfl | ⟨init, x, rfl⟩
  · obtain ⟨fault, -, herror⟩ := ensureFolder_taken hlocate hfolder hthere
    rw [List.append_nil, herror] at hensure
    cases hensure
  · have hinit : ".." ∉ init := fun hmem => hup (List.mem_append_left _ hmem)
    rw [← List.append_assoc] at hensure
    rcases isFolder_of_ensureFolder hensure with h | h
    · rw [isFolder_below hfolder hinit] at h
      cases h
    · rw [List.append_assoc, isFolder_below hfolder hup] at h
      cases h

/-- No folders are made below something else than a folder. -/
theorem makeFoldersTo_blocked (hlocate : d.locate ⟨a, parts⟩ = .ok base)
    (hfolder : d.isFolder ⟨a, parts ++ [name]⟩ = false) (hthere : d.shape? (base ++ [name]) ≠ none)
    (hup : ".." ∉ rest) (k : Nat) :
    makeFoldersTo ⟨a, parts ++ [name] ++ rest⟩ ((parts ++ [name]).length + k) d ≠ (d', .ok ()) := by
  induction k generalizing d' with
  | zero =>
    obtain ⟨fault, hfault, hensure⟩ := ensureFolder_taken hlocate hfolder hthere
    have htake : (parts ++ [name] ++ rest).take ((parts ++ [name]).length + 0) = parts ++ [name] :=
      List.take_left
    rw [← htake] at hensure
    rw [makeFoldersTo_of_error hensure hfault]
    simp
  | succ k ih =>
    intro hmade
    have htake : (parts ++ [name] ++ rest).take ((parts ++ [name]).length + (k + 1)) =
        parts ++ [name] ++ rest.take (k + 1) := List.take_length_add_append _
    have hway : ".." ∉ rest.take (k + 1) := fun hmem => hup (List.mem_of_mem_take hmem)
    cases hensure : d.ensureFolder
        ⟨a, (parts ++ [name] ++ rest).take ((parts ++ [name]).length + (k + 1))⟩ with
    | ok made =>
      rw [htake] at hensure
      exact ensureFolder_blocked hlocate hfolder hthere hway hensure
    | error fault =>
      by_cases hfault : fault = .notFound
      · subst hfault
        obtain ⟨d₁, hbefore, -⟩ := (makeFoldersTo_of_notFound hensure).mp hmade
        exact ih hbefore
      · rw [makeFoldersTo_of_error hensure hfault] at hmade
        cases hmade

/-- The last folder that a path leads to. -/
theorem exists_last_folder (h : d.isFolder ⟨a, parts⟩ = false) :
    ∃ init name rest, parts = init ++ [name] ++ rest ∧ d.isFolder ⟨a, init⟩ = true ∧
      d.isFolder ⟨a, init ++ [name]⟩ = false := by
  induction parts using List.reverseRecOn with
  | nil =>
    rw [isFolder_iff.mpr ⟨[], (isPlace_nil d).locate, d.shape?_nil⟩] at h
    cases h
  | append_singleton init name ih =>
    cases hinit : d.isFolder ⟨a, init⟩ with
    | true => exact ⟨init, name, [], by simp, hinit, h⟩
    | false =>
      obtain ⟨init', name', rest, rfl, htrue, hfalse⟩ := ih hinit
      exact ⟨init', name', rest ++ [name], by simp, htrue, hfalse⟩

/-- A path that means nothing, but along which folders can be made, is a detour: there is nothing
under the name after the last folder. -/
theorem exists_detour (hup : ".." ∉ parts) (hfolder : d.isFolder ⟨a, parts⟩ = false)
    (hup' : ".." ∉ rest) (hmade : d.makeFolders ⟨a, parts ++ rest⟩ = (d', .ok ())) :
    ∃ init base name more, parts = init ++ name :: more ∧ d.shape? (base ++ [name]) = none ∧
      ∀ names, ".." ∉ names → d.Detour init base (name :: more ++ names) := by
  obtain ⟨init, name, more, rfl, htrue, hfalse⟩ := exists_last_folder hfolder
  obtain ⟨base, hlocate, hbase⟩ := isFolder_iff.mp htrue
  have hupMore : ".." ∉ more := fun h => hup (List.mem_append_right _ h)
  have habsent : d.shape? (base ++ [name]) = none := by
    by_contra hthere
    have hblocked : makeFoldersTo ⟨a, init ++ [name] ++ (more ++ rest)⟩
        ((init ++ [name]).length + (more ++ rest).length) d ≠ (d', .ok ()) :=
      makeFoldersTo_blocked hlocate hfalse hthere (by simpa using ⟨hupMore, hup'⟩) _
    rw [← List.length_append, ← List.append_assoc] at hblocked
    exact hblocked hmade
  refine ⟨init, base, name, more, by simp, habsent, fun names hnames => ?_⟩
  have hupInit : ".." ∉ init := fun h => hup (by simp [h])
  have hupName : ".." ≠ name := fun h => hup (by simp [h])
  obtain ⟨n, -, hleads⟩ := locate_iff.mp hlocate
  have hplace := hleads.isPlace (isPlace_nil d)
  have hupBase : ".." ∉ base := fun h => (hplace.1 _ h).1 rfl
  refine ⟨hupInit, hlocate, hbase, ⟨by simp [hupBase, hupName, hupMore, hnames], ?_⟩⟩
  intro way target hway hlink
  rcases way_append_cases hway with habove | ⟨x, hx, hprefix, rfl⟩
  · rw [shape?_folder_of_way habove hbase] at hlink
    cases hlink
  · -- Below the folder there is nothing under the name, so no link.
    obtain ⟨y, x, rfl⟩ := List.exists_cons_of_ne_nil hx
    obtain ⟨rfl, -⟩ := List.cons_prefix_cons.mp hprefix
    have hnone : d.shape? (base ++ y :: x) = none := by
      by_cases hnil : x = []
      · rw [hnil, habsent]
      · rw [List.append_cons]
        exact shape?_append_of_ne_folder hnil (by simp [habsent])
    rw [hnone] at hlink
    cases hlink

/-! ## Removal -/

/-- A tree that a path leads to is removed where it is. -/
theorem removeTree_ok (hname : name ≠ "..") (hlocate : d.locate ⟨a, init ++ [name]⟩ = .ok loc)
    (h : d.removeTree ⟨a, init ++ [name]⟩ = .ok d') : loc ≠ [] ∧ d' = d.remove loc := by
  obtain ⟨mid, m, hmid, hleads⟩ := locate_append hlocate
  obtain ⟨n, hn, hinit⟩ := locate_iff.mp hmid
  obtain ⟨hfolder, hnull, hthere⟩ := hleads.folder_of_cons hname
  have hself : d.locateSelf ⟨a, init ++ [name]⟩ = .ok (mid ++ [name]) := by
    have hstretch : d.stretch false mid [name] = .ok (.arrived (mid ++ [name])) := by
      cases hat : d.at? (mid ++ [name]) with
      | none => exact absurd (shape?_eq_none.mpr hat) hthere
      | some e => cases e <;> simp [stretch, hname, hnull, hat]
    calc d.follow false linkLimit [] (init ++ [name])
        = d.follow false (linkLimit - n) mid [name] := hinit.follow_append hfolder hn (by simp)
      _ = .ok (mid ++ [name]) := follow_of_arrived hstretch
  simp only [removeTree, hself, bind, Except.bind] at h
  split at h
  · next entries hat =>
    -- What is removed is a folder, so the path leads to it and not on over a link.
    have hshape := shape?_eq_folder.mpr ⟨entries, hat⟩
    have hloc : loc = mid ++ [name] :=
      (hleads.unique (.folder ⟨hname, hnull⟩ hshape (.done _))).2
    cases h
    exact ⟨by simp [hloc], by rw [hloc]⟩
  · cases h
  · cases h

end Disk

end ScriptModules
