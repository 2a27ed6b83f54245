import ScriptModules.Disk.Write
import ScriptModules.Proofs.Disk.Reading

/-!
# Changes on straight paths

On a straight path, folders can be made when the way is clear: folders as far as it is there, and
nothing after. Then the disk has folders all the way and is otherwise the same
(`makeFolders_ok`, `makeFolders_of_clear`). Writing a file needs its folder, and changes nothing
but the file (`write_eq`, `write_free`). Each result is said about `Disk.shape?`, so that runs on
different disks can be compared location by location.
-/

namespace ScriptModules

namespace Disk

variable {d d' : Disk} {a : Anchor} {loc way : Location} {content : ByteArray}

/-- On the way to a location there are folders, and nothing after. -/
def Clear (d : Disk) (loc : Location) : Prop :=
  ∀ way, way <+: loc → d.shape? way = none ∨ d.shape? way = some .folder

theorem Clear.on_way (h : d.Clear loc) (hway : way <+: loc) : d.Clear way :=
  fun way' hway' => h way' (hway'.trans hway)

theorem Clear.straight (h : d.Clear loc) (hup : ".." ∉ loc) : d.Straight loc := by
  refine ⟨hup, fun way target hway hlink => ?_⟩
  rcases h way hway with hnone | hfolder <;> simp_all

theorem straight_of_folder (hup : ".." ∉ loc) (hfolder : d.shape? loc = some .folder) :
    d.Straight loc :=
  Clear.straight (fun _ hway => .inr (shape?_folder_of_way hway hfolder)) hup

theorem Straight.locate (h : d.Straight loc) {out : Location} (hloc : d.locate ⟨a, loc⟩ = .ok out) :
    out = loc ∧ d.IsPlace loc := by
  have hlinks : ∀ way target, way <+: loc → d.shape? ([] ++ way) ≠ some (.link target) := h.2
  cases hstretch : d.stretch true [] loc with
  | error fault => 
    rw [Disk.locate, follow_of_error hstretch] at hloc
    cases hloc
  | ok result =>
    obtain ⟨rfl, hnames, hshape⟩ := stretch_straight h.1 hlinks hstretch
    rw [Disk.locate, follow_of_arrived hstretch] at hloc
    cases hloc
    refine ⟨rfl, hnames, ?_, fun target => h.2 loc target (List.prefix_refl loc)⟩
    by_cases hnil : loc = []
    · simp [hnil]
    · exact hshape hnil

theorem IsPlace.locate (h : d.IsPlace loc) : d.locate ⟨a, loc⟩ = .ok loc :=
  locate_iff.mpr ⟨0, Nat.zero_le _, h.leads⟩

theorem isPlace_of_folder (hnames : ∀ name ∈ loc, IsName name)
    (hshape : d.shape? loc = some .folder) : d.IsPlace loc :=
  ⟨hnames, by simp [hshape], by simp [hshape]⟩

theorem locate_absent (hnames : ∀ name ∈ loc, IsName name) (hclear : d.Clear loc)
    (hshape : d.shape? loc = none) : d.locate ⟨a, loc⟩ = .error .notFound :=
  follow_of_error (stretch_absent hnames (fun way hway => hclear way hway) d.shape?_nil hshape)

theorem resolveUpTo_straight {base rest : Location} (hup : ".." ∉ rest)
    (hlinks : ∀ way target, way <+: rest → d.shape? (base ++ way) ≠ some (.link target))
    (depth : Nat) : d.resolveUpTo base depth (rest.map .name) = (base ++ rest, depth, []) := by
  induction rest generalizing base with
  | nil => simp [resolveUpTo]
  | cons name rest ih =>
    have hname : name ≠ ".." := fun heq => hup (heq ▸ List.mem_cons_self ..)
    have hrest : d.resolveUpTo (base ++ [name]) depth (rest.map .name) =
        (base ++ name :: rest, depth, []) := by
      rw [List.append_cons base name rest]
      refine ih (fun hmem => hup (List.mem_cons_of_mem name hmem)) fun way target hway => ?_
      rw [List.append_assoc]
      exact hlinks ([name] ++ way) target ((List.prefix_append_right_inj [name]).mpr hway)
    rw [List.map_cons, resolveUpTo, if_neg hname]
    split
    · next target hat => exact absurd (shape?_eq_link.mpr hat) (hlinks [name] target (by simp))
    · exact hrest

/-- Where the way is clear, a path is its own canonical form. -/
theorem canonical_of_clear (hnames : ∀ name ∈ loc, IsName name) (hclear : d.Clear loc) :
    d.canonical ⟨a, loc⟩ = .ok ⟨.root, loc⟩ := by
  have hnull : loc.any hasNull = false := by
    simpa [List.any_eq_false] using fun name hname => (hnames name hname).2
  have hstraight := hclear.straight fun hup => (hnames ".." hup).1 rfl
  have hresolve : d.resolve canonicalFuel [] [] (loc.map .name) = loc :=
    resolve_of_nil (resolveUpTo_straight hstraight.1 hstraight.2 0)
  rcases hclear loc (List.prefix_refl loc) with habsent | hfolder
  · have hlocate : d.locate ⟨.root, loc⟩ = .error .notFound := locate_absent hnames hclear habsent
    simp [canonical, hnull, hresolve, hlocate]
  · have hlocate : d.locate ⟨.root, loc⟩ = .ok loc := (isPlace_of_folder hnames hfolder).locate
    simp [canonical, hnull, hresolve, hlocate]

/-! ## Folders -/

theorem makeFolder_eq {base : Location} {name : String} (hbase : d.IsPlace base)
    (hfolder : d.shape? base = some .folder) (hname : IsName name) :
    d.makeFolder ⟨a, base ++ [name]⟩ =
      if d.shape? (base ++ [name]) = none then .ok (d.put (base ++ [name]) (.folder []))
      else .error .alreadyExists := by
  obtain ⟨entries, hat⟩ := shape?_eq_folder.mp hfolder
  have hlocate : d.locate (Path.parent ⟨a, base ++ [name]⟩) = .ok base := by
    simpa [Path.parent] using hbase.locate
  by_cases hshape : d.shape? (base ++ [name]) = none
  · simp [makeFolder, hlocate, hat, hname.1, hname.2, shape?_eq_none.mp hshape, hshape, bind,
      Except.bind, pure, Except.pure]
  · have hsome : (d.at? (base ++ [name])).isSome = true := by
      simpa [Option.isSome_iff_ne_none, ← shape?_eq_none] using hshape
    simp [makeFolder, hlocate, hat, hname.2, hsome, hshape, bind, Except.bind, throw, throwThe,
      MonadExceptOf.throw]

theorem makeFolder_error {fault : DiskFault} {base : Location} {name : String}
    (h : d.locate ⟨a, base⟩ = .error fault) :
    d.makeFolder ⟨a, base ++ [name]⟩ = .error fault := by
  simp [makeFolder, Path.parent, h, bind, Except.bind]

theorem makeFolder_ok {base : Location} {name : String} (hbase : d.locate ⟨a, base⟩ = .ok base)
    (h : d.makeFolder ⟨a, base ++ [name]⟩ = .ok d') :
    d.shape? base = some .folder ∧ IsName name := by
  have hlocate : d.locate (Path.parent ⟨a, base ++ [name]⟩) = .ok base := by
    simpa [Path.parent] using hbase
  unfold makeFolder at h
  simp only [hlocate, List.getLast?_concat, bind, Except.bind] at h
  split at h
  · next entries last hat hlast =>
    cases hlast
    refine ⟨shape?_eq_folder.mpr ⟨entries, hat⟩, ?_⟩
    by_cases hnull : hasNull name = true
    · simp [hnull, throw, throwThe, MonadExceptOf.throw] at h
    · refine ⟨fun hup => ?_, by simpa using hnull⟩
      subst hup
      simp [hnull, throw, throwThe, MonadExceptOf.throw] at h
  · next hlast => cases hlast
  · simp [throw, throwThe, MonadExceptOf.throw] at h

/-- What a folder that can be made changes. -/
theorem shape?_put_folder (hloc : loc ≠ []) (hfolder : d.shape? loc.dropLast = some .folder)
    (habsent : d.shape? loc = none) (target : Location) :
    (d.put loc (.folder [])).shape? target =
      if target <+: loc then some .folder else d.shape? target := by
  rw [shape?_put hloc hfolder (by simp)]
  by_cases heq : target = loc
  · simp [heq, Entry.shape]
  · by_cases hbelow : loc <+: target
    · -- Nothing was below what was not there.
      have hnot : ¬ target <+: loc := fun h => heq (h.eq_of_length_le hbelow.length_le)
      obtain ⟨rest, rfl⟩ := hbelow
      have hrest : rest ≠ [] := fun h => heq (by simp [h])
      have hnone :=
        shape?_append_of_ne_folder hrest (by simp [habsent] : d.shape? loc ≠ some .folder)
      simp [hrest, hnot, hnone]
    · by_cases habove : target <+: loc
      · have hshape := shape?_folder_of_way (way_dropLast habove heq) hfolder
        simp [heq, hbelow, hshape]
      · simp [heq, hbelow, habove]

/-- A folder that is there now: the disk has folders on the way to it, and is the same elsewhere. -/
structure Opened (d d' : Disk) (loc : Location) : Prop where
  clear : d.Clear loc
  names : ∀ name ∈ loc, IsName name
  tidy : d.Tidy → d'.Tidy
  shape : ∀ target, d'.shape? target = if target <+: loc then some .folder else d.shape? target

theorem opened_of_folder (hplace : d.IsPlace loc) (hfolder : d.shape? loc = some .folder) :
    d.Opened d loc where
  clear way hway := .inr (shape?_folder_of_way hway hfolder)
  names := hplace.1
  tidy h := h
  shape target := by
    split
    · next hway => exact shape?_folder_of_way hway hfolder
    · rfl

theorem opened_of_put {base : Location} {name : String} (hbase : d.IsPlace base)
    (hfolder : d.shape? base = some .folder) (hname : IsName name)
    (habsent : d.shape? (base ++ [name]) = none) :
    d.Opened (d.put (base ++ [name]) (.folder [])) (base ++ [name]) where
  clear way hway := by
    by_cases heq : way = base ++ [name]
    · exact .inl (heq ▸ habsent)
    · have hway := way_dropLast hway heq
      rw [List.dropLast_concat] at hway
      exact .inr (shape?_folder_of_way hway hfolder)
  names := by
    intro n hn
    rcases List.mem_append.mp hn with hn | hn
    · exact hbase.1 n hn
    · exact List.mem_singleton.mp hn ▸ hname
  tidy h := by
    refine h.put (fun n hn => ?_) (by simp)
    rw [List.getLast?_concat, Option.some.injEq] at hn
    exact hn ▸ hname
  shape := shape?_put_folder (by simp) (by simpa using hfolder) habsent

theorem ensureFolder_ok (hstraight : d.Straight loc) (h : d.ensureFolder ⟨a, loc⟩ = .ok d') :
    d.Opened d' loc := by
  unfold ensureFolder at h
  split at h
  · next made hmake =>
    cases h
    by_cases hnil : loc = []
    · subst hnil
      simp [makeFolder, Path.parent, (isPlace_nil d).locate, at?, Entry.lookup?, bind, Except.bind,
        throw, throwThe, MonadExceptOf.throw] at hmake
    · obtain ⟨base, name, rfl⟩ : ∃ base name, loc = base ++ [name] :=
        ⟨_, _, (List.dropLast_append_getLast hnil).symm⟩
      cases hlocate : d.locate ⟨a, base⟩ with
      | error fault =>
        rw [makeFolder_error hlocate] at hmake
        cases hmake
      | ok out =>
        obtain ⟨rfl, hbase⟩ := (hstraight.on_way (List.prefix_append base [name])).locate hlocate
        obtain ⟨hfolder, hname⟩ := makeFolder_ok hlocate hmake
        rw [makeFolder_eq hbase hfolder hname] at hmake
        split at hmake
        · next habsent =>
          cases hmake
          exact opened_of_put hbase hfolder hname habsent
        · cases hmake
  · next fault hmake =>
    -- The folder was there before.
    split at h
    · next hthere =>
      cases h
      obtain ⟨out, hlocate, hfolder⟩ := isFolder_iff.mp (Bool.and_eq_true_iff.mp hthere).2
      obtain ⟨rfl, hplace⟩ := hstraight.locate hlocate
      exact opened_of_folder hplace hfolder
    · cases h

/-- A folder can be made in a folder, when nothing else is in its place. -/
theorem ensureFolder_of_clear (hnames : ∀ name ∈ loc, IsName name) (hclear : d.Clear loc)
    (hfolder : d.shape? loc.dropLast = some .folder) :
    ∃ d', d.ensureFolder ⟨a, loc⟩ = .ok d' := by
  rcases hclear loc (List.prefix_refl loc) with habsent | hthere
  · have hnil : loc ≠ [] := by
      rintro rfl
      simp at habsent
    obtain ⟨base, name, rfl⟩ : ∃ base name, loc = base ++ [name] :=
      ⟨_, _, (List.dropLast_append_getLast hnil).symm⟩
    rw [List.dropLast_concat] at hfolder
    have hbase := isPlace_of_folder (fun n hn => hnames n (List.mem_append_left _ hn)) hfolder
    have hname := hnames name (by simp)
    rw [ensureFolder, makeFolder_eq hbase hfolder hname, if_pos habsent]
    exact ⟨_, rfl⟩
  · have hisFolder : d.isFolder ⟨a, loc⟩ = true :=
      isFolder_iff.mpr ⟨loc, (isPlace_of_folder hnames hthere).locate, hthere⟩
    by_cases hnil : loc = []
    · subst hnil
      simp [ensureFolder, makeFolder, Path.parent, (isPlace_nil d).locate, at?, Entry.lookup?,
        hisFolder, bind, Except.bind, throw, throwThe, MonadExceptOf.throw]
    · obtain ⟨base, name, rfl⟩ : ∃ base name, loc = base ++ [name] :=
        ⟨_, _, (List.dropLast_append_getLast hnil).symm⟩
      rw [List.dropLast_concat] at hfolder
      have hbase := isPlace_of_folder (fun n hn => hnames n (List.mem_append_left _ hn)) hfolder
      have hname := hnames name (by simp)
      rw [ensureFolder, makeFolder_eq hbase hfolder hname, if_neg (by simp [hthere])]
      exact ⟨d, by simp [hisFolder]⟩

theorem ensureFolder_absent (hnames : ∀ name ∈ loc, IsName name) (hclear : d.Clear loc)
    (habsent : d.shape? loc.dropLast = none) : d.ensureFolder ⟨a, loc⟩ = .error .notFound := by
  have hnil : loc ≠ [] := by
    rintro rfl
    simp at habsent
  obtain ⟨base, name, rfl⟩ : ∃ base name, loc = base ++ [name] :=
    ⟨_, _, (List.dropLast_append_getLast hnil).symm⟩
  rw [List.dropLast_concat] at habsent
  have hlocate : d.locate ⟨a, base⟩ = .error .notFound :=
    locate_absent (fun n hn => hnames n (List.mem_append_left _ hn))
      (hclear.on_way (List.prefix_append base [name])) habsent
  simp [ensureFolder, makeFolder_error hlocate]

theorem Opened.straight (h : d.Opened d' way) (hstraight : d.Straight loc) : d'.Straight loc := by
  refine ⟨hstraight.1, fun target t ht => ?_⟩
  rw [h.shape]
  split
  · simp
  · exact hstraight.2 target t ht

theorem Opened.clear_of_clear (h : d.Opened d' way) (hclear : d.Clear loc) : d'.Clear loc := by
  intro target htarget
  rw [h.shape]
  split
  · exact .inr rfl
  · exact hclear target htarget

/-- Making a folder after those that it lies in. -/
theorem Opened.trans {d₁ d₂ : Disk} (h : d.Opened d₁ way) (h' : d₁.Opened d₂ loc)
    (hway : way <+: loc) : d.Opened d₂ loc where
  clear target htarget := by
    rcases h'.clear target htarget with hnone | hfolder
    · rw [h.shape] at hnone
      split at hnone
      · cases hnone
      · exact .inl hnone
    · rw [h.shape] at hfolder
      split at hfolder
      · next hbefore => exact h.clear target hbefore
      · exact .inr hfolder
  names := h'.names
  tidy ht := h'.tidy (h.tidy ht)
  shape target := by
    rw [h'.shape, h.shape]
    by_cases hloc : target <+: loc
    · simp [hloc]
    · have hnot : ¬ target <+: way := fun hbefore => hloc (hbefore.trans hway)
      simp [hloc, hnot]

theorem makeFoldersTo_of_ok {p : Path} {n : Nat}
    (h : d.ensureFolder ⟨p.anchor, p.parts.take n⟩ = .ok d') :
    makeFoldersTo p n d = (d', .ok ()) := by
  unfold makeFoldersTo
  simp only [h]

theorem makeFoldersTo_zero_error {p : Path} {fault : DiskFault}
    (h : d.ensureFolder ⟨p.anchor, p.parts.take 0⟩ = .error fault) :
    makeFoldersTo p 0 d = (d, .error fault) := by
  unfold makeFoldersTo
  dsimp only
  rw [h]
  cases fault <;> rfl

theorem makeFoldersTo_of_error {p : Path} {n : Nat} {fault : DiskFault}
    (h : d.ensureFolder ⟨p.anchor, p.parts.take n⟩ = .error fault) (hfault : fault ≠ .notFound) :
    makeFoldersTo p n d = (d, .error fault) := by
  unfold makeFoldersTo
  dsimp only
  rw [h]
  cases fault <;> first | rfl | exact absurd rfl hfault

theorem makeFoldersTo_of_notFound {p : Path} {n : Nat}
    (h : d.ensureFolder ⟨p.anchor, p.parts.take (n + 1)⟩ = .error .notFound) :
    makeFoldersTo p (n + 1) d = (d', .ok ()) ↔ ∃ d₁, makeFoldersTo p n d = (d₁, .ok ()) ∧
      d₁.ensureFolder ⟨p.anchor, p.parts.take (n + 1)⟩ = .ok d' := by
  conv_lhs => unfold makeFoldersTo
  simp only [h]
  rcases hbefore : makeFoldersTo p n d with ⟨d₁, fault | done⟩
  · simp
  · cases hlast : d₁.ensureFolder ⟨p.anchor, p.parts.take (n + 1)⟩ <;> simp [hlast]

theorem makeFoldersTo_ok {p : Path} {n : Nat} (hstraight : d.Straight (p.parts.take n))
    (h : makeFoldersTo p n d = (d', .ok ())) : d.Opened d' (p.parts.take n) := by
  induction n generalizing d d' with
  | zero =>
    cases hensure : d.ensureFolder ⟨p.anchor, p.parts.take 0⟩ with
    | error fault => 
      rw [makeFoldersTo_zero_error hensure] at h
      cases h
    | ok made =>
      rw [makeFoldersTo_of_ok hensure] at h
      cases h
      exact ensureFolder_ok hstraight hensure
  | succ n ih =>
    have hway : p.parts.take n <+: p.parts.take (n + 1) :=
      List.take_prefix_take_left (Nat.le_succ n)
    cases hensure : d.ensureFolder ⟨p.anchor, p.parts.take (n + 1)⟩ with
    | ok made =>
      rw [makeFoldersTo_of_ok hensure] at h
      cases h
      exact ensureFolder_ok hstraight hensure
    | error fault =>
      by_cases hfault : fault = .notFound
      · subst hfault
        obtain ⟨d₁, hbefore, hlast⟩ := (makeFoldersTo_of_notFound hensure).mp h
        have hopened := ih (hstraight.on_way hway) hbefore
        exact hopened.trans (ensureFolder_ok (hopened.straight hstraight) hlast) hway
      · rw [makeFoldersTo_of_error hensure hfault] at h
        cases h

theorem makeFoldersTo_of_clear {p : Path} {n : Nat} (hnames : ∀ name ∈ p.parts, IsName name)
    (hclear : d.Clear (p.parts.take n)) : ∃ d', makeFoldersTo p n d = (d', .ok ()) := by
  induction n with
  | zero =>
    obtain ⟨d', hensure⟩ : ∃ d', d.ensureFolder ⟨p.anchor, p.parts.take 0⟩ = .ok d' :=
      ensureFolder_of_clear (by simp) hclear (by simp)
    exact ⟨d', makeFoldersTo_of_ok hensure⟩
  | succ n ih =>
    have hway : p.parts.take n <+: p.parts.take (n + 1) :=
      List.take_prefix_take_left (Nat.le_succ n)
    have hnames : ∀ name ∈ p.parts.take (n + 1), IsName name :=
      fun name hname => hnames name (List.mem_of_mem_take hname)
    rcases hclear _ (List.dropLast_prefix (p.parts.take (n + 1))) with habsent | hfolder
    · obtain ⟨d₁, hbefore⟩ := ih (hclear.on_way hway)
      have hup : ".." ∉ p.parts.take n :=
        fun hmem => (hnames ".." (hway.subset hmem)).1 rfl
      have hstraight : d.Straight (p.parts.take n) := (hclear.on_way hway).straight hup
      have hopened := makeFoldersTo_ok hstraight hbefore
      have hdrop : (p.parts.take (n + 1)).dropLast <+: p.parts.take n :=
        List.prefix_take_iff.mpr ⟨(List.dropLast_prefix _).trans (List.take_prefix _ _),
          by simp only [List.length_dropLast, List.length_take]; omega⟩
      have hfolder : d₁.shape? (p.parts.take (n + 1)).dropLast = some .folder := by
        rw [hopened.shape, if_pos hdrop]
      obtain ⟨d₂, hlast⟩ : ∃ d₂, d₁.ensureFolder ⟨p.anchor, p.parts.take (n + 1)⟩ = .ok d₂ :=
        ensureFolder_of_clear hnames (hopened.clear_of_clear hclear) hfolder
      exact ⟨d₂, (makeFoldersTo_of_notFound (ensureFolder_absent hnames hclear habsent)).mpr
        ⟨d₁, hbefore, hlast⟩⟩
    · obtain ⟨d', hensure⟩ : ∃ d', d.ensureFolder ⟨p.anchor, p.parts.take (n + 1)⟩ = .ok d' :=
        ensureFolder_of_clear hnames hclear hfolder
      exact ⟨d', makeFoldersTo_of_ok hensure⟩

/-- Folders that could be made lead to a location whose way was clear. -/
theorem makeFolders_ok {p : Path} (hstraight : d.Straight p.parts)
    (h : d.makeFolders p = (d', .ok ())) : d.Opened d' p.parts := by
  have hopened := makeFoldersTo_ok (n := p.parts.length) (by rwa [List.take_length]) h
  rwa [List.take_length] at hopened

theorem makeFolders_of_clear {p : Path} (hnames : ∀ name ∈ p.parts, IsName name)
    (hclear : d.Clear p.parts) : ∃ d', d.makeFolders p = (d', .ok ()) :=
  makeFoldersTo_of_clear hnames (by rwa [List.take_length])

/-! ## Files -/

/-- A file can be written at the location: its folder is there, and nothing but a file is in its
place. -/
structure Free (d : Disk) (loc : Location) : Prop where
  nonempty : loc ≠ []
  names : ∀ name ∈ loc, IsName name
  folder : d.shape? loc.dropLast = some .folder
  notFolder : d.shape? loc ≠ some .folder

theorem locateTarget_error {base : Location} {name : String} {budget : Nat} {fault : DiskFault}
    (hlocate : d.locate ⟨a, base⟩ = .error fault) :
    d.locateTarget budget [] (base ++ [name]) = .error fault := by
  have hfollow : d.follow true linkLimit [] base = .error fault := hlocate
  rw [locateTarget]
  simp [hfollow, bind, Except.bind]

theorem locateTarget_eq {base : Location} {name : String} {budget : Nat}
    (hlocate : d.locate ⟨a, base⟩ = .ok base)
    (hlink : ∀ target, d.shape? (base ++ [name]) ≠ some (.link target)) :
    d.locateTarget budget [] (base ++ [name]) =
      if d.shape? base = some .folder then
        if name = ".." then .error .isDirectory
        else if hasNull name then .error .nullByte else .ok (base ++ [name])
      else .error .notDirectory := by
  have hfollow : d.follow true linkLimit [] base = .ok base := hlocate
  rw [locateTarget]
  simp only [List.dropLast_concat, hfollow, List.getLast?_concat, bind, Except.bind]
  by_cases hfolder : d.shape? base = some .folder
  · obtain ⟨entries, hat⟩ := shape?_eq_folder.mp hfolder
    simp only [hat, hfolder, if_true]
    by_cases hup : name = ".."
    · simp [hup, throw, throwThe, MonadExceptOf.throw]
    · by_cases hnull : hasNull name = true
      · simp [hup, hnull, throw, throwThe, MonadExceptOf.throw]
      · cases hlast : d.at? (base ++ [name]) with
        | none => simp [hup, hnull, pure, Except.pure]
        | some e =>
          cases e with
          | link target => exact absurd (shape?_eq_link.mpr hlast) (hlink target)
          | file => simp [hup, hnull, pure, Except.pure]
          | folder => simp [hup, hnull, pure, Except.pure]
  · cases hat : d.at? base with
    | none => simp [hfolder, throw, throwThe, MonadExceptOf.throw]
    | some e =>
      cases e with
      | folder entries => exact absurd (shape?_eq_folder.mpr ⟨entries, hat⟩) hfolder
      | file => simp [hfolder, throw, throwThe, MonadExceptOf.throw]
      | link => simp [hfolder, throw, throwThe, MonadExceptOf.throw]

theorem write_eq (hfree : d.Free loc) (hlink : ∀ target, d.shape? loc ≠ some (.link target)) :
    d.write ⟨a, loc⟩ content = .ok (d.put loc (.file content)) := by
  obtain ⟨base, name, rfl⟩ : ∃ base name, loc = base ++ [name] :=
    ⟨_, _, (List.dropLast_append_getLast hfree.nonempty).symm⟩
  have hfolder := hfree.folder
  rw [List.dropLast_concat] at hfolder
  have hname := hfree.names name (by simp)
  have hbase := isPlace_of_folder (fun n hn => hfree.names n (List.mem_append_left _ hn)) hfolder
  have htarget : d.locateTarget linkLimit [] (base ++ [name]) = .ok (base ++ [name]) := by
    rw [locateTarget_eq (hbase.locate (a := a)) hlink]
    simp [hfolder, hname.1, hname.2]
  simp only [write, htarget, bind, Except.bind]
  split
  · next entries hat => exact absurd (shape?_eq_folder.mpr ⟨entries, hat⟩) hfree.notFolder
  · rfl

/-- A file that could be written had its folder, and took the place of nothing but a file. -/
theorem write_free (hstraight : d.Straight loc) (h : d.write ⟨a, loc⟩ content = .ok d') :
    d.Free loc := by
  have hnil : loc ≠ [] := by
    rintro rfl
    rw [write, locateTarget] at h
    have hfollow : d.follow true linkLimit [] [] = .ok [] := (isPlace_nil d).locate (a := a)
    simp [hfollow, at?, Entry.lookup?, bind, Except.bind, throw, throwThe, MonadExceptOf.throw] at h
  obtain ⟨base, name, rfl⟩ : ∃ base name, loc = base ++ [name] :=
    ⟨_, _, (List.dropLast_append_getLast hnil).symm⟩
  have hlink := fun target => hstraight.2 _ target (List.prefix_refl (base ++ [name]))
  have hup : name ≠ ".." := fun heq => hstraight.1 (by simp [heq])
  cases hlocate : d.locate ⟨a, base⟩ with
  | error fault => simp [write, locateTarget_error hlocate, bind, Except.bind] at h
  | ok out =>
    obtain ⟨rfl, hbase⟩ := (hstraight.on_way (List.prefix_append base [name])).locate hlocate
    rw [write, locateTarget_eq hlocate hlink] at h
    by_cases hfolder : d.shape? out = some .folder
    · by_cases hnull : hasNull name = true
      · simp [hfolder, hup, hnull, bind, Except.bind] at h
      · have hname : IsName name := ⟨hup, by simpa using hnull⟩
        refine ⟨by simp, ?_, by simpa using hfolder, fun hthere => ?_⟩
        · intro n hn
          rcases List.mem_append.mp hn with hn | hn
          · exact hbase.1 n hn
          · exact List.mem_singleton.mp hn ▸ hname
        · obtain ⟨entries, hat⟩ := shape?_eq_folder.mp hthere
          simp [hfolder, hup, hnull, hat, bind, Except.bind, throw, throwThe,
            MonadExceptOf.throw] at h
    · simp [hfolder, bind, Except.bind] at h

/-- What writing a file changes. -/
theorem shape?_put_file (hfree : d.Free loc) (target : Location) :
    (d.put loc (.file content)).shape? target =
      if target = loc then some (.file content) else d.shape? target := by
  rw [shape?_put hfree.nonempty hfree.folder (by simp)]
  by_cases heq : target = loc
  · simp [heq, Entry.shape]
  · by_cases hbelow : loc <+: target
    · obtain ⟨rest, rfl⟩ := hbelow
      have hrest : rest ≠ [] := fun h => heq (by simp [h])
      simp [hrest, shape?_append_of_ne_folder hrest hfree.notFolder]
    · simp [heq, hbelow]

/-! ## Removal -/

/-- Names lead to what they spell, be it a link. -/
theorem locateSelf_of_shape (hnames : ∀ name ∈ loc, IsName name) (hshape : d.shape? loc ≠ none) :
    d.locateSelf ⟨a, loc⟩ = .ok loc := by
  have hself : d.stretch false [] loc = .ok (.arrived ([] ++ loc)) :=
    stretch_self hnames hshape (by simp)
  exact follow_of_arrived hself

theorem removeTree_folder (hnames : ∀ name ∈ loc, IsName name)
    (hfolder : d.shape? loc = some .folder) : d.removeTree ⟨a, loc⟩ = .ok (d.remove loc) := by
  obtain ⟨entries, hat⟩ := shape?_eq_folder.mp hfolder
  have hlocate : d.locateSelf ⟨a, loc⟩ = .ok loc := locateSelf_of_shape hnames (by simp [hfolder])
  simp [removeTree, hlocate, hat, bind, Except.bind, pure, Except.pure]

theorem removeTree_file (hnames : ∀ name ∈ loc, IsName name)
    (hfile : d.shape? loc = some (.file content)) :
    d.removeTree ⟨a, loc⟩ = .error .notDirectory := by
  have hlocate : d.locateSelf ⟨a, loc⟩ = .ok loc := locateSelf_of_shape hnames (by simp [hfile])
  simp [removeTree, hlocate, shape?_eq_file.mp hfile, bind, Except.bind, throw, throwThe,
    MonadExceptOf.throw]

end Disk

end ScriptModules
