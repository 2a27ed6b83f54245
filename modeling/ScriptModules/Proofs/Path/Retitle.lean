import ScriptModules.Path.Basic

/-!
# Keys and their stems

Joining components with slashes and splitting the result gives the components back
(`components_intercalate`), so a normalized key is the path of its components (`keyPath_eq`).

Putting something behind the stem of a key keeps its directory and its suffix. Where the key
`Retitles`, the stem of the new key is the old one with that behind it (`Retitles.stem_eq`): what is
put there can be told from the key. This is so for every key that `HasExtension`, and for what has
no dot also for a key without one, unless its name ends in a dot (`EndsInName`): a number behind
such a name would be read as its suffix.
-/

namespace ScriptModules

variable {p : Char → Bool} {key name t : String} {parts : List String}

/-! ## Splitting and joining -/

theorem splitWhere_eq_splitOnP (p : Char → Bool) (cs : List Char) :
    splitWhere p cs = cs.splitOnP p := by
  induction cs with
  | nil => rfl
  | cons c cs ih =>
    rw [splitWhere, List.splitOnP_cons_eq_if_modifyHead, ih]
    split
    · rfl
    · split
      · next h => exact (List.splitOnP_ne_nil p cs h).elim
      · next h => rw [h, List.modifyHead_cons]

/-- What is split off holds no separator. -/
theorem plain_of_mem_splitWhere {cs part : List Char} (h : part ∈ splitWhere p cs) :
    ∀ c ∈ part, p c = false := by
  induction cs generalizing part with
  | nil =>
    rw [List.mem_singleton.mp h]
    simp
  | cons c cs ih =>
    rw [splitWhere] at h
    split at h
    · rcases List.mem_cons.mp h with rfl | h
      · simp
      · exact ih h
    · next hc =>
      have hc : p c = false := Bool.eq_false_iff.mpr hc
      split at h
      · rw [List.mem_singleton.mp h]
        simpa using hc
      · next first rest hsplit =>
        rw [hsplit] at ih
        rcases List.mem_cons.mp h with rfl | h
        · exact List.forall_mem_cons.mpr ⟨hc, ih List.mem_cons_self⟩
        · exact ih (List.mem_cons_of_mem _ h)

theorem splitWhere_intercalate {sep : Char} (hsep : p sep = true) {pieces : List (List Char)}
    (hne : pieces ≠ []) (hplain : ∀ piece ∈ pieces, ∀ c ∈ piece, p c = false) :
    splitWhere p ([sep].intercalate pieces) = pieces := by
  rw [splitWhere_eq_splitOnP]
  induction pieces with
  | nil => exact (hne rfl).elim
  | cons piece rest ih =>
    obtain ⟨hpiece, hrest⟩ := List.forall_mem_cons.mp hplain
    cases rest with
    | nil =>
      rw [List.intercalate_singleton]
      exact List.splitOnP_eq_singleton hpiece
    | cons next rest =>
      rw [List.intercalate_cons_cons, List.append_assoc, List.singleton_append,
        List.splitOnP_append_cons_of_forall_mem hpiece sep hsep, ih (by simp) hrest]

/-- The text is a component of paths that are split where `p` says. -/
structure Component (p : Char → Bool) (s : String) : Prop where
  ne_empty : s ≠ ""
  ne_dot : s ≠ "."
  plain : ∀ c ∈ s.toList, p c = false

instance (p : Char → Bool) (s : String) : Decidable (Component p s) :=
  decidable_of_iff (s ≠ "" ∧ s ≠ "." ∧ s.toList.any p = false)
    ⟨fun h => ⟨h.1, h.2.1, by simpa using h.2.2⟩,
      fun h => ⟨h.ne_empty, h.ne_dot, by simpa using h.plain⟩⟩

theorem component_of_mem_components {s part : String} (h : part ∈ components p s) :
    Component p part := by
  obtain ⟨hmem, hpart⟩ := List.mem_filter.mp h
  obtain ⟨cs, hcs, rfl⟩ := List.mem_map.mp hmem
  obtain ⟨hempty, hdot⟩ := of_decide_eq_true hpart
  refine ⟨hempty, hdot, ?_⟩
  rw [String.toList_ofList]
  exact plain_of_mem_splitWhere hcs

theorem components_intercalate (hsep : p '/' = true) (h : ∀ c ∈ parts, Component p c) :
    components p ("/".intercalate parts) = parts := by
  cases parts with
  | nil => rfl
  | cons first rest =>
    have hplain : ∀ piece ∈ (first :: rest).map String.toList, ∀ c ∈ piece, p c = false := by
      intro piece hpiece
      obtain ⟨part, hpart, rfl⟩ := List.mem_map.mp hpiece
      exact (h part hpart).plain
    have hid : ((first :: rest).map String.toList).map String.ofList = first :: rest := by
      rw [List.map_map]
      exact List.map_id'' (fun s => String.ofList_toList) _
    unfold components
    rw [String.toList_intercalate]
    change ((splitWhere p (['/'].intercalate _)).map _).filter _ = _
    rw [splitWhere_intercalate hsep (by simp) hplain, hid, List.filter_eq_self]
    intro part hpart
    exact decide_eq_true ⟨(h part hpart).ne_empty, (h part hpart).ne_dot⟩

/-- Components joined by slashes do not start with one: the first character comes from the first
component, which is neither empty nor a slash. -/
theorem takeWhile_intercalate (h : ∀ c ∈ parts, Component (· = '/') c) :
    ("/".intercalate parts).toList.takeWhile (· = '/') = [] := by
  cases parts with
  | nil => rfl
  | cons first rest =>
    obtain ⟨hfirst, -⟩ := List.forall_mem_cons.mp h
    cases hcs : first.toList with
    | nil => exact (hfirst.ne_empty (String.toList_eq_nil_iff.mp hcs)).elim
    | cons c cs =>
      have hc : decide (c = '/') = false := hfirst.plain c (by simp [hcs])
      cases rest <;> simp [hcs, hc]

/-- Components joined by slashes are read back as a relative path. -/
theorem ofString_intercalate (h : ∀ c ∈ parts, Component (· = '/') c) :
    Path.ofString ("/".intercalate parts) = ⟨.none, parts⟩ := by
  unfold Path.ofString
  rw [components_intercalate (by decide) h, takeWhile_intercalate h]

/-- An absolute path is read back from its text. -/
theorem ofString_toString (h : ∀ c ∈ parts, Component (· = '/') c) :
    Path.ofString (Path.toString ⟨.root, parts⟩) = ⟨.root, parts⟩ := by
  have htext : (Path.toString ⟨.root, parts⟩).toList = '/' :: ("/".intercalate parts).toList := by
    show ("/" ++ "/".intercalate parts).toList = _
    simp
  have hparts : components (· = '/') (Path.toString ⟨.root, parts⟩) = parts := by
    have hcomponents := components_intercalate (by decide) h
    unfold components at hcomponents ⊢
    rw [htext, splitWhere, if_pos (by decide), List.map_cons, List.filter_cons_of_neg (by decide),
      hcomponents]
  unfold Path.ofString
  rw [hparts, htext, List.takeWhile_cons, takeWhile_intercalate h]
  rfl

/-! ## Keys -/

/-- Both kinds of slashes separate the components of a key. -/
def isSeparator (c : Char) : Bool := c = '/' ∨ c = '\\'

theorem Component.slash {s : String} (h : Component isSeparator s) : Component (· = '/') s := by
  refine ⟨h.ne_empty, h.ne_dot, fun c hc => ?_⟩
  have := h.plain c hc
  simp only [isSeparator, decide_eq_false_iff_not, not_or] at this ⊢
  exact this.1

/-- The key as a path. -/
def keyPath (key : String) : Path := Path.ofString (normalize key)

theorem keyPath_eq (key : String) : keyPath key = ⟨.none, components isSeparator key⟩ :=
  ofString_intercalate fun _ hc => (component_of_mem_components hc).slash

theorem keyPath_intercalate (h : ∀ c ∈ parts, Component isSeparator c) :
    keyPath ("/".intercalate parts) = ⟨.none, parts⟩ := by
  rw [keyPath_eq, components_intercalate (by decide) h]

/-- The last component of the key has a suffix. As for every key, a backslash ends a component like
a slash does. -/
def HasExtension (key : String) : Prop := (keyPath key).suffix ≠ ""

instance (key : String) : Decidable (HasExtension key) := inferInstanceAs (Decidable (_ ≠ _))

/-! ## Stem and suffix -/

theorem splitSuffix_append {stem ext : List Char} (hstem : stem ≠ []) (hext : ext ≠ [])
    (hdot : '.' ∉ ext) : splitSuffix (String.ofList (stem ++ '.' :: ext)) =
      (String.ofList stem, String.ofList ('.' :: ext)) := by
  have hback : (stem ++ '.' :: ext).reverse = ext.reverse ++ '.' :: stem.reverse := by simp
  have hplain : ∀ c ∈ ext.reverse, decide (c ≠ '.') = true := by
    intro c hc
    refine decide_eq_true fun h => hdot ?_
    rw [← h]
    exact List.mem_reverse.mp hc
  unfold splitSuffix
  simp only
  rw [String.toList_ofList, hback, List.takeWhile_append_of_pos hplain,
    List.dropWhile_append_of_pos hplain]
  simp [hstem, hext]

theorem exists_of_splitSuffix (h : (splitSuffix name).2 ≠ "") : ∃ stem ext : List Char,
    stem ≠ [] ∧ ext ≠ [] ∧ '.' ∉ ext ∧ name = String.ofList (stem ++ '.' :: ext) := by
  unfold splitSuffix at h
  simp only at h
  have hback := List.takeWhile_append_dropWhile (p := (· ≠ '.')) (l := name.toList.reverse)
  have hplain := List.all_takeWhile (p := (· ≠ '.')) (l := name.toList.reverse)
  have hhead := List.head?_dropWhile_not (· ≠ '.') name.toList.reverse
  generalize name.toList.reverse.takeWhile (· ≠ '.') = ext at *
  generalize name.toList.reverse.dropWhile (· ≠ '.') = rest at *
  split at h
  · exact (h rfl).elim
  · next hne =>
    obtain ⟨hext, hstem⟩ := not_or.mp hne
    cases rest with
    | nil => exact (hstem rfl).elim
    | cons c stem =>
      have hc : c = '.' := by simpa using hhead
      have hname : name.toList = stem.reverse ++ '.' :: ext.reverse := by
        rw [← List.reverse_inj, ← hback, hc]
        simp
      refine ⟨stem.reverse, ext.reverse, by simpa using hstem, by simpa using hext, ?_, ?_⟩
      · intro hdot
        have := List.all_eq_true.mp hplain '.' (List.mem_reverse.mp hdot)
        simp at this
      · rw [← hname, String.ofList_toList]

/-- Stem and suffix make up the name. -/
theorem splitSuffix_join (name : String) : (splitSuffix name).1 ++ (splitSuffix name).2 = name := by
  by_cases hsuffix : (splitSuffix name).2 = ""
  · unfold splitSuffix at hsuffix ⊢
    simp only at hsuffix ⊢
    split
    · exact String.append_empty
    · next hne =>
      rw [if_neg hne] at hsuffix
      simp at hsuffix
  · obtain ⟨stem, ext, hstem, hext, hdot, rfl⟩ := exists_of_splitSuffix hsuffix
    rw [splitSuffix_append hstem hext hdot, ← String.ofList_append]

/-- A name without a dot behind its first character has no suffix. -/
theorem splitSuffix_of_tail {cs : List Char} (h : '.' ∉ cs.tail) :
    splitSuffix (String.ofList cs) = (String.ofList cs, "") := by
  cases cs with
  | nil => rfl
  | cons c cs =>
    have hplain : ∀ d ∈ cs.reverse, decide (d ≠ '.') = true := by
      intro d hd
      apply decide_eq_true
      rintro rfl
      exact h (List.mem_reverse.mp hd)
    have hstem : (((c :: cs).reverse.dropWhile (· ≠ '.')).drop 1) = [] := by
      rw [List.reverse_cons, List.dropWhile_append_of_pos hplain]
      by_cases hc : c = '.' <;> simp [hc]
    unfold splitSuffix
    simp only
    rw [String.toList_ofList, if_pos (.inr hstem)]

/-- A name that has no suffix and does not end in a dot has no dot behind its first character. -/
theorem dot_notMem_tail (h : (splitSuffix name).2 = "") (hlast : name.toList.getLast? ≠ some '.') :
    '.' ∉ name.toList.tail := by
  intro hdot
  -- The last dot would divide the name into a stem and a suffix.
  obtain ⟨ext, stem, hsplit, hext⟩ := List.eq_append_cons_of_mem (List.mem_reverse.mpr hdot)
  have htail : name.toList.tail = stem.reverse ++ '.' :: ext.reverse := by
    rw [← List.reverse_reverse name.toList.tail, hsplit]
    simp
  cases hname : name.toList with
  | nil => simp [hname] at hdot
  | cons c cs =>
    rw [hname, List.tail_cons] at htail
    have hne : ext.reverse ≠ [] := by
      intro hnil
      apply hlast
      rw [hname, htail, hnil, ← List.cons_append]
      exact List.getLast?_concat
    have hstem : c :: stem.reverse ≠ [] := by simp
    have hsuffix := splitSuffix_append hstem hne (by simpa using hext)
    rw [List.cons_append, ← htail, ← hname, String.ofList_toList] at hsuffix
    rw [hsuffix] at h
    simp at h

/-! ## Putting something behind the stem -/

/-- The text holds no separator of components. -/
def Plain (t : String) : Prop := ∀ c ∈ t.toList, isSeparator c = false

theorem parts_component : ∀ c ∈ (keyPath key).parts, Component isSeparator c := by
  rw [keyPath_eq]
  exact fun _ => component_of_mem_components

theorem name_mem_parts (hne : (keyPath key).name ≠ "") :
    (keyPath key).name ∈ (keyPath key).parts := by
  unfold Path.name at hne ⊢
  cases hp : (keyPath key).parts.getLast? with
  | none => simp [hp] at hne
  | some c => exact List.mem_of_getLast? hp

/-- Something put behind the stem of a name makes another name. -/
theorem Component.retitled {name : String} (h : Component isSeparator name) (ht : Plain t)
    (hne : t ≠ "") : Component isSeparator ((splitSuffix name).1 ++ t ++ (splitSuffix name).2) := by
  have hjoin := congrArg String.toList (splitSuffix_join name)
  rw [String.toList_append] at hjoin
  have hlength : 1 < ((splitSuffix name).1 ++ t ++ (splitSuffix name).2).toList.length := by
    have hname := List.length_pos_iff.mpr (mt String.toList_eq_nil_iff.mp h.ne_empty)
    have ht := List.length_pos_iff.mpr (mt String.toList_eq_nil_iff.mp hne)
    have hsum := congrArg List.length hjoin
    simp only [String.toList_append, List.length_append] at hsum ⊢
    omega
  refine ⟨fun heq => ?_, fun heq => ?_, fun c hc => ?_⟩
  · simp [heq] at hlength
  · simp [heq] at hlength
  · rw [String.toList_append, String.toList_append, List.append_assoc, List.mem_append,
      List.mem_append] at hc
    rcases hc with hc | hc | hc
    · exact h.plain c (hjoin ▸ List.mem_append_left _ hc)
    · exact ht c hc
    · exact h.plain c (hjoin ▸ List.mem_append_right _ hc)

namespace HasExtension

theorem exists_name (h : HasExtension key) : ∃ stem ext : List Char,
    stem ≠ [] ∧ ext ≠ [] ∧ '.' ∉ ext ∧ (keyPath key).name = String.ofList (stem ++ '.' :: ext) ∧
      (keyPath key).stem = String.ofList stem ∧
        (keyPath key).suffix = String.ofList ('.' :: ext) := by
  obtain ⟨stem, ext, hstem, hext, hdot, hname⟩ := exists_of_splitSuffix h
  have hsplit := splitSuffix_append hstem hext hdot
  rw [← hname] at hsplit
  exact ⟨stem, ext, hstem, hext, hdot, hname, congrArg Prod.fst hsplit, congrArg Prod.snd hsplit⟩

/-- What is put behind the stem ends up in the stem. -/
theorem splitSuffix_name (h : HasExtension key) (t : String) :
    splitSuffix ((keyPath key).stem ++ t ++ (keyPath key).suffix) =
      ((keyPath key).stem ++ t, (keyPath key).suffix) := by
  obtain ⟨stem, ext, hstem, hext, hdot, -, hs, he⟩ := h.exists_name
  have hne : stem ++ t.toList ≠ [] := by simp [hstem]
  have := splitSuffix_append hne hext hdot
  simpa only [hs, he, String.ofList_append, String.ofList_toList] using this

theorem ne_empty (h : HasExtension key) : (keyPath key).name ≠ "" := by
  obtain ⟨stem, ext, -, -, -, hname, -⟩ := h.exists_name
  rw [hname, Ne, String.ofList_eq_empty_iff]
  simp

theorem component_name (h : HasExtension key) (ht : Plain t) :
    Component isSeparator ((keyPath key).stem ++ t ++ (keyPath key).suffix) := by
  obtain ⟨stem, ext, hstem, hext, -, hname, hs, he⟩ := h.exists_name
  have hplain := (parts_component _ (name_mem_parts h.ne_empty)).plain
  rw [hname, String.toList_ofList] at hplain
  have hchars : ((keyPath key).stem ++ t ++ (keyPath key).suffix).toList =
      stem ++ t.toList ++ '.' :: ext := by
    simp only [hs, he, String.toList_append, String.toList_ofList]
  have hlength : 2 < (stem ++ t.toList ++ '.' :: ext).length := by
    have := List.length_pos_iff.mpr hstem
    have := List.length_pos_iff.mpr hext
    simp only [List.length_append, List.length_cons]
    omega
  rw [← hchars] at hlength
  refine ⟨fun h => ?_, fun h => ?_, fun c hc => ?_⟩
  · simp [h] at hlength
  · simp [h] at hlength
  · rw [hchars, List.mem_append, List.mem_append] at hc
    rcases hc with (hc | hc) | hc
    · exact hplain c (List.mem_append_left _ hc)
    · exact ht c hc
    · exact hplain c (List.mem_append_right _ hc)

end HasExtension

/-- The components of the key with `t` behind its stem. -/
def retitledParts (key t : String) : List String :=
  (keyPath key).parts.dropLast ++ [(keyPath key).stem ++ t ++ (keyPath key).suffix]

theorem retitledParts_component (h : HasExtension key) (ht : Plain t) :
    ∀ c ∈ retitledParts key t, Component isSeparator c := by
  intro c hc
  rcases List.mem_append.mp hc with hc | hc
  · exact parts_component c (List.dropLast_subset _ hc)
  · rw [List.mem_singleton.mp hc]
    exact h.component_name ht

/-- The key with `t` behind its stem. -/
def retitled (key t : String) : String := "/".intercalate (retitledParts key t)

theorem isFileName_of_component {s : String} (h : Component (· = '/') s) :
    Path.isFileName s = true := by
  have hs : Path.ofString ("/".intercalate [s]) = ⟨.none, [s]⟩ :=
    ofString_intercalate (by simpa using h)
  rw [String.intercalate_singleton] at hs
  have hlast : s.toList.getLast? ≠ some '/' := by
    intro hlast
    simpa using h.plain '/' (List.mem_of_getLast? hlast)
  simp [Path.isFileName, hs, h.ne_empty, hlast, Path.isAbsolute]

/-- The stem of a key can be changed when a name comes of it. -/
theorem retitle_of_component (hne : (keyPath key).name ≠ "")
    (h : Component isSeparator ((keyPath key).stem ++ t ++ (keyPath key).suffix)) :
    retitle key (· ++ t) = .ok (retitled key t) := by
  have hfile := isFileName_of_component h.slash
  have hanchor : (keyPath key).anchor = .none := by rw [keyPath_eq]
  have hname : (keyPath key).withName ((keyPath key).stem ++ t ++ (keyPath key).suffix) =
      .ok ⟨.none, retitledParts key t⟩ := by
    unfold Path.withName
    rw [if_neg hne, if_pos hfile, hanchor]
    rfl
  have htext : Path.toString ⟨.none, retitledParts key t⟩ = retitled key t := by
    unfold Path.toString
    split
    · next hparts => simp [retitledParts] at hparts
    · exact String.empty_append
  change (keyPath key).withName ((keyPath key).stem ++ t ++ (keyPath key).suffix) >>= _ = _
  rw [hname]
  exact congrArg Except.ok htext

theorem name_retitledParts (key t : String) : (⟨.none, retitledParts key t⟩ : Path).name =
    (keyPath key).stem ++ t ++ (keyPath key).suffix := by
  simp [Path.name, retitledParts]

/-- What is put behind the stem of the key makes a name, and ends up in the stem of that name. -/
structure Retitles (key t : String) : Prop where
  named : (keyPath key).name ≠ ""
  component : Component isSeparator ((keyPath key).stem ++ t ++ (keyPath key).suffix)
  split : splitSuffix ((keyPath key).stem ++ t ++ (keyPath key).suffix) =
    ((keyPath key).stem ++ t, (keyPath key).suffix)

theorem HasExtension.retitles (h : HasExtension key) (ht : Plain t) : Retitles key t :=
  ⟨h.ne_empty, h.component_name ht, h.splitSuffix_name t⟩

/-- The key has a last component, which does not end in a dot. -/
structure EndsInName (key : String) : Prop where
  named : (keyPath key).name ≠ ""
  undotted : (keyPath key).name.toList.getLast? ≠ some '.'

instance (key : String) : Decidable (EndsInName key) :=
  decidable_of_iff ((keyPath key).name ≠ "" ∧ (keyPath key).name.toList.getLast? ≠ some '.')
    ⟨fun h => ⟨h.1, h.2⟩, fun h => ⟨h.named, h.undotted⟩⟩

theorem EndsInName.retitles (h : EndsInName key) (ht : Plain t) (hne : t ≠ "")
    (hdot : '.' ∉ t.toList) : Retitles key t := by
  by_cases hext : HasExtension key
  · exact hext.retitles ht
  · have hsuffix : (keyPath key).suffix = "" := Decidable.not_not.mp hext
    have hstem : (keyPath key).stem = (keyPath key).name := by
      have hjoin := splitSuffix_join (keyPath key).name
      rw [show (splitSuffix (keyPath key).name).2 = "" from hsuffix, String.append_empty] at hjoin
      exact hjoin
    have hname : Component isSeparator (keyPath key).name :=
      parts_component _ (name_mem_parts h.named)
    refine ⟨h.named, hname.retitled ht hne, ?_⟩
    rw [hsuffix, hstem, String.append_empty]
    have htail : '.' ∉ ((keyPath key).name.toList ++ t.toList).tail := by
      have hold := dot_notMem_tail hsuffix h.undotted
      cases hcs : (keyPath key).name.toList with
      | nil => exact absurd (String.toList_eq_nil_iff.mp hcs) h.named
      | cons c cs =>
        rw [hcs, List.tail_cons] at hold
        simp [hold, hdot]
    have hsplit := splitSuffix_of_tail htail
    rwa [String.ofList_append, String.ofList_toList, String.ofList_toList] at hsplit

namespace Retitles

theorem retitle_eq (h : Retitles key t) : retitle key (· ++ t) = .ok (retitled key t) :=
  retitle_of_component h.named h.component

theorem stem_eq (h : Retitles key t) :
    (Path.ofString (retitled key t)).stem = (keyPath key).stem ++ t := by
  have hparts : ∀ c ∈ retitledParts key t, Component isSeparator c := by
    intro c hc
    rcases List.mem_append.mp hc with hc | hc
    · exact parts_component c (List.dropLast_subset _ hc)
    · exact List.mem_singleton.mp hc ▸ h.component
  have hpath : Path.ofString (retitled key t) = ⟨.none, retitledParts key t⟩ :=
    ofString_intercalate fun c hc => (hparts c hc).slash
  rw [hpath, Path.stem, name_retitledParts, h.split]

end Retitles

theorem hasExtension_retitled (h : HasExtension key) (ht : Plain t) :
    HasExtension (retitled key t) := by
  have hpath : keyPath (retitled key t) = ⟨.none, retitledParts key t⟩ :=
    keyPath_intercalate (retitledParts_component h ht)
  have hsuffix : (keyPath (retitled key t)).suffix = (keyPath key).suffix := by
    rw [hpath, Path.suffix, name_retitledParts, h.splitSuffix_name]
  unfold HasExtension
  rw [hsuffix]
  exact h

end ScriptModules
