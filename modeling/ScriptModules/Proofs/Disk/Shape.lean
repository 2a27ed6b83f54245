import Mathlib.Data.List.Infix
import Mathlib.Data.List.Nodup
import ScriptModules.Disk.Locate

/-!
# Disks by location

What stands at a location of a disk, apart from what a folder holds, is its `Shape`. A disk is
spoken about through `Disk.shape?`, a function from locations. Putting and removing an entry
change it at and below one location (`shape?_put`, `shape?_remove`), and whatever is there lies in
folders (`shape?_folder_of_append`).

`Disk.Tidy` says that a disk has proper names, and none twice in one folder; both changes keep it.
-/

namespace ScriptModules

-- There are several such instances, and which of them is found depends on what is imported.
local instance (priority := high) decEqBytes : DecidableEq ByteArray := ByteArray.instDecidableEq

/-- What an entry is, apart from what a folder holds. -/
inductive Shape where
  | file (content : ByteArray)
  | link (target : String)
  | folder
  deriving DecidableEq

/-- Can the text be the name of an entry? -/
def IsName (name : String) : Prop := name ≠ ".." ∧ hasNull name = false

instance (name : String) : Decidable (IsName name) := inferInstanceAs (Decidable (_ ∧ _))

namespace Entry

variable {e : Entry} {entries inner : List (String × Entry)} {name : String} {loc rest : Location}

/-- The shape of an entry. -/
def shape : Entry → Shape
  | .file content => .file content
  | .link target => .link target
  | .folder _ => .folder

/-- The entry at a location inside an entry. -/
def inside? : Entry → Location → Option Entry
  | e, [] => some e
  | .folder entries, loc => lookup? entries loc
  | _, _ :: _ => none

@[simp] theorem inside?_nil (e : Entry) : e.inside? [] = some e := by
  cases e <;> rfl

theorem inside?_folder (entries : List (String × Entry)) (loc : Location) :
    (folder entries).inside? loc = lookup? entries loc := by
  cases loc <;> rfl

theorem inside?_file (content : ByteArray) (loc : Location) :
    (file content).inside? loc = if loc = [] then some (file content) else none := by
  cases loc <;> rfl

theorem lookup?_cons (entries : List (String × Entry)) (name : String) (loc : Location) :
    lookup? entries (name :: loc) = (entries.lookup name).bind (·.inside? loc) := by
  cases hlookup : entries.lookup name with
  | none => simp [lookup?, hlookup]
  | some e => cases loc <;> cases e <;> simp [lookup?, hlookup, inside?]

theorem inside?_append (e : Entry) (loc rest : Location) :
    e.inside? (loc ++ rest) = (e.inside? loc).bind (·.inside? rest) := by
  induction loc generalizing e with
  | nil => simp
  | cons name loc ih =>
    cases e with
    | file => rfl
    | link => rfl
    | folder entries =>
      simp only [List.cons_append, inside?_folder, lookup?_cons, Option.bind_assoc, ih]

theorem exists_folder_of_inside?_cons {x : Entry} (h : e.inside? (name :: loc) = some x) :
    ∃ entries, e = .folder entries := by
  cases e with
  | file => cases h
  | link => cases h
  | folder entries => exact ⟨entries, rfl⟩

theorem exists_folder_of_inside? (h : e.inside? loc = some (.folder inner)) :
    ∃ entries, e = .folder entries := by
  cases loc with
  | nil => exact ⟨inner, by simpa using h⟩
  | cons name loc => exact exists_folder_of_inside?_cons h

theorem lookup?_empty (loc : Location) :
    lookup? [] loc = if loc = [] then some (folder []) else none := by
  cases loc with
  | nil => rfl
  | cons name loc => simp [lookup?_cons]

/-! ## Putting and removing -/

theorem lookup_cons_eq (head : String × Entry) (entries : List (String × Entry)) (n : String) :
    (head :: entries).lookup n = if n = head.1 then some head.2 else entries.lookup n := by
  obtain ⟨k, e⟩ := head
  by_cases h : n = k
  · simp [h]
  · have hbeq : (n == k) = false := beq_eq_false_iff_ne.mpr h
    simp [List.lookup_cons, hbeq, h]

theorem lookup_setName (name : String) (e : Entry) (entries : List (String × Entry)) (n : String) :
    (setName name e entries).lookup n = if n = name then some e else entries.lookup n := by
  induction entries with
  | nil => rw [setName, lookup_cons_eq]
  | cons head rest ih =>
    by_cases hhead : head.1 = name
    · by_cases hn : n = name <;> simp [setName, lookup_cons_eq, hhead, hn]
    · simp only [setName, hhead, if_false, lookup_cons_eq, ih]
      by_cases hn : n = head.1
      · simp [hn, hhead]
      · simp [hn]

theorem lookup_filter_ne (name : String) (entries : List (String × Entry)) (n : String) :
    (entries.filter (·.1 ≠ name)).lookup n = if n = name then none else entries.lookup n := by
  induction entries with
  | nil => simp
  | cons head rest ih =>
    by_cases hhead : head.1 = name
    · rw [List.filter_cons_of_neg (by simp [hhead]), ih, lookup_cons_eq, hhead]
      by_cases hn : n = name <;> simp [hn]
    · rw [List.filter_cons_of_pos (by simp [hhead]), lookup_cons_eq, lookup_cons_eq, ih]
      by_cases hn : n = head.1
      · simp [hn, hhead]
      · simp [hn]

/-- Changes the entries of a folder. -/
def inFolder (f : List (String × Entry) → List (String × Entry)) : Entry → Entry
  | .folder entries => .folder (f entries)
  | e => e

/-- Changes the entries of the folder with a name. -/
def mapAt (name : String) (f : List (String × Entry) → List (String × Entry))
    (entries : List (String × Entry)) : List (String × Entry) :=
  entries.map fun p => if p.1 = name then (p.1, p.2.inFolder f) else p

theorem lookup_mapAt (name : String) (f : List (String × Entry) → List (String × Entry))
    (entries : List (String × Entry)) (n : String) :
    (mapAt name f entries).lookup n =
      if n = name then (entries.lookup n).map (inFolder f) else entries.lookup n := by
  induction entries with
  | nil => simp [mapAt]
  | cons head rest ih =>
    simp only [mapAt, List.map_cons] at ih ⊢
    by_cases hhead : head.1 = name
    · by_cases hn : n = name
      · simp [lookup_cons_eq, hhead, hn]
      · simpa [lookup_cons_eq, hhead, hn] using ih
    · simp only [hhead, if_false, lookup_cons_eq, ih]
      by_cases hn : n = head.1
      · simp [hn, hhead]
      · simp [hn]

theorem map_fst_mapAt (name : String) (f : List (String × Entry) → List (String × Entry))
    (entries : List (String × Entry)) :
    (mapAt name f entries).map Prod.fst = entries.map Prod.fst := by
  rw [mapAt, List.map_map]
  refine List.map_congr_left fun p _ => ?_
  by_cases h : p.1 = name <;> simp [h]

theorem put_cons_cons (e : Entry) (name next : String) (rest : Location)
    (entries : List (String × Entry)) :
    put e (name :: next :: rest) entries = mapAt name (put e (next :: rest)) entries := by
  rw [put, mapAt]
  · refine List.map_congr_left fun ⟨n, x⟩ _ => ?_
    by_cases h : n = name <;> cases x <;> simp [h, inFolder]
  · simp

theorem remove_cons_cons (name next : String) (rest : Location) (entries : List (String × Entry)) :
    remove (name :: next :: rest) entries = mapAt name (remove (next :: rest)) entries := by
  rw [remove, mapAt]
  · refine List.map_congr_left fun ⟨n, x⟩ _ => ?_
    by_cases h : n = name <;> cases x <;> simp [h, inFolder]
  · simp

/-- Putting changes what is at and below its location. -/
theorem shape_lookup?_put (hloc : loc ≠ [])
    (hfolder : lookup? entries loc.dropLast = some (.folder inner)) (target : Location) :
    (lookup? (put e loc entries) target).map shape =
      if loc <+: target then (e.inside? (target.drop loc.length)).map shape
      else (lookup? entries target).map shape := by
  induction loc generalizing entries target with
  | nil => exact absurd rfl hloc
  | cons name rest ih =>
    cases target with
    | nil => rfl
    | cons n target =>
      cases rest with
      | nil =>
        rw [put, lookup?_cons, lookup_setName, lookup?_cons]
        by_cases hn : n = name
        · simp [hn]
        · simp [hn, Ne.symm hn]
      | cons next rest =>
        rw [put_cons_cons, lookup?_cons, lookup_mapAt, lookup?_cons]
        by_cases hn : n = name
        · subst hn
          rw [List.dropLast_cons_cons, lookup?_cons] at hfolder
          obtain ⟨x, hx, hin⟩ := Option.bind_eq_some_iff.mp hfolder
          obtain ⟨es, rfl⟩ := exists_folder_of_inside? hin
          rw [inside?_folder] at hin
          have hrest := ih (List.cons_ne_nil next rest) hin target
          simpa [hx, inFolder, inside?_folder, List.cons_prefix_cons] using hrest
        · simp [hn, Ne.symm hn, List.cons_prefix_cons]

/-- Removing takes away what is at and below its location. -/
theorem shape_lookup?_remove (hloc : loc ≠ []) (target : Location) :
    (lookup? (remove loc entries) target).map shape =
      if loc <+: target then none else (lookup? entries target).map shape := by
  induction loc generalizing entries target with
  | nil => exact absurd rfl hloc
  | cons name rest ih =>
    cases target with
    | nil => rfl
    | cons n target =>
      cases rest with
      | nil =>
        rw [remove, lookup?_cons, lookup_filter_ne, lookup?_cons]
        by_cases hn : n = name
        · simp [hn]
        · simp [hn, Ne.symm hn]
      | cons next rest =>
        rw [remove_cons_cons, lookup?_cons, lookup_mapAt, lookup?_cons]
        by_cases hn : n = name
        · subst hn
          cases hx : entries.lookup n with
          | none => simp
          | some x =>
            cases x with
            | folder es =>
              have hrest := @ih es (List.cons_ne_nil next rest) target
              simpa [inFolder, inside?_folder, List.cons_prefix_cons] using hrest
            | file content =>
              -- Below a file there is nothing, before and after.
              cases target <;> simp [inFolder, inside?, List.cons_prefix_cons]
            | link t => cases target <;> simp [inFolder, inside?, List.cons_prefix_cons]
        · simp [hn, Ne.symm hn, List.cons_prefix_cons]

/-! ## Proper names -/

/-- The names in a folder are proper, and none occurs twice. -/
def Named (entries : List (String × Entry)) : Prop :=
  (entries.map Prod.fst).Nodup ∧ ∀ name ∈ entries.map Prod.fst, IsName name

instance (entries : List (String × Entry)) : Decidable (Named entries) :=
  inferInstanceAs (Decidable (_ ∧ _))

/-- The names in a folder and in all folders below are proper, and none occurs twice in one. -/
def Tidy (entries : List (String × Entry)) : Prop :=
  ∀ loc inner, lookup? entries loc = some (.folder inner) → Named inner

theorem Tidy.named (h : Tidy entries) : Named entries := h [] entries rfl

theorem Tidy.folder (h : Tidy entries) (hinner : entries.lookup name = some (.folder inner)) :
    Tidy inner := by
  intro loc es hes
  refine h (name :: loc) es ?_
  rw [lookup?_cons, hinner, Option.bind_some, inside?_folder, hes]

theorem Tidy.mk (hnamed : Named entries)
    (hinner : ∀ name inner, entries.lookup name = some (.folder inner) → Tidy inner) :
    Tidy entries := by
  intro loc es hes
  cases loc with
  | nil =>
    cases hes
    exact hnamed
  | cons name loc =>
    rw [lookup?_cons] at hes
    obtain ⟨x, hx, hin⟩ := Option.bind_eq_some_iff.mp hes
    obtain ⟨inner, rfl⟩ := exists_folder_of_inside? hin
    exact hinner name inner hx loc es (inside?_folder inner loc ▸ hin)

mutual

/-- Are the folders among the entries tidy? -/
def isTidyInside : List (String × Entry) → Bool
  | [] => true
  | (_, e) :: rest => isTidy e && isTidyInside rest

/-- Is the entry tidy, when it is a folder? -/
def isTidy : Entry → Bool
  | .folder inner => decide (Named inner) && isTidyInside inner
  | _ => true

end

mutual

theorem tidy_of_isTidy : ∀ e : Entry, e.isTidy = true → ∀ inner, e = .folder inner → Tidy inner
  | .folder inner, h, _, rfl => by
    rw [isTidy, Bool.and_eq_true_iff, decide_eq_true_iff] at h
    exact .mk h.1 (tidy_of_isTidyInside inner h.2)

theorem tidy_of_isTidyInside : ∀ entries : List (String × Entry), isTidyInside entries = true →
    ∀ name inner, entries.lookup name = some (.folder inner) → Tidy inner
  | (n, e) :: rest, h, name, inner, hlookup => by
    rw [isTidyInside, Bool.and_eq_true_iff] at h
    rw [lookup_cons_eq] at hlookup
    split at hlookup
    · exact tidy_of_isTidy e h.1 inner (Option.some.inj hlookup)
    · exact tidy_of_isTidyInside rest h.2 name inner hlookup

end

theorem map_fst_setName (name : String) (e : Entry) (entries : List (String × Entry)) :
    (setName name e entries).map Prod.fst =
      if name ∈ entries.map Prod.fst then entries.map Prod.fst
      else entries.map Prod.fst ++ [name] := by
  induction entries with
  | nil => simp [setName]
  | cons head rest ih =>
    by_cases hhead : head.1 = name
    · simp [setName, hhead]
    · simp only [setName, hhead, if_false, List.map_cons, ih, List.mem_cons, Ne.symm hhead,
        false_or]
      split <;> simp

theorem Named.setName (h : Named entries) (hname : IsName name) :
    Named (setName name e entries) := by
  unfold Named
  rw [map_fst_setName]
  split
  · exact h
  · next hnew =>
    refine ⟨List.Nodup.append h.1 (List.nodup_singleton name) (by simpa using hnew), ?_⟩
    intro n hn
    rcases List.mem_append.mp hn with hn | hn
    · exact h.2 n hn
    · exact List.mem_singleton.mp hn ▸ hname

theorem Tidy.put (h : Tidy entries) (hname : ∀ name, loc.getLast? = some name → IsName name)
    (he : ∀ inner, e = .folder inner → Tidy inner) : Tidy (put e loc entries) := by
  induction loc generalizing entries with
  | nil => exact h
  | cons name rest ih =>
    cases rest with
    | nil =>
      refine .mk (h.named.setName (hname name rfl)) fun n inner hinner => ?_
      rw [Entry.put, lookup_setName] at hinner
      split at hinner
      · exact he inner (Option.some.inj hinner)
      · exact h.folder hinner
    | cons next rest =>
      rw [put_cons_cons]
      refine .mk ?_ fun n inner hinner => ?_
      · unfold Named
        rw [map_fst_mapAt]
        exact h.named
      · rw [lookup_mapAt] at hinner
        split at hinner
        · obtain ⟨x, hx, hfolder⟩ := Option.map_eq_some_iff.mp hinner
          cases x with
          | folder es =>
            cases hfolder
            exact ih (h.folder hx) fun name hlast => hname name (by simpa using hlast)
          | file => cases hfolder
          | link => cases hfolder
        · exact h.folder hinner

theorem Tidy.remove (h : Tidy entries) (loc : Location) : Tidy (remove loc entries) := by
  induction loc generalizing entries with
  | nil => exact h
  | cons name rest ih =>
    cases rest with
    | nil =>
      have hsub : List.Sublist ((entries.filter (·.1 ≠ name)).map Prod.fst)
          (entries.map Prod.fst) := List.filter_sublist.map Prod.fst
      refine .mk ⟨h.named.1.sublist hsub, fun n hn => h.named.2 n (hsub.subset hn)⟩ ?_
      intro n inner hinner
      rw [Entry.remove, lookup_filter_ne] at hinner
      split at hinner
      · cases hinner
      · exact h.folder hinner
    | cons next rest =>
      rw [remove_cons_cons]
      refine .mk ?_ fun n inner hinner => ?_
      · unfold Named
        rw [map_fst_mapAt]
        exact h.named
      · rw [lookup_mapAt] at hinner
        split at hinner
        · obtain ⟨x, hx, hfolder⟩ := Option.map_eq_some_iff.mp hinner
          cases x with
          | folder es =>
            cases hfolder
            exact ih (h.folder hx)
          | file => cases hfolder
          | link => cases hfolder
        · exact h.folder hinner

end Entry

theorem way_dropLast {way loc : Location} (hway : way <+: loc) (hne : way ≠ loc) :
    way <+: loc.dropLast := by
  obtain ⟨rest, rfl⟩ := hway
  have hrest : rest ≠ [] := fun h => hne (by simp [h])
  rw [List.dropLast_append_of_ne_nil hrest]
  exact List.prefix_append way rest.dropLast

/-- A place on the way to one below a folder is on the way to the folder, or below it. -/
theorem way_append_cases {way base names : Location} (h : way <+: base ++ names) :
    way <+: base ∨ ∃ more, more ≠ [] ∧ more <+: names ∧ way = base ++ more := by
  rcases List.prefix_or_prefix_of_prefix h (List.prefix_append base names) with habove | ⟨more, rfl⟩
  · exact .inl habove
  · by_cases hmore : more = []
    · exact .inl (by simp [hmore])
    · exact .inr ⟨more, hmore, (List.prefix_append_right_inj base).mp h, rfl⟩

theorem not_way_dropLast {loc : Location} (hloc : loc ≠ []) : ¬ loc <+: loc.dropLast := by
  intro hway
  have hlength := hway.length_le
  have hpos := List.length_pos_iff.mpr hloc
  rw [List.length_dropLast] at hlength
  omega

namespace Disk

variable {d d' : Disk} {loc rest : Location} {name : String} {s : Shape}

/-- What is at a location. -/
def shape? (d : Disk) (loc : Location) : Option Shape := (d.at? loc).map Entry.shape

theorem at?_eq (d : Disk) (loc : Location) : d.at? loc = (Entry.folder d.top).inside? loc :=
  (Entry.inside?_folder d.top loc).symm

theorem at?_append (d : Disk) (loc rest : Location) :
    d.at? (loc ++ rest) = (d.at? loc).bind (·.inside? rest) := by
  rw [at?_eq, at?_eq, Entry.inside?_append]

@[simp] theorem shape?_nil (d : Disk) : d.shape? [] = some .folder := rfl

theorem shape?_eq_none : d.shape? loc = none ↔ d.at? loc = none := Option.map_eq_none_iff

theorem shape?_eq_file {content : ByteArray} :
    d.shape? loc = some (.file content) ↔ d.at? loc = some (.file content) := by
  unfold shape?
  cases d.at? loc with
  | none => simp
  | some e => cases e <;> simp [Entry.shape]

theorem shape?_eq_link {target : String} :
    d.shape? loc = some (.link target) ↔ d.at? loc = some (.link target) := by
  unfold shape?
  cases d.at? loc with
  | none => simp
  | some e => cases e <;> simp [Entry.shape]

theorem shape?_eq_folder :
    d.shape? loc = some .folder ↔ ∃ entries, d.at? loc = some (.folder entries) := by
  unfold shape?
  cases d.at? loc with
  | none => simp
  | some e => cases e <;> simp [Entry.shape]

/-- Whatever is there lies in folders. -/
theorem shape?_folder_of_append (hrest : rest ≠ []) (h : d.shape? (loc ++ rest) ≠ none) :
    d.shape? loc = some .folder := by
  obtain ⟨name, rest, rfl⟩ := List.exists_cons_of_ne_nil hrest
  rw [Ne, shape?_eq_none, at?_append] at h
  obtain ⟨x, hx⟩ := Option.ne_none_iff_exists'.mp h
  obtain ⟨e, he, hin⟩ := Option.bind_eq_some_iff.mp hx
  obtain ⟨entries, rfl⟩ := Entry.exists_folder_of_inside?_cons hin
  exact shape?_eq_folder.mpr ⟨entries, he⟩

theorem shape?_append_of_ne_folder (hrest : rest ≠ []) (h : d.shape? loc ≠ some .folder) :
    d.shape? (loc ++ rest) = none :=
  not_not.mp fun hsome => h (shape?_folder_of_append hrest hsome)

/-- The way to a folder leads through folders. -/
theorem shape?_folder_of_way {way : Location} (hway : way <+: loc)
    (hloc : d.shape? loc = some .folder) : d.shape? way = some .folder := by
  obtain ⟨rest, rfl⟩ := hway
  by_cases hrest : rest = []
  · rwa [hrest, List.append_nil] at hloc
  · exact shape?_folder_of_append hrest (by simp [hloc])

/-- A file or an empty folder in a folder: nothing else changes but what was below it. -/
theorem shape?_put (hloc : loc ≠ []) (hfolder : d.shape? loc.dropLast = some .folder) {e : Entry}
    (he : ∀ inner, e = .folder inner → inner = []) (target : Location) :
    (d.put loc e).shape? target =
      if target = loc then some e.shape else if loc <+: target then none else d.shape? target := by
  obtain ⟨inner, hinner⟩ := shape?_eq_folder.mp hfolder
  refine (Entry.shape_lookup?_put hloc hinner target).trans ?_
  by_cases hbelow : loc <+: target
  · obtain ⟨rest, rfl⟩ := hbelow
    have hin : e.inside? rest = if rest = [] then some e else none := by
      cases e with
      | file content => exact Entry.inside?_file content rest
      | link t => cases rest <;> rfl
      | folder es => rw [he es rfl, Entry.inside?_folder, Entry.lookup?_empty]
    by_cases hrest : rest = [] <;> simp [hin, hrest]
  · have hne : target ≠ loc := fun h => hbelow (h ▸ List.prefix_refl _)
    simp [hbelow, hne, shape?, at?]

theorem shape?_remove (hloc : loc ≠ []) (target : Location) :
    (d.remove loc).shape? target = if loc <+: target then none else d.shape? target :=
  Entry.shape_lookup?_remove hloc target

/-- The names on the disk are proper, and none occurs twice in one folder. -/
def Tidy (d : Disk) : Prop := Entry.Tidy d.top

theorem tidy_of_isTidy (h : (Entry.folder d.top).isTidy = true) : d.Tidy :=
  Entry.tidy_of_isTidy (.folder d.top) h d.top rfl

theorem Tidy.remove (h : d.Tidy) (loc : Location) : (d.remove loc).Tidy := Entry.Tidy.remove h loc

theorem Tidy.put (h : d.Tidy) (hname : ∀ name, loc.getLast? = some name → IsName name) {e : Entry}
    (he : ∀ inner, e = .folder inner → inner = []) : (d.put loc e).Tidy :=
  Entry.Tidy.put h hname fun inner hinner => by
    rw [he inner hinner]
    exact .mk ⟨List.nodup_nil, by simp⟩ (by simp)

/-- In a tidy disk, what is there has proper names. -/
theorem Tidy.isName (h : d.Tidy) (hsome : d.shape? loc ≠ none) : ∀ name ∈ loc, IsName name := by
  intro name hname
  obtain ⟨before, after, rfl⟩ := List.append_of_mem hname
  rw [← List.singleton_append, ← List.append_assoc] at hsome
  have hname : d.shape? (before ++ [name]) ≠ none := by
    by_cases hafter : after = []
    · simpa [hafter] using hsome
    · rw [shape?_folder_of_append hafter hsome]
      simp
  obtain ⟨entries, hentries⟩ :=
    shape?_eq_folder.mp (shape?_folder_of_append (List.cons_ne_nil name []) hname)
  refine (h before entries hentries).2 name ?_
  rw [Ne, shape?_eq_none, at?_append, hentries, Option.bind_some, Entry.inside?_folder,
    Entry.lookup?_cons] at hname
  cases hlookup : entries.lookup name with
  | none => simp [hlookup] at hname
  | some e =>
    obtain ⟨l₁, l₂, hsplit, -⟩ := List.lookup_eq_some_iff.mp hlookup
    rw [hsplit]
    simp

end Disk

end ScriptModules
