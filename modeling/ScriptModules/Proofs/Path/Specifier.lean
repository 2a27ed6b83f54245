import ScriptModules.Path.Specifier
import ScriptModules.Proofs.Path.Retitle

/-!
# Specifiers lead to their modules

A key is in normal form (`IsKey`) when all that stands between its slashes is a name. `loaded` is
what a loader makes of a specifier: it starts in the folder of the importing module and takes the
components of the specifier by name. The specifier of a module leads to that module
(`exists_specifier`): the route goes up to the last folder that both share, and down from there
(`foldl_route`). It is marked as relative. Because it never climbs above the folder in which both
keys start, it is the same wherever the program runs (`specifier_eq`), and it leads to the module
wherever that folder is (`specifier_resolves`).
-/

namespace ScriptModules

variable {key importer target : String} {parts start goal : List String}

/-! ## Keys in normal form -/

/-- What stands between the slashes of a text. -/
def slashParts (s : String) : List String := (splitWhere (· = '/') s.toList).map String.ofList

/-- The text is a relative path in normal form: no component is empty, a dot or two dots, and none
holds a backslash. -/
def IsKey (key : String) : Prop :=
  ∀ part ∈ slashParts key, part ≠ "" ∧ part ≠ "." ∧ part ≠ ".." ∧ '\\' ∉ part.toList

instance (key : String) : Decidable (IsKey key) := inferInstanceAs (Decidable (∀ part ∈ _, _))

theorem slashParts_ne_nil (s : String) : slashParts s ≠ [] := by
  rw [slashParts, splitWhere_eq_splitOnP]
  simp [List.splitOnP_ne_nil]

theorem intercalate_slashParts (s : String) : "/".intercalate (slashParts s) = s := by
  have hid : (slashParts s).map String.toList = splitWhere (· = '/') s.toList := by
    rw [slashParts, List.map_map]
    exact List.map_id'' (fun cs => String.toList_ofList) _
  refine String.toList_inj.mp ?_
  rw [String.toList_intercalate, hid, splitWhere_eq_splitOnP]
  exact List.intercalate_splitOn '/'

theorem slashParts_intercalate (hne : parts ≠ []) (h : ∀ part ∈ parts, '/' ∉ part.toList) :
    slashParts ("/".intercalate parts) = parts := by
  have hplain : ∀ piece ∈ parts.map String.toList, ∀ c ∈ piece, decide (c = '/') = false := by
    intro piece hpiece c hc
    obtain ⟨part, hpart, rfl⟩ := List.mem_map.mp hpiece
    exact decide_eq_false fun hslash => h part hpart (hslash ▸ hc)
  rw [slashParts, String.toList_intercalate]
  change (splitWhere _ (['/'].intercalate _)).map _ = _
  rw [splitWhere_intercalate (by decide) (by simpa using hne) hplain, List.map_map]
  exact List.map_id'' (fun s => String.ofList_toList) _

theorem slash_notMem_of_mem_slashParts {s part : String} (h : part ∈ slashParts s) :
    '/' ∉ part.toList := by
  obtain ⟨cs, hcs, rfl⟩ := List.mem_map.mp h
  intro hslash
  rw [String.toList_ofList] at hslash
  simpa using plain_of_mem_splitWhere hcs '/' hslash

theorem slashParts_append (s t : String) :
    slashParts (s ++ "/" ++ t) = slashParts s ++ slashParts t := by
  have htext : (s ++ "/" ++ t).toList = s.toList ++ '/' :: t.toList := by simp
  simp only [slashParts, splitWhere_eq_splitOnP, htext]
  rw [List.splitOnP_append_cons _ _ (by decide), List.map_append]

theorem slashParts_injective {s t : String} (h : slashParts s = slashParts t) : s = t := by
  rw [← intercalate_slashParts s, h, intercalate_slashParts]

namespace IsKey

theorem component (h : IsKey key) : ∀ part ∈ slashParts key, Component isSeparator part := by
  intro part hpart
  obtain ⟨hempty, hdot, -, hback⟩ := h part hpart
  refine ⟨hempty, hdot, fun c hc => decide_eq_false fun hsep => ?_⟩
  rcases hsep with rfl | rfl
  · exact slash_notMem_of_mem_slashParts hpart hc
  · exact hback hc

theorem up_notMem (h : IsKey key) : ".." ∉ slashParts key := fun hup => (h _ hup).2.2.1 rfl

theorem normalize_eq (h : IsKey key) : normalize key = key := by
  have hcomponents := components_intercalate (by decide) h.component
  rw [intercalate_slashParts] at hcomponents
  show "/".intercalate (components isSeparator key) = key
  rw [hcomponents, intercalate_slashParts]

theorem ofString_eq (h : IsKey key) : Path.ofString key = ⟨.none, slashParts key⟩ := by
  have := ofString_intercalate fun part hpart => (h.component part hpart).slash
  rwa [intercalate_slashParts] at this

end IsKey

/-! ## Loading -/

/-- Where one component of a specifier leads: two dots lead to the folder above, if there is
one. -/
def loadStep (place : List String) (part : String) : List String :=
  if part = "" ∨ part = "." then place
  else if part = ".." then place.dropLast
  else place ++ [part]

/-- The module that a specifier means in the module `importer`. -/
def loaded (importer spec : String) : String :=
  "/".intercalate ((slashParts spec).foldl loadStep (slashParts importer).dropLast)

theorem loadStep_dot (place : List String) : loadStep place "." = place := rfl

theorem foldl_loadStep_ups (place : List String) (n : Nat) :
    (List.replicate n "..").foldl loadStep place = place.take (place.length - n) := by
  induction n generalizing place with
  | zero => simp
  | succ n ih =>
    rw [List.replicate_succ, List.foldl_cons, ih]
    show place.dropLast.take (place.dropLast.length - n) = _
    rw [List.length_dropLast, List.dropLast_eq_take, List.take_take]
    congr 1
    omega

theorem foldl_loadStep_names (place : List String)
    (h : ∀ c ∈ parts, c ≠ "" ∧ c ≠ "." ∧ c ≠ "..") :
    parts.foldl loadStep place = place ++ parts := by
  induction parts generalizing place with
  | nil => simp
  | cons c parts ih =>
    obtain ⟨⟨hempty, hdot, hup⟩, hparts⟩ := List.forall_mem_cons.mp h
    rw [List.foldl_cons, ih _ hparts, loadStep, if_neg (by simp [hempty, hdot]), if_neg hup]
    simp

/-! ## Routes -/

/-- Names are kept as they are, after whatever place. -/
theorem collapse_append (base : List String) (h : ".." ∉ parts) :
    collapse (base ++ parts) = collapse base ++ parts := by
  have hfold : ∀ place : List String, parts.foldl (fun place part =>
      if part = ".." then place.dropLast else place ++ [part]) place = place ++ parts := by
    induction parts with
    | nil => simp
    | cons c parts ih =>
      intro place
      obtain ⟨hc, hparts⟩ := not_or.mp (mt List.mem_cons.mpr h)
      rw [List.foldl_cons, if_neg (Ne.symm hc), ih hparts]
      simp
  rw [collapse, List.foldl_append]
  exact hfold _

namespace Path

theorem take_shared (as bs : List String) : as.take (shared as bs) = bs.take (shared as bs) := by
  fun_induction shared as bs with
  | case1 as b bs ih => simpa using ih
  | case2 => simp
  | case3 => simp

theorem shared_le (as bs : List String) : shared as bs ≤ as.length := by
  fun_induction shared as bs with
  | case1 as b bs ih => simpa using ih
  | case2 => exact Nat.zero_le _
  | case3 => exact Nat.zero_le _

theorem shared_append (base as bs : List String) :
    shared (base ++ as) (base ++ bs) = base.length + shared as bs := by
  induction base with
  | nil => simp
  | cons c base ih =>
    simp only [List.cons_append, shared, if_true, ih, List.length_cons]
    omega

/-- The folders in which start and goal both are do not matter for the route. -/
theorem route_append (base start goal : List String) :
    route (base ++ start) (base ++ goal) = route start goal := by
  have hups : (base ++ start).length - (base.length + shared start goal) =
      start.length - shared start goal := by
    rw [List.length_append]
    omega
  rw [route, shared_append, hups, List.drop_length_add_append]
  rfl

/-- The route goes up as far as the part that is not shared, and down the rest of the goal. It
leaves alone the folders `base` in which start and goal are. -/
theorem foldl_route (base : List String) (h : ∀ c ∈ goal, c ≠ "" ∧ c ≠ "." ∧ c ≠ "..") :
    (route start goal).foldl loadStep (base ++ start) = base ++ goal := by
  have hle := shared_le start goal
  have hups : (base ++ start).length - (start.length - shared start goal) =
      base.length + shared start goal := by
    rw [List.length_append]
    omega
  rw [route, List.foldl_append, foldl_loadStep_ups, hups, List.take_length_add_append,
    foldl_loadStep_names _ fun c hc => h c (List.mem_of_mem_drop hc), take_shared,
    List.append_assoc, List.take_append_drop]

/-- All that a route goes through is two dots or a name of its goal. -/
theorem mem_route {c : String} (h : c ∈ route start goal) : c = ".." ∨ c ∈ goal := by
  rcases List.mem_append.mp h with hc | hc
  · exact .inl (List.eq_of_mem_replicate hc)
  · exact .inr (List.mem_of_mem_drop hc)

end Path

/-- A route leads as far when it is written out. -/
theorem foldl_written (place : List String) (h : ∀ c ∈ parts, '/' ∉ c.toList) :
    (slashParts (written parts)).foldl loadStep place = parts.foldl loadStep place := by
  unfold written
  split
  · next hempty =>
    rw [hempty]
    rfl
  · next hne => rw [slashParts_intercalate hne h]

/-- The mark in front of a specifier changes nothing about where it leads. -/
theorem loaded_marked {text : String}
    (h : (slashParts text).foldl loadStep (slashParts importer).dropLast = slashParts target) :
    loaded importer (marked text) = target := by
  have hdot : slashParts ("./" ++ text) = "." :: slashParts text := slashParts_append "." text
  unfold loaded marked
  split
  · rw [h, intercalate_slashParts]
  · rw [hdot, List.foldl_cons, loadStep_dot, h, intercalate_slashParts]

/-- The specifier of a module is the written route from the folder of the importing one, behind a
mark. It does not depend on the folder in which the program runs. -/
theorem specifier_eq (current : Path) (hi : IsKey importer) (ht : IsKey target) :
    specifier current importer target =
      .ok (marked (written (Path.route (slashParts importer).dropLast (slashParts target)))) := by
  have hup : ".." ∉ (slashParts importer).dropLast := fun h =>
    hi.up_notMem (List.dropLast_subset _ h)
  unfold specifier
  rw [hi.normalize_eq, ht.normalize_eq, hi.ofString_eq, ht.ofString_eq]
  simp only
  rw [if_neg (slashParts_ne_nil _), collapse_append _ hup, collapse_append _ ht.up_notMem,
    Path.route_append]

/-- The route leads to the module from the folder of the importing one, in whatever folders `base`
the two are. -/
theorem foldl_written_route (base : List String) (ht : IsKey target) :
    (slashParts (written (Path.route start (slashParts target)))).foldl loadStep (base ++ start) =
      base ++ slashParts target := by
  have hnames : ∀ c ∈ slashParts target, c ≠ "" ∧ c ≠ "." ∧ c ≠ ".." := fun c hc =>
    ⟨(ht c hc).1, (ht c hc).2.1, (ht c hc).2.2.1⟩
  have hslash : ∀ c ∈ Path.route start (slashParts target), '/' ∉ c.toList := by
    intro c hc
    rcases Path.mem_route hc with rfl | hc
    · decide
    · exact slash_notMem_of_mem_slashParts hc
  rw [foldl_written _ hslash, Path.foldl_route base hnames]

/-- A module can be named in every other one, and the name leads to it. -/
theorem exists_specifier (current : Path) (hi : IsKey importer) (ht : IsKey target) :
    ∃ spec, specifier current importer target = .ok spec ∧ loaded importer spec = target :=
  ⟨_, specifier_eq current hi ht, loaded_marked (foldl_written_route [] ht)⟩

/-- A specifier starts with one of the two marks of a relative path. -/
theorem marked_relative (text : String) :
    "./".toList <+: (marked text).toList ∨ "../".toList <+: (marked text).toList := by
  unfold marked
  split
  · next hup => exact .inr (String.startsWith_string_iff.mp hup)
  · exact .inl ⟨text.toList, (String.toList_append).symm⟩

/-- A module can be named in every other one, by the same name wherever the program runs. The name
is marked as relative, and it leads to the module: from the importing module as it is, and with both
of them in any folder `base`, which the name does not leave. -/
theorem specifier_resolves (importer target : String) (hi : IsKey importer) (ht : IsKey target) :
    ∃ spec, (∀ current, specifier current importer target = .ok spec) ∧
      ("./".toList <+: spec.toList ∨ "../".toList <+: spec.toList) ∧
      loaded importer spec = target ∧
      ∀ base, loaded (base ++ "/" ++ importer) spec = base ++ "/" ++ target := by
  refine ⟨_, fun current => specifier_eq current hi ht, marked_relative _,
    loaded_marked (foldl_written_route [] ht), fun base => loaded_marked ?_⟩
  rw [slashParts_append, slashParts_append,
    List.dropLast_append_of_ne_nil (slashParts_ne_nil importer)]
  exact foldl_written_route (slashParts base) ht

/-- A folder whose name begins with two dots is not taken for a step up: the specifier still gets
its mark, and leads into that folder. -/
theorem specifier_resolves_dotted : IsKey "lib/a.js" ∧ IsKey "lib/..x/y.js" ∧
    (∀ current, specifier current "lib/a.js" "lib/..x/y.js" = .ok "./..x/y.js") ∧
    loaded "lib/a.js" "./..x/y.js" = "lib/..x/y.js" ∧
    loaded "app/lib/a.js" "./..x/y.js" = "app/lib/..x/y.js" := by
  have hi : IsKey "lib/a.js" := by decide +kernel
  have ht : IsKey "lib/..x/y.js" := by decide +kernel
  have hvalue : specifier ⟨.root, []⟩ "lib/a.js" "lib/..x/y.js" = .ok "./..x/y.js" := by
    with_unfolding_all rfl
  obtain ⟨spec, hspec, -, hleads, hbase⟩ := specifier_resolves "lib/a.js" "lib/..x/y.js" hi ht
  obtain rfl : "./..x/y.js" = spec := Except.ok.inj (hvalue.symm.trans (hspec _))
  exact ⟨hi, ht, hspec, hleads, hbase "app"⟩

end ScriptModules
