import ScriptModules.Convert
import ScriptModules.Proofs.Input.Finding
import ScriptModules.Proofs.Link.Ingest
import ScriptModules.Proofs.Merge.Passes
import ScriptModules.Proofs.Verify

/-!
# The output namespace

With the registry on, no two files of an output have the same stem, and none has the name of a
folder, both without regard to case (`CollisionFree`).

A claim is answered with a key whose stem the registry did not know, and which lies in the same
folders as the path that it was claimed for (`claim_ok`, `claimPart_ok`). So each script keeps what
is `Registered`, and with it all of them do (`ingestAll_registered`). That the folders of all paths
are reserved to begin with is because both walks, the one for scripts and the one for folders, meet
the same folders (`reserved_of_mem_scriptsBelow`).
-/

namespace ScriptModules

variable {key path t : String} {parts folders taken : List String}

/-! ## Keys and their folders -/

/-- The key is these names, joined by slashes. -/
structure Joined (key : String) (parts : List String) : Prop where
  names : ∀ c ∈ parts, Component isSeparator c
  nonempty : parts ≠ []
  text : key = "/".intercalate parts

theorem Joined.ofString_eq (h : Joined key parts) : Path.ofString key = ⟨.none, parts⟩ := by
  rw [h.text]
  exact ofString_intercalate fun c hc => (h.names c hc).slash

theorem Joined.keyPath_eq (h : Joined key parts) : keyPath key = ⟨.none, parts⟩ := by
  rw [h.text]
  exact keyPath_intercalate h.names

/-- Putting something behind the stem of a key leaves its folders as they are. -/
theorem Joined.retitle (h : Joined key parts) (ht : Plain t) (hne : t ≠ "") :
    ∃ key' name, retitle key (· ++ t) = .ok key' ∧ Joined key' (parts.dropLast ++ [name]) := by
  obtain ⟨folders, last, rfl⟩ := (List.eq_nil_or_concat' parts).resolve_left h.nonempty
  have hname : (keyPath key).name = last := by
    rw [h.keyPath_eq]
    simp [Path.name]
  have hlast : Component isSeparator last := h.names last (by simp)
  have hnew : Component isSeparator ((keyPath key).stem ++ t ++ (keyPath key).suffix) := by
    rw [Path.stem, Path.suffix, hname]
    exact hlast.retitled ht hne
  have hretitle := retitle_of_component (hname ▸ hlast.ne_empty) hnew
  refine ⟨_, (keyPath key).stem ++ t ++ (keyPath key).suffix, hretitle, ?_, by simp, ?_⟩
  · intro c hc
    rw [List.dropLast_concat] at hc
    rcases List.mem_append.mp hc with hc | hc
    · exact h.names c (List.mem_append_left _ hc)
    · exact List.mem_singleton.mp hc ▸ hnew
  · rw [retitled, retitledParts, h.keyPath_eq]

/-- The key lies in folders of these names only. -/
def Within (folders : List String) (key : String) : Prop :=
  ∃ parts, Joined key parts ∧ ∀ f ∈ parts.dropLast, f ∈ folders

theorem Within.retitle (h : Within folders key) (ht : Plain t) (hne : t ≠ "") :
    ∃ key', retitle key (· ++ t) = .ok key' ∧ Within folders key' := by
  obtain ⟨parts, hjoined, hinside⟩ := h
  obtain ⟨key', name, hretitle, hjoined⟩ := hjoined.retitle ht hne
  exact ⟨key', hretitle, _, hjoined, by rwa [List.dropLast_concat]⟩

/-! ## Answers of the registry -/

namespace Registry

variable {r r' : Registry}

theorem claim_ok (hpath : Within folders path) (h : (r.claim path taken).value = (r', .ok key)) :
    r.Answer taken r' key ∧ Within folders key := by
  obtain ⟨hanswer, rfl | ⟨n, hn⟩⟩ := claim_cases h
  · exact ⟨hanswer, hpath⟩
  · obtain ⟨key', hretitle, hwithin⟩ :=
      hpath.retitle (numbering_counterText.plain n) (counterText_ne_empty n)
    rw [hretitle] at hn
    cases hn
    exact ⟨hanswer, hwithin⟩

theorem claimPart_ok {index : Int} {part : String} (hkey : Within folders key)
    (h : (r.claimPart key index taken).value = (r', .ok part)) :
    r.Answer taken r' part ∧ Within folders part := by
  obtain ⟨hanswer, m, hm, -⟩ := claimPart_cases h
  obtain ⟨key', hretitle, hwithin⟩ := hkey.retitle ((numbering_dotted index).plain m) (by simp)
  rw [hretitle] at hm
  cases hm
  exact ⟨hanswer, hwithin⟩

end Registry

/-! ## Taking in scripts -/

/-- A part that was added is the last of the files. -/
theorem State.addPart_ok {s s' : State} {policy : DuplicatePolicy} {name : String} {p : Part}
    (hkey : key ∉ s.files.keys) (h : (s.addPart policy key name p).value = (s', .ok ())) :
    s'.files.keys = s.files.keys ++ [key] := by
  rcases addPart_keys hkey h with ⟨hkeys, -⟩ | ⟨-, fault, hfault⟩
  · exact hkeys
  · cases hfault

namespace Linkage

variable {l l' : Linkage} {parser : Parser} {o : IngestOptions}

/-- The registry knows the stems of all files and the reserved names of folders, these are all
different, and the files lie in reserved folders only. -/
structure Registered (folders : List String) (l : Linkage) : Prop where
  enabled : l.registry.enabled = true
  reserved : ∀ f ∈ folders, lowercase f ∈ l.registry.names
  known : ∀ key ∈ l.state.files.keys, stemKey key ∈ l.registry.names
  stems : (l.state.files.keys.map stemKey).Nodup
  apart : ∀ key ∈ l.state.files.keys, ∀ f ∈ folders, stemKey key ≠ lowercase f
  inside : ∀ key ∈ l.state.files.keys, Within folders key

/-- The registry has given out the key, and no file has it yet. -/
structure Vacant (folders : List String) (l : Linkage) (key : String) : Prop where
  known : stemKey key ∈ l.registry.names
  fresh : stemKey key ∉ l.state.files.keys.map stemKey
  apart : ∀ f ∈ folders, stemKey key ≠ lowercase f
  inside : Within folders key

/-- An answer of the registry is a key for a new file. -/
theorem Registered.answer {r : Registry} (h : l.Registered folders)
    (hanswer : l.registry.Answer l.state.files.keys r key)
    (hinside : Within folders key) :
    Registered folders ⟨l.state, r⟩ ∧ Vacant folders ⟨l.state, r⟩ key := by
  have hgrown : ∀ n ∈ l.registry.names, n ∈ r.names := fun n hn => (hanswer.names n).mpr (.inl hn)
  have hnew : stemKey key ∉ l.registry.names :=
    (Registry.collides_eq_false_iff.mp hanswer.free).2 h.enabled
  constructor
  · exact ⟨hanswer.enabled.trans h.enabled, fun f hf => hgrown _ (h.reserved f hf),
      fun k hk => hgrown _ (h.known k hk), h.stems, h.apart, h.inside⟩
  · refine ⟨(hanswer.names _).mpr (.inr rfl), fun hmem => ?_, fun f hf heq => ?_, hinside⟩
    · obtain ⟨k, hk, heq⟩ := List.mem_map.mp hmem
      exact hnew (heq ▸ h.known k hk)
    · exact hnew (heq ▸ h.reserved f hf)

/-- A new file under a vacant key keeps everything registered. -/
theorem Registered.add {s : State} (h : l.Registered folders) (hkey : l.Vacant folders key)
    (hkeys : s.files.keys = l.state.files.keys ++ [key]) : Registered folders ⟨s, l.registry⟩ := by
  have hall : ∀ {P : String → Prop}, (∀ k ∈ l.state.files.keys, P k) → P key →
      ∀ k ∈ s.files.keys, P k := by
    intro P hold hnew k hk
    rw [hkeys] at hk
    rcases List.mem_append.mp hk with hk | hk
    · exact hold k hk
    · exact List.mem_singleton.mp hk ▸ hnew
  refine ⟨h.enabled, h.reserved, hall h.known hkey.known, ?_, hall h.apart hkey.apart,
    hall h.inside hkey.inside⟩
  show (s.files.keys.map stemKey).Nodup
  rw [hkeys, List.map_append, List.map_singleton, ← List.concat_eq_append]
  exact h.stems.concat hkey.fresh

theorem partKey_registered {index : Nat} {part : String} (hl : l.Registered folders)
    (hkey : Within folders key) (hvacant : index = 0 → l.Vacant folders key)
    (h : (l.partKey key index).value = (l', .ok part)) :
    l'.Registered folders ∧ l'.Vacant folders part := by
  unfold partKey at h
  split at h
  · next hzero =>
    cases h
    exact ⟨hl, hvacant hzero⟩
  · rw [Logged.value_bind] at h
    generalize hclaim : (l.registry.claimPart key index l.state.files.keys).value = r at h
    obtain ⟨r, claimed⟩ := r
    cases h
    obtain ⟨hanswer, hwithin⟩ := Registry.claimPart_ok hkey hclaim
    exact hl.answer hanswer hwithin

theorem addParts_registered {name : String} {index : Nat} {ps : List Part} {keys : List String}
    (hl : l.Registered folders) (hkey : Within folders key)
    (hvacant : index = 0 → l.Vacant folders key)
    (h : (addParts o name key index ps l).value = (l', .ok keys)) : l'.Registered folders := by
  induction ps generalizing index l keys with
  | nil =>
    cases h
    exact hl
  | cons p ps ih =>
    rw [addParts, Logged.value_bind] at h
    generalize hpart : (l.partKey key index).value = r at h
    obtain ⟨l₁, fault | part⟩ := r
    · cases h
    · obtain ⟨hl₁, hvacant₁⟩ := partKey_registered hl hkey hvacant hpart
      simp only [Logged.value_bind] at h
      generalize hadd : (l₁.state.addPart o.policy part name p).value = r at h
      obtain ⟨s, fault | ⟨⟩⟩ := r
      · cases h
      · have habsent : part ∉ l₁.state.files.keys := fun hmem =>
          hvacant₁.fresh (List.mem_map_of_mem hmem)
        have hl₂ := hl₁.add hvacant₁ (State.addPart_ok habsent hadd)
        simp only [Logged.value_bind] at h
        generalize hrest : (addParts o name key (index + 1) ps ⟨s, l₁.registry⟩).value = r at h
        obtain ⟨l₃, fault | rest⟩ := r
        · cases h
        · cases h
          exact ih hl₂ (by simp) hrest

theorem ingest_registered {i : Input} {keys : List String} (hl : l.Registered folders)
    (hname : Within folders i.name) (h : (l.ingest parser o i).value = (l', .ok keys)) :
    l'.Registered folders := by
  rw [ingest, Logged.value_bind] at h
  generalize hclaim : (l.registry.claim i.name l.state.files.keys).value = r at h
  obtain ⟨r, fault | key⟩ := r
  · cases h
  · obtain ⟨hanswer, hwithin⟩ := Registry.claim_ok hname hclaim
    obtain ⟨hl₁, hvacant⟩ := hl.answer hanswer hwithin
    simp only at h
    cases hparts : ScriptModules.parts parser o i.content with
    | error reason =>
      rw [hparts] at h
      cases h
      exact ⟨hl₁.enabled, hl₁.reserved, hl₁.known, hl₁.stems, hl₁.apart, hl₁.inside⟩
    | ok ps =>
      simp only [hparts, Logged.value_bind] at h
      generalize hadd : (addParts o i.name key 0 ps ⟨l.state, r⟩).value = result at h
      obtain ⟨l₂, fault | added⟩ := result
      · cases h
      · have hl₂ := addParts_registered hl₁ hwithin (fun _ => hvacant) hadd
        simp only at h
        split at h
        · cases h
          exact hl₂
        · cases h
          exact hl₂

theorem ingestAll_registered {inputs : List Input} (hl : l.Registered folders)
    (hinputs : ∀ i ∈ inputs, Within folders i.name)
    (h : (ingestAll parser o inputs l).value = (l', .ok ())) : l'.Registered folders := by
  induction inputs generalizing l with
  | nil =>
    cases h
    exact hl
  | cons i inputs ih =>
    obtain ⟨hname, hinputs⟩ := List.forall_mem_cons.mp hinputs
    rw [ingestAll, Logged.value_bind, Logged.value_bind] at h
    generalize hrun : (l.ingest parser o i).value = r at h
    obtain ⟨l₁, fault | keys⟩ := r
    · cases h
    · exact ih (ingest_registered hl hname hrun) hinputs h

end Linkage

/-! ## Names without collisions -/

/-- No two keys have the same stem, and no stem is the name of a folder of a key, without regard to
case. -/
structure CollisionFree (keys : List String) : Prop where
  stems : (keys.map stemKey).Nodup
  folders : ∀ key ∈ keys, ∀ other ∈ keys, ∀ f ∈ (Path.ofString other).parts.dropLast,
    stemKey key ≠ lowercase f

theorem CollisionFree.sublist {keys keys' : List String} (h : CollisionFree keys)
    (hsub : keys'.Sublist keys) : CollisionFree keys' :=
  ⟨h.stems.sublist (hsub.map stemKey), fun key hkey other hother =>
    h.folders key (hsub.subset hkey) other (hsub.subset hother)⟩

theorem Linkage.Registered.collisionFree {l : Linkage} (h : l.Registered folders) :
    CollisionFree l.state.files.keys := by
  refine ⟨h.stems, fun key hkey other hother f hf => ?_⟩
  obtain ⟨parts, hjoined, hinside⟩ := h.inside other hother
  rw [hjoined.ofString_eq] at hf
  exact h.apart key hkey f (hinside f hf)

theorem link_registered {parser : Parser} {o : IngestOptions} {r : Registry} {inputs : List Input}
    {l : Linkage} (henabled : r.enabled = true) (hreserved : ∀ f ∈ folders, lowercase f ∈ r.names)
    (hinputs : ∀ i ∈ inputs, Within folders i.name)
    (h : (link parser o r inputs).value = .ok l) : CollisionFree l.state.files.keys := by
  have hstart : Linkage.Registered folders ⟨.empty, r⟩ :=
    ⟨henabled, hreserved, by simp [State.empty], by simp [State.empty], by simp [State.empty],
      by simp [State.empty]⟩
  obtain ⟨l₁, hall, hstate⟩ := link_ok h
  rw [hstate]
  exact (Linkage.ingestAll_registered hstart hinputs hall).collisionFree

/-! ## Both walks meet the same folders -/

namespace Disk

variable {d : Disk} {root : Path} {base names : Location}

theorem mem_namesBelow (htidy : d.Tidy) (hlocate : d.locate root = .ok base) (hne : names ≠ [])
    {entries : List (String × Entry)} (hat : d.at? base = some (.folder entries))
    (hthere : d.at? (base ++ names) ≠ none) : names ∈ d.namesBelow root := by
  obtain ⟨e, he⟩ := Option.ne_none_iff_exists'.mp hthere
  rw [at?_append, hat, Option.bind_some, Entry.inside?_folder] at he
  unfold namesBelow
  rw [list_iff.mpr ⟨base, hlocate, hat⟩]
  refine List.mem_map.mpr ⟨(names, e), ?_, rfl⟩
  exact (Entry.mem_listBelow _ [] entries (htidy.folder hat) names e).mpr
    ⟨names, hne, rfl, he, by simp [Entry.Passable]⟩

/-- The name of a folder that a walk enters is reserved. -/
theorem mem_folderNames (htidy : d.Tidy) {skip : List Path} {name : String} {way : Location}
    (hlocate : d.locate root = .ok base) (hfolders : d.folderNames root skip = .ok folders)
    (hfolder : d.shape? (base ++ (way ++ [name])) = some .folder)
    (hskip : ∀ way', way' ≠ [] → way' <+: way ++ [name] → ⟨.root, base ++ way'⟩ ∉ skip) :
    name ∈ folders := by
  have hbase : d.shape? base = some .folder :=
    shape?_folder_of_way (List.prefix_append _ _) hfolder
  obtain ⟨entries, hat⟩ := shape?_eq_folder.mp hbase
  obtain ⟨inner, hinner⟩ := shape?_eq_folder.mp hfolder
  rw [folderNames_eq hlocate hat, Except.ok.injEq] at hfolders
  rw [← hfolders]
  refine List.mem_map.mpr ⟨way ++ [name],
    List.mem_map.mpr ⟨(way ++ [name], .folder inner), ?_, rfl⟩,
    by simp⟩
  refine List.mem_filter.mpr ⟨?_, enters_iff.mpr ⟨⟨inner, rfl⟩, ?_⟩⟩
  · exact (mem_walked htidy hat).mpr ⟨by simp, hinner, fun way' hne hway _ => hskip way' hne hway⟩
  · exact hskip _ (by simp) (List.prefix_refl _)

/-- The folders on the way to a script are reserved. -/
theorem reserved_of_mem_scriptsBelow (htidy : d.Tidy) {o : FindOptions} {ignores : Location → Bool}
    {paths : List Path} {p : Path} (hpaths : d.scriptsBelow root o ignores = .ok paths)
    (hfolders : d.folderNames root o.skip = .ok folders) (hp : p ∈ paths) :
    ∃ names, names ∈ d.namesBelow root ∧ names ≠ [] ∧ p = under root names ∧
      ∀ f ∈ names.dropLast, f ∈ folders := by
  obtain ⟨base, names, content, hlocate, rfl, hne, hfile, hskip⟩ := mem_scriptsBelow htidy hpaths hp
  have hbase : d.shape? base = some .folder :=
    shape?_folder_of_append hne (by rw [hfile]; simp)
  obtain ⟨entries, hat⟩ := shape?_eq_folder.mp hbase
  have hthere : d.at? (base ++ names) ≠ none := by
    rw [Ne, ← shape?_eq_none, hfile]
    simp
  refine ⟨names, mem_namesBelow htidy hlocate hne hat hthere, hne, rfl, fun f hf => ?_⟩
  obtain ⟨way, after, hsplit⟩ := List.append_of_mem hf
  have hnames : names = way ++ [f] ++ (after ++ [names.getLast hne]) := by
    rw [← List.append_assoc, List.append_assoc way [f] after, List.singleton_append, ← hsplit,
      List.dropLast_append_getLast]
  have hpast : d.shape? (base ++ (way ++ [f]) ++ (after ++ [names.getLast hne])) ≠ none := by
    rw [List.append_assoc, ← hnames, hfile]
    simp
  have hfolder : d.shape? (base ++ (way ++ [f])) = some .folder :=
    shape?_folder_of_append (by simp) hpast
  refine mem_folderNames htidy hlocate hfolders hfolder fun way' hne' hway => ?_
  -- The way to the folder is shorter than the way to the script, so nothing on it is skipped.
  have hlonger : (way ++ [f]).length < names.length := by
    have := congrArg List.length hnames
    simp only [List.length_append, List.length_singleton] at this ⊢
    omega
  refine hskip way' hne' (hway.trans ⟨_, hnames.symm⟩) fun heq => ?_
  exact absurd hway.length_le (by rw [heq]; omega)

end Disk

namespace Job

variable {d : Disk} {j : Job} {p : Path} {i : Input}

/-- A script below the root is taken in under its names below the root. -/
theorem readInput_name {names : Location} (h : j.readInput d (Disk.under j.root names) = .ok i) :
    i.name = "/".intercalate names := by
  simp only [readInput, bind_eq_ok_iff] at h
  obtain ⟨content, -, h⟩ := h
  cases h
  simp [Path.below?, Disk.under]

/-- When files may be renamed, the names of the files that come of all scripts below the root, and
of the folders that they lie in, are different without regard to case, and stay so when files are
folded together. That is so whatever is ignored, and so for what the ignore files say
(`findScripts_iff`). -/
theorem link_collisionFree (d : Disk) (j : Job) (o : FindOptions) (ignores : Location → Bool)
    (parser : Parser) (io : IngestOptions) {paths : List Path} {registry : Registry}
    {inputs : List Input} {l : Linkage} (htidy : d.Tidy) (hrename : j.options.renameDups = true)
    (hnames : ∀ names ∈ d.namesBelow j.root, ∀ name ∈ names, Component isSeparator name)
    (hregistry : j.registry d o.skip = .ok registry)
    (hpaths : d.scriptsBelow j.root o ignores = .ok paths)
    (hinputs : paths.mapM (j.readInput d) = .ok inputs)
    (hlink : (link parser io registry inputs).value = .ok l) :
    CollisionFree l.state.files.keys ∧
      ∀ ro, CollisionFree (l.state.resolve ro).value.1.files.keys := by
  simp only [Job.registry, hrename, if_true, bind_eq_ok_iff] at hregistry
  obtain ⟨folders, hfolders, hseed⟩ := hregistry
  cases hseed
  have henabled : ((Registry.new true).seed folders).enabled = true :=
    (Registry.keeps_seed _ folders).enabled
  have hreserved : ∀ f ∈ folders, lowercase f ∈ ((Registry.new true).seed folders).names :=
    fun f hf => Registry.mem_names_seed _ hf
  have hfree : CollisionFree l.state.files.keys := by
    refine link_registered henabled hreserved (fun i hi => ?_) hlink
    obtain ⟨p, hp, hread⟩ := exists_mem_of_mapM hinputs hi
    obtain ⟨names, hbelow, hne, rfl, hinside⟩ :=
      Disk.reserved_of_mem_scriptsBelow htidy hpaths hfolders hp
    exact ⟨names, ⟨hnames names hbelow, hne, readInput_name hread⟩, hinside⟩
  refine ⟨hfree, fun ro => ?_⟩
  obtain ⟨ms, hrun⟩ := State.resolve_run l.state ro
  exact hfree.sublist hrun.keys_sublist

/-- Scripts that have the name of a folder, or of each other, but for case. -/
def cased : Disk :=
  ⟨[("root", .folder [("Lib.js", .file "var x = 1;\n".toUTF8),
    ("a.js", .file "var y = 1;\nvar z = 2;\n".toUTF8),
    ("lib", .folder [("A.js", .file "x = 2;\n".toUTF8)])])]⟩

/-- A conversion of all of these, which may be renamed. -/
def gathering : Job where
  root := ⟨.root, ["root"]⟩
  options := { Options.default with renameDups := true }
  dest := none
  ignored := []

theorem cased_inOrder : cased.InOrder gathering.root ["root"] [] := by decide +kernel

theorem scriptsBelow_cased :
    cased.scriptsBelow gathering.root ⟨[".js"], [], [], false, []⟩ (isIgnored []) =
      .ok [⟨.root, ["root", "Lib.js"]⟩, ⟨.root, ["root", "a.js"]⟩,
        ⟨.root, ["root", "lib", "A.js"]⟩] := by
  rw [cased_inOrder.scriptsBelow_eq]
  decide +kernel

theorem registry_cased :
    gathering.registry cased [] = .ok ((Registry.new true).seed ["lib"]) := by
  rw [registry, cased_inOrder.folderNames_eq]
  decide +kernel

theorem link_collisionFree_cased :
    (cased.Tidy ∧ gathering.options.renameDups = true ∧
      ∀ names ∈ cased.namesBelow gathering.root, ∀ name ∈ names, Component isSeparator name) ∧
    ∃ paths registry inputs l,
      (∀ ignoring, cased.findScripts ignoring gathering.root ⟨[".js"], [], [], false, []⟩ =
        .ok paths) ∧
      gathering.registry cased [] = .ok registry ∧
      paths.mapM (gathering.readInput cased) = .ok inputs ∧
      (link Script.parse ⟨false, some 12, .last⟩ registry inputs).value = .ok l ∧
      l.state.files.keys = ["Lib000.js", "a.js", "a.1.js", "lib/A001.js"] ∧
      CollisionFree l.state.files.keys ∧
      ∀ ro, CollisionFree (l.state.resolve ro).value.1.files.keys := by
  have htidy : cased.Tidy := Disk.tidy_of_isTidy (by decide +kernel)
  have hnames : ∀ names ∈ cased.namesBelow gathering.root, ∀ name ∈ names,
      Component isSeparator name := by decide +kernel
  obtain ⟨inputs, hinputs, hlinked⟩ := exists_ok_of_any
    (x := [⟨.root, ["root", "Lib.js"]⟩, ⟨.root, ["root", "a.js"]⟩,
      ⟨.root, ["root", "lib", "A.js"]⟩].mapM (gathering.readInput cased))
    (p := fun inputs => (link Script.parse ⟨false, some 12, .last⟩
      ((Registry.new true).seed ["lib"]) inputs).value.toOption.any fun l =>
        l.state.files.keys == ["Lib000.js", "a.js", "a.1.js", "lib/A001.js"])
    (by decide +kernel)
  obtain ⟨l, hlink, hkeys⟩ := exists_ok_of_any hlinked
  have hfound : ∀ ignoring, cased.findScripts ignoring gathering.root
      ⟨[".js"], [], [], false, []⟩ = .ok _ := fun _ => Disk.findScripts_iff.mpr
    ⟨[], Disk.ignoreFiles_eq_nil rfl (by decide +kernel), scriptsBelow_cased⟩
  exact ⟨⟨htidy, rfl, hnames⟩, _, _, inputs, l, hfound, registry_cased, hinputs, hlink,
    eq_of_beq hkeys, link_collisionFree cased gathering ⟨[".js"], [], [], false, []⟩ (isIgnored [])
      Script.parse _ htidy rfl hnames registry_cased scriptsBelow_cased hinputs hlink⟩

end Job

end ScriptModules
