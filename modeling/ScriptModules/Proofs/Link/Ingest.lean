import ScriptModules.Proofs.Data.Table
import ScriptModules.Proofs.Link.Partition
import ScriptModules.Proofs.Link.Parts
import ScriptModules.Proofs.Names.Registry
import ScriptModules.Script.Parse

/-!
# Taking in scripts loses nothing

A script is taken in whole or not at all. `Ingested` says what a list of scripts does to the
tables: each adds a block of files at their end, whose texts make up what is kept of the script,
and each that is `Rejected` adds none and is noted. Every step is described by what came of it:

* `addPart_outcome`: a part whose key is new is placed, whatever becomes of its names;
* `addParts_outcome`: the parts of a script get keys that no file has;
* `ingest_rejected`, `ingest_accepted`: a script adds nothing, or all of its parts;
* `ingestAll_outcome`: scripts add their blocks one after the other.

Main statement: `link_lossless`. What can still end a conversion is a part that `Stops` it.
-/

namespace ScriptModules

variable {parser : Parser} {o : IngestOptions} {name key text : String}

/-! ## Adding a part -/

namespace State

variable {s s' t : State} {policy : DuplicatePolicy} {n : String} {fault : LinkFault}

/-- A declaration that fails changes nothing; it fails because duplicates are errors. -/
theorem define_error (h : (s.define policy key n).value = (s', .error fault)) :
    s' = s ∧ policy = .error ∧ ∃ existing, fault = .duplicateDefinition n existing key := by
  unfold define at h
  split at h
  · cases h
  · next existing he =>
    split at h
    · cases h
    · cases policy with
      | last => cases h
      | first => cases h
      | error =>
        cases h
        exact ⟨rfl, rfl, existing, rfl⟩

theorem defineAll_error (names : List String) (s : State)
    (h : (defineAll policy key s names).value = (s', .error fault)) :
    OnlySymbols s s' ∧ policy = .error ∧
      ∃ n ∈ names, ∃ existing, fault = .duplicateDefinition n existing key := by
  induction names generalizing s with
  | nil => cases h
  | cons n names ih =>
    rw [defineAll, Logged.value_bind] at h
    generalize hd : (s.define policy key n).value = r at h
    obtain ⟨s₁, (f | ⟨⟩)⟩ := r
    · cases h
      obtain ⟨rfl, hp, existing, rfl⟩ := define_error hd
      exact ⟨rfl, hp, n, by simp, existing, rfl⟩
    · obtain ⟨honly, hp, m, hm, hfault⟩ := ih s₁ h
      exact ⟨(define_ok hd).only.trans honly, hp, m, by simp [hm], hfault⟩

/-- A part whose key is new is placed; after that only symbols change. -/
theorem addPartition_outcome (hkey : key ∉ s.files.keys) (policy : DuplicatePolicy)
    (text source : String) (a : Analysis) : ∃ s' r,
    (s.addPartition policy key text source a).value = (s', r) ∧
      OnlySymbols (s.place key text source) s' ∧
      (r = .ok () ∨ policy = .error ∧ ∃ n ∈ a.declarations, ∃ existing,
        r = .error (.duplicateDefinition n existing key)) := by
  unfold addPartition
  simp only [Table.contains_eq_false hkey, Bool.false_eq_true, if_false, fold, Logged.value_bind]
  generalize hd : (defineAll policy key (s.place key text source) a.declarations).value = r
  obtain ⟨s₁, (fault | ⟨⟩)⟩ := r
  · obtain ⟨honly, hp, n, hn, existing, rfl⟩ := defineAll_error _ _ hd
    exact ⟨s₁, _, rfl, honly, .inr ⟨hp, n, hn, existing, rfl⟩⟩
  · refine ⟨_, _, rfl, ?_, .inl rfl⟩
    rw [Logged.value_foldlM]
    exact (defineAll_ok _ _ hd).only.trans (foldl_use_used key _ s₁).only

/-- Why a part of a script stops the conversion: duplicates are errors and it declares a name, or
a name in it is no text. -/
inductive Stops (policy : DuplicatePolicy) (p : Part) : LinkFault → Prop
  | duplicate {a : Analysis} {n : String} (h : policy = .error)
    (ha : Scope.ofSource p.source p.root = .ok a) (hn : n ∈ a.declarations)
    (existing key : String) : Stops policy p (.duplicateDefinition n existing key)
  | undecodable {fault : Utf8.Fault} (h : Scope.ofSource p.source p.root = .error fault) :
    Stops policy p (.undecodable fault)

theorem addPart_outcome (hkey : key ∉ s.files.keys) (policy : DuplicatePolicy) (name : String)
    {p : Part} (htext : p.source = text.toUTF8) : ∃ s' r,
    (s.addPart policy key name p).value = (s', r) ∧ OnlySymbols (s.place key text name) s' ∧
      (r = .ok () ∨ ∃ fault, r = .error fault ∧ Stops policy p fault) := by
  have hdecode : Utf8.decode p.source = .ok text := Utf8.decode_eq_ok_iff.mpr htext
  unfold addPart
  simp only [hdecode]
  cases ha : Scope.ofSource p.source p.root with
  | error fault =>
    simp only [Table.contains_eq_false hkey]
    exact ⟨_, _, rfl, rfl, .inr ⟨_, rfl, .undecodable ha⟩⟩
  | ok a =>
    obtain ⟨s', r, hrun, honly, hr⟩ := addPartition_outcome hkey policy text name a
    refine ⟨s', r, hrun, honly, ?_⟩
    rcases hr with rfl | ⟨hp, n, hn, existing, rfl⟩
    · exact .inl rfl
    · exact .inr ⟨_, rfl, .duplicate hp ha hn existing key⟩

/-- A part whose key is new becomes the last of the files, unless it is no text. -/
theorem addPart_keys {p : Part} {r : Except LinkFault Unit} (hkey : key ∉ s.files.keys)
    (h : (s.addPart policy key name p).value = (s', r)) :
    s'.files.keys = s.files.keys ++ [key] ∧ (∀ fault, r ≠ .error (.unnamable fault)) ∨
      s'.files.keys = s.files.keys ∧ ∃ fault, r = .error (.undecodable fault) := by
  cases hdecode : Utf8.decode p.source with
  | error fault =>
    unfold addPart at h
    rw [hdecode] at h
    cases h
    exact .inr ⟨rfl, fault, rfl⟩
  | ok text =>
    obtain ⟨s₁, r₁, hrun, honly, hr⟩ :=
      addPart_outcome hkey policy name (Utf8.decode_eq_ok_iff.mp hdecode)
    rw [h] at hrun
    cases hrun
    refine .inl ⟨?_, fun fault heq => ?_⟩
    · rw [honly]
      show (s.files.insert key text).keys = _
      rw [Table.keys_insert, Table.contains_eq_false hkey]
      rfl
    · rcases hr with rfl | ⟨fault', rfl, hstops⟩
      · cases heq
      · cases heq
        cases hstops

/-- The tables got new files at their end, all of them from the script `name`. -/
structure Grown (name : String) (block : List (String × String)) (s s' : State) : Prop where
  files : s'.files.entries = s.files.entries ++ block
  sources : s'.sources.entries = s.sources.entries ++ block.map fun e => (e.1, name)
  skipped : s'.skipped = s.skipped

theorem Grown.nil (name : String) (s : State) : Grown name [] s s := ⟨by simp, by simp, rfl⟩

theorem Grown.trans {b b' : List (String × String)} (h : Grown name b s s')
    (h' : Grown name b' s' t) : Grown name (b ++ b') s t := by
  refine ⟨?_, ?_, h'.skipped.trans h.skipped⟩
  · rw [h'.files, h.files, List.append_assoc]
  · rw [h'.sources, h.sources, List.map_append, List.append_assoc]

/-- Every file has a source. -/
def Paired (s : State) : Prop := s.sources.keys = s.files.keys

theorem Grown.paired {b : List (String × String)} (h : Grown name b s s') (hs : s.Paired) :
    s'.Paired := by
  unfold Paired Table.keys at *
  rw [h.files, h.sources, List.map_append, List.map_append, hs, List.map_map]
  rfl

end State

/-! ## Adding a script -/

namespace Linkage

open State

variable {l l' : Linkage}

/-- Naming a part leaves the tables as they are. -/
theorem state_of_partKey {index : Nat} {r : Except PathFault String}
    (h : (l.partKey key index).value = (l', r)) : l'.state = l.state := by
  unfold partKey at h
  split at h
  · cases h
    rfl
  · cases h
    rfl

theorem partKey_free (hext : HasExtension key) (index : Nat)
    (hkey : index = 0 → key ∉ l.state.files.keys) : ∃ r part,
    (l.partKey key index).value = (⟨l.state, r⟩, .ok part) ∧ part ∉ l.state.files.keys := by
  unfold partKey
  split
  · next h => exact ⟨l.registry, key, rfl, hkey h⟩
  · obtain ⟨r, part, hclaim⟩ := l.registry.exists_claimPart l.state.files.keys hext index
    have hfree := (Registry.claimPart_cases hclaim).1.free
    refine ⟨r, part, ?_, (Registry.collides_eq_false_iff.mp hfree).1⟩
    rw [Logged.value_bind, hclaim]
    rfl

end Linkage

/-! ## Taking in all scripts -/

/-- The files of a script: none when it is rejected, and otherwise some whose texts make up what is
kept of it. -/
structure Block (parser : Parser) (o : IngestOptions) (i : Input)
    (files : List (String × String)) : Prop where
  rejected : Rejected parser o i.content → files = []
  accepted : ¬ Rejected parser o i.content → files ≠ [] ∧
    (String.join (files.map (·.2))).toUTF8 = keptBytes parser o i.content

/-- What taking in scripts does to the tables: each adds its files at the end, under its own name,
and each that is rejected is noted. -/
structure Ingested (parser : Parser) (o : IngestOptions) (inputs : List Input)
    (blocks : List (List (String × String))) (s s' : State) : Prop where
  each : List.Forall₂ (Block parser o) inputs blocks
  files : s'.files.entries = s.files.entries ++ blocks.flatten
  sources : s'.sources.entries = s.sources.entries ++
    (List.zipWith (fun i files => files.map fun e => (e.1, i.name)) inputs blocks).flatten
  skipped : s'.skipped = s.skipped ++
    (inputs.filter fun i => Rejected parser o i.content).map (·.name)

namespace Ingested

variable {s s' t : State}

theorem nil (parser : Parser) (o : IngestOptions) (s : State) : Ingested parser o [] [] s s :=
  ⟨.nil, by simp, by simp, by simp⟩

theorem cons {i : Input} {inputs : List Input} {b : List (String × String)}
    {bs : List (List (String × String))} (h : Ingested parser o [i] [b] s s')
    (h' : Ingested parser o inputs bs s' t) : Ingested parser o (i :: inputs) (b :: bs) s t := by
  obtain ⟨hblock, -⟩ := List.forall₂_cons.mp h.each
  refine ⟨.cons hblock h'.each, ?_, ?_, ?_⟩
  · rw [h'.files, h.files]
    simp
  · rw [h'.sources, h.sources]
    simp
  · rw [h'.skipped, h.skipped, List.append_assoc, ← List.map_append, ← List.filter_append]
    rfl

end Ingested

namespace Linkage

variable {l : Linkage}

/-- What holds of the tables as long as parts are added, whatever comes of them, and scripts are
left out. -/
structure Lasting (parser : Parser) (policy : DuplicatePolicy) (P : State → Prop) : Prop where
  addPart : ∀ {s p}, P s → parser p.source = .ok p.root → ∀ key name,
    P (s.addPart policy key name p).value.1
  skip : ∀ {s name}, P s → P { s with skipped := s.skipped ++ [name] }

namespace Lasting

variable {P : State → Prop}

theorem addParts (h : Lasting parser o.policy P) (name key : String) {ps : List Part}
    (hps : ∀ p ∈ ps, parser p.source = .ok p.root) (index : Nat) (l : Linkage) (hl : P l.state) :
    P (addParts o name key index ps l).value.1.state := by
  induction ps generalizing index l with
  | nil => exact hl
  | cons p ps ih =>
    obtain ⟨hp, hps⟩ := List.forall_mem_cons.mp hps
    rw [Linkage.addParts, Logged.value_bind]
    generalize hnamed : (l.partKey key index).value = named
    obtain ⟨l₁, (fault | part)⟩ := named
    · exact state_of_partKey hnamed ▸ hl
    · have hl₁ : P l₁.state := state_of_partKey hnamed ▸ hl
      have hadd := h.addPart hl₁ hp part name
      simp only [Logged.value_bind]
      generalize (l₁.state.addPart o.policy part name p).value = added at hadd ⊢
      obtain ⟨s, (fault | ⟨⟩)⟩ := added
      · exact hadd
      · exact ih hps (index + 1) ⟨s, l₁.registry⟩ hadd

theorem ingest (h : Lasting parser o.policy P) (i : Input) (hl : P l.state) :
    P (l.ingest parser o i).value.1.state := by
  unfold Linkage.ingest
  simp only [Logged.value_bind]
  split
  · exact hl
  · next key _ =>
    split
    · exact h.skip hl
    · next ps hps =>
      have hadd := h.addParts i.name key (fun p hp => parsed_of_mem_parts hps hp) 0
        ⟨l.state, (l.registry.claim i.name l.state.files.keys).value.1⟩ hl
      simp only [Logged.value_bind]
      generalize (Linkage.addParts o i.name key 0 ps _).value = added at hadd ⊢
      obtain ⟨l', (fault | keys)⟩ := added
      · exact hadd
      · change P (if 1 < keys.length then _ else _ : Logged (Outcome Linkage _)).value.1.state
        split <;> exact hadd

theorem ingestAll (h : Lasting parser o.policy P) (inputs : List Input) (l : Linkage)
    (hl : P l.state) : P (ingestAll parser o inputs l).value.1.state := by
  induction inputs generalizing l with
  | nil => exact hl
  | cons i inputs ih =>
    have hstep := h.ingest i hl
    rw [Linkage.ingestAll, Logged.value_bind, Logged.value_bind]
    generalize (l.ingest parser o i).value = taken at hstep ⊢
    obtain ⟨l₁, (fault | keys)⟩ := taken
    · exact hstep
    · exact ih l₁ hstep

end Lasting

end Linkage

/-- The tables of scripts are those that all of them led to, with the renames noted and the names
purged that nobody declares. -/
theorem link_ok {registry : Registry} {inputs : List Input} {l : Linkage}
    (h : (link parser o registry inputs).value = .ok l) : ∃ l₁,
    (Linkage.ingestAll parser o inputs ⟨.empty, registry⟩).value = (l₁, .ok ()) ∧
      l.state = (State.purge
        { l₁.state with renames := l₁.state.renames ++ l₁.registry.renames }).value.1 := by
  rw [link, Logged.value_bind] at h
  generalize (Linkage.ingestAll parser o inputs ⟨.empty, registry⟩).value = taken at h
  obtain ⟨l₁, (fault | ⟨⟩)⟩ := taken
  · cases h
  · cases h
    exact ⟨l₁, rfl, rfl⟩

/-- The script parser, for these texts only. -/
def parserFor (texts : List String) : Parser := fun source =>
  match Utf8.decode source with
  | .ok text => if text ∈ texts then Script.parse source else .error ⟨false, 1, 1, excerpt source⟩
  | .error _ => .error ⟨false, 1, 1, excerpt source⟩

end ScriptModules
