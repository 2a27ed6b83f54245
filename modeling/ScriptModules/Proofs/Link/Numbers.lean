import ScriptModules.Proofs.Link.Ingest

/-!
# The numbers of parts

The parts of a script behind the first get the key of the script with a number between stem and
suffix. Each part looks for its number from its own index on, and passes over those that are in use.

A number that was passed over, or given to a part, is in use for all parts that follow: the files
and the names of the registry only get more. So a part cannot end up at or below the number of the
part before it. That is the invariant of `addParts_numbered`: from the index of the next part up to
the last number given, all keys collide.

Main statement: `ingest_numbered`.
-/

namespace ScriptModules

/-- The candidates for the key of a part, by their numbers. -/
theorem retitle_number (key : String) (index m : Nat) :
    retitle key (· ++ ("." ++ toString ((index : Int) + (m : Int)))) =
      retitle key (· ++ "." ++ toString (index + m)) :=
  (congrFun (Registry.retitle_dotted key index) m).symm

/-- The parts have the key with these numbers in it. The numbers increase, all of them lie beyond
`last`, and none is smaller than the index of its part, which is counted from `index` on. -/
structure Numbered (key : String) (index last : Nat) (numbers : List Nat) (parts : List String) :
    Prop where
  keys : List.Forall₂ (fun n part => retitle key (· ++ "." ++ toString n) = .ok part) numbers parts
  beyond : ∀ n ∈ numbers, last < n
  increasing : numbers.Pairwise (· < ·)
  atLeast : ∀ j n, numbers[j]? = some n → index + j ≤ n

namespace Numbered

variable {key part : String} {index last n : Nat} {numbers : List Nat} {parts : List String}

theorem nil (key : String) (index last : Nat) : Numbered key index last [] [] :=
  ⟨.nil, by simp, .nil, by simp⟩

theorem cons (hpart : retitle key (· ++ "." ++ toString n) = .ok part) (hindex : index ≤ n)
    (hlast : last < n) (h : Numbered key (index + 1) n numbers parts) :
    Numbered key index last (n :: numbers) (part :: parts) := by
  refine ⟨.cons hpart h.keys, ?_, List.pairwise_cons.mpr ⟨h.beyond, h.increasing⟩, ?_⟩
  · intro m hm
    rcases List.mem_cons.mp hm with rfl | hm
    · exact hlast
    · have := h.beyond m hm
      omega
  · intro j m hm
    cases j with
    | zero =>
      obtain rfl : n = m := by simpa using hm
      omega
    | succ j =>
      have := h.atLeast j m (by simpa using hm)
      omega

/-- Where the key has an extension, the numbers stand before it. -/
theorem parts_eq (h : Numbered key index last numbers parts) (hext : HasExtension key) :
    parts = numbers.map fun n => retitled key ("." ++ toString n) := by
  have hkey : ∀ n : Nat, retitle key (· ++ "." ++ toString n) =
      .ok (retitled key ("." ++ toString n)) := by
    intro n
    have hretitle := (hext.retitles ((numbering_dotted n).plain 0)).retitle_eq
    rw [retitle_number] at hretitle
    exact hretitle
  have hkeys := h.keys
  clear h
  induction hkeys with
  | nil => rfl
  | cons hpart _ ih =>
    rw [hkey] at hpart
    rw [List.map_cons, ← ih, Except.ok.inj hpart]

end Numbered

namespace Linkage

variable {l l' : Linkage} {o : IngestOptions} {name key part : String} {index last : Nat}

/-- The key with a number in it is in use. -/
def Busy (l : Linkage) (key : String) (n : Nat) : Prop :=
  ∀ part, retitle key (· ++ "." ++ toString n) = .ok part →
    l.registry.collides l.state.files.keys part = true

/-- A part gets the first number from its index on that is not in use. -/
theorem partKey_number (hindex : index ≠ 0) (h : (l.partKey key index).value = (l', .ok part)) :
    l.registry.Answer l.state.files.keys l'.registry part ∧
      ∃ n, index ≤ n ∧ retitle key (· ++ "." ++ toString n) = .ok part ∧
        ∀ k, index ≤ k → k < n → l.Busy key k := by
  unfold partKey at h
  rw [if_neg hindex, Logged.value_bind] at h
  generalize hclaim : (l.registry.claimPart key index l.state.files.keys).value = claimed at h
  obtain ⟨registry, answer⟩ := claimed
  cases h
  obtain ⟨hanswer, m, hm, hbefore⟩ := Registry.claimPart_cases hclaim
  rw [retitle_number] at hm
  refine ⟨hanswer, index + m, by omega, hm, fun k hlo hhi p hp => ?_⟩
  apply hbefore (k - index) (by omega) p
  rwa [retitle_number, show index + (k - index) = k by omega]

/-- What is in use stays so when the part is added. -/
theorem Busy.mono {n : Nat} {s : State} (h : l.Busy key n)
    (hregistry : Registry.Keeps l.registry l'.registry)
    (hfiles : ∀ k ∈ l.state.files.keys, k ∈ s.files.keys) : Busy ⟨s, l'.registry⟩ key n :=
  fun p hp => Registry.collides_mono hregistry hfiles (h p hp)

/-- What is reported about the files that came of parts: all of their keys, or why no more of them
came. -/
structure Reported (key : String) (ps : List Part) (added : List String)
    (result : Except LinkFault (List String)) : Prop where
  keys : ∀ keys, result = .ok keys → keys = added ∧ keys.length = ps.length
  named : HasExtension key → ∀ fault, result ≠ .error (.unnamable fault)

namespace Reported

variable {p : Part} {ps : List Part} {added : List String} {rest : Except LinkFault (List String)}

theorem nil (key : String) : Reported key [] [] (.ok []) := by
  refine ⟨fun keys heq => ?_, by simp⟩
  cases heq
  exact ⟨rfl, rfl⟩

theorem of_error {fault : LinkFault} (h : HasExtension key → ∀ f, fault ≠ .unnamable f)
    (ps : List Part) (added : List String) : Reported key ps added (.error fault) :=
  ⟨by simp, fun hext f heq => h hext f (Except.error.inj heq)⟩

theorem cons (h : Reported key ps added rest) :
    Reported key (p :: ps) (part :: added) (rest.map (part :: ·)) := by
  cases rest with
  | error fault => exact .of_error (fun hext f heq => h.named hext f (congrArg _ heq)) _ _
  | ok keys =>
    obtain ⟨rfl, hlength⟩ := h.keys keys rfl
    refine ⟨fun keys' heq => ?_, fun _ _ heq => by cases heq⟩
    cases heq
    exact ⟨rfl, by simp [hlength]⟩

end Reported

/-- A part whose key is known becomes the last of the files. Then the other parts follow, unless it
stops them. -/
theorem addParts_cons {l₁ : Linkage} {p : Part} {ps : List Part}
    {result : Except LinkFault (List String)}
    (hpart : (l.partKey key index).value = (l₁, .ok part)) (hfree : part ∉ l.state.files.keys)
    (h : (addParts o name key index (p :: ps) l).value = (l', result)) :
    (∃ added, (added = [] ∨ added = [part]) ∧
      l'.state.files.keys = l.state.files.keys ++ added ∧ Reported key (p :: ps) added result) ∨
    ∃ s rest, s.files.keys = l.state.files.keys ++ [part] ∧
      (addParts o name key (index + 1) ps ⟨s, l₁.registry⟩).value = (l', rest) ∧
      result = rest.map (part :: ·) := by
  have hstate := state_of_partKey hpart
  rw [addParts, Logged.value_bind, hpart] at h
  simp only [Logged.value_bind] at h
  generalize hadd : (l₁.state.addPart o.policy part name p).value = outcome at h
  obtain ⟨s, r⟩ := outcome
  have hkeys := State.addPart_keys (hstate ▸ hfree) hadd
  rw [hstate] at hkeys
  cases r with
  | error fault =>
    cases h
    rcases hkeys with ⟨hkeys, hnamed⟩ | ⟨hkeys, fault', heq⟩
    · exact .inl ⟨[part], .inr rfl, hkeys, .of_error (fun _ f heq => hnamed f (congrArg _ heq)) _ _⟩
    · cases heq
      exact .inl ⟨[], .inl rfl, by simp [hkeys], .of_error (by simp) _ _⟩
  | ok _ =>
    simp only [Logged.value_bind] at h
    generalize hrest : (addParts o name key (index + 1) ps ⟨s, l₁.registry⟩).value = run at h
    cases h
    rcases hkeys with ⟨hkeys, -⟩ | ⟨-, fault, heq⟩
    · exact .inr ⟨s, run.2, hkeys, hrest, rfl⟩
    · cases heq

/-- The parts from `index` on get increasing numbers, if all numbers from there up to `last` are in
use. -/
theorem addParts_numbered {ps : List Part} {result : Except LinkFault (List String)}
    (hindex : index ≠ 0) (hbusy : ∀ n, index ≤ n → n ≤ last → l.Busy key n)
    (h : (addParts o name key index ps l).value = (l', result)) : ∃ added numbers,
    l'.state.files.keys = l.state.files.keys ++ added ∧ Numbered key index last numbers added ∧
      Reported key ps added result := by
  induction ps generalizing index last l result with
  | nil =>
    cases h
    exact ⟨[], [], by simp, .nil key index last, .nil key⟩
  | cons p ps ih =>
    generalize hpart : (l.partKey key index).value = named
    obtain ⟨l₁, fault | part⟩ := named
    · have hstate := state_of_partKey hpart
      rw [addParts, Logged.value_bind, hpart] at h
      cases h
      refine ⟨[], [], by simp [hstate], .nil key index last, .of_error (fun hext _ _ => ?_) _ _⟩
      obtain ⟨r, part, hnamed, -⟩ := partKey_free (l := l) hext index fun h => (hindex h).elim
      rw [hpart] at hnamed
      cases hnamed
    · obtain ⟨hanswer, n, hlo, hn, hbefore⟩ := partKey_number hindex hpart
      have hlast : last < n := by
        by_contra hle
        have := hbusy n hlo (by omega) part hn
        rw [hanswer.free] at this
        cases this
      obtain ⟨hfree, -⟩ := Registry.collides_eq_false_iff.mp hanswer.free
      rcases addParts_cons hpart hfree h with
        ⟨added, rfl | rfl, hkeys, hreported⟩ | ⟨s, rest, hkeys, hrest, rfl⟩
      · exact ⟨[], [], hkeys, .nil key index last, hreported⟩
      · exact ⟨[part], [n], hkeys, .cons hn hlo hlast (.nil key _ n), hreported⟩
      · -- The numbers that were passed over are still in use, and so is the one just given.
        have hbusy' : ∀ k, index + 1 ≤ k → k ≤ n → Busy ⟨s, l₁.registry⟩ key k := by
          intro k hk hkn
          by_cases heq : k = n
          · intro q hq
            rw [heq, hn] at hq
            cases hq
            simp [Registry.collides, hkeys]
          · exact (hbefore k (by omega) (by omega)).mono hanswer.keeps fun q hq => by
              simp [hkeys, hq]
        obtain ⟨added, numbers, hadded, hnumbered, hreported⟩ := ih (by omega) hbusy' hrest
        exact ⟨part :: added, n :: numbers, by simp [hadded, hkeys], .cons hn hlo hlast hnumbered,
          hreported.cons⟩

/-- The first part of a script has the key of the script, and the others get numbers from 1 on. -/
theorem addParts_first {ps : List Part} {result : Except LinkFault (List String)}
    (hfree : key ∉ l.state.files.keys) (h : (addParts o name key 0 ps l).value = (l', result)) :
    ∃ added, l'.state.files.keys = l.state.files.keys ++ added ∧ Reported key ps added result ∧
      (added = [] ∨ ∃ later numbers, added = key :: later ∧ Numbered key 1 0 numbers later) := by
  cases ps with
  | nil =>
    cases h
    exact ⟨[], by simp, .nil key, .inl rfl⟩
  | cons p ps =>
    have hfirst : (l.partKey key 0).value = (l, .ok key) := rfl
    rcases addParts_cons hfirst hfree h with
      ⟨added, rfl | rfl, hkeys, hreported⟩ | ⟨s, rest, hkeys, hrest, rfl⟩
    · exact ⟨[], hkeys, hreported, .inl rfl⟩
    · exact ⟨[key], hkeys, hreported, .inr ⟨[], [], rfl, .nil key 1 0⟩⟩
    · have hbusy : ∀ n, 1 ≤ n → n ≤ 0 → Busy ⟨s, l.registry⟩ key n := fun n hlo hhi => by omega
      obtain ⟨later, numbers, hadded, hnumbered, hreported⟩ :=
        addParts_numbered (by decide) hbusy hrest
      exact ⟨key :: later, by simp [hadded, hkeys], hreported.cons,
        .inr ⟨later, numbers, rfl, hnumbered⟩⟩

/-- Taking in a script adds the keys of its parts to the files. The first is the key of the script;
the numbers in the others increase in the order of the parts, and the number of each is at least its
index. That is so for any tables and any registry, and also for the parts that were added before one
of them failed. Where the script has an extension, the numbers stand before it, and it is never for
want of a name that a part fails. -/
theorem ingest_numbered (parser : Parser) (o : IngestOptions) (l l' : Linkage) (i : Input)
    (result : Except LinkFault (List String)) (h : (l.ingest parser o i).value = (l', result)) :
    ∃ added, l'.state.files.keys = l.state.files.keys ++ added ∧
      (∀ keys, result = .ok keys → keys = added ∧
        ∀ ps, parts parser o i.content = .ok ps → keys.length = ps.length) ∧
      (∀ key later, added = key :: later → ∃ numbers, Numbered key 1 0 numbers later ∧
        (HasExtension i.name →
          later = numbers.map fun n => retitled key ("." ++ toString n))) ∧
      (HasExtension i.name → ∀ fault, result ≠ .error (.unnamable fault)) := by
  unfold ingest at h
  rw [Logged.value_bind] at h
  generalize hclaim : (l.registry.claim i.name l.state.files.keys).value = claimed at h
  obtain ⟨registry, fault | key⟩ := claimed
  · cases h
    refine ⟨[], by simp, by simp, by simp, fun hext => ?_⟩
    obtain ⟨r, key, hfound, -⟩ := l.registry.claim_free l.state.files.keys hext
    rw [hclaim] at hfound
    cases hfound
  · have hext : HasExtension i.name → HasExtension key := by
      intro hext
      obtain ⟨r, key', hfound, hkey, -⟩ := l.registry.claim_free l.state.files.keys hext
      rw [hclaim] at hfound
      cases hfound
      exact hkey
    obtain ⟨hfree, -⟩ :=
      Registry.collides_eq_false_iff.mp (Registry.claim_cases hclaim).1.free
    cases hparts : parts parser o i.content with
    | error reason =>
      simp only [hparts] at h
      cases h
      refine ⟨[], by simp [skip], fun keys heq => ?_, by simp, by simp⟩
      cases heq
      exact ⟨rfl, fun ps hps => by cases hps⟩
    | ok ps =>
      simp only [hparts, Logged.value_bind] at h
      generalize hadd : (addParts o i.name key 0 ps ⟨l.state, registry⟩).value = run at h
      obtain ⟨l₁, rest⟩ := run
      obtain ⟨added, hkeys, hreported, hadded⟩ :=
        addParts_first (l := ⟨l.state, registry⟩) hfree hadd
      have hend : (l₁, rest) = (l', result) := by
        rw [← h]
        cases rest with
        | error fault => rfl
        | ok keys =>
          show _ = (if 1 < keys.length then _ else _ : Logged (Outcome Linkage _)).value
          split <;> rfl
      cases hend
      refine ⟨added, hkeys, fun keys heq => ?_, fun first later heq => ?_,
        fun hname => hreported.named (hext hname)⟩
      · obtain ⟨rfl, hlength⟩ := hreported.keys keys heq
        refine ⟨rfl, fun ps' hps => ?_⟩
        cases hps
        exact hlength
      · rcases hadded with rfl | ⟨later', numbers, rfl, hnumbered⟩
        · cases heq
        · cases heq
          exact ⟨numbers, hnumbered, fun hname => hnumbered.parts_eq (hext hname)⟩

/-- Tables and names in which the first number is taken by a file, and the third by a directory. -/
def gapped : Linkage := ⟨State.empty.place "a.1.js" "" "a.1.js", (Registry.new true).seed ["A.3"]⟩

/-- A script of three parts. -/
def triple : Input := ⟨"a.js", "a.js", "let a;\nlet b;\nlet c;\n".toUTF8⟩

/-- The texts that are parsed when `triple` is taken in. -/
def sheets : List String := ["let a;\nlet b;\nlet c;\n", "let a;\n", "let b;\n", "let c;\n"]

theorem ingest_numbered_gapped : HasExtension triple.name ∧ ∃ l',
    (gapped.ingest (parserFor sheets) ⟨false, some 7, .error⟩ triple).value =
      (l', .ok ["a.js", "a.2.js", "a.4.js"]) ∧
    l'.state.files.keys = ["a.1.js", "a.js", "a.2.js", "a.4.js"] ∧
    ∃ numbers, Numbered "a.js" 1 0 numbers ["a.2.js", "a.4.js"] ∧
      ["a.2.js", "a.4.js"] = numbers.map fun n => retitled "a.js" ("." ++ toString n) := by
  have hext : HasExtension triple.name := by decide +kernel
  refine ⟨hext, ?_⟩
  generalize hrun : (gapped.ingest (parserFor sheets) ⟨false, some 7, .error⟩ triple).value = run
  have hkeys : run.2.toOption = some ["a.js", "a.2.js", "a.4.js"] := by
    rw [← hrun]
    decide +kernel
  obtain ⟨l', fault | keys⟩ := run
  · cases hkeys
  · cases hkeys
    obtain ⟨added, hfiles, hadded, hnumbers, -⟩ := ingest_numbered _ _ _ _ _ _ hrun
    obtain ⟨rfl, -⟩ := hadded _ rfl
    obtain ⟨numbers, hnumbered, hparts⟩ := hnumbers _ _ rfl
    exact ⟨l', rfl, hfiles, numbers, hnumbered, hparts hext⟩

end Linkage

end ScriptModules
