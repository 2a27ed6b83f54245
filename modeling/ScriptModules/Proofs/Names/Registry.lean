import Mathlib.Data.List.Nodup
import Mathlib.Data.List.Perm.Subperm
import ScriptModules.Names.Registry
import ScriptModules.Proofs.Path.Retitle
import ScriptModules.Proofs.Text.Lowercase

/-!
# A free name is found

The registry tries the keys that differ in a number behind the stem. They are different keys, and
they have different stems in lower case (`Numbering.stemKey_injective`), so among one more of them
than there are names in the way one is free (`exists_free`), and the search comes across it
(`search_eq`). Hence `claim` and `claimPart` always answer (`exists_claim`, `exists_claimPart`).

What they answer is a key that collides with nothing (`Answer`), the first such one among the
candidates (`claim_cases`, `claimPart_cases`).
-/

namespace ScriptModules

variable {key path : String} {f : Nat → String}

/-! ## Numbers behind a stem -/

/-- A way to write numbers behind a stem: it tells them apart, and it uses neither separators nor
letters. -/
structure Numbering (f : Nat → String) : Prop where
  injective : Function.Injective f
  plain : ∀ n, Plain (f n)
  caseless : ∀ n, ∀ c ∈ (f n).toList, Caseless c

theorem isSeparator_of_isDigit {c : Char} (h : c.isDigit = true) : isSeparator c = false := by
  refine decide_eq_false ?_
  rintro (rfl | rfl) <;> exact absurd h (by decide)

theorem isDigit_of_mem_counterText {n : Nat} {c : Char} (h : c ∈ (counterText n).toList) :
    c.isDigit = true := by
  rw [counterText, String.toList_ofList, List.mem_append] at h
  rcases h with h | h
  · rw [List.eq_of_mem_replicate h]
    rfl
  · exact Nat.isDigit_of_mem_toDigits (by decide) (by decide) h

theorem numbering_counterText : Numbering counterText := by
  -- Leading zeros do not change what a row of digits stands for.
  have hread : ∀ n, Nat.ofDigitChars 10 (counterText n).toList 0 = n := by
    intro n
    rw [counterText, String.toList_ofList, Nat.ofDigitChars_append,
      Nat.ofDigitChars_replicate_zero, Nat.mul_zero, Nat.ofDigitChars_ten_toDigits]
  refine ⟨fun m n h => ?_, fun n c hc => isSeparator_of_isDigit (isDigit_of_mem_counterText hc),
    fun n c hc => caseless_of_isDigit (isDigit_of_mem_counterText hc)⟩
  rw [← hread m, ← hread n, h]

theorem isDigit_of_mem_repr {n : Nat} {c : Char} (h : c ∈ n.repr.toList) : c.isDigit = true := by
  rw [Nat.toList_repr] at h
  exact Nat.isDigit_of_mem_toDigits (by decide) (by decide) h

theorem toList_toString_int (z : Int) : (toString z).toList =
    if z < 0 then '-' :: z.natAbs.repr.toList else z.natAbs.repr.toList := by
  cases z with
  | ofNat n =>
    rw [if_neg (by simp)]
    rfl
  | negSucc n =>
    rw [if_pos (Int.negSucc_lt_zero n)]
    exact String.toList_append ..

/-- A number is told by its digits and its sign. -/
theorem toString_int_injective : Function.Injective (toString : Int → String) := by
  intro y z h
  have hchars := congrArg String.toList h
  rw [toList_toString_int, toList_toString_int] at hchars
  have hsign : ∀ n : Nat, '-' ∉ n.repr.toList := by
    intro n hmem
    exact absurd (isDigit_of_mem_repr hmem) (by decide)
  have hdigits : ∀ m n : Nat, m.repr.toList = n.repr.toList → m = n := by
    intro m n heq
    rw [Nat.toList_repr, Nat.toList_repr] at heq
    rw [← Nat.ofDigitChars_ten_toDigits (n := m), ← Nat.ofDigitChars_ten_toDigits (n := n), heq]
  split at hchars <;> split at hchars
  · have := hdigits _ _ (List.cons.inj hchars).2
    omega
  · exact absurd (hchars ▸ List.mem_cons_self) (hsign _)
  · exact absurd (hchars ▸ List.mem_cons_self) (hsign _)
  · have := hdigits _ _ hchars
    omega

theorem numbering_dotted (index : Int) : Numbering fun n => "." ++ toString (index + n) := by
  have hchars : ∀ n : Nat, ∀ c ∈ ("." ++ toString (index + n)).toList,
      c = '.' ∨ c = '-' ∨ c.isDigit = true := by
    intro n c hc
    rw [String.toList_append, List.mem_append, toList_toString_int] at hc
    rcases hc with hc | hc
    · exact .inl (List.mem_singleton.mp hc)
    · split at hc
      · rcases List.mem_cons.mp hc with rfl | hc
        · exact .inr (.inl rfl)
        · exact .inr (.inr (isDigit_of_mem_repr hc))
      · exact .inr (.inr (isDigit_of_mem_repr hc))
  refine ⟨fun m n h => ?_, fun n c hc => ?_, fun n c hc => ?_⟩
  · have := toString_int_injective (String.append_right_inj _ |>.mp h)
    omega
  · rcases hchars n c hc with rfl | rfl | hc
    · decide
    · decide
    · exact isSeparator_of_isDigit hc
  · rcases hchars n c hc with rfl | rfl | hc
    · exact caseless_dot
    · exact caseless_hyphen
    · exact caseless_of_isDigit hc

namespace Numbering

theorem stemKey_retitled (hf : Numbering f) (h : ∀ n, Retitles key (f n)) (n : Nat) :
    stemKey (retitled key (f n)) = lowercase (keyPath key).stem ++ f n := by
  rw [stemKey, (h n).stem_eq, lowercase_append _ (hf.caseless n)]

theorem stemKey_injective (hf : Numbering f) (h : ∀ n, Retitles key (f n)) :
    Function.Injective fun n => stemKey (retitled key (f n)) := by
  intro m n heq
  simp only [hf.stemKey_retitled h] at heq
  exact hf.injective (String.append_right_inj _ |>.mp heq)

end Numbering

theorem counterText_ne_empty (n : Nat) : counterText n ≠ "" := by
  rw [counterText, Ne, String.ofList_eq_empty_iff, List.append_eq_nil_iff]
  rintro ⟨hzeros, hdigits⟩
  rw [hdigits] at hzeros
  cases hzeros

/-- A counter behind a name is not read as its suffix, unless the name ends in a dot. -/
theorem EndsInName.retitles_counterText (h : EndsInName path) (n : Nat) :
    Retitles path (counterText n) := by
  refine h.retitles (numbering_counterText.plain n) (counterText_ne_empty n) fun hdot => ?_
  exact absurd (isDigit_of_mem_counterText hdot) (by decide)

theorem HasExtension.endsInName (h : HasExtension key) : EndsInName key := by
  obtain ⟨stem, ext, -, hext, hdot, hname, -, -⟩ := h.exists_name
  refine ⟨h.ne_empty, fun hlast => hdot ?_⟩
  rw [hname, String.toList_ofList, List.getLast?_append_of_ne_nil _ (by simp),
    List.getLast?_cons_of_ne_nil hext] at hlast
  exact List.mem_of_getLast? hlast

namespace Registry

variable {r r' : Registry} {taken : List String}

/-! ## Names in use -/

/-- The registry has all its names still. -/
structure Keeps (r r' : Registry) : Prop where
  enabled : r'.enabled = r.enabled
  names : ∀ n ∈ r.names, n ∈ r'.names

theorem Keeps.refl (r : Registry) : Keeps r r := ⟨rfl, fun _ hn => hn⟩

theorem Keeps.trans {r'' : Registry} (h : Keeps r r') (h' : Keeps r' r'') : Keeps r r'' :=
  ⟨h'.enabled.trans h.enabled, fun n hn => h'.names n (h.names n hn)⟩

theorem mem_addName {n name : String} : n ∈ (r.addName name).names ↔ n ∈ r.names ∨ n = name := by
  unfold addName
  split
  · next h =>
    rw [List.contains_iff_mem] at h
    exact ⟨.inl, fun hn => hn.elim id fun heq => heq ▸ h⟩
  · simp

theorem enabled_addName {name : String} : (r.addName name).enabled = r.enabled := by
  unfold addName
  split <;> rfl

theorem keeps_addName (r : Registry) (name : String) : Keeps r (r.addName name) :=
  ⟨enabled_addName, fun _ hn => mem_addName.mpr (.inl hn)⟩

theorem keeps_seed (r : Registry) (segments : List String) : Keeps r (r.seed segments) := by
  induction segments generalizing r with
  | nil => exact .refl r
  | cons s segments ih => exact (keeps_addName r (lowercase s)).trans (ih _)

theorem mem_names_seed (r : Registry) {segments : List String} {s : String} (h : s ∈ segments) :
    lowercase s ∈ (r.seed segments).names := by
  induction segments generalizing r with
  | nil => cases h
  | cons s' segments ih =>
    rcases List.mem_cons.mp h with rfl | h
    · exact (keeps_seed (r.addName (lowercase s)) segments).names _ (mem_addName.mpr (.inr rfl))
    · exact ih _ h

/-- The registry has given out the key, which collided with nothing. -/
structure Answer (r : Registry) (taken : List String) (r' : Registry) (key : String) : Prop where
  enabled : r'.enabled = r.enabled
  names : ∀ n, n ∈ r'.names ↔ n ∈ r.names ∨ n = stemKey key
  free : r.collides taken key = false

theorem answer_addName (hfree : r.collides taken key = false) (henabled : r'.enabled = r.enabled)
    (hnames : r'.names = r.names) : r.Answer taken (r'.addName (stemKey key)) key :=
  ⟨enabled_addName.trans henabled, fun n => by rw [mem_addName, hnames], hfree⟩

theorem Answer.keeps (h : r.Answer taken r' key) : Keeps r r' :=
  ⟨h.enabled, fun n hn => (h.names n).mpr (.inl hn)⟩

/-! ## The search -/

theorem collides_eq_false_iff : r.collides taken path = false ↔
    path ∉ taken ∧ (r.enabled = true → stemKey path ∉ r.names) := by
  simp [collides]

/-- What is in use stays in use. -/
theorem collides_mono {taken' : List String} (hkeeps : Keeps r r')
    (htaken : ∀ p ∈ taken, p ∈ taken') (h : r.collides taken path = true) :
    r'.collides taken' path = true := by
  rw [← Bool.not_eq_false, collides_eq_false_iff] at h ⊢
  rintro ⟨hpath, hstem⟩
  refine h ⟨fun hp => hpath (htaken path hp), fun henabled hname => ?_⟩
  exact hstem (hkeeps.enabled.trans henabled) (hkeeps.names _ hname)

/-- Among one more candidate than there are names in the way, one is free. -/
theorem exists_free (r : Registry) (taken : List String) {paths : Nat → String}
    (hinj : Function.Injective fun n => stemKey (paths n)) (number : Nat) :
    ∃ m, number ≤ m ∧ m ≤ number + r.crowd taken ∧ r.collides taken (paths m) = false := by
  by_contra hnone
  -- Each candidate points at a name that is in its way, and no two at the same one.
  let blocker (n : Nat) : String ⊕ String :=
    if paths n ∈ taken then .inl (paths n) else .inr (stemKey (paths n))
  have hblocker : Function.Injective blocker := by
    intro m n heq
    refine hinj ?_
    simp only [blocker] at heq ⊢
    split at heq <;> split at heq
    · rw [Sum.inl.inj heq]
    · cases heq
    · cases heq
    · exact Sum.inr.inj heq
  have hsub : (List.range' number (r.crowd taken + 1)).map blocker ⊆
      taken.map Sum.inl ++ r.names.map Sum.inr := by
    intro b hb
    obtain ⟨n, hn, rfl⟩ := List.mem_map.mp hb
    obtain ⟨hlo, hhi⟩ := List.mem_range'_1.mp hn
    have hcollides : ¬ (paths n ∉ taken ∧ (r.enabled = true → stemKey (paths n) ∉ r.names)) := by
      rw [← collides_eq_false_iff]
      exact fun hfree => hnone ⟨n, hlo, by omega, hfree⟩
    simp only [blocker, List.mem_append]
    split
    · next htaken => exact .inl (List.mem_map_of_mem htaken)
    · next htaken =>
      refine .inr (List.mem_map_of_mem ?_)
      by_contra hname
      exact hcollides ⟨htaken, fun _ => hname⟩
  have hnodup := (List.nodup_range' (s := number) (n := r.crowd taken + 1)).map hblocker
  have hlength := (hnodup.subperm hsub).length_le
  simp only [List.length_map, List.length_range', List.length_append, crowd] at hlength
  omega

/-- The search stops at the first candidate that is free. -/
theorem search_eq (free : String → Bool) {candidate : Nat → Except PathFault String}
    {paths : Nat → String} (hcandidate : ∀ n, candidate n = .ok (paths n)) {fuel number : Nat}
    (hfree : ∃ m, number ≤ m ∧ m ≤ number + fuel ∧ free (paths m) = true) :
    ∃ m, search free candidate fuel number = .ok (paths m, m + 1) ∧ number ≤ m ∧
      free (paths m) = true ∧ ∀ k, number ≤ k → k < m → free (paths k) = false := by
  induction fuel generalizing number with
  | zero =>
    obtain ⟨m, hlo, hhi, hm⟩ := hfree
    obtain rfl : m = number := by omega
    refine ⟨m, ?_, hlo, hm, fun k _ _ => by omega⟩
    simp [search, hcandidate, bind, Except.bind, pure, Except.pure, hm]
  | succ fuel ih =>
    rw [search, hcandidate]
    by_cases hnow : free (paths number) = true
    · refine ⟨number, ?_, Nat.le_refl number, hnow, fun k _ _ => by omega⟩
      simp [bind, Except.bind, pure, Except.pure, hnow]
    · obtain ⟨m, hlo, hhi, hm⟩ := hfree
      have hne : m ≠ number := by
        rintro rfl
        exact hnow hm
      obtain ⟨k, hk, hnumber, hkfree, hbefore⟩ := @ih (number + 1) ⟨m, by omega, by omega, hm⟩
      refine ⟨k, ?_, by omega, hkfree, fun i hi hik => ?_⟩
      · simp [bind, Except.bind, hnow, hk]
      · rcases Nat.eq_or_lt_of_le hi with rfl | hi
        · exact Bool.eq_false_iff.mpr hnow
        · exact hbefore i hi hik

/-- What the search comes up with is the first candidate that is free. -/
theorem search_ok {free : String → Bool} {candidate : Nat → Except PathFault String}
    {fuel number next : Nat} (h : search free candidate fuel number = .ok (path, next)) :
    ∃ m, number ≤ m ∧ candidate m = .ok path ∧ free path = true ∧
      ∀ k, number ≤ k → k < m → ∀ p, candidate k = .ok p → free p = false := by
  induction fuel generalizing number with
  | zero =>
    cases hfound : candidate number with
    | error fault => simp [search, hfound, bind, Except.bind] at h
    | ok found =>
      simp only [search, hfound, bind, Except.bind] at h
      split at h
      · next hfree =>
        cases h
        exact ⟨number, Nat.le_refl number, hfound, hfree, fun k hlo hhi => by omega⟩
      · cases h
  | succ fuel ih =>
    cases hfound : candidate number with
    | error fault => simp [search, hfound, bind, Except.bind] at h
    | ok found =>
      simp only [search, hfound, bind, Except.bind] at h
      split at h
      · next hfree =>
        cases h
        exact ⟨number, Nat.le_refl number, hfound, hfree, fun k hlo hhi => by omega⟩
      · next hfree =>
        obtain ⟨m, hm, hcandidate, hpath, hbefore⟩ := ih h
        refine ⟨m, by omega, hcandidate, hpath, fun k hlo hhi p hp => ?_⟩
        by_cases hk : k = number
        · rw [hk, hfound] at hp
          cases hp
          exact Bool.eq_false_iff.mpr hfree
        · exact hbefore k (by omega) hhi p hp

/-- The search through the keys with a number behind the stem finds one that is free. -/
theorem search_retitle (r : Registry) (taken : List String) (hf : Numbering f)
    (h : ∀ n, Retitles key (f n)) (number : Nat) :
    ∃ m, search (fun p => !r.collides taken p) (fun n => retitle key (· ++ f n)) (r.crowd taken)
      number = .ok (retitled key (f m), m + 1) := by
  obtain ⟨m, hlo, hhi, hm⟩ := exists_free r taken (hf.stemKey_injective h) number
  obtain ⟨k, hk, -⟩ := search_eq (fun p => !r.collides taken p)
    (fun n => (h n).retitle_eq) ⟨m, hlo, hhi, by rw [hm]; rfl⟩
  exact ⟨k, hk⟩

/-! ## Claims -/

/-- A claim is answered. -/
theorem exists_claim (r : Registry) (taken : List String) (h : EndsInName path) :
    ∃ r' key, (r.claim path taken).value = (r', .ok key) := by
  unfold claim
  split
  · obtain ⟨m, hsearch⟩ :=
      search_retitle r taken numbering_counterText h.retitles_counterText r.counter
    rw [hsearch]
    exact ⟨_, _, rfl⟩
  · exact ⟨_, _, rfl⟩

/-- The answer to a claim is the path, or else the path with a counter behind its stem. -/
theorem claim_cases (h : (r.claim path taken).value = (r', .ok key)) : r.Answer taken r' key ∧
    (key = path ∨ ∃ n, retitle path (· ++ counterText n) = .ok key) := by
  unfold claim at h
  split at h
  · split at h
    · cases h
    · next claimed counter hsearch =>
      cases h
      obtain ⟨m, -, hm, hfree, -⟩ := search_ok hsearch
      exact ⟨answer_addName (by simpa using hfree) rfl rfl, .inr ⟨m, hm⟩⟩
  · next hfree =>
    cases h
    exact ⟨answer_addName (by simpa using hfree) rfl rfl, .inl rfl⟩

/-- A claim is answered, with a key that collides with nothing. -/
theorem claim_free (r : Registry) (taken : List String) (h : HasExtension path) : ∃ r' key,
    (r.claim path taken).value = (r', .ok key) ∧ HasExtension key ∧
      r.collides taken key = false := by
  obtain ⟨r', key, hclaim⟩ := exists_claim r taken h.endsInName
  obtain ⟨hanswer, rfl | ⟨n, hn⟩⟩ := claim_cases hclaim
  · exact ⟨r', key, hclaim, h, hanswer.free⟩
  · have hplain := numbering_counterText.plain n
    rw [(h.retitles hplain).retitle_eq] at hn
    cases hn
    exact ⟨r', _, hclaim, hasExtension_retitled h hplain, hanswer.free⟩

/-- The candidates for the key of a part. -/
theorem retitle_dotted (key : String) (index : Int) :
    (fun n : Nat => retitle key (· ++ "." ++ toString (index + n))) =
      fun n : Nat => retitle key (· ++ ("." ++ toString (index + n))) := by
  funext n
  congr 1
  funext s
  exact String.append_assoc

/-- A claim for a part is answered. -/
theorem exists_claimPart (r : Registry) (taken : List String) (h : HasExtension key)
    (index : Int) : ∃ r' part, (r.claimPart key index taken).value = (r', .ok part) := by
  have hnumbering := numbering_dotted index
  obtain ⟨m, hsearch⟩ :=
    search_retitle r taken hnumbering (fun n => h.retitles (hnumbering.plain n)) 0
  unfold claimPart
  rw [retitle_dotted, hsearch]
  exact ⟨_, _, rfl⟩

/-- The answer to a claim for a part is the key with the first number from its index on that is
free. -/
theorem claimPart_cases {index : Int} {part : String}
    (h : (r.claimPart key index taken).value = (r', .ok part)) : r.Answer taken r' part ∧
      ∃ m : Nat, retitle key (· ++ ("." ++ toString (index + m))) = .ok part ∧
        ∀ k < m, ∀ p, retitle key (· ++ ("." ++ toString (index + k))) = .ok p →
          r.collides taken p = true := by
  unfold claimPart at h
  rw [retitle_dotted] at h
  split at h
  · cases h
  · next claimed next hsearch =>
    cases h
    obtain ⟨m, -, hm, hfree, hbefore⟩ := search_ok hsearch
    refine ⟨answer_addName (by simpa using hfree) rfl rfl, m, hm, fun k hk p hp => ?_⟩
    simpa using hbefore k (Nat.zero_le k) hk p hp

end Registry

end ScriptModules
