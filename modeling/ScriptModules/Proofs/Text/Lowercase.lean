import ScriptModules.Text.Lowercase

/-!
# Lower case

What stands behind a capital sigma decides which form it takes, so lower case does not go through
the characters one by one. Characters that have no case do not take part in that: when a text is
written on with them, its lower case is written on with them too (`lowercase_append`).

A text in lower case is its own lower case (`lowercase_lowercase`): no character that a run of the
case table maps to is in a run itself (`runs_apart`).
-/

namespace ScriptModules

/-- The character is its own lower case, and a sigma before it still ends its word. -/
structure Caseless (c : Char) : Prop where
  uncased : isCased c = false
  lower : lowerChar c = c
  ne_sigma : c ≠ 'Σ'
  ne_dotted : c ≠ 'İ'

instance (c : Char) : Decidable (Caseless c) :=
  decidable_of_iff (isCased c = false ∧ lowerChar c = c ∧ c ≠ 'Σ' ∧ c ≠ 'İ')
    ⟨fun ⟨h₁, h₂, h₃, h₄⟩ => ⟨h₁, h₂, h₃, h₄⟩, fun ⟨h₁, h₂, h₃, h₄⟩ => ⟨h₁, h₂, h₃, h₄⟩⟩

theorem caseless_of_isDigit {c : Char} (h : c.isDigit = true) : Caseless c := by
  have hdigits : ∀ n ∈ List.range' 48 10, Caseless (Char.ofNat n) := by decide +kernel
  obtain ⟨hlo, hhi⟩ := Char.isDigit_iff_toNat.mp h
  have hmem : c.toNat ∈ List.range' 48 10 :=
    List.mem_range'_1.mpr ⟨hlo, Nat.lt_succ_of_le hhi⟩
  have hc := hdigits c.toNat hmem
  rwa [Char.ofNat_toNat] at hc

theorem caseless_dot : Caseless '.' := by decide +kernel

theorem caseless_hyphen : Caseless '-' := by decide +kernel

theorem casedFirst_of_caseless {ds : List Char} (h : ∀ c ∈ ds, Caseless c) :
    casedFirst ds = false := by
  unfold casedFirst
  cases hd : ds.dropWhile isCaseIgnorable with
  | nil => rfl
  | cons d rest =>
    have hmem : d ∈ ds := (List.dropWhile_sublist _).subset (hd ▸ List.mem_cons_self)
    exact (h d hmem).uncased

theorem casedFirst_append (cs : List Char) {ds : List Char} (h : ∀ c ∈ ds, Caseless c) :
    casedFirst (cs ++ ds) = casedFirst cs := by
  induction cs with
  | nil => exact casedFirst_of_caseless h
  | cons c cs ih =>
    unfold casedFirst at ih ⊢
    rw [List.cons_append, List.dropWhile_cons, List.dropWhile_cons]
    split
    · exact ih
    · rfl

/-- The character is its own lower case, whatever stands around it. -/
structure Small (c : Char) : Prop where
  lower : lowerChar c = c
  ne_sigma : c ≠ 'Σ'
  ne_dotted : c ≠ 'İ'

theorem Caseless.small {c : Char} (h : Caseless c) : Small c := ⟨h.lower, h.ne_sigma, h.ne_dotted⟩

theorem lowerAfter_of_small (before : List Char) {ds : List Char} (h : ∀ c ∈ ds, Small c) :
    lowerAfter before ds = ds := by
  induction ds generalizing before with
  | nil => rfl
  | cons d ds ih =>
    obtain ⟨hd, hds⟩ := List.forall_mem_cons.mp h
    rw [lowerAfter, ih (d :: before) hds, if_neg hd.ne_sigma, if_neg hd.ne_dotted, hd.lower]
    rfl

theorem lowerAfter_append (before cs : List Char) {ds : List Char} (h : ∀ c ∈ ds, Caseless c) :
    lowerAfter before (cs ++ ds) = lowerAfter before cs ++ ds := by
  induction cs generalizing before with
  | nil => exact lowerAfter_of_small before fun c hc => (h c hc).small
  | cons c cs ih =>
    rw [List.cons_append, lowerAfter, lowerAfter, ih, casedFirst_append cs h, List.append_assoc]

theorem lowercase_append (s : String) {t : String} (h : ∀ c ∈ t.toList, Caseless c) :
    lowercase (s ++ t) = lowercase s ++ t := by
  unfold lowercase
  rw [String.toList_append, lowerAfter_append [] _ h, String.ofList_append, String.ofList_toList]

/-! ## Lower case of lower case -/

namespace CaseRun

variable {r s : CaseRun} {n : Nat}

/-- Does the run hold the code point? -/
def holds (r : CaseRun) (n : Nat) : Bool :=
  r.first ≤ n && n ≤ r.last && (n - r.first) % r.step == 0

/-- The lower case of the first code point. -/
def image (r : CaseRun) : Nat := Int.toNat (r.first + r.offset)

/-- The run `r` maps to code points before `s`, behind `s`, or in its gaps. -/
def apart (r s : CaseRun) : Bool :=
  Nat.blt (r.image + (r.last - r.first)) s.first || Nat.blt s.last r.image ||
    ((r.step == 2 || r.first == r.last) && s.step == 2 && (r.image + s.first) % 2 == 1)

/-- Neither the run nor what it maps to goes down to zero. -/
def positive (r : CaseRun) : Bool := 0 < r.first && 0 < r.image

theorem holds_iff : r.holds n = true ↔ r.first ≤ n ∧ n ≤ r.last ∧ (n - r.first) % r.step = 0 := by
  simp [holds, and_assoc]

theorem positive_iff : r.positive = true ↔ 0 < r.first ∧ 0 < r.image := by
  simp [positive]

theorem apart_iff : r.apart s = true ↔ r.image + (r.last - r.first) < s.first ∨ s.last < r.image ∨
    (r.step = 2 ∨ r.first = r.last) ∧ s.step = 2 ∧ (r.image + s.first) % 2 = 1 := by
  simp only [apart, Bool.or_eq_true, Bool.and_eq_true, Nat.blt_eq, beq_iff_eq, or_assoc, and_assoc]

theorem not_holds_of_apart (hr : r.positive = true) (h : r.apart s = true)
    (hn : r.holds n = true) : s.holds (Int.toNat (n + r.offset)) = false := by
  obtain ⟨hfirst, hlast, hstep⟩ := holds_iff.mp hn
  have himage : Int.toNat (n + r.offset) = r.image + (n - r.first) := by
    have hpos := (positive_iff.mp hr).2
    unfold image at hpos ⊢
    omega
  apply Bool.eq_false_iff.mpr
  intro hs
  obtain ⟨hfirst', hlast', hstep'⟩ := holds_iff.mp hs
  rw [himage] at hfirst' hlast' hstep'
  rcases apart_iff.mp h with h | h | ⟨hr, hs, hodd⟩
  · omega
  · omega
  · rw [hs] at hstep'
    rcases hr with hr | hr
    · rw [hr] at hstep
      omega
    · omega

end CaseRun

/-- A run for the one character that has two as its lower case. -/
def dottedRun : CaseRun := ⟨0x130, 0x130, 1, 0⟩

theorem runs_positive : (dottedRun :: lowerRuns).all CaseRun.positive = true := by decide +kernel

/-- No character that a run maps to is in a run. -/
theorem runs_apart : lowerRuns.all (fun r => (dottedRun :: lowerRuns).all r.apart) = true := by
  decide +kernel

theorem lowerChar_eq (c : Char) : lowerChar c =
    match lowerRuns.find? (·.holds c.toNat) with
    | some r => Char.ofNat (Int.toNat (c.toNat + r.offset))
    | none => c := rfl

theorem lowerChar_of_not_holds {c : Char} (h : ∀ r ∈ lowerRuns, r.holds c.toNat = false) :
    lowerChar c = c := by
  have hnone : lowerRuns.find? (·.holds c.toNat) = none :=
    List.find?_eq_none.mpr fun r hr => by simp [h r hr]
  rw [lowerChar_eq, hnone]

/-- A character in no run is its own lower case, since the capital sigma is in one. -/
theorem small_of_not_holds {c : Char}
    (h : ∀ r ∈ dottedRun :: lowerRuns, r.holds c.toNat = false) : Small c := by
  obtain ⟨hdotted, hruns⟩ := List.forall_mem_cons.mp h
  refine ⟨lowerChar_of_not_holds hruns, ?_, ?_⟩
  · rintro rfl
    have hsigma : lowerRuns.any (·.holds 'Σ'.toNat) = true := by decide +kernel
    obtain ⟨r, hr, hholds⟩ := List.any_eq_true.mp hsigma
    rw [hruns r hr] at hholds
    cases hholds
  · rintro rfl
    revert hdotted
    decide

theorem small_lowerChar {c : Char} (hsigma : c ≠ 'Σ') (hdotted : c ≠ 'İ') :
    Small (lowerChar c) := by
  cases hfind : lowerRuns.find? (·.holds c.toNat) with
  | none =>
    have hlower : lowerChar c = c := by rw [lowerChar_eq, hfind]
    rw [hlower]
    exact ⟨hlower, hsigma, hdotted⟩
  | some r =>
    have hholds : r.holds c.toNat = true :=
      List.find?_some (p := fun r : CaseRun => r.holds c.toNat) hfind
    have hr : r ∈ lowerRuns := List.mem_of_find?_eq_some hfind
    have hpositive := List.all_eq_true.mp runs_positive
    have happart := List.all_eq_true.mp (List.all_eq_true.mp runs_apart r hr)
    rw [lowerChar_eq, hfind]
    apply small_of_not_holds
    intro s hs
    by_cases hvalid : (Int.toNat (c.toNat + r.offset)).isValidChar
    · have htoNat : (Char.ofNat (Int.toNat (c.toNat + r.offset))).toNat =
          Int.toNat (c.toNat + r.offset) := by
        rw [Char.ofNat, dif_pos hvalid]
        rfl
      rw [htoNat]
      exact CaseRun.not_holds_of_apart (hpositive r (List.mem_cons_of_mem _ hr)) (happart s hs)
        hholds
    · -- There is no such character, and none of the runs goes down to zero.
      have hzero : (Char.ofNat (Int.toNat (c.toNat + r.offset))).toNat = 0 := by
        rw [Char.ofNat, dif_neg hvalid]
        rfl
      have hfirst := (CaseRun.positive_iff.mp (hpositive s hs)).1
      rw [hzero]
      apply Bool.eq_false_iff.mpr
      intro hholds'
      have := (CaseRun.holds_iff.mp hholds').1
      omega

theorem small_of_mem_lowerAfter {before cs : List Char} {d : Char} (h : d ∈ lowerAfter before cs) :
    Small d := by
  induction cs generalizing before with
  | nil => cases h
  | cons c cs ih =>
    rw [lowerAfter] at h
    rcases List.mem_append.mp h with h | h
    · split at h
      · have hforms : Small 'ς' ∧ Small 'σ' := by
          refine ⟨⟨?_, ?_, ?_⟩, ?_, ?_, ?_⟩ <;> decide +kernel
        rw [List.mem_singleton.mp h]
        split
        · exact hforms.1
        · exact hforms.2
      · next hsigma =>
        split at h
        · have hforms : Small 'i' ∧ Small '\u0307' := by
            refine ⟨⟨?_, ?_, ?_⟩, ?_, ?_, ?_⟩ <;> decide +kernel
          rcases List.mem_cons.mp h with rfl | h
          · exact hforms.1
          · rw [List.mem_singleton.mp h]
            exact hforms.2
        · next hdotted =>
          rw [List.mem_singleton.mp h]
          exact small_lowerChar hsigma hdotted
    · exact ih h

theorem lowercase_lowercase (s : String) : lowercase (lowercase s) = lowercase s := by
  unfold lowercase
  rw [String.toList_ofList, lowerAfter_of_small [] fun c hc => small_of_mem_lowerAfter hc]

end ScriptModules
