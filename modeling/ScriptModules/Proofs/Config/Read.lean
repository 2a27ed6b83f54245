import ScriptModules.Config.Options
import ScriptModules.Proofs.Data.Except

/-!
# Reading the entries of a configuration

What is known of a value that was read, whatever the rules for foreign forms are, and that a value
in its own form is read as itself when the rules are faithful.
-/

namespace ScriptModules

variable {α β : Type}

/-! ## Checked values -/

theorem Checked.problems_bind (x : Checked α) (f : α → Checked β) :
    (x >>= f).problems = x.problems ++ (f x.value).problems := rfl

section Entry

variable {entries : Entries} {spellings : List String} {key : String} {fallback : α}
  {read : ValueReader α} {v : Value}

/-- An entry that can be read is handed on. -/
theorem readEntry_bind {a : α} (hspelling : spelling? entries spellings = some key)
    (hlookup : entries.lookup key = some v) (hread : read v = .ok a) {f : α → Checked β} :
    readEntry entries spellings fallback read >>= f = f a := by
  have hentry : readEntry entries spellings fallback read = ⟨a, []⟩ := by
    simp [readEntry, hspelling, hlookup, hread]
  rw [hentry]
  rfl

theorem readEntry_of_wrong {kind : ProblemKind} (hspelling : spelling? entries spellings = some key)
    (hlookup : entries.lookup key = some v) (hread : read v = wrong kind) :
    (readEntry entries spellings fallback read).problems ≠ [] := by
  simp [readEntry, hspelling, hlookup, hread, wrong]

/-- What is read has a property that the fallback has, and all that is read from an entry. -/
theorem readEntry_value {P : α → Prop} (hfallback : P fallback)
    (hread : ∀ key ∈ spellings, ∀ v a, entries.lookup key = some v → read v = .ok a → P a) :
    P (readEntry entries spellings fallback read).value := by
  unfold readEntry
  split
  · exact hfallback
  · next key hkey =>
    split
    · next a h =>
      obtain ⟨v, hv, hva⟩ := Option.map_eq_some_iff.mp h
      exact hread key (List.mem_of_find?_eq_some hkey) v a hv hva
    · exact hfallback
    · exact hfallback

end Entry

/-! ## Readers -/

section Readers

variable {rules : Coercion} {read : ValueReader α} {test : Int → Bool} {kind : ProblemKind}
  {v : Value}

theorem readWhole_eq {read : Value → Except ProblemKind α} {a : α} (h : read v = .ok a) :
    readWhole read v = .ok a := by
  rw [readWhole, h]
  rfl

theorem readIntThat_ok {n : Int} (h : readIntThat rules test kind v = .ok n) : test n = true := by
  obtain ⟨m, -, h⟩ := bind_eq_ok_iff.mp h
  split at h
  · next htest =>
    cases h
    exact htest
  · cases h

theorem readOptional_ok {m : Option α} (h : readOptional read v = .ok m) :
    ∀ a ∈ m, read v = .ok a := by
  intro a ha
  cases ha
  unfold readOptional at h
  split at h
  · cases h
  · cases hread : read v with
    | error ps =>
      rw [hread] at h
      cases h
    | ok b =>
      rw [hread] at h
      cases h
      rfl

/-- Whatever the rules for texts are, a name of an aggregator is read only if it passes the

check. -/
theorem readIndex_ok {s : String} (h : readIndex rules v = .ok s) : isInnerName s = true := by
  obtain ⟨t, -, h⟩ := bind_eq_ok_iff.mp h
  split at h
  · next hinner =>
    cases h
    exact hinner
  · cases h

theorem readPolicy_name (p : DuplicatePolicy) : readPolicy (.text p.name) = .ok p := by
  cases p <;> rfl

theorem startsWith_dotted (s : String) : (dotted s).startsWith "." = true := by
  unfold dotted
  split
  · next h => exact h
  · exact String.startsWith_string_iff.mpr (by simp)

theorem dotted_eq_self_iff {s : String} : dotted s = s ↔ s.startsWith "." = true := by
  constructor
  · intro h
    rw [← h]
    exact startsWith_dotted s
  · intro h
    rw [dotted, if_pos h]

/-! Values in their own form are read as themselves. -/

variable (hrules : rules.Faithful)
include hrules

theorem readIntThat_int (n : Int) :
    readIntThat rules test kind (.int n) = if test n then .ok n else wrong kind := by
  rw [readIntThat, readWhole_eq (hrules.int n)]
  rfl

theorem readIndex_text (s : String) :
    readIndex rules (.text s) = if isInnerName s then .ok s else wrong .badValue := by
  rw [readIndex, readWhole_eq (hrules.text s)]
  rfl

theorem readItems_text (i : Nat) (l : List String) :
    readItems rules i (l.map .text) = .ok l := by
  induction l generalizing i with
  | nil => rfl
  | cons s l ih => simp [readItems, hrules.text, ih]

theorem readTexts_texts (l : List String) : readTexts rules (Options.texts l) = .ok l := by
  rw [readTexts, Options.texts, readWhole_eq (hrules.items _)]
  exact readItems_text hrules 0 l

/-- Suffixes in a list of texts get their dots. -/
theorem readSuffixes_texts (l : List String) :
    readSuffixes rules (Options.texts l) = .ok (l.map dotted) := by
  have hitems : dottedItems (Options.texts l) = Options.texts (l.map dotted) := by
    simp [dottedItems, Options.texts, dottedItem]
  rw [readSuffixes, hitems, readTexts_texts hrules]

end Readers

end ScriptModules
