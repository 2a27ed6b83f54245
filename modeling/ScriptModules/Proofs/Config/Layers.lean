import ScriptModules.Cli.Run
import ScriptModules.Config.Lax
import ScriptModules.Proofs.Config.Read

/-!
# Layers of options

The options of a run are read from a configuration, written down as a table, changed where the
command line says so, and read again. Values may be read in many forms, by any rules that read a
value in its own form as itself, and are written in one. Options that were read fit
(`Options.Fits`), and so does their table (`ofEntries_toEntries_iff`). What the command line leaves
open keeps its value (`overridden_ok_iff`).

One thing may change on the way. Dots are put before the texts of a list of suffixes, and not before
suffixes that come in another form; but what is written is a list of texts. So suffixes that were
read without a dot get one when they are read again (`Options.withDots`).

Main statement: `accepted_survives`. `suffixes_gain_dots` is data that does not survive.
-/

namespace ScriptModules

/-! ## Options that were read -/

namespace Options

variable {rules : Coercion} {o o' : Options} {entries : Entries}

/-- The values of options that not every value of their type may have. -/
structure Fits (o : Options) : Prop where
  maxSize : ∀ n ∈ o.maxSize, 0 < n
  index : isInnerName o.index = true
  maxPasses : 1 ≤ o.maxPasses

/-- The options with dots before all suffixes. -/
def withDots (o : Options) : Options := { o with extensions := o.extensions.map dotted }

theorem withDots_eq_self_iff :
    o.withDots = o ↔ ∀ s ∈ o.extensions, s.startsWith "." = true := by
  have hself : o.withDots = o ↔ o.extensions.map dotted = o.extensions := by
    constructor
    · intro h
      exact congrArg extensions h
    · intro h
      rw [withDots, h]
  have hmap : o.extensions.map dotted = o.extensions ↔ ∀ s ∈ o.extensions, dotted s = s := by
    simpa using List.map_eq_map_iff (f := dotted) (g := id) (l := o.extensions)
  rw [hself, hmap]
  simp only [dotted_eq_self_iff]

theorem ofEntries_ok_iff : ofEntries rules entries = .ok o ↔
    (check rules entries).problems = [] ∧ unknownKeys entries = [] ∧
      (check rules entries).value = o := by
  unfold ofEntries
  dsimp only
  split
  · next h =>
    obtain ⟨hcheck, hknown⟩ := List.append_eq_nil_iff.mp h
    simp [hcheck, hknown]
  · next h =>
    refine iff_of_false (by simp) ?_
    rintro ⟨hcheck, hknown, -⟩
    exact h (by rw [hcheck, hknown]; rfl)

/-- Options that were read fit. -/
theorem fits_of_ofEntries (h : ofEntries rules entries = .ok o) : o.Fits := by
  obtain ⟨-, -, rfl⟩ := ofEntries_ok_iff.mp h
  refine ⟨?_, ?_, ?_⟩
  · refine readEntry_value (P := fun m : Option Int => ∀ n ∈ m, 0 < n)
      (by simp [Options.default]) ?_
    intro key _ v m _ hm n hn
    simpa using readIntThat_ok (readOptional_ok hm n hn)
  · refine readEntry_value (P := fun s => isInnerName s = true) (by decide +kernel) ?_
    intro key _ v s _
    exact readIndex_ok
  · refine readEntry_value (P := fun n : Int => 1 ≤ n) (by decide) ?_
    intro key _ v n _ hn
    simpa using readIntThat_ok hn

/-- Suffixes that are given as a list of texts, or not at all, have their dots. -/
theorem withDots_of_ofEntries (hrules : rules.Faithful) (h : ofEntries rules entries = .ok o)
    (htexts : ∀ v, entries.lookup "extensions" = some v → ∃ l, v = texts l) : o.withDots = o := by
  obtain ⟨-, -, rfl⟩ := ofEntries_ok_iff.mp h
  rw [withDots_eq_self_iff]
  refine readEntry_value (P := fun l : List String => ∀ s ∈ l, s.startsWith "." = true)
    (by decide +kernel) ?_
  intro key hkey v l hv hl s hs
  rw [List.mem_singleton.mp hkey] at hv
  obtain ⟨given, rfl⟩ := htexts v hv
  rw [readSuffixes_texts hrules, Except.ok.injEq] at hl
  obtain ⟨t, -, rfl⟩ := List.mem_map.mp (hl ▸ hs)
  exact startsWith_dotted t

/-! ## Reading options again -/

theorem unknownKeys_toEntries (o : Options) : unknownKeys o.toEntries = [] := by rfl

section Again

variable (hrules : rules.Faithful)
include hrules

theorem readOptional_text (m : Option String) :
    readOptional (readWhole rules.text) (optional .text m) = .ok m := by
  cases m with
  | none => rfl
  | some s =>
    show (readWhole rules.text (.text s)).map some = .ok (some s)
    rw [readWhole_eq (hrules.text s)]
    rfl

theorem readOptional_int {test : Int → Bool} {kind : ProblemKind} {m : Option Int}
    (h : ∀ n ∈ m, test n = true) :
    readOptional (readIntThat rules test kind) (optional .int m) = .ok m := by
  cases m with
  | none => rfl
  | some n =>
    show (readIntThat rules test kind (.int n)).map some = .ok (some n)
    rw [readIntThat_int hrules, if_pos (h n rfl)]
    rfl

theorem readOptional_int_wrong {test : Int → Bool} {kind : ProblemKind} {n : Int}
    (h : test n = false) :
    readOptional (readIntThat rules test kind) (optional .int (some n)) = wrong kind := by
  show (readIntThat rules test kind (.int n)).map some = wrong kind
  rw [readIntThat_int hrules, if_neg (by simp [h])]
  rfl

/-- Options that fit are read again as they were written, with dots before their suffixes. -/
theorem check_toEntries (h : o.Fits) : check rules o.toEntries = ⟨o.withDots, []⟩ := by
  have hbool : ∀ b, readWhole rules.bool (.bool b) = .ok b := fun b => readWhole_eq (hrules.bool b)
  have hsize : readOptional (readIntThat rules (0 < ·) .tooSmall) (optional .int o.maxSize) =
      .ok o.maxSize := readOptional_int hrules fun n hn => decide_eq_true (h.maxSize n hn)
  have hindex : readIndex rules (.text o.index) = .ok o.index := by
    rw [readIndex_text hrules, if_pos h.index]
  have hpasses : readIntThat rules (1 ≤ ·) .below (.int o.maxPasses) = .ok o.maxPasses := by
    rw [readIntThat_int hrules, if_pos (decide_eq_true h.maxPasses)]
  unfold check
  dsimp only
  -- One option after the other, as they are read. The first two arguments evaluate the table, whose
  -- keys do not depend on the options.
  rw [readEntry_bind rfl rfl (readOptional_text hrules o.dest), readEntry_bind rfl rfl hsize,
    readEntry_bind rfl rfl (hbool o.stripComments), readEntry_bind rfl rfl (hbool o.renameDups),
    readEntry_bind rfl rfl (hbool o.combine), readEntry_bind rfl rfl hindex,
    readEntry_bind rfl rfl (readTexts_texts hrules o.files),
    readEntry_bind rfl rfl (readSuffixes_texts hrules o.extensions),
    readEntry_bind rfl rfl (readTexts_texts hrules o.included),
    readEntry_bind rfl rfl (readTexts_texts hrules o.excluded),
    readEntry_bind rfl rfl (hbool o.nestedIgnore),
    readEntry_bind rfl rfl (readPolicy_name o.duplicates),
    readEntry_bind rfl rfl (hbool o.fixpoint), readEntry_bind rfl rfl hpasses,
    readEntry_bind rfl rfl (readOptional_text hrules o.report),
    readEntry_bind rfl rfl (hbool o.verbose), readEntry_bind rfl rfl (hbool o.debug)]
  rfl

/-- Options that do not fit are not read again. -/
theorem fits_of_check (h : (check rules o.toEntries).problems = []) : o.Fits := by
  unfold check at h
  simp only [Checked.problems_bind, List.append_eq_nil_iff] at h
  obtain ⟨-, hsize, -, -, -, hindex, -, -, -, -, -, -, -, hpasses, -⟩ := h
  refine ⟨?_, ?_, ?_⟩
  · intro n hn
    by_contra hno
    have hwrong : readOptional (readIntThat rules (0 < ·) .tooSmall) (optional .int o.maxSize) =
        wrong .tooSmall := by
      rw [show o.maxSize = some n from hn]
      exact readOptional_int_wrong hrules (decide_eq_false hno)
    exact readEntry_of_wrong rfl rfl hwrong hsize
  · by_contra hno
    have hwrong : readIndex rules (.text o.index) = wrong .badValue := by
      rw [readIndex_text hrules, if_neg hno]
    exact readEntry_of_wrong rfl rfl hwrong hindex
  · by_contra hno
    have hwrong : readIntThat rules (1 ≤ ·) .below (.int o.maxPasses) = wrong .below := by
      rw [readIntThat_int hrules, if_neg (by simpa using hno)]
    exact readEntry_of_wrong rfl rfl hwrong hpasses

/-- Written options are read again exactly when they fit. -/
theorem ofEntries_toEntries_iff : ofEntries rules o.toEntries = .ok o' ↔
    o.Fits ∧ o' = o.withDots := by
  rw [ofEntries_ok_iff]
  constructor
  · rintro ⟨hcheck, -, rfl⟩
    have hfits := fits_of_check hrules hcheck
    exact ⟨hfits, by rw [check_toEntries hrules hfits]⟩
  · rintro ⟨hfits, rfl⟩
    rw [check_toEntries hrules hfits]
    exact ⟨rfl, unknownKeys_toEntries o, rfl⟩

end Again

end Options

/-! ## Options from the command line -/

/-- Of named values some of which are left open, one is found when it is given. -/
theorem lookup_given {given : List (String × Option Value)} (h : (given.map Prod.fst).Nodup)
    (key : String) : (given.filterMap fun (name, v) => v.map (name, ·)).lookup key =
      (given.lookup key).join := by
  induction given with
  | nil => rfl
  | cons first given ih =>
    obtain ⟨name, v⟩ := first
    obtain ⟨hname, hgiven⟩ := List.nodup_cons.mp h
    by_cases hkey : key = name
    · subst hkey
      cases v with
      | some v => simp
      | none =>
        have habsent : given.lookup key = none := by
          rw [List.lookup_eq_none_iff]
          intro e he
          exact bne_iff_ne.mpr fun heq => hname (List.mem_map.mpr ⟨e, he, heq.symm⟩)
        simp [ih hgiven, habsent]
    · have hbeq : (key == name) = false := beq_false_of_ne hkey
      cases v <;> simp [List.lookup_cons, hbeq, ih hgiven]

theorem optional_or (f : α → Value) (m m' : Option α) :
    Options.optional f (m.or m') = (m.map f).getD (Options.optional f m') := by
  cases m <;> rfl

namespace Cli

variable {t : Settings} {report : Option Path} {o o' : Options}

/-- The values that a command line may set. -/
structure Settings.Fits (t : Settings) : Prop where
  maxSize : ∀ n ∈ t.maxSize, 0 < n
  index : ∀ s ∈ t.index, isInnerName s = true
  maxPasses : ∀ n ∈ t.maxPasses, 1 ≤ n

/-- The options that a command line sets, and those that it leaves open as they were. -/
def Settings.laidOver (t : Settings) (report : Option Path) (o : Options) : Options :=
  { o with
    maxSize := t.maxSize.or o.maxSize
    stripComments := t.stripComments.getD o.stripComments
    renameDups := t.renameDups.getD o.renameDups
    combine := t.combine.getD o.combine
    index := t.index.getD o.index
    files := t.files.getD o.files
    duplicates := t.duplicates.getD o.duplicates
    fixpoint := t.fixpoint.getD o.fixpoint
    maxPasses := t.maxPasses.getD o.maxPasses
    report := (report.map Path.toString).or o.report
    verbose := t.verbose.getD o.verbose
    debug := t.debug.getD o.debug }

/-- The table of options with some entries replaced is the table of the options laid over. -/
theorem toEntries_laidOver (t : Settings) (report : Option Path) (o : Options) :
    (t.laidOver report o).toEntries =
      o.toEntries.map fun e => (e.1, ((t.overrides report).lookup e.1).getD e.2) := by
  have hlookup : ∀ key, (t.overrides report).lookup key = ((t.given report).lookup key).join :=
    lookup_given (by simp [Settings.given])
  simp only [hlookup]
  simp [Options.toEntries, Settings.laidOver, Settings.given, List.lookup_cons, optional_or,
    Function.comp_def]

theorem fits_laidOver_iff (h : o.Fits) : (t.laidOver report o).Fits ↔ t.Fits := by
  have hsize : (∀ n ∈ t.maxSize.or o.maxSize, 0 < n) ↔ ∀ n ∈ t.maxSize, 0 < n := by
    cases t.maxSize with
    | none => simpa using h.maxSize
    | some n => simp
  have hindex : isInnerName (t.index.getD o.index) = true ↔
      ∀ s ∈ t.index, isInnerName s = true := by
    cases t.index with
    | none => simpa using h.index
    | some s => simp
  have hpasses : 1 ≤ t.maxPasses.getD o.maxPasses ↔ ∀ n ∈ t.maxPasses, 1 ≤ n := by
    cases t.maxPasses with
    | none => simpa using h.maxPasses
    | some n => simp
  constructor
  · rintro ⟨h₁, h₂, h₃⟩
    exact ⟨hsize.mp h₁, hindex.mp h₂, hpasses.mp h₃⟩
  · rintro ⟨h₁, h₂, h₃⟩
    exact ⟨hsize.mpr h₁, hindex.mpr h₂, hpasses.mpr h₃⟩

/-- A command line is taken when what it sets may be set, and then nothing else changes but for the
dots before suffixes. -/
theorem overridden_ok_iff {rules : Coercion} (hrules : rules.Faithful) (hfits : o.Fits) :
    overridden rules t report o = .ok o' ↔ t.Fits ∧ o' = t.laidOver report o.withDots := by
  unfold overridden
  dsimp only
  rw [← toEntries_laidOver, mapError_eq_ok_iff, Options.ofEntries_toEntries_iff hrules,
    fits_laidOver_iff hfits]
  rfl

end Cli

/-- Options that any data was accepted for, by any rules that read values in their own form as
themselves, are written and read again with dots before their suffixes and without another change.
So they survive exactly when all suffixes had their dots, and that is so when the suffixes were
given as a list of texts or not at all. Whatever a command line sets then, all other options keep
their values in the same way. -/
theorem Options.accepted_survives (rules : Coercion) (hrules : rules.Faithful) (v : Value)
    (o : Options) (h : Options.ofValue rules v = .ok o) :
    Options.ofValue rules o.toValue = .ok o.withDots ∧
    (Options.ofValue rules o.toValue = .ok o ↔ ∀ s ∈ o.extensions, s.startsWith "." = true) ∧
    (∀ entries, v = .table entries →
      (∀ data, entries.lookup "extensions" = some data → ∃ l, data = Options.texts l) →
      o.withDots = o) ∧
    ∀ (t : Cli.Settings) (report : Option Path) (o' : Options),
      Cli.overridden rules t report o = .ok o' ↔ t.Fits ∧ o' = t.laidOver report o.withDots := by
  obtain ⟨entries, rfl⟩ : ∃ entries, v = .table entries := by
    cases v with
    | table entries => exact ⟨entries, rfl⟩
    | _ => cases h
  have hfits : o.Fits := Options.fits_of_ofEntries h
  have hagain : Options.ofValue rules o.toValue = .ok o.withDots :=
    (Options.ofEntries_toEntries_iff hrules).mpr ⟨hfits, rfl⟩
  refine ⟨hagain, ?_, ?_, fun t report o' => Cli.overridden_ok_iff hrules hfits⟩
  · rw [hagain, Except.ok.injEq, Options.withDots_eq_self_iff]
  · intro entries' heq htexts
    cases heq
    exact Options.withDots_of_ofEntries hrules h htexts

/-- Data with both spellings of keys and with values in other forms than they are written in. -/
def mixedData : Value := .table [("maxSize", .text " +0_7.0 "), ("strip_comments", .text "Yes"),
  ("extensions", .list [.text "js", .text ".mjs"]), ("combine", .int 1),
  ("max_passes", .real (.finite 20 (-1))), ("duplicateDefinitions", .text "first"),
  ("indexjs", .bytes "lib/main.js".toUTF8), ("files", .sequence [.text "a.js"]), ("dest", .null)]

theorem Options.accepted_survives_mixedData :
    let o : Options := { Options.default with
      maxSize := some 7, stripComments := true, extensions := [".js", ".mjs"], combine := true,
      maxPasses := 2, duplicates := .first, index := "lib/main.js", files := ["a.js"] }
    let t : Cli.Settings := { Cli.Settings.empty with maxSize := some 9, combine := some false }
    Coercion.lax.Faithful ∧ Options.ofValue .lax mixedData = .ok o ∧
      Options.ofValue .lax o.toValue = .ok o ∧
      Cli.overridden .lax t none o = .ok { o with maxSize := some 9, combine := false } := by
  intro o t
  have h : Options.ofValue .lax mixedData = .ok o := by decide +kernel
  obtain ⟨-, hagain, hdots, hover⟩ :=
    Options.accepted_survives .lax Coercion.lax_faithful mixedData o h
  have hsame : o.withDots = o := hdots _ rfl fun data hdata => ⟨["js", ".mjs"], by
    rw [← Option.some.inj hdata]
    rfl⟩
  refine ⟨Coercion.lax_faithful, h, hagain.mpr (by decide +kernel), ?_⟩
  refine (hover t none _).mpr ⟨⟨?_, ?_, ?_⟩, by rw [hsame]; rfl⟩
  · simp [t]
  · simp [t, Cli.Settings.empty]
  · simp [t, Cli.Settings.empty]

/-- Suffixes that come as a tuple, or as bytes in a list, are accepted without their dots. When the
options are read again they get them, also from a command line that sets nothing. -/
theorem Options.suffixes_gain_dots :
    let o : Options := { Options.default with extensions := ["js"] }
    let o' : Options := { Options.default with extensions := [".js"] }
    Options.ofValue .lax (.table [("extensions", .sequence [.text "js"])]) = .ok o ∧
    Options.ofValue .lax (.table [("extensions", .list [.bytes "js".toUTF8])]) = .ok o ∧
    Options.ofValue .lax o.toValue = .ok o' ∧ o ≠ o' ∧
    Cli.overridden .lax Cli.Settings.empty none o = .ok o' := by
  decide +kernel

/-! ## The options of a run -/

theorem Options.fits_of_load {rules : Coercion} {d : Disk} {root : Path} {o : Options}
    (h : Options.load rules d root = .ok o) : o.Fits := by
  unfold Options.load at h
  dsimp only at h
  split at h
  · obtain ⟨content, -, h⟩ := bind_eq_ok_iff.mp h
    obtain ⟨text, -, h⟩ := bind_eq_ok_iff.mp h
    split at h
    · cases h
    · exact Options.fits_of_ofEntries (mapError_eq_ok_iff.mp h)
  · cases h
    exact ⟨by simp [Options.default], by decide +kernel, by decide⟩

/-- The options of a run are those of its configuration file, with what the command line sets. -/
theorem Cli.optionsFor_ok_iff {rules : Coercion} (hrules : rules.Faithful) {w : Surroundings}
    {d : Disk} {root : Path} {t : Settings} {o' : Options} :
    optionsFor rules w d root t = .ok o' ↔
      ∃ o report, Options.load rules d root = .ok o ∧ t.report.mapM (w.absolute d) = .ok report ∧
        t.Fits ∧ o' = t.laidOver report o.withDots := by
  rw [optionsFor, bind_eq_ok_iff]
  refine exists_congr fun o => ?_
  rw [bind_eq_ok_iff, ← exists_and_left]
  refine exists_congr fun report => and_congr_right fun hload => and_congr_right fun _ => ?_
  exact overridden_ok_iff hrules (Options.fits_of_load hload)

end ScriptModules
