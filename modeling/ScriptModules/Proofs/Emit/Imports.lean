import Mathlib.Data.List.TakeWhile
import ScriptModules.Emit.Module
import ScriptModules.Proofs.Data.Except
import ScriptModules.Proofs.Path.Specifier

/-!
# What import statements say

Specifiers between keys in normal form are the same wherever the program runs, and so are the texts
that name modules by them (`State.renderModule_eq`).

An aggregator is a list of import statements with one specifier each (`aggregatorText`). Specifiers
are written between quotes as they are. So the text says what is meant only if they can stand there:
`importsOf?` reads the statements, and it gives the specifiers back exactly when none has a quote, a
backslash or the end of a line (`importsOf?_aggregatorText_iff`). A key can be in normal form and
have one of these all the same.
-/

namespace ScriptModules

variable {current current' : Path} {index key : String} {keys specs : List String}

/-! ## The current folder -/

theorem specifierOf_eq (hkey : IsKey key) {target : String} (htarget : IsKey target) :
    specifierOf current key target = specifierOf current' key target := by
  rw [specifierOf, specifierOf, specifier_eq current hkey htarget,
    specifier_eq current' hkey htarget]

/-- The text of a module does not depend on the folder in which the program runs. -/
theorem State.renderModule_eq {s : State} (current current' : Path) (hkey : IsKey key)
    (htargets : ∀ group ∈ s.imports key, IsKey group.1) :
    s.renderModule current key = s.renderModule current' key := by
  have himports : (s.imports key).mapM (importStatement current key) =
      (s.imports key).mapM (importStatement current' key) := by
    refine mapM_congr fun group hgroup => ?_
    rw [importStatement, importStatement, specifierOf_eq hkey (htargets group hgroup)]
  rw [renderModule, renderModule, renderImports, renderImports, himports]

/-! ## Reading imports -/

/-- The character stands for itself between the quotes of a specifier. -/
def isPlainQuoted (c : Char) : Bool := c ≠ '\'' && c ≠ '\\' && c ≠ '\n' && c ≠ '\r'

/-- The text means itself between the quotes of a specifier. -/
def Quotable (s : String) : Prop := ∀ c ∈ s.toList, isPlainQuoted c = true

instance (s : String) : Decidable (Quotable s) :=
  List.decidableBAll (fun c => isPlainQuoted c = true) s.toList

/-- Nothing, or a comment that ends with the line. -/
def isIdle (line : List Char) : Bool :=
  line = [] ||
    "//".toList.isPrefixOf line && line.all fun c => c ≠ '\r' && c ≠ '\u2028' && c ≠ '\u2029'

/-- The module that the import statement on a line names. -/
def importOn? (line : List Char) : Option String :=
  let rest := line.drop "import '".length
  if "import '".toList.isPrefixOf line ∧ rest.dropWhile isPlainQuoted = "';".toList then
    some (String.ofList (rest.takeWhile isPlainQuoted))
  else none

/-- The modules that lines import, when all that is on them are import statements and comments. -/
def importsOn? : List (List Char) → Option (List String)
  | [] => some []
  | line :: lines =>
    if isIdle line then importsOn? lines
    else
      match importOn? line, importsOn? lines with
      | some name, some names => some (name :: names)
      | _, _ => none

/-- The modules that a text imports, in order, when it is made of import statements for effects
alone. -/
def importsOf? (text : String) : Option (List String) :=
  importsOn? (splitWhere (· = '\n') text.toList)

/-- What is read from between quotes can stand there. -/
theorem quotable_of_importsOn? {lines : List (List Char)} {names : List String}
    (h : importsOn? lines = some names) : ∀ name ∈ names, Quotable name := by
  induction lines generalizing names with
  | nil =>
    cases h
    simp
  | cons line lines ih =>
    unfold importsOn? at h
    split at h
    · exact ih h
    · split at h
      · next name rest hname hrest =>
        cases h
        refine List.forall_mem_cons.mpr ⟨?_, ih hrest⟩
        unfold importOn? at hname
        dsimp only at hname
        split at hname
        · cases hname
          intro c hc
          rw [String.toList_ofList] at hc
          exact List.mem_takeWhile_imp hc
        · cases hname
      · cases h

/-- The import statement for effects. -/
def effectImport (spec : String) : String := "import '" ++ spec ++ "';"

theorem importOn?_effectImport {spec : String} (h : Quotable spec) :
    importOn? (effectImport spec).toList = some spec := by
  have htext : (effectImport spec).toList = "import '".toList ++ (spec.toList ++ "';".toList) := by
    simp [effectImport]
  have hrest : (effectImport spec).toList.drop "import '".length = spec.toList ++ "';".toList := by
    rw [htext]
    rfl
  have htake : (spec.toList ++ "';".toList).takeWhile isPlainQuoted = spec.toList := by
    rw [List.takeWhile_append_of_pos h]
    simp [isPlainQuoted]
  have hdrop : (spec.toList ++ "';".toList).dropWhile isPlainQuoted = "';".toList := by
    rw [List.dropWhile_append_of_pos h]
    rfl
  unfold importOn?
  rw [hrest]
  dsimp only
  rw [if_pos ⟨by rw [htext]; simp, hdrop⟩, htake, String.ofList_toList]

theorem isIdle_effectImport (spec : String) : isIdle (effectImport spec).toList = false := by
  simp [isIdle, effectImport]

/-- The text of the aggregator that imports modules by these specifiers. -/
def aggregatorText (specs : List String) : String :=
  generatedHeader ++ String.join (specs.map fun spec => effectImport spec ++ "\n")

theorem splitWhere_line {line rest : List Char} (h : '\n' ∉ line) :
    splitWhere (· = '\n') (line ++ '\n' :: rest) = line :: splitWhere (· = '\n') rest := by
  have hplain : ∀ c ∈ line, decide (c = '\n') = false := fun c hc =>
    decide_eq_false fun heq => h (heq ▸ hc)
  rw [splitWhere_eq_splitOnP, splitWhere_eq_splitOnP,
    List.splitOnP_append_cons_of_forall_mem hplain _ (by decide)]

theorem importsOn?_statements (h : ∀ spec ∈ specs, Quotable spec) :
    importsOn? (splitWhere (· = '\n')
      (String.join (specs.map fun spec => effectImport spec ++ "\n")).toList) = some specs := by
  induction specs with
  | nil => rfl
  | cons spec specs ih =>
    obtain ⟨hspec, hspecs⟩ := List.forall_mem_cons.mp h
    have hline : '\n' ∉ (effectImport spec).toList := by
      have hno : '\n' ∉ spec.toList := fun hmem => absurd (hspec _ hmem) (by decide)
      simp [effectImport, hno]
    have htext : (String.join ((spec :: specs).map fun spec => effectImport spec ++ "\n")).toList =
        (effectImport spec).toList ++
          '\n' :: (String.join (specs.map fun spec => effectImport spec ++ "\n")).toList := by
      simp [String.join_cons]
    rw [htext, splitWhere_line hline, importsOn?, isIdle_effectImport,
      importOn?_effectImport hspec, ih hspecs]
    rfl

/-- An aggregator is read as the imports that it was made of exactly when their specifiers can stand
between quotes. -/
theorem importsOf?_aggregatorText_iff :
    importsOf? (aggregatorText specs) = some specs ↔ ∀ spec ∈ specs, Quotable spec := by
  constructor
  · exact quotable_of_importsOn?
  · intro h
    let statements := String.join (specs.map fun spec => effectImport spec ++ "\n")
    have htext : (aggregatorText specs).toList =
        "// Automatically generated by modulize".toList ++
          '\n' :: ([] ++ '\n' :: statements.toList) := by
      simp [aggregatorText, generatedHeader, statements]
    rw [importsOf?, htext, splitWhere_line (by decide), splitWhere_line (by simp), importsOn?,
      if_pos (by decide +kernel), importsOn?, if_pos (by decide)]
    exact importsOn?_statements h

/-! ## Specifiers of keys -/

theorem quotable_append_iff {s t : String} : Quotable (s ++ t) ↔ Quotable s ∧ Quotable t := by
  simp only [Quotable, String.toList_append, List.forall_mem_append]

theorem quotable_intercalate_iff {parts : List String} :
    Quotable ("/".intercalate parts) ↔ ∀ part ∈ parts, Quotable part := by
  induction parts with
  | nil => simp [Quotable]
  | cons part parts ih =>
    cases parts with
    | nil => simp
    | cons next parts =>
      have hslash : Quotable "/" := by decide
      rw [String.intercalate_cons_cons, quotable_append_iff, quotable_append_iff, ih,
        List.forall_mem_cons]
      simp [hslash]

/-- The specifier of a module can stand between quotes if the key can. -/
theorem quotable_specifier {target spec : String} (hindex : IsKey index) (htarget : IsKey target)
    (hspec : specifier current index target = .ok spec) (h : Quotable target) : Quotable spec := by
  rw [specifier_eq current hindex htarget, Except.ok.injEq] at hspec
  rw [← intercalate_slashParts target, quotable_intercalate_iff] at h
  have hwritten :
      Quotable (written (Path.route (slashParts index).dropLast (slashParts target))) := by
    unfold written
    split
    · decide
    · refine quotable_intercalate_iff.mpr fun part hpart => ?_
      rcases Path.mem_route hpart with rfl | hpart
      · decide
      · exact h part hpart
  subst hspec
  unfold marked
  split
  · exact hwritten
  · exact quotable_append_iff.mpr ⟨by decide, hwritten⟩

/-- An aggregator can name every module, and each by a specifier that leads to it. The specifiers of
keys that can stand between quotes can. -/
theorem exists_renderAggregator (current : Path) (hindex : IsKey index)
    (hkeys : ∀ key ∈ keys, IsKey key) :
    ∃ specs, renderAggregator current keys index = .ok (aggregatorText specs) ∧
      List.Forall₂ (fun key spec => loaded index spec = key) keys specs ∧
      ((∀ key ∈ keys, Quotable key) → ∀ spec ∈ specs, Quotable spec) := by
  have himports : ∃ specs, (keys.mapM fun key => do
        return "import '" ++ (← specifierOf current index key) ++ "';\n") =
          .ok (specs.map fun spec => effectImport spec ++ "\n") ∧
      List.Forall₂ (fun key spec => loaded index spec = key) keys specs ∧
      ((∀ key ∈ keys, Quotable key) → ∀ spec ∈ specs, Quotable spec) := by
    induction keys with
    | nil => exact ⟨[], rfl, .nil, fun _ => by simp⟩
    | cons key keys ih =>
      obtain ⟨hkey, hkeys⟩ := List.forall_mem_cons.mp hkeys
      obtain ⟨spec, hspec, hloaded⟩ := exists_specifier current hindex hkey
      obtain ⟨specs, hmap, hall, hquotable⟩ := ih hkeys
      have hstatement : "import '" ++ spec ++ "';\n" = effectImport spec ++ "\n" :=
        String.toList_inj.mp (by simp [effectImport])
      refine ⟨spec :: specs, ?_, .cons hloaded hall, fun h => ?_⟩
      · rw [List.mapM_cons, hmap, specifierOf, hspec, List.map_cons, ← hstatement]
        rfl
      · obtain ⟨hfirst, hrest⟩ := List.forall_mem_cons.mp h
        exact List.forall_mem_cons.mpr
          ⟨quotable_specifier hindex hkey hspec hfirst, hquotable hrest⟩
  obtain ⟨specs, hmap, hall⟩ := himports
  refine ⟨specs, ?_, hall⟩
  unfold renderAggregator
  rw [hmap]
  rfl

end ScriptModules
