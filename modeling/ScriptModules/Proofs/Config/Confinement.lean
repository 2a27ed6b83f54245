import ScriptModules.Config.Lax
import ScriptModules.Emit.Write
import ScriptModules.Input.Find
import ScriptModules.Proofs.Config.Read
import ScriptModules.Proofs.Path.Retitle

/-!
# Where the aggregator goes

The name of the aggregator is checked by its components between slashes, and used by its
components between slashes and backslashes (`outputPath_normalize`). The two differ: a name can be
accepted and still lead out of the output folder, or to that folder itself (`accepted_outside`).
`accepted_liesBelow_iff` says that there is no third way: with a component left and without a
backslash in front of `..`, an accepted name stays below the folder.
-/

namespace ScriptModules

variable {v : String}

/-- The path leads to something inside the folder: names follow the folder's path, and none of
them leads up. -/
def Path.LiesBelow (p folder : Path) : Prop :=
  ∃ names, names ≠ [] ∧ ".." ∉ names ∧ p = Disk.under folder names

theorem liesBelow_under_iff {folder : Path} {names : Location} :
    (Disk.under folder names).LiesBelow folder ↔ names ≠ [] ∧ ".." ∉ names := by
  constructor
  · rintro ⟨names', hne, hup, heq⟩
    have hnames : names = names' := List.append_cancel_left (congrArg Path.parts heq)
    rw [hnames]
    exact ⟨hne, hup⟩
  · rintro ⟨hne, hup⟩
    exact ⟨names, hne, hup, rfl⟩

theorem splitWhere_congr {p q : Char → Bool} {cs : List Char} (h : ∀ c ∈ cs, p c = q c) :
    splitWhere p cs = splitWhere q cs := by
  induction cs with
  | nil => rfl
  | cons c cs ih =>
    obtain ⟨hc, hcs⟩ := List.forall_mem_cons.mp h
    rw [splitWhere, splitWhere, hc, ih hcs]

/-- Without a backslash both ways to split a text agree. -/
theorem components_of_no_backslash (h : '\\' ∉ v.toList) :
    components isSeparator v = components (· = '/') v := by
  have hsplit : splitWhere isSeparator v.toList = splitWhere (· = '/') v.toList := by
    apply splitWhere_congr
    intro c hc
    have hback : c ≠ '\\' := fun heq => h (heq ▸ hc)
    simp [isSeparator, hback]
  unfold components
  rw [hsplit]

theorem normalize_eq_empty_iff : normalize v = "" ↔ components isSeparator v = [] := by
  constructor
  · intro h
    have hempty : Path.ofString "" = ⟨.none, []⟩ := by decide +kernel
    have hkey := keyPath_eq v
    rw [keyPath, h, hempty] at hkey
    exact (Path.mk.inj hkey).2.symm
  · intro h
    exact congrArg "/".intercalate h

/-- The path of a normalized name follows the components between both kinds of slashes. -/
theorem outputPath_normalize (dest : Path) (v : String) :
    outputPath dest (normalize v) = Disk.under dest (components isSeparator v) := by
  have hkey : Path.ofString (normalize v) = ⟨.none, components isSeparator v⟩ := keyPath_eq v
  rw [outputPath, hkey]
  rfl

theorem up_notMem_of_isInnerName (h : isInnerName v = true) : ".." ∉ components (· = '/') v := by
  simp only [isInnerName, Bool.and_eq_true] at h
  simpa [Path.ofString] using h.2

/-- An accepted name stays below the output folder, unless it has no component left, or a
backslash has hidden `..` from the check. -/
theorem accepted_liesBelow_iff (rules : Coercion) (v : String) (dest : Path)
    (h : readIndex rules (.text v) = .ok v) :
    (outputPath dest (normalize v)).LiesBelow dest ↔
      normalize v ≠ "" ∧ ('\\' ∈ v.toList → ".." ∉ (Path.ofString (normalize v)).parts) := by
  have hparts : (Path.ofString (normalize v)).parts = components isSeparator v :=
    congrArg Path.parts (keyPath_eq v)
  rw [outputPath_normalize, liesBelow_under_iff, hparts, Ne, Ne, normalize_eq_empty_iff]
  refine and_congr_right fun _ => ⟨fun hup _ => hup, fun hup => ?_⟩
  by_cases hback : '\\' ∈ v.toList
  · exact hup hback
  · rw [components_of_no_backslash hback]
    exact up_notMem_of_isInnerName (readIndex_ok h)

/-- A name in a folder of its own is accepted and stays below. -/
theorem accepted_liesBelow_iff_nested :
    readIndex .lax (.text "./lib//main.js") = .ok "./lib//main.js" ∧
    (outputPath ⟨.root, ["out"]⟩ (normalize "./lib//main.js")).LiesBelow ⟨.root, ["out"]⟩ :=
  have h : readIndex .lax (.text "./lib//main.js") = .ok "./lib//main.js" := by decide +kernel
  ⟨h, (accepted_liesBelow_iff .lax _ ⟨.root, ["out"]⟩ h).mpr (by decide +kernel)⟩

/-- Names are accepted that lead out of the folder, or to the folder itself. -/
theorem accepted_outside :
    (readIndex .lax (.text "..\\x.js") = .ok "..\\x.js" ∧ normalize "..\\x.js" = "../x.js" ∧
      ¬ (outputPath ⟨.root, ["out"]⟩ (normalize "..\\x.js")).LiesBelow ⟨.root, ["out"]⟩) ∧
    readIndex .lax (.text ".") = .ok "." ∧ normalize "." = "" ∧
      outputPath ⟨.root, ["out"]⟩ (normalize ".") = ⟨.root, ["out"]⟩ ∧
      ¬ (outputPath ⟨.root, ["out"]⟩ (normalize ".")).LiesBelow ⟨.root, ["out"]⟩ := by
  have hread : readIndex .lax (.text "..\\x.js") = .ok "..\\x.js" ∧
      readIndex .lax (.text ".") = .ok "." := by decide +kernel
  have hup : normalize "..\\x.js" = "../x.js" := by decide +kernel
  have hdot : normalize "." = "" := by decide +kernel
  refine ⟨⟨hread.1, hup, ?_⟩, hread.2, hdot, ?_, ?_⟩
  · rw [outputPath_normalize, liesBelow_under_iff]
    decide +kernel
  · rw [outputPath_normalize, normalize_eq_empty_iff.mp hdot]
    rfl
  · rw [outputPath_normalize, liesBelow_under_iff, normalize_eq_empty_iff.mp hdot]
    exact fun h => h.1 rfl

end ScriptModules
