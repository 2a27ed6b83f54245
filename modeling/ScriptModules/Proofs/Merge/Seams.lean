import Mathlib.Data.List.Induction
import ScriptModules.Link.Ingest
import ScriptModules.Proofs.Data.Except
import ScriptModules.Proofs.Merge.Conservation
import ScriptModules.Script.Parse

/-!
# Where one text ends and the next begins

A merge puts the text of the retired file right behind that of the survivor, with nothing between
them. So a script keeps its first line to itself only when the text before it ends a line: the text
of a file is that of its `contents` one after the other (`Run.composition_contents`), and
`atLineStart_join_iff` says when the next text starts on a line of its own. `resolve_scriptsApart`
is the exact condition under which a resolution keeps scripts apart, and `script_swallowed` two
scripts of which the second disappears in the comment at the end of the first.
-/

namespace ScriptModules

/-- The characters that end a line of a script. -/
def isLineTerminator (c : Char) : Bool :=
  c = '\n' || c = '\r' || c = '\u2028' || c = '\u2029'

/-- The last character of the text ends a line. -/
def EndsLine (text : String) : Prop := text.toList.getLast?.any isLineTerminator = true

instance (text : String) : Decidable (EndsLine text) :=
  inferInstanceAs (Decidable (text.toList.getLast?.any isLineTerminator = true))

/-- What follows the text starts at offset 0 or right after a line terminator. -/
def AtLineStart (before : String) : Prop := before = "" ∨ EndsLine before

instance (before : String) : Decidable (AtLineStart before) :=
  inferInstanceAs (Decidable (before = "" ∨ EndsLine before))

theorem toList_ne_nil {x : String} (h : x ≠ "") : x.toList ≠ [] := by
  rwa [ne_eq, String.toList_eq_nil_iff]

/-- The end of a text is that of its last part that is not empty. -/
theorem endsLine_append {x y : String} (hy : y ≠ "") : EndsLine (x ++ y) ↔ EndsLine y := by
  unfold EndsLine
  rw [String.toList_append, List.getLast?_append_of_ne_nil _ (toList_ne_nil hy)]

theorem atLineStart_join_iff (texts : List String) : AtLineStart (String.join texts) ↔
    ∀ x ∈ (texts.filter (· ≠ "")).getLast?, EndsLine x := by
  induction texts using List.reverseRecOn with
  | nil => simp [AtLineStart]
  | append_singleton texts x ih =>
    rw [String.join_append, List.filter_append]
    by_cases hx : x = ""
    · simpa [hx] using ih
    · have hne : String.join texts ++ x ≠ "" := by simp [hx]
      simp [AtLineStart, hx, hne, endsLine_append hx]

namespace State

variable {s t : State} {ms : List Merge} {P : State → Merge → Prop}

/-- The file is the only one of its script. -/
def Unsplit (s : State) (a : String) : Prop :=
  ∀ b ∈ s.files.keys, s.sources.get? b = s.sources.get? a → b = a

instance (s : State) (a : String) : Decidable (s.Unsplit a) :=
  inferInstanceAs (Decidable (∀ b ∈ s.files.keys, s.sources.get? b = s.sources.get? a → b = a))

/-- In the files of `t`, every script of `s` that was not split starts on a line of its own. -/
def ScriptsApart (s t : State) : Prop :=
  ∀ k ∈ t.files.keys, ∀ before a after, contents (s.journal t) k = before ++ a :: after →
    s.Unsplit a → AtLineStart (String.join (before.map s.text))

/-- A resolution puts nothing between the texts that it folds together. It keeps scripts apart
exactly when, for each script in a file that is left, the nearest text before it that is not empty
ends a line; in particular when every text does. -/
theorem resolve_scriptsApart (s : State) (o : ResolveOptions) :
    let t := (s.resolve o).value.1
    let ms := s.journal t
    (∀ k ∈ t.files.keys, Composition s t ms k (contents ms k)) ∧
    (s.ScriptsApart t ↔ ∀ k ∈ t.files.keys, ∀ before a after,
      contents ms k = before ++ a :: after → s.Unsplit a →
        ∀ x ∈ ((before.map s.text).filter (· ≠ "")).getLast?, EndsLine x) ∧
    ((∀ b ∈ s.files.keys, s.text b = "" ∨ EndsLine (s.text b)) → s.ScriptsApart t) := by
  obtain ⟨ms, hrun⟩ := resolve_run s o
  have hcomp : ∀ k ∈ (s.resolve o).value.1.files.keys,
      Composition s (s.resolve o).value.1 ms k (contents ms k) := fun k => hrun.composition_contents
  simp only [ScriptsApart, atLineStart_join_iff, hrun.journal_eq]
  refine ⟨hcomp, trivial, ?_⟩
  intro hends k hk before a after hsplit _ x hx
  obtain ⟨hxmem, hxne⟩ := List.mem_filter.mp (List.mem_of_getLast? hx)
  obtain ⟨b, hb, rfl⟩ := List.mem_map.mp hxmem
  have hb' : b ∈ contents ms k := by
    rw [hsplit]
    exact List.mem_append_left _ hb
  have hkey : b ∈ s.files.keys := (((hcomp k hk).mem_iff b).mp hb').1
  exact (hends b hkey).resolve_left (of_decide_eq_true hxne)

/-- The first script ends in a comment without a line break, and the second assigns its name. -/
def unterminated : List Input :=
  [⟨"a.js", "a.js", "var x = 1; // one".toUTF8⟩, ⟨"b.js", "b.js", "x = 2;\n".toUTF8⟩]

/-- The second script is swallowed by the comment at the end of the first. -/
theorem script_swallowed :
    ∃ l, (link Script.parse ⟨false, none, .last⟩ (.new true) unterminated).value = .ok l ∧
      (l.state.resolve ⟨true, false, 10, none⟩).value.1.text "a.js" = "var x = 1; // onex = 2;\n" ∧
      ¬ l.state.ScriptsApart (l.state.resolve ⟨true, false, 10, none⟩).value.1 := by
  let t (l : Linkage) : State := (l.state.resolve ⟨true, false, 10, none⟩).value.1
  obtain ⟨l, hl, hp⟩ := exists_ok_of_any
    (x := (link Script.parse ⟨false, none, .last⟩ (.new true) unterminated).value)
    (p := fun l => (t l).text "a.js" = "var x = 1; // onex = 2;\n" ∧ "a.js" ∈ (t l).files.keys ∧
      contents (l.state.journal (t l)) "a.js" = ["a.js", "b.js"] ∧ l.state.Unsplit "b.js" ∧
      ¬ AtLineStart (String.join (["a.js"].map l.state.text))) (by decide +kernel)
  obtain ⟨htext, hkey, hcontents, hunsplit, hstart⟩ := of_decide_eq_true hp
  exact ⟨l, hl, htext, fun h => hstart (h "a.js" hkey ["a.js"] "b.js" [] hcontents hunsplit)⟩

end State

end ScriptModules
