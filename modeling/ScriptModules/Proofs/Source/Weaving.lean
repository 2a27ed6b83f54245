import Mathlib.Data.List.Pairwise
import ScriptModules.Source.Strip

/-!
# What is left of a script without its comments

Spans are cut out from the last to the first, and one that reaches beyond the span cut out before
it is passed over. `cutOut` lists the spans that are not, in ascending order. The result is read off
from front to back (`strip_eq_woven`): the bytes up to the first of these spans, what takes its
place, the bytes up to the next, and so on. Spans in a row are all cut out, whatever order they are
given in (`cutOut_eq_of_perm`).

`outcome` is what comes of a stretch of the script. Wherever no span reaches across an offset, the
result falls apart there (`outcome_append`). So two solid bytes that only spans separate stay apart:
the first of these spans stands between solid bytes, and leaves a blank or a line break.
-/

namespace ScriptModules

variable {source : ByteArray} {lo mid hi : Nat} {spans row : List Span} {s t : Span}

/-! ## Weaving -/

/-- The bytes from `lo` up to `hi`, with each of the spans, given in ascending order, replaced. -/
def woven (source : ByteArray) : (lo hi : Nat) → List Span → ByteArray
  | lo, hi, [] => source.extract lo hi
  | lo, hi, s :: rest =>
    source.extract lo s.start ++ replacement source s ++ woven source s.stop hi rest

/-- Those of the spans, given in descending order, that are cut out before the cursor. -/
def taken : (cursor : Nat) → List Span → List Span
  | _, [] => []
  | cursor, s :: rest => if s.stop > cursor then taken cursor rest else s :: taken s.start rest

/-- The spans from the last to the first, by their start. -/
def lastFirst (spans : List Span) : List Span :=
  spans.mergeSort fun a b => decide (b.start ≤ a.start)

/-- The spans that are cut out of a script, in ascending order. -/
def cutOut (source : ByteArray) (spans : List Span) : List Span :=
  (taken source.size (lastFirst spans)).reverse

theorem woven_append_cons (source : ByteArray) (lo hi : Nat) (front back : List Span) (s : Span) :
    woven source lo hi (front ++ s :: back) =
      woven source lo s.start front ++ replacement source s ++ woven source s.stop hi back := by
  induction front generalizing lo with
  | nil => rfl
  | cons t front ih => simp only [List.cons_append, woven, ih, ByteArray.append_assoc]

/-- Cutting out from the back leaves, before the cursor, what weaving gives. -/
theorem stripDown_eq_woven (source : ByteArray) (cursor : Nat) (done : ByteArray)
    (spans : List Span) :
    stripDown source cursor done spans =
      woven source 0 cursor (taken cursor spans).reverse ++ done := by
  induction spans generalizing cursor done with
  | nil => rfl
  | cons s spans ih =>
    rw [stripDown, taken]
    split
    · exact ih cursor done
    · rw [ih, List.reverse_cons, woven_append_cons, woven]
      simp only [ByteArray.append_assoc]

theorem strip_eq_woven (source : ByteArray) (spans : List Span) :
    strip source spans = woven source 0 source.size (cutOut source spans) := by
  change stripDown source source.size .empty (lastFirst spans) = _
  rw [stripDown_eq_woven, ByteArray.append_empty, cutOut]

/-! ## Spans in a row -/

/-- Spans that stand one behind the other before `size`. -/
structure InRow (size : Nat) (row : List Span) : Prop where
  ordered : ∀ s ∈ row, s.start ≤ s.stop
  apart : row.Pairwise fun s t => s.stop ≤ t.start
  within : ∀ s ∈ row, s.stop ≤ size

/-- Of two spans that do not overlap, one stands behind the other. -/
theorem behind_of_ne (h : spans.Pairwise fun s t => s.stop ≤ t.start ∨ t.stop ≤ s.start)
    (hs : s ∈ spans) (ht : t ∈ spans) (hne : s ≠ t) : s.stop ≤ t.start ∨ t.stop ≤ s.start := by
  have : Std.Symm fun s t : Span => s.stop ≤ t.start ∨ t.stop ≤ s.start := ⟨fun _ _ => Or.symm⟩
  exact h.forall hs ht hne

theorem lastFirst_perm (spans : List Span) : (lastFirst spans).Perm spans :=
  List.mergeSort_perm _ _

theorem lastFirst_sorted (spans : List Span) :
    (lastFirst spans).Pairwise fun s t => t.start ≤ s.start := by
  have hdown : (lastFirst spans).Pairwise fun s t => decide (t.start ≤ s.start) = true :=
    List.pairwise_mergeSort (fun a b c => by simpa using fun hab hbc => Nat.le_trans hbc hab)
      (fun a b => by simpa using Nat.le_total b.start a.start) spans
  exact hdown.imp of_decide_eq_true

/-- Spans that start in order are reversed, provided that the start of a span tells which one it
is. -/
theorem lastFirst_eq_reverse (hperm : spans.Perm row)
    (hsorted : row.Pairwise fun s t => s.start ≤ t.start)
    (hstarts : ∀ s ∈ row, ∀ t ∈ row, s.start = t.start → s = t) :
    lastFirst spans = row.reverse := by
  have hsame : (lastFirst spans).Perm row.reverse :=
    (lastFirst_perm spans).trans (hperm.trans row.reverse_perm.symm)
  refine List.Perm.eq_of_pairwise (fun s t hs ht hst hts => ?_) (lastFirst_sorted spans)
    (List.pairwise_reverse.mpr hsorted) hsame
  exact hstarts s (List.mem_reverse.mp (hsame.subset hs)) t (List.mem_reverse.mp ht)
    (Nat.le_antisymm hts hst)

theorem taken_eq_self {cursor : Nat} (hrow : spans.Pairwise fun s t => t.stop ≤ s.start)
    (hle : ∀ s ∈ spans, s.stop ≤ cursor) : taken cursor spans = spans := by
  induction spans generalizing cursor with
  | nil => rfl
  | cons s spans ih =>
    obtain ⟨hfirst, hrest⟩ := List.pairwise_cons.mp hrow
    rw [taken, if_neg (Nat.not_lt.mpr (hle s (by simp))), ih hrest hfirst]

/-- Spans in a row are all cut out, whatever order they are given in. -/
theorem cutOut_eq_of_perm (hperm : spans.Perm row) (hrow : InRow source.size row)
    (hstarts : ∀ s ∈ row, ∀ t ∈ row, s.start = t.start → s = t) : cutOut source spans = row := by
  have hsorted : row.Pairwise fun s t => s.start ≤ t.start :=
    hrow.apart.imp_of_mem fun hs _ hst => Nat.le_trans (hrow.ordered _ hs) hst
  rw [cutOut, lastFirst_eq_reverse hperm hsorted hstarts, taken_eq_self, List.reverse_reverse]
  · exact List.pairwise_reverse.mpr hrow.apart
  · exact fun s hs => hrow.within s (List.mem_reverse.mp hs)

/-! ## Stretches of a script -/

/-- The spans that lie between two offsets. -/
def inside (lo hi : Nat) (spans : List Span) : List Span :=
  spans.filter fun s => lo ≤ s.start && s.stop ≤ hi

/-- What comes of the bytes from `lo` up to `hi` when the spans are cut out of the script. -/
def outcome (source : ByteArray) (spans : List Span) (lo hi : Nat) : ByteArray :=
  woven source lo hi (inside lo hi (cutOut source spans))

/-- Does the byte at the offset belong to the span? -/
def Span.Covers (s : Span) (i : Nat) : Prop := s.start ≤ i ∧ i < s.stop

instance (s : Span) (i : Nat) : Decidable (s.Covers i) := inferInstanceAs (Decidable (_ ∧ _))

theorem mem_inside : s ∈ inside lo hi spans ↔ s ∈ spans ∧ lo ≤ s.start ∧ s.stop ≤ hi := by
  simp [inside]

theorem woven_append {front back : List Span} (hlo : lo ≤ mid) (hhi : mid ≤ hi)
    (hfront : ∀ s ∈ front, s.stop ≤ mid) (hback : ∀ s ∈ back, mid ≤ s.start) :
    woven source lo hi (front ++ back) = woven source lo mid front ++ woven source mid hi back := by
  induction front generalizing lo with
  | nil =>
    cases back with
    | nil => exact ByteArray.extract_eq_extract_append_extract mid hlo hhi
    | cons s back =>
      have hs : mid ≤ s.start := hback s (by simp)
      simp only [List.nil_append, woven,
        ByteArray.extract_eq_extract_append_extract (a := source) mid hlo hs,
        ByteArray.append_assoc]
  | cons s front ih =>
    obtain ⟨hs, hfront⟩ := List.forall_mem_cons.mp hfront
    simp only [List.cons_append, woven, ih hs hfront, ByteArray.append_assoc]

/-- An offset that no span of a row reaches across parts the row. -/
theorem inside_append (hrow : row.Pairwise fun s t => s.stop ≤ t.start)
    (hne : ∀ s ∈ row, s.start < s.stop) (hlo : lo ≤ mid) (hhi : mid ≤ hi)
    (hmid : ∀ s ∈ row, s.stop ≤ mid ∨ mid ≤ s.start) :
    inside lo hi row = inside lo mid row ++ inside mid hi row := by
  induction row with
  | nil => rfl
  | cons s row ih =>
    obtain ⟨hafter, hrow⟩ := List.pairwise_cons.mp hrow
    obtain ⟨hs, hne⟩ := List.forall_mem_cons.mp hne
    obtain ⟨hside, hmid⟩ := List.forall_mem_cons.mp hmid
    unfold inside at ih ⊢
    rcases hside with hside | hside
    · have hright : ¬ mid ≤ s.start := by omega
      have hstop : s.stop ≤ hi := by omega
      simp only [List.filter_cons, hside, hstop, hright, decide_true, decide_false, Bool.and_true,
        ih hrow hne hmid]
      split <;> simp
    · have hstarts : ∀ t ∈ s :: row, mid ≤ t.start ∧ t.start < t.stop := by
        refine List.forall_mem_cons.mpr ⟨⟨hside, hs⟩, fun t ht => ⟨?_, hne t ht⟩⟩
        have hst := hafter t ht
        omega
      have hnone : (s :: row).filter (fun t => lo ≤ t.start && t.stop ≤ mid) = [] := by
        rw [List.filter_eq_nil_iff]
        intro t ht
        have hbeyond : ¬ t.stop ≤ mid := by
          have ⟨hstart, hstop⟩ := hstarts t ht
          omega
        simp [hbeyond]
      rw [hnone, List.nil_append]
      refine List.filter_congr fun t ht => ?_
      have hstart := (hstarts t ht).1
      simp [hstart, Nat.le_trans hlo hstart]

/-- What takes the place of a span is part of what is woven. -/
theorem mem_woven_of_mem_replacement {b : UInt8} (hs : s ∈ row)
    (hb : b ∈ (replacement source s).data) : b ∈ (woven source lo hi row).data := by
  obtain ⟨front, back, rfl⟩ := List.append_of_mem hs
  rw [woven_append_cons, ByteArray.data_append, ByteArray.data_append]
  exact Array.mem_append_left _ (Array.mem_append_right _ hb)

/-! ## What takes the place of a span -/

theorem newline_mem_replacement (h : 10 ∈ (source.extract s.start s.stop).data) :
    10 ∈ (replacement source s).data := by
  rw [replacement, if_pos (Array.contains_iff_mem.mpr h)]
  exact Array.mem_singleton.mpr rfl

/-- A span between two solid bytes leaves a blank or a line break. -/
theorem exists_white_mem_replacement (hpos : 0 < s.start)
    (hbefore : solidAt source (s.start - 1) = true) (hafter : solidAt source s.stop = true) :
    ∃ b ∈ (replacement source s).data, isWhite b = true := by
  by_cases hline : 10 ∈ (source.extract s.start s.stop).data
  · exact ⟨10, newline_mem_replacement hline, by decide⟩
  · rw [replacement, if_neg (fun h => hline (Array.contains_iff_mem.mp h)),
      if_pos ⟨hpos, hbefore, hafter⟩]
    exact ⟨32, Array.mem_singleton.mpr rfl, by decide⟩

/-! ## Tokens stay apart -/

/-- Spans as those of comments: they do not overlap, none is empty, all lie inside the script, and
all start with a byte that is not blank. -/
structure Cuttable (source : ByteArray) (spans : List Span) : Prop where
  disjoint : spans.Pairwise fun s t => s.stop ≤ t.start ∨ t.stop ≤ s.start
  nonempty : ∀ s ∈ spans, s.start < s.stop
  within : ∀ s ∈ spans, s.stop ≤ source.size
  solid : ∀ s ∈ spans, solidAt source s.start = true

/-- Two bytes outside all spans, neither of them blank, have nothing but spans between them. -/
structure SpansBetween (source : ByteArray) (spans : List Span) (i j : Nat) : Prop where
  gap : i + 1 < j
  solid_left : solidAt source i = true
  solid_right : solidAt source j = true
  left_outside : ∀ s ∈ spans, ¬ s.Covers i
  right_outside : ∀ s ∈ spans, ¬ s.Covers j
  covered : ∀ k, i < k → k < j → ∃ s ∈ spans, s.Covers k

theorem lt_size_of_solidAt {i : Nat} (h : solidAt source i = true) : i < source.size := by
  by_contra hge
  have hnone : source[i]? = none := getElem?_neg source i hge
  rw [solidAt, hnone] at h
  cases h

namespace Cuttable

/-- The spans of a script, sorted from the last to the first, stand one before the other. -/
theorem lastFirst_apart (h : Cuttable source spans) :
    (lastFirst spans).Pairwise fun s t => t.stop ≤ s.start := by
  have hdisjoint := h.disjoint.perm (lastFirst_perm spans).symm Or.symm
  refine ((lastFirst_sorted spans).and hdisjoint).imp_of_mem fun {s t} hs ht hst => ?_
  have hne := h.nonempty s ((lastFirst_perm spans).subset hs)
  omega

/-- All spans are cut out. -/
theorem cutOut_eq (h : Cuttable source spans) :
    cutOut source spans = (lastFirst spans).reverse := by
  rw [cutOut, taken_eq_self h.lastFirst_apart]
  exact fun s hs => h.within s ((lastFirst_perm spans).subset hs)

theorem mem_cutOut (h : Cuttable source spans) : s ∈ cutOut source spans ↔ s ∈ spans := by
  rw [h.cutOut_eq, List.mem_reverse, (lastFirst_perm spans).mem_iff]

theorem cutOut_apart (h : Cuttable source spans) :
    (cutOut source spans).Pairwise fun s t => s.stop ≤ t.start := by
  rw [h.cutOut_eq]
  exact List.pairwise_reverse.mpr h.lastFirst_apart

/-- The result is what comes of the whole script. -/
theorem strip_eq_outcome (h : Cuttable source spans) :
    strip source spans = outcome source spans 0 source.size := by
  have hall : inside 0 source.size (cutOut source spans) = cutOut source spans := by
    refine List.filter_eq_self.mpr fun s hs => ?_
    simpa using h.within s (h.mem_cutOut.mp hs)
  rw [strip_eq_woven, outcome, hall]

/-- Where no span reaches across an offset, the result falls apart. -/
theorem outcome_append (h : Cuttable source spans) (hlo : lo ≤ mid) (hhi : mid ≤ hi)
    (hmid : ∀ s ∈ spans, s.stop ≤ mid ∨ mid ≤ s.start) :
    outcome source spans lo hi = outcome source spans lo mid ++ outcome source spans mid hi := by
  rw [outcome, inside_append h.cutOut_apart (fun s hs => h.nonempty s (h.mem_cutOut.mp hs)) hlo hhi
    fun s hs => hmid s (h.mem_cutOut.mp hs)]
  exact woven_append hlo hhi (fun s hs => (mem_inside.mp hs).2.2) fun s hs => (mem_inside.mp hs).2.1

/-- A byte outside all spans stays, and the result falls apart before and behind it. -/
theorem outcome_at {i : Nat} (h : Cuttable source spans) (hout : ∀ s ∈ spans, ¬ s.Covers i)
    (hlo : lo ≤ i) (hhi : i < hi) :
    outcome source spans lo hi = outcome source spans lo i ++ source.extract i (i + 1) ++
      outcome source spans (i + 1) hi := by
  have hside : ∀ s ∈ spans, s.stop ≤ i ∨ i + 1 ≤ s.start := by
    intro s hs
    have hcovers := hout s hs
    unfold Span.Covers at hcovers
    omega
  have hbyte : outcome source spans i (i + 1) = source.extract i (i + 1) := by
    have hnone : inside i (i + 1) (cutOut source spans) = [] := by
      refine List.eq_nil_iff_forall_not_mem.mpr fun s hs => ?_
      obtain ⟨hs, hstart, hstop⟩ := mem_inside.mp hs
      have hne := h.nonempty s (h.mem_cutOut.mp hs)
      have := hside s (h.mem_cutOut.mp hs)
      omega
    rw [outcome, hnone, woven]
  rw [h.outcome_append hlo (Nat.le_of_lt hhi) fun s hs => (hside s hs).imp_right Nat.le_of_succ_le,
    h.outcome_append (Nat.le_succ i) hhi fun s hs => (hside s hs).imp_left Nat.le_succ_of_le, hbyte,
    ByteArray.append_assoc]

end Cuttable

/-- The first span between two solid bytes is followed by a solid byte: the second one of the two,
or the start of another span. -/
theorem SpansBetween.exists_first {i j : Nat} (hbetween : SpansBetween source spans i j)
    (h : Cuttable source spans) :
    ∃ s ∈ spans, s.start = i + 1 ∧ s.stop ≤ j ∧ solidAt source s.stop = true := by
  obtain ⟨s, hs, hcovers⟩ := hbetween.covered (i + 1) (Nat.lt_succ_self i) hbetween.gap
  have hleft := hbetween.left_outside s hs
  have hright := hbetween.right_outside s hs
  have hgap := hbetween.gap
  unfold Span.Covers at hcovers hleft hright
  have hstop : s.stop ≤ j := by omega
  refine ⟨s, hs, by omega, hstop, ?_⟩
  rcases Nat.lt_or_eq_of_le hstop with hlt | heq
  · obtain ⟨t, ht, htcovers⟩ := hbetween.covered s.stop (by omega) hlt
    unfold Span.Covers at htcovers
    have hne : s ≠ t := by
      rintro rfl
      omega
    have hnext : t.start = s.stop := by
      have := behind_of_ne h.disjoint hs ht hne
      omega
    exact hnext ▸ h.solid t ht
  · exact heq ▸ hbetween.solid_right

/-- Cutting out spans never joins what they kept apart. When two solid bytes have nothing but spans
between them, the result holds both, each behind what comes of the bytes before it; between them it
has a blank, and a line break when one of these spans has one. -/
theorem strip_keeps_apart (source : ByteArray) (spans : List Span) (h : Cuttable source spans)
    (i j : Nat) (hbetween : SpansBetween source spans i j) :
    strip source spans = outcome source spans 0 i ++ source.extract i (i + 1) ++
      outcome source spans (i + 1) j ++ source.extract j (j + 1) ++
      outcome source spans (j + 1) source.size ∧
    (∃ b ∈ (outcome source spans (i + 1) j).data, isWhite b = true) ∧
    ∀ s ∈ spans, i < s.start → s.stop ≤ j → 10 ∈ (source.extract s.start s.stop).data →
      10 ∈ (outcome source spans (i + 1) j).data := by
  have hgap := hbetween.gap
  have hj := lt_size_of_solidAt hbetween.solid_right
  refine ⟨?_, ?_, fun s hs hstart hstop hline => ?_⟩
  · rw [h.strip_eq_outcome, h.outcome_at hbetween.left_outside (Nat.zero_le i) (by omega),
      h.outcome_at hbetween.right_outside (Nat.le_of_lt hgap) hj]
    simp only [ByteArray.append_assoc]
  · obtain ⟨s, hs, hstart, hstop, hafter⟩ := hbetween.exists_first h
    have hbefore : solidAt source (s.start - 1) = true := by
      rw [hstart]
      exact hbetween.solid_left
    obtain ⟨b, hb, hwhite⟩ := exists_white_mem_replacement (by omega) hbefore hafter
    refine ⟨b, mem_woven_of_mem_replacement ?_ hb, hwhite⟩
    exact mem_inside.mpr ⟨h.mem_cutOut.mpr hs, Nat.le_of_eq hstart.symm, hstop⟩
  · refine mem_woven_of_mem_replacement ?_ (newline_mem_replacement hline)
    exact mem_inside.mpr ⟨h.mem_cutOut.mpr hs, hstart, hstop⟩

/-- A script in which two comments touch, the second of them over a line break. -/
def touching : ByteArray := "a/*x*//*\n*/b".toUTF8

/-- The comments of `touching`, the last one first. -/
def touchingSpans : List Span := [⟨6, 11⟩, ⟨1, 6⟩]

theorem strip_keeps_apart_touching :
    (Cuttable touching touchingSpans ∧ SpansBetween touching touchingSpans 0 11) ∧
    strip touching touchingSpans = "a \nb".toUTF8 ∧
    (∃ b ∈ (outcome touching touchingSpans 1 11).data, isWhite b = true) ∧
    10 ∈ (outcome touching touchingSpans 1 11).data := by
  have hcuttable : Cuttable touching touchingSpans :=
    ⟨by decide, by decide, by decide +kernel, by decide +kernel⟩
  have hcovered : ∀ k, 0 < k → k < 11 → ∃ s ∈ touchingSpans, s.Covers k := by
    intro k hpos hlt
    by_cases hk : k < 6
    · exact ⟨⟨1, 6⟩, by decide, hpos, hk⟩
    · exact ⟨⟨6, 11⟩, by decide, Nat.le_of_not_lt hk, hlt⟩
  have hbetween : SpansBetween touching touchingSpans 0 11 :=
    ⟨by decide, by decide +kernel, by decide +kernel, by decide, by decide, hcovered⟩
  have hstrip : strip touching touchingSpans = "a \nb".toUTF8 := by
    rw [strip, List.mergeSort_of_pairwise (by decide)]
    decide +kernel
  obtain ⟨-, hwhite, hline⟩ := strip_keeps_apart touching touchingSpans hcuttable 0 11 hbetween
  exact ⟨⟨hcuttable, hbetween⟩, hstrip, hwhite,
    hline ⟨6, 11⟩ (by decide) (by decide) (by decide) (by decide +kernel)⟩

end ScriptModules
