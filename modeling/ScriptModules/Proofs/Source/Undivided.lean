import ScriptModules.Proofs.Source.Pieces

/-!
# No unit is cut in two

Units as a parser gives them (`Laid`) do not overlap and start with neither a blank nor a line
break. Going from the end of one of them over blanks and a line break therefore stops before the
next one starts (`lineEnd_le_of_inked`), so that every unit, up to where it closes, lies between the
one before and the one after it (`Seated`). A cut where a unit closes then lies inside no unit.
-/

namespace ScriptModules

variable {source : ByteArray} {units : List CodeUnit}

/-- Units as a parser gives them: they follow the order of the script without overlapping, none is
empty, all lie inside the script, and none starts with a blank or with a byte of a line break. -/
structure Laid (source : ByteArray) (units : List CodeUnit) : Prop extends Lined source units where
  inked : ∀ u ∈ units, ∀ h : u.start < source.size, source[u.start] ∉ gapBytes

/-- Parts in a row. -/
def joined (parts : List ByteArray) : ByteArray := parts.foldr (· ++ ·) .empty

/-- Closed units that stand one behind the other between `start` and `size`. -/
structure Seated (size start : Nat) (items : List (CodeUnit × Nat)) : Prop where
  behind : ∀ i ∈ items, start ≤ i.1.start
  nonempty : ∀ i ∈ items, i.1.start < i.1.stop
  closed : ∀ i ∈ items, i.1.stop ≤ i.2
  within : ∀ i ∈ items, i.2 ≤ size
  apart : items.Pairwise fun i j => i.2 ≤ j.1.start

/-! ## Where laid units close -/

/-- The end of the line is not behind a byte that is neither a blank nor part of a line break. -/
theorem lineEnd_le_of_inked {pos i : Nat} (hi : i < source.size) (hink : source[i] ∉ gapBytes)
    (hpos : pos ≤ i) : lineEnd source pos ≤ i := by
  induction hn : i - pos generalizing pos with
  | zero =>
    obtain rfl : pos = i := by omega
    rcases lineEnd_of_lt hi with h | ⟨hgap, -⟩
    · omega
    · exact (hink hgap).elim
  | succ n ih =>
    have hlt : pos < source.size := by omega
    rcases lineEnd_of_lt hlt with h | ⟨-, h | h⟩
    · omega
    · omega
    · rw [h]
      exact ih (by omega) (by omega)

theorem closedUnits_cons (source : ByteArray) (u : CodeUnit) {us : List CodeUnit} (h : us ≠ []) :
    closedUnits source (u :: us) = (u, lineEnd source u.stop) :: closedUnits source us := by
  rw [closedUnits, closings.eq_3 source u us h, List.zip_cons_cons, closedUnits]

theorem Laid.tail {u : CodeUnit} (h : Laid source (u :: units)) : Laid source units where
  toLined := h.toLined.tail
  inked := (List.forall_mem_cons.mp h.inked).2

/-- A laid unit closes before the units behind it start. -/
theorem Laid.lineEnd_le {u v : CodeUnit} (h : Laid source (u :: units)) (hv : v ∈ units) :
    lineEnd source u.stop ≤ v.start := by
  have hapart := List.rel_of_pairwise_cons h.apart hv
  have hne := h.nonempty v (by simp [hv])
  have hin := h.within v (by simp [hv])
  have hlt : v.start < source.size := by omega
  exact lineEnd_le_of_inked hlt (h.inked v (by simp [hv]) hlt) hapart

theorem Laid.seated (h : Laid source units) : Seated source.size 0 (closedUnits source units) := by
  induction units with
  | nil => exact ⟨nofun, nofun, nofun, nofun, .nil⟩
  | cons u us ih =>
    have hne := h.nonempty u (by simp)
    have hin := h.within u (by simp)
    by_cases hus : us = []
    · subst hus
      have hone : closedUnits source [u] = [(u, source.size)] := rfl
      rw [hone]
      exact ⟨fun _ _ => Nat.zero_le _, List.forall_mem_singleton.mpr hne,
        List.forall_mem_singleton.mpr hin, List.forall_mem_singleton.mpr (Nat.le_refl _),
        List.pairwise_singleton _ _⟩
    · obtain ⟨hbehind, hnonempty, hclosed, hwithin, hapart⟩ := ih h.tail
      rw [closedUnits_cons source u hus]
      refine ⟨fun i _ => Nat.zero_le _, List.forall_mem_cons.mpr ⟨hne, hnonempty⟩,
        List.forall_mem_cons.mpr ⟨le_lineEnd source u.stop, hclosed⟩,
        List.forall_mem_cons.mpr ⟨lineEnd_le_size hin, hwithin⟩,
        List.pairwise_cons.mpr ⟨fun i hi => ?_, hapart⟩⟩
      have hmem : i.1 ∈ us := by
        rw [← map_fst_closedUnits source us]
        exact List.mem_map_of_mem hi
      exact h.lineEnd_le hmem

/-! ## Pieces of seated units -/

namespace Seated

variable {size start : Nat} {us rest : List (CodeUnit × Nat)} {u : CodeUnit × Nat}

/-- A unit closes behind where it and the units before it start. -/
theorem lt (h : Seated size start (us ++ u :: rest)) : start < u.2 := by
  have hbehind := h.behind u (by simp)
  have hne := h.nonempty u (by simp)
  have hclosed := h.closed u (by simp)
  omega

theorem start_lt {items : List (CodeUnit × Nat)} (h : Seated size start items)
    (hitems : items ≠ []) : start < size := by
  obtain ⟨i, items', rfl⟩ := List.exists_cons_of_ne_nil hitems
  have hfirst : Seated size start ([] ++ i :: items') := h
  exact Nat.lt_of_lt_of_le hfirst.lt (h.within i (by simp))

theorem rising {items : List (CodeUnit × Nat)} (h : Seated size start items)
    (hstart : start ≤ size) : Rising size start items := by
  have hclosed : ∀ i ∈ items, i.1.start ≤ i.2 := fun i hi =>
    (h.nonempty i hi).le.trans (h.closed i hi)
  refine ⟨hstart, fun i hi => (h.behind i hi).trans (hclosed i hi), h.within, ?_⟩
  exact h.apart.imp_of_mem fun _ hj hij => hij.trans (hclosed _ hj)

/-- The units of a piece end where its last unit closes, or before. -/
theorem stop_le (h : Seated size start (us ++ u :: rest)) {i : CodeUnit × Nat}
    (hi : i ∈ us ++ [u]) : i.1.stop ≤ u.2 := by
  have hrising := h.rising (h.start_lt (by simp)).le
  exact (h.closed i (by grind)).trans (hrising.le_last hi)

/-- The units after a cut stand behind it. -/
theorem after_cut (h : Seated size start (us ++ u :: rest)) : Seated size u.2 rest := by
  have hsub : ∀ i ∈ rest, i ∈ us ++ u :: rest := by simp_all
  obtain ⟨hfirst, hapart⟩ := List.pairwise_cons.mp (List.pairwise_append.mp h.apart).2.1
  exact ⟨hfirst, fun i hi => h.nonempty i (hsub i hi), fun i hi => h.closed i (hsub i hi),
    fun i hi => h.within i (hsub i hi), hapart⟩

theorem rising_after_cut (h : Seated size start (us ++ u :: rest)) : Rising size u.2 rest :=
  (h.rising (h.start_lt (by simp)).le).after_cut

end Seated

namespace CutInto

variable {size start : Nat} {items : List (CodeUnit × Nat)} {ps : List Piece}

/-- Each piece starts behind the ones before it. -/
theorem starts_increase (h : CutInto size start items ps) (hs : Seated size start items) :
    (ps.map (·.start)).Pairwise (· < ·) := by
  induction h with
  | last start items => exact List.pairwise_singleton _ _
  | cut hitems _ h ih =>
    subst hitems
    rw [List.map_cons, List.pairwise_cons]
    refine ⟨fun b hb => ?_, ih hs.after_cut⟩
    obtain ⟨p, hp, rfl⟩ := List.mem_map.mp hb
    exact Nat.lt_of_lt_of_le hs.lt (h.start_le hs.rising_after_cut p hp)

/-- As every piece leaves a unit over or is the last one, none starts at the end. -/
theorem start_lt_size (h : CutInto size start items ps) (hs : Seated size start items)
    (hitems : items ≠ []) : ∀ p ∈ ps, p.start < size := by
  induction h with
  | last start items => exact List.forall_mem_singleton.mpr (hs.start_lt hitems)
  | cut hitems' hrest _ ih =>
    exact List.forall_mem_cons.mpr ⟨hs.start_lt hitems, ih (hitems' ▸ hs).after_cut hrest⟩

/-- The units that a piece holds lie inside it. -/
theorem holds (h : CutInto size start items ps) (hs : Seated size start items) :
    ∀ p ∈ ps, ∀ i ∈ p.units, p.start ≤ i.1.start ∧ i.1.stop ≤ p.stop := by
  induction h with
  | last start items =>
    refine List.forall_mem_singleton.mpr fun i hi => ⟨hs.behind i hi, ?_⟩
    exact (hs.closed i hi).trans (hs.within i hi)
  | cut hitems _ _ ih =>
    subst hitems
    refine List.forall_mem_cons.mpr ⟨fun i hi => ⟨?_, hs.stop_le hi⟩, ih hs.after_cut⟩
    exact hs.behind i (by grind)

/-- The first pieces, in a row, reach up to where the next one starts, or to the end. -/
theorem joined_front {front back : List Piece}
    (h : CutInto source.size start items (front ++ back))
    (hs : Seated source.size start items) :
    joined (front.map (·.bytes source)) =
      source.extract start ((back.map (·.start)).head?.getD source.size) := by
  induction front generalizing start items with
  | nil =>
    obtain ⟨p, ps, rfl, hp⟩ := h.exists_first
    simp [joined, hp]
  | cons b front ih =>
    generalize hps : b :: front ++ back = ps at h
    cases h with
    | last =>
      obtain ⟨rfl, rfl, rfl⟩ : b = _ ∧ front = [] ∧ back = [] := by simpa using hps
      simp [joined, Piece.bytes]
    | @cut _ _ us rest u _ hitems _ h =>
      cases hps
      subst hitems
      have hnext : u.2 ≤ (back.map (·.start)).head?.getD source.size := by
        cases back with
        | nil => exact hs.within u (by simp)
        | cons p back => exact h.start_le hs.rising_after_cut p (by simp)
      rw [List.map_cons, joined, List.foldr_cons]
      change source.extract start u.2 ++ joined (front.map (·.bytes source)) = _
      rw [ih h hs.after_cut]
      exact (ByteArray.extract_eq_extract_append_extract u.2 hs.lt.le hnext).symm

end CutInto

/-! ## The parts of a script -/

/-- Cutting a script keeps its bytes and its units: the parts start at increasing offsets, the first
at 0 and all of them before the end of a script that has a unit, they make up the script in a row,
and every unit lies inside one of them. -/
theorem boundaries_undivided (source : ByteArray) (units : List CodeUnit) (limit : Option Int)
    (h : Laid source units) :
    let bounds := boundaries source units limit
    bounds.head? = some 0 ∧ bounds.Pairwise (· < ·) ∧
    (units ≠ [] → ∀ b ∈ bounds, b < source.size) ∧
    ∃ parts, split source bounds = .ok parts ∧ joined parts = source ∧
      ∀ u ∈ units, ∃ before part after, parts = before ++ part :: after ∧
        (joined before).size ≤ u.start ∧ u.stop ≤ (joined before).size + part.size := by
  obtain ⟨ps, hcut, hstarts, -, -⟩ := boundaries_packed source units limit
  have hs := h.seated
  simp only [← hstarts]
  refine ⟨?_, hcut.starts_increase hs, fun hunits b hb => ?_, _, hcut.split_eq, ?_, fun u hu => ?_⟩
  · obtain ⟨p, ps', rfl, hp⟩ := hcut.exists_first
    rw [List.map_cons, List.head?_cons, hp]
  · obtain ⟨p, hp, rfl⟩ := List.mem_map.mp hb
    refine hcut.start_lt_size hs (fun hnil => hunits ?_) p hp
    rw [← map_fst_closedUnits source units, hnil, List.map_nil]
  · have hall : CutInto source.size 0 (closedUnits source units) (ps ++ []) := by
      rwa [List.append_nil]
    rw [hall.joined_front hs]
    exact ByteArray.extract_zero_size
  · have hmem : u ∈ (closedUnits source units).map (·.1) := by rwa [map_fst_closedUnits]
    obtain ⟨i, hi, rfl⟩ := List.mem_map.mp hmem
    rw [← hcut.units_eq] at hi
    obtain ⟨p, hp, hi⟩ := List.mem_flatMap.mp hi
    obtain ⟨hstart, hstop⟩ := hcut.holds hs p hp i hi
    have hsize := (hcut.inside (hs.rising (Nat.zero_le _)) p hp).2
    obtain ⟨before, after, rfl⟩ := List.append_of_mem hp
    have hbefore : joined (before.map (·.bytes source)) = source.extract 0 p.start :=
      hcut.joined_front hs
    refine ⟨before.map (·.bytes source), p.bytes source, after.map (·.bytes source),
      by rw [List.map_append, List.map_cons], ?_⟩
    rw [hbefore, Piece.bytes, ByteArray.size_extract, ByteArray.size_extract]
    omega

/-- A script with a blank line between two line breaks of two bytes each, and a line that two units
share. -/
def spaced : ByteArray := "a;\r\n  \r\nb; c;\n\n".toUTF8

/-- The units of `spaced`. -/
def spacedUnits : List CodeUnit :=
  [⟨"expression_statement", 0, 2⟩, ⟨"expression_statement", 8, 10⟩,
    ⟨"expression_statement", 11, 13⟩]

theorem boundaries_undivided_spaced : Laid spaced spacedUnits ∧
    boundaries spaced spacedUnits (some 3) = [0, 4, 10] ∧
    ∃ parts, split spaced [0, 4, 10] = .ok parts ∧ joined parts = spaced ∧
      ∀ u ∈ spacedUnits, ∃ before part after, parts = before ++ part :: after ∧
        (joined before).size ≤ u.start ∧ u.stop ≤ (joined before).size + part.size := by
  have hlaid : Laid spaced spacedUnits :=
    ⟨⟨by decide, by decide, by decide, by decide +kernel⟩, by decide +kernel⟩
  have hbounds : boundaries spaced spacedUnits (some 3) = [0, 4, 10] := by decide +kernel
  obtain ⟨-, -, -, hparts⟩ := boundaries_undivided spaced spacedUnits (some 3) hlaid
  rw [hbounds] at hparts
  exact ⟨hlaid, hbounds, hparts⟩

end ScriptModules
