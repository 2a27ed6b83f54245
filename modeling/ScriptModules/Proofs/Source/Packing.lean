import ScriptModules.Proofs.Source.Pieces

/-!
# No other way of cutting makes fewer pieces

A way of cutting in which every piece but the last is full stays ahead of every other one that
keeps to the limit: wherever a piece of it ends, the other way has made as many cuts already, at
offsets that are not behind (`Tight.length_le`). As the cuts that are made leave full pieces, the
number of parts is the least that the limit allows.
-/

namespace ScriptModules

variable {source : ByteArray} {size : Nat} {limit : Option Int}

/-! ## Units that end in order -/

theorem closedUnits_rising {units : List CodeUnit} (hwithin : ∀ u ∈ units, u.stop ≤ source.size)
    (hordered : (units.map (·.stop)).Pairwise (· ≤ ·)) :
    Rising source.size 0 (closedUnits source units) := by
  have hclosing : ∀ i ∈ closedUnits source units, i.2 ∈ closings source units := by
    intro i hi
    rw [← map_snd_closedUnits]
    exact List.mem_map_of_mem hi
  refine ⟨Nat.zero_le _, fun i _ => Nat.zero_le _, fun i hi => ?_, ?_⟩
  · rcases mem_closings (hclosing i hi) with h | ⟨u, hu, h⟩
    · exact h.le
    · rw [h]
      exact lineEnd_le_size (hwithin u hu)
  · have hsorted := closings_ordered hwithin hordered
    rw [← map_snd_closedUnits] at hsorted
    exact List.pairwise_map.mp hsorted

theorem Piece.size_bytes {p : Piece} (h : p.start ≤ p.stop ∧ p.stop ≤ source.size) :
    ((p.bytes source).size : Int) = p.stop - p.start := by
  rw [Piece.bytes, ByteArray.size_extract]
  omega

/-! ## Full pieces stay ahead -/

/-- Full pieces of some of the units are no more than the pieces of another way of cutting these
units and more before them, from an earlier offset on. -/
theorem Tight.length_le {start : Nat} {items : List (CodeUnit × Nat)} {ps : List Piece}
    (hp : CutInto size start items ps) (htight : Tight limit ps) {start' : Nat}
    {before : List (CodeUnit × Nat)} {qs : List Piece}
    (hq : CutInto size start' (before ++ items) qs) (ho : Rising size start' (before ++ items))
    (hstart : start' ≤ start)
    (hfits : ∀ q ∈ qs, 1 < q.units.length → ∀ l ∈ limit, (q.stop : Int) - q.start ≤ l) :
    ps.length ≤ qs.length := by
  induction hp generalizing start' before qs with
  | last start items =>
    obtain ⟨q, qs', rfl, -⟩ := hq.exists_first
    simp
  | @cut start items us rest u ps hitems hrest hp ih =>
    subst hitems
    obtain ⟨hfull, htight⟩ := htight
    obtain ⟨v, rest, rfl⟩ := List.exists_cons_of_ne_nil hrest
    obtain ⟨l, hl, hover⟩ : ∃ l ∈ limit, l < (v.2 : Int) - start :=
      hfull v (by rw [hp.units_eq]; rfl)
    generalize hitems' : before ++ (us ++ u :: v :: rest) = items' at hq ho
    cases hq with
    | last =>
      -- A single piece would hold `u` and `v`, so it would be too long.
      have hlen : 1 < items'.length := by
        simp only [← hitems', List.length_append, List.length_cons]
        omega
      have hle : (size : Int) - start' ≤ l := List.forall_mem_singleton.mp hfits hlen l hl
      have hv : v.2 ≤ size := ho.within v (by simp [← hitems'])
      omega
    | @cut _ _ us' rest' u' qs hitems hrest' hq =>
      obtain ⟨hfirst, hfits⟩ := List.forall_mem_cons.mp hfits
      subst hitems
      -- The other piece does not reach beyond the full one either.
      have hahead : ∃ more, before ++ us ++ [u] = us' ++ [u'] ++ more ∧
          rest' = more ++ v :: rest := by
        have hsplit : (before ++ us ++ [u]) ++ (v :: rest) = (us' ++ [u']) ++ rest' := by
          simpa using hitems'
        rcases List.append_eq_append_iff.mp hsplit with ⟨extra, hus', hrest⟩ | h
        · cases extra with
          | nil => exact ⟨[], by simpa using hus'.symm, by simpa using hrest.symm⟩
          | cons w extra =>
            obtain ⟨rfl, rfl⟩ := List.cons.inj hrest
            have hlen : 1 < (us' ++ [u']).length := by
              simp only [hus', List.length_append, List.length_cons]
              omega
            have hle : (u'.2 : Int) - start' ≤ l := hfirst hlen l hl
            have hv : v.2 ≤ u'.2 := ho.le_last (by simp [hus'])
            omega
        · exact h
      obtain ⟨more, hmore, rfl⟩ := hahead
      have hle : u'.2 ≤ u.2 := by
        rcases List.eq_nil_or_concat more with rfl | ⟨more, w, rfl⟩
        · rw [List.append_nil] at hmore
          cases (List.append_inj' hmore rfl).2
          exact Nat.le_refl _
        · rw [List.concat_eq_append, ← List.append_assoc] at hmore
          cases (List.append_inj' hmore rfl).2
          exact ho.after_cut.behind u (by simp)
      exact Nat.succ_le_succ (ih htight hq ho.after_cut hle hfits)

/-! ## The least number of parts -/

/-- A script whose units end in order is cut into as few pieces as the limit allows. The pieces are
one of the ways of cutting it where units close, those that hold more than one unit keep to the
limit, and every other such way has at least as many pieces. -/
theorem boundaries_optimal (source : ByteArray) (units : List CodeUnit) (limit : Option Int)
    (hwithin : ∀ u ∈ units, u.stop ≤ source.size)
    (hordered : (units.map (·.stop)).Pairwise (· ≤ ·)) :
    ∃ ps, CutInto source.size 0 (closedUnits source units) ps ∧
      ps.map (·.start) = boundaries source units limit ∧
      split source (boundaries source units limit) = .ok (ps.map (·.bytes source)) ∧
      (∀ p ∈ ps, p.Fits source limit) ∧
      ∀ qs, CutInto source.size 0 (closedUnits source units) qs →
        (∀ q ∈ qs, q.Fits source limit) → ps.length ≤ qs.length := by
  have ho := closedUnits_rising hwithin hordered
  obtain ⟨ps, hcut, hstarts, hfit, htight⟩ := boundaries_packed source units limit
  refine ⟨ps, hcut, hstarts, hstarts ▸ hcut.split_eq, fun p hp hlen l hl => ?_,
    fun qs hqs hfits => ?_⟩
  · rw [Piece.size_bytes (hcut.inside ho p hp)]
    exact hfit p hp hlen l hl
  · have hqs' : CutInto source.size 0 ([] ++ closedUnits source units) qs := hqs
    refine htight.length_le hcut hqs' ho (Nat.le_refl 0) fun q hq hlen l hl => ?_
    rw [← Piece.size_bytes (hqs.inside ho q hq)]
    exact hfits q hq hlen l hl

/-- A script of three lines with seven bytes each. -/
def threeLines : ByteArray := "a = 1;\nb = 2;\nc = 3;\n".toUTF8

/-- The units of `threeLines`. -/
def threeUnits : List CodeUnit :=
  [⟨"expression_statement", 0, 6⟩, ⟨"expression_statement", 7, 13⟩,
    ⟨"expression_statement", 14, 20⟩]

theorem boundaries_optimal_threeLines :
    (∀ u ∈ threeUnits, u.stop ≤ threeLines.size) ∧
    (threeUnits.map (·.stop)).Pairwise (· ≤ ·) ∧
    boundaries threeLines threeUnits (some 15) = [0, 14] ∧
    ∀ qs, CutInto threeLines.size 0 (closedUnits threeLines threeUnits) qs →
      (∀ q ∈ qs, q.Fits threeLines (some 15)) → 2 ≤ qs.length := by
  have hwithin : ∀ u ∈ threeUnits, u.stop ≤ threeLines.size := by decide +kernel
  have hordered : (threeUnits.map (·.stop)).Pairwise (· ≤ ·) := by decide
  have hbounds : boundaries threeLines threeUnits (some 15) = [0, 14] := by decide +kernel
  obtain ⟨ps, -, hstarts, -, -, hleast⟩ :=
    boundaries_optimal threeLines threeUnits (some 15) hwithin hordered
  have htwo : ps.length = 2 := by
    rw [← List.length_map (·.start), hstarts, hbounds]
    rfl
  refine ⟨hwithin, hordered, hbounds, fun qs hqs hfits => ?_⟩
  rw [← htwo]
  exact hleast qs hqs hfits

end ScriptModules
