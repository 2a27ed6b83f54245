import ScriptModules.Proofs.Source.Packing
import ScriptModules.Proofs.Source.Undivided
import ScriptModules.Source.Strip

/-!
# Parts over the limit

What falls to a unit are the bytes from where the unit before it closes up to where it closes
itself, blanks included. `alone` is the way of cutting in which each unit stands alone with what
falls to it. A part that holds a single unit is one of these pieces (`CutInto.mem_alone`), and no
way of cutting has smaller ones (`CutInto.alone_le`). As parts with several units keep to the limit,
all parts do exactly when everything that falls to a unit does. Units that keep to the limit
themselves are not enough: `blank_lines_overflow` is a script whose blank lines take a part over it.
-/

namespace ScriptModules

variable {source : ByteArray} {units : List CodeUnit} {size start : Nat}
  {items us rest : List (CodeUnit × Nat)} {u : CodeUnit × Nat} {ps : List Piece}

/-! ## One unit a piece -/

/-- What remains of a script, cut behind every unit but the last one. -/
def alone (size : Nat) : (start : Nat) → List (CodeUnit × Nat) → List Piece
  | start, [] => [⟨[], start, size⟩]
  | start, [u] => [⟨[u], start, size⟩]
  | start, u :: v :: rest => ⟨[u], start, u.2⟩ :: alone size u.2 (v :: rest)

theorem alone_cons (size start : Nat) (u : CodeUnit × Nat) (h : rest ≠ []) :
    alone size start (u :: rest) = ⟨[u], start, u.2⟩ :: alone size u.2 rest := by
  obtain ⟨v, rest, rfl⟩ := List.exists_cons_of_ne_nil h
  rfl

theorem alone_append (size start : Nat) (us : List (CodeUnit × Nat)) (u : CodeUnit × Nat)
    (h : rest ≠ []) : alone size start (us ++ u :: rest) =
      alone u.2 start (us ++ [u]) ++ alone size u.2 rest := by
  induction us generalizing start with
  | nil => exact alone_cons size start u h
  | cons v us ih =>
    rw [List.cons_append, List.cons_append, alone_cons _ _ _ (by simp), alone_cons _ _ _ (by simp),
      ih, List.cons_append]

theorem alone_cutInto (size start : Nat) (items : List (CodeUnit × Nat)) :
    CutInto size start items (alone size start items) := by
  fun_induction alone size start items with
  | case1 start => exact .last start []
  | case2 start u => exact .last start [u]
  | case3 start u v rest ih =>
    have hitems : u :: v :: rest = [] ++ u :: v :: rest := rfl
    exact .cut hitems (List.cons_ne_nil v rest) ih

/-- The units of a piece close in order. -/
theorem Rising.up_to_cut (h : Rising size start (us ++ u :: rest)) :
    Rising u.2 start (us ++ [u]) := by
  have hsub : (us ++ [u]).Sublist (us ++ u :: rest) :=
    List.Sublist.append_left ((List.nil_sublist rest).cons_cons u) us
  exact ⟨h.behind u (by simp), fun i hi => h.behind i (hsub.subset hi), fun i hi => h.le_last hi,
    h.sorted.sublist hsub⟩

namespace CutInto

/-- A piece with a single unit is what falls to it. -/
theorem mem_alone (h : CutInto size start items ps) {p : Piece} (hp : p ∈ ps)
    (hlen : p.units.length ≤ 1) : p ∈ alone size start items := by
  induction h with
  | last start items =>
    rw [List.mem_singleton] at hp
    subst hp
    match items, hlen with
    | [], _ => exact List.mem_singleton.mpr rfl
    | [u], _ => exact List.mem_singleton.mpr rfl
  | @cut start items us rest u ps hitems hrest _ ih =>
    subst hitems
    rcases List.mem_cons.mp hp with rfl | hp
    · obtain rfl : us = [] := by simpa using hlen
      rw [List.nil_append, alone_cons size start u hrest]
      exact List.mem_cons_self
    · rw [alone_append size start us u hrest]
      exact List.mem_append_right _ (ih hp)

/-- However a script is cut where units close, what falls to a unit is no more than some piece. -/
theorem alone_le {limit : Int} (h : CutInto size start items ps) (ho : Rising size start items)
    (hfits : ∀ p ∈ ps, (p.stop : Int) - p.start ≤ limit) :
    ∀ p ∈ alone size start items, (p.stop : Int) - p.start ≤ limit := by
  -- A piece between two offsets is no longer than the distance between them.
  have hbetween : ∀ {size start items} {p : Piece}, Rising size start items →
      p ∈ alone size start items → (p.stop : Int) - p.start ≤ size - start := by
    intro size start items p ho hp
    have hstop := ((alone_cutInto size start items).inside ho p hp).2
    have hstart := (alone_cutInto size start items).start_le ho p hp
    omega
  induction h with
  | last start items =>
    intro p hp
    have hwhole : (size : Int) - start ≤ limit := hfits _ (List.mem_singleton.mpr rfl)
    exact (hbetween ho hp).trans hwhole
  | @cut start items us rest u ps hitems hrest _ ih =>
    subst hitems
    obtain ⟨hfirst, hfits⟩ := List.forall_mem_cons.mp hfits
    intro p hp
    rw [alone_append size start us u hrest] at hp
    rcases List.mem_append.mp hp with hp | hp
    · exact (hbetween ho.up_to_cut hp).trans hfirst
    · exact ih ho.after_cut hfits p hp

end CutInto

/-! ## Blanks around units -/

/-- Units in order that do not overlap, none of them empty and all inside the script, with nothing
but blanks around them. -/
structure Spread (source : ByteArray) (units : List CodeUnit) : Prop
    extends Lined source units where
  blank : ∀ k (hk : k < source.size), (∀ u ∈ units, ¬ (u.start ≤ k ∧ k < u.stop)) →
    isWhite source[k] = true

namespace Spread

theorem rising (h : Spread source units) : Rising source.size 0 (closedUnits source units) := by
  refine closedUnits_rising h.within (List.pairwise_map.mpr ?_)
  refine h.apart.imp_of_mem fun {u v} _ hv huv => ?_
  have hne := h.nonempty v hv
  omega

/-- Between the end of a unit and where it closes there are only blanks. -/
theorem blank_of_lt_lineEnd {pos k : Nat} (hk : k < source.size) (hpos : pos ≤ k)
    (hlt : k < lineEnd source pos) : isWhite source[k] = true := by
  have hwhite : gapBytes.all isWhite = true := by decide
  refine List.all_eq_true.mp hwhite _ ?_
  by_contra hink
  have hle := lineEnd_le_of_inked hk hink hpos
  omega

/-- A byte behind the units before `u` and before those after it belongs to `u` or is blank. -/
theorem own_or_blank {u : CodeUnit} {before after : List CodeUnit} {k : Nat}
    (h : Spread source units) (hunits : units = before ++ u :: after) (hk : k < source.size)
    (hbefore : ∀ v ∈ before, v.stop ≤ k) (hafter : ∀ v ∈ after, k < v.start) :
    (u.start ≤ k ∧ k < u.stop) ∨ isWhite source[k] = true := by
  by_cases hcovered : u.start ≤ k ∧ k < u.stop
  · exact .inl hcovered
  · refine .inr (h.blank k hk fun v hv => ?_)
    rw [hunits, List.mem_append, List.mem_cons] at hv
    rcases hv with hv | rfl | hv
    · have hstop := hbefore v hv
      omega
    · exact hcovered
    · have hstart := hafter v hv
      omega

/-- Besides its unit, a piece of the units from some unit on holds only blanks. -/
theorem alone_blank (h : Spread source units) (before after : List CodeUnit)
    (hunits : units = before ++ after) (hbefore : ∀ v ∈ before, v.stop ≤ start) :
    ∀ p ∈ alone source.size start (closedUnits source after), ∀ k (hk : k < source.size),
      p.start ≤ k → k < p.stop →
      (∃ i ∈ p.units, i.1.start ≤ k ∧ k < i.1.stop) ∨ isWhite source[k] = true := by
  induction after generalizing before start with
  | nil =>
    intro p hp k hk hstart _
    rw [List.mem_singleton.mp hp] at hstart
    refine .inr (h.blank k hk fun v hv hcovers => ?_)
    have hstop := hbefore v (by simpa [hunits] using hv)
    exact absurd (hcovers.2.trans_le (hstop.trans hstart)) (Nat.lt_irrefl k)
  | cons u after ih =>
    obtain ⟨-, hrest, hcross⟩ := List.pairwise_append.mp (hunits ▸ h.apart)
    have hafter : ∀ v ∈ after, u.stop ≤ v.start := (List.pairwise_cons.mp hrest).1
    by_cases hlast : after = []
    · subst hlast
      intro p hp k hk hstart _
      obtain rfl := List.mem_singleton.mp hp
      have hown := h.own_or_blank hunits hk (fun v hv => (hbefore v hv).trans hstart) (by simp)
      exact hown.imp_left fun hin => ⟨_, List.mem_singleton.mpr rfl, hin⟩
    · have hne : closedUnits source after ≠ [] := by
        intro hnil
        apply hlast
        rw [← map_fst_closedUnits source after, hnil, List.map_nil]
      rw [closedUnits_cons source u hlast, alone_cons _ _ _ hne]
      refine List.forall_mem_cons.mpr ⟨fun k hk hstart hstop => ?_, ?_⟩
      · by_cases hbehind : u.stop ≤ k
        · exact .inr (blank_of_lt_lineEnd hk hbehind hstop)
        · have hown := h.own_or_blank hunits hk (fun v hv => (hbefore v hv).trans hstart)
            fun v hv => (Nat.lt_of_not_le hbehind).trans_le (hafter v hv)
          exact hown.imp_left fun hin => ⟨_, List.mem_singleton.mpr rfl, hin⟩
      · refine ih (before ++ [u]) (by simp [hunits]) fun v hv => ?_
        have hstop : v.stop ≤ u.stop := by
          rcases List.mem_append.mp hv with hv | hv
          · have hvu := hcross v hv u (by simp)
            have hne := h.nonempty u (by simp [hunits])
            omega
          · rw [List.mem_singleton.mp hv]
        exact hstop.trans (le_lineEnd source u.stop)

end Spread

/-! ## Which parts pass the limit -/

/-- The parts of a script keep to the limit exactly when everything that falls to a unit does, and
no other way of cutting where units close does better. A part over the limit holds at most one unit,
and besides it only blanks. -/
theorem boundaries_overflow (source : ByteArray) (units : List CodeUnit) (limit : Int)
    (h : Spread source units) :
    ∃ ps, CutInto source.size 0 (closedUnits source units) ps ∧
      split source (boundaries source units (some limit)) = .ok (ps.map (·.bytes source)) ∧
      ((∀ p ∈ ps, ((p.bytes source).size : Int) ≤ limit) ↔
        ∀ p ∈ alone source.size 0 (closedUnits source units),
          ((p.bytes source).size : Int) ≤ limit) ∧
      (∀ qs, CutInto source.size 0 (closedUnits source units) qs →
        (∀ q ∈ qs, ((q.bytes source).size : Int) ≤ limit) →
          ∀ p ∈ ps, ((p.bytes source).size : Int) ≤ limit) ∧
      ∀ p ∈ ps, limit < (p.bytes source).size → p.units.length ≤ 1 ∧
        ∀ k (hk : k < source.size), p.start ≤ k → k < p.stop →
          (∃ i ∈ p.units, i.1.start ≤ k ∧ k < i.1.stop) ∨ isWhite source[k] = true := by
  obtain ⟨ps, hcut, hstarts, hpacked, -⟩ := boundaries_packed source units (some limit)
  have hsize : ∀ {qs}, CutInto source.size 0 (closedUnits source units) qs → ∀ q ∈ qs,
      ((q.bytes source).size : Int) = q.stop - q.start := fun hqs q hq =>
    Piece.size_bytes (hqs.inside h.rising q hq)
  have halone : ∀ {qs}, CutInto source.size 0 (closedUnits source units) qs →
      (∀ q ∈ qs, ((q.bytes source).size : Int) ≤ limit) →
      ∀ p ∈ alone source.size 0 (closedUnits source units),
        ((p.bytes source).size : Int) ≤ limit := by
    intro qs hqs hfits p hp
    rw [hsize (alone_cutInto _ _ _) p hp]
    exact hqs.alone_le h.rising (fun q hq => hsize hqs q hq ▸ hfits q hq) p hp
  have hsingle : ∀ p ∈ ps, limit < (p.bytes source).size → p.units.length ≤ 1 := by
    intro p hp hover
    rw [hsize hcut p hp] at hover
    by_contra hlen
    exact absurd (hpacked p hp (by omega) limit rfl) (by omega)
  have hfits : (∀ p ∈ alone source.size 0 (closedUnits source units),
      ((p.bytes source).size : Int) ≤ limit) → ∀ p ∈ ps, ((p.bytes source).size : Int) ≤ limit := by
    intro hall p hp
    by_contra hover
    exact hover (hall p (hcut.mem_alone hp (hsingle p hp (by omega))))
  refine ⟨ps, hcut, hstarts ▸ hcut.split_eq, ⟨halone hcut, hfits⟩,
    fun qs hqs hall => hfits (halone hqs hall), fun p hp hover => ⟨hsingle p hp hover, ?_⟩⟩
  exact h.alone_blank [] units rfl nofun p (hcut.mem_alone hp (hsingle p hp hover))

/-- Two statements of ten bytes each, with seven blank lines between them. -/
def blankLines : ByteArray := "var a = 1;\n\n\n\n\n\n\n\nvar b = 2;\n".toUTF8

/-- The units of `blankLines`. -/
def blankLinesUnits : List CodeUnit :=
  [⟨"variable_declaration", 0, 10⟩, ⟨"variable_declaration", 18, 28⟩]

theorem blankLines_spread : Spread blankLines blankLinesUnits :=
  ⟨⟨by decide, by decide, by decide, by decide +kernel⟩, by decide +kernel⟩

/-- With the limit 18, everything that falls to a unit of `blankLines` fits, and so do the parts. -/
theorem boundaries_overflow_blankLines : Spread blankLines blankLinesUnits ∧
    boundaries blankLines blankLinesUnits (some 18) = [0, 11] ∧
    ∃ parts, split blankLines [0, 11] = .ok parts ∧ ∀ part ∈ parts, (part.size : Int) ≤ 18 := by
  have hbounds : boundaries blankLines blankLinesUnits (some 18) = [0, 11] := by decide +kernel
  have halone : ∀ p ∈ alone blankLines.size 0 (closedUnits blankLines blankLinesUnits),
      ((p.bytes blankLines).size : Int) ≤ 18 := by decide +kernel
  obtain ⟨ps, -, hsplit, hfits, -, -⟩ :=
    boundaries_overflow blankLines blankLinesUnits 18 blankLines_spread
  rw [hbounds] at hsplit
  exact ⟨blankLines_spread, hbounds, _, hsplit, List.forall_mem_map.mpr (hfits.mpr halone)⟩

/-- Statements that keep to the limit, and a part that does not: the blank lines between them fall
to the second one. -/
theorem blank_lines_overflow : Spread blankLines blankLinesUnits ∧
    (∀ u ∈ blankLinesUnits, (u.stop : Int) - u.start ≤ 16) ∧
    ∃ parts, split blankLines (boundaries blankLines blankLinesUnits (some 16)) = .ok parts ∧
      ∃ part ∈ parts, 16 < part.size := by
  have hbounds : boundaries blankLines blankLinesUnits (some 16) = [0, 11] := by decide +kernel
  rw [hbounds]
  exact ⟨blankLines_spread, by decide, _, rfl, blankLines.extract 11 blankLines.size,
    by simp [pieces], by decide +kernel⟩

end ScriptModules
