import ScriptModules.Proofs.Source.Cutting

/-!
# Pieces and the units that they hold

A way of cutting a script is a list of pieces, each with the units that fall to it (`CutInto`). A
cut is made where a unit closes, behind any unit but the last one, and the last piece runs to the
end of the script. The parts that a script is cut into are such a way, among all others:

* `CutInto.pieces_eq`: the bytes between its starting offsets are those of its pieces;
* `boundaries_packed`: each of its pieces that holds several units keeps to the limit, and each but
  the last is full (`Tight`): the next unit would have taken it over the limit.
-/

namespace ScriptModules

/-- Units in the order of the script that do not overlap; none is empty, and all lie inside the
script. -/
structure Lined (source : ByteArray) (units : List CodeUnit) : Prop where
  ordered : units.Pairwise fun u v => u.start ≤ v.start
  disjoint : units.Pairwise fun u v => u.stop ≤ v.start ∨ v.stop ≤ u.start
  nonempty : ∀ u ∈ units, u.start < u.stop
  within : ∀ u ∈ units, u.stop ≤ source.size

namespace Lined

variable {source : ByteArray} {units : List CodeUnit}

theorem tail {u : CodeUnit} (h : Lined source (u :: units)) : Lined source units where
  ordered := h.ordered.of_cons
  disjoint := h.disjoint.of_cons
  nonempty := (List.forall_mem_cons.mp h.nonempty).2
  within := (List.forall_mem_cons.mp h.within).2

/-- Each unit ends before the next one starts. -/
theorem apart (h : Lined source units) : units.Pairwise fun u v => u.stop ≤ v.start := by
  refine (h.ordered.and h.disjoint).imp_of_mem fun {u v} _ hv huv => ?_
  have hne := h.nonempty v hv
  omega

end Lined

/-- The units of a script, each with the offset at which it closes. -/
def closedUnits (source : ByteArray) (units : List CodeUnit) : List (CodeUnit × Nat) :=
  units.zip (closings source units)

/-- A piece of a script: the units that it holds, with their closing offsets, and the bytes from
`start` up to `stop`. -/
structure Piece where
  units : List (CodeUnit × Nat)
  start : Nat
  stop : Nat

/-- The bytes of a piece. -/
def Piece.bytes (source : ByteArray) (p : Piece) : ByteArray := source.extract p.start p.stop

/-- What remains of a script of `size` bytes from the offset `start` on, with the given units, is
cut into pieces. The last piece takes all units that remain and runs to the end. Every other piece
ends where its last unit closes, and leaves a unit over. -/
inductive CutInto (size : Nat) : (start : Nat) → List (CodeUnit × Nat) → List Piece → Prop
  | last (start : Nat) (items : List (CodeUnit × Nat)) :
      CutInto size start items [⟨items, start, size⟩]
  | cut {start : Nat} {items us rest : List (CodeUnit × Nat)} {u : CodeUnit × Nat}
      {ps : List Piece} (hitems : items = us ++ u :: rest) (hrest : rest ≠ [])
      (h : CutInto size u.2 rest ps) : CutInto size start items (⟨us ++ [u], start, u.2⟩ :: ps)

/-- A piece that holds more than one unit has at most `limit` bytes. -/
def Piece.Fits (source : ByteArray) (limit : Option Int) (p : Piece) : Prop :=
  1 < p.units.length → ∀ l ∈ limit, ((p.bytes source).size : Int) ≤ l

/-- Every piece but the last is full: with the first unit after it, it would pass the limit. -/
def Tight (limit : Option Int) : List Piece → Prop
  | [] => True
  | p :: ps => (∀ u ∈ (ps.flatMap (·.units)).head?, ∃ l ∈ limit, l < (u.2 : Int) - p.start) ∧
      Tight limit ps

/-! ## Units and where they close -/

theorem length_closings (source : ByteArray) (units : List CodeUnit) :
    (closings source units).length = units.length := by
  fun_induction closings source units with
  | case1 => rfl
  | case2 => rfl
  | case3 u us hne ih => simp [ih]

theorem map_snd_closedUnits (source : ByteArray) (units : List CodeUnit) :
    (closedUnits source units).map (·.2) = closings source units :=
  List.map_snd_zip (length_closings source units).le

theorem map_fst_closedUnits (source : ByteArray) (units : List CodeUnit) :
    (closedUnits source units).map (·.1) = units :=
  List.map_fst_zip (length_closings source units).ge

/-- The last unit closes at the end of the script. -/
theorem getLast?_closings (source : ByteArray) {units : List CodeUnit} (h : units ≠ []) :
    (closings source units).getLast? = some source.size := by
  fun_induction closings source units with
  | case1 => exact (h rfl).elim
  | case2 => rfl
  | case3 u us hne ih =>
    have hus : us ≠ [] := fun e => hne e
    have hsome := ih hus
    cases hcs : closings source us with
    | nil => simp [hcs] at hsome
    | cons e es =>
      rw [hcs] at hsome
      rw [List.getLast?_cons_cons, hsome]

/-! ## What a way of cutting is like -/

/-- Units that close in order between `start` and `size`. -/
structure Rising (size start : Nat) (items : List (CodeUnit × Nat)) : Prop where
  start_le : start ≤ size
  behind : ∀ i ∈ items, start ≤ i.2
  within : ∀ i ∈ items, i.2 ≤ size
  sorted : items.Pairwise fun i j => i.2 ≤ j.2

namespace Rising

variable {size start : Nat} {us rest items : List (CodeUnit × Nat)} {u : CodeUnit × Nat}

/-- The units after a cut close behind it. -/
theorem after_cut (h : Rising size start (us ++ u :: rest)) : Rising size u.2 rest := by
  obtain ⟨hfirst, hsorted⟩ := List.pairwise_cons.mp (List.pairwise_append.mp h.sorted).2.1
  exact ⟨h.within u (by simp), hfirst, fun i hi => h.within i (by simp [hi]), hsorted⟩

/-- A unit closes at or before the last unit of its piece. -/
theorem le_last (h : Rising size start (us ++ u :: rest)) {i : CodeUnit × Nat}
    (hi : i ∈ us ++ [u]) : i.2 ≤ u.2 := by
  rcases List.mem_append.mp hi with hi | hi
  · exact (List.pairwise_append.mp h.sorted).2.2 i hi u (by simp)
  · rw [List.mem_singleton.mp hi]

end Rising

namespace CutInto

variable {size start : Nat} {items : List (CodeUnit × Nat)} {ps : List Piece}

/-- The pieces hold the units in order, each unit in one piece. -/
theorem units_eq (h : CutInto size start items ps) : ps.flatMap (·.units) = items := by
  induction h with
  | last start items => simp
  | cut hitems _ _ ih => simp [ih, hitems]

theorem exists_first (h : CutInto size start items ps) :
    ∃ p ps', ps = p :: ps' ∧ p.start = start := by
  cases h with
  | last => exact ⟨_, _, rfl, rfl⟩
  | cut => exact ⟨_, _, rfl, rfl⟩

/-- The pieces follow one another up to the end, so their bytes are those between their starts. -/
theorem pieces_eq {source : ByteArray} (h : CutInto source.size start items ps) :
    pieces source (ps.map (·.start)) = ps.map (·.bytes source) := by
  induction h with
  | last start items => rfl
  | cut _ _ h ih =>
    obtain ⟨p, ps', rfl, hp⟩ := h.exists_first
    rw [List.map_cons, List.map_cons, pieces, ← List.map_cons, ih, hp]
    rfl

theorem split_eq {source : ByteArray} (h : CutInto source.size start items ps) :
    split source (ps.map (·.start)) = .ok (ps.map (·.bytes source)) := by
  have hne : ps.map (·.start) ≠ [] := by
    obtain ⟨p, ps', rfl, -⟩ := h.exists_first
    simp
  rw [split, if_neg hne, h.pieces_eq]

/-- The pieces of a script whose units close in order lie inside it. -/
theorem inside (h : CutInto size start items ps) (ho : Rising size start items) :
    ∀ p ∈ ps, p.start ≤ p.stop ∧ p.stop ≤ size := by
  induction h with
  | last start items => exact List.forall_mem_singleton.mpr ⟨ho.start_le, Nat.le_refl _⟩
  | cut hitems _ _ ih =>
    subst hitems
    exact List.forall_mem_cons.mpr
      ⟨⟨ho.behind _ (by simp), ho.within _ (by simp)⟩, ih ho.after_cut⟩

/-- The pieces start where what remains starts, or behind. -/
theorem start_le (h : CutInto size start items ps) (ho : Rising size start items) :
    ∀ p ∈ ps, start ≤ p.start := by
  induction h with
  | last start items => simp
  | cut hitems _ _ ih =>
    subst hitems
    refine List.forall_mem_cons.mpr ⟨Nat.le_refl _, fun p hp => ?_⟩
    exact Nat.le_trans (ho.behind _ (by simp)) (ih ho.after_cut p hp)

end CutInto

/-! ## The cuts that are made -/

/-- The current piece holds the units `us` and `u`; going through the others, a piece is closed when
the next unit would take it over the limit. -/
theorem cuts_packed {limit : Int} {size : Nat} (items : List (CodeUnit × Nat)) (start : Nat)
    (us : List (CodeUnit × Nat)) (u : CodeUnit × Nat)
    (hend : ((u :: items).map (·.2)).getLast? = some size)
    (hfits : us ≠ [] → (u.2 : Int) - start ≤ limit) :
    ∃ ps, CutInto size start (us ++ u :: items) ps ∧
      ps.map (·.start) = start :: cuts limit start (some u.2) (items.map (·.2)) ∧
      (∀ p ∈ ps, 1 < p.units.length → (p.stop : Int) - p.start ≤ limit) ∧
      Tight (some limit) ps := by
  induction items generalizing start us u with
  | nil =>
    have hsize : u.2 = size := by simpa using hend
    refine ⟨[⟨us ++ [u], start, size⟩], .last start _, rfl, ?_, by simp [Tight]⟩
    intro p hp hlen
    rw [List.mem_singleton.mp hp] at hlen ⊢
    rw [← hsize]
    apply hfits
    rintro rfl
    simp at hlen
  | cons v items ih =>
    have hend' : ((v :: items).map (·.2)).getLast? = some size := by
      rwa [List.map_cons, List.map_cons, List.getLast?_cons_cons] at hend
    by_cases hover : (v.2 : Int) - start > limit
    · obtain ⟨ps, hcut, hstarts, hfit, htight⟩ := ih u.2 [] v hend' nofun
      refine ⟨⟨us ++ [u], start, u.2⟩ :: ps, .cut rfl (by simp) hcut, ?_, ?_, ?_, htight⟩
      · rw [List.map_cons, hstarts, List.map_cons, cuts, if_pos hover]
      · intro p hp hlen
        rcases List.mem_cons.mp hp with rfl | hp
        · apply hfits
          rintro rfl
          simp at hlen
        · exact hfit p hp hlen
      · intro w hw
        rw [hcut.units_eq] at hw
        obtain rfl : v = w := by simpa using hw
        exact ⟨limit, rfl, hover⟩
    · obtain ⟨ps, hcut, hstarts, hfit, htight⟩ :=
        ih start (us ++ [u]) v hend' fun _ => Int.not_lt.mp hover
      rw [List.append_assoc, List.singleton_append] at hcut
      refine ⟨ps, hcut, ?_, hfit, htight⟩
      rw [hstarts, List.map_cons, cuts, if_neg hover]

/-- A script is cut into pieces that keep to the limit when they hold several units, and are full
when another one follows. -/
theorem boundaries_packed (source : ByteArray) (units : List CodeUnit) (limit : Option Int) :
    ∃ ps, CutInto source.size 0 (closedUnits source units) ps ∧
      ps.map (·.start) = boundaries source units limit ∧
      (∀ p ∈ ps, 1 < p.units.length → ∀ l ∈ limit, (p.stop : Int) - p.start ≤ l) ∧
      Tight limit ps := by
  cases limit with
  | none => exact ⟨_, .last 0 _, rfl, by simp, by simp [Tight]⟩
  | some limit =>
    cases hitems : closedUnits source units with
    | nil =>
      have hnone : closings source units = [] := by
        rw [← map_snd_closedUnits, hitems, List.map_nil]
      refine ⟨_, .last 0 [], ?_, by simp, by simp [Tight]⟩
      rw [boundaries, hnone]
      rfl
    | cons u items =>
      have hunits : units ≠ [] := by
        rintro rfl
        simp [closedUnits] at hitems
      have hclosings : closings source units = u.2 :: items.map (·.2) := by
        rw [← map_snd_closedUnits, hitems, List.map_cons]
      have hend : ((u :: items).map (·.2)).getLast? = some source.size := by
        rw [List.map_cons, ← hclosings, getLast?_closings source hunits]
      obtain ⟨ps, hcut, hstarts, hfit, htight⟩ := cuts_packed items 0 [] u hend nofun
      refine ⟨ps, hcut, ?_, ?_, htight⟩
      · rw [hstarts, boundaries, hclosings, cuts]
      · intro p hp hlen l hl
        cases hl
        exact hfit p hp hlen

end ScriptModules
