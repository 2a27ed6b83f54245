import Mathlib.Data.List.Nodup
import ScriptModules.Data.Order

/-!
# The order of names

Names are ordered by code points, which is a total order. So a sorted list is determined by the
names in it: `sorted_eq_of_perm` and `sortedOn_eq_of_perm` say that sorting forgets the order in
which the names came, and `pairwise_mergeSort_rank` says what sorting by a number does. The
positions in a list without repetitions grow along the list and along every list that is taken from
it (`pairwise_idxOf`).
-/

namespace ScriptModules

theorem nameLe_iff {a b : String} : nameLe a b = true ↔ a ≤ b := decide_eq_true_iff

theorem nameLe_antisymm {a b : String} (h : nameLe a b = true) (h' : nameLe b a = true) : a = b :=
  String.le_antisymm (nameLe_iff.mp h) (nameLe_iff.mp h')

theorem nameLe_trans {a b c : String} (h : nameLe a b = true) (h' : nameLe b c = true) :
    nameLe a c = true := nameLe_iff.mpr (String.le_trans (nameLe_iff.mp h) (nameLe_iff.mp h'))

theorem nameLe_total (a b : String) : nameLe a b = true ∨ nameLe b a = true :=
  (String.le_total a b).imp nameLe_iff.mpr nameLe_iff.mpr

/-- Sorting by a total order forgets the order of the list. -/
theorem mergeSort_eq_of_perm {α : Type} {le : α → α → Bool} {l l' : List α}
    (htrans : ∀ a b c, le a b = true → le b c = true → le a c = true)
    (htotal : ∀ a b, le a b = true ∨ le b a = true)
    (hanti : ∀ a b, le a b = true → le b a = true → a = b) (h : l.Perm l') :
    l.mergeSort le = l'.mergeSort le := by
  have htotal' : ∀ a b, (le a b || le b a) = true := fun a b =>
    (Bool.or_eq_true _ _).mpr (htotal a b)
  have hperm := (List.mergeSort_perm l le).trans (h.trans (List.mergeSort_perm l' le).symm)
  refine List.Perm.eq_of_pairwise (fun a b _ _ => hanti a b) ?_ ?_ hperm
  · exact List.pairwise_mergeSort htrans htotal' l
  · exact List.pairwise_mergeSort htrans htotal' l'

theorem sorted_eq_of_perm {l l' : List String} (h : l.Perm l') : sorted l = sorted l' :=
  mergeSort_eq_of_perm (fun _ _ _ => nameLe_trans) nameLe_total (fun _ _ => nameLe_antisymm) h

theorem sortedOn_eq_of_perm (pos : String → Nat) {l l' : List String} (h : l.Perm l') :
    sortedOn pos l = sortedOn pos l' := by
  -- The comparison, as a proposition: by position, then by name.
  have hle : ∀ a b, (decide (pos a < pos b) || (pos a == pos b && nameLe a b)) = true ↔
      pos a < pos b ∨ pos a = pos b ∧ nameLe a b = true := by
    intro a b
    simp
  refine mergeSort_eq_of_perm (fun a b c => ?_) (fun a b => ?_) (fun a b => ?_) h
  · simp only [hle]
    rintro (hab | ⟨hab, hab'⟩) (hbc | ⟨hbc, hbc'⟩)
    · exact .inl (by omega)
    · exact .inl (by omega)
    · exact .inl (by omega)
    · exact .inr ⟨by omega, nameLe_trans hab' hbc'⟩
  · simp only [hle]
    rcases Nat.lt_trichotomy (pos a) (pos b) with hlt | heq | hlt
    · exact .inl (.inl hlt)
    · exact (nameLe_total a b).imp (fun h => .inr ⟨heq, h⟩) fun h => .inr ⟨heq.symm, h⟩
    · exact .inr (.inl hlt)
  · simp only [hle]
    rintro (hab | ⟨hab, hab'⟩) (hba | ⟨hba, hba'⟩)
    · omega
    · omega
    · omega
    · exact nameLe_antisymm hab' hba'

/-- Sorting by a number brings smaller numbers first. -/
theorem pairwise_mergeSort_rank {α : Type} (rank : α → Nat) (l : List α) :
    (l.mergeSort fun x y => rank x ≤ rank y).Pairwise fun x y => rank x ≤ rank y := by
  have hsorted : (l.mergeSort fun x y => rank x ≤ rank y).Pairwise
      fun x y => decide (rank x ≤ rank y) = true := by
    refine List.pairwise_mergeSort (fun x y z hxy hyz => ?_) (fun x y => ?_) l
    · rw [decide_eq_true_eq] at hxy hyz ⊢
      omega
    · rw [Bool.or_eq_true, decide_eq_true_eq, decide_eq_true_eq]
      omega
  exact hsorted.imp of_decide_eq_true

/-- Sorting by a number gives the list of the same items in which the numbers grow. -/
theorem mergeSort_rank_eq {α : Type} {rank : α → Nat} {l l' : List α} (hperm : l'.Perm l)
    (h : l'.Pairwise fun x y => rank x < rank y) :
    (l.mergeSort fun x y => rank x ≤ rank y) = l' := by
  have hnodup : (l'.map rank).Nodup := List.pairwise_map.mpr (h.imp Nat.ne_of_lt)
  refine List.Perm.eq_of_pairwise (fun a b ha hb hab hba => ?_) (pairwise_mergeSort_rank rank l)
    (h.imp Nat.le_of_lt) ((List.mergeSort_perm l _).trans hperm.symm)
  have ha : a ∈ l' := hperm.mem_iff.mpr (List.mem_mergeSort.mp ha)
  exact List.inj_on_of_nodup_map hnodup ha hb (Nat.le_antisymm hab hba)

/-! ## Positions -/

/-- An item that stands before another one has the smaller index. -/
theorem idxOf_lt_of_sublist {l : List String} {a b : String} (hl : l.Nodup)
    (h : [a, b].Sublist l) : l.idxOf a < l.idxOf b := by
  obtain ⟨l₁, l₂, rfl, ha, hb⟩ := List.cons_sublist_iff.mp h
  have hb : b ∈ l₂ := List.singleton_sublist.mp hb
  have hb' : b ∉ l₁ := fun hm => List.disjoint_of_nodup_append hl hm hb
  rw [List.idxOf_append_of_mem ha, List.idxOf_append_of_notMem hb']
  have := List.idxOf_lt_length_of_mem ha
  omega

theorem pairwise_idxOf {l : List String} (hl : l.Nodup) :
    l.Pairwise fun a b => l.idxOf a < l.idxOf b :=
  List.pairwise_iff_forall_sublist.mpr (idxOf_lt_of_sublist hl)

end ScriptModules
