import Mathlib.Data.List.Nodup
import ScriptModules.Data.Table

/-!
# Looking names up in a table

A table is read in two ways: as the list of its entries and by `get?`. No name occurs twice, so the
two agree (`get?_eq_some_iff`), and what an operation does to a table is said by one equation for
`get?` each: `get?_map`, `get?_modify`, `get?_filter`, `get?_erase`, `get?_insert`.
-/

namespace ScriptModules

namespace Table

variable {α β : Type} {t : Table α} {k : String} {v : α}

theorem eq_of_mem_entries {v w : α} (hv : (k, v) ∈ t.entries) (hw : (k, w) ∈ t.entries) :
    v = w := by
  have h := List.inj_on_of_nodup_map t.nodup hv hw rfl
  exact (Prod.mk.inj h).2

/-- The value of a name is the one it is entered with. -/
theorem get?_eq_some_iff : t.get? k = some v ↔ (k, v) ∈ t.entries := by
  unfold get?
  constructor
  · intro h
    obtain ⟨l₁, l₂, he, -⟩ := List.lookup_eq_some_iff.mp h
    rw [he]
    simp
  · intro h
    cases hl : t.entries.lookup k with
    | none =>
      have := List.lookup_eq_none_iff.mp hl _ h
      simp at this
    | some w =>
      obtain ⟨l₁, l₂, he, -⟩ := List.lookup_eq_some_iff.mp hl
      have hw : (k, w) ∈ t.entries := by rw [he]; simp
      rw [eq_of_mem_entries h hw]

theorem mem_keys_iff : k ∈ t.keys ↔ ∃ v, (k, v) ∈ t.entries := by
  simp [keys]

theorem mem_keys_of_mem (h : (k, v) ∈ t.entries) : k ∈ t.keys := mem_keys_iff.mpr ⟨v, h⟩

theorem get?_eq_none_iff : t.get? k = none ↔ k ∉ t.keys := by
  rw [mem_keys_iff]
  constructor
  · rintro h ⟨v, hv⟩
    rw [get?_eq_some_iff.mpr hv] at h
    cases h
  · intro h
    cases hg : t.get? k with
    | none => rfl
    | some v => exact (h ⟨v, get?_eq_some_iff.mp hg⟩).elim

theorem mem_keys_of_get? (h : t.get? k = some v) : k ∈ t.keys :=
  mem_keys_of_mem (get?_eq_some_iff.mp h)

theorem exists_get?_of_mem_keys (h : k ∈ t.keys) : ∃ v, t.get? k = some v := by
  obtain ⟨v, hv⟩ := mem_keys_iff.mp h
  exact ⟨v, get?_eq_some_iff.mpr hv⟩

theorem keys_nodup (t : Table α) : t.keys.Nodup := t.nodup

theorem contains_eq_false (h : k ∉ t.keys) : t.contains k = false :=
  Bool.eq_false_iff.mpr fun hk => h ((contains_iff t k).mp hk)

theorem size_eq (t : Table α) : t.size = t.keys.length := by simp [size, keys]

/-- Entries that are chosen by their names alone. -/
theorem map_fst_filter {p : String × α → Bool} {q : String → Bool}
    (h : ∀ e ∈ t.entries, p e = q e.1) : (t.entries.filter p).map Prod.fst = t.keys.filter q := by
  unfold keys
  rw [List.filter_map]
  exact congrArg _ (List.filter_congr h)

@[simp] theorem get?_empty (k : String) : (empty : Table α).get? k = none := rfl

/-! ## One equation for each operation -/

@[simp] theorem get?_map (t : Table α) (f : String → α → β) (k : String) :
    (t.map f).get? k = (t.get? k).map (f k) := by
  ext w
  simp only [get?_eq_some_iff, Option.map_eq_some_iff, map, List.mem_map, Prod.mk.injEq,
    Prod.exists]
  constructor
  · rintro ⟨k', v, hv, rfl, rfl⟩
    exact ⟨v, hv, rfl⟩
  · rintro ⟨v, hv, rfl⟩
    exact ⟨k, v, hv, rfl, rfl⟩

theorem get?_modify (t : Table α) (k a : String) (f : α → α) :
    (t.modify k f).get? a = if a = k then (t.get? a).map f else t.get? a := by
  unfold modify
  rw [get?_map]
  split <;> simp

theorem get?_filter (t : Table α) (p : String → α → Bool) (k : String) :
    (t.filter p).get? k = (t.get? k).filter (p k) := by
  ext w
  simp [get?_eq_some_iff, Option.filter_eq_some_iff, filter]

theorem get?_erase (t : Table α) (k a : String) :
    (t.erase k).get? a = if a = k then none else t.get? a := by
  unfold erase
  rw [get?_filter]
  by_cases h : a = k
  · cases hg : t.get? a <;> simp [h]
  · cases hg : t.get? a <;> simp [h]

theorem get?_insert (t : Table α) (k a : String) (v : α) :
    (t.insert k v).get? a = if a = k then some v else t.get? a := by
  unfold insert
  split
  · next h =>
    rw [get?_modify]
    split
    · next ha =>
      obtain ⟨w, hw⟩ := exists_get?_of_mem_keys ((contains_iff t k).mp h)
      rw [ha, hw]
      rfl
    · rfl
  · next h =>
    have hk : k ∉ t.keys := fun hm => h ((contains_iff t k).mpr hm)
    ext w
    simp only [get?_eq_some_iff, List.mem_append, List.mem_singleton, Prod.mk.injEq]
    split
    · next ha =>
      subst ha
      constructor
      · rintro (hm | ⟨-, rfl⟩)
        · exact (hk (mem_keys_of_mem hm)).elim
        · rfl
      · intro hw
        cases hw
        exact .inr ⟨rfl, rfl⟩
    · next ha => simp [ha, get?_eq_some_iff]

end Table

end ScriptModules
