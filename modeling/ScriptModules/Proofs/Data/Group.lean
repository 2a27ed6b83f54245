import Mathlib.Data.List.Induction
import Mathlib.Data.List.Nodup
import ScriptModules.Data.Order

/-!
# What grouping gives

`groupBy_eq` says what `groupBy` computes by adding one item after the other: the keys in the order
of first sight, each with its items in the order of the list.
-/

namespace ScriptModules

variable {κ β : Type} [BEq κ] [LawfulBEq κ] {key : β → κ} {items : List β}

theorem addToGroup_of_mem {k : κ} {v : β} {ks : List κ} (f : κ → List β) (hks : ks.Nodup)
    (hk : k ∈ ks) : addToGroup k v (ks.map fun x => (x, f x)) =
      ks.map fun x => (x, if x == k then f x ++ [v] else f x) := by
  induction ks with
  | nil => cases hk
  | cons x ks ih =>
    obtain ⟨hx, hks⟩ := List.nodup_cons.mp hks
    simp only [List.map_cons, addToGroup]
    by_cases hxk : x = k
    · subst hxk
      -- The other keys differ from `x`, so their groups stay.
      have hrest : ∀ y ∈ ks, (y, f y) = (y, if y == x then f y ++ [v] else f y) := by
        intro y hy
        have hyx : y ≠ x := fun e => hx (e ▸ hy)
        simp [hyx]
      simp [List.map_congr_left hrest]
    · have hk' : k ∈ ks := (List.mem_cons.mp hk).resolve_left fun e => hxk e.symm
      simp [hxk, ih hks hk']

theorem addToGroup_of_not_mem {k : κ} {v : β} {ks : List κ} (f : κ → List β) (hk : k ∉ ks) :
    addToGroup k v (ks.map fun x => (x, f x)) = (ks.map fun x => (x, f x)) ++ [(k, [v])] := by
  induction ks with
  | nil => rfl
  | cons x ks ih =>
    simp only [List.mem_cons, not_or] at hk
    have hxk : x ≠ k := fun e => hk.1 e.symm
    simp [addToGroup, hxk, ih hk.2]

omit [LawfulBEq κ] in
theorem groupBy_append_singleton (key : β → κ) (items : List β) (v : β) :
    groupBy key (items ++ [v]) = addToGroup (key v) v (groupBy key items) := by
  simp [groupBy]

theorem eraseDups_append_singleton (ks : List κ) (k : κ) :
    (ks ++ [k]).eraseDups = if k ∈ ks then ks.eraseDups else ks.eraseDups ++ [k] := by
  rw [List.eraseDups_append]
  split
  · next h => simp [List.removeAll, h]
  · next h => simp [List.removeAll, h, List.eraseDups_cons]

theorem nodup_eraseDups (ks : List κ) : ks.eraseDups.Nodup := by
  induction ks using List.reverseRecOn with
  | nil => simp
  | append_singleton ks k ih =>
    rw [eraseDups_append_singleton]
    split
    · exact ih
    · next hk => exact List.Nodup.append ih (by simp) (by simpa [List.mem_eraseDups] using hk)

/-- The groups are the keys in the order of first sight, each with its items in order. -/
theorem groupBy_eq (key : β → κ) (items : List β) : groupBy key items =
    (items.map key).eraseDups.map fun k => (k, items.filter fun v => key v == k) := by
  induction items using List.reverseRecOn with
  | nil => rfl
  | append_singleton items v ih =>
    rw [groupBy_append_singleton, ih, List.map_append, List.map_singleton,
      eraseDups_append_singleton]
    by_cases hk : key v ∈ items.map key
    · rw [if_pos hk, addToGroup_of_mem _ (nodup_eraseDups _) (List.mem_eraseDups.mpr hk)]
      refine List.map_congr_left fun k _ => ?_
      by_cases h : k = key v
      · simp [h]
      · have h' : key v ≠ k := fun e => h e.symm
        simp [h, h']
    · rw [if_neg hk, addToGroup_of_not_mem _ fun h => hk (List.mem_eraseDups.mp h), List.map_append]
      congr 1
      · -- The new item belongs to none of the old keys.
        refine List.map_congr_left fun k hmem => ?_
        have h : key v ≠ k := fun e => hk (e ▸ List.mem_eraseDups.mp hmem)
        simp [h]
      · have hnone : items.filter (fun w => key w == key v) = [] := by
          rw [List.filter_eq_nil_iff]
          intro w hw e
          exact hk (List.mem_map.mpr ⟨w, hw, eq_of_beq e⟩)
        simp [hnone]

/-- No two groups have the same key. -/
theorem nodup_groupBy (key : β → κ) (items : List β) :
    ((groupBy key items).map (·.1)).Nodup := by
  rw [groupBy_eq, List.map_map]
  exact (List.map_id _).symm ▸ nodup_eraseDups _

/-- A group holds the items with its key, and at least one. -/
theorem mem_groupBy_iff {k : κ} {vs : List β} : (k, vs) ∈ groupBy key items ↔
    k ∈ items.map key ∧ vs = items.filter fun v => key v == k := by
  rw [groupBy_eq, List.mem_map]
  constructor
  · rintro ⟨k', hk', e⟩
    cases e
    exact ⟨List.mem_eraseDups.mp hk', rfl⟩
  · rintro ⟨hk, rfl⟩
    exact ⟨k, List.mem_eraseDups.mpr hk, rfl⟩

omit [LawfulBEq κ] in
theorem perm_addToGroup (k : κ) (v : β) (gs : List (κ × List β)) :
    ((addToGroup k v gs).flatMap (·.2)).Perm (gs.flatMap (·.2) ++ [v]) := by
  induction gs with
  | nil => simp [addToGroup]
  | cons g gs ih =>
    obtain ⟨k', vs⟩ := g
    simp only [addToGroup]
    split
    · simp only [List.flatMap_cons, List.append_assoc]
      exact List.Perm.append_left vs List.perm_append_comm
    · simp only [List.flatMap_cons, List.append_assoc]
      exact List.Perm.append_left vs ih

omit [LawfulBEq κ] in
/-- Grouping neither loses nor repeats an item. -/
theorem perm_groupBy (key : β → κ) (items : List β) :
    ((groupBy key items).flatMap (·.2)).Perm items := by
  induction items using List.reverseRecOn with
  | nil => exact .refl _
  | append_singleton items v ih =>
    rw [groupBy_append_singleton]
    exact (perm_addToGroup (key v) v _).trans (ih.append_right [v])

end ScriptModules
