import Mathlib.Data.List.Forall2
import ScriptModules.Link.Symbol
import ScriptModules.Log.Logged
import ScriptModules.Proofs.Data.Order
import ScriptModules.Proofs.Data.Table

/-!
# Sets in another order

Two sets are alike when they list the same members, in whatever order. The relation is carried from
sets to entries and tables (`Table.Rel`) and to results with notices (`Logged.Rel`), so that two
runs on tables that differ in the order of their sets can be compared step by step.
-/

namespace ScriptModules

namespace KeySet

/-- The sets list the same members, in whatever order. -/
def Alike (a b : KeySet) : Prop := a.items.Perm b.items

instance (a b : KeySet) : Decidable (a.Alike b) :=
  inferInstanceAs (Decidable (a.items.Perm b.items))

variable {a b c d : KeySet} {k : String}

theorem alike_iff : a.Alike b ↔ ∀ k, k ∈ a ↔ k ∈ b :=
  List.perm_ext_iff_of_nodup a.nodup b.nodup

theorem Alike.mem_iff (h : a.Alike b) : k ∈ a ↔ k ∈ b := alike_iff.mp h k

theorem Alike.refl (a : KeySet) : a.Alike a := List.Perm.refl _

theorem Alike.contains_eq (h : a.Alike b) (k : String) : a.contains k = b.contains k := by
  rw [Bool.eq_iff_iff, contains_iff, contains_iff, h.mem_iff]

theorem Alike.filter (h : a.Alike b) (p : String → Bool) : (a.filter p).Alike (b.filter p) :=
  List.Perm.filter p h

theorem Alike.union (h : a.Alike b) (h' : c.Alike d) : (a.union c).Alike (b.union d) := by
  rw [alike_iff]
  intro k
  rw [mem_union, mem_union, h.mem_iff, h'.mem_iff]

theorem Alike.replace (h : a.Alike b) (old new : String) :
    (a.replace old new).Alike (b.replace old new) := by
  rw [alike_iff]
  intro k
  rw [mem_replace, mem_replace, h.mem_iff, h.mem_iff]

end KeySet

/-! ## Tables -/

namespace Table

variable {α β γ : Type} {R : α → α → Prop} {S : β → β → Prop} {t t' : Table α}

/-- The tables hold the same names in the same order, with related values. -/
def Rel (R : α → α → Prop) (t t' : Table α) : Prop :=
  List.Forall₂ (fun e e' => e.1 = e'.1 ∧ R e.2 e'.2) t.entries t'.entries

theorem Rel.keys_eq (h : Rel R t t') : t.keys = t'.keys := by
  rw [← List.forall₂_eq_eq_eq]
  exact List.rel_map (fun _ _ he => he.1) h

theorem Rel.map (h : Rel R t t') {f : String → α → β} (hf : ∀ k v v', R v v' → S (f k v) (f k v')) :
    Rel S (t.map f) (t'.map f) := by
  refine List.rel_map (fun e e' he => ⟨he.1, ?_⟩) h
  rw [← he.1]
  exact hf _ _ _ he.2

/-- A selection of entries by a test that related values pass alike has the same names. -/
theorem Rel.filter_eq (h : Rel R t t') {p : String × α → Bool}
    (hp : ∀ k v v', R v v' → p (k, v) = p (k, v')) :
    (t.entries.filter p).map Prod.fst = (t'.entries.filter p).map Prod.fst := by
  rw [← List.forall₂_eq_eq_eq]
  refine List.rel_map (fun _ _ he => he.1) (List.rel_filter ?_ h)
  rintro ⟨k, v⟩ ⟨-, v'⟩ ⟨rfl, hv⟩
  exact Bool.eq_iff_iff.mp (hp k v v' hv)

/-- What is made of each entry is the same where related values give the same. -/
theorem Rel.map_eq (h : Rel R t t') {f : String × α → γ}
    (hf : ∀ k v v', R v v' → f (k, v) = f (k, v')) : t.entries.map f = t'.entries.map f := by
  rw [← List.forall₂_eq_eq_eq]
  refine List.rel_map ?_ h
  rintro ⟨k, v⟩ ⟨-, v'⟩ ⟨rfl, hv⟩
  exact hf k v v' hv

theorem Rel.filterMap_eq (h : Rel R t t') {f : String × α → Option γ}
    (hf : ∀ k v v', R v v' → f (k, v) = f (k, v')) :
    t.entries.filterMap f = t'.entries.filterMap f := by
  have hmap := congrArg (List.filterMap id) (h.map_eq hf)
  rwa [List.filterMap_map, List.filterMap_map] at hmap

/-- The values of a name are related, if it is there. -/
theorem Rel.get? (h : Rel R t t') (k : String) : Option.Rel R (t.get? k) (t'.get? k) := by
  unfold Rel at h
  unfold Table.get?
  generalize t.entries = l at h ⊢
  generalize t'.entries = l' at h ⊢
  induction h with
  | nil => exact .none
  | @cons e e' _ _ he _ ih =>
    obtain ⟨k', v⟩ := e
    obtain ⟨_, v'⟩ := e'
    obtain ⟨rfl, hv⟩ := he
    simp only [List.lookup_cons]
    split
    · exact .some hv
    · exact ih

/-- Tables with the same names in the same order are related when their values are. -/
theorem rel_of_keys (hkeys : t.keys = t'.keys)
    (hvalues : ∀ k v v', t.get? k = some v → t'.get? k = some v' → R v v') : Rel R t t' := by
  simp only [get?_eq_some_iff] at hvalues
  unfold keys at hkeys
  unfold Rel
  generalize t.entries = l at hkeys hvalues ⊢
  generalize t'.entries = l' at hkeys hvalues ⊢
  induction l generalizing l' with
  | nil =>
    obtain rfl : l' = [] := List.map_eq_nil_iff.mp hkeys.symm
    exact .nil
  | cons e l ih =>
    cases l' with
    | nil => cases hkeys
    | cons e' l' =>
      obtain ⟨hk, hkeys⟩ := List.cons.inj hkeys
      refine .cons ⟨hk, hvalues e.1 e.2 e'.2 (by simp) ?_⟩ (ih l' hkeys fun k v v' hv hv' => ?_)
      · rw [hk]
        exact List.mem_cons_self
      · exact hvalues k v v' (List.mem_cons_of_mem _ hv) (List.mem_cons_of_mem _ hv')

end Table

/-! ## Results with notices -/

namespace Logged

variable {α β : Type} {R : α → α → Prop} {S : β → β → Prop}

/-- The results are related, and the notices are the same. -/
structure Rel (R : α → α → Prop) (x y : Logged α) : Prop where
  value : R x.value y.value
  notices : x.notices = y.notices

theorem Rel.imp {R' : α → α → Prop} {x y : Logged α} (h : Rel R x y)
    (himp : ∀ a b, R a b → R' a b) : Rel R' x y := ⟨himp _ _ h.value, h.notices⟩

theorem Rel.pure {a b : α} (h : R a b) : Rel R (Pure.pure a) (Pure.pure b) := ⟨h, rfl⟩

theorem Rel.bind {x y : Logged α} {f g : α → Logged β} (h : Rel R x y)
    (hf : ∀ a b, R a b → Rel S (f a) (g b)) : Rel S (x >>= f) (y >>= g) := by
  obtain ⟨hvalue, hnotices⟩ := hf _ _ h.value
  exact ⟨hvalue, congrArg₂ (· ++ ·) h.notices hnotices⟩

theorem Rel.foldlM {σ : Type} {R : σ → σ → Prop} {f g : σ → α → Logged σ} (l : List α) {a b : σ}
    (hf : ∀ a b x, R a b → Rel R (f a x) (g b x)) (h : R a b) :
    Rel R (l.foldlM f a) (l.foldlM g b) := by
  induction l generalizing a b with
  | nil => exact .pure h
  | cons x l ih =>
    simp only [List.foldlM_cons]
    exact (hf a b x h).bind fun _ _ => ih

end Logged

end ScriptModules
