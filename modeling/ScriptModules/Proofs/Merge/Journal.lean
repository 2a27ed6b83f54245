import Mathlib.Logic.Relation
import ScriptModules.Link.State

/-!
# Merge journals

A journal is the list of the merges of a run, in the order in which they happened. It says where
each file went: `Merge.home` carries a key through the merges one after the other, and
`Merge.Links` is the same information without the order, a link from each retired file to the file
that took it in.

In an `Orderly` journal no file is retired twice and none takes a text in after it was retired.
There the links do not branch and do not go on for ever (`Orderly.wellFounded`), and following them
from any key ends in its home and nowhere else (`Orderly.ends_iff`).
-/

namespace ScriptModules

namespace Merge

/-- Where a file stands after one merge. -/
def carry (m : Merge) (k : String) : String := if k = m.retired then m.survivor else k

/-- Where a file stands after the merges of a journal. -/
def home (ms : List Merge) (k : String) : String := ms.foldl (fun k m => m.carry k) k

/-- The journal retires `a` and puts its text into `b`. -/
def Links (ms : List Merge) (a b : String) : Prop := ∃ m ∈ ms, m.retired = a ∧ m.survivor = b

@[simp] theorem home_nil (k : String) : home [] k = k := rfl

@[simp] theorem home_cons (m : Merge) (ms : List Merge) (k : String) :
    home (m :: ms) k = home ms (m.carry k) := rfl

theorem home_append (ms ns : List Merge) (k : String) :
    home (ms ++ ns) k = home ns (home ms k) :=
  List.foldl_append

theorem carry_retired (m : Merge) : m.carry m.retired = m.survivor := by simp [carry]

theorem carry_of_ne {m : Merge} {k : String} (h : k ≠ m.retired) : m.carry k = k := by
  simp [carry, h]

theorem carry_ne_retired {m : Merge} (h : m.survivor ≠ m.retired) (k : String) :
    m.carry k ≠ m.retired := by
  unfold carry
  split
  · exact h
  · assumption

/-- Only the two files of a merge can come to stand together by it. -/
theorem carry_eq_carry_iff {m : Merge} {a b : String} :
    m.carry a = m.carry b ↔
      a = b ∨ (a = m.retired ∧ b = m.survivor) ∨ (a = m.survivor ∧ b = m.retired) := by
  unfold carry
  split <;> split <;> grind

/-- A key is its own home, or the survivor of some merge is. -/
theorem home_eq_or_survivor (ms : List Merge) (k : String) :
    home ms k = k ∨ ∃ m ∈ ms, m.survivor = home ms k := by
  induction ms generalizing k with
  | nil => exact .inl rfl
  | cons m ms ih =>
    rw [home_cons]
    rcases ih (m.carry k) with h | ⟨n, hn, h⟩
    · by_cases hk : k = m.retired
      · subst hk
        rw [carry_retired] at h ⊢
        exact .inr ⟨m, by simp, h.symm⟩
      · rw [carry_of_ne hk] at h ⊢
        exact .inl h
    · exact .inr ⟨n, by simp [hn], h⟩

theorem home_of_not_retired {ms : List Merge} {k : String} (h : ∀ m ∈ ms, m.retired ≠ k) :
    home ms k = k := by
  induction ms with
  | nil => rfl
  | cons m ms ih =>
    rw [home_cons, carry_of_ne (h m (by simp)).symm]
    exact ih fun n hn => h n (by simp [hn])

/-- The links lead from every key to its home. -/
theorem links_home (ms : List Merge) (k : String) :
    Relation.ReflTransGen (Links ms) k (home ms k) := by
  induction ms generalizing k with
  | nil => exact .refl
  | cons m ms ih =>
    have hmono : ∀ a b, Links ms a b → Links (m :: ms) a b := by
      rintro a b ⟨n, hn, h⟩
      exact ⟨n, by simp [hn], h⟩
    have htail := Relation.ReflTransGen.mono hmono _ _ (ih (m.carry k))
    by_cases hk : k = m.retired
    · have hhead : Links (m :: ms) k (m.carry k) := ⟨m, by simp, hk.symm, by rw [hk, carry_retired]⟩
      exact .head hhead htail
    · rw [home_cons]
      rwa [carry_of_ne hk] at htail ⊢

/-! ## Orderly journals -/

/-- No file is retired twice, and none takes a text in when or after it is retired. -/
structure Orderly (ms : List Merge) : Prop where
  proper : ∀ m ∈ ms, m.survivor ≠ m.retired
  later : ms.Pairwise fun m n => n.retired ≠ m.retired ∧ n.survivor ≠ m.retired

namespace Orderly

variable {m : Merge} {ms : List Merge}

theorem nil : Orderly [] := ⟨by simp, .nil⟩

theorem cons_iff : Orderly (m :: ms) ↔ m.survivor ≠ m.retired ∧
    (∀ n ∈ ms, n.retired ≠ m.retired ∧ n.survivor ≠ m.retired) ∧ Orderly ms := by
  constructor
  · rintro ⟨hp, hl⟩
    obtain ⟨hm, hl⟩ := List.pairwise_cons.mp hl
    exact ⟨hp m (by simp), hm, fun n hn => hp n (by simp [hn]), hl⟩
  · rintro ⟨hp, hm, hms⟩
    refine ⟨?_, List.pairwise_cons.mpr ⟨hm, hms.later⟩⟩
    intro n hn
    rcases List.mem_cons.mp hn with rfl | hn
    · exact hp
    · exact hms.proper n hn

theorem retired_nodup (h : Orderly ms) : (ms.map (·.retired)).Nodup := by
  unfold List.Nodup
  rw [List.pairwise_map]
  exact h.later.imp fun hmn e => hmn.1 e.symm

/-- A link keeps the home: a file goes where the file that took it in goes. -/
theorem home_eq_of_links (h : Orderly ms) {a b : String} (hab : Links ms a b) :
    home ms a = home ms b := by
  induction ms with
  | nil =>
    obtain ⟨m, hm, -⟩ := hab
    cases hm
  | cons m ms ih =>
    obtain ⟨hp, hlater, hms⟩ := cons_iff.mp h
    obtain ⟨n, hn, rfl, rfl⟩ := hab
    rw [home_cons, home_cons]
    rcases List.mem_cons.mp hn with rfl | hn
    · rw [carry_retired, carry_of_ne hp]
    · obtain ⟨h₁, h₂⟩ := hlater n hn
      rw [carry_of_ne h₁, carry_of_ne h₂]
      exact ih hms ⟨n, hn, rfl, rfl⟩

theorem home_eq_of_chain (h : Orderly ms) {a b : String}
    (hab : Relation.ReflTransGen (Links ms) a b) : home ms a = home ms b := by
  induction hab with
  | refl => rfl
  | tail _ hbc ih => exact ih.trans (h.home_eq_of_links hbc)

/-- No home is retired. -/
theorem retired_ne_home (h : Orderly ms) (k : String) : ∀ m ∈ ms, m.retired ≠ home ms k := by
  induction ms generalizing k with
  | nil => simp
  | cons m ms ih =>
    obtain ⟨hp, hlater, hms⟩ := cons_iff.mp h
    intro n hn
    rw [home_cons]
    rcases List.mem_cons.mp hn with rfl | hn
    · -- The home is the key that `n` leaves, or a later survivor; neither is the retired file.
      rcases home_eq_or_survivor ms (n.carry k) with e | ⟨l, hl, e⟩
      · rw [e]
        exact (carry_ne_retired hp k).symm
      · rw [← e]
        exact (hlater l hl).2.symm
    · exact ih hms (m.carry k) n hn

/-- Following the links from a key ends in its home and nowhere else. -/
theorem ends_iff (h : Orderly ms) {k x : String} :
    (Relation.ReflTransGen (Links ms) k x ∧ ∀ y, ¬ Links ms x y) ↔ x = home ms k := by
  constructor
  · rintro ⟨hkx, hx⟩
    have hfix : home ms x = x := home_of_not_retired fun m hm e => hx m.survivor ⟨m, hm, e, rfl⟩
    rw [h.home_eq_of_chain hkx, hfix]
  · rintro rfl
    refine ⟨links_home ms k, ?_⟩
    rintro y ⟨m, hm, e, -⟩
    exact h.retired_ne_home k m hm e

/-- A chain of links ends at a key that stays, exactly when that key is the home. -/
theorem chain_iff (h : Orderly ms) {a k : String} (hk : ∀ m ∈ ms, m.retired ≠ k) :
    Relation.ReflTransGen (Links ms) a k ↔ home ms a = k := by
  constructor
  · intro hak
    rw [h.home_eq_of_chain hak]
    exact home_of_not_retired hk
  · rintro rfl
    exact links_home ms a

end Orderly

/-- How many merges are left from the one that retires `k` on. -/
def remaining : List Merge → String → Nat
  | [], _ => 0
  | m :: ms, k => if k = m.retired then ms.length + 1 else remaining ms k

theorem remaining_le (ms : List Merge) (k : String) : remaining ms k ≤ ms.length := by
  induction ms with
  | nil => simp [remaining]
  | cons m ms ih =>
    simp only [remaining, List.length_cons]
    split <;> omega

theorem Orderly.remaining_lt {ms : List Merge} (h : Orderly ms) {a b : String}
    (hab : Links ms a b) : remaining ms b < remaining ms a := by
  induction ms with
  | nil =>
    obtain ⟨m, hm, -⟩ := hab
    cases hm
  | cons m ms ih =>
    obtain ⟨hp, hlater, hms⟩ := cons_iff.mp h
    obtain ⟨n, hn, rfl, rfl⟩ := hab
    simp only [remaining]
    rcases List.mem_cons.mp hn with rfl | hn
    · rw [if_neg hp, if_pos rfl]
      have := remaining_le ms n.survivor
      omega
    · obtain ⟨h₁, h₂⟩ := hlater n hn
      rw [if_neg h₁, if_neg h₂]
      exact ih hms ⟨n, hn, rfl, rfl⟩

/-- The links do not go on for ever. -/
theorem Orderly.wellFounded {ms : List Merge} (h : Orderly ms) :
    WellFounded fun b a => Links ms a b :=
  Subrelation.wf (fun hab => h.remaining_lt hab) (measure (remaining ms)).wf

end Merge

/-- The merge that an entry of the journal stands for, if it was checked. -/
def MergeRecord.merge? : MergeRecord → Option Merge
  | .merged m => some m
  | .unchecked .. => none

namespace State

/-- The merges that were noted on the way from `s` to `t`. -/
def journal (s t : State) : List Merge :=
  (t.merges.drop s.merges.length).filterMap MergeRecord.merge?

/-- The file of `t` that the file `k` of `s` went into. -/
def home (s t : State) (k : String) : String := Merge.home (s.journal t) k

theorem journal_eq {s t : State} {ms : List Merge} (h : t.merges = s.merges ++ ms.map .merged) :
    s.journal t = ms := by
  unfold journal
  rw [h, List.drop_left, List.filterMap_map]
  exact List.filterMap_some

end State

end ScriptModules
