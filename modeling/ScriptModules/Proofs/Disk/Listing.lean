import Mathlib.Data.List.Nodup
import ScriptModules.Disk.Read
import ScriptModules.Proofs.Data.Order
import ScriptModules.Proofs.Disk.Shape

/-!
# What lies below a folder

A walk goes through the entries of each folder by name. It meets what stands below the folder
(`Entry.listBelow`, in the order in which it stands there), once each and in another order
(`perm_descendants`): everything that is there, behind folders that may be entered
(`mem_descendants`), and in a tidy folder no list of names twice (`nodup_descendants`).

That each folder is gone through by name puts the whole walk in the order of lists of names, which
are compared name by name (`pairwise_descendants`). So what a walk meets is determined by what is
there: two walks that meet the same lists of names meet them in the same order
(`filter_descendants_eq`).
-/

namespace ScriptModules

/-! ## The order of lists of names -/

/-- Compares lists of names one by one; a shorter list comes before its extensions. -/
def namesLe : List String → List String → Bool
  | [], _ => true
  | _ :: _, [] => false
  | a :: as, b :: bs => if a = b then namesLe as bs else nameLe a b

theorem namesLe_antisymm {as bs : List String} (h : namesLe as bs = true)
    (h' : namesLe bs as = true) : as = bs := by
  induction as generalizing bs with
  | nil =>
    cases bs with
    | nil => rfl
    | cons b bs => simp [namesLe] at h'
  | cons a as ih =>
    cases bs with
    | nil => simp [namesLe] at h
    | cons b bs =>
      by_cases hab : a = b
      · subst hab
        rw [namesLe, if_pos rfl] at h h'
        rw [ih h h']
      · simp only [namesLe, hab, Ne.symm hab, if_false] at h h'
        exact absurd (nameLe_antisymm h h') hab

theorem namesLe_append (base as bs : List String) :
    namesLe (base ++ as) (base ++ bs) = namesLe as bs := by
  induction base with
  | nil => rfl
  | cons name base ih => rw [List.cons_append, List.cons_append, namesLe, if_pos rfl, ih]

theorem namesLe_cons_of_ne {a b : String} (hne : a ≠ b) (as bs : List String) :
    namesLe (a :: as) (b :: bs) = nameLe a b := by
  rw [namesLe, if_neg hne]

/-- Comparing names one by one is the lexicographic order of lists. -/
theorem namesLe_iff {as bs : List String} : namesLe as bs = true ↔ as = bs ∨ as < bs := by
  induction as generalizing bs with
  | nil => cases bs <;> simp [namesLe]
  | cons a as ih =>
    cases bs with
    | nil => simp [namesLe]
    | cons b bs =>
      rw [List.cons_lt_cons_iff]
      by_cases hab : a = b
      · subst hab
        simp only [namesLe, if_pos, ih, List.cons.injEq, true_and, String.lt_irrefl, false_or]
      · rw [namesLe_cons_of_ne hab, nameLe_iff]
        simp only [List.cons.injEq, hab, false_and, false_or, or_false]
        refine ⟨fun h => ?_, fun h => String.not_lt.mp (String.lt_asymm h)⟩
        by_contra hlt
        exact hab (String.le_antisymm h (String.not_lt.mp hlt))

/-! ## What is listed -/

namespace Entry

mutual

/-- The entries below a folder with their names from it, as they stand; a folder that `enter`
refuses is listed and not searched. -/
def listBelow (enter : Location → Bool) (base : Location) : List (String × Entry) →
    List (Location × Entry)
  | [] => []
  | (name, e) :: rest =>
    (base ++ [name], e) :: (listInside enter (base ++ [name]) e ++ listBelow enter base rest)

/-- The entries inside an entry. -/
def listInside (enter : Location → Bool) (base : Location) : Entry → List (Location × Entry)
  | .folder entries => if enter base then listBelow enter base entries else []
  | _ => []

end

variable {enter : Location → Bool} {base : Location} {entries rest : List (String × Entry)}
  {name : String} {e : Entry}

theorem Tidy.head {inner : List (String × Entry)} (h : Tidy ((name, .folder inner) :: rest)) :
    Tidy inner := by
  have hlookup : ((name, Entry.folder inner) :: rest).lookup name = some (.folder inner) := by simp
  exact h.folder hlookup

theorem Tidy.not_mem (h : Tidy ((name, e) :: rest)) : name ∉ rest.map Prod.fst :=
  (List.nodup_cons.mp h.named.1).1

theorem lookup_eq_none_of_not_mem (h : name ∉ entries.map Prod.fst) :
    entries.lookup name = none := by
  refine List.lookup_eq_none_iff.mpr fun p hp => ?_
  have hne : name ≠ p.1 := fun heq => h (heq ▸ List.mem_map_of_mem hp)
  simpa using hne

theorem Tidy.tail (h : Tidy ((name, e) :: rest)) : Tidy rest := by
  refine .mk ⟨(List.nodup_cons.mp h.named.1).2, fun n hn => h.named.2 n ?_⟩ fun n inner hn => ?_
  · exact List.mem_cons_of_mem _ hn
  · have hne : n ≠ name := by
      rintro rfl
      rw [lookup_eq_none_of_not_mem h.not_mem] at hn
      cases hn
    have hlookup : ((name, e) :: rest).lookup n = some (.folder inner) := by
      rw [lookup_cons_eq, if_neg hne, hn]
    exact h.folder hlookup

/-- The way to what lies at `names` goes through folders that may be entered. -/
def Passable (enter : Location → Bool) (base names : Location) : Prop :=
  ∀ way, way ≠ [] → way <+: names → way ≠ names → enter (base ++ way) = true

theorem passable_singleton (enter : Location → Bool) (base : Location) (name : String) :
    Passable enter base [name] := by
  intro way hne hway hproper
  rcases List.prefix_cons_iff.mp hway with rfl | ⟨t, rfl, ht⟩
  · exact absurd rfl hne
  · exact absurd (by rw [List.prefix_nil.mp ht]) hproper

theorem passable_cons {names : Location} (hnames : names ≠ []) :
    Passable enter base (name :: names) ↔
      enter (base ++ [name]) = true ∧ Passable enter (base ++ [name]) names := by
  constructor
  · intro h
    refine ⟨h [name] (by simp) (by simp) (by simpa using Ne.symm hnames), fun way hne hway hp => ?_⟩
    have := h (name :: way) (by simp) (List.cons_prefix_cons.mpr ⟨rfl, hway⟩) (by simpa using hp)
    simpa using this
  · rintro ⟨hname, hrest⟩ way hne hway hproper
    rcases List.prefix_cons_iff.mp hway with rfl | ⟨t, rfl, ht⟩
    · exact absurd rfl hne
    · by_cases hnil : t = []
      · simpa [hnil] using hname
      · have := hrest t hnil ht (fun heq => hproper (by rw [heq]))
        simpa using this

theorem Tidy.lookup?_tail (h : Tidy ((name, e) :: rest)) {n : String} {names : Location} {x : Entry}
    (hx : lookup? rest (n :: names) = some x) :
    n ≠ name ∧ lookup? ((name, e) :: rest) (n :: names) = some x := by
  have hne : n ≠ name := by
    rintro rfl
    rw [lookup?_cons, lookup_eq_none_of_not_mem h.not_mem] at hx
    cases hx
  refine ⟨hne, ?_⟩
  rw [lookup?_cons, lookup_cons_eq, if_neg hne, ← lookup?_cons, hx]

mutual

theorem mem_listBelow (enter : Location → Bool) (base : Location) :
    ∀ entries : List (String × Entry), Tidy entries → ∀ loc x,
      (loc, x) ∈ listBelow enter base entries ↔ ∃ names, names ≠ [] ∧ loc = base ++ names ∧
        lookup? entries names = some x ∧ Passable enter base names
  | [], _, loc, x => by
    constructor
    · intro h
      simp [listBelow] at h
    · rintro ⟨names, hne, -, hlookup, -⟩
      rw [lookup?_empty, if_neg hne] at hlookup
      cases hlookup
  | (name, e) :: rest, htidy, loc, x => by
    rw [listBelow, List.mem_cons, List.mem_append, mem_listInside enter (base ++ [name]) e
      (fun inner heq => (heq ▸ htidy).head) loc x, mem_listBelow enter base rest htidy.tail loc x]
    constructor
    · rintro (heq | ⟨names, hne, rfl, hin, henter, hpass⟩ | ⟨names, hne, rfl, hlookup, hpass⟩)
      · obtain ⟨rfl, rfl⟩ := Prod.mk.inj heq
        exact ⟨[name], by simp, rfl, by simp [lookup?_cons], passable_singleton enter base name⟩
      · exact ⟨name :: names, by simp, by simp, by simp [lookup?_cons, hin],
          (passable_cons hne).mpr ⟨henter, hpass⟩⟩
      · obtain ⟨n, names, rfl⟩ := List.exists_cons_of_ne_nil hne
        exact ⟨n :: names, hne, rfl, (htidy.lookup?_tail hlookup).2, hpass⟩
    · rintro ⟨names, hne, rfl, hlookup, hpass⟩
      obtain ⟨n, names, rfl⟩ := List.exists_cons_of_ne_nil hne
      rw [lookup?_cons, lookup_cons_eq] at hlookup
      by_cases hn : n = name
      · subst hn
        rw [if_pos rfl, Option.bind_some] at hlookup
        by_cases hnil : names = []
        · subst hnil
          rw [inside?_nil] at hlookup
          obtain rfl := Option.some.inj hlookup
          exact .inl rfl
        · obtain ⟨henter, hpass⟩ := (passable_cons hnil).mp hpass
          exact .inr (.inl ⟨names, hnil, by simp, hlookup, henter, hpass⟩)
      · rw [if_neg hn, ← lookup?_cons] at hlookup
        exact .inr (.inr ⟨n :: names, hne, rfl, hlookup, hpass⟩)

theorem mem_listInside (enter : Location → Bool) (base : Location) :
    ∀ e : Entry, (∀ inner, e = .folder inner → Tidy inner) → ∀ loc x,
      (loc, x) ∈ listInside enter base e ↔ ∃ names, names ≠ [] ∧ loc = base ++ names ∧
        e.inside? names = some x ∧ enter base = true ∧ Passable enter base names
  | .file content, _, loc, x => by
    constructor
    · intro h
      simp [listInside] at h
    · rintro ⟨names, hne, -, hin, -⟩
      rw [inside?_file, if_neg hne] at hin
      cases hin
  | .link target, _, loc, x => by
    constructor
    · intro h
      simp [listInside] at h
    · rintro ⟨names, hne, -, hin, -⟩
      obtain ⟨n, names, rfl⟩ := List.exists_cons_of_ne_nil hne
      cases hin
  | .folder inner, htidy, loc, x => by
    rw [listInside]
    by_cases henter : enter base = true
    · rw [if_pos henter, mem_listBelow enter base inner (htidy inner rfl) loc x]
      simp [inside?_folder, henter]
    · simp [henter]

end

mutual

theorem nodup_listBelow (enter : Location → Bool) (base : Location) :
    ∀ entries : List (String × Entry), Tidy entries →
      ((listBelow enter base entries).map Prod.fst).Nodup
  | [], _ => by simp [listBelow]
  | (name, e) :: rest, htidy => by
    have hinner : ∀ inner, e = .folder inner → Tidy inner := fun inner heq => (heq ▸ htidy).head
    rw [listBelow, List.map_cons, List.map_append, List.nodup_cons]
    refine ⟨fun hmem => ?_, (nodup_listInside enter (base ++ [name]) e hinner).append
      (nodup_listBelow enter base rest htidy.tail) fun loc hin hrest => ?_⟩
    · rcases List.mem_append.mp hmem with hin | hrest
      · obtain ⟨⟨loc, x⟩, hx, heq⟩ := List.mem_map.mp hin
        obtain ⟨names, hne, rfl, -⟩ := (mem_listInside enter _ e hinner loc x).mp hx
        simp at heq
        exact hne heq
      · obtain ⟨⟨loc, x⟩, hx, heq⟩ := List.mem_map.mp hrest
        obtain ⟨names, hne, rfl, hlookup, -⟩ :=
          (mem_listBelow enter base rest htidy.tail loc x).mp hx
        obtain ⟨n, names, rfl⟩ := List.exists_cons_of_ne_nil hne
        simp at heq
        exact (htidy.lookup?_tail hlookup).1 heq.1
    · obtain ⟨⟨loc, x⟩, hx, rfl⟩ := List.mem_map.mp hin
      obtain ⟨names, hne, rfl, -⟩ := (mem_listInside enter _ e hinner loc x).mp hx
      obtain ⟨⟨loc', x'⟩, hx', heq⟩ := List.mem_map.mp hrest
      obtain ⟨names', hne', rfl, hlookup, -⟩ :=
        (mem_listBelow enter base rest htidy.tail loc' x').mp hx'
      obtain ⟨n, names', rfl⟩ := List.exists_cons_of_ne_nil hne'
      simp at heq
      exact (htidy.lookup?_tail hlookup).1 heq.1

theorem nodup_listInside (enter : Location → Bool) (base : Location) :
    ∀ e : Entry, (∀ inner, e = .folder inner → Tidy inner) →
      ((listInside enter base e).map Prod.fst).Nodup
  | .file content, _ => by simp [listInside]
  | .link target, _ => by simp [listInside]
  | .folder inner, htidy => by
    rw [listInside]
    split
    · exact nodup_listBelow enter base inner (htidy inner rfl)
    · simp

end

/-! ## Folders gone through by name -/

theorem perm_byName (ms : List (String × List (Location × Entry))) :
    (byName ms).Perm (ms.flatMap (·.2)) :=
  (List.mergeSort_perm ms _).flatMap_right _

theorem map_fst_met (enter : Location → Bool) (base : Location) (entries : List (String × Entry)) :
    (met enter base entries).map Prod.fst = entries.map Prod.fst := by
  induction entries with
  | nil => rfl
  | cons entry rest ih =>
    obtain ⟨name, e⟩ := entry
    rw [met, List.map_cons, List.map_cons, ih]

mutual

/-- A walk meets what stands below the folder. -/
theorem perm_met (enter : Location → Bool) (base : Location) : ∀ entries : List (String × Entry),
    ((met enter base entries).flatMap (·.2)).Perm (listBelow enter base entries)
  | [] => by
    rw [met, listBelow]
    exact .refl _
  | (name, e) :: rest => by
    rw [met, listBelow, List.flatMap_cons, List.cons_append]
    exact ((perm_metInside enter (base ++ [name]) e).append (perm_met enter base rest)).cons _

theorem perm_metInside (enter : Location → Bool) (base : Location) : ∀ e : Entry,
    (metInside enter base e).Perm (listInside enter base e)
  | .file content => by simp [metInside, listInside]
  | .link target => by simp [metInside, listInside]
  | .folder entries => by
    rw [metInside, listInside]
    by_cases henter : enter base = true
    · rw [if_pos henter, if_pos henter]
      exact (perm_byName _).trans (perm_met enter base entries)
    · rw [if_neg henter, if_neg henter]

end

/-- What was met at an entry below `base` lies at it or inside it, and stands in order. -/
structure Ordered (base : Location) (m : String × List (Location × Entry)) : Prop where
  below : ∀ p ∈ m.2, ∃ names, p.1 = base ++ m.1 :: names
  sorted : m.2.Pairwise fun p q => namesLe p.1 q.1 = true

/-- Different entries are told apart by their names, so a folder gone through by name is in order
when each of its entries is. -/
theorem pairwise_byName {ms : List (String × List (Location × Entry))}
    (hnames : (ms.map Prod.fst).Nodup) (hordered : ∀ m ∈ ms, Ordered base m) :
    (byName ms).Pairwise fun p q => namesLe p.1 q.1 = true := by
  have hperm := List.mergeSort_perm ms fun a b => nameLe a.1 b.1
  have hsorted : (ms.mergeSort fun a b => nameLe a.1 b.1).Pairwise
      fun a b => nameLe a.1 b.1 = true := by
    apply List.pairwise_mergeSort
    · exact fun a b c => nameLe_trans
    · exact fun a b => by simpa using nameLe_total a.1 b.1
  have hdistinct : (ms.mergeSort fun a b => nameLe a.1 b.1).Pairwise fun a b => a.1 ≠ b.1 :=
    List.pairwise_map.mp ((hperm.map Prod.fst).nodup_iff.mpr hnames)
  refine List.pairwise_flatMap.mpr ⟨fun m hm => (hordered m (hperm.mem_iff.mp hm)).sorted, ?_⟩
  refine (hsorted.and hdistinct).imp_of_mem fun {a b} ha hb hab p hp q hq => ?_
  obtain ⟨as, has⟩ := (hordered a (hperm.mem_iff.mp ha)).below p hp
  obtain ⟨bs, hbs⟩ := (hordered b (hperm.mem_iff.mp hb)).below q hq
  rw [has, hbs, namesLe_append, namesLe_cons_of_ne hab.2]
  exact hab.1

mutual

theorem ordered_met (enter : Location → Bool) (base : Location) :
    ∀ entries : List (String × Entry), Tidy entries → ∀ m ∈ met enter base entries, Ordered base m
  | [], _, m, hm => by
    rw [met] at hm
    cases hm
  | (name, e) :: rest, htidy, m, hm => by
    rw [met] at hm
    rcases List.mem_cons.mp hm with rfl | hm
    · obtain ⟨hbelow, hsorted⟩ := ordered_metInside enter (base ++ [name]) e
        fun inner heq => (heq ▸ htidy).head
      refine ⟨fun p hp => ?_, List.pairwise_cons.mpr ⟨fun p hp => ?_, hsorted⟩⟩
      · rcases List.mem_cons.mp hp with rfl | hp
        · exact ⟨[], rfl⟩
        · obtain ⟨names, hnames⟩ := hbelow p hp
          exact ⟨names, by simpa using hnames⟩
      · obtain ⟨names, hnames⟩ := hbelow p hp
        have hfirst := namesLe_append (base ++ [name]) [] names
        rw [List.append_nil] at hfirst
        rw [hnames, hfirst]
        rfl
    · exact ordered_met enter base rest htidy.tail m hm

/-- A walk inside an entry stays there, and meets what is there in order. -/
theorem ordered_metInside (enter : Location → Bool) (base : Location) :
    ∀ e : Entry, (∀ inner, e = .folder inner → Tidy inner) →
      (∀ p ∈ metInside enter base e, ∃ names, p.1 = base ++ names) ∧
        (metInside enter base e).Pairwise fun p q => namesLe p.1 q.1 = true
  | .file content, _ => by simp [metInside]
  | .link target, _ => by simp [metInside]
  | .folder inner, htidy => by
    have hordered := ordered_met enter base inner (htidy inner rfl)
    have hnames : ((met enter base inner).map Prod.fst).Nodup := by
      rw [map_fst_met]
      exact (htidy inner rfl).named.1
    rw [metInside]
    by_cases henter : enter base = true
    · rw [if_pos henter]
      refine ⟨fun p hp => ?_, pairwise_byName hnames hordered⟩
      obtain ⟨m, hm, hp⟩ := List.mem_flatMap.mp ((perm_byName _).mem_iff.mp hp)
      obtain ⟨names, heq⟩ := (hordered m hm).below p hp
      exact ⟨_, heq⟩
    · simp [henter]

end

/-! ## Folders whose entries stand in order -/

theorem mem_listBelow_of_mem (enter : Location → Bool) (base : Location) {name : String} {e : Entry}
    {entries : List (String × Entry)} (h : (name, e) ∈ entries) :
    (base ++ [name], e) ∈ listBelow enter base entries := by
  induction entries with
  | nil => cases h
  | cons entry rest ih =>
    obtain ⟨n, x⟩ := entry
    rw [listBelow]
    rcases List.mem_cons.mp h with heq | h
    · cases heq
      exact List.mem_cons_self
    · exact List.mem_cons_of_mem _ (List.mem_append_right _ (ih h))

/-- Where the entries stand in order, so do their names. -/
theorem pairwise_met {entries : List (String × Entry)} (h : (listBelow enter base entries).Pairwise
    fun p q => namesLe p.1 q.1 = true) :
    (met enter base entries).Pairwise fun a b => nameLe a.1 b.1 = true := by
  induction entries with
  | nil =>
    rw [met]
    exact .nil
  | cons entry rest ih =>
    obtain ⟨name, e⟩ := entry
    rw [listBelow] at h
    obtain ⟨hfirst, hrest⟩ := List.pairwise_cons.mp h
    rw [met]
    refine List.pairwise_cons.mpr ⟨fun m hm => ?_, ih (List.pairwise_append.mp hrest).2.1⟩
    have hname : m.1 ∈ rest.map Prod.fst := by
      rw [← map_fst_met enter base]
      exact List.mem_map_of_mem hm
    obtain ⟨⟨n, x⟩, hx, heq⟩ := List.mem_map.mp hname
    have hle := hfirst _ (List.mem_append_right _ (mem_listBelow_of_mem enter base hx))
    rw [namesLe_append] at hle
    show nameLe name m.1 = true
    rw [← heq]
    by_cases hne : name = n
    · exact nameLe_iff.mpr (hne ▸ String.le_refl n)
    · rwa [namesLe_cons_of_ne hne] at hle

mutual

theorem flatMap_met_of_sorted (enter : Location → Bool) (base : Location) :
    ∀ entries : List (String × Entry), ((listBelow enter base entries).Pairwise
      fun p q => namesLe p.1 q.1 = true) →
      (met enter base entries).flatMap (·.2) = listBelow enter base entries
  | [], _ => by rw [met, listBelow, List.flatMap_nil]
  | (name, e) :: rest, h => by
    rw [listBelow] at h ⊢
    obtain ⟨hinside, hrest, -⟩ := List.pairwise_append.mp (List.pairwise_cons.mp h).2
    rw [met, List.flatMap_cons, flatMap_met_of_sorted enter base rest hrest,
      metInside_of_sorted enter (base ++ [name]) e hinside, List.cons_append]

theorem metInside_of_sorted (enter : Location → Bool) (base : Location) : ∀ e : Entry,
    ((listInside enter base e).Pairwise fun p q => namesLe p.1 q.1 = true) →
      metInside enter base e = listInside enter base e
  | .file content, _ => by simp [metInside, listInside]
  | .link target, _ => by simp [metInside, listInside]
  | .folder inner, h => by
    rw [listInside] at h ⊢
    rw [metInside]
    by_cases henter : enter base = true
    · rw [if_pos henter] at h ⊢
      rw [if_pos henter, byName, List.mergeSort_of_pairwise (pairwise_met h),
        flatMap_met_of_sorted enter base inner h]
    · rw [if_neg henter, if_neg henter]

end

end Entry

variable {entries entries' : List (String × Entry)} {enter enter' : Location → Bool}

/-- Is the entry a link? -/
def Entry.isLink : Entry → Bool
  | .link _ => true
  | _ => false

/-- A disk on which no link is listed has none. -/
theorem Disk.shape?_ne_link {d : Disk} (htidy : d.Tidy)
    (h : (Entry.listBelow (fun _ => true) [] d.top).all (fun p => !p.2.isLink) = true)
    (loc : Location) (target : String) : d.shape? loc ≠ some (.link target) := by
  intro hlink
  have hloc : loc ≠ [] := by
    rintro rfl
    simp at hlink
  have hmem : (loc, Entry.link target) ∈ Entry.listBelow (fun _ => true) [] d.top :=
    (Entry.mem_listBelow _ [] d.top htidy loc _).mpr
      ⟨loc, hloc, rfl, Disk.shape?_eq_link.mp hlink, by simp [Entry.Passable]⟩
  have hnot := List.all_eq_true.mp h _ hmem
  simp [Entry.isLink] at hnot

/-- A walk meets what stands below the folder. -/
theorem perm_descendants (entries : List (String × Entry)) (enter : Location → Bool) :
    (descendants entries enter).Perm (Entry.listBelow enter [] entries) :=
  (Entry.perm_byName _).trans (Entry.perm_met enter [] entries)

/-- Where the entries stand in order, nothing is left to sort. -/
theorem descendants_of_sorted (h : (Entry.listBelow enter [] entries).Pairwise fun a b =>
    namesLe a.1 b.1 = true) : descendants entries enter = Entry.listBelow enter [] entries := by
  rw [descendants, Entry.byName, List.mergeSort_of_pairwise (Entry.pairwise_met h),
    Entry.flatMap_met_of_sorted enter [] entries h]

theorem mem_descendants (htidy : Entry.Tidy entries) {names : Location} {e : Entry} :
    (names, e) ∈ descendants entries enter ↔
      names ≠ [] ∧ Entry.lookup? entries names = some e ∧ Entry.Passable enter [] names := by
  rw [(perm_descendants entries enter).mem_iff, Entry.mem_listBelow enter [] entries htidy]
  simp

theorem nodup_descendants (htidy : Entry.Tidy entries) :
    ((descendants entries enter).map Prod.fst).Nodup :=
  ((perm_descendants entries enter).map Prod.fst).nodup_iff.mpr
    (Entry.nodup_listBelow enter [] entries htidy)

/-- A walk goes by lists of names. -/
theorem pairwise_descendants (htidy : Entry.Tidy entries) :
    ((descendants entries enter).map Prod.fst).Pairwise fun a b => namesLe a b = true := by
  have hnames : ((Entry.met enter [] entries).map Prod.fst).Nodup := by
    rw [Entry.map_fst_met]
    exact htidy.named.1
  exact List.pairwise_map.mpr
    (Entry.pairwise_byName hnames (Entry.ordered_met enter [] entries htidy))

theorem nodup_filter_descendants (htidy : Entry.Tidy entries) (enter : Location → Bool)
    (f : Location × Entry → Bool) : (((descendants entries enter).filter f).map Prod.fst).Nodup :=
  (nodup_descendants htidy).sublist (List.filter_sublist.map Prod.fst)

theorem pairwise_filter_descendants (htidy : Entry.Tidy entries) (enter : Location → Bool)
    (f : Location × Entry → Bool) : (((descendants entries enter).filter f).map Prod.fst).Pairwise
      fun a b => namesLe a b = true :=
  (pairwise_descendants htidy).sublist (List.filter_sublist.map Prod.fst)

/-- Walks that meet the same lists of names meet them in the same order. -/
theorem filter_descendants_eq (htidy : Entry.Tidy entries) (htidy' : Entry.Tidy entries')
    {f f' : Location × Entry → Bool}
    (h : ∀ names, (∃ e, (names, e) ∈ descendants entries enter ∧ f (names, e) = true) ↔
      ∃ e, (names, e) ∈ descendants entries' enter' ∧ f' (names, e) = true) :
    ((descendants entries enter).filter f).map Prod.fst =
      ((descendants entries' enter').filter f').map Prod.fst := by
  have hmem : ∀ names, names ∈ ((descendants entries enter).filter f).map Prod.fst ↔
      names ∈ ((descendants entries' enter').filter f').map Prod.fst := by
    intro names
    simpa using h names
  have hperm := (List.perm_ext_iff_of_nodup (nodup_filter_descendants htidy enter f)
    (nodup_filter_descendants htidy' enter' f')).mpr hmem
  exact hperm.eq_of_pairwise (fun a b _ _ => namesLe_antisymm)
    (pairwise_filter_descendants htidy enter f) (pairwise_filter_descendants htidy' enter' f')

end ScriptModules
