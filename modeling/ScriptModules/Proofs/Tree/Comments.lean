import ScriptModules.Proofs.Source.Weaving
import ScriptModules.Proofs.Tree.Address
import ScriptModules.Tree.Outline

/-!
# The comments of a tree

The comments to be cut out of a script are the outermost ones of its tree: comments that stand in no
other comment. `commentSpans_eq_preorder` lists them in preorder, by their addresses. When the
children of every node follow one another inside the node (`Nested`), the comments stand in a row
(`Nested.inRow_commentSpans`), so that each of them is cut out and nothing else is. One thing has to
be ruled out: an empty comment right before another one, for which it would be taken
(`empty_comment_shields`).
-/

namespace ScriptModules

namespace Node

variable {n c root : Node} {i : Nat} {p : List Nat}

/-- The bytes that a node covers. -/
def span (n : Node) : Span := ⟨n.start, n.stop⟩

/-- The bytes that the node at an address covers. -/
def spanAt (n : Node) (p : List Nat) : Span := ((n.nodeAt? p).map span).getD ⟨0, 0⟩

/-- At the address stands a comment that is not part of another one. -/
def IsOutermostComment (root : Node) (p : List Nat) : Prop :=
  ∃ n, root.nodeAt? p = some n ∧ n.isComment = true ∧ ∀ m, root.Above p m → m.isComment = false

/-- The children of a node follow one another without overlapping, inside the node. -/
structure Tidy (n : Node) : Prop where
  ordered : n.start ≤ n.stop
  apart : n.children.Pairwise fun c d => c.stop ≤ d.start
  inside : ∀ c ∈ n.children, n.start ≤ c.start ∧ c.stop ≤ n.stop

/-- Every node of the tree is tidy. -/
def Nested (root : Node) : Prop := ∀ n, root.Within n → n.Tidy

theorem Nested.child (h : root.Nested) (hc : c ∈ root.children) : c.Nested :=
  fun n hn => h n ((Within.child hc).trans hn)

theorem nested_of_children (h : root.Tidy) (hcs : ∀ c ∈ root.children, c.Nested) : root.Nested := by
  rintro n ⟨p, hp⟩
  cases p with
  | nil =>
    cases hp
    exact h
  | cons i p =>
    obtain ⟨c, hc, hp⟩ := exists_child_of_nodeAt? hp
    exact hcs c (List.mem_of_getElem? hc) n ⟨p, hp⟩

/-! ## Comments by address -/

theorem spanAt_cons (h : n.children[i]? = some c) : n.spanAt (i :: p) = c.spanAt p := by
  rw [spanAt, nodeAt?_cons_of_child h, spanAt]

/-- Does the way down to the address lead to a comment without passing another one? -/
def endsInComment : Node → List Nat → Bool
  | n, [] => n.isComment
  | n, i :: p => !n.isComment && n.children[i]?.any fun c => c.endsInComment p

theorem endsInComment_cons (h : n.children[i]? = some c) :
    n.endsInComment (i :: p) = (!n.isComment && c.endsInComment p) := by
  rw [endsInComment, h]
  rfl

theorem endsInComment_iff : root.endsInComment p = true ↔ root.IsOutermostComment p := by
  induction p generalizing root with
  | nil =>
    constructor
    · exact fun h => ⟨root, rfl, h, fun m hm => (not_above_nil hm).elim⟩
    · rintro ⟨n, hn, hcomment, -⟩
      cases hn
      exact hcomment
  | cons i p ih =>
    cases hc : root.children[i]? with
    | none =>
      refine iff_of_false ?_ ?_
      · simp [endsInComment, hc]
      · rintro ⟨n, hn, -⟩
        rw [nodeAt?_cons, hc] at hn
        cases hn
    | some c =>
      rw [endsInComment_cons hc, Bool.and_eq_true, Bool.not_eq_true', ih]
      simp only [IsOutermostComment, nodeAt?_cons_of_child hc, above_cons_iff hc]
      constructor
      · rintro ⟨hroot, n, hn, hcomment, habove⟩
        refine ⟨n, hn, hcomment, ?_⟩
        rintro m (rfl | hm)
        · exact hroot
        · exact habove m hm
      · rintro ⟨n, hn, hcomment, habove⟩
        exact ⟨habove root (.inl rfl), n, hn, hcomment, fun m hm => habove m (.inr hm)⟩

theorem commentSpans_eq (n : Node) :
    n.commentSpans = if n.isComment then [n.span] else commentSpansAll n.children := by
  cases n
  rw [commentSpans]
  rfl

theorem commentSpansAll_eq (cs : List Node) : commentSpansAll cs = cs.flatMap commentSpans := by
  induction cs with
  | nil => rfl
  | cons c cs ih => rw [commentSpansAll, ih, List.flatMap_cons]

/-- The spans of the comments come in the order of their addresses. -/
theorem commentSpans_eq_preorder (n : Node) :
    n.commentSpans = (n.preorder.filter n.endsInComment).map n.spanAt := by
  induction n using induct with
  | node n ih =>
    rw [commentSpans_eq, preorder_eq]
    split
    · next hn =>
      have hnone : (preorderFrom 0 n.children).filter n.endsInComment = [] := by
        refine List.filter_eq_nil_iff.mpr fun p hp => ?_
        cases p with
        | nil => exact (nil_not_mem_preorderFrom _ _ hp).elim
        | cons i p => simp [endsInComment, hn]
      have hroot : n.endsInComment [] = true := hn
      rw [List.filter_cons_of_pos hroot, hnone]
      rfl
    · next hn =>
      have hroot : ¬ n.endsInComment [] = true := hn
      rw [List.filter_cons_of_neg hroot, commentSpansAll_eq]
      refine flatMap_children_eq (fun ps => (ps.filter n.endsInComment).map n.spanAt) rfl
        (fun ps qs => ?_) fun i c hc => ?_
      · rw [List.filter_append, List.map_append]
      · have htest : (n.endsInComment ∘ fun p => i :: p) = c.endsInComment :=
          funext fun p => by simp [endsInComment_cons hc, hn]
        have hspan : (n.spanAt ∘ fun p => i :: p) = c.spanAt := funext fun p => spanAt_cons hc
        rw [ih c (List.mem_of_getElem? hc), List.filter_map, List.map_map, htest, hspan]

/-! ## Comments in a row -/

/-- The comments of a nested tree stand inside it, one behind the other. -/
theorem Nested.inRow_commentSpans (h : root.Nested) :
    InRow root.stop root.commentSpans ∧ ∀ s ∈ root.commentSpans, root.start ≤ s.start := by
  induction root using induct with
  | node n ih =>
    have htidy : n.Tidy := h n (Within.refl n)
    rw [commentSpans_eq]
    split
    · exact ⟨⟨List.forall_mem_singleton.mpr htidy.ordered, List.pairwise_singleton _ _,
        List.forall_mem_singleton.mpr (Nat.le_refl _)⟩,
        List.forall_mem_singleton.mpr (Nat.le_refl _)⟩
    · rw [commentSpansAll_eq]
      have hchild : ∀ c ∈ n.children, InRow c.stop c.commentSpans ∧
          ∀ s ∈ c.commentSpans, c.start ≤ s.start := fun c hc => ih c hc (h.child hc)
      refine ⟨⟨fun s hs => ?_, ?_, fun s hs => ?_⟩, fun s hs => ?_⟩
      · obtain ⟨c, hc, hs⟩ := List.mem_flatMap.mp hs
        exact (hchild c hc).1.ordered s hs
      · refine List.pairwise_flatMap.mpr ⟨fun c hc => (hchild c hc).1.apart, ?_⟩
        refine htidy.apart.imp_of_mem fun {c d} hc hd hcd s hs t ht => ?_
        have hstop := (hchild c hc).1.within s hs
        have hstart := (hchild d hd).2 t ht
        omega
      · obtain ⟨c, hc, hs⟩ := List.mem_flatMap.mp hs
        have hstop := (hchild c hc).1.within s hs
        have hin := (htidy.inside c hc).2
        omega
      · obtain ⟨c, hc, hs⟩ := List.mem_flatMap.mp hs
        have hstart := (hchild c hc).2 s hs
        have hin := (htidy.inside c hc).1
        omega

theorem comments_perm (root : Node) : root.comments.Perm root.commentSpans :=
  List.mergeSort_perm _ _

/-- Where no empty comment stands right before another one, the start of a comment tells which one
it is. -/
theorem Nested.eq_of_start_eq (h : root.Nested)
    (hempty : ∀ a ∈ root.comments, ∀ b ∈ root.comments, a.start = a.stop → b.start < b.stop →
      a.start ≠ b.start) :
    ∀ s ∈ root.commentSpans, ∀ t ∈ root.commentSpans, s.start = t.start → s = t := by
  intro s hs t ht hstart
  have hrow := h.inRow_commentSpans.1
  have hsle := hrow.ordered s hs
  have htle := hrow.ordered t ht
  have hst := hempty s ((comments_perm root).mem_iff.mpr hs) t ((comments_perm root).mem_iff.mpr ht)
  have hts := hempty t ((comments_perm root).mem_iff.mpr ht) s ((comments_perm root).mem_iff.mpr hs)
  have hstop : s.stop = t.stop := by
    by_contra hne
    have hbehind := behind_of_ne (hrow.apart.imp Or.inl) hs ht fun heq => hne (by rw [heq])
    omega
  calc s = ⟨s.start, s.stop⟩ := rfl
    _ = t := by rw [hstart, hstop]

end Node

/-! ## Cutting out the comments -/

theorem replacement_cases (source : ByteArray) (s : Span) : replacement source s = ⟨#[]⟩ ∨
    replacement source s = ⟨#[32]⟩ ∨ replacement source s = ⟨#[10]⟩ := by
  unfold replacement
  split
  · exact .inr (.inr rfl)
  · split
    · exact .inr (.inl rfl)
    · exact .inl rfl

/-- Cutting the comments out of a script removes the outermost comments of its tree and nothing
else, in whatever order they are given. None is passed over, and in the place of each stands
nothing, a space or a line break. -/
theorem strip_comments_exact (source : ByteArray) (root : Node) (h : root.Nested)
    (hin : root.stop ≤ source.size)
    (hempty : ∀ a ∈ root.comments, ∀ b ∈ root.comments, a.start = a.stop → b.start < b.stop →
      a.start ≠ b.start)
    (spans : List Span) (hspans : spans.Perm root.comments) :
    ∃ ps : List (List Nat), ps.Pairwise (List.Lex (· < ·)) ∧
      (∀ p, p ∈ ps ↔ root.IsOutermostComment p) ∧
      (ps.map root.spanAt).Pairwise (fun s t => s.stop ≤ t.start) ∧
      cutOut source spans = ps.map root.spanAt ∧
      strip source spans = woven source 0 source.size (ps.map root.spanAt) ∧
      ∀ s ∈ ps.map root.spanAt, replacement source s = ⟨#[]⟩ ∨ replacement source s = ⟨#[32]⟩ ∨
        replacement source s = ⟨#[10]⟩ := by
  obtain ⟨hordered, hapart, hwithin⟩ := h.inRow_commentSpans.1
  have hrow : InRow source.size root.commentSpans :=
    ⟨hordered, hapart, fun s hs => Nat.le_trans (hwithin s hs) hin⟩
  have hcut : cutOut source spans = root.commentSpans :=
    cutOut_eq_of_perm (hspans.trans root.comments_perm) hrow (h.eq_of_start_eq hempty)
  refine ⟨root.preorder.filter root.endsInComment, ?_, fun p => ?_, ?_⟩
  · exact root.preorder_sorted.filter _
  · rw [List.mem_filter, Node.endsInComment_iff, and_iff_right_iff_imp]
    rintro ⟨n, hn, -⟩
    rw [Node.mem_preorder_iff, hn]
    rfl
  · rw [← root.commentSpans_eq_preorder]
    refine ⟨hapart, hcut, ?_, fun s _ => replacement_cases source s⟩
    rw [strip_eq_woven, hcut]

/-- A node without children. -/
def bare (kind : String) (start stop : Nat) : Node :=
  ⟨kind, start, stop, [], none, true, false, false⟩

theorem bare_nested {kind : String} {start stop : Nat} (h : start ≤ stop) :
    (bare kind start stop).Nested :=
  Node.nested_of_children ⟨h, .nil, nofun⟩ nofun

/-- A script with a comment inside a statement and one at the end of its line. -/
def remarked : ByteArray := "f(/*a*/x);//b\ng".toUTF8

/-- The first statement of `remarked`. -/
def remarkedCall : Node :=
  ⟨"expression_statement", 0, 10,
    [bare "identifier" 0 1, bare "comment" 2 7, bare "identifier" 7 8], none, true, false, false⟩

/-- The tree of `remarked`. -/
def remarkedTree : Node :=
  ⟨"program", 0, 15, [remarkedCall, bare "comment" 10 13, bare "identifier" 14 15],
    none, true, false, false⟩

theorem remarkedTree_nested : remarkedTree.Nested := by
  have hcall : remarkedCall.Nested := by
    refine Node.nested_of_children ⟨by decide, by decide, by decide⟩ ?_
    simp only [remarkedCall, List.forall_mem_cons]
    exact ⟨bare_nested (by decide), bare_nested (by decide), bare_nested (by decide), nofun⟩
  refine Node.nested_of_children ⟨by decide, by decide, by decide⟩ ?_
  simp only [remarkedTree, List.forall_mem_cons]
  exact ⟨hcall, bare_nested (by decide), bare_nested (by decide), nofun⟩

theorem comments_remarkedTree : remarkedTree.comments = [⟨2, 7⟩, ⟨10, 13⟩] :=
  List.mergeSort_of_pairwise (by decide)

theorem strip_comments_exact_remarked :
    (remarkedTree.Nested ∧ remarkedTree.stop ≤ remarked.size ∧
      (∀ a ∈ remarkedTree.comments, ∀ b ∈ remarkedTree.comments, a.start = a.stop →
        b.start < b.stop → a.start ≠ b.start) ∧
      [⟨10, 13⟩, ⟨2, 7⟩].Perm remarkedTree.comments) ∧
    strip remarked [⟨10, 13⟩, ⟨2, 7⟩] = "f( x);\ng".toUTF8 := by
  have hin : remarkedTree.stop ≤ remarked.size := by decide +kernel
  have hempty : ∀ a ∈ remarkedTree.comments, ∀ b ∈ remarkedTree.comments, a.start = a.stop →
      b.start < b.stop → a.start ≠ b.start := by
    rw [comments_remarkedTree]
    decide
  have hperm : [⟨10, 13⟩, ⟨2, 7⟩].Perm remarkedTree.comments := by
    rw [comments_remarkedTree]
    decide
  obtain ⟨ps, -, -, -, hcut, hstrip, -⟩ :=
    strip_comments_exact remarked remarkedTree remarkedTree_nested hin hempty _ hperm
  refine ⟨⟨remarkedTree_nested, hin, hempty, hperm⟩, ?_⟩
  rw [hstrip, ← hcut, cutOut, lastFirst, List.mergeSort_of_pairwise (by decide)]
  decide +kernel

/-- A script with one comment. -/
def shielded : ByteArray := "a /*c*/ b".toUTF8

/-- A tree of `shielded` that has an empty comment right before the other one. -/
def shieldedTree : Node :=
  ⟨"program", 0, 9,
    [bare "identifier" 0 1, bare "comment" 2 2, bare "comment" 2 7, bare "identifier" 8 9],
    none, true, false, false⟩

/-- An empty comment keeps the one behind it in the script, unless it is given after it. -/
theorem empty_comment_shields :
    (shieldedTree.Nested ∧ shieldedTree.stop ≤ shielded.size) ∧
    strip shielded shieldedTree.comments = shielded ∧
    strip shielded shieldedTree.comments.reverse = "a  b".toUTF8 ∧
    woven shielded 0 shielded.size shieldedTree.comments = "a  b".toUTF8 := by
  have hnested : shieldedTree.Nested := by
    refine Node.nested_of_children ⟨by decide, by decide, by decide⟩ ?_
    simp only [shieldedTree, List.forall_mem_cons]
    exact ⟨bare_nested (by decide), bare_nested (by decide), bare_nested (by decide),
      bare_nested (by decide), nofun⟩
  have hcomments : shieldedTree.comments = [⟨2, 2⟩, ⟨2, 7⟩] :=
    List.mergeSort_of_pairwise (by decide)
  rw [hcomments]
  refine ⟨⟨hnested, by decide +kernel⟩, ?_, ?_, by decide +kernel⟩
  · rw [strip, List.mergeSort_of_pairwise (by decide)]
    decide +kernel
  · rw [strip, List.mergeSort_of_pairwise (by decide)]
    decide +kernel

end ScriptModules
