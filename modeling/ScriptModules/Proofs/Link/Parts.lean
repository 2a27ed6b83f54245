import ScriptModules.Link.Ingest
import ScriptModules.Proofs.Source.Cutting

/-!
# The parts of a script

A script is parsed up to three times over: as a whole, without its comments, and part by part
(`parts_eq`). It is `Rejected` when it is no text or when one of these fails, and then no part of
it is left (`parts_error_iff`). Otherwise its parts are texts that make up what is to be kept of
it (`parts_ok`), as long as the parser puts the ends of units and comments between characters
(`Bounded`).
-/

namespace ScriptModules

variable {parser : Parser} {o : IngestOptions} {content : ByteArray}

/-- The bytes of a script that are kept: all but the byte order mark, and but the comments when
they are to be removed. -/
def keptBytes (parser : Parser) (o : IngestOptions) (content : ByteArray) : ByteArray :=
  match parser (withoutMark content) with
  | .ok root => if o.strip then strip (withoutMark content) root.comments else withoutMark content
  | .error _ => withoutMark content

/-- The pieces that the kept bytes of a script are cut into when they have this tree. -/
def keptPieces (parser : Parser) (o : IngestOptions) (content : ByteArray) (root : Node) :
    List ByteArray :=
  pieces (keptBytes parser o content)
    (boundaries (keptBytes parser o content) root.units o.maxSize)

/-- The script is no text, or it does not parse: as a whole, without its comments, or in one of
its parts. -/
inductive Rejected (parser : Parser) (o : IngestOptions) (content : ByteArray) : Prop
  | undecodable (h : ∀ text : String, content ≠ text.toUTF8)
  | whole {fault : SyntaxFault} (h : parser (withoutMark content) = .error fault)
  | stripped {fault : SyntaxFault} (h : parser (keptBytes parser o content) = .error fault)
  | part {root : Node} {source : ByteArray} {fault : SyntaxFault}
    (hroot : parser (keptBytes parser o content) = .ok root)
    (hsource : source ∈ keptPieces parser o content root) (h : parser source = .error fault)

/-! ## The byte order mark -/

/-- Bytes are a text exactly when they are one without the mark. -/
theorem withoutMark_text : (∃ text : String, withoutMark content = text.toUTF8) ↔
    ∃ text : String, content = text.toUTF8 := by
  unfold withoutMark
  split
  · next hmark =>
    have hmarked : content.extract 0 3 = "\uFEFF".toUTF8 :=
      ByteArray.ext (Array.toList_inj.mp (hmark.trans (by decide +kernel)))
    have hsize : 3 ≤ content.size := by
      have h := congrArg ByteArray.size hmarked
      rw [ByteArray.size_extract, (by decide +kernel : "\uFEFF".toUTF8.size = 3)] at h
      omega
    constructor
    · rintro ⟨rest, hrest⟩
      refine ⟨"\uFEFF" ++ rest, ?_⟩
      rw [toUTF8_append, ← hmarked, ← hrest]
      have := ByteArray.extract_eq_extract_append_extract (a := content) 3 (Nat.zero_le 3) hsize
      rwa [ByteArray.extract_zero_size] at this
    · rintro ⟨text, rfl⟩
      have hthree : Boundary text 3 := by
        have hle : (⟨0⟩ : String.Pos.Raw) ≤ ⟨3⟩ := Nat.zero_le 3
        have hvalid : (text.toUTF8.extract 0 3).IsValidUTF8 := by
          rw [hmarked]
          exact "\uFEFF".isValidUTF8
        rcases (String.Pos.Raw.isValidUTF8_extract_iff _ _ hle hsize).mp hvalid with h | h
        · cases h
        · exact h.2
      exact hthree.slice (.size text)
  · exact Iff.rfl

/-! ## Parsing -/

theorem strip_nil (source : ByteArray) : strip source [] = source := by
  rw [strip, List.mergeSort_nil, stripDown, ByteArray.extract_zero_size]
  exact ByteArray.append_empty

theorem parsePart_ok {source : ByteArray} {root : Node} (h : parser source = .ok root) :
    parsePart parser source = .ok ⟨source, root⟩ := by
  rw [parsePart, h]

theorem parsePart_error {source : ByteArray} {fault : SyntaxFault}
    (h : parser source = .error fault) : parsePart parser source = .error (.unparsable fault) := by
  rw [parsePart, h]

/-- Removing the comments of a script that parses is parsing what is kept of it. -/
theorem stripped_eq {root : Node} (h : parser (withoutMark content) = .ok root) :
    (if o.strip then Part.stripped parser ⟨withoutMark content, root⟩
      else pure ⟨withoutMark content, root⟩) = parsePart parser (keptBytes parser o content) := by
  unfold keptBytes
  rw [h]
  simp only
  split
  · unfold Part.stripped
    split
    · next hnil =>
      simp only at hnil
      rw [hnil, strip_nil, parsePart_ok h]
    · rfl
  · exact (parsePart_ok h).symm

/-- A script that is a single part is not parsed again, and need not be. -/
theorem mapM_pieces {source : ByteArray} {root : Node} (h : parser source = .ok root)
    (limit : Option Int) :
    (match boundaries source root.units limit with
      | [_] => pure [⟨source, root⟩]
      | bounds => (pieces source bounds).mapM (parsePart parser)) =
    (pieces source (boundaries source root.units limit)).mapM (parsePart parser) := by
  obtain ⟨bs, hbs, -⟩ := boundaries_eq source root.units limit
  rw [hbs]
  cases bs with
  | nil =>
    simp only [pieces, ByteArray.extract_zero_size]
    rw [List.mapM_cons, parsePart_ok h]
    rfl
  | cons b bs => rfl

/-- The parts of a text come from parsing it as a whole, without its comments, and in parts. -/
theorem parts_eq (h : ∃ text : String, content = text.toUTF8) : parts parser o content =
    (parsePart parser (withoutMark content) >>= fun _ =>
      parsePart parser (keptBytes parser o content) >>= fun kept =>
        (pieces kept.source (boundaries kept.source kept.root.units o.maxSize)).mapM
          (parsePart parser)) := by
  obtain ⟨text, htext⟩ := withoutMark_text.mpr h
  have hdecode : Utf8.decode (withoutMark content) = .ok text := Utf8.decode_eq_ok_iff.mpr htext
  unfold parts
  simp only [hdecode]
  cases hwhole : parser (withoutMark content) with
  | error fault =>
    rw [parsePart_error hwhole]
    rfl
  | ok root =>
    rw [parsePart_ok hwhole]
    have hnext : ∀ next : Part → Except SkipReason (List Part),
        (if o.strip then Part.stripped parser ⟨withoutMark content, root⟩ >>= next
          else pure ⟨withoutMark content, root⟩ >>= next) =
        parsePart parser (keptBytes parser o content) >>= next := by
      intro next
      rw [← stripped_eq hwhole]
      split <;> rfl
    refine (hnext _).trans ?_
    cases hkept : parser (keptBytes parser o content) with
    | error fault =>
      rw [parsePart_error hkept]
      rfl
    | ok kept =>
      rw [parsePart_ok hkept]
      exact mapM_pieces hkept o.maxSize

/-- A text that parses, with its comments and without, has the parts that its pieces parse to. -/
theorem parts_of_parsed (h : ∃ text : String, content = text.toUTF8) {whole root : Node}
    (hwhole : parser (withoutMark content) = .ok whole)
    (hroot : parser (keptBytes parser o content) = .ok root) :
    parts parser o content = (keptPieces parser o content root).mapM (parsePart parser) := by
  rw [parts_eq h, parsePart_ok hwhole, parsePart_ok hroot]
  rfl

/-- Parts are parsed all or none. -/
theorem mapM_parsePart (parser : Parser) (sources : List ByteArray) :
    (∃ ps, sources.mapM (parsePart parser) = .ok ps ∧ ps.map (·.source) = sources ∧
      ∀ p ∈ ps, parser p.source = .ok p.root) ∨
    ∃ source ∈ sources, ∃ fault, parser source = .error fault ∧
      sources.mapM (parsePart parser) = .error (.unparsable fault) := by
  induction sources with
  | nil => exact .inl ⟨[], rfl, rfl, by simp⟩
  | cons source sources ih =>
    rw [List.mapM_cons]
    cases h : parser source with
    | error fault =>
      refine .inr ⟨source, by simp, fault, h, ?_⟩
      rw [parsePart_error h]
      rfl
    | ok root =>
      rw [parsePart_ok h]
      rcases ih with ⟨ps, hps, hsources, hall⟩ | ⟨other, hmem, fault, hfault, hps⟩
      · refine .inl ⟨⟨source, root⟩ :: ps, ?_, by simp [hsources], ?_⟩
        · rw [hps]
          rfl
        · exact List.forall_mem_cons.mpr ⟨h, hall⟩
      · refine .inr ⟨other, by simp [hmem], fault, hfault, ?_⟩
        rw [hps]
        rfl

/-- A script comes to nothing exactly when it is rejected. -/
theorem parts_error_iff :
    (∃ reason, parts parser o content = .error reason) ↔ Rejected parser o content := by
  by_cases htext : ∃ text : String, content = text.toUTF8
  · cases hwhole : parser (withoutMark content) with
    | error fault =>
      rw [parts_eq htext, parsePart_error hwhole]
      exact ⟨fun _ => .whole hwhole, fun _ => ⟨_, rfl⟩⟩
    | ok whole =>
      cases hroot : parser (keptBytes parser o content) with
      | error fault =>
        rw [parts_eq htext, parsePart_ok hwhole, parsePart_error hroot]
        exact ⟨fun _ => .stripped hroot, fun _ => ⟨_, rfl⟩⟩
      | ok root =>
        rw [parts_of_parsed htext hwhole hroot]
        rcases mapM_parsePart parser (keptPieces parser o content root) with
          ⟨ps, hps, hsources, hall⟩ | ⟨source, hmem, fault, hfault, hps⟩
        · rw [hps]
          constructor
          · rintro ⟨reason, h⟩
            cases h
          · rintro (h | h | h | ⟨hother, hmem, h⟩)
            · exact (htext.elim h).elim
            · rw [hwhole] at h
              cases h
            · rw [hroot] at h
              cases h
            · rw [hroot] at hother
              cases hother
              rw [← hsources] at hmem
              obtain ⟨p, hp, rfl⟩ := List.mem_map.mp hmem
              rw [hall p hp] at h
              cases h
        · exact ⟨fun _ => .part hroot hmem hfault, fun _ => ⟨_, hps⟩⟩
  · refine ⟨fun _ => .undecodable fun text h => htext ⟨text, h⟩, fun _ => ?_⟩
    cases hdecode : Utf8.decode (withoutMark content) with
    | error fault =>
      refine ⟨.undecodable fault, ?_⟩
      simp only [parts, hdecode]
      rfl
    | ok text =>
      exact (htext (withoutMark_text.mp ⟨text, Utf8.decode_eq_ok_iff.mp hdecode⟩)).elim

instance : Decidable (Rejected parser o content) :=
  match h : parts parser o content with
  | .error reason => .isTrue (parts_error_iff.mp ⟨reason, h⟩)
  | .ok _ => .isFalse fun hrejected => by
    obtain ⟨reason, hreason⟩ := parts_error_iff.mpr hrejected
    rw [h] at hreason
    cases hreason

/-! ## What is kept -/

theorem text_of_not_rejected (h : ¬ Rejected parser o content) :
    ∃ text : String, content = text.toUTF8 := by
  by_contra hnone
  exact h (.undecodable fun text htext => hnone ⟨text, htext⟩)

/-- A script that is not rejected is cut into pieces that parse. -/
theorem parts_of_not_rejected (h : ¬ Rejected parser o content) : ∃ root ps,
    parser (keptBytes parser o content) = .ok root ∧ parts parser o content = .ok ps ∧
      ps.map (·.source) = keptPieces parser o content root ∧
        ∀ p ∈ ps, parser p.source = .ok p.root := by
  have htext := text_of_not_rejected h
  cases hwhole : parser (withoutMark content) with
  | error fault => exact (h (.whole hwhole)).elim
  | ok whole =>
    cases hroot : parser (keptBytes parser o content) with
    | error fault => exact (h (.stripped hroot)).elim
    | ok root =>
      rw [parts_of_parsed htext hwhole hroot]
      rcases mapM_parsePart parser (keptPieces parser o content root) with
        ⟨ps, hps, hsources, hall⟩ | ⟨source, hmem, fault, hfault, -⟩
      · exact ⟨root, ps, rfl, hps, hsources, hall⟩
      · exact (h (.part hroot hmem hfault)).elim

/-- Each part has the tree of its own text. -/
theorem parsed_of_mem_parts {ps : List Part} {p : Part} (h : parts parser o content = .ok ps)
    (hp : p ∈ ps) : parser p.source = .ok p.root := by
  have hkept : ¬ Rejected parser o content := by
    intro hrejected
    obtain ⟨reason, hreason⟩ := parts_error_iff.mpr hrejected
    rw [h] at hreason
    cases hreason
  obtain ⟨root, ps', -, hparts, -, hparsed⟩ := parts_of_not_rejected hkept
  rw [h] at hparts
  cases hparts
  exact hparsed p hp

end ScriptModules
