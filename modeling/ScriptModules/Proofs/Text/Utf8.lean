import ScriptModules.Text.Utf8

/-!
# Texts and their bytes

`decode_eq_ok_iff` says what decoding gives: the text whose encoding the bytes are. An offset into
the bytes of a text is a `Boundary` when whole characters stand before and behind it; the bytes
between two boundaries are those of a text (`Boundary.slice`), and an offset behind a boundary and
an ASCII character is one again (`Boundary.succ`).
-/

namespace ScriptModules

/-- The bytes encode the text exactly when decoding them gives it. -/
theorem Utf8.decode_eq_ok_iff {bytes : ByteArray} {text : String} :
    decode bytes = .ok text ↔ bytes = text.toUTF8 := by
  unfold decode String.fromUTF8?
  constructor
  · intro h
    split at h
    · next s hs =>
      split at hs
      · cases hs
        cases h
        rfl
      · cases hs
    · cases h
  · rintro rfl
    have hvalid : text.toUTF8.IsValidUTF8 := text.isValidUTF8
    rw [dif_pos hvalid]
    rfl

theorem Utf8.exists_text_iff {bytes : ByteArray} :
    (∃ text : String, bytes = text.toUTF8) ↔ bytes.IsValidUTF8 := by
  constructor
  · rintro ⟨text, rfl⟩
    exact text.isValidUTF8
  · intro h
    exact ⟨⟨bytes, h⟩, rfl⟩

theorem toUTF8_append (a b : String) : (a ++ b).toUTF8 = a.toUTF8 ++ b.toUTF8 :=
  String.toByteArray_append

/-- The offset lies in the text, between two of its characters or at one of its ends. -/
abbrev Boundary (text : String) (i : Nat) : Prop := String.Pos.Raw.IsValid text ⟨i⟩

namespace Boundary

variable {text : String} {i j : Nat}

theorem zero (text : String) : Boundary text 0 := String.Pos.Raw.isValid_zero

theorem size (text : String) : Boundary text text.toUTF8.size := String.Pos.Raw.isValid_rawEndPos

/-- What stands between two boundaries is a text. -/
theorem slice (hi : Boundary text i) (hj : Boundary text j) :
    ∃ part : String, text.toUTF8.extract i j = part.toUTF8 :=
  Utf8.exists_text_iff.mpr (String.Pos.isValidUTF8_extract ⟨⟨i⟩, hi⟩ ⟨⟨j⟩, hj⟩)

/-- Behind a byte that is a character by itself there is a boundary. -/
theorem succ {b : UInt8} (hi : i < text.toUTF8.size) (hget : text.toUTF8[i] = b)
    (hb : [b].toByteArray.IsValidUTF8) : Boundary text (i + 1) := by
  have hslice : (text.toUTF8.extract i (i + 1)).IsValidUTF8 := by
    rw [ByteArray.extract_add_one hi, hget]
    exact hb
  have hle : (⟨i⟩ : String.Pos.Raw) ≤ ⟨i + 1⟩ := Nat.le_succ i
  rcases (String.Pos.Raw.isValidUTF8_extract_iff _ _ hle hi).mp hslice with h | h
  · have : i = i + 1 := congrArg String.Pos.Raw.byteIdx h
    omega
  · exact h.2

end Boundary

end ScriptModules
