import ScriptModules.Text.CaseTable

/-!
# Lower case

`lowercase` maps a text to lower case by the full Unicode rules: every character has its mapping,
U+0130 becomes two characters, and a capital sigma becomes the final form exactly when it ends a
word, that is when a cased character stands before it and none after it, case-ignorable characters
being skipped in both directions.
-/

namespace ScriptModules

/-- Does one of the closed ranges hold the code point? -/
def inRanges (ranges : List (Nat × Nat)) (n : Nat) : Bool :=
  ranges.any fun r => r.1 ≤ n && n ≤ r.2

/-- Is the character skipped when the neighbours of a sigma are looked up? -/
def isCaseIgnorable (c : Char) : Bool := inRanges caseIgnorableRanges c.toNat

/-- Is the character upper, lower or title case, and not skipped? -/
def isCased (c : Char) : Bool := inRanges casedRanges c.toNat

/-- The lower case of a character that has a single one, whatever stands around it. -/
def lowerChar (c : Char) : Char :=
  let n := c.toNat
  match lowerRuns.find? fun r => r.first ≤ n && n ≤ r.last && (n - r.first) % r.step == 0 with
  | some r => Char.ofNat (Int.toNat (n + r.offset))
  | none => c

/-- Does a cased character come first, after the characters to be skipped? -/
def casedFirst (cs : List Char) : Bool := (cs.dropWhile isCaseIgnorable).head?.any isCased

/-- Lower case of the characters that follow `before`, which is listed backwards. -/
def lowerAfter (before : List Char) : List Char → List Char
  | [] => []
  | c :: rest =>
    let here :=
      if c = 'Σ' then [if casedFirst before && !casedFirst rest then 'ς' else 'σ']
      else if c = 'İ' then ['i', '\u0307']
      else [lowerChar c]
    here ++ lowerAfter (c :: before) rest

/-- The text in lower case. -/
def lowercase (s : String) : String := String.ofList (lowerAfter [] s.toList)

end ScriptModules
