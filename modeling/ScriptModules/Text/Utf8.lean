/-!
# Decoding UTF-8

A byte sequence falls into segments: each is the encoding of one character, or a maximal run of
bytes that starts like a character and cannot be continued to one. `decode` accepts the sequences
without faulty segments and describes the first fault of the others; `decodeLossy` accepts all
and writes U+FFFD for each faulty segment.

`segments` is also what the script lexer reads, since a script may hold stray bytes inside
comments and string literals.
-/

namespace ScriptModules.Utf8

/-- Why a run of bytes encodes no character. -/
inductive Reason where
  /-- The first byte starts no character. -/
  | invalidStart
  /-- The byte after the run cannot stand there. -/
  | invalidContinuation
  /-- The input ends inside a character. -/
  | unexpectedEnd
  deriving DecidableEq, Repr

/-- The wording of a reason. -/
def Reason.message : Reason → String
  | .invalidStart => "invalid start byte"
  | .invalidContinuation => "invalid continuation byte"
  | .unexpectedEnd => "unexpected end of data"

/-- One stretch of the input: a character or a fault, with the number of bytes it takes. -/
inductive Segment where
  | char (c : Char) (width : Nat)
  | fault (reason : Reason) (width : Nat)
  deriving DecidableEq, Repr

/-- The number of bytes of a segment. -/
def Segment.width : Segment → Nat
  | .char _ w => w
  | .fault _ w => w

/-- What a first byte announces: the number of bytes to follow, and the range of the next one. -/
def announced (b : UInt8) : Option (Nat × UInt8 × UInt8) :=
  if b < 0xC2 then none
  else if b < 0xE0 then some (1, 0x80, 0xBF)
  else if b = 0xE0 then some (2, 0xA0, 0xBF)
  else if b = 0xED then some (2, 0x80, 0x9F)
  else if b < 0xF0 then some (2, 0x80, 0xBF)
  else if b = 0xF0 then some (3, 0x90, 0xBF)
  else if b < 0xF4 then some (3, 0x80, 0xBF)
  else if b = 0xF4 then some (3, 0x80, 0x8F)
  else none

/-- The value bits of a first byte that announces `n` more. -/
def leadBits (b : UInt8) (n : Nat) : Nat := b.toNat % Nat.pow 2 (6 - n)

/-- Reads the `n` remaining bytes of a character whose bits so far are `acc` and of which `width`
bytes are read; the next byte has to lie between `lo` and `hi`, later ones between 0x80 and 0xBF. -/
def readTail : (n : Nat) → (lo hi : UInt8) → (acc width : Nat) → List UInt8 → Segment
  | 0, _, _, acc, width, _ => .char (Char.ofNat acc) width
  | _ + 1, _, _, _, width, [] => .fault .unexpectedEnd width
  | n + 1, lo, hi, acc, width, b :: rest =>
    if lo ≤ b ∧ b ≤ hi then readTail n 0x80 0xBF (acc * 64 + b.toNat % 64) (width + 1) rest
    else .fault .invalidContinuation width

/-- The segment that starts with `b` and goes on with a part of `rest`. -/
def firstSegment (b : UInt8) (rest : List UInt8) : Segment :=
  if b < 0x80 then .char (Char.ofNat b.toNat) 1
  else match announced b with
    | none => .fault .invalidStart 1
    | some (n, lo, hi) => readTail n lo hi (leadBits b n) 1 rest

/-- The segments of a sequence whose first `skip` bytes belong to an earlier one. -/
def segmentsAfter : (skip : Nat) → List UInt8 → List Segment
  | _, [] => []
  | skip + 1, _ :: rest => segmentsAfter skip rest
  | 0, b :: rest =>
    let s := firstSegment b rest
    s :: segmentsAfter (s.width - 1) rest

/-- The segments of a byte sequence, in order. -/
def segments (bytes : ByteArray) : List Segment := segmentsAfter 0 bytes.data.toList

/-- The first place where a sequence is not UTF-8. -/
structure Fault where
  reason : Reason
  /-- The offset of the faulty run. -/
  start : Nat
  /-- The bytes of the run. -/
  width : Nat
  /-- The first byte of the run. -/
  byte : UInt8
  deriving DecidableEq, Repr

/-- The first fault among segments that start at offset `pos`. -/
def faultIn? (bytes : ByteArray) : (pos : Nat) → List Segment → Option Fault
  | _, [] => none
  | pos, .char _ w :: rest => faultIn? bytes (pos + w) rest
  | pos, .fault reason w :: _ => some ⟨reason, pos, w, bytes[pos]?.getD 0⟩

/-- The first fault of a byte sequence. -/
def fault? (bytes : ByteArray) : Option Fault := faultIn? bytes 0 (segments bytes)

/-- Two lower-case hexadecimal digits. -/
def hexByte (b : UInt8) : String :=
  String.ofList [Nat.digitChar (b.toNat / 16), Nat.digitChar (b.toNat % 16)]

/-- The text shown for a fault: a single byte is named, a run is given by its offsets. -/
def Fault.message (f : Fault) : String :=
  let place :=
    if f.width ≤ 1 then s!"byte 0x{hexByte f.byte} in position {f.start}"
    else s!"bytes in position {f.start}-{f.start + f.width - 1}"
  "'utf-8' codec can't decode " ++ place ++ ": " ++ f.reason.message

/-- The text that the bytes encode, or the first place where they encode none. -/
def decode (bytes : ByteArray) : Except Fault String :=
  match String.fromUTF8? bytes with
  | some s => .ok s
  | none => .error ((fault? bytes).getD ⟨.invalidStart, 0, 1, 0⟩)

/-- The text that the bytes encode, with U+FFFD for each faulty segment. -/
def decodeLossy (bytes : ByteArray) : String :=
  String.ofList <| (segments bytes).map fun
    | .char c _ => c
    | .fault _ _ => '\ufffd'

end ScriptModules.Utf8
