import ScriptModules.Script.Lexeme
import ScriptModules.Tree.Node

/-!
# Reading tokens

A `Cursor` stands at a token of a script. It knows the end of the token before, which is where a
statement without a semicolon ends, and keeps the comments it came by. `Parse` is a step that moves
the cursor or fails at an offset.

A token is read without knowing what the grammar expects. The few places where that matters read
again from the start of the token: a slash where an operand is expected starts a regular
expression (`operandSlash`), a closing brace may go on a template, and the marks of a page comment
count as one only where an operand or a statement is expected (`settle`).
-/

namespace ScriptModules.Script

/-- The forms of tokens. -/
inductive TokenKind where
  | name
  | privateName
  | number
  | string
  | mark
  /-- The end of the script. -/
  | finish
  /-- Nothing that a token starts with. -/
  | stray
  deriving DecidableEq, Repr

/-- A token. -/
structure Token where
  kind : TokenKind
  text : String
  start : Nat
  stop : Nat
  /-- Does a line end stand between the token before and this one? -/
  onNewLine : Bool
  deriving DecidableEq, Repr

/-- The offset of the first glyph; `size`, the length of the script, when there is none. -/
def offsetOf (size : Nat) : List Glyph → Nat
  | [] => size
  | g :: _ => g.start

/-- The glyphs that stand before the offset `stop`. -/
def before (stop : Nat) (gs : List Glyph) : List Glyph := gs.takeWhile (·.start < stop)

/-- A node without children. -/
def leafNode (kind : String) (start stop : Nat) : Node :=
  { kind, start, stop, children := [], field := none, named := true, missing := false,
    flagged := false }

/-- What stands between two tokens. -/
structure Gap where
  /-- The glyphs after it. -/
  rest : List Glyph
  hasLineEnd : Bool
  /-- Its comments, latest first. -/
  comments : List Node

/-- Goes on over one character of white space or one comment. -/
def Gap.step (size : Nat) (gap : Gap) : Option Gap :=
  match gap.rest with
  | [] => none
  | g :: rest =>
    if g.is isGap then some { gap with rest, hasLineEnd := gap.hasLineEnd || g.is isLineEnd }
    else
      ((lineComment gap.rest).or (blockComment gap.rest)).map fun rest =>
        let stop := offsetOf size rest
        { rest
          hasLineEnd := gap.hasLineEnd || (before stop gap.rest).any (·.is isLineEnd)
          comments := leafNode "comment" g.start stop :: gap.comments }

/-- Goes on to the end of a gap, in at most the given number of steps. -/
def Gap.close (size : Nat) : Nat → Gap → Gap
  | 0, gap => gap
  | n + 1, gap =>
    match gap.step size with
    | some next => Gap.close size n next
    | none => gap

/-- The form of the token at the head, and the glyphs after it. -/
def lexeme (gs : List Glyph) : TokenKind × List Glyph :=
  match gs with
  | [] => (.finish, [])
  | _ :: after =>
    match name gs with
    | some rest => (.name, rest)
    | none =>
      match number gs with
      | some rest => (.number, rest)
      | none =>
        match (string '"' gs).or (string '\x27' gs) with
        | some rest => (.string, rest)
        | none =>
          match word ['#'] gs >>= name with
          | some rest => (.privateName, rest)
          | none =>
            if startsWith ['/', '*'] gs then (.stray, after)
            else match mark gs with
              | some rest => (.mark, rest)
              | none => (.stray, after)

/-- A place in a script. -/
structure Cursor where
  /-- The number of bytes of the script. -/
  size : Nat
  /-- The glyphs from the current token on. -/
  here : List Glyph
  token : Token
  /-- The glyphs after the current token. -/
  rest : List Glyph
  /-- The end of the token before. -/
  lastStop : Nat
  /-- The comments before the current token, latest first. -/
  comments : List Node

/-- Moves to the first token among the given glyphs. -/
def Cursor.jump (c : Cursor) (gs : List Glyph) : Cursor :=
  let gap := Gap.close c.size (c.size - offsetOf c.size gs) ⟨gs, false, c.comments⟩
  let (kind, rest) := lexeme gap.rest
  let stop := offsetOf c.size rest
  { c with
    here := gap.rest
    token :=
      { kind
        text := String.ofList ((before stop gap.rest).filterMap (·.char))
        start := offsetOf c.size gap.rest
        stop
        onNewLine := gap.hasLineEnd }
    rest
    comments := gap.comments }

/-- The first token of a script. -/
def Cursor.first (size : Nat) (gs : List Glyph) : Cursor :=
  Cursor.jump ⟨size, gs, ⟨.finish, "", 0, 0, false⟩, gs, 0, []⟩ gs

/-- Moves past a piece that ends before the given glyphs. -/
def Cursor.past (c : Cursor) (rest : List Glyph) : Cursor :=
  Cursor.jump { c with lastStop := offsetOf c.size rest } rest

/-- A step of parsing: it moves the cursor, or fails at an offset. -/
abbrev Parse (α : Type) := StateT Cursor (Except Nat) α

/-- Fails at the current token. -/
def fail {α : Type} : Parse α := do throw (← get).token.start

/-- The current token. -/
def current : Parse Token := return (← get).token

/-- The offset of the current token. -/
def offset : Parse Nat := return (← get).token.start

/-- Moves to the next token. -/
def advance : Parse Unit := modify fun c => c.past c.rest

/-- The token after the current one. -/
def following : Parse Token := return (← get).past (← get).rest |>.token

/-- Is the current token the mark `m`? -/
def atMark (m : String) : Parse Bool := return (← current).kind = .mark && (← current).text = m

/-- Is the current token the word `w`? -/
def atWord (w : String) : Parse Bool := return (← current).kind = .name && (← current).text = w

/-- Moves past the mark `m` if it stands here. -/
def takeMark (m : String) : Parse Bool := do
  let found ← atMark m
  if found then advance
  return found

/-- Moves past the word `w` if it stands here. -/
def takeWord (w : String) : Parse Bool := do
  let found ← atWord w
  if found then advance
  return found

/-- Moves past the mark `m`, which has to stand here. -/
def expectMark (m : String) : Parse Unit := do unless ← takeMark m do fail

/-- Moves past the word `w`, which has to stand here. -/
def expectWord (w : String) : Parse Unit := do unless ← takeWord w do fail

/-- A node from `start` to the end of the last token. -/
def node (kind : String) (start : Nat) (children : List Node) : Parse Node :=
  return { leafNode kind start (← get).lastStop with children }

/-- A node for the current token, which is passed. -/
def leaf (kind : String) : Parse Node := do
  let t ← current
  advance
  return leafNode kind t.start t.stop

/-- The node as its parent's field `f`. -/
def inField (f : String) (n : Node) : Node := { n with field := some f }

/-- A bare token as its parent's field `f`; the token is passed. -/
def bareLeaf (f : String) : Parse Node := do
  let t ← current
  return { inField f (← leaf t.text) with named := false }

/-- Tries a step and goes back to where it started when it fails or gives nothing. -/
def attempt {α : Type} (p : Parse (Option α)) : Parse (Option α) := fun c =>
  match p c with
  | .ok (some a, c') => .ok (some a, c')
  | _ => .ok (none, c)

/-- Repeats a step until it gives a result, at most `n` times. -/
def repeatUpTo {σ β : Type} (step : σ → Parse (σ ⊕ β)) : Nat → σ → Parse β
  | 0, _ => fail
  | n + 1, s => do
    match ← step s with
    | .inl s => repeatUpTo step n s
    | .inr b => return b

/-- Repeats a step until it gives a result. A step that gives none passes a token, so the number of
bytes left bounds the steps. -/
def repeatUntil {σ β : Type} (step : σ → Parse (σ ⊕ β)) (s : σ) : Parse β := do
  let c ← get
  repeatUpTo step (c.size - c.token.start + 2) s

/-- The results of a step that is repeated until it gives none. -/
def many (item : Parse (Option Node)) : Parse (List Node) :=
  repeatUntil (fun acc => do
    match ← item with
    | some n => return .inl (n :: acc)
    | none => return .inr acc.reverse) []

/-- Items with commas between them up to the mark `close`, which is passed. A comma may follow the
last one; with `holes` items may be left out. -/
def commaList (close : String) (holes : Bool) (item : Parse Node) : Parse (List Node) :=
  repeatUntil (fun acc => do
    if ← takeMark close then return .inr acc.reverse
    if ← atMark "," then
      if holes then
        advance
        return .inl acc
      else fail
    let n ← item
    unless (← takeMark ",") || (← atMark close) do fail
    return .inl (n :: acc)) []

/-- Passes page comments that stand before an operand or a statement. -/
def settle : Parse Unit :=
  repeatUntil (fun () => do
    let c ← get
    match pageComment c.here with
    | some rest =>
      let comment := leafNode "html_comment" c.token.start (offsetOf c.size rest)
      set (Cursor.jump { c with comments := comment :: c.comments } rest)
      return .inl ()
    | none => return .inr ()) ()

/-- The words that are never names. -/
def reservedWords : List String :=
  ["break", "case", "catch", "class", "const", "continue", "debugger", "default", "delete", "do",
    "else", "export", "extends", "false", "finally", "for", "function", "if", "import", "in",
    "instanceof", "new", "null", "return", "super", "switch", "this", "throw", "true", "try",
    "typeof", "var", "void", "while", "with"]

/-- Is the token a word that may be a name? -/
def Token.isName (t : Token) : Bool := t.kind = .name && !reservedWords.contains t.text

/-- Is the token the mark `m`? -/
def Token.isMark (t : Token) (m : String) : Bool := t.kind = .mark && t.text = m

/-- Ends a statement: by a semicolon, or without one before a closing brace, at the end of the
script or at the end of a line. -/
def endStatement : Parse Unit := do
  unless ← takeMark ";" do
    let t ← current
    unless t.kind = .finish || t.isMark "\x7d" || t.onNewLine do fail

end ScriptModules.Script
