import ScriptModules.Text.Decimal
import ScriptModules.Text.Quoted

/-!
# Words of a command line

A word of a command line is an option, a plain argument, or the divider `--`, after which all words
are plain. A long option may be shortened as long as only one option starts that way, and has its
value after `=` or in the next word. Short options can be run together, and the value of the last
can follow at once.
-/

namespace ScriptModules.Cli

/-- What an option does to the settings `σ`. -/
inductive Effect (σ : Type) where
  /-- Asks for help. -/
  | help
  /-- Is set by its spelling alone. -/
  | switch (apply : (spelling : String) → σ → σ)
  /-- Takes a value, which may be refused with a remark. -/
  | value (apply : String → σ → Except String σ)

/-- An option. -/
structure OptionRule (σ : Type) where
  spellings : List String
  effect : Effect σ

/-- Does the option take a value? -/
def OptionRule.takesValue {σ : Type} (o : OptionRule σ) : Bool :=
  match o.effect with
  | .value _ => true
  | _ => false

/-- A remark about an option. -/
def OptionRule.remark {σ : Type} (o : OptionRule σ) (text : String) : String :=
  "argument " ++ "/".intercalate o.spellings ++ ": " ++ text

/-- The remark that an option has a value that it does not take. -/
def OptionRule.ignored {σ : Type} (o : OptionRule σ) (value : String) : String :=
  o.remark ("ignored explicit argument " ++ quoted value)

/-- An option in a command line, as it is spelled, with the value that its word has. -/
structure OptionUse (σ : Type) where
  rule : OptionRule σ
  spelling : String
  argument : Option String
  /-- Does the value follow the option at once, without `=`? -/
  glued : Bool

/-- A word of a command line. -/
inductive Word (σ : Type) where
  | plain (s : String)
  | option (use : OptionUse σ)
  /-- Looks like an option, but is none. -/
  | unknown (s : String)
  | divider

variable {σ : Type}

/-- All spellings of options, in order. -/
def spelled (rules : List (OptionRule σ)) : List (String × OptionRule σ) :=
  rules.flatMap fun o => o.spellings.map (·, o)

/-- The use of a spelling, if an option has it. -/
def exactUse? (rules : List (OptionRule σ)) (spelling : String) (argument : Option String) :
    Option (OptionUse σ) :=
  ((spelled rules).find? fun e => e.1 = spelling).map fun e => ⟨e.2, spelling, argument, false⟩

/-- The text before the first `=` and the text after it, if there is one. -/
def splitValue (s : String) : String × Option String :=
  let cs := s.toList
  match cs.dropWhile (· ≠ '=') with
  | _ :: value => (String.ofList (cs.takeWhile (· ≠ '=')), some (String.ofList value))
  | [] => (s, none)

/-- The options that a word can mean that is no full spelling. -/
def possibleUses (rules : List (OptionRule σ)) (s : String) : List (OptionUse σ) :=
  if s.startsWith "--" then
    let (start, argument) := splitValue s
    ((spelled rules).filter fun e => e.1.startsWith start).map fun e => ⟨e.2, e.1, argument, false⟩
  else
    let short := String.ofList (s.toList.take 2)
    (spelled rules).filterMap fun e =>
      if e.1 = short then some ⟨e.2, e.1, some (String.ofList (s.toList.drop 2)), true⟩
      else if e.1.startsWith s then some ⟨e.2, e.1, none, false⟩
      else none

/-- Is the character a decimal digit? -/
def isDecimal (c : Char) : Bool := (digitValue? c).isSome

/-- Does the word look like a negative number? -/
def isNegativeNumber (s : String) : Bool :=
  let cs := s.toList
  let cs := if cs.getLast? = some '\n' then cs.dropLast else cs
  match cs with
  | '-' :: rest =>
    match rest.dropWhile isDecimal with
    | [] => !rest.isEmpty
    | '.' :: part => !part.isEmpty && part.all isDecimal
    | _ => false
  | _ => false

/-- The word that a text is before the divider; a text that can mean two options is refused. -/
def Word.ofString (rules : List (OptionRule σ)) (s : String) : Except String (Word σ) :=
  if !s.startsWith "-" then .ok (.plain s)
  else if let some use := exactUse? rules s none then .ok (.option use)
  else if s = "-" then .ok (.plain s)
  else
    let (start, argument) := splitValue s
    let exact := if argument.isSome then exactUse? rules start argument else none
    match exact, possibleUses rules s with
    | some use, _ => .ok (.option use)
    | none, [use] => .ok (.option use)
    | none, [] =>
      if isNegativeNumber s || s.contains ' ' then .ok (.plain s) else .ok (.unknown s)
    | none, uses =>
      .error ("ambiguous option: " ++ s ++ " could match " ++
        ", ".intercalate (uses.map (·.spelling)))

/-- The words of a command line. -/
def Word.ofStrings (rules : List (OptionRule σ)) : List String → Except String (List (Word σ))
  | [] => .ok []
  | s :: rest =>
    if s = "--" then .ok (.divider :: rest.map .plain)
    else do
      let word ← Word.ofString rules s
      return word :: (← ofStrings rules rest)

/-- The options that a word means, and what is left of it for which there is no use. -/
structure Unfolded (σ : Type) where
  uses : List (OptionUse σ)
  extras : List String

/-- A run of short options: the text `tail` follows the option `u` at once. What follows the last
option that is known has no use. -/
def shortRun (rules : List (OptionRule σ)) :
    (u : OptionUse σ) → (tail : List Char) → Except String (Unfolded σ)
  | u, [] => .ok ⟨[u], []⟩
  | u, c :: rest =>
    if u.rule.takesValue then .ok ⟨[{ u with argument := some (String.ofList (c :: rest)) }], []⟩
    else if c = '-' then .error (u.rule.ignored (String.ofList (c :: rest)))
    else
      match exactUse? rules (String.ofList ['-', c]) none with
      | none => .ok ⟨[u], [String.ofList ('-' :: c :: rest)]⟩
      | some next =>
        match rest with
        | '=' :: value =>
          if next.rule.takesValue then
            .ok ⟨[u, { next with argument := some (String.ofList value) }], []⟩
          else .error (next.rule.ignored (String.ofList value))
        | rest => do
          let more ← shortRun rules next rest
          return { more with uses := u :: more.uses }

/-- What one word means: more than one option when short ones are run together. -/
def OptionUse.unfold (rules : List (OptionRule σ)) (u : OptionUse σ) :
    Except String (Unfolded σ) :=
  match u.argument with
  | none => .ok ⟨[u], []⟩
  | some value =>
    if u.rule.takesValue then .ok ⟨[u], []⟩
    else if u.glued then shortRun rules { u with argument := none } value.toList
    else .error (u.rule.ignored value)

end ScriptModules.Cli
