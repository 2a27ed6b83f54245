import ScriptModules.Script.Cursor
import ScriptModules.Script.Pattern

/-!
# Expressions

The rules for expressions, functions and classes. The rules of the grammar refer to each other, so
each is written over a `Grammar` that stands for the others; the knot is tied in
`ScriptModules.Script.Parse`.
-/

namespace ScriptModules.Script

/-- The rules that other rules refer to. -/
inductive Rule where
  | statement
  /-- An expression without commas; `takesIn` tells whether `in` is an operator in it. -/
  | assignment (takesIn : Bool)
  /-- Operands joined by operators that bind at least as tightly as `least` says. -/
  | binary (least : Nat) (takesIn : Bool)
  | unary
  /-- An operand with its suffixes. -/
  | suffixed
  /-- An expression that starts with `new`. -/
  | creation

/-- What each rule reads. -/
abbrev Grammar := Rule → Parse Node

/-! ## Names and lists -/

/-- A name that is bound here. -/
def bindingName : Parse Node := do
  if (← current).isName then leaf "identifier" else fail

/-- An expression, commas included. -/
def expression (g : Grammar) (takesIn : Bool) : Parse Node := do
  let start ← offset
  let first ← g (.assignment takesIn)
  if ← atMark "," then
    let more ← many do
      if ← takeMark "," then return some (← g (.assignment takesIn)) else return none
    node "sequence_expression" start (first :: more)
  else return first

/-- An expression in parentheses. -/
def parenthesized (g : Grammar) : Parse Node := do
  let start ← offset
  expectMark "("
  let e ← expression g true
  expectMark ")"
  node "parenthesized_expression" start [e]

/-- An expression, or one whose values are spread. -/
def spreadable (g : Grammar) : Parse Node := do
  let start ← offset
  if ← takeMark "..." then
    let e ← g (.assignment true)
    node "spread_element" start [e]
  else g (.assignment true)

/-- The arguments of a call. -/
def callArguments (g : Grammar) : Parse Node := do
  let start ← offset
  expectMark "("
  let items ← commaList ")" false (spreadable g)
  node "arguments" start items

/-- An array literal. -/
def arrayLiteral (g : Grammar) : Parse Node := do
  let start ← offset
  expectMark "["
  let items ← commaList "]" true (spreadable g)
  node "array" start items

/-- A template. -/
def template (g : Grammar) : Parse Node := do
  let start ← offset
  let substitutions ← repeatUntil (fun acc => do
    let c ← get
    -- The current token is the mark that opens the template or closes a substitution.
    let rest := templateText c.rest
    match word ['\x60'] rest with
    | some after =>
      set (c.past after)
      return .inr acc.reverse
    | none =>
      match word ['$', '\x7b'] rest with
      | none => fail
      | some inner =>
        set (c.past inner)
        let e ← expression g true
        unless ← atMark "\x7d" do fail
        let t ← current
        let n := { leafNode "template_substitution" (offsetOf c.size rest) t.stop with
          children := [e] }
        return .inl (n :: acc)) []
  node "template_string" start substitutions

/-- A regular expression. -/
def regexLiteral : Parse Node := do
  let c ← get
  match regex c.here with
  | none => fail
  | some rest =>
    set (c.past rest)
    node "regex" c.token.start []

/-! ## Functions -/

/-- Statements up to a closing brace, the end of the script, or a word that `ends`. -/
def statements (g : Grammar) (ends : List String) : Parse (List Node) :=
  many do
    settle
    let t ← current
    if t.kind = .finish || t.isMark "\x7d" || (t.kind = .name && ends.contains t.text) then
      return none
    else return some (← g .statement)

/-- A block of statements. -/
def block (g : Grammar) : Parse Node := do
  let start ← offset
  expectMark "\x7b"
  let body ← statements g []
  expectMark "\x7d"
  node "statement_block" start body

/-- The pattern that an expression stands for, or a failure. -/
def asPattern (convert : Node → Option Node) (n : Node) : Parse Node :=
  match convert n with
  | some p => return p
  | none => throw n.start

/-- A parameter: a pattern, with a default value or none, or one that takes all further

arguments. -/
def parameter (g : Grammar) : Parse Node := do
  asPattern target? (← spreadable g)

/-- The parameters of a function. -/
def parameters (g : Grammar) : Parse Node := do
  let start ← offset
  expectMark "("
  let items ← commaList ")" false (parameter g)
  node "formal_parameters" start items

/-- A function from its first word on: a declaration if that is asked for, else an expression. -/
def functionForm (g : Grammar) (declared : Bool) : Parse Node := do
  let start ← offset
  let _ ← takeWord "async"
  expectWord "function"
  let generator ← takeMark "*"
  let name ← if (← current).isName then pure [inField "name" (← leaf "identifier")] else pure []
  let params ← parameters g
  let body ← block g
  let kind :=
    if declared then
      if generator then "generator_function_declaration" else "function_declaration"
    else if generator then "generator_function" else "function_expression"
  node kind start (name ++ [inField "parameters" params, inField "body" body])

/-- The arrow and the body of an arrow function with the given parameters. -/
def arrowRest (g : Grammar) (start : Nat) (params : Node) : Parse Node := do
  expectMark "=>"
  let body ← if ← atMark "\x7b" then block g else g (.assignment true)
  node "arrow_function" start [params, inField "body" body]

/-- Does the current token make an arrow function of what stands before it? -/
def atArrow : Parse Bool := return (← current).isMark "=>" && !(← current).onNewLine

/-- Parentheses: around an expression, or around the parameters of an arrow function that starts at
`start`. -/
def group (g : Grammar) (start : Nat) : Parse Node := do
  let opening ← offset
  expectMark "("
  -- An expression needs an item, and neither a last comma nor a rest.
  let (items, plain) ← repeatUntil (fun (acc, plain) => do
    if ← takeMark ")" then return .inr (acc.reverse, plain)
    let spread ← atMark "..."
    let n ← spreadable g
    if ← takeMark "," then return .inl (n :: acc, false)
    unless ← atMark ")" do fail
    return .inl (n :: acc, !spread)) (([], false) : List Node × Bool)
  if ← atArrow then
    let items ← items.mapM (asPattern target?)
    let params ← node "formal_parameters" opening items
    arrowRest g start (inField "parameters" params)
  else
    match plain, items with
    | true, [e] => node "parenthesized_expression" opening [e]
    | true, first :: more =>
      let stop := (more.getLast?.getD first).stop
      let e := { leafNode "sequence_expression" first.start stop with children := items }
      node "parenthesized_expression" opening [e]
    | _, _ => fail

/-! ## Members -/

/-- May the token start the name of a member? -/
def Token.startsMember (t : Token) : Bool :=
  t.kind = .name || t.kind = .privateName || t.kind = .number || t.kind = .string || t.isMark "["

/-- The name of a member. -/
def memberName (g : Grammar) : Parse Node := do
  let t ← current
  let start := t.start
  match t.kind with
  | .name => leaf "property_identifier"
  | .privateName => leaf "private_property_identifier"
  | .string => leaf "string"
  | .number => leaf "number"
  | _ =>
    expectMark "["
    let e ← g (.assignment true)
    expectMark "]"
    node "computed_property_name" start [e]

/-- The parameters and body of a method whose name is read. -/
def methodRest (g : Grammar) (start : Nat) (name : Node) : Parse Node := do
  let params ← parameters g
  let body ← block g
  node "method_definition" start
    [inField "name" name, inField "parameters" params, inField "body" body]

/-- Passes the words and marks before the name of a method: `async`, `get`, `set` and a star. Gives
whether there were any. A word that no name follows is a name itself. -/
def methodMarks : Parse Bool := do
  let next ← following
  let isAsync ← atWord "async"
  let isAccessor := (← atWord "get") || (← atWord "set")
  if isAsync && !next.onNewLine && (next.startsMember || next.isMark "*") then
    advance
    let _ ← takeMark "*"
    return true
  else if isAccessor && next.startsMember then
    advance
    return true
  else takeMark "*"

/-- A member of an object literal. -/
def objectMember (g : Grammar) : Parse Node := do
  let start ← offset
  if ← atMark "..." then spreadable g
  else if ← methodMarks then
    let name ← memberName g
    methodRest g start name
  else
    let t ← current
    let name ← memberName g
    if ← takeMark ":" then
      let value ← g (.assignment true)
      node "pair" start [inField "key" name, inField "value" value]
    else if ← atMark "(" then methodRest g start name
    else if !t.isName then fail
    else if ← takeMark "=" then
      let left := inField "left" { name with kind := "shorthand_property_identifier_pattern" }
      let right ← g (.assignment true)
      node "object_assignment_pattern" start [left, inField "right" right]
    else return { name with kind := "shorthand_property_identifier" }

/-- An object literal. -/
def objectLiteral (g : Grammar) : Parse Node := do
  let start ← offset
  expectMark "\x7b"
  let members ← commaList "\x7d" false (objectMember g)
  node "object" start members

/-- A member of a class. -/
def classMember (g : Grammar) : Parse Node := do
  let start ← offset
  let next ← following
  let isStatic := (← atWord "static") &&
    (next.startsMember || next.isMark "*" || next.isMark "\x7b")
  if isStatic then advance
  if isStatic && (← atMark "\x7b") then
    let body ← block g
    node "class_static_block" start [inField "body" body]
  else if ← methodMarks then
    let name ← memberName g
    methodRest g start name
  else
    let name ← memberName g
    if ← atMark "(" then methodRest g start name
    else
      let value ←
        if ← takeMark "=" then pure [inField "value" (← g (.assignment true))] else pure []
      let n ← node "field_definition" start (inField "property" name :: value)
      endStatement
      return n

/-- The body of a class. -/
def classBody (g : Grammar) : Parse Node := do
  let start ← offset
  expectMark "\x7b"
  let members ← repeatUntil (fun acc => do
    if ← takeMark "\x7d" then return .inr acc.reverse
    if ← takeMark ";" then return .inl acc
    let m ← classMember g
    return .inl (inField "member" m :: acc)) []
  node "class_body" start members

/-- A class: a declaration if that is asked for, else an expression. -/
def classForm (g : Grammar) (declared : Bool) : Parse Node := do
  let start ← offset
  expectWord "class"
  let name ← if (← current).isName then pure [inField "name" (← leaf "identifier")] else pure []
  let parent ← do
    let start ← offset
    if ← takeWord "extends" then
      let e ← g .suffixed
      pure [← node "class_heritage" start [e]]
    else pure []
  let body ← classBody g
  node (if declared then "class_declaration" else "class") start
    (name ++ parent ++ [inField "body" body])

/-! ## Operands -/

/-- The member names, indexes, templates and, with `calls`, arguments after an operand. -/
def suffixes (g : Grammar) (calls : Bool) (start : Nat) : Node → Parse Node :=
  repeatUntil fun left => do
    let member (chain : List Node) : Parse Node := do
      let t ← current
      if t.kind = .name || t.kind = .privateName then
        let name ← memberName g
        node "member_expression" start
          (inField "object" left :: chain ++ [inField "property" name])
      else fail
    let index (chain : List Node) : Parse Node := do
      expectMark "["
      let e ← expression g true
      expectMark "]"
      node "subscript_expression" start (inField "object" left :: chain ++ [inField "index" e])
    let call (chain : List Node) : Parse Node := do
      let items ← callArguments g
      node "call_expression" start
        (inField "function" left :: chain ++ [inField "arguments" items])
    let t ← current
    if t.kind ≠ .mark then return .inr left
    else match t.text with
      | "." =>
        advance
        return .inl (← member [])
      | "?." =>
        if calls then
          let chain := [inField "optional_chain" (← leaf "optional_chain")]
          if ← atMark "(" then return .inl (← call chain)
          else if ← atMark "[" then return .inl (← index chain)
          else return .inl (← member chain)
        else return .inr left
      | "[" => return .inl (← index [])
      | "(" => if calls then return .inl (← call []) else return .inr left
      | "\x60" =>
        let text ← template g
        return .inl (← node "call_expression" start
          [inField "function" left, inField "arguments" text])
      | _ => return .inr left

/-- A name, or the arrow function whose parameter it is. -/
def nameOrArrow (g : Grammar) (start : Nat) : Parse Node := do
  let n ← bindingName
  if ← atArrow then arrowRest g start (inField "parameter" n) else return n

/-- The arrow function that starts with the word `async`, if one does. -/
def asyncArrow (g : Grammar) : Parse (Option Node) :=
  attempt do
    let start ← offset
    expectWord "async"
    if (← current).onNewLine then fail
    let n ← if ← atMark "(" then group g start else nameOrArrow g start
    return if n.kind = "arrow_function" then some n else none

/-- An operand that starts with the word `async`: a function, an arrow function or the name. -/
def asyncForm (g : Grammar) : Parse Node := do
  let next ← following
  if next.kind = .name && next.text = "function" && !next.onNewLine then functionForm g false
  else match ← asyncArrow g with
    | some n => return n
    | none => nameOrArrow g (← offset)

/-- An operand that is a word. -/
def wordOperand (g : Grammar) : Parse Node := do
  let t ← current
  match t.text with
  | "function" => functionForm g false
  | "async" => asyncForm g
  | "class" => classForm g false
  | "this" | "null" | "true" | "false" | "super" | "undefined" => leaf t.text
  | "import" =>
    let n ← leaf "import"
    if ← atMark "(" then return n
    else
      expectMark "."
      expectWord "meta"
      node "meta_property" t.start []
  | "yield" => fail
  | _ => nameOrArrow g t.start

/-- An operand without suffixes. -/
def operand (g : Grammar) : Parse Node := do
  settle
  let t ← current
  match t.kind with
  | .name => wordOperand g
  | .number => leaf "number"
  | .string => leaf "string"
  | .privateName =>
    let next ← following
    if next.kind = .name && next.text = "in" then leaf "private_property_identifier" else fail
  | .mark =>
    match t.text with
    | "(" => group g t.start
    | "[" => arrayLiteral g
    | "\x7b" => objectLiteral g
    | "\x60" => template g
    | "/" | "/=" => regexLiteral
    | _ => fail
  | _ => fail

/-- An expression that starts with `new`. -/
def creation (g : Grammar) : Parse Node := do
  let start ← offset
  expectWord "new"
  if ← takeMark "." then
    expectWord "target"
    node "meta_property" start []
  else
    let inner ← offset
    let callee ← if ← atWord "new" then g .creation else operand g
    let callee ← suffixes g false inner callee
    let items ←
      if ← atMark "(" then pure [inField "arguments" (← callArguments g)] else pure []
    node "new_expression" start (inField "constructor" callee :: items)

/-- An operand with its suffixes. -/
def suffixed (g : Grammar) : Parse Node := do
  settle
  let start ← offset
  let e ← if ← atWord "new" then creation g else operand g
  suffixes g true start e

/-! ## Operators -/

/-- May an operand start with the token? -/
def Token.startsOperand (t : Token) : Bool :=
  match t.kind with
  | .name => t.text ≠ "in" && t.text ≠ "instanceof" && t.text ≠ "of"
  | .number | .string | .privateName => true
  | .mark =>
    ["(", "[", "\x7b", "\x60", "/", "/=", "+", "-", "!", "~", "++", "--"].contains t.text
  | _ => false

/-- An operand with the operators before and after it. -/
def unary (g : Grammar) : Parse Node := do
  settle
  let t ← current
  let start := t.start
  let isOperator :=
    (t.kind = .mark && ["!", "~", "-", "+"].contains t.text) ||
      (t.kind = .name && ["typeof", "void", "delete"].contains t.text)
  if isOperator then
    let op ← bareLeaf "operator"
    let e ← g .unary
    node "unary_expression" start [op, inField "argument" e]
  else if t.isMark "++" || t.isMark "--" then
    let op ← bareLeaf "operator"
    let e ← g .unary
    node "update_expression" start [op, inField "argument" e]
  else if (← atWord "await") && (← following).startsOperand then
    advance
    let e ← g .unary
    node "await_expression" start [e]
  else
    let e ← suffixed g
    let after ← current
    if (after.isMark "++" || after.isMark "--") && !after.onNewLine then
      let op ← bareLeaf "operator"
      node "update_expression" start [inField "argument" e, op]
    else return e

/-- How tightly an operator between two operands binds; none when the token is no such operator. -/
def Token.tightness? (t : Token) (takesIn : Bool) : Option Nat :=
  match t.kind with
  | .name =>
    if t.text = "instanceof" || (t.text = "in" && takesIn) then some 8 else none
  | .mark =>
    match t.text with
    | "??" => some 1
    | "||" => some 2
    | "&&" => some 3
    | "|" => some 4
    | "^" => some 5
    | "&" => some 6
    | "==" | "!=" | "===" | "!==" => some 7
    | "<" | ">" | "<=" | ">=" => some 8
    | "<<" | ">>" | ">>>" => some 9
    | "+" | "-" => some 10
    | "*" | "/" | "%" => some 11
    | "**" => some 12
    | _ => none
  | _ => none

/-- Operands joined by operators that bind at least as tightly as `least`. Only the power operator
groups to the right. -/
def binary (g : Grammar) (least : Nat) (takesIn : Bool) : Parse Node := do
  settle
  let start ← offset
  let first ← unary g
  repeatUntil (fun left => do
    match (← current).tightness? takesIn with
    | none => return .inr left
    | some level =>
      if level < least then return .inr left
      else
        let op ← bareLeaf "operator"
        let right ← g (.binary (if level = 12 then level else level + 1) takesIn)
        return .inl (← node "binary_expression" start
          [inField "left" left, op, inField "right" right])) first

/-- The operators that combine an operation with an assignment. -/
def updateOperators : List String :=
  ["+=", "-=", "*=", "/=", "%=", "^=", "&=", "|=", ">>=", ">>>=", "<<=", "**=", "&&=", "||=", "??="]

/-- A `yield` with its value, if it has one. -/
def yieldForm (g : Grammar) (takesIn : Bool) : Parse Node := do
  let start ← offset
  expectWord "yield"
  let t ← current
  if ← takeMark "*" then
    let e ← g (.assignment takesIn)
    node "yield_expression" start [e]
  else if t.startsOperand && !t.onNewLine then
    let e ← g (.assignment takesIn)
    node "yield_expression" start [e]
  else node "yield_expression" start []

/-- An expression without commas. -/
def assignment (g : Grammar) (takesIn : Bool) : Parse Node := do
  settle
  if ← atWord "yield" then yieldForm g takesIn
  else
    let start ← offset
    let left ← binary g 1 takesIn
    let t ← current
    if ← takeMark "?" then
      let yes ← g (.assignment true)
      expectMark ":"
      let no ← g (.assignment takesIn)
      node "ternary_expression" start
        [inField "condition" left, inField "consequence" yes, inField "alternative" no]
    else if t.isMark "=" then
      let left ←
        if left.kind = "parenthesized_expression" then pure left
        else asPattern assignable? left
      advance
      let right ← g (.assignment takesIn)
      node "assignment_expression" start [inField "left" left, inField "right" right]
    else if t.kind = .mark && updateOperators.contains t.text then
      unless ["identifier", "member_expression", "subscript_expression",
        "parenthesized_expression"].contains left.kind do fail
      let op ← bareLeaf "operator"
      let right ← g (.assignment takesIn)
      node "augmented_assignment_expression" start
        [inField "left" left, op, inField "right" right]
    else return left

end ScriptModules.Script
