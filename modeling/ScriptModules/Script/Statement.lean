import ScriptModules.Script.Expression

/-!
# Statements

The rules for statements. A statement that needs a semicolon may end without one where a line, a
block or the script ends (`endStatement`); its node then ends with its last token.
-/

namespace ScriptModules.Script

/-- A name or a destructuring pattern that a declaration binds. -/
def bindingTarget (g : Grammar) : Parse Node := do
  if (← atMark "[") || (← atMark "\x7b") then asPattern assignable? (← operand g) else bindingName

/-- The value that a declaration gives to what it binds, if it gives one. -/
def initializer (g : Grammar) (takesIn : Bool) : Parse (List Node) := do
  if ← takeMark "=" then return [inField "value" (← g (.assignment takesIn))] else return []

/-- One binding of a declaration. -/
def declarator (g : Grammar) (takesIn : Bool) : Parse Node := do
  let start ← offset
  let target ← bindingTarget g
  let value ← initializer g takesIn
  node "variable_declarator" start (inField "name" target :: value)

/-- The bindings of a declaration after its first one. -/
def moreDeclarators (g : Grammar) (takesIn : Bool) : Parse (List Node) :=
  many do
    if ← takeMark "," then return some (← declarator g takesIn) else return none

/-- The kind of a declaration and the node that tells its keyword, given the keyword. -/
def declarationShape (keyword : Node) : String × List Node :=
  if keyword.kind = "var" then ("variable_declaration", []) else ("lexical_declaration", [keyword])

/-- A `var`, `let` or `const` declaration. -/
def declaration (g : Grammar) : Parse Node := do
  let start ← offset
  let keyword ← bareLeaf "kind"
  let first ← declarator g true
  let more ← moreDeclarators g true
  endStatement
  let (kind, head) := declarationShape keyword
  node kind start (head ++ first :: more)

/-- Does a declaration of bindings start here? The word `let` may also be a name. -/
def atDeclaration : Parse Bool := do
  if (← atWord "var") || (← atWord "const") then return true
  else if ← atWord "let" then
    let next ← following
    return next.isName || next.isMark "[" || next.isMark "\x7b"
  else return false

/-! ## Branches and loops -/

/-- An `if` statement. -/
def ifStatement (g : Grammar) : Parse Node := do
  let start ← offset
  expectWord "if"
  let condition ← parenthesized g
  let yes ← g .statement
  let elseStart ← offset
  let no ←
    if ← takeWord "else" then
      let body ← g .statement
      pure [inField "alternative" (← node "else_clause" elseStart [body])]
    else pure []
  node "if_statement" start (inField "condition" condition :: inField "consequence" yes :: no)

/-- A `while` statement. -/
def whileStatement (g : Grammar) : Parse Node := do
  let start ← offset
  expectWord "while"
  let condition ← parenthesized g
  let body ← g .statement
  node "while_statement" start [inField "condition" condition, inField "body" body]

/-- A `do` statement, whose semicolon may be left out. -/
def doStatement (g : Grammar) : Parse Node := do
  let start ← offset
  expectWord "do"
  let body ← g .statement
  expectWord "while"
  let condition ← parenthesized g
  let _ ← takeMark ";"
  node "do_statement" start [inField "body" body, inField "condition" condition]

/-- The lone semicolon, as a statement or as a part of a loop's head. -/
def emptyStatement : Parse Node := do
  let start ← offset
  expectMark ";"
  node "empty_statement" start []

/-- The rest of a counting loop after its first semicolon. -/
def forRest (g : Grammar) (start : Nat) (first : Node) : Parse Node := do
  let condition ←
    if ← atMark ";" then emptyStatement
    else
      let e ← expression g true
      expectMark ";"
      pure e
  let increment ←
    if ← atMark ")" then pure [] else pure [inField "increment" (← expression g true)]
  expectMark ")"
  let body ← g .statement
  node "for_statement" start
    (inField "initializer" first :: inField "condition" condition ::
      increment ++ [inField "body" body])

/-- Does `in` or `of` stand here? -/
def atEach : Parse Bool := return (← atWord "in") || (← atWord "of")

/-- The rest of a loop over the values of an expression, from the word `in` or `of` on. -/
def forEachRest (g : Grammar) (start : Nat) (head : List Node) : Parse Node := do
  let op ← bareLeaf "operator"
  let values ← expression g true
  expectMark ")"
  let body ← g .statement
  node "for_in_statement" start (head ++ [op, inField "right" values, inField "body" body])

/-- A `for` statement whose head starts with a declaration. -/
def forDeclaration (g : Grammar) (start : Nat) : Parse Node := do
  let inner ← offset
  let keyword ← bareLeaf "kind"
  let targetStart ← offset
  let target ← bindingTarget g
  if ← atEach then forEachRest g start [keyword, inField "left" target]
  else
    let value ← initializer g false
    if keyword.kind = "var" && (← atEach) then
      forEachRest g start ([keyword, inField "left" target] ++ value)
    else
      let first ← node "variable_declarator" targetStart (inField "name" target :: value)
      let more ← moreDeclarators g false
      expectMark ";"
      let (kind, head) := declarationShape keyword
      let declared ← node kind inner (head ++ first :: more)
      forRest g start declared

/-- A `for` statement. -/
def forStatement (g : Grammar) : Parse Node := do
  let start ← offset
  expectWord "for"
  let _ ← takeWord "await"
  expectMark "("
  if ← atMark ";" then
    let first ← emptyStatement
    forRest g start first
  else if ← atDeclaration then forDeclaration g start
  else
    let e ← expression g false
    if ← atEach then
      let left ← if e.kind = "parenthesized_expression" then pure e else asPattern assignable? e
      forEachRest g start [inField "left" left]
    else
      expectMark ";"
      forRest g start e

/-- One branch of a `switch` statement. -/
def switchBranch (g : Grammar) : Parse Node := do
  let start ← offset
  let value ←
    if ← takeWord "case" then pure [inField "value" (← expression g true)]
    else
      expectWord "default"
      pure []
  expectMark ":"
  let body ← statements g ["case", "default"]
  node (if value.isEmpty then "switch_default" else "switch_case") start
    (value ++ body.map (inField "body"))

/-- A `switch` statement. -/
def switchStatement (g : Grammar) : Parse Node := do
  let start ← offset
  expectWord "switch"
  let value ← parenthesized g
  let bodyStart ← offset
  expectMark "\x7b"
  let branches ← many do
    if ← atMark "\x7d" then return none else return some (← switchBranch g)
  expectMark "\x7d"
  let body ← node "switch_body" bodyStart branches
  node "switch_statement" start [inField "value" value, inField "body" body]

/-! ## Other statements -/

/-- The handler of a `try` statement. -/
def catchClause (g : Grammar) : Parse Node := do
  let start ← offset
  expectWord "catch"
  let target ←
    if ← takeMark "(" then
      let t ← bindingTarget g
      expectMark ")"
      pure [inField "parameter" t]
    else pure []
  let body ← block g
  node "catch_clause" start (target ++ [inField "body" body])

/-- A `try` statement. -/
def tryStatement (g : Grammar) : Parse Node := do
  let start ← offset
  expectWord "try"
  let body ← block g
  let handler ← if ← atWord "catch" then pure [inField "handler" (← catchClause g)] else pure []
  let lastStart ← offset
  let last ←
    if ← takeWord "finally" then
      let b ← block g
      pure [inField "finalizer" (← node "finally_clause" lastStart [inField "body" b])]
    else pure []
  node "try_statement" start (inField "body" body :: handler ++ last)

/-- A `with` statement. -/
def withStatement (g : Grammar) : Parse Node := do
  let start ← offset
  expectWord "with"
  let object ← parenthesized g
  let body ← g .statement
  node "with_statement" start [inField "object" object, inField "body" body]

/-- A `break` or `continue` statement. -/
def jumpStatement (kind : String) : Parse Node := do
  let start ← offset
  advance
  let t ← current
  let label ←
    if t.isName && !t.onNewLine then pure [inField "label" (← leaf "statement_identifier")]
    else pure []
  endStatement
  node kind start label

/-- A `return` statement. -/
def returnStatement (g : Grammar) : Parse Node := do
  let start ← offset
  expectWord "return"
  let t ← current
  let value ←
    if t.onNewLine || t.kind = .finish || t.isMark ";" || t.isMark "\x7d" then pure []
    else pure [← expression g true]
  endStatement
  node "return_statement" start value

/-- A `throw` statement. -/
def throwStatement (g : Grammar) : Parse Node := do
  let start ← offset
  expectWord "throw"
  if (← current).onNewLine then fail
  let value ← expression g true
  endStatement
  node "throw_statement" start [value]

/-- A statement with a label. -/
def labeledStatement (g : Grammar) : Parse Node := do
  let start ← offset
  let label ← leaf "statement_identifier"
  expectMark ":"
  let body ← g .statement
  node "labeled_statement" start [inField "label" label, inField "body" body]

/-- An expression as a statement. -/
def expressionStatement (g : Grammar) : Parse Node := do
  let start ← offset
  let e ← expression g true
  endStatement
  node "expression_statement" start [e]

/-! ## Imports and exports -/

/-- A string literal. -/
def stringLiteral : Parse Node := do
  if (← current).kind = .string then leaf "string" else fail

/-- A name under which a module offers something: a name, a string or `default`. -/
def exportName : Parse (List Node) := do
  let t ← current
  if t.kind = .string then return [← leaf "string"]
  else if ← takeWord "default" then return []
  else return [← bindingName]

/-- One name between the braces of an import or export. -/
def specifierItem (kind : String) : Parse Node := do
  let start ← offset
  let name ← exportName
  let other ← if ← takeWord "as" then exportName else pure []
  node kind start (name.map (inField "name") ++ other.map (inField "alias"))

/-- Names in braces. -/
def specifierList (kind item : String) : Parse Node := do
  let start ← offset
  expectMark "\x7b"
  let items ← commaList "\x7d" false (specifierItem item)
  node kind start items

/-- Everything that a module offers, under one name. -/
def namespaceImport : Parse Node := do
  let start ← offset
  expectMark "*"
  expectWord "as"
  let name ← bindingName
  node "namespace_import" start [name]

/-- What an import binds. -/
def importClause : Parse Node := do
  let start ← offset
  let braced : Parse Node := do
    if ← atMark "*" then namespaceImport else specifierList "named_imports" "import_specifier"
  if (← current).isName then
    let name ← bindingName
    let more ← if ← takeMark "," then pure [← braced] else pure []
    node "import_clause" start (name :: more)
  else
    let names ← braced
    node "import_clause" start [names]

/-- The module that an import or export names. -/
def sourceClause : Parse Node := do
  expectWord "from"
  return inField "source" (← stringLiteral)

/-- The attributes of an import, if it has some. -/
def importAttribute (g : Grammar) : Parse (List Node) := do
  let start ← offset
  if ← takeWord "with" then
    let object ← objectLiteral g
    return [← node "import_attribute" start [object]]
  else return []

/-- An `import` statement. -/
def importStatement (g : Grammar) : Parse Node := do
  let start ← offset
  expectWord "import"
  let children ←
    if (← current).kind = .string then pure [inField "source" (← stringLiteral)]
    else
      let clause ← importClause
      let source ← sourceClause
      pure [clause, source]
  let attributes ← importAttribute g
  endStatement
  node "import_statement" start (children ++ attributes)

/-- Does a declaration of a function or class start here? Without a name it is an expression. -/
def atNamedForm : Parse Bool := do
  let next ← following
  if ← atWord "function" then return next.isName || next.isMark "*"
  else if ← atWord "async" then
    return next.kind = .name && next.text = "function" && !next.onNewLine
  else if ← atWord "class" then return next.isName
  else return false

/-- A declaration of a function or class. -/
def namedForm (g : Grammar) : Parse Node := do
  if ← atWord "class" then classForm g true else functionForm g true

/-- What stands after `export`, if it is no declaration or value. -/
def exportList : Parse (List Node) := do
  let start ← offset
  if ← takeMark "*" then
    let names ←
      if ← takeWord "as" then pure [← node "namespace_export" start (← exportName)] else pure []
    let source ← sourceClause
    return names ++ [source]
  else
    let names ← specifierList "export_clause" "export_specifier"
    if ← atWord "from" then return [names, ← sourceClause] else return [names]

/-- An `export` statement. -/
def exportStatement (g : Grammar) : Parse Node := do
  let start ← offset
  expectWord "export"
  let children ←
    if ← takeWord "default" then
      if ← atNamedForm then pure [inField "declaration" (← namedForm g)]
      else
        let value ← g (.assignment true)
        endStatement
        pure [inField "value" value]
    else if ← atNamedForm then pure [inField "declaration" (← namedForm g)]
    else if ← atDeclaration then pure [inField "declaration" (← declaration g)]
    else
      let names ← exportList
      endStatement
      pure names
  node "export_statement" start children

/-! ## All statements -/

/-- A statement that starts with a word. -/
def wordStatement (g : Grammar) : Parse Node := do
  let t ← current
  let next ← following
  if ← atDeclaration then declaration g
  else if ← atNamedForm then namedForm g
  else match t.text with
    | "if" => ifStatement g
    | "for" => forStatement g
    | "while" => whileStatement g
    | "do" => doStatement g
    | "switch" => switchStatement g
    | "try" => tryStatement g
    | "with" => withStatement g
    | "break" => jumpStatement "break_statement"
    | "continue" => jumpStatement "continue_statement"
    | "return" => returnStatement g
    | "throw" => throwStatement g
    | "debugger" =>
      let start ← offset
      advance
      endStatement
      node "debugger_statement" start []
    | "import" =>
      if next.isMark "(" || next.isMark "." then expressionStatement g else importStatement g
    | "export" => exportStatement g
    | _ => if t.isName && next.isMark ":" then labeledStatement g else expressionStatement g

/-- A statement. -/
def statement (g : Grammar) : Parse Node := do
  settle
  let t ← current
  if t.isMark "\x7b" then block g
  else if t.isMark ";" then emptyStatement
  else if t.kind = .name then wordStatement g
  else expressionStatement g

end ScriptModules.Script
