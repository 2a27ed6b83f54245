import ScriptModules.Data.Order
import ScriptModules.Text.Utf8
import ScriptModules.Tree.Node

/-!
# Scopes and free names

Which names a script shares with the other scripts of its page: the `var` and function names that
it declares at program level, and the identifiers that it uses without declaring them, each use
told apart as a read or an assignment.

Scoping is coarse. The program, functions and methods, named class expressions and catch clauses
are scopes. A scope holds its own names (`ownNames`: parameters, the name of a function or class
expression, `arguments`, a catch parameter), and the program and each function also hold every
name that a declaration in their body introduces, however deep in blocks it stands (`hoisted`).
A use is free when no scope around it holds the name.

The functions take the text of a node as a parameter, so they speak about the shape of trees only.
-/

namespace ScriptModules

namespace Node

/-- Functions of every form: each is a scope for all declarations in its body. -/
def isFunction (n : Node) : Bool :=
  ["function_declaration", "generator_function_declaration", "function_expression", "function",
    "generator_function", "arrow_function", "method_definition"].contains n.kind

/-- Functions whose name belongs to the scope around them. -/
def isDeclaredFunction (n : Node) : Bool :=
  ["function_declaration", "generator_function_declaration"].contains n.kind

/-- Expressions whose name belongs to their own scope. -/
def isSelfNamed (n : Node) : Bool :=
  ["function_expression", "function", "generator_function", "class"].contains n.kind

/-- Uses of a name. -/
def isReference (n : Node) : Bool :=
  ["identifier", "shorthand_property_identifier"].contains n.kind

mutual

/-- The nodes that spell the names which an identifier or a destructuring pattern binds. -/
def bindings : Node → List Node
  | ⟨kind, start, stop, children, field, named, missing, flagged⟩ =>
    if ["identifier", "shorthand_property_identifier_pattern"].contains kind then
      [⟨kind, start, stop, children, field, named, missing, flagged⟩]
    else if ["assignment_pattern", "object_assignment_pattern"].contains kind then
      bindingsInField "left" children
    else if kind = "pair_pattern" then bindingsInField "value" children
    else if ["object_pattern", "array_pattern", "rest_pattern", "formal_parameters"].contains kind
    then bindingsInNamed children
    else []

/-- The bindings of the first node that stands in the field `f`. -/
def bindingsInField (f : String) : List Node → List Node
  | [] => []
  | c :: cs => if c.field = some f then bindings c else bindingsInField f cs

/-- The bindings of all nodes that are more than bare tokens. -/
def bindingsInNamed : List Node → List Node
  | [] => []
  | c :: cs => (if c.named then bindings c else []) ++ bindingsInNamed cs

end

end Node

/-- What a name is declared by. -/
inductive Keyword where
  /-- The kind of declaration tells it. -/
  | fixed (word : String)
  /-- The node spells it. -/
  | spelled (node : Node)

/-- The word for a declaration, given the texts of nodes. -/
def Keyword.word (text : Node → String) : Keyword → String
  | .fixed w => w
  | .spelled n => text n

/-- A name that a node introduces into the function or program around it. -/
structure Declaration where
  /-- The node that spells the name. -/
  name : Node
  keyword : Keyword

namespace Node

/-- The names bound by the declarators of a `var`, `let` or `const` declaration. -/
def declarators (n : Node) : List Node :=
  n.namedChildren.flatMap fun d =>
    if d.kind = "variable_declarator" then
      match d.child? "name" with
      | some target => target.bindings
      | none => []
    else []

/-- The names that the node itself introduces into the function or program around it. -/
def declared (n : Node) : List Declaration :=
  if n.isDeclaredFunction then
    ((n.child? "name").map fun name => Declaration.mk name (.fixed "function")).toList
  else if n.kind = "class_declaration" then
    ((n.child? "name").map fun name => Declaration.mk name (.fixed "class")).toList
  else if n.kind = "variable_declaration" then
    n.declarators.map fun name => ⟨name, .fixed "var"⟩
  else if n.kind = "lexical_declaration" then
    let keyword := match n.child? "kind" with
      | some k => Keyword.spelled k
      | none => .fixed "let"
    n.declarators.map fun name => ⟨name, keyword⟩
  else if n.kind = "for_in_statement" then
    match n.child? "kind", n.child? "left" with
    | some k, some target => target.bindings.map fun name => ⟨name, .spelled k⟩
    | _, _ => []
  else []

mutual

/-- The names that a subtree introduces into the function or program around it, in preorder.
The body of a function inside it is not searched. -/
def hoisted : Node → List Declaration
  | ⟨kind, start, stop, children, field, named, missing, flagged⟩ =>
    let n : Node := ⟨kind, start, stop, children, field, named, missing, flagged⟩
    n.declared ++ if n.isFunction then [] else hoistedAll children

/-- The names that a list of subtrees introduces. -/
def hoistedAll : List Node → List Declaration
  | [] => []
  | c :: cs => hoisted c ++ hoistedAll cs

end

/-- The node that holds a function's parameters. -/
def parameters? (n : Node) : Option Node := (n.child? "parameters").or (n.child? "parameter")

/-- The nodes that spell the names which a scope node holds by itself; `none` when the node is no
scope. -/
def ownNames? (n : Node) : Option (List Node) :=
  if n.isFunction then
    some ((n.parameters?.map bindings).getD [] ++
      if n.isSelfNamed then (n.child? "name").toList else [])
  else if n.kind = "class" then (n.child? "name").map fun name => [name]
  else if n.kind = "catch_clause" then some ((n.child? "parameter").map bindings |>.getD [])
  else none

/-- The names that a scope node holds; `none` when the node is no scope. -/
def scopeNames? (text : Node → String) (n : Node) : Option (List String) :=
  n.ownNames?.map fun own =>
    own.map text ++
      if n.isFunction then
        (if n.kind = "arrow_function" then [] else ["arguments"]) ++
          (hoistedAll n.children).map fun d => text d.name
      else []

/-- The field whose first node is written rather than read, when the node writes one. -/
def writtenField? (n : Node) : Option String :=
  if n.kind = "assignment_expression" ∨ n.kind = "augmented_assignment_expression" then some "left"
  else if n.kind = "update_expression" then some "argument"
  else if n.kind = "for_in_statement" ∧ n.child? "kind" = none then some "left"
  else none

end Node

/-- One use of a free name. -/
structure Occurrence where
  start : Nat
  stop : Nat
  isAssignment : Bool
  deriving DecidableEq, Repr

/-- A name that a script uses without declaring it. -/
structure GlobalName where
  name : String
  /-- Its uses, in source order. -/
  occurrences : List Occurrence
  deriving DecidableEq, Repr

/-- Is the name assigned somewhere? -/
def GlobalName.isAssigned (g : GlobalName) : Bool := g.occurrences.any (·.isAssignment)

/-- Is the name read somewhere? -/
def GlobalName.isRead (g : GlobalName) : Bool := g.occurrences.any fun o => !o.isAssignment

/-- What a script shares with the others. -/
structure Analysis where
  /-- The names that it declares at program level by `var` or as functions. -/
  declarations : List String
  /-- The names that it uses without declaring them, by first use. -/
  globals : List GlobalName
  deriving DecidableEq, Repr

namespace Scope

/-- Does one of the scopes hold the name? -/
def resolves (scopes : List (List String)) (name : String) : Bool := scopes.any (·.contains name)

mutual

/-- The free uses in a subtree that stands inside the given scopes; `written` tells whether the
parent writes this node. -/
def free (text : Node → String) (scopes : List (List String)) (written : Bool) :
    Node → List (String × Occurrence)
  | ⟨kind, start, stop, children, field, named, missing, flagged⟩ =>
    let n : Node := ⟨kind, start, stop, children, field, named, missing, flagged⟩
    let inner := match n.scopeNames? text with
      | some names => names :: scopes
      | none => scopes
    if n.isReference then
      if resolves inner (text n) then []
      else [(text n, ⟨start, stop, kind = "identifier" && written⟩)]
    else freeAll text inner n.writtenField? children

/-- The free uses in a list of siblings, of which the first one in the field `target` is written. -/
def freeAll (text : Node → String) (scopes : List (List String)) (target : Option String) :
    List Node → List (String × Occurrence)
  | [] => []
  | c :: cs =>
    let written := target.isSome && c.field = target
    free text scopes written c ++ freeAll text scopes (if written then none else target) cs

end

/-- The names that the program holds, each with the word of its first declaration. -/
def programNames (text : Node → String) (root : Node) : List (String × String) :=
  ((groupBy (fun d => text d.name) (Node.hoistedAll root.children)).map fun g =>
    (g.1, g.2.head?.map (·.keyword.word text) |>.getD ""))

/-- The words that declare a name for all scripts. -/
def isShared (word : String) : Bool := word = "var" || word = "function"

/-- The declarations and free names of a script. -/
def analyze (text : Node → String) (root : Node) : Analysis :=
  let program := programNames text root
  let scopes := [program.map (·.1)]
  let uses :=
    if root.isReference then
      if resolves scopes (text root) then [] else [(text root, ⟨root.start, root.stop, false⟩)]
    else freeAll text scopes root.writtenField? root.children
  { declarations := (program.filter fun p => isShared p.2).map (·.1)
    globals := (groupBy (·.1) uses).map fun g => ⟨g.1, g.2.map (·.2)⟩ }

/-- The nodes whose text the declarations at a node depend on. -/
def declarationSpellings (n : Node) : List Node :=
  n.declared.flatMap fun d =>
    d.name :: match d.keyword with
      | .fixed _ => []
      | .spelled k => [k]

mutual

/-- The nodes whose text the analysis reads; `used` tells whether uses count here. -/
def spellings (used : Bool) : Node → List Node
  | ⟨kind, start, stop, children, field, named, missing, flagged⟩ =>
    let n : Node := ⟨kind, start, stop, children, field, named, missing, flagged⟩
    declarationSpellings n ++ n.ownNames?.getD [] ++
      (if used && n.isReference then [n] else []) ++
      spellingsAll (used && !n.isReference) children

/-- The nodes whose text the analysis of a list of subtrees reads. -/
def spellingsAll (used : Bool) : List Node → List Node
  | [] => []
  | c :: cs => spellings used c ++ spellingsAll used cs

end

/-- The text of a node of a script; empty when it is not UTF-8. -/
def textOf (source : ByteArray) (n : Node) : String :=
  (Utf8.decode (n.bytes source)).toOption.getD ""

/-- The texts of nodes, unless one of them is not UTF-8. -/
def texts (source : ByteArray) (nodes : List Node) : Except Utf8.Fault (List String) :=
  nodes.mapM fun n => Utf8.decode (n.bytes source)

/-- The declarations and free names of a script, unless a name in it is not UTF-8. -/
def ofSource (source : ByteArray) (root : Node) : Except Utf8.Fault Analysis := do
  let nodes := (if root.isReference then [root] else []) ++
    spellingsAll (!root.isReference) root.children
  let _ ← texts source nodes
  return analyze (textOf source) root

/-- The names that a pattern binds, unless one of them is not UTF-8. -/
def bindingNames (source : ByteArray) (pattern : Node) : Except Utf8.Fault (List String) :=
  texts source pattern.bindings

end Scope

end ScriptModules
