import ScriptModules.Tree.Node

/-!
# Patterns

The left side of an assignment and the parameters of an arrow function are read as expressions
before the token that tells what they are. `target?` takes the tree of such an expression to the
tree of the pattern with the same text.

An object literal may hold a name with a default value (`object_assignment_pattern`) only if it
becomes a pattern; `hasLooseDefault` finds one that did not.
-/

namespace ScriptModules.Script

/-- The pattern that is called `kind` as an expression. -/
def patternKind (kind : String) : Option String :=
  match kind with
  | "identifier" | "undefined" | "member_expression" | "subscript_expression" | "object_pattern"
  | "array_pattern" | "object_assignment_pattern" => some kind
  | "object" => some "object_pattern"
  | "array" => some "array_pattern"
  | "spread_element" => some "rest_pattern"
  | "pair" => some "pair_pattern"
  | "assignment_expression" => some "assignment_pattern"
  | "shorthand_property_identifier" => some "shorthand_property_identifier_pattern"
  | _ => none

mutual

/-- The pattern with the text of an expression, or of a part of an object or array literal. -/
def target? : Node → Option Node
  | ⟨kind, start, stop, children, field, named, missing, flagged⟩ =>
    let inner :=
      if kind = "object" ∨ kind = "array" ∨ kind = "spread_element" then targets? children
      else if kind = "pair" then pairTargets? children
      else if kind = "assignment_expression" then
        -- The left side is a pattern already, unless it stands in parentheses.
        if children.any fun c => c.field = some "left" && c.kind = "parenthesized_expression" then
          none
        else some children
      else some children
    match patternKind kind, inner with
    | some kind, some children => some ⟨kind, start, stop, children, field, named, missing, flagged⟩
    | _, _ => none

/-- The patterns of a list of expressions. -/
def targets? : List Node → Option (List Node)
  | [] => some []
  | c :: cs =>
    match target? c, targets? cs with
    | some c, some cs => some (c :: cs)
    | _, _ => none

/-- The parts of a pair whose value is taken as a pattern. -/
def pairTargets? : List Node → Option (List Node)
  | [] => some []
  | c :: cs =>
    match (if c.field = some "value" then target? c else some c), pairTargets? cs with
    | some c, some cs => some (c :: cs)
    | _, _ => none

end

/-- The pattern on the left side of an assignment. -/
def assignable? (n : Node) : Option Node :=
  if ["identifier", "undefined", "member_expression", "subscript_expression", "object",
      "array"].contains n.kind then target? n
  else none

mutual

/-- Does an object literal in the tree hold a name with a default value? -/
def hasLooseDefault : Node → Bool
  | ⟨kind, _, _, children, _, _, _, _⟩ =>
    (kind = "object" && children.any (·.kind = "object_assignment_pattern")) ||
      anyLooseDefault children

/-- Does an object literal in one of the trees hold a name with a default value? -/
def anyLooseDefault : List Node → Bool
  | [] => false
  | c :: cs => hasLooseDefault c || anyLooseDefault cs

end

end ScriptModules.Script
