import ScriptModules.Config.Problem
import ScriptModules.Config.Value

/-!
# Reading single values

A number, a truth value, a text or a list may be given in several forms. Which forms count is not
for the options to say: they are read by any `Coercion`. All that they rely on is that a value in
its own form is read as itself (`Coercion.Faithful`).
-/

namespace ScriptModules

/-- The rules by which a piece of data is read as a whole number, a truth value, a text or the items
of a list. -/
structure Coercion where
  int : Value → Except ProblemKind Int
  bool : Value → Except ProblemKind Bool
  text : Value → Except ProblemKind String
  items : Value → Except ProblemKind (List Value)

/-- Values in their own form are read as themselves. -/
structure Coercion.Faithful (rules : Coercion) : Prop where
  int : ∀ n, rules.int (.int n) = .ok n
  bool : ∀ b, rules.bool (.bool b) = .ok b
  text : ∀ s, rules.text (.text s) = .ok s
  items : ∀ l, rules.items (.list l) = .ok l

end ScriptModules
