/-!
# Problems with data

What is wrong with a piece of data that does not fit: where, and of which kind.
-/

namespace ScriptModules

/-- A step to a part of a piece of data. -/
inductive Step where
  | key (name : String)
  | index (i : Nat)
  deriving DecidableEq, Repr

/-- What is wrong with a value. -/
inductive ProblemKind where
  | notATable
  | unknownKey
  | notAnInt
  | unreadableInt
  | fractionalInt
  | infiniteInt
  | oversizedInt
  | tooSmall
  | below
  | notABool
  | unreadableBool
  | notAText
  | undecodableText
  | notAList
  | unknownChoice
  | badValue
  deriving DecidableEq, Repr

/-- The name under which a kind of problem is reported. -/
def ProblemKind.name : ProblemKind → String
  | .notATable => "model_type"
  | .unknownKey => "extra_forbidden"
  | .notAnInt => "int_type"
  | .unreadableInt => "int_parsing"
  | .fractionalInt => "int_from_float"
  | .infiniteInt => "finite_number"
  | .oversizedInt => "int_parsing_size"
  | .tooSmall => "greater_than"
  | .below => "greater_than_equal"
  | .notABool => "bool_type"
  | .unreadableBool => "bool_parsing"
  | .notAText => "string_type"
  | .undecodableText => "string_unicode"
  | .notAList => "list_type"
  | .unknownChoice => "literal_error"
  | .badValue => "value_error"

/-- Something wrong with a part of a piece of data. -/
structure Problem where
  place : List Step
  kind : ProblemKind
  deriving DecidableEq, Repr

/-- The text of a step. -/
def Step.text : Step → String
  | .key name => name
  | .index i => s!"{i}"

/-- A line about a problem. -/
def Problem.text (p : Problem) : String :=
  ".".intercalate (p.place.map Step.text) ++ ": " ++ p.kind.name

end ScriptModules
