import TableFlow.Document.Vocabulary

/-!
# The words of pipelines

The operators, connectives, directions and aggregate operations that pipelines name, with their names in documents.
An operator also has a form, which says what stands to its right in a query.
-/

namespace TableFlow

open Document (Vocabulary)

/-- How the conditions of a filter are joined. -/
inductive Connective where
  | and
  | or
deriving DecidableEq

namespace Connective

/-- The names of connectives. -/
def vocabulary : Vocabulary Connective where
  all := [and, or]
  name
    | and => "and"
    | or => "or"

/-- The word in a query. -/
def sql : Connective → String
  | and => "AND"
  | or => "OR"

end Connective

/-- How an operator is written, the words being those of a query. -/
inductive OperatorForm where
  /-- Nothing stands to the right. -/
  | postfixed (words : List String)
  /-- A pattern stands to the right. -/
  | pattern (words : List String)
  /-- A value or a column stands to the right. -/
  | comparison (sign : String)
deriving DecidableEq

/-- What a condition asks of a column. -/
inductive Operator where
  | equal
  | notEqual
  | greaterThan
  | lessThan
  | greaterThanOrEqual
  | lessThanOrEqual
  | like
  | notLike
  | isNull
  | isNotNull
deriving DecidableEq

namespace Operator

/-- The names of operators. -/
def vocabulary : Vocabulary Operator where
  all := [equal, notEqual, greaterThan, lessThan, greaterThanOrEqual, lessThanOrEqual, like, notLike, isNull,
    isNotNull]
  name
    | equal => "equal"
    | notEqual => "not_equal"
    | greaterThan => "greater_than"
    | lessThan => "less_than"
    | greaterThanOrEqual => "greater_than_or_equal"
    | lessThanOrEqual => "less_than_or_equal"
    | like => "like"
    | notLike => "not_like"
    | isNull => "is_null"
    | isNotNull => "is_not_null"

/-- The name of an operator. -/
def name (o : Operator) : String :=
  vocabulary.name o

/-- The form of an operator. -/
def form : Operator → OperatorForm
  | equal => .comparison "="
  | notEqual => .comparison "<>"
  | greaterThan => .comparison ">"
  | lessThan => .comparison "<"
  | greaterThanOrEqual => .comparison ">="
  | lessThanOrEqual => .comparison "<="
  | like => .pattern ["LIKE"]
  | notLike => .pattern ["NOT", "LIKE"]
  | isNull => .postfixed ["IS", "NULL"]
  | isNotNull => .postfixed ["IS", "NOT", "NULL"]

end Operator

namespace OperatorForm

/-- How the form is called. -/
def name : OperatorForm → String
  | postfixed _ => "unary"
  | pattern _ => "pattern"
  | comparison _ => "infix"

/-- The operator as it is written in a query. -/
def sql : OperatorForm → String
  | postfixed words => " ".intercalate words
  | pattern words => " ".intercalate words
  | comparison sign => sign

end OperatorForm

/-- In which direction rows are sorted. -/
inductive Direction where
  | asc
  | desc
deriving DecidableEq

/-- The names of directions. -/
def Direction.vocabulary : Vocabulary Direction where
  all := [.asc, .desc]
  name
    | .asc => "asc"
    | .desc => "desc"

/-- How the values of a column are drawn together. -/
inductive AggregateOperation where
  | sum
  | count
  | average
  | min
  | max
deriving DecidableEq

namespace AggregateOperation

/-- The names of operations. -/
def vocabulary : Vocabulary AggregateOperation where
  all := [sum, count, average, min, max]
  name
    | sum => "sum"
    | count => "count"
    | average => "average"
    | min => "min"
    | max => "max"

/-- The name of an operation. -/
def name (o : AggregateOperation) : String :=
  vocabulary.name o

/-- The operation is for numbers alone. -/
def isNumeric : AggregateOperation → Bool
  | sum => true
  | average => true
  | _ => false

end AggregateOperation

end TableFlow
