import TableFlow.Pipeline.Operator

/-!
# Scripts

A script declares one flow of rows after another, each reading from the one before, and ends in a main flow.  A flow
is a source followed by transforms.  Only what pipelines need is modelled.
-/

namespace TableFlow

/-- A part of a template. -/
inductive Piece where
  | text (s : String)
  /-- The place of a column. -/
  | column (name : String)
deriving DecidableEq

/-- A condition in SQL with places for columns. -/
abbrev Template := List Piece

namespace Template

/-- One more piece in front; two texts beside each other become one. -/
def push : Piece → Template → Template
  | .text s, .text t :: pieces => .text (s ++ t) :: pieces
  | p, pieces => p :: pieces

/-- The template of a list of pieces. -/
def ofPieces : List Piece → Template :=
  List.foldr push []

end Template

/-- A table of the database whose columns are renamed. -/
structure FlatTable where
  schema : String
  name : String
  /-- The columns in order, each with its new name in front. -/
  columns : List (String × String)
deriving DecidableEq

/-- The new names of the columns. -/
def FlatTable.names (t : FlatTable) : List String :=
  t.columns.map (·.1)

/-- A column to sort by. -/
structure SortKey where
  column : String
  descending : Bool
deriving DecidableEq

/-- What happens to the rows of a flow. -/
inductive Transform where
  /-- New columns, each with the column that it copies. -/
  | derive (columns : List (String × String))
  | select (columns : List String)
  | filter (condition : Template)
  | sort (keys : List SortKey)
  /-- One row for each group, or one row if there are no groups. -/
  | aggregate (group : List String) (operation : AggregateOperation) (column label : String)
  /-- All rows, each beside every row of a table that agrees with it, or beside none. -/
  | join (label : String) (table : FlatTable) (left right : String)
  /-- The rows from the first to the last one, counted from 1. -/
  | take (first : UInt64) (last : Option UInt64)
deriving DecidableEq

/-- Where the rows of a flow come from. -/
inductive Source where
  | table (schema name : String)
  | declaration (name : String)
deriving DecidableEq

/-- A source followed by transforms. -/
structure Flow where
  source : Source
  transforms : List Transform
deriving DecidableEq

/-- A flow with a name. -/
structure Declaration where
  name : String
  flow : Flow
deriving DecidableEq

/-- Declarations and the flow that is the result. -/
structure Script where
  declarations : List Declaration
  main : Flow
deriving DecidableEq

/-- The flow that renames the columns of a table. -/
def FlatTable.flow (t : FlatTable) : Flow :=
  ⟨.table t.schema t.name, [.derive t.columns, .select t.names]⟩

end TableFlow
