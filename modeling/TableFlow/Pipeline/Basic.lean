import TableFlow.Catalog.Basic
import TableFlow.Pipeline.Literal
import TableFlow.Pipeline.Operator

/-!
# Pipelines

A pipeline is a root table and a list of steps, each of which turns the rows in front of it into other rows.  Steps
refer to columns by the table or the aggregate that they come from; a column of a table that was joined in also names
the relation alias under which the join was made.
-/

namespace TableFlow

/-- The name under which the columns of a joined table are visible, with the relation that leads to the table.  A
relation starts at the root table or at a table that an earlier alias stands for. -/
inductive RelationAlias where
  /-- From the root table; `explicit` when the alias says so by an empty base. -/
  | fromRoot (label : String) (relation : RelationId) (table : TableId) (explicit : Bool)
  /-- From the table of another alias. -/
  | chained (label : String) (relation : RelationId) (table : TableId) (base : RelationAlias)
deriving DecidableEq

namespace RelationAlias

/-- The name itself. -/
def label : RelationAlias → String
  | fromRoot label _ _ _ => label
  | chained label _ _ _ => label

/-- The relation that leads to the table. -/
def relation : RelationAlias → RelationId
  | fromRoot _ relation _ _ => relation
  | chained _ relation _ _ => relation

/-- The table that the alias stands for. -/
def table : RelationAlias → TableId
  | fromRoot _ _ table _ => table
  | chained _ _ table _ => table

/-- The alias at whose table the relation starts, if that is not the root table. -/
def base? : RelationAlias → Option RelationAlias
  | fromRoot _ _ _ _ => none
  | chained _ _ _ base => some base

end RelationAlias

/-- Where a column comes from. -/
inductive ColumnSource where
  /-- An earlier aggregate step. -/
  | aggregate
  | table (id : TableId)
deriving DecidableEq

namespace ColumnSource

/-- Aggregates are written as if they were a table with this id. -/
def ofText (text : String) : ColumnSource :=
  if text = "aggregate" then aggregate else table ⟨text⟩

/-- The text of a source. -/
def text : ColumnSource → String
  | aggregate => "aggregate"
  | table id => id.text

end ColumnSource

/-- A reference to a column. -/
structure ColumnRef where
  source : ColumnSource
  name : String
  /-- The alias under which the column's table was joined. -/
  relation : Option RelationAlias
deriving DecidableEq

namespace ColumnRef

/-- A column of a table. -/
def ofTable (id : TableId) (name : String) : ColumnRef :=
  ⟨.table id, name, none⟩

/-- The column that an aggregate step makes. -/
def ofAggregate (name : String) : ColumnRef :=
  ⟨.aggregate, name, none⟩

/-- The column as it is visible under an alias. -/
def under (c : ColumnRef) (label : RelationAlias) : ColumnRef :=
  { c with relation := some label }

end ColumnRef

/-- What stands to the right of an operator. -/
inductive Operand where
  | column (c : ColumnRef)
  | literal (value : Literal)
deriving DecidableEq

/-- One condition of a filter. -/
structure Condition where
  column : ColumnRef
  operator : Operator
  value : Operand
deriving DecidableEq

/-- The rows that meet all of the conditions, or any of them. -/
structure Filter where
  connective : Connective
  conditions : List Condition
deriving DecidableEq

/-- A column to sort by. -/
structure OrderKey where
  column : ColumnRef
  direction : Direction
deriving DecidableEq

/-- The sort columns, most important first. -/
structure Order where
  keys : List OrderKey
deriving DecidableEq

/-- One row for each group of rows, with the group's columns and one new column. -/
structure Aggregate where
  group : List ColumnRef
  operation : AggregateOperation
  column : ColumnRef
  label : String
deriving DecidableEq

/-- So many rows, behind so many others. -/
structure Take where
  limit : Option UInt64
  offset : Option UInt64
deriving DecidableEq

/-- One step of a pipeline. -/
inductive Step where
  /-- Names a root table, which only the pipeline itself may do. -/
  | root (table : TableId)
  | select (columns : List ColumnRef)
  | filter (f : Filter)
  | order (o : Order)
  | aggregate (a : Aggregate)
  | relate (a : RelationAlias)
  | take (t : Take)
  /-- A mark for those who show the pipeline; the rows stay as they are. -/
  | display
deriving DecidableEq

/-- A root table and steps. -/
structure Pipeline where
  root : TableId
  steps : List Step
deriving DecidableEq

/-- The pipeline cut to its first steps. -/
def Pipeline.take (p : Pipeline) (n : Nat) : Pipeline :=
  { p with steps := p.steps.take n }

end TableFlow
