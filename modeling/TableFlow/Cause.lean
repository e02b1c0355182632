import TableFlow.Catalog.Vocabulary
import TableFlow.Failure
import TableFlow.Pipeline.Basic

/-!
# What can be wrong with a pipeline

Every way in which a pipeline or a table query can be at fault is a `Cause`.  A cause is reported as a `Failure`: its
reason and the hints that go with it.  Two causes carry advice for those who wanted the pipeline compiled, which a
mere review of the pipeline leaves out.
-/

namespace TableFlow

/-- A fault of a pipeline or a table query. -/
inductive Cause where
  | unknownTable (id : TableId)
  | unknownRelation (id : RelationId)
  /-- The columns of a table are not known. -/
  | notIntrospected (id : TableId)
  | noColumns (id : TableId)
  /-- A relation starts at an alias that no earlier step introduced. -/
  | unknownAlias (label : String)
  /-- A step names a root table. -/
  | secondRoot (id : TableId)
  | emptySelect
  | patternWithoutValue (operator : Operator)
  | patternAgainstColumn (operator : Operator)
  | takeOutOfBounds
  | selectedTwice (name : String)
  | aggregateNameTaken (name : String)
  | groupedAndAggregated (column : String)
  | notNumeric (operation : AggregateOperation) (column : String) (type : ColumnType)
  | notText (operator : Operator) (column : String) (type : ColumnType)
  /-- A relation does not lead from the base table to the target. -/
  | unconnected (relation : RelationId) (base target : TableId)
deriving DecidableEq

namespace Cause

/-- The reason that a cause is reported with. -/
def reason : Cause → Reason
  | unknownTable id => .notFound "table" id.text
  | unknownRelation id => .notFound "relation" id.text
  | notIntrospected id => .notFound "table schema" id.text
  | noColumns id => .simple s!"table `{id.text}` has no columns"
  | unknownAlias label => .notFound "relation alias" label
  | secondRoot id => .unexpected s!"`from` step for table `{id.text}`"
  | emptySelect => .simple "select step has no columns"
  | patternWithoutValue operator => .simple s!"`{operator.name}` needs a value"
  | patternAgainstColumn operator => .simple s!"`{operator.name}` matches against a text value, not a column"
  | takeOutOfBounds => .simple "take range is out of bounds"
  | selectedTwice name => .simple s!"column `{name}` is selected more than once"
  | aggregateNameTaken name => .simple s!"aggregate name `{name}` collides with an existing column"
  | groupedAndAggregated column => .simple s!"column `{column}` is both grouped and aggregated"
  | notNumeric operation column type =>
    .simple s!"`{operation.name}` needs a numeric column, but `{column}` is {type.name}"
  | notText operator column type => .simple s!"`{operator.name}` needs a text column, but `{column}` is {type.name}"
  | unconnected relation base target =>
    .simple s!"relation `{relation.text}` does not connect `{base.text}` to `{target.text}`"

/-- The hints that always go with a cause. -/
def hints : Cause → List String
  | notIntrospected _ => ["the table has not been introspected yet"]
  | emptySelect => ["select at least one column, or remove the step"]
  | takeOutOfBounds => ["offset and limit must add up to at most 18446744073709551615"]
  | notText _ _ _ => ["compare with `equal` instead"]
  | _ => []

/-- The hints for those who wanted the pipeline compiled. -/
def advice : Cause → List String
  | unknownAlias _ => ["a relation can only be based on one introduced by an earlier step"]
  | secondRoot _ => ["the root table is set by the pipeline's `from`"]
  | _ => []

/-- The report of a cause that stopped something. -/
def failure (c : Cause) : Failure :=
  ⟨c.reason, c.hints ++ c.advice⟩

/-- The report of a cause that a review found. -/
def issue (c : Cause) : Failure :=
  ⟨c.reason, c.hints⟩

end Cause

namespace Catalog

/-- The table of an id. -/
def table (c : Catalog) (id : TableId) : Except Cause Table :=
  match c.table? id with
  | some table => .ok table
  | none => .error (.unknownTable id)

/-- The relation of an id. -/
def relation (c : Catalog) (id : RelationId) : Except Cause Relation :=
  match c.relation? id with
  | some relation => .ok relation
  | none => .error (.unknownRelation id)

/-- The columns of a table, of which there is at least one. -/
def tableColumns (c : Catalog) (id : TableId) : Except Cause (List Column) :=
  match c.columns? id with
  | some [] => .error (.noColumns id)
  | some columns => .ok columns
  | none => .error (.notIntrospected id)

end Catalog

end TableFlow
