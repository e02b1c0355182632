import TableFlow.Pipeline.FlatName
import TableFlow.Script.Basic

/-!
# Relations as joins

A relate step joins the table of its alias to the rows at hand.  One side of the relation is the target, which is
joined in with its columns renamed; the other is the base, whose columns are among the rows already.  A many-to-many
relation takes two joins, the first to its junction, and a selection that drops the junction's columns again.
-/

namespace TableFlow

/-- What a relation starts at. -/
inductive JoinBase where
  /-- The root table of the pipeline. -/
  | root (table : Table)
  /-- The table of an earlier alias. -/
  | joined (a : RelationAlias)
deriving DecidableEq

namespace JoinBase

/-- The qualifier of the base's columns. -/
def qualifier : JoinBase → Qualifier
  | root table => table.qualifier
  | joined a => .joined a.label

/-- The table of the base. -/
def table : JoinBase → TableId
  | root table => table.id
  | joined a => a.table

end JoinBase

/-- A table with its columns under flat names. -/
def Table.flattened (t : Table) (q : Qualifier) (columns : List Column) : FlatTable :=
  ⟨t.schema, t.externalName, columns.map fun c => (q.flat c.name, c.name)⟩

/-- A relate step that was compiled: its transforms and the columns that it adds. -/
structure Joined where
  transforms : List Transform
  columns : List ColumnRef

/-- The joins of a relation that leads to the table `target`, of which `columns` are known; `visible` are the
columns of the rows at hand. -/
def Relation.joins (r : Relation) (catalog : Catalog) (label : String) (base : JoinBase) (target : Table)
    (columns : List Column) (visible : List ColumnRef) : Except Cause (List Transform) :=
  let joined := Qualifier.joined label
  let table := target.flattened joined columns
  match r.kind with
  | .manyToMany junction => do
    let link ← catalog.table junction.table
    let kept ← flatNames catalog.tables visible
    let linkColumns ← catalog.tableColumns link.id
    let between := Qualifier.junction label
    .ok [
      .join between.text (link.flattened between linkColumns) (base.qualifier.flat r.column1)
        (between.flat junction.column1),
      .join joined.text table (between.flat junction.column2) (joined.flat r.column2),
      .select (kept ++ table.names)]
  | _ => .ok [.join joined.text table (base.qualifier.flat r.column1) (joined.flat r.column2)]

/-- The joins that an alias stands for. -/
def RelationAlias.joined (a : RelationAlias) (catalog : Catalog) (base : JoinBase) (visible : List ColumnRef) :
    Except Cause Joined := do
  let relation ← catalog.relation a.relation
  let target ← catalog.table a.table
  let columns ← catalog.tableColumns target.id
  let transforms ← (relation.towards target.id).joins catalog a.label base target columns visible
  .ok ⟨transforms, columns.map fun c => (ColumnRef.ofTable target.id c.name).under a⟩

end TableFlow
