import TableFlow.Cause

/-!
# Flat names

Between two steps of a script a column has the flat name `qualifier__column`.  The qualifier is the name of its table
in the database or the alias under which the table was joined; a junction table has a qualifier of its own.  The
result of an aggregate keeps its bare name.
-/

namespace TableFlow

/-- What stands in front of a flat name. -/
inductive Qualifier where
  /-- A table, by its name in the database. -/
  | table (name : String)
  /-- A joined table, by the label of its alias. -/
  | joined (label : String)
  /-- The junction behind a joined table, by the label of the same alias. -/
  | junction (label : String)
deriving DecidableEq

namespace Qualifier

/-- The text of a qualifier. -/
def text : Qualifier → String
  | table name => name
  | joined label => label
  | junction label => label ++ "_join_table"

/-- The flat name of a column. -/
def flat (q : Qualifier) (column : String) : String :=
  q.text ++ "__" ++ column

end Qualifier

/-- The qualifier of a table's own columns. -/
def Table.qualifier (t : Table) : Qualifier :=
  .table t.externalName

/-- The flat name of a column reference.  An alias says all about its columns; only the columns of no alias need
their table. -/
def ColumnRef.flatName (tables : List Table) (c : ColumnRef) : Except Cause String :=
  match c.source, c.relation with
  | .aggregate, _ => .ok c.name
  | .table _, some a => .ok ((Qualifier.joined a.label).flat c.name)
  | .table id, none =>
    match tables.find? fun table => table.id = id with
    | some table => .ok (table.qualifier.flat c.name)
    | none => .error (.unknownTable id)

/-- The flat names of columns, or the fault of the first that has none. -/
def flatNames (tables : List Table) (columns : List ColumnRef) : Except Cause (List String) :=
  columns.mapM (ColumnRef.flatName tables)

end TableFlow
