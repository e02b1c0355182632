import TableFlow.Compile.Join

/-!
# Reviews

A review looks for everything that is wrong with a pipeline, also for what a script would let pass: columns selected
twice, names taken, columns of the wrong type, and relations that do not lead where they are said to.  It keeps track
of the visible columns by their flat names and goes on after a fault; a column without a flat name is then not
visible, and a relate step with a fault adds neither columns nor an alias.
-/

namespace TableFlow

/-- A review under way. -/
structure Review where
  /-- The flat names of the columns at hand. -/
  visible : List String
  /-- The aliases that were introduced, in order. -/
  aliases : List RelationAlias
  /-- The faults that were found, in order. -/
  issues : List Cause

/-- The faults of parts that were tried. -/
def faults {α : Type} (results : List (Except Cause α)) : List Cause :=
  results.filterMap fun
    | .error cause => some cause
    | .ok _ => none

/-- What came out of the parts without a fault. -/
def successes {α : Type} (results : List (Except Cause α)) : List α :=
  results.filterMap Except.toOption

/-- The members of a list that stood in it before, each time that they come again. -/
def repeats : List String → List String → List String
  | _, [] => []
  | seen, name :: names => if name ∈ seen then name :: repeats seen names else repeats (name :: seen) names

namespace Review

/-- The review before the first step. -/
def start (root : Table) (columns : List Column) : Review :=
  ⟨columns.map fun c => root.qualifier.flat c.name, [], []⟩

/-- More faults. -/
def report (r : Review) (causes : List Cause) : Review :=
  { r with issues := r.issues ++ causes }

/-- The type of a column of a table, if it is known. -/
def columnType? (catalog : Catalog) (c : ColumnRef) : Option ColumnType :=
  match c.source with
  | .aggregate => none
  | .table id => (catalog.column? id c.name).map Column.type

/-- The faults of a condition: columns without a flat name, and a pattern for a column that is no text. -/
def ofCondition (catalog : Catalog) (c : Condition) : List Cause :=
  let right := match c.value with
    | .column other => [other.flatName catalog.tables]
    | .literal _ => []
  let typing := match c.operator.form, columnType? catalog c.column with
    | .pattern _, some .string => []
    | .pattern _, some type => [.notText c.operator c.column.name type]
    | _, _ => []
  faults (c.column.flatName catalog.tables :: right) ++ typing

/-- A selection, which makes its columns the visible ones. -/
def select (catalog : Catalog) (r : Review) (columns : List ColumnRef) : Review :=
  let names := columns.map (ColumnRef.flatName catalog.tables)
  { r.report (faults names ++ (repeats [] (successes names)).map .selectedTwice) with visible := successes names }

/-- An aggregate, whose group and result become the visible columns. -/
def aggregate (catalog : Catalog) (r : Review) (a : Aggregate) : Review :=
  let group := a.group.map (ColumnRef.flatName catalog.tables)
  let column := a.column.flatName catalog.tables
  let taken := if a.label ∈ r.visible then [.aggregateNameTaken a.label] else []
  let grouped := match column with
    | .ok name => if name ∈ successes group then [.groupedAndAggregated a.column.name] else []
    | .error _ => []
  let typing := match columnType? catalog a.column with
    | some type =>
      if a.operation.isNumeric ∧ ¬type.isNumeric then [.notNumeric a.operation a.column.name type] else []
    | none => []
  { r.report (faults (group ++ [column]) ++ taken ++ grouped ++ typing) with
    visible := successes group ++ [a.label] }

/-- What the relation of an alias starts at: the root table, or the earliest alias with the label of its base. -/
def base (r : Review) (root : Table) (a : RelationAlias) : Except Cause JoinBase :=
  match a.base? with
  | none => .ok (.root root)
  | some b =>
    match r.aliases.find? fun earlier => earlier.label = b.label with
    | some earlier => .ok (.joined earlier)
    | none => .error (.unknownAlias b.label)

/-- The columns of an alias's table, if its relation leads there from the base. -/
def connected (catalog : Catalog) (a : RelationAlias) (base : JoinBase) : Except Cause (List Column) := do
  let relation ← catalog.relation a.relation
  let target ← catalog.table a.table
  let columns ← catalog.tableColumns target.id
  if (relation.towards target.id).table1 = base.table then .ok columns
  else .error (.unconnected relation.id base.table target.id)

/-- A relation, which makes the columns of its table visible under the alias. -/
def relate (catalog : Catalog) (root : Table) (r : Review) (a : RelationAlias) : Review :=
  match r.base root a >>= connected catalog a with
  | .ok columns =>
    { r with
      visible := r.visible ++ columns.map fun c => (Qualifier.joined a.label).flat c.name
      aliases := r.aliases ++ [a] }
  | .error cause => r.report [cause]

/-- One more step. -/
def step (catalog : Catalog) (root : Table) (r : Review) : Step → Review
  | .root id => r.report [.secondRoot id]
  | .select columns => r.select catalog columns
  | .filter f => r.report (f.conditions.flatMap (ofCondition catalog))
  | .order o => r.report (faults (o.keys.map fun k => k.column.flatName catalog.tables))
  | .aggregate a => r.aggregate catalog a
  | .relate a => r.relate catalog root a
  | .take _ => r
  | .display => r

end Review

/-- Everything that is wrong with a pipeline, in the order of its steps.  Without a root table and its columns
nothing else is looked at. -/
def Pipeline.issues (p : Pipeline) (catalog : Catalog) : List Cause :=
  let start := do
    let root ← catalog.table p.root
    let columns ← catalog.tableColumns root.id
    .ok (root, columns)
  match start with
  | .ok (root, columns) => (p.steps.foldl (Review.step catalog root) (.start root columns)).issues
  | .error cause => [cause]

end TableFlow
