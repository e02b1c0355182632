import TableFlow.Compile.Join
import TableFlow.Compile.Predicate
import TableFlow.Script.Text

/-!
# Pipelines as scripts

The root table becomes the first declaration of a script and every step but a display becomes the next one, which
reads from the one before.  The main flow reads from the last declaration and selects every column that is visible in
the end.
-/

namespace TableFlow

/-- The name of the declaration with a number. -/
def declarationName (n : Nat) : String :=
  "step_" ++ toString n

/-! ### Steps without joins -/

/-- The transform of a filter, if it has conditions. -/
def Filter.transforms (tables : List Table) (f : Filter) : Except Cause (List Transform) := do
  match ← f.predicate tables with
  | [] => .ok []
  | condition => .ok [.filter condition]

/-- A sort column under its flat name. -/
def OrderKey.sortKey (tables : List Table) (k : OrderKey) : Except Cause SortKey := do
  let column ← k.column.flatName tables
  .ok ⟨column, k.direction = .desc⟩

/-- The transform of an order, if it has sort columns. -/
def Order.transforms (tables : List Table) (o : Order) : Except Cause (List Transform) := do
  match ← o.keys.mapM (OrderKey.sortKey tables) with
  | [] => .ok []
  | keys => .ok [.sort keys]

/-- The transform of an aggregate. -/
def Aggregate.transforms (tables : List Table) (a : Aggregate) : Except Cause (List Transform) := do
  let group ← flatNames tables a.group
  let column ← a.column.flatName tables
  .ok [.aggregate group a.operation column a.label]

/-- The sum of two row numbers. -/
def addRows (m n : UInt64) : Except Cause UInt64 :=
  if m.toNat + n.toNat < UInt64.size then .ok (m + n) else .error .takeOutOfBounds

/-- The transform of a range of rows, if it leaves any out. -/
def Take.transforms (t : Take) : Except Cause (List Transform) :=
  let offset := t.offset.getD 0
  match t.limit with
  | some limit => do
    let first ← addRows offset 1
    let last ← addRows offset limit
    .ok [.take first (some last)]
  | none =>
    if 0 < offset then do
      let first ← addRows offset 1
      .ok [.take first none]
    else .ok []

/-! ### Scripts under construction -/

/-- A script under construction. -/
structure Progress where
  declarations : List Declaration
  /-- The columns of the last declaration. -/
  visible : List ColumnRef
  /-- The aliases that were introduced, in order. -/
  aliases : List RelationAlias

namespace Progress

/-- The root table under flat names. -/
def start (root : Table) (columns : List Column) : Progress where
  declarations := [⟨declarationName 0, (root.flattened root.qualifier columns).flow⟩]
  visible := columns.map fun c => .ofTable root.id c.name
  aliases := []

/-- The name of the last declaration. -/
def last (p : Progress) : String :=
  declarationName (p.declarations.length - 1)

/-- One more declaration, which reads from the last one. -/
def declare (p : Progress) (transforms : List Transform) : Progress :=
  { p with declarations :=
      p.declarations ++ [⟨declarationName p.declarations.length, ⟨.declaration p.last, transforms⟩⟩] }

/-- What the relation of an alias starts at: the root table, or the latest alias with the label of its base. -/
def base (p : Progress) (root : Table) (a : RelationAlias) : Except Cause JoinBase :=
  match a.base? with
  | none => .ok (.root root)
  | some b =>
    match p.aliases.reverse.find? fun earlier => earlier.label = b.label with
    | some earlier => .ok (.joined earlier)
    | none => .error (.unknownAlias b.label)

/-- One more step. -/
def step (catalog : Catalog) (root : Table) (p : Progress) : Step → Except Cause Progress
  | .display => .ok p
  | .root id => .error (.secondRoot id)
  | .select columns =>
    if columns.isEmpty then .error .emptySelect
    else do
      let names ← flatNames catalog.tables columns
      .ok { p.declare [.select names] with visible := columns }
  | .filter f => (f.transforms catalog.tables).map p.declare
  | .order o => (o.transforms catalog.tables).map p.declare
  | .take t => t.transforms.map p.declare
  | .aggregate a => do
    let transforms ← a.transforms catalog.tables
    .ok { p.declare transforms with visible := a.group ++ [.ofAggregate a.label] }
  | .relate a => do
    let base ← p.base root a
    let joined ← a.joined catalog base p.visible
    .ok { p.declare joined.transforms with
      visible := p.visible ++ joined.columns
      aliases := p.aliases ++ [a] }

/-- The script when no step is left. -/
def finish (catalog : Catalog) (p : Progress) : Except Cause Script := do
  let names ← flatNames catalog.tables p.visible
  .ok ⟨p.declarations, ⟨.declaration p.last, [.select names]⟩⟩

end Progress

namespace Pipeline

/-- The script of a pipeline, or the first fault that is in the way of one. -/
def script (p : Pipeline) (catalog : Catalog) : Except Cause Script := do
  let root ← catalog.table p.root
  let columns ← catalog.tableColumns root.id
  let progress ← p.steps.foldlM (Progress.step catalog root) (.start root columns)
  progress.finish catalog

/-- The text of a pipeline's script. -/
def scriptText (p : Pipeline) (catalog : Catalog) : Except Cause String :=
  (p.script catalog).map Script.text

end Pipeline

end TableFlow
