import TableFlow.Catalog.Document
import TableFlow.Pipeline.StepType

/-!
# Reading pipelines

How pipelines and their parts are read from JSON.  A step and the right side of a condition are held back as a whole
before they are read: the type of a step may stand behind its fields, and a right side is first tried as a column and
then taken as a literal.  What is held back has to be readable throughout, also where nobody looks.
-/

namespace TableFlow

open Document (Layout Mode Reader)
open Document.Layout (optional required withDefault)

namespace RelationAlias

/-- The alias of its fields; `on` is absent, present without a base, or present with one. -/
def ofParts (label : String) (relation : RelationId) (table : TableId) : Option (Option RelationAlias) → RelationAlias
  | none => fromRoot label relation table false
  | some none => fromRoot label relation table true
  | some (some base) => chained label relation table base

/-- The fields of an alias whose base is read in a given way. -/
def layout (base : Reader (Option RelationAlias)) : Layout RelationAlias :=
  ofParts <$> required "as" Document.string <*> required "relation" RelationId.read
    <*> required "table" TableId.read <*> optional "on" base

/-- An alias is a record, and so is its base, which may hold another alias. -/
def read (mode : Mode) : Nat → Reader RelationAlias
  | 0 => Document.closed (.record "RelationAlias")
  | 1 => (layout (Document.closed (.record "RelationOn"))).record "RelationAlias" mode
  | room + 2 =>
    (layout ((optional "relation" (read mode room)).record "RelationOn" mode)).record "RelationAlias" mode

end RelationAlias

namespace ColumnRef

/-- The fields of a column reference. -/
def layout (mode : Mode) (room : Nat) : Layout ColumnRef :=
  ColumnRef.mk <$> required "table" (fun v => (Document.string v).map ColumnSource.ofText)
    <*> required "name" Document.string <*> optional "relation" (RelationAlias.read mode room)

/-- A column reference is a record. -/
def read (mode : Mode) : Nat → Reader ColumnRef :=
  Layout.reader "ColumnRef" mode (layout mode)

end ColumnRef

namespace Literal

/-- The literal that a value is; containers are none. -/
def ofValue? : Json.Value → Option Literal
  | .null => some null
  | .bool b => some (boolean b)
  | .int n => some (if n ≤ Int64.maxValue.toInt then integer (.ofInt n) else unsigned (.ofNat n.toNat))
  | .double d => some (float d)
  | .string s => some (string s)
  | _ => none

/-- A literal is held back before it is read. -/
def read (room : Nat) : Reader Literal := fun v =>
  if v.fits room then
    match ofValue? v with
    | some value => .ok value
    | none => .error (.mismatch (.noReading "Literal"))
  else .error .malformed

end Literal

namespace Operand

/-- The right side that a held value is: a column if it reads as one. -/
def ofHeld (room : Nat) (v : Json.Value) : Except Document.Reject Operand :=
  match ColumnRef.read .held room v with
  | .ok c => .ok (column c)
  | .error _ =>
    match Literal.ofValue? v with
    | some value => .ok (literal value)
    | none => .error (.mismatch (.noReading "FilterValue"))

/-- A right side is held back before it is read. -/
def read (room : Nat) : Reader Operand := fun v =>
  if v.fits room then ofHeld room v else .error .malformed

end Operand

namespace Condition

/-- The fields of a condition; the value is `null` when it is missing. -/
def layout (mode : Mode) (room : Nat) : Layout Condition :=
  Condition.mk <$> required "column" (ColumnRef.read mode room)
    <*> required "operator" (Document.choice Operator.vocabulary mode room)
    <*> withDefault "value" (.literal .null) (Operand.read room)

/-- A condition is a record. -/
def read (mode : Mode) : Nat → Reader Condition :=
  Layout.reader "FilterCondition" mode (layout mode)

end Condition

namespace Filter

/-- The fields of a filter. -/
def layout (mode : Mode) (room : Nat) : Layout Filter :=
  Filter.mk <$> required "logicalOperator" (Document.choice Connective.vocabulary mode room)
    <*> required "conditions" (Document.list (Condition.read mode) room)

/-- A filter is a record. -/
def read (mode : Mode) : Nat → Reader Filter :=
  Layout.reader "Filter" mode (layout mode)

end Filter

namespace OrderKey

/-- The fields of a sort column. -/
def layout (mode : Mode) (room : Nat) : Layout OrderKey :=
  OrderKey.mk <$> required "column" (ColumnRef.read mode room)
    <*> required "direction" (Document.choice Direction.vocabulary mode room)

/-- A sort column is a record. -/
def read (mode : Mode) : Nat → Reader OrderKey :=
  Layout.reader "OrderKey" mode (layout mode)

end OrderKey

namespace Order

/-- The only field of an order. -/
def layout (mode : Mode) (room : Nat) : Layout Order :=
  Order.mk <$> required "order" (Document.list (OrderKey.read mode) room)

/-- An order is a record. -/
def read (mode : Mode) : Nat → Reader Order :=
  Layout.reader "Order" mode (layout mode)

end Order

namespace Take

/-- The fields of a range of rows. -/
def layout : Layout Take :=
  Take.mk <$> optional "limit" Document.word64 <*> optional "offset" Document.word64

/-- A range of rows is a record. -/
def read (mode : Mode) : Nat → Reader Take :=
  Layout.reader "Take" mode fun _ => layout

end Take

namespace Aggregate

/-- The fields of an aggregate. -/
def layout (mode : Mode) (room : Nat) : Layout Aggregate :=
  Aggregate.mk <$> withDefault "group" [] (Document.list (ColumnRef.read mode) room)
    <*> required "operation" (Document.choice AggregateOperation.vocabulary mode room)
    <*> required "column" (ColumnRef.read mode room) <*> required "as" Document.string

end Aggregate

namespace Step

/-- The step of a type whose other fields are given, with room for `room` levels inside them. -/
def ofFields (room : Nat) (fields : Json.Value) : StepType → Except Document.Reject Step
  | .root => ((root <$> required "table" TableId.read).record "FromTable" .held) fields
  | .select =>
    ((select <$> required "select" (Document.list (ColumnRef.read .held) room)).record "Select" .held) fields
  | .filter => ((filter <$> Filter.layout .held room).record "Filter" .held) fields
  | .order => ((order <$> Order.layout .held room).record "Order" .held) fields
  | .aggregate => ((aggregate <$> Aggregate.layout .held room).record "Aggregate" .held) fields
  | .relate => ((relate <$> required "relation" (RelationAlias.read .held room)).record "Relate" .held) fields
  | .take => ((take <$> Take.layout).record "Take" .held) fields
  | .display => match fields with
    | .array (_ :: items) => .error (.mismatch (.tooLong (items.length + 1) 0))
    | _ => .ok display

/-- The step of a held value: its type is the member `type` or the first item. -/
def ofHeld (room : Nat) : Json.Value → Except Document.Reject Step
  | .object members => do
    let type ← ((required "type" StepType.read).ofMembers members).settle
    ofFields room (.object (members.filter fun m => m.1 ≠ "type")) type
  | .array [] => .error (.mismatch (.missingField "type"))
  | .array (v :: items) => do
    let type ← StepType.read v
    ofFields room (.array items) type
  | v => .error (.wrongShape v .step)

/-- A step is held back before it is read. -/
def read : Nat → Reader Step
  | 0 => Document.closed .step
  | room + 1 => fun v => if v.fits (room + 1) then ofHeld room v else .error .malformed

end Step

namespace Pipeline

/-- The fields of a pipeline. -/
def layout (room : Nat) : Layout Pipeline :=
  Pipeline.mk <$> required "from" TableId.read <*> withDefault "steps" [] (Document.list Step.read room)

/-- A pipeline is a record. -/
def read : Nat → Reader Pipeline :=
  Layout.reader "Pipeline" .streamed layout

/-- The pipeline that a text describes. -/
def ofText (text : String) : Except Document.Reject Pipeline :=
  Document.ofText read text

/-- The report of a text that describes no pipeline. -/
def rejection (r : Document.Reject) : Failure :=
  .of (.unexpected s!"pipeline document: {r.text}")

end Pipeline

end TableFlow
