import TableFlow.Pipeline.Reading
import TableFlow.Pipeline.Writing
import TableFlow.TableQuery.Basic

/-!
# Documents of table queries

How requests for a table are read from JSON and written as JSON.  The parts of a request are read like those of a
pipeline, but from the text itself and not from a step that was held back; absent parts are written as `null`.
-/

namespace TableFlow

open Document (Layout Mode Reader)
open Document.Layout (optional)

namespace TableRequest

/-- The fields of a request. -/
def layout (mode : Mode) (room : Nat) : Layout TableRequest :=
  TableRequest.mk <$> optional "filter" (Filter.read mode room) <*> optional "order" (Order.read mode room)
    <*> optional "take" (Take.read mode room)

/-- A request is a record. -/
def read (mode : Mode) : Nat → Reader TableRequest :=
  Layout.reader "TableQueryRequest" mode (layout mode)

/-- The request that a text describes. -/
def ofText (text : String) : Except Document.Reject TableRequest :=
  Document.ofText (read .streamed) text

/-- The document of a request. -/
def json (r : TableRequest) : Json.Value :=
  .object [("filter", r.filter.elim .null fun f => .object f.members),
    ("order", r.order.elim .null fun o => .object o.members),
    ("take", r.take.elim .null fun t => .object t.members)]

/-- The text of a request. -/
def text (r : TableRequest) : String :=
  r.json.text

end TableRequest

end TableFlow
