import TableFlow.Document.Reading
import TableFlow.Pipeline.Basic

/-!
# Types of steps

A step in a document says by a name which type of step it is; the other fields depend on the type.
-/

namespace TableFlow

open Document (Reader Vocabulary)

/-- The types of steps. -/
inductive StepType where
  | root
  | select
  | filter
  | order
  | aggregate
  | relate
  | take
  | display
deriving DecidableEq

namespace StepType

/-- The names of types. -/
def vocabulary : Vocabulary StepType where
  all := [root, select, filter, order, aggregate, relate, take, display]
  name
    | root => "from"
    | select => "select"
    | filter => "filter"
    | order => "order"
    | aggregate => "aggregate"
    | relate => "relate"
    | take => "take"
    | display => "display"

/-- The name of a type. -/
def name (t : StepType) : String :=
  vocabulary.name t

/-- A type is given by its name and in no other way. -/
def read : Reader StepType
  | .string name => vocabulary.find name
  | v => .error (.wrongShape v .stepType)

end StepType

/-- The type of a step. -/
def Step.type : Step → StepType
  | root _ => .root
  | select _ => .select
  | filter _ => .filter
  | order _ => .order
  | aggregate _ => .aggregate
  | relate _ => .relate
  | take _ => .take
  | display => .display

end TableFlow
