import TableFlow.Failure
import TableFlow.Json.Value
import TableFlow.Number.Decimal
import TableFlow.Text.Quoted

/-!
# Documents that do not fit

Why a document is refused: its text is no JSON that stands for values, or a value has not the shape that is wanted in
its place.  The wording of each `Mismatch` is fixed in `Mismatch.text`.
-/

namespace TableFlow.Document

/-- What is wanted in a place of a document. -/
inductive Wanted where
  | string
  | flag
  | word64
  | list
  | map
  | unit
  | record (name : String)
  /-- A step, whose type is one of its own members. -/
  | step
  | stepType
  /-- One of several names. -/
  | choice
deriving DecidableEq

/-- How a wanted shape is called. -/
def Wanted.phrase : Wanted → String
  | .string => "a string"
  | .flag => "a boolean"
  | .word64 => "u64"
  | .list => "a sequence"
  | .map => "a map"
  | .unit => "unit"
  | .record name => s!"struct {name}"
  | .step => "internally tagged enum Step"
  | .stepType => "variant identifier"
  | .choice => "string or map"

/-- How a value is called when another shape is wanted. -/
def foundText : Json.Value → String
  | .null => "null"
  | .bool b => s!"boolean `{b}`"
  | .int n => s!"integer `{n}`"
  | .double d => s!"floating point `{d.scientific}`"
  | .string s => s!"string {Text.quote s}"
  | .array _ => "sequence"
  | .object _ => "map"
  | .unreadable => "unreadable value"

/-- Why a value does not fit its place. -/
inductive Mismatch where
  | missingField (name : String)
  | duplicateField (name : String)
  /-- A name that is none of those that may stand here. -/
  | unknownName (name : String) (known : List String)
  | wrongShape (found : Json.Value) (wanted : Wanted)
  | negative (n : Int)
  /-- A chosen name is given as an object that has not exactly one member. -/
  | notSingle
  /-- A list of fields ends in front of a field that has to be given. -/
  | tooShort (length : Nat) (name : String) (size : Nat)
  | tooLong (length size : Nat)
  /-- No reading of a value that may be given in several ways. -/
  | noReading (name : String)
  /-- The parts of the document contradict each other. -/
  | refused (failure : Failure)

/-- A number of things. -/
def countText (n : Nat) (one many : String) : String :=
  s!"{n} " ++ if n = 1 then one else many

/-- The names that may stand in a place. -/
def knownText : List String → String
  | [a, b] => s!"`{a}` or `{b}`"
  | names => "one of " ++ ", ".intercalate (names.map fun name => s!"`{name}`")

/-- The sentence for a mismatch. -/
def Mismatch.text : Mismatch → String
  | missingField name => s!"missing field `{name}`"
  | duplicateField name => s!"duplicate field `{name}`"
  | unknownName name known => s!"unknown variant `{name}`, expected " ++ knownText known
  | wrongShape found wanted => s!"invalid type: {foundText found}, expected {wanted.phrase}"
  | negative n => s!"invalid value: integer `{n}`, expected u64"
  | notSingle => "invalid value: map, expected map with a single key"
  | tooShort length name size =>
    s!"invalid length {length}, expected struct {name} with " ++ countText size "element" "elements"
  | tooLong length size =>
    s!"invalid length {length}, expected " ++ countText size "element" "elements" ++ " in sequence"
  | noReading name => s!"data did not match any variant of untagged enum {name}"
  | refused failure => failure.text

/-- Why a document is refused. -/
inductive Reject where
  | malformed
  | mismatch (m : Mismatch)

namespace Reject

/-- The sentence for a refusal. -/
def text : Reject → String
  | malformed => "invalid JSON"
  | mismatch m => m.text

/-- A value stands where another shape is wanted; an unreadable value fits nowhere. -/
def wrongShape (found : Json.Value) (wanted : Wanted) : Reject :=
  match found with
  | .unreadable => malformed
  | found => mismatch (.wrongShape found wanted)

end Reject

end TableFlow.Document
