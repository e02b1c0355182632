import TableFlow.Document.Placed
import TableFlow.Document.Reading

/-!
# Records

A record is given as an object, its fields being members in any order, or as a list of its fields in their order.
A `Layout` is a list of fields with the readers of their values; layouts are put together with `<*>`.

In an object, members that are no field are passed over without a look.  A field that is missing takes its default,
and is refused without one, behind everything else; a field that is given twice is refused at the second.  In a list
the fields at the end may be missing if they have a default.
-/

namespace TableFlow.Document

/-- The members of a name, with their places. -/
def occurrences (name : String) (members : List (String × Json.Value)) : List (Nat × Json.Value) :=
  members.zipIdx.filterMap fun (member, place) => if member.1 = name then some (place, member.2) else none

/-- Some fields of a record, in order. -/
structure Layout (α : Type) where
  size : Nat
  /-- Reads the fields out of the members of an object. -/
  ofMembers : List (String × Json.Value) → Placed α
  /-- Reads the fields out of a list from a place on; `short` refuses a list that ends at a place. -/
  ofItems : (short : Nat → Reject) → (place : Nat) → List Json.Value → Placed α

namespace Layout

/-- The value of one field. -/
def ofOccurrences {α : Type} (name : String) (absent : Option α) (read : Reader α) (ending : Nat) :
    List (Nat × Json.Value) → Placed α
  | [] => match absent with
    | some a => .ok a
    | none => .error (ending, .mismatch (.missingField name))
  | [(place, v)] => .placed place (read v)
  | (place, v) :: (again, _) :: _ => match read v with
    | .ok _ => .error (again, .mismatch (.duplicateField name))
    | .error e => .error (place, e)

/-- One field with the value that it has when it is missing. -/
def field {α : Type} (name : String) (absent : Option α) (read : Reader α) : Layout α where
  size := 1
  ofMembers members := ofOccurrences name absent read members.length (occurrences name members)
  ofItems short place items := match items, absent with
    | v :: _, _ => .placed place (read v)
    | [], some a => .ok a
    | [], none => .error (place, short place)

/-- A field that has to be given. -/
def required {α : Type} (name : String) (read : Reader α) : Layout α :=
  field name none read

/-- A field that may be missing and may be `null`. -/
def optional {α : Type} (name : String) (read : Reader α) : Layout (Option α) :=
  field name (some none) (nullable read)

/-- A field with a default. -/
def withDefault {α : Type} (name : String) (default : α) (read : Reader α) : Layout α :=
  field name (some default) read

instance : Functor Layout where
  map f l :=
    { size := l.size
      ofMembers := fun members => (l.ofMembers members).map f
      ofItems := fun short place items => (l.ofItems short place items).map f }

instance : Seq Layout where
  seq l r :=
    { size := l.size + (r ()).size
      ofMembers := fun members => (l.ofMembers members).join ((r ()).ofMembers members)
      ofItems := fun short place items =>
        (l.ofItems short place items).join ((r ()).ofItems short (place + l.size) (items.drop l.size)) }

/-- A record, which is itself a container. -/
def record {α : Type} (name : String) (mode : Mode) (l : Layout α) : Reader α
  | .object members => (l.ofMembers members).settle
  | .array items => do
    let a ← (l.ofItems (fun place => .mismatch (.tooShort place name l.size)) 0 items).settle
    if items.length ≤ l.size then .ok a
    else .error (if mode = .streamed then .malformed else .mismatch (.tooLong items.length l.size))
  | v => .error (.wrongShape v (.record name))

/-- A record with the layout that its fields have inside it. -/
def reader {α : Type} (name : String) (mode : Mode) (l : Nat → Layout α) : Nat → Reader α
  | 0 => closed (.record name)
  | room + 1 => (l room).record name mode

end Layout

end TableFlow.Document
