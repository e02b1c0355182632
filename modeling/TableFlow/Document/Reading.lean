import TableFlow.Document.Vocabulary
import TableFlow.Json.Reader

/-!
# Reading shapes out of values

A reader takes a value and gives what it stands for, or refuses it.  Readers of containers are told how many levels
of nesting are still allowed, their `room`; a container that is met without room makes the document malformed.

A value is met in one of three modes, which differ in what they make of odd spellings of a chosen name and of lists
that are too long.
-/

namespace TableFlow.Document

/-- How a value is met: while its text is streamed, after it was held back, or built up in memory. -/
inductive Mode where
  | streamed
  | held
  | built
deriving DecidableEq

/-- A reader of one shape. -/
abbrev Reader (α : Type) := Json.Value → Except Reject α

/-- How deep a whole document may nest. -/
def maxDepth : Nat := 127

/-- A reader for a container where no room is left for one. -/
def closed {α : Type} (wanted : Wanted) : Reader α
  | .array _ => .error .malformed
  | .object _ => .error .malformed
  | v => .error (.wrongShape v wanted)

/-- A string. -/
def string : Reader String
  | .string s => .ok s
  | v => .error (.wrongShape v .string)

/-- A truth value. -/
def flag : Reader Bool
  | .bool b => .ok b
  | v => .error (.wrongShape v .flag)

/-- A natural number of 64 bits. -/
def word64 : Reader UInt64
  | .int n =>
    if n < 0 then .error (.mismatch (.negative n))
    else if n < UInt64.size then .ok (.ofNat n.toNat)
    else .error (.wrongShape (.int n) .word64)
  | v => .error (.wrongShape v .word64)

/-- A shape, or `null` for nothing. -/
def nullable {α : Type} (read : Reader α) : Reader (Option α)
  | .null => .ok none
  | v => (read v).map some

/-- A list of things of one shape. -/
def list {α : Type} (item : Nat → Reader α) : Nat → Reader (List α)
  | 0 => closed .list
  | room + 1 => fun
    | .array items => items.mapM (item room)
    | v => .error (.wrongShape v .list)

/-- An object whose member names are free. -/
def map {α : Type} (item : Nat → Reader α) : Nat → Reader (List (String × α))
  | 0 => closed .map
  | room + 1 => fun
    | .object members => members.mapM fun (name, v) => (item room v).map (name, ·)
    | v => .error (.wrongShape v .map)

/-- The value beside the name in the long form of a chosen name: nothing, in a held value also an empty object. -/
def noContent (mode : Mode) : Reader Unit
  | .null => .ok ()
  | .object [] => if mode = .held then .ok () else .error (.wrongShape (.object []) .unit)
  | v => .error (.wrongShape v .unit)

/-- A name with the value beside it, in the long form. -/
def longChoice {α : Type} (w : Vocabulary α) (mode : Mode) (name : String) (v : Json.Value) : Except Reject α := do
  let a ← w.find name
  noContent mode v
  .ok a

/-- One of several names, either by itself or as the name of an object's one member.  In a text that is streamed the
first member is read before it shows that there are more, and with more members, or any other start, the text is no
JSON that the name could be read from. -/
def choice {α : Type} (w : Vocabulary α) (mode : Mode) (room : Nat) : Reader α
  | .string name => w.find name
  | .object members =>
    match room, members, mode with
    | 0, _, _ => .error .malformed
    | _ + 1, [(name, v)], mode => longChoice w mode name v
    | _ + 1, (name, v) :: _ :: _, .streamed => do
      let _ ← longChoice w .streamed name v
      .error .malformed
    | _ + 1, [], .streamed => .error .malformed
    | _ + 1, _, _ => .error (.mismatch .notSingle)
  | v => .error (if mode = .streamed then .malformed else .wrongShape v .choice)

/-- A whole text. -/
def ofText {α : Type} (read : Nat → Reader α) (text : String) : Except Reject α :=
  match Json.Value.ofText? text with
  | some v => read maxDepth v
  | none => .error .malformed

end TableFlow.Document
