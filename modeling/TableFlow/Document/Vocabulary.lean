import TableFlow.Document.Mismatch

/-!
# Names for choices

A choice among finitely many things is written as one of as many names.  A `Vocabulary` lists the things with their
names, in the order in which a refusal lists them.
-/

namespace TableFlow.Document

/-- Things with names. -/
structure Vocabulary (α : Type) where
  all : List α
  name : α → String

namespace Vocabulary

/-- All names, in order. -/
def names {α : Type} (w : Vocabulary α) : List String :=
  w.all.map w.name

/-- The thing of a name. -/
def find? {α : Type} (w : Vocabulary α) (name : String) : Option α :=
  w.all.find? fun a => w.name a == name

/-- The thing of a name, or a refusal of the name. -/
def find {α : Type} (w : Vocabulary α) (name : String) : Except Reject α :=
  match w.find? name with
  | some a => .ok a
  | none => .error (.mismatch (.unknownName name w.names))

end Vocabulary

end TableFlow.Document
