import TableFlow.Catalog.Basic
import TableFlow.Document.Vocabulary
import TableFlow.Failure

/-!
# Flat relations

In documents a relation is flat: the parts of its junction are three fields beside the others, and it depends on the
kind whether they have to be there.  `RelationRecord.relation` puts a flat relation together and refuses junctions
that lack a part or stand where none belongs; `Relation.record` takes a relation apart.
-/

namespace TableFlow

open Document (Vocabulary)

/-- The kind of a relation without its junction. -/
inductive RelationType where
  | oneToOne
  | oneToMany
  | manyToMany
deriving DecidableEq

namespace RelationType

/-- The names of kinds. -/
def vocabulary : Vocabulary RelationType where
  all := [oneToOne, oneToMany, manyToMany]
  name
    | oneToOne => "one_to_one"
    | oneToMany => "one_to_many"
    | manyToMany => "many_to_many"

/-- The name of a kind. -/
def name (t : RelationType) : String :=
  vocabulary.name t

end RelationType

/-- A relation as documents hold it. -/
structure RelationRecord where
  id : RelationId
  type : RelationType
  table1 : TableId
  column1 : String
  table2 : TableId
  column2 : String
  joinTable : Option TableId
  joinColumn1 : Option String
  joinColumn2 : Option String
deriving DecidableEq

/-- How the junction of a flat relation does not suit its kind. -/
inductive JunctionFault where
  | lacking (id : RelationId)
  | stray (id : RelationId) (type : RelationType)
deriving DecidableEq

/-- The report of a fault. -/
def JunctionFault.failure : JunctionFault → Failure
  | lacking id =>
    .addHint "expected join_table, join_column_1 and join_column_2"
      (.of (.simple s!"relation `{id.text}` is many_to_many but lacks a junction table"))
  | stray id type => .of (.simple s!"relation `{id.text}` is {type.name} but declares a junction table")

namespace RelationRecord

/-- The kind of a relation with the junction that its record gives. -/
def kind (r : RelationRecord) : Except JunctionFault RelationKind :=
  match r.type, r.joinTable, r.joinColumn1, r.joinColumn2 with
  | .oneToOne, none, none, none => .ok .oneToOne
  | .oneToMany, none, none, none => .ok .oneToMany
  | .manyToMany, some table, some column1, some column2 => .ok (.manyToMany ⟨table, column1, column2⟩)
  | .manyToMany, _, _, _ => .error (.lacking r.id)
  | type, _, _, _ => .error (.stray r.id type)

/-- The relation of a record. -/
def relation (r : RelationRecord) : Except JunctionFault Relation := do
  let kind ← r.kind
  .ok ⟨r.id, kind, r.table1, r.column1, r.table2, r.column2⟩

end RelationRecord

namespace Relation

/-- The type that goes with a kind. -/
def type (r : Relation) : RelationType :=
  match r.kind with
  | .oneToOne => .oneToOne
  | .oneToMany => .oneToMany
  | .manyToMany _ => .manyToMany

/-- The junction of a many-to-many relation. -/
def junction? (r : Relation) : Option Junction :=
  match r.kind with
  | .manyToMany junction => some junction
  | _ => none

/-- The record of a relation. -/
def record (r : Relation) : RelationRecord where
  id := r.id
  type := r.type
  table1 := r.table1
  column1 := r.column1
  table2 := r.table2
  column2 := r.column2
  joinTable := r.junction?.map Junction.table
  joinColumn1 := r.junction?.map Junction.column1
  joinColumn2 := r.junction?.map Junction.column2

end Relation

end TableFlow
