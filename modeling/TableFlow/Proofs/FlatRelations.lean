import TableFlow.Catalog.Document
import TableFlow.Proofs.RoundTrip

/-!
# Flat relations and what they stand for

A flat relation stands for a relation exactly if it is `Whole`: all parts of a junction are given where the type is
many-to-many, and none elsewhere.  Taking apart and putting together are inverse to each other, so a relation that
was read from a text is the relation of its own text (`Relation.record_correspondence`).
-/

namespace TableFlow

open Document (Layout Mode Stable)
open Document.Layout (ofMembers_field ofMembers_four ofMembers_optional ofMembers_seq)
open Json (Value)

/-- All parts of a junction are there in a many-to-many relation, and none in another one. -/
def RelationRecord.Whole (d : RelationRecord) : Prop :=
  (d.type = .manyToMany ∧ d.joinTable.isSome ∧ d.joinColumn1.isSome ∧ d.joinColumn2.isSome) ∨
    (d.type ≠ .manyToMany ∧ d.joinTable.isNone ∧ d.joinColumn1.isNone ∧ d.joinColumn2.isNone)

instance (d : RelationRecord) : Decidable d.Whole :=
  inferInstanceAs (Decidable (_ ∨ _))

/-! ### Taking apart and putting together -/

namespace Relation

private theorem whole_record (r : Relation) : r.record.Whole := by
  obtain ⟨id, kind, table1, column1, table2, column2⟩ := r
  cases kind with
  | oneToOne => exact .inr ⟨RelationType.noConfusion, rfl, rfl, rfl⟩
  | oneToMany => exact .inr ⟨RelationType.noConfusion, rfl, rfl, rfl⟩
  | manyToMany junction => exact .inl ⟨rfl, rfl, rfl, rfl⟩

private theorem relation_record (r : Relation) : r.record.relation = .ok r := by
  obtain ⟨id, kind, table1, column1, table2, column2⟩ := r
  cases kind <;> rfl

end Relation

namespace RelationRecord

private theorem record_of_relation_eq_ok {d : RelationRecord} {r : Relation} (h : d.relation = .ok r) :
    r.record = d := by
  obtain ⟨kind, hkind, hr⟩ := bind_eq_ok_iff.1 h
  cases hr
  obtain ⟨id, type, table1, column1, table2, column2, joinTable, joinColumn1, joinColumn2⟩ := d
  dsimp only [RelationRecord.kind] at hkind
  split at hkind <;> cases hkind <;> rfl

private theorem exists_relation_of_whole {d : RelationRecord} (h : d.Whole) : ∃ r, d.relation = .ok r := by
  obtain ⟨id, type, table1, column1, table2, column2, joinTable, joinColumn1, joinColumn2⟩ := d
  rcases h with ⟨htype, htable, hcolumn1, hcolumn2⟩ | ⟨htype, htable, hcolumn1, hcolumn2⟩
  · obtain ⟨table, rfl⟩ := Option.isSome_iff_exists.1 htable
    obtain ⟨first, rfl⟩ := Option.isSome_iff_exists.1 hcolumn1
    obtain ⟨second, rfl⟩ := Option.isSome_iff_exists.1 hcolumn2
    obtain rfl : type = .manyToMany := htype
    exact ⟨_, rfl⟩
  · obtain rfl : joinTable = none := Option.isNone_iff_eq_none.1 htable
    obtain rfl : joinColumn1 = none := Option.isNone_iff_eq_none.1 hcolumn1
    obtain rfl : joinColumn2 = none := Option.isNone_iff_eq_none.1 hcolumn2
    cases type with
    | oneToOne => exact ⟨_, rfl⟩
    | oneToMany => exact ⟨_, rfl⟩
    | manyToMany => exact absurd rfl htype

private theorem exists_relation_iff {d : RelationRecord} : (∃ r, d.relation = .ok r) ↔ d.Whole := by
  constructor
  · rintro ⟨r, hr⟩
    rw [← record_of_relation_eq_ok hr]
    exact r.whole_record
  · exact exists_relation_of_whole

end RelationRecord

/-! ### Documents of relations -/

private theorem RelationType.vocabulary_finds : RelationType.vocabulary.Finds := by
  intro t
  cases t <;> rfl

/-- Every combination of present and absent parts is read again. -/
private theorem RelationRecord.stable_read (mode : Mode) (room : Nat) : Stable (read mode room) json room := by
  refine Layout.Stable.reader (fun room d hd => ?_) _ mode room
  obtain ⟨_, joinColumn2, hd₈, hjoinColumn2, rfl⟩ := hd.seq
  obtain ⟨_, joinColumn1, hd₇, hjoinColumn1, rfl⟩ := hd₈.seq
  obtain ⟨_, joinTable, hd₆, hjoinTable, rfl⟩ := hd₇.seq
  obtain ⟨_, column2, hd₅, hcolumn2, rfl⟩ := hd₆.seq
  obtain ⟨_, table2, hd₄, htable2, rfl⟩ := hd₅.seq
  obtain ⟨id, type, table1, column1, hid, htype, htable1, hcolumn1, rfl⟩ := hd₄.four
  have hid := hid.required (RelationId.stable_read room)
  have htype := htype.required (Document.stable_choice RelationType.vocabulary_finds mode room)
  have htable1 := htable1.required (TableId.stable_read room)
  have hcolumn1 := hcolumn1.required (Document.stable_string room)
  have htable2 := htable2.required (TableId.stable_read room)
  have hcolumn2 := hcolumn2.required (Document.stable_string room)
  have hjoinTable := hjoinTable.optional (TableId.stable_read room) fun _ => Value.noConfusion
  have hjoinColumn1 := hjoinColumn1.optional (Document.stable_string room) fun _ => Value.noConfusion
  have hjoinColumn2 := hjoinColumn2.optional (Document.stable_string room) fun _ => Value.noConfusion
  constructor
  · refine ofMembers_seq (ofMembers_seq (ofMembers_seq (ofMembers_seq (ofMembers_seq
      (ofMembers_four (ofMembers_field ?_ hid.1) (ofMembers_field ?_ htype.1) (ofMembers_field ?_ htable1.1)
        (ofMembers_field ?_ hcolumn1.1) RelationRecord.mk)
      (ofMembers_field ?_ htable2.1)) (ofMembers_field ?_ hcolumn2.1))
      (ofMembers_optional (fun a h => (hjoinTable a h).1) ?_))
      (ofMembers_optional (fun a h => (hjoinColumn1 a h).1) ?_))
      (ofMembers_optional (fun a h => (hjoinColumn2 a h).1) ?_)
    all_goals cases joinTable <;> cases joinColumn1 <;> cases joinColumn2 <;> rfl
  · simp only [List.forall_mem_append, List.forall_mem_cons]
    exact ⟨⟨⟨⟨hid.2, htype.2, htable1.2, hcolumn1.2, htable2.2, hcolumn2.2, fun _ h => absurd h List.not_mem_nil⟩,
      sound_optionalMember fun a h => (hjoinTable a h).2⟩, sound_optionalMember fun a h => (hjoinColumn1 a h).2⟩,
      sound_optionalMember fun a h => (hjoinColumn2 a h).2⟩

private theorem Relation.stable_read (mode : Mode) (room : Nat) : Stable (read mode room) json room := by
  intro v r hv h
  obtain ⟨d, hd, hr⟩ := bind_eq_ok_iff.1 h
  have hrelation : d.relation = .ok r := by
    split at hr <;> cases hr
    assumption
  obtain rfl : r.record = d := RelationRecord.record_of_relation_eq_ok hrelation
  obtain ⟨hread, hsound⟩ := RelationRecord.stable_read mode room v _ hv hd
  refine ⟨bind_eq_ok_iff.2 ⟨_, hread, ?_⟩, hsound⟩
  rw [hrelation]

/-- Flat relations that stand for a relation are those that suit their type, each relation is taken apart to its own
flat relation, and put together again from it, and it is read from its own text. -/
theorem Relation.record_correspondence :
    (∀ d : RelationRecord, (∃ r, d.relation = .ok r) ↔ d.Whole) ∧
      (∀ (d : RelationRecord) r, d.relation = .ok r → r.record = d) ∧
      (∀ r : Relation, r.record.relation = .ok r) ∧
      ∀ mode text r, Document.ofText (read mode) text = .ok r → Document.ofText (read mode) r.json.text = .ok r := by
  exact ⟨fun d => RelationRecord.exists_relation_iff, fun d r h => RelationRecord.record_of_relation_eq_ok h,
    relation_record, fun mode text r h => (stable_read mode Document.maxDepth).ofText h⟩

/-- A list in place of an object; two parts of a junction are not enough. -/
theorem Relation.record_correspondence_attends :
    let r : Relation := ⟨⟨"attends"⟩, .manyToMany ⟨⟨"e"⟩, "student", "course"⟩, ⟨"s"⟩, "sid", ⟨"c"⟩, "cid"⟩
    let text := "[\"attends\", \"many_to_many\", \"s\", \"sid\", \"c\", \"cid\", \"e\", \"student\", \"course\"]"
    (Document.ofText (read .streamed) text = .ok r ∧ Document.ofText (read .streamed) r.json.text = .ok r) ∧
      r.record.relation = .ok r ∧ ¬∃ r', { r.record with joinColumn2 := none }.relation = .ok r' := by
  intro r text
  have hr : Document.ofText (read .streamed) text = .ok r := toOption_eq_some_iff.1 (by decide +kernel)
  obtain ⟨hwhole, -, hrecord, hread⟩ := record_correspondence
  exact ⟨⟨hr, hread _ _ _ hr⟩, hrecord r, mt (hwhole _).1 (by decide)⟩

end TableFlow
