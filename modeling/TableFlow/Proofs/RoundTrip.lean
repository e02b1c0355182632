import TableFlow.Pipeline.Reading
import TableFlow.Pipeline.Writing
import TableFlow.Proofs.Documents
import TableFlow.TableQuery.Document

/-!
# Pipelines and requests that are read back

Every part of a pipeline is read again from the document that is written for it.  So a pipeline that was read from a
text, in whatever shape the format allows, is the pipeline of its own text, and the same holds for the requests of
table queries (`ofText_text`).
-/

namespace TableFlow

open Document (Layout Mode Reader Stable valuesOf)
open Document.Layout (optional required)
open Json (Value)

/-! ### Words and names -/

private theorem Connective.vocabulary_finds : Connective.vocabulary.Finds := by
  intro a
  cases a <;> rfl

private theorem Operator.vocabulary_finds : Operator.vocabulary.Finds := by
  intro a
  cases a <;> rfl

private theorem Direction.vocabulary_finds : Direction.vocabulary.Finds := by
  intro a
  cases a <;> rfl

private theorem AggregateOperation.vocabulary_finds : AggregateOperation.vocabulary.Finds := by
  intro a
  cases a <;> rfl

private theorem StepType.vocabulary_finds : StepType.vocabulary.Finds := by
  intro a
  cases a <;> rfl

theorem TableId.stable_read (room : Nat) : Stable TableId.read (fun id => .string id.text) room :=
  (Document.stable_string room).map fun _ => rfl

theorem RelationId.stable_read (room : Nat) : Stable RelationId.read (fun id => .string id.text) room :=
  (Document.stable_string room).map fun _ => rfl

private theorem ColumnSource.text_ofText (s : String) : (ofText s).text = s := by
  by_cases h : s = "aggregate"
  · rw [ofText, if_pos h, h]
    rfl
  · rw [ofText, if_neg h]
    rfl

private theorem ColumnSource.stable_read (room : Nat) :
    Stable (fun v => (Document.string v).map ColumnSource.ofText) (fun source => .string source.text) room :=
  (Document.stable_string room).map ColumnSource.text_ofText

theorem sound_optionalMember {α : Type} {name : String} {write : α → Value} {o : Option α} {room : Nat}
    (h : ∀ a, o = some a → (write a).Sound room) : ∀ m ∈ optionalMember name write o, m.2.Sound room := by
  cases o with
  | none => exact fun _ hm => absurd hm List.not_mem_nil
  | some a => exact List.forall_mem_singleton.2 (h a rfl)

/-- An optional field that is left out when there is nothing. -/
private theorem Document.Layout.Stable.optional {α : Type} {name : String} {read : Reader α} {write : α → Value}
    {room : Nat} (h : Document.Stable read write room) (hnull : ∀ a, write a ≠ .null) :
    (Layout.optional name read).Stable (optionalMember name write) room := by
  intro o ho
  have ho := ho.optional h hnull
  have hvalues : valuesOf name (optionalMember name write o) = (o.map write).toList := by
    cases o <;> simp [valuesOf, optionalMember]
  exact ⟨Layout.ofMembers_optional (fun a ha => (ho a ha).1) hvalues, sound_optionalMember fun a ha => (ho a ha).2⟩

/-! ### Aliases -/

namespace RelationAlias

/-- The document of a base, which is a record with one field. -/
def onJson (base : Option RelationAlias) : Value :=
  .object (optionalMember "relation" json base)

/-- The members of an alias of its fields. -/
def membersOfParts (label : String) (relation : RelationId) (table : TableId)
    (on : Option (Option RelationAlias)) : List (String × Value) :=
  names label relation table ++ optionalMember "on" onJson on

private theorem json_ofParts (label : String) (relation : RelationId) (table : TableId)
    (on : Option (Option RelationAlias)) :
    (ofParts label relation table on).json = .object (membersOfParts label relation table on) := by
  rcases on with _ | _ | base <;> rfl

private theorem json_ne_null (a : RelationAlias) : a.json ≠ .null := by
  cases a <;> exact Value.noConfusion

variable {room : Nat}

/-- An alias is read again if its base is. -/
private theorem stable_layout {base : Reader (Option RelationAlias)} (hbase : Stable base onJson room) (name : String)
    (mode : Mode) : Stable ((layout base).record name mode) json (room + 1) := by
  intro v a hv ha
  obtain ⟨label, relation, table, on, hlabel, hrelation, htable, hon, rfl⟩ := (Layout.reads_of_record hv ha).four
  have hlabel := hlabel.required (Document.stable_string room)
  have hrelation := hrelation.required (RelationId.stable_read room)
  have htable := htable.required (TableId.stable_read room)
  have hon := hon.optional hbase fun _ => Value.noConfusion
  rw [json_ofParts]
  constructor
  · refine Layout.record_object ?_ name mode
    refine Layout.ofMembers_four (Layout.ofMembers_field ?_ hlabel.1) (Layout.ofMembers_field ?_ hrelation.1)
      (Layout.ofMembers_field ?_ htable.1) (Layout.ofMembers_optional (fun a h => (hon a h).1) ?_) ofParts
    all_goals cases on <;> rfl
  · refine .object ?_
    simp only [membersOfParts, names, List.forall_mem_append, List.forall_mem_cons]
    exact ⟨⟨hlabel.2, hrelation.2, htable.2, fun _ h => absurd h List.not_mem_nil⟩,
      sound_optionalMember fun base h => (hon base h).2⟩

private theorem stable_read (mode : Mode) (room : Nat) : Stable (read mode room) json room := by
  fun_induction read mode room with
  | case1 => exact Document.stable_closed
  | case2 => exact stable_layout Document.stable_closed _ _
  | case3 room ih => exact stable_layout ((Document.Layout.Stable.optional ih json_ne_null).record _ _) _ _

end RelationAlias

/-! ### Columns and values -/

namespace ColumnRef

private theorem stable_read (mode : Mode) (room : Nat) : Stable (read mode room) json room := by
  refine Layout.Stable.reader (fun room c hc => ?_) _ mode room
  obtain ⟨source, name, relation, hsource, hname, hrelation, rfl⟩ := hc.three
  have hsource := hsource.required (ColumnSource.stable_read room)
  have hname := hname.required (Document.stable_string room)
  have hrelation := hrelation.optional (RelationAlias.stable_read mode room) RelationAlias.json_ne_null
  constructor
  · refine Layout.ofMembers_three (Layout.ofMembers_field ?_ hsource.1) (Layout.ofMembers_field ?_ hname.1)
      (Layout.ofMembers_optional (fun a h => (hrelation a h).1) ?_) ColumnRef.mk
    all_goals cases relation <;> rfl
  · simp only [List.forall_mem_append, List.forall_mem_cons]
    exact ⟨⟨hsource.2, hname.2, fun _ h => absurd h List.not_mem_nil⟩,
      sound_optionalMember fun a h => (hrelation a h).2⟩

/-- Only a container is read as a column. -/
private theorem read_ne_ok_of_literal {v : Value} {value : Literal} (h : Literal.ofValue? v = some value) (mode : Mode)
    (room : Nat) (c : ColumnRef) : read mode room v ≠ .ok c := by
  intro hc
  cases v with
  | array | object | unreadable => cases h
  | _ => cases room <;> cases hc

end ColumnRef

/-- A literal is written as the value that it was read from. -/
theorem Literal.json_of_ofValue? {v : Value} {value : Literal} (hv : v.IsExact) (h : ofValue? v = some value) :
    value.json = v := by
  cases hv with
  | null | bool | double | string =>
    cases h
    rfl
  | @int n exact =>
    have hmin : Int64.minValue.toInt = -9223372036854775808 := rfl
    have hmax : Int64.maxValue.toInt = 9223372036854775807 := rfl
    have hsize : ((UInt64.size : Nat) : Int) = 18446744073709551616 := rfl
    rw [Value.isExactInt, hmin, Bool.and_eq_true, decide_eq_true_eq, decide_eq_true_eq, hsize] at exact
    rw [ofValue?, hmax] at h
    split at h <;> cases h
    · rw [json, Int64.toInt_ofInt_of_le (by omega) (by omega)]
    · rw [json, UInt64.toNat_ofNat_of_lt' (by omega), Int.toNat_of_nonneg (by omega)]
  | array | object | unreadable => cases h

private theorem Literal.sound_of_ofValue? {v : Value} {value : Literal} {room : Nat} (hv : v.IsExact)
    (h : ofValue? v = some value) : v.Sound room := by
  cases hv with
  | null => exact .null
  | bool b => exact .bool b
  | double d => exact .double d
  | string s => exact .string s
  | int exact => exact .int exact
  | array | object | unreadable => cases h

namespace Operand

variable {room : Nat}

theorem read_of_ofHeld {v : Value} {value : Operand} (hv : v.Sound room) (h : ofHeld room v = .ok value) :
    read room v = .ok value := by
  rw [read, if_pos hv.fits, h]

/-- A literal stays one, for it is not taken for a column. -/
theorem ofHeld_literal {v : Value} {value : Literal} (h : Literal.ofValue? v = some value) (room : Nat) :
    ofHeld room v = .ok (literal value) := by
  rw [ofHeld]
  split
  · rename_i c hc
    exact absurd hc (ColumnRef.read_ne_ok_of_literal h _ _ c)
  · rw [h]

private theorem stable_read (room : Nat) : Stable (read room) json room := by
  intro v value hv h
  rw [read] at h
  split at h
  · unfold ofHeld at h
    split at h
    · rename_i c hc
      cases h
      obtain ⟨hread, hsound⟩ := ColumnRef.stable_read .held room v c hv hc
      have hheld : ofHeld room c.json = .ok (column c) := by rw [ofHeld, hread]
      exact ⟨read_of_ofHeld hsound hheld, hsound⟩
    · split at h
      · rename_i value hvalue
        cases h
        have hsound : (literal value).json.Sound room := by
          rw [json, Literal.json_of_ofValue? hv hvalue]
          exact Literal.sound_of_ofValue? hv hvalue
        refine ⟨read_of_ofHeld hsound (ofHeld_literal ?_ room), hsound⟩
        rw [json, Literal.json_of_ofValue? hv hvalue, hvalue]
      · cases h
  · cases h

end Operand

/-! ### Clauses -/

private theorem Condition.stable_read (mode : Mode) (room : Nat) : Stable (read mode room) json room := by
  refine Layout.Stable.reader (fun room c hc => ?_) _ mode room
  obtain ⟨column, operator, value, hcolumn, hoperator, hvalue, rfl⟩ := hc.three
  have hcolumn := hcolumn.required (ColumnRef.stable_read mode room)
  have hoperator := hoperator.required (Document.stable_choice Operator.vocabulary_finds mode room)
  have hdefault : Operand.read room (Operand.literal .null).json = .ok (.literal .null) :=
    Operand.read_of_ofHeld .null (Operand.ofHeld_literal rfl room)
  have hvalue := hvalue.withDefault (Operand.stable_read room) ⟨hdefault, .null⟩
  constructor
  · exact Layout.ofMembers_three (Layout.ofMembers_field rfl hcolumn.1) (Layout.ofMembers_field rfl hoperator.1)
      (Layout.ofMembers_field rfl hvalue.1) Condition.mk
  · simp only [List.forall_mem_cons]
    exact ⟨hcolumn.2, hoperator.2, hvalue.2, fun _ h => absurd h List.not_mem_nil⟩

private theorem Filter.stable_layout (mode : Mode) (room : Nat) : (layout mode room).Stable members room := by
  intro f hf
  obtain ⟨connective, conditions, hconnective, hconditions, rfl⟩ := hf.two
  have hconnective := hconnective.required (Document.stable_choice Connective.vocabulary_finds mode room)
  have hconditions := hconditions.required (.list (Condition.stable_read mode) room)
  constructor
  · exact Layout.ofMembers_two (Layout.ofMembers_field rfl hconnective.1) (Layout.ofMembers_field rfl hconditions.1)
      Filter.mk
  · simp only [members, List.forall_mem_cons]
    exact ⟨hconnective.2, hconditions.2, fun _ h => absurd h List.not_mem_nil⟩

private theorem OrderKey.stable_read (mode : Mode) (room : Nat) : Stable (read mode room) json room := by
  refine Layout.Stable.reader (fun room k hk => ?_) _ mode room
  obtain ⟨column, direction, hcolumn, hdirection, rfl⟩ := hk.two
  have hcolumn := hcolumn.required (ColumnRef.stable_read mode room)
  have hdirection := hdirection.required (Document.stable_choice Direction.vocabulary_finds mode room)
  constructor
  · exact Layout.ofMembers_two (Layout.ofMembers_field rfl hcolumn.1) (Layout.ofMembers_field rfl hdirection.1)
      OrderKey.mk
  · simp only [List.forall_mem_cons]
    exact ⟨hcolumn.2, hdirection.2, fun _ h => absurd h List.not_mem_nil⟩

private theorem Order.stable_layout (mode : Mode) (room : Nat) : (layout mode room).Stable members room := by
  intro o ho
  obtain ⟨keys, hkeys, rfl⟩ := ho.map
  have hkeys := Layout.Stable.required (.list (OrderKey.stable_read mode) room) keys hkeys
  exact ⟨Layout.ofMembers_map hkeys.1 Order.mk, hkeys.2⟩

private theorem Take.stable_layout (room : Nat) : layout.Stable members room := by
  intro t ht
  obtain ⟨limit, offset, hlimit, hoffset, rfl⟩ := ht.two
  have hlimit := hlimit.optional (Document.stable_word64 room) fun _ => Value.noConfusion
  have hoffset := hoffset.optional (Document.stable_word64 room) fun _ => Value.noConfusion
  constructor
  · refine Layout.ofMembers_two (Layout.ofMembers_optional (fun n h => (hlimit n h).1) ?_)
      (Layout.ofMembers_optional (fun n h => (hoffset n h).1) ?_) Take.mk
    all_goals cases limit <;> cases offset <;> rfl
  · rw [members, List.forall_mem_append]
    exact ⟨sound_optionalMember fun n h => (hlimit n h).2, sound_optionalMember fun n h => (hoffset n h).2⟩

/-- A column is aggregated, so there is room for a container. -/
private theorem Aggregate.stable_layout (mode : Mode) (room : Nat) : (layout mode room).Stable members room := by
  intro a ha
  obtain ⟨group, operation, column, label, hgroup, hoperation, hcolumn, hlabel, rfl⟩ := ha.four
  have hcolumn := hcolumn.required (ColumnRef.stable_read mode room)
  have hoperation := hoperation.required (Document.stable_choice AggregateOperation.vocabulary_finds mode room)
  have hlabel := hlabel.required (Document.stable_string room)
  cases room with
  | zero => cases hcolumn.1
  | succ room =>
    have hdefault : Value.Sound (room + 1) (.array []) := .array fun _ h => absurd h List.not_mem_nil
    have hgroup := hgroup.withDefault (.list (ColumnRef.stable_read mode) _) ⟨rfl, hdefault⟩
    constructor
    · exact Layout.ofMembers_four (Layout.ofMembers_field rfl hgroup.1) (Layout.ofMembers_field rfl hoperation.1)
        (Layout.ofMembers_field rfl hcolumn.1) (Layout.ofMembers_field rfl hlabel.1) Aggregate.mk
    · simp only [members, List.forall_mem_cons]
      exact ⟨hgroup.2, hoperation.2, hcolumn.2, hlabel.2, fun _ h => absurd h List.not_mem_nil⟩

/-! ### Steps -/

namespace Step

variable {room : Nat}

/-- A step of one type is read again from the members of its fields. -/
private theorem ofFields_make {α : Type} {l : Layout α} {write : α → List (String × Value)} (h : l.Stable write room)
    (make : α → Step) (name : String) {fields : Value} {s : Step} (hfields : fields.IsExact)
    (hs : (make <$> l).record name .held fields = .ok s) :
    ∃ a, s = make a ∧ (make <$> l).record name .held (.object (write a)) = .ok s ∧
      ∀ m ∈ write a, m.2.Sound room := by
  obtain ⟨a, ha, rfl⟩ := (Layout.reads_of_record hfields hs).map
  obtain ⟨hread, hsound⟩ := h a ha
  exact ⟨a, rfl, Layout.record_object (Layout.ofMembers_map hread make) name .held, hsound⟩

/-- The fields of a step are read again, and the step has the type that its fields were read for. -/
private theorem stable_ofFields {type : StepType} {fields : Value} {s : Step} (hfields : fields.IsExact)
    (hs : ofFields room fields type = .ok s) :
    s.type = type ∧ ofFields room (.object s.members) s.type = .ok s ∧ ∀ m ∈ s.members, m.2.Sound room := by
  cases type with
  | root =>
    obtain ⟨id, rfl, h⟩ := ofFields_make (.required (TableId.stable_read room)) root _ hfields hs
    exact ⟨rfl, h⟩
  | select =>
    obtain ⟨columns, rfl, h⟩ :=
      ofFields_make (.required (.list (ColumnRef.stable_read .held) room)) select _ hfields hs
    exact ⟨rfl, h⟩
  | filter =>
    obtain ⟨f, rfl, h⟩ := ofFields_make (Filter.stable_layout .held room) filter _ hfields hs
    exact ⟨rfl, h⟩
  | order =>
    obtain ⟨o, rfl, h⟩ := ofFields_make (Order.stable_layout .held room) order _ hfields hs
    exact ⟨rfl, h⟩
  | aggregate =>
    obtain ⟨a, rfl, h⟩ := ofFields_make (Aggregate.stable_layout .held room) aggregate _ hfields hs
    exact ⟨rfl, h⟩
  | relate =>
    obtain ⟨a, rfl, h⟩ := ofFields_make (.required (RelationAlias.stable_read .held room)) relate _ hfields hs
    exact ⟨rfl, h⟩
  | take =>
    obtain ⟨t, rfl, h⟩ := ofFields_make (Take.stable_layout room) take _ hfields hs
    exact ⟨rfl, h⟩
  | display =>
    simp only [ofFields] at hs
    split at hs <;> cases hs
    exact ⟨rfl, rfl, fun _ h => absurd h List.not_mem_nil⟩

/-- No field of a step is called like its type. -/
private theorem name_ne_type (s : Step) : ∀ m ∈ s.members, m.1 ≠ "type" := by
  cases s with
  | take t =>
    obtain ⟨limit, offset⟩ := t
    cases limit <;> cases offset <;> simp [members, Take.members, optionalMember]
  | _ => simp [members, Filter.members, Order.members, Aggregate.members]

private theorem ofHeld_json {s : Step} (h : ofFields room (.object s.members) s.type = .ok s) :
    ofHeld room s.json = .ok s := by
  have hfields : ((("type", Value.string s.type.name) :: s.members).filter fun m => m.1 ≠ "type") = s.members := by
    rw [List.filter_cons, if_neg (by simp)]
    exact List.filter_eq_self.2 fun m hm => decide_eq_true (s.name_ne_type m hm)
  have hother : valuesOf "type" s.members = [] := by
    rw [valuesOf, List.map_eq_nil_iff, List.filter_eq_nil_iff]
    exact fun m hm => mt of_decide_eq_true (s.name_ne_type m hm)
  have hvalues : valuesOf "type" (("type", .string s.type.name) :: s.members) = [.string s.type.name] := by
    rw [valuesOf, List.filter_cons, if_pos (by simp), List.map_cons, ← valuesOf, hother]
  have htype : ((required "type" StepType.read).ofMembers (("type", .string s.type.name) :: s.members)).settle =
      .ok s.type :=
    Document.Placed.settle_eq_ok_iff.2 (Layout.ofMembers_field hvalues (StepType.vocabulary_finds s.type))
  rw [json, ofHeld, hfields, htype]
  exact h

/-- The fields of a held step are those of its type. -/
private theorem exists_ofFields_of_ofHeld {v : Value} {s : Step} (hv : v.IsExact) (h : ofHeld room v = .ok s) :
    ∃ type fields, fields.IsExact ∧ ofFields room fields type = .ok s := by
  cases hv with
  | @object members hmembers =>
    obtain ⟨type, -, h⟩ := bind_eq_ok_iff.1 h
    exact ⟨type, _, .object fun m hm => hmembers m (List.mem_filter.1 hm).1, h⟩
  | @array items hitems =>
    cases items with
    | nil => cases h
    | cons v items =>
      obtain ⟨type, -, h⟩ := bind_eq_ok_iff.1 h
      exact ⟨type, _, .array (List.forall_mem_cons.1 hitems).2, h⟩
  | _ => cases h

private theorem stable_read (room : Nat) : Stable (read room) json room := by
  cases room with
  | zero => exact Document.stable_closed
  | succ room =>
    intro v s hv h
    simp only [read] at h ⊢
    split at h
    · obtain ⟨type, fields, hfields, hs⟩ := exists_ofFields_of_ofHeld hv h
      obtain ⟨rfl, hread, hsound⟩ := stable_ofFields hfields hs
      have hjson : s.json.Sound (room + 1) := .object (List.forall_mem_cons.2 ⟨.string _, hsound⟩)
      rw [if_pos hjson.fits, ofHeld_json hread]
      exact ⟨rfl, hjson⟩
    · cases h

end Step

/-! ### Whole documents -/

private theorem Pipeline.stable_layout (room : Nat) :
    (layout (room + 1)).Stable (fun p => [("from", .string p.root.text), ("steps", .array (p.steps.map Step.json))])
      (room + 1) := by
  intro p hp
  obtain ⟨root, steps, hroot, hsteps, rfl⟩ := hp.two
  have hroot := hroot.required (TableId.stable_read (room + 1))
  have hdefault : Value.Sound (room + 1) (.array []) := .array fun _ h => absurd h List.not_mem_nil
  have hsteps := hsteps.withDefault (.list Step.stable_read _) ⟨rfl, hdefault⟩
  constructor
  · exact Layout.ofMembers_two (Layout.ofMembers_field rfl hroot.1) (Layout.ofMembers_field rfl hsteps.1) Pipeline.mk
  · simp only [List.forall_mem_cons]
    exact ⟨hroot.2, hsteps.2, fun _ h => absurd h List.not_mem_nil⟩

private theorem Pipeline.stable_read : Stable (read Document.maxDepth) json Document.maxDepth :=
  (Pipeline.stable_layout 125).record "Pipeline" .streamed

/-- A field that is written as `null` when there is nothing. -/
private theorem nullable_elim {α : Type} {name : String} {read : Reader α} {write : α → Value} {o : Option α}
    {room : Nat} (h : (Layout.optional name read).Reads o) (hstable : Stable read write room)
    (hnull : ∀ a, write a ≠ .null) :
    Document.nullable read (o.elim .null write) = .ok o ∧ (o.elim .null write).Sound room := by
  have ho := h.optional hstable hnull
  cases o with
  | none => exact ⟨rfl, .null⟩
  | some a => exact ho a rfl

private theorem TableRequest.stable_read (mode : Mode) (room : Nat) : Stable (read mode room) json room := by
  refine Layout.Stable.reader (fun room r hr => ?_) _ mode room
  obtain ⟨filter, order, take, hfilter, horder, htake, rfl⟩ := hr.three
  have hfilter := nullable_elim hfilter (Layout.Stable.reader (Filter.stable_layout mode) _ mode room)
    fun _ => Value.noConfusion
  have horder := nullable_elim horder (Layout.Stable.reader (Order.stable_layout mode) _ mode room)
    fun _ => Value.noConfusion
  have htake := nullable_elim htake (Layout.Stable.reader Take.stable_layout _ mode room) fun _ => Value.noConfusion
  constructor
  · exact Layout.ofMembers_three (Layout.ofMembers_field rfl hfilter.1) (Layout.ofMembers_field rfl horder.1)
      (Layout.ofMembers_field rfl htake.1) TableRequest.mk
  · simp only [List.forall_mem_cons]
    exact ⟨hfilter.2, horder.2, htake.2, fun _ h => absurd h List.not_mem_nil⟩

/-- A pipeline that was read from a text is read from its own text, and so is a request. -/
theorem ofText_text :
    (∀ text p, Pipeline.ofText text = .ok p → Pipeline.ofText p.text = .ok p) ∧
      ∀ text r, TableRequest.ofText text = .ok r → TableRequest.ofText r.text = .ok r :=
  ⟨fun _ _ h => Pipeline.stable_read.ofText h, fun _ _ h => (TableRequest.stable_read .streamed _).ofText h⟩

/-- Lists in place of objects, and an empty base. -/
theorem ofText_text_lists :
    let p : Pipeline := ⟨⟨"t"⟩, [.relate (.fromRoot "course" ⟨"teaches"⟩ ⟨"c"⟩ true)]⟩
    let r : TableRequest := ⟨none, some ⟨[]⟩, none⟩
    Pipeline.ofText "[\"t\", [[\"relate\", [\"course\", \"teaches\", \"c\", [null]]]]]" = .ok p ∧
      Pipeline.ofText p.text = .ok p ∧
      TableRequest.ofText "[null, [[]]]" = .ok r ∧ TableRequest.ofText r.text = .ok r := by
  have hp : Pipeline.ofText "[\"t\", [[\"relate\", [\"course\", \"teaches\", \"c\", [null]]]]]" =
      .ok ⟨⟨"t"⟩, [.relate (.fromRoot "course" ⟨"teaches"⟩ ⟨"c"⟩ true)]⟩ :=
    toOption_eq_some_iff.1 (by decide +kernel)
  have hr : TableRequest.ofText "[null, [[]]]" = .ok ⟨none, some ⟨[]⟩, none⟩ :=
    toOption_eq_some_iff.1 (by decide +kernel)
  exact ⟨hp, ofText_text.1 _ _ hp, hr, ofText_text.2 _ _ hr⟩

end TableFlow
