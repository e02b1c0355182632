import Mathlib.Logic.Relation
import TableFlow.Proofs.Edits

/-!
# Spellings of a document

A reader respects the edits of a kind of place when it reads the same before and behind an edit
(`Document.Respects`).  A layout respects edits when each of its fields does, whether the fields are given as members or
as items (`Document.Layout.Respects`), and so does the record that is made of it.  In this way every part of a pipeline
document is shown to mean the same in every spelling (`Pipeline.ofText_of_respelled`).
-/

namespace TableFlow

open Document
open Json (Value)

namespace Document

variable {α β : Type}

/-- What is read from a value is read from it behind an edit as well. -/
def Respects (read : Reader α) (k : Kind) (room : Nat) : Prop :=
  ∀ v v' a, Edit k room v v' → read v = .ok a → read v' = .ok a

private theorem Respects.edits {read : Reader α} {k : Kind} {room : Nat} (h : Respects read k room) {v v' : Value}
    (hedits : Relation.ReflTransGen (Edit k room) v v') {a : α} (ha : read v = .ok a) : read v' = .ok a := by
  induction hedits with
  | refl => exact ha
  | tail _ hedit ih => exact h _ _ a hedit ih

private theorem respects_closed {wanted : Wanted} {room : Nat} (k : Kind) :
    Respects (closed wanted : Reader α) k room := by
  intro v v' a hedit h
  cases hedit <;> cases h

/-! ### Fields -/

/-- What a field gives, which may be absent and may be given no more than once. -/
def Gives (absent : Option α) (read : Reader α) (a : α) : List Value → Prop
  | [] => absent = some a
  | [v] => read v = .ok a
  | _ => False

private theorem Gives.exists_singleton {read : Reader α} {a : α} {vs : List Value} (h : Gives none read a vs) :
    ∃ v, vs = [v] ∧ read v = .ok a := by
  cases vs with
  | nil => cases h
  | cons v vs =>
    cases vs with
    | nil => exact ⟨v, rfl, h⟩
    | cons => exact h.elim

private theorem Gives.edited {absent : Option α} {read : Reader α} {f : Field} {room : Nat}
    (hread : Respects read f.kind room) (hfiller : ∀ v a, f.filler = some v → absent = some a → read v = .ok a)
    {vs vs' : List Value} (hedited : f.Edited room vs vs') {a : α} (h : Gives absent read a vs) :
    Gives absent read a vs' := by
  cases hedited with
  | perm perm =>
    match vs, h, perm with
    | [], h, perm =>
      rw [List.perm_nil.1 perm.symm]
      exact h
    | [v], h, perm =>
      rw [List.perm_singleton.1 perm.symm]
      exact h
  | fill filler => exact hfiller _ a filler h
  | @inside before after v v' edit =>
    match before, after, h with
    | [], [], h => exact hread v v' a edit h
    | [], _ :: _, h => exact h.elim
    | [_], _, h => exact h.elim
    | _ :: _ :: _, _, h => exact h.elim

namespace Layout

variable {name : String} {absent : Option α} {read : Reader α} {a : α}

theorem ofMembers_field_eq_ok_iff {members : List (String × Value)} :
    (field name absent read).ofMembers members = .ok a ↔ Gives absent read a (valuesOf name members) := by
  show ofOccurrences name absent read members.length (occurrences name members) = .ok a ↔ _
  rw [← map_snd_occurrences]
  match occurrences name members with
  | [] => cases absent <;> simp [ofOccurrences, Gives]
  | [(place, v)] => exact Placed.placed_eq_ok_iff
  | (place, v) :: (again, w) :: more =>
    refine ⟨fun h => ?_, False.elim⟩
    cases hread : read v <;> simp [ofOccurrences, hread] at h

theorem ofItems_field_eq_ok_iff {short : Nat → Reject} {place : Nat} {items : List Value} :
    (field name absent read).ofItems short place items = .ok a ↔ Gives absent read a items[0]?.toList := by
  match items, absent with
  | v :: _, _ => exact Placed.placed_eq_ok_iff
  | [], some b => simp [field, Gives]
  | [], none => simp [field, Gives]

/-- What a layout reads out of some fields is read behind an edit as well. -/
structure Respects (l : Layout α) (fields : List Field) (room : Nat) : Prop where
  size : l.size = fields.length
  members : ∀ {members members' : List (String × Value)} {a : α},
    MembersEdited fields room members members' → l.ofMembers members = .ok a → l.ofMembers members' = .ok a
  items : ∀ {short : Nat → Reject} {place : Nat} {items items' : List Value} {a : α},
    ItemsEdited fields room items items' → l.ofItems short place items = .ok a → l.ofItems short place items' = .ok a

section Fields

variable {k : Kind} {room : Nat}

private theorem Respects.field {filler : Option Value} (hread : Document.Respects read k room)
    (hfiller : ∀ v a, filler = some v → absent = some a → read v = .ok a) :
    (Layout.field name absent read).Respects [⟨name, k, filler⟩] room where
  size := rfl
  members hedited h := by
    rw [ofMembers_field_eq_ok_iff] at h ⊢
    exact h.edited hread hfiller (hedited _ List.mem_cons_self)
  items hedited h := by
    rw [ofItems_field_eq_ok_iff] at h ⊢
    exact h.edited hread hfiller (hedited 0 _ rfl)

private theorem Respects.required (hread : Document.Respects read k room) :
    (Layout.required name read).Respects [⟨name, k, none⟩] room :=
  .field hread nofun

private theorem Respects.withDefault {default : α} {filler : Value} (hread : Document.Respects read k room)
    (hdefault : read filler = .ok default) :
    (Layout.withDefault name default read).Respects [⟨name, k, some filler⟩] room := by
  refine .field hread fun v a hv ha => ?_
  cases hv
  cases ha
  exact hdefault

private theorem Respects.optional (hread : Document.Respects read k room) :
    (Layout.optional name read).Respects [⟨name, k, some .null⟩] room := by
  have hnullable : Document.Respects (nullable read) k room := by
    intro v v' o hedit h
    -- only containers are edited, and they are not `null`
    have hv : v ≠ .null := by rintro rfl; cases hedit
    have hv' : v' ≠ .null := by rintro rfl; cases hedit
    rw [nullable_of_ne_null hv] at h
    obtain ⟨a, ha, rfl⟩ := map_eq_ok_iff.1 h
    rw [nullable_of_ne_null hv', hread v v' a hedit ha]
    rfl
  exact .withDefault hnullable rfl

end Fields

section Records

variable {l : Layout α} {fields : List Field} {room : Nat}

private theorem Respects.map (h : l.Respects fields room) (f : α → β) : (f <$> l).Respects fields room where
  size := h.size
  members hedited hb := by
    obtain ⟨a, ha, rfl⟩ := map_eq_ok_iff.1 hb
    exact map_eq_ok_iff.2 ⟨a, h.members hedited ha, rfl⟩
  items hedited hb := by
    obtain ⟨a, ha, rfl⟩ := map_eq_ok_iff.1 hb
    exact map_eq_ok_iff.2 ⟨a, h.items hedited ha, rfl⟩

private theorem Respects.seq {l : Layout (α → β)} {r : Layout α} {fields fields' : List Field}
    (hl : l.Respects fields room) (hr : r.Respects fields' room) : (l <*> r).Respects (fields ++ fields') room where
  size := by
    rw [List.length_append, ← hl.size, ← hr.size]
    rfl
  members hedited hb := by
    obtain ⟨hfields, hfields'⟩ := membersEdited_append_iff.1 hedited
    obtain ⟨f, a, hf, ha, rfl⟩ := Placed.join_eq_ok_iff.1 hb
    exact Placed.join_eq_ok_iff.2 ⟨f, a, hl.members hfields hf, hr.members hfields' ha, rfl⟩
  items {short place items items' b} hedited hb := by
    have hrest : ItemsEdited fields' room (items.drop l.size) (items'.drop l.size) := by
      rw [hl.size]
      exact hedited.of_append_right
    obtain ⟨f, a, hf, ha, rfl⟩ := Placed.join_eq_ok_iff.1 hb
    exact Placed.join_eq_ok_iff.2 ⟨f, a, hl.items hedited.of_append_left hf, hr.items hrest ha, rfl⟩

private theorem Respects.record_edited (h : l.Respects fields room) {name : String} {mode : Mode} {v v' : Value} {a : α}
    (hedited : FieldsEdited fields room v v') (ha : l.record name mode v = .ok a) : l.record name mode v' = .ok a := by
  cases hedited with
  | members edited => exact Placed.settle_eq_ok_iff.2 (h.members edited (Placed.settle_eq_ok_iff.1 ha))
  | @items items items' length edited =>
    simp only [record] at ha ⊢
    obtain ⟨b, hb, hlength⟩ := bind_eq_ok_iff.1 ha
    have hb' := Placed.settle_eq_ok_iff.2 (h.items edited (Placed.settle_eq_ok_iff.1 hb))
    -- a list that is not too long does not become so by an edit
    by_cases hle : items.length ≤ l.size
    · rw [if_pos hle] at hlength
      rw [hb']
      have hle' : items'.length ≤ l.size := by
        rw [h.size] at hle ⊢
        omega
      exact (if_pos hle').trans hlength
    · rw [if_neg hle] at hlength
      cases hlength

private theorem Respects.record {k : Kind} (h : l.Respects fields room) (hk : ∀ v, k.fields v = fields) (name : String)
    (mode : Mode) : Document.Respects (l.record name mode) k (room + 1) := by
  intro v v' a hedit ha
  have hedited := hedit.fieldsEdited
  rw [hk] at hedited
  exact h.record_edited hedited ha

private theorem Respects.reader {k : Kind} {l : Nat → Layout α} (h : ∀ room, (l room).Respects fields room)
    (hk : ∀ v, k.fields v = fields) (name : String) (mode : Mode) (room : Nat) :
    Document.Respects (Layout.reader name mode l room) k room := by
  cases room with
  | zero => exact respects_closed k
  | succ room => exact (h room).record hk name mode

end Records

end Layout

/-! ### Values -/

section Values

variable {room : Nat}

private theorem respects_string (k : Kind) : Respects string k room := by
  intro v v' s hedit h
  cases hedit <;> cases h

private theorem respects_word64 (k : Kind) : Respects word64 k room := by
  intro v v' n hedit h
  cases hedit <;> cases h

private theorem Respects.map {read : Reader α} {k : Kind} (h : Respects read k room) (f : α → β) :
    Respects (fun v => (read v).map f) k room := by
  intro v v' b hedit hb
  obtain ⟨a, ha, rfl⟩ := map_eq_ok_iff.1 hb
  exact map_eq_ok_iff.2 ⟨a, h v v' a hedit ha, rfl⟩

/-- Beside a name there is nothing that could be edited. -/
private theorem eq_of_noContent {mode : Mode} {v v' : Value} (h : noContent mode v = .ok ())
    (hedit : Edit .plain room v v') : v' = v := by
  cases hedit with
  | @permute _ _ members _ perm =>
    cases members with
    | nil => rw [List.perm_nil.1 perm.symm]
    | cons => cases h
  | unknown record => cases record
  | fill field => cases field
  | @member _ _ before => cases before <;> cases h
  | fillItem | item => cases h

private theorem choice_object_eq_ok_iff {w : Vocabulary α} {mode : Mode} {members : List (String × Value)} {a : α} :
    choice w mode room (.object members) = .ok a ↔
      0 < room ∧ ∃ name v, members = [(name, v)] ∧ longChoice w mode name v = .ok a := by
  cases room with
  | zero => simp [choice]
  | succ room =>
    match members with
    | [] => cases mode <;> simp [choice]
    | [(name, v)] =>
      refine ⟨fun h => ⟨Nat.succ_pos room, name, v, rfl, h⟩, ?_⟩
      rintro ⟨-, _, _, heq, h⟩
      cases heq
      exact h
    | (name, v) :: m :: members =>
      cases mode with
      | streamed => cases hchoice : longChoice w .streamed name v <;> simp [choice, hchoice, bind, Except.bind]
      | held | built => simp [choice]

private theorem respects_choice (w : Vocabulary α) (mode : Mode) : Respects (choice w mode room) .plain room := by
  intro v v' a hedit h
  cases hedit with
  | @permute _ _ members members' perm =>
    obtain ⟨-, name, v, rfl, -⟩ := choice_object_eq_ok_iff.1 h
    rw [List.perm_singleton.1 perm.symm]
    exact h
  | unknown record => cases record
  | fill field => cases field
  | fillItem field => cases field
  | @member _ _ before after name v v' edit =>
    obtain ⟨hroom, name', w', hmembers, hchoice⟩ := choice_object_eq_ok_iff.1 h
    obtain ⟨rfl, heq, rfl⟩ : before = [] ∧ (name, v) = (name', w') ∧ after = [] := by
      simpa [List.append_eq_singleton_iff] using hmembers
    cases heq
    obtain ⟨_, -, hrest⟩ := bind_eq_ok_iff.1 hchoice
    obtain ⟨_, hcontent, -⟩ := bind_eq_ok_iff.1 hrest
    rw [eq_of_noContent hcontent edit]
    exact h
  | item => cases mode <;> cases h

private theorem Respects.list {item : Nat → Reader α} {k : Kind} (h : ∀ r, room = r + 1 → Respects (item r) k r) :
    Respects (Document.list item room) (.list k) room := by
  cases room with
  | zero => exact respects_closed _
  | succ room =>
    intro v v' as hedit has
    cases hedit with
    | fillItem field => cases field
    | @item _ _ before after v v' edit =>
      replace has : (before ++ v :: after).mapM (item room) = .ok as := has
      show (before ++ v' :: after).mapM (item room) = .ok as
      rw [mapM_eq_ok_iff, List.map_append, List.map_cons] at has ⊢
      have hmem : item room v ∈ as.map Except.ok := has ▸ List.mem_append_right _ List.mem_cons_self
      obtain ⟨a, -, ha⟩ := List.mem_map.1 hmem
      rw [← has, ← ha, h room rfl v v' a edit ha.symm]
    | _ => cases has

end Values

end Document

/-! ### Aliases and columns -/

private theorem TableId.respects_read {room : Nat} (k : Kind) : Respects TableId.read k room :=
  (respects_string k).map _

private theorem RelationId.respects_read {room : Nat} (k : Kind) : Respects RelationId.read k room :=
  (respects_string k).map _

namespace RelationAlias

variable {room : Nat}

private theorem respects_layout {base : Reader (Option RelationAlias)} (hbase : Respects base .base room)
    (name : String) (mode : Mode) : Respects ((layout base).record name mode) .relation (room + 1) := by
  have hlabel : (Layout.required "as" Document.string).Respects [⟨"as", .plain, none⟩] room :=
    .required (respects_string _)
  have hrelation : (Layout.required "relation" RelationId.read).Respects [⟨"relation", .plain, none⟩] room :=
    .required (RelationId.respects_read _)
  have htable : (Layout.required "table" TableId.read).Respects [⟨"table", .plain, none⟩] room :=
    .required (TableId.respects_read _)
  exact ((((hlabel.map _).seq hrelation).seq htable).seq (.optional hbase)).record (fun _ => rfl) name mode

private theorem respects_read (mode : Mode) (room : Nat) : Respects (read mode room) .relation room := by
  fun_induction read mode room with
  | case1 => exact respects_closed _
  | case2 => exact respects_layout (respects_closed _) _ _
  | case3 room ih => exact respects_layout ((Layout.Respects.optional ih).record (fun _ => rfl) _ _) _ _

end RelationAlias

private theorem ColumnRef.respects_read (mode : Mode) (room : Nat) : Respects (read mode room) .column room := by
  refine Layout.Respects.reader (fun room => ?_) (fun _ => rfl) _ mode room
  have htable : (Layout.required "table" fun v => (Document.string v).map ColumnSource.ofText).Respects
      [⟨"table", .plain, none⟩] room :=
    .required ((respects_string _).map _)
  have hname : (Layout.required "name" Document.string).Respects [⟨"name", .plain, none⟩] room :=
    .required (respects_string _)
  have hrelation : (Layout.optional "relation" (RelationAlias.read mode room)).Respects
      [⟨"relation", .relation, some .null⟩] room :=
    .optional (RelationAlias.respects_read mode room)
  exact ((htable.map _).seq hname).seq hrelation

private theorem Operand.respects_read (room : Nat) : Respects (read room) .column room := by
  intro v v' value hedit h
  rw [read] at h
  split at h
  · rename_i hfits
    rw [read, if_pos (hedit.fits (.inl rfl) hfits)]
    unfold ofHeld at h
    split at h
    · rename_i c hc
      cases h
      rw [ofHeld, ColumnRef.respects_read .held room v v' c hedit hc]
    · -- a literal is no container, so it has no edits
      cases hedit <;> cases h
  · cases h

/-! ### Clauses -/

section Clauses

variable {room : Nat}

private theorem Condition.respects_read (mode : Mode) (room : Nat) : Respects (read mode room) .condition room := by
  refine Layout.Respects.reader (fun room => ?_) (fun _ => rfl) _ mode room
  have hcolumn : (Layout.required "column" (ColumnRef.read mode room)).Respects [⟨"column", .column, none⟩] room :=
    .required (ColumnRef.respects_read mode room)
  have hoperator : (Layout.required "operator" (choice Operator.vocabulary mode room)).Respects
      [⟨"operator", .plain, none⟩] room :=
    .required (respects_choice _ mode)
  have hnull : Operand.read room .null = .ok (.literal .null) := by cases room <;> rfl
  have hvalue : (Layout.withDefault "value" (.literal .null) (Operand.read room)).Respects
      [⟨"value", .column, some .null⟩] room :=
    .withDefault (Operand.respects_read room) hnull
  exact ((hcolumn.map _).seq hoperator).seq hvalue

private theorem OrderKey.respects_read (mode : Mode) (room : Nat) : Respects (read mode room) .orderKey room := by
  refine Layout.Respects.reader (fun room => ?_) (fun _ => rfl) _ mode room
  have hcolumn : (Layout.required "column" (ColumnRef.read mode room)).Respects [⟨"column", .column, none⟩] room :=
    .required (ColumnRef.respects_read mode room)
  have hdirection : (Layout.required "direction" (choice Direction.vocabulary mode room)).Respects
      [⟨"direction", .plain, none⟩] room :=
    .required (respects_choice _ mode)
  exact (hcolumn.map _).seq hdirection

private theorem Filter.respects_layout (mode : Mode) : (layout mode room).Respects StepType.filter.fields room := by
  have hconnective : (Layout.required "logicalOperator" (choice Connective.vocabulary mode room)).Respects
      [⟨"logicalOperator", .plain, none⟩] room :=
    .required (respects_choice _ mode)
  have hconditions : (Layout.required "conditions" (Document.list (Condition.read mode) room)).Respects
      [⟨"conditions", .list .condition, none⟩] room :=
    .required (.list fun r _ => Condition.respects_read mode r)
  exact (hconnective.map _).seq hconditions

private theorem Order.respects_layout (mode : Mode) : (layout mode room).Respects StepType.order.fields room := by
  have horder : (Layout.required "order" (Document.list (OrderKey.read mode) room)).Respects
      [⟨"order", .list .orderKey, none⟩] room :=
    .required (.list fun r _ => OrderKey.respects_read mode r)
  exact horder.map _

private theorem Take.respects_layout : layout.Respects StepType.take.fields room := by
  have hrows : ∀ name, (Layout.optional name word64).Respects [⟨name, .plain, some .null⟩] room :=
    fun name => .optional (respects_word64 _)
  exact ((hrows "limit").map _).seq (hrows "offset")

private theorem columns_respects_list (mode : Mode) :
    Respects (Document.list (ColumnRef.read mode) room) (.list .column) room :=
  .list fun r _ => ColumnRef.respects_read mode r

/-- The columns of a group default to an empty list, which takes a level of nesting. -/
private theorem Aggregate.respects_layout (mode : Mode) :
    (layout mode (room + 1)).Respects StepType.aggregate.fields (room + 1) := by
  have hgroup : (Layout.withDefault "group" [] (Document.list (ColumnRef.read mode) (room + 1))).Respects
      [⟨"group", .list .column, some (.array [])⟩] (room + 1) :=
    .withDefault (columns_respects_list mode) rfl
  have hoperation : (Layout.required "operation" (choice AggregateOperation.vocabulary mode (room + 1))).Respects
      [⟨"operation", .plain, none⟩] (room + 1) :=
    .required (respects_choice _ mode)
  have hcolumn : (Layout.required "column" (ColumnRef.read mode (room + 1))).Respects
      [⟨"column", .column, none⟩] (room + 1) :=
    .required (ColumnRef.respects_read mode (room + 1))
  have hlabel : (Layout.required "as" Document.string).Respects [⟨"as", .plain, none⟩] (room + 1) :=
    .required (respects_string _)
  exact (((hgroup.map _).seq hoperation).seq hcolumn).seq hlabel

end Clauses

/-! ### Steps -/

namespace Step

variable {room : Nat}

private theorem ofFields_edited {type : StepType} {v v' : Value} {s : Step}
    (hedited : FieldsEdited type.fields (room + 1) v v') (hs : ofFields (room + 1) v type = .ok s) :
    ofFields (room + 1) v' type = .ok s := by
  cases type with
  | root =>
    have htable : (Layout.required "table" TableId.read).Respects StepType.root.fields (room + 1) :=
      .required (TableId.respects_read _)
    exact (htable.map root).record_edited hedited hs
  | select =>
    have hcolumns : (Layout.required "select" (Document.list (ColumnRef.read .held) (room + 1))).Respects
        StepType.select.fields (room + 1) :=
      .required (columns_respects_list .held)
    exact (hcolumns.map select).record_edited hedited hs
  | filter => exact ((Filter.respects_layout .held).map filter).record_edited hedited hs
  | order => exact ((Order.respects_layout .held).map order).record_edited hedited hs
  | aggregate => exact ((Aggregate.respects_layout .held).map aggregate).record_edited hedited hs
  | relate =>
    have halias : (Layout.required "relation" (RelationAlias.read .held (room + 1))).Respects
        StepType.relate.fields (room + 1) :=
      .required (RelationAlias.respects_read .held (room + 1))
    exact (halias.map relate).record_edited hedited hs
  | take => exact (Take.respects_layout.map take).record_edited hedited hs
  | display =>
    cases hedited with
    | members => exact hs
    | @items items items' length =>
      match items, items', hs, length with
      | [], [], hs, _ => exact hs

private theorem name_ne_type_of_mem {type : StepType} {f : Field} (hf : f ∈ type.fields) : f.name ≠ "type" := by
  have hall : (type.fields.all fun f => f.name ≠ "type") = true := by cases type <;> decide
  exact of_decide_eq_true (List.all_eq_true.1 hall f hf)

private theorem valuesOf_filter_ne_type {name : String} (h : name ≠ "type") (members : List (String × Value)) :
    valuesOf name (members.filter fun m => m.1 ≠ "type") = valuesOf name members := by
  have hfilter : (members.filter fun m => m.1 ≠ "type").filter (fun m => m.1 = name) =
      members.filter fun m => m.1 = name := by
    rw [List.filter_filter]
    refine List.filter_congr fun m _ => ?_
    by_cases hm : m.1 = name <;> simp [hm, h]
  rw [valuesOf, hfilter, valuesOf]

private theorem gives_type_edited {vs vs' : List Value} (hedited : Field.Edited ⟨"type", .plain, none⟩ room vs vs')
    {type : StepType} (h : Gives none StepType.read type vs) : Gives none StepType.read type vs' := by
  have hread : Respects StepType.read .plain room := by
    intro v v' type hedit h
    cases hedit <;> cases h
  refine h.edited hread (fun v a hv => ?_) hedited
  cases hv

/-- The type of a step stays what it is, so its fields stay those of its type. -/
private theorem ofHeld_edited {v v' : Value} {s : Step} (hedited : FieldsEdited (Kind.step.fields v) (room + 1) v v')
    (hs : ofHeld (room + 1) v = .ok s) : ofHeld (room + 1) v' = .ok s := by
  cases hedited with
  | @members members members' edited =>
    obtain ⟨type, htype, hs⟩ := bind_eq_ok_iff.1 hs
    have hgives := Layout.ofMembers_field_eq_ok_iff.1 (Placed.settle_eq_ok_iff.1 htype)
    have hnamed : stepType? (.object members) = some type := by
      obtain ⟨v, hvalues, hv⟩ := hgives.exists_singleton
      simp [stepType?, hvalues, toOption_eq_some_iff.2 hv]
    -- which other fields there are is known from the type that was read
    rw [Kind.fields, hnamed] at edited
    obtain ⟨htypes, hfields⟩ := List.forall_mem_cons.1 edited
    have htype' := Layout.ofMembers_field_eq_ok_iff.2 (gives_type_edited htypes hgives)
    refine bind_eq_ok_iff.2 ⟨type, Placed.settle_eq_ok_iff.2 htype', ofFields_edited (.members fun f hf => ?_) hs⟩
    have hne := name_ne_type_of_mem hf
    rw [valuesOf_filter_ne_type hne, valuesOf_filter_ne_type hne]
    exact hfields f hf
  | @items items items' length edited =>
    cases items with
    | nil => cases hs
    | cons v items =>
      obtain ⟨type, htype, hs⟩ := bind_eq_ok_iff.1 hs
      have hnamed : stepType? (.array (v :: items)) = some type := toOption_eq_some_iff.2 htype
      rw [Kind.fields, hnamed] at length edited
      have hgives : Gives none StepType.read type items'[0]?.toList := gives_type_edited (edited 0 _ rfl) htype
      cases items' with
      | nil => cases hgives
      | cons v' items' =>
        refine bind_eq_ok_iff.2 ⟨type, hgives, ofFields_edited (.items ?_ fun i f hf => edited (i + 1) f hf) hs⟩
        simp only [List.length_cons, Option.elim_some] at length
        omega

/-- A step that is edited stays readable throughout. -/
private theorem respects_read (room : Nat) : Respects (read (room + 2)) .step (room + 2) := by
  intro v v' s hedit h
  simp only [read] at h ⊢
  split at h
  · rename_i hfits
    rw [if_pos (hedit.fits (.inr ⟨rfl, by omega⟩) hfits)]
    exact ofHeld_edited hedit.fieldsEdited h
  · cases h

end Step

/-! ### Whole documents -/

namespace Pipeline

private theorem respects_layout (room : Nat) :
    (layout (room + 3)).Respects (Kind.pipeline.fields .null) (room + 3) := by
  have hroot : (Layout.required "from" TableId.read).Respects [⟨"from", .plain, none⟩] (room + 3) :=
    .required (TableId.respects_read _)
  have hsteps : (Layout.withDefault "steps" [] (Document.list Step.read (room + 3))).Respects
      [⟨"steps", .list .step, some (.array [])⟩] (room + 3) := by
    refine .withDefault (.list fun r hr => ?_) rfl
    obtain rfl : r = room + 2 := by omega
    exact Step.respects_read room
  exact (hroot.map _).seq hsteps

private theorem respects_read : Respects (read maxDepth) .pipeline maxDepth :=
  (respects_layout 123).record (fun _ => rfl) _ .streamed

/-- The texts stand for values, and edits lead from the value of the one to that of the other. -/
def Respelled (text text' : String) : Prop :=
  ∃ v v', Value.ofText? text = some v ∧ Value.ofText? text' = some v' ∧
    Relation.ReflTransGen (Edit .pipeline maxDepth) v v'

/-- A pipeline document means the same in every spelling. -/
theorem ofText_of_respelled {text text' : String} (h : Respelled text text') {p : Pipeline}
    (hp : ofText text = .ok p) : ofText text' = .ok p := by
  obtain ⟨v, v', hv, hv', hedits⟩ := h
  rw [ofText, Document.ofText, hv] at hp
  rw [ofText, Document.ofText, hv']
  exact respects_read.edits hedits hp

/-- The type of a step behind its fields, a `null` that is written out and an unknown member. -/
theorem ofText_of_respelled_take :
    let p : Pipeline := ⟨⟨"t"⟩, [.take ⟨some 5, none⟩]⟩
    Respelled r#"{"from":"t","steps":[{"type":"take","limit":5}]}"#
        r#"{"steps":[{"note":[],"offset":null,"limit":5,"type":"take"}],"from":"t"}"# ∧
      ofText r#"{"from":"t","steps":[{"type":"take","limit":5}]}"# = .ok p ∧
      ofText r#"{"steps":[{"note":[],"offset":null,"limit":5,"type":"take"}],"from":"t"}"# = .ok p := by
  have hp : ofText r#"{"from":"t","steps":[{"type":"take","limit":5}]}"# = .ok ⟨⟨"t"⟩, [.take ⟨some 5, none⟩]⟩ :=
    toOption_eq_some_iff.1 (by decide +kernel)
  have hv : Value.ofText? r#"{"from":"t","steps":[{"type":"take","limit":5}]}"# =
      some (.object [("from", .string "t"),
        ("steps", .array [.object [("type", .string "take"), ("limit", .int 5)]])]) :=
    rfl
  have hv' : Value.ofText? r#"{"steps":[{"note":[],"offset":null,"limit":5,"type":"take"}],"from":"t"}"# =
      some (.object [("steps", .array [.object [("note", .array []), ("offset", .null), ("limit", .int 5),
        ("type", .string "take")]]), ("from", .string "t")]) :=
    rfl
  -- the step is edited in its place, then the members of the whole document trade places
  have inside {v v' : Value} (h : Edit .step 125 v v') :
      Edit .pipeline maxDepth (.object [("from", .string "t"), ("steps", .array [v])])
        (.object [("from", .string "t"), ("steps", .array [v'])]) :=
    @Edit.member .pipeline maxDepth [("from", .string "t")] [] "steps" _ _ (@Edit.item (.list .step) 126 [] [] _ _ h)
  let limit : String × Value := ("limit", .int 5)
  let type : String × Value := ("type", .string "take")
  have typeLast : Edit .step 125 (.object [type, limit]) (.object [limit, type]) := .permute (.swap ..)
  have offsetNull : Edit .step 125 (.object [limit, type]) (.object [("offset", .null), limit, type]) :=
    .fill rfl rfl (by decide)
  have note : Edit .step 125 (.object [("offset", .null), limit, type])
      (.object [("note", .array []), ("offset", .null), limit, type]) :=
    .unknown rfl rfl (.inr rfl)
  have hedits := ((Relation.ReflTransGen.single (inside typeLast)).tail (inside offsetNull)).tail (inside note)
  have hrespelled : Respelled _ _ := ⟨_, _, hv, hv', hedits.tail (.permute (.swap ..))⟩
  exact ⟨hrespelled, hp, ofText_of_respelled hrespelled hp⟩

-- the limits of unknown members do count: in a step this one, which stands for no double, cannot be passed over
example : (ofText r#"{"from":"t","note":1e999}"#).isOk = true ∧
    (ofText r#"{"from":"t","steps":[{"type":"display","note":1e999}]}"#).isOk = false := by decide +kernel

end Pipeline

end TableFlow
