import TableFlow.Pipeline.Reading
import TableFlow.Proofs.Documents

/-!
# Changes to the spelling of a document

A document can be spelled in several ways.  What may be written in a place depends on the `Kind` of thing that stands
there: a record has fields, some of which may be absent, in an object any order of the members will do, and members that
are no field are passed over.  An `Edit` is one change to the spelling of a document: members of an object trade
places, an unknown member is added, or an absent field is written out, somewhere in the document.

An edit of a record shows in the values that are given for its fields (`Edit.fieldsEdited`).  What is held back before
it is read stays within its limits (`Edit.fits`).
-/

namespace TableFlow

open Json (Value)

namespace Document

/-! ### Kinds of places -/

/-- What stands in a place of a pipeline document. -/
inductive Kind where
  /-- A single value, a chosen name, or something that nobody looks at. -/
  | plain
  | list (item : Kind)
  | pipeline
  | step
  | condition
  | orderKey
  /-- A column.  The right side of a condition is one as well, unless it is a single value. -/
  | column
  | relation
  | base

/-- A field of a record. -/
structure Field where
  name : String
  kind : Kind
  /-- What may be written for the field when it is absent. -/
  filler : Option Value

end Document

open Document

/-- The fields of a step besides its type. -/
def StepType.fields : StepType → List Field
  | root => [⟨"table", .plain, none⟩]
  | select => [⟨"select", .list .column, none⟩]
  | filter => [⟨"logicalOperator", .plain, none⟩, ⟨"conditions", .list .condition, none⟩]
  | order => [⟨"order", .list .orderKey, none⟩]
  | aggregate => [⟨"group", .list .column, some (.array [])⟩, ⟨"operation", .plain, none⟩, ⟨"column", .column, none⟩,
      ⟨"as", .plain, none⟩]
  | relate => [⟨"relation", .relation, none⟩]
  | take => [⟨"limit", .plain, some .null⟩, ⟨"offset", .plain, some .null⟩]
  | display => []

namespace Document

/-- The type that a step names, as a member or as the first item. -/
def stepType? : Value → Option StepType
  | .object members => (valuesOf "type" members).head?.bind fun v => (StepType.read v).toOption
  | .array (v :: _) => (StepType.read v).toOption
  | _ => none

namespace Kind

/-- The fields of a record; those of a step depend on the type that it names. -/
def fields : Kind → Value → List Field
  | plain, _ => []
  | list _, _ => []
  | pipeline, _ => [⟨"from", plain, none⟩, ⟨"steps", list step, some (.array [])⟩]
  | step, v => ⟨"type", plain, none⟩ :: (stepType? v).elim [] StepType.fields
  | condition, _ => [⟨"column", column, none⟩, ⟨"operator", plain, none⟩, ⟨"value", column, some .null⟩]
  | orderKey, _ => [⟨"column", column, none⟩, ⟨"direction", plain, none⟩]
  | column, _ => [⟨"table", plain, none⟩, ⟨"name", plain, none⟩, ⟨"relation", relation, some .null⟩]
  | relation, _ => [⟨"as", plain, none⟩, ⟨"relation", plain, none⟩, ⟨"table", plain, none⟩, ⟨"on", base, some .null⟩]
  | base, _ => [⟨"relation", relation, some .null⟩]

def isRecord : Kind → Bool
  | plain => false
  | list _ => false
  | _ => true

def field? (k : Kind) (v : Value) (name : String) : Option Field :=
  (k.fields v).find? fun f => f.name = name

def member (k : Kind) (v : Value) (name : String) : Kind :=
  (k.field? v name).elim plain Field.kind

/-- What stands in an item of an array; a record may be given as the array of its fields. -/
def item : Kind → Value → Nat → Kind
  | list k, _, _ => k
  | k, v, i => (k.fields v)[i]?.elim plain Field.kind

end Kind

/-! ### Edits -/

/-- One change to the spelling of what stands in a place, where containers nest at most `room` deep. -/
inductive Edit : Kind → Nat → Value → Value → Prop
  | permute {k : Kind} {room : Nat} {members members' : List (String × Value)} (perm : members.Perm members') :
    Edit k room (.object members) (.object members')
  /-- A member that is no field.  Members of the pipeline itself may hold anything; what is held back has limits. -/
  | unknown {k : Kind} {room : Nat} {members : List (String × Value)} {name : String} {v : Value}
      (record : k.isRecord = true) (no_field : k.field? (.object members) name = none)
      (limits : k = .pipeline ∨ v.fits (room - 1) = true) :
    Edit k room (.object members) (.object ((name, v) :: members))
  /-- An absent field written out. -/
  | fill {k : Kind} {room : Nat} {members : List (String × Value)} {name : String} {f : Field} {v : Value}
      (field : k.field? (.object members) name = some f) (filler : f.filler = some v)
      (absent : ∀ m ∈ members, m.1 ≠ name) :
    Edit k room (.object members) (.object ((name, v) :: members))
  /-- A field that is absent at the end of an array written out. -/
  | fillItem {k : Kind} {room : Nat} {items : List Value} {f : Field} {v : Value}
      (field : (k.fields (.array items))[items.length]? = some f) (filler : f.filler = some v) :
    Edit k room (.array items) (.array (items ++ [v]))
  | member {k : Kind} {room : Nat} {before after : List (String × Value)} {name : String} {v v' : Value}
      (edit : Edit (k.member (.object (before ++ (name, v) :: after)) name) (room - 1) v v') :
    Edit k room (.object (before ++ (name, v) :: after)) (.object (before ++ (name, v') :: after))
  | item {k : Kind} {room : Nat} {before after : List Value} {v v' : Value}
      (edit : Edit (k.item (.array (before ++ v :: after)) before.length) (room - 1) v v') :
    Edit k room (.array (before ++ v :: after)) (.array (before ++ v' :: after))

/-- How an edit of a record shows in the values that are given for a field. -/
inductive Field.Edited (f : Field) (room : Nat) : List Value → List Value → Prop
  | perm {vs vs' : List Value} (perm : vs.Perm vs') : Edited f room vs vs'
  | fill {v : Value} (filler : f.filler = some v) : Edited f room [] [v]
  | inside {before after : List Value} {v v' : Value} (edit : Edit f.kind room v v') :
    Edited f room (before ++ v :: after) (before ++ v' :: after)

def MembersEdited (fields : List Field) (room : Nat) (members members' : List (String × Value)) : Prop :=
  ∀ f ∈ fields, f.Edited room (valuesOf f.name members) (valuesOf f.name members')

def ItemsEdited (fields : List Field) (room : Nat) (items items' : List Value) : Prop :=
  ∀ (i : Nat) (f : Field), fields[i]? = some f → f.Edited room items[i]?.toList items'[i]?.toList

/-- How an edit of a record shows in its fields, which are given as members or as items. -/
inductive FieldsEdited (fields : List Field) (room : Nat) : Value → Value → Prop
  | members {members members' : List (String × Value)} (edited : MembersEdited fields room members members') :
    FieldsEdited fields room (.object members) (.object members')
  | items {items items' : List Value} (length : items'.length ≤ max items.length fields.length)
      (edited : ItemsEdited fields room items items') :
    FieldsEdited fields room (.array items) (.array items')

section Several

variable {fields fields' : List Field} {room : Nat}

theorem membersEdited_append_iff {members members' : List (String × Value)} :
    MembersEdited (fields ++ fields') room members members' ↔
      MembersEdited fields room members members' ∧ MembersEdited fields' room members members' :=
  List.forall_mem_append

variable {items items' : List Value}

theorem ItemsEdited.of_append_left (h : ItemsEdited (fields ++ fields') room items items') :
    ItemsEdited fields room items items' := by
  intro i f hf
  have hi : i < fields.length := (List.getElem?_eq_some_iff.1 hf).1
  exact h i f (by rw [List.getElem?_append_left hi, hf])

theorem ItemsEdited.of_append_right (h : ItemsEdited (fields ++ fields') room items items') :
    ItemsEdited fields' room (items.drop fields.length) (items'.drop fields.length) := by
  intro i f hf
  rw [List.getElem?_drop, List.getElem?_drop]
  exact h _ f (by rw [List.getElem?_append_right (by omega), Nat.add_sub_cancel_left, hf])

end Several

private theorem Field.Edited.refl {f : Field} {room : Nat} (vs : List Value) : f.Edited room vs vs :=
  .perm (.refl vs)

/-! ### The values of a field -/

section Values

variable {name : String} {v : Value} {members members' : List (String × Value)}

private theorem valuesOf_cons_self (name : String) (v : Value) (members : List (String × Value)) :
    valuesOf name ((name, v) :: members) = v :: valuesOf name members := by
  simp [valuesOf]

private theorem valuesOf_cons_of_ne {other : String} (h : other ≠ name) :
    valuesOf name ((other, v) :: members) = valuesOf name members := by
  simp [valuesOf, h]

private theorem valuesOf_append :
    valuesOf name (members ++ members') = valuesOf name members ++ valuesOf name members' := by
  simp [valuesOf]

private theorem valuesOf_perm (h : members.Perm members') : (valuesOf name members).Perm (valuesOf name members') :=
  (h.filter _).map _

private theorem valuesOf_eq_nil (h : ∀ m ∈ members, m.1 ≠ name) : valuesOf name members = [] := by
  simpa [valuesOf] using h

end Values

/-! ### Edits of records -/

namespace Kind

variable {k : Kind} {room : Nat} {v : Value} {name : String} {f : Field}

private theorem nodup_names (k : Kind) (v : Value) : ((k.fields v).map Field.name).Nodup := by
  cases k with
  | step =>
    simp only [fields]
    cases stepType? v with
    | none => decide
    | some type => cases type <;> decide
  | _ => simp [fields]

private theorem field?_name (h : f ∈ k.fields v) : k.field? v f.name = some f := by
  have hnodup := k.nodup_names v
  unfold field?
  generalize k.fields v = fields at h hnodup
  induction fields with
  | nil => cases h
  | cons g fields ih =>
    rw [List.map_cons, List.nodup_cons] at hnodup
    rcases List.mem_cons.1 h with rfl | h
    · exact List.find?_cons_of_pos (by simp)
    · have hne : g.name ≠ f.name := fun heq => hnodup.1 (heq ▸ List.mem_map_of_mem h)
      rw [List.find?_cons_of_neg (by simpa using hne)]
      exact ih h hnodup.2

private theorem member_name (h : f ∈ k.fields v) : k.member v f.name = f.kind := by
  rw [member, field?_name h]
  rfl

private theorem item_of_getElem? {i : Nat} (h : (k.fields v)[i]? = some f) : k.item v i = f.kind := by
  cases k with
  | list => simp [fields] at h
  | _ => simp [item, h]

end Kind

theorem Edit.fieldsEdited {k : Kind} {room : Nat} {v v' : Value} (h : Edit k room v v') :
    FieldsEdited (k.fields v) (room - 1) v v' := by
  cases h with
  | permute perm => exact .members fun f _ => .perm (valuesOf_perm perm)
  | @unknown _ _ members name w record no_field limits =>
    refine .members fun f hf => ?_
    have hne : name ≠ f.name := by
      rintro rfl
      rw [Kind.field?_name hf] at no_field
      cases no_field
    rw [valuesOf_cons_of_ne hne]
    exact .refl _
  | @fill _ _ members name g w field filler absent =>
    -- the field that is written out is given once now, the others as before
    refine .members fun f hf => ?_
    by_cases hname : name = f.name
    · subst hname
      obtain rfl : f = g := Option.some.inj ((Kind.field?_name hf).symm.trans field)
      rw [valuesOf_cons_self, valuesOf_eq_nil absent]
      exact .fill filler
    · rw [valuesOf_cons_of_ne hname]
      exact .refl _
  | @fillItem _ _ items g w field filler =>
    have hlt : items.length < (k.fields (.array items)).length := (List.getElem?_eq_some_iff.1 field).1
    refine .items ?_ fun i f hf => ?_
    · rw [List.length_append, List.length_singleton]
      omega
    · rcases Nat.lt_trichotomy i items.length with hi | rfl | hi
      · rw [List.getElem?_append_left hi]
        exact .refl _
      · obtain rfl : f = g := Option.some.inj (hf.symm.trans field)
        simpa using Field.Edited.fill filler
      · rw [List.getElem?_eq_none (by omega), List.getElem?_eq_none (by simp; omega)]
        exact .refl _
  | @member _ _ before after name w w' edit =>
    refine .members fun f hf => ?_
    rw [valuesOf_append, valuesOf_append]
    by_cases hname : name = f.name
    · subst hname
      rw [valuesOf_cons_self, valuesOf_cons_self]
      rw [Kind.member_name hf] at edit
      exact .inside edit
    · rw [valuesOf_cons_of_ne hname, valuesOf_cons_of_ne hname]
      exact .refl _
  | @item _ _ before after w w' edit =>
    refine .items ?_ fun i f hf => ?_
    · simp only [List.length_append, List.length_cons]
      omega
    · by_cases hi : i = before.length
      · subst hi
        rw [Kind.item_of_getElem? hf] at edit
        have hedited : f.Edited (room - 1) ([] ++ w :: []) ([] ++ w' :: []) := .inside edit
        simpa using hedited
      · have hsame : (before ++ w :: after)[i]? = (before ++ w' :: after)[i]? := by
          rcases Nat.lt_or_gt_of_ne hi with hi | hi
          · rw [List.getElem?_append_left hi, List.getElem?_append_left hi]
          · -- behind the edited item both lists go on alike
            obtain ⟨n, hn⟩ : ∃ n, i - before.length = n + 1 := ⟨i - before.length - 1, by omega⟩
            simp only [List.getElem?_append_right (Nat.le_of_lt hi), hn, List.getElem?_cons_succ]
        rw [hsame]
        exact .refl _

/-! ### Limits -/

/-- What stands in a place inside a step. -/
def Kind.isHeld : Kind → Bool
  | plain => true
  | list k => k.isHeld
  | pipeline => false
  | step => false
  | _ => true

namespace Kind

variable {k : Kind} {v : Value} {f : Field} {name : String}

private theorem isHeld_field (hk : k.isHeld = true ∨ k = step) (hf : f ∈ k.fields v) : f.kind.isHeld = true := by
  have hall : ∀ k, k.isHeld = true ∨ k = step → (k.fields v).all (fun f => f.kind.isHeld) = true := by
    intro k hk
    cases k with
    | pipeline => simp [isHeld] at hk
    | step =>
      simp only [fields]
      cases stepType? v with
      | none => decide
      | some type => cases type <;> decide
    | _ => simp [fields, isHeld]
  exact List.all_eq_true.1 (hall k hk) f hf

private theorem isHeld_member (hk : k.isHeld = true ∨ k = step) : (k.member v name).isHeld = true := by
  unfold member
  cases hf : k.field? v name with
  | none => rfl
  | some f => exact isHeld_field hk (List.mem_of_find?_eq_some hf)

private theorem isHeld_item (hk : k.isHeld = true ∨ k = step) (i : Nat) : (k.item v i).isHeld = true := by
  have hfield : ((k.fields v)[i]?.elim plain Field.kind).isHeld = true := by
    cases hf : (k.fields v)[i]? with
    | none => rfl
    | some f => exact isHeld_field hk (List.mem_of_getElem? hf)
  cases k with
  | list k => exact hk.resolve_right Kind.noConfusion
  | _ => exact hfield

private theorem filler_eq_null {w : Value} (hk : k.isHeld = true) (hf : f ∈ k.fields v) (hw : f.filler = some w) :
    w = .null := by
  have hall : ∀ f ∈ k.fields v, ∀ w, f.filler = some w → w = .null := by
    cases k with
    | pipeline | step => cases hk
    | _ => simp [fields, eq_comm]
  exact hall f hf w hw

/-- Inside a step nothing but `null` is written for an absent field, and in the step itself an empty list at most. -/
private theorem fits_filler {room : Nat} {w : Value} (hk : k.isHeld = true ∨ k = step ∧ 1 < room) (hf : f ∈ k.fields v)
    (hw : f.filler = some w) : w.fits (room - 1) = true := by
  have hnull : Value.null.fits (room - 1) = true := by cases room - 1 <;> rfl
  rcases hk with hk | ⟨rfl, hroom⟩
  · rw [filler_eq_null hk hf hw, hnull]
  · have hempty : (Value.array []).fits (room - 1) = true := Value.fits_array_iff.2 ⟨by omega, nofun⟩
    have hall : ∀ type : StepType, ∀ f ∈ type.fields, ∀ w, f.filler = some w → w = .null ∨ w = .array [] := by
      intro type
      cases type <;> simp [StepType.fields, eq_comm]
    rcases List.mem_cons.1 hf with rfl | hf
    · cases hw
    · cases htype : stepType? v with
      | none => simp [htype] at hf
      | some type =>
        rw [htype] at hf
        rcases hall type f hf w hw with rfl | rfl
        · exact hnull
        · exact hempty

end Kind

/-- What is inside a step stays within the limits. -/
theorem Edit.fits {k : Kind} {room : Nat} {v v' : Value} (h : Edit k room v v')
    (hk : k.isHeld = true ∨ k = .step ∧ 1 < room) (hv : v.fits room = true) : v'.fits room = true := by
  induction h with
  | permute perm =>
    obtain ⟨hroom, hmembers⟩ := Value.fits_object_iff.1 hv
    exact Value.fits_object_iff.2 ⟨hroom, fun m hm => hmembers m (perm.mem_iff.2 hm)⟩
  | unknown record no_field limits =>
    obtain ⟨hroom, hmembers⟩ := Value.fits_object_iff.1 hv
    have hlimits := limits.resolve_left (by rintro rfl; rcases hk with h | ⟨h, -⟩ <;> cases h)
    exact Value.fits_object_iff.2 ⟨hroom, List.forall_mem_cons.2 ⟨hlimits, hmembers⟩⟩
  | fill field filler absent =>
    obtain ⟨hroom, hmembers⟩ := Value.fits_object_iff.1 hv
    have hfiller := Kind.fits_filler hk (List.mem_of_find?_eq_some field) filler
    exact Value.fits_object_iff.2 ⟨hroom, List.forall_mem_cons.2 ⟨hfiller, hmembers⟩⟩
  | fillItem field filler =>
    obtain ⟨hroom, hitems⟩ := Value.fits_array_iff.1 hv
    have hfiller := Kind.fits_filler hk (List.mem_of_getElem? field) filler
    exact Value.fits_array_iff.2 ⟨hroom, List.forall_mem_append.2 ⟨hitems, List.forall_mem_singleton.2 hfiller⟩⟩
  | member edit ih =>
    obtain ⟨hroom, hmembers⟩ := Value.fits_object_iff.1 hv
    obtain ⟨hbefore, hafter⟩ := List.forall_mem_append.1 hmembers
    obtain ⟨hv, hafter⟩ := List.forall_mem_cons.1 hafter
    have hv' := ih (.inl (Kind.isHeld_member (hk.imp_right And.left))) hv
    exact Value.fits_object_iff.2
      ⟨hroom, List.forall_mem_append.2 ⟨hbefore, List.forall_mem_cons.2 ⟨hv', hafter⟩⟩⟩
  | item edit ih =>
    obtain ⟨hroom, hitems⟩ := Value.fits_array_iff.1 hv
    obtain ⟨hbefore, hafter⟩ := List.forall_mem_append.1 hitems
    obtain ⟨hv, hafter⟩ := List.forall_mem_cons.1 hafter
    have hv' := ih (.inl (Kind.isHeld_item (hk.imp_right And.left) _)) hv
    exact Value.fits_array_iff.2
      ⟨hroom, List.forall_mem_append.2 ⟨hbefore, List.forall_mem_cons.2 ⟨hv', hafter⟩⟩⟩

end Document

end TableFlow
