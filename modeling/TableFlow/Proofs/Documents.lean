import TableFlow.Document.Layout
import TableFlow.Json.Writer
import TableFlow.Proofs.JsonText
import TableFlow.Proofs.Outcome

/-!
# Documents that are read back

A reader is stable for a way of writing when everything that it reads is read again from what is written for it
(`Document.Stable`).  A record is stable when its layout is: the fields of what was read, written as the members of an
object, give the same record (`Document.Layout.Stable.reader`).  Whatever a reader lets pass in a document, such as
fields in another order, unknown fields and lists in place of objects, is gone from what is written.
-/

namespace TableFlow.Document

open Json (Value)

/-- What is read from an exact value is written as a sound one, which nests at most `room` deep, and is read again. -/
def Stable {α : Type} (read : Reader α) (write : α → Value) (room : Nat) : Prop :=
  ∀ v a, v.IsExact → read v = .ok a → read (write a) = .ok a ∧ (write a).Sound room

/-- A text is read to the same thing as the text that is written for what was read. -/
theorem Stable.ofText {α : Type} {read : Nat → Reader α} {write : α → Value} (h : Stable (read maxDepth) write maxDepth)
    {text : String} {a : α} (ha : ofText read text = .ok a) : ofText read (write a).text = .ok a := by
  rw [Document.ofText] at ha
  split at ha
  · rename_i v hv
    obtain ⟨hread, hsound⟩ := h v a (Value.isExact_of_ofText? hv) ha
    rw [Document.ofText, hsound.ofText?_text]
    exact hread
  · cases ha

/-! ### Single values -/

section Values

variable {room : Nat}

theorem stable_string (room : Nat) : Stable string .string room := by
  intro v a _ h
  cases v with
  | string s =>
    cases h
    exact ⟨rfl, .string _⟩
  | _ => cases h

theorem stable_word64 (room : Nat) : Stable word64 (fun n => .int n.toNat) room := by
  intro v n _ _
  have hlt : n.toNat < UInt64.size := n.toNat_lt
  have hsize : ((UInt64.size : Nat) : Int) = 18446744073709551616 := rfl
  have hread : word64 (.int n.toNat) = .ok n := by
    rw [word64, if_neg (by omega), if_pos (by omega), Int.toNat_natCast, UInt64.ofNat_toNat]
  have hexact : Value.isExactInt n.toNat = true := by
    have hmin : Int64.minValue.toInt = -9223372036854775808 := rfl
    rw [Value.isExactInt, hmin, Bool.and_eq_true, decide_eq_true_eq, decide_eq_true_eq]
    omega
  exact ⟨hread, .int hexact⟩

/-- A reader under an injection. -/
theorem Stable.map {α β : Type} {read : Reader α} {write : α → Value} (h : Stable read write room) {f : α → β}
    {g : β → α} (hg : ∀ a, g (f a) = a) : Stable (fun v => (read v).map f) (fun b => write (g b)) room := by
  intro v b hv hb
  obtain ⟨a, ha, rfl⟩ := map_eq_ok_iff.1 hb
  obtain ⟨hread, hsound⟩ := h v a hv ha
  dsimp only
  rw [hg]
  exact ⟨by rw [hread]; rfl, hsound⟩

/-- A vocabulary finds what it names. -/
def Vocabulary.Finds {α : Type} (w : Vocabulary α) : Prop :=
  ∀ a, w.find (w.name a) = .ok a

theorem stable_choice {α : Type} {w : Vocabulary α} (hw : w.Finds) (mode : Mode) (room : Nat) :
    Stable (choice w mode room) (fun a => .string (w.name a)) room :=
  fun _ a _ _ => ⟨hw a, .string _⟩

theorem stable_closed {α : Type} {wanted : Wanted} {write : α → Value} : Stable (closed wanted) write room := by
  intro v a _ h
  unfold closed at h
  split at h <;> cases h

/-- The items of a list are read again one by one. -/
theorem Stable.list {α : Type} {item : Nat → Reader α} {write : α → Value}
    (h : ∀ room, Stable (item room) write room) (room : Nat) :
    Stable (Document.list item room) (fun as => .array (as.map write)) room := by
  cases room with
  | zero => exact stable_closed
  | succ room =>
    intro v as hv has
    cases v with
    | array items =>
      obtain _ | _ | _ | _ | _ | hitems := hv
      have hread : items.map (item room) = as.map .ok := mapM_eq_ok_iff.1 has
      have hall : ∀ a ∈ as, item room (write a) = .ok a ∧ (write a).Sound room := by
        intro a ha
        have hok : Except.ok a ∈ items.map (item room) := by
          rw [hread]
          exact List.mem_map_of_mem ha
        obtain ⟨v, hv, hva⟩ := List.mem_map.1 hok
        exact h room v a (hitems v hv) hva
      refine ⟨mapM_eq_ok_iff.2 ?_, .array fun v hv => ?_⟩
      · rw [List.map_map]
        exact List.map_congr_left fun a ha => (hall a ha).1
      · obtain ⟨a, ha, rfl⟩ := List.mem_map.1 hv
        exact (hall a ha).2
    | _ => cases has

end Values

/-! ### Records -/

namespace Placed

variable {α β : Type}

theorem settle_eq_ok_iff {p : Placed α} {a : α} : p.settle = .ok a ↔ p = .ok a :=
  mapError_eq_ok_iff

theorem placed_eq_ok_iff {place : Nat} {r : Except Reject α} {a : α} : placed place r = .ok a ↔ r = .ok a :=
  mapError_eq_ok_iff

theorem join_eq_ok_iff {p : Placed (α → β)} {q : Placed α} {b : β} :
    p.join q = .ok b ↔ ∃ f a, p = .ok f ∧ q = .ok a ∧ f a = b := by
  cases p <;> cases q <;> simp [join]

end Placed

/-- The values that members have under a name. -/
def valuesOf (name : String) (members : List (String × Value)) : List Value :=
  (members.filter fun m => m.1 = name).map (·.2)

theorem map_snd_occurrences (name : String) (members : List (String × Value)) :
    (occurrences name members).map (·.2) = valuesOf name members := by
  rw [occurrences, List.map_filterMap]
  generalize 0 = start
  induction members generalizing start with
  | nil => rfl
  | cons m members ih =>
    rw [List.zipIdx_cons, List.filterMap_cons, ih, valuesOf, valuesOf, List.filter_cons]
    by_cases hm : m.1 = name <;> simp [hm]

private theorem isExact_of_mem_valuesOf {name : String} {members : List (String × Value)}
    (h : ∀ m ∈ members, m.2.IsExact) {v : Value} (hv : v ∈ valuesOf name members) : v.IsExact := by
  obtain ⟨m, hm, rfl⟩ := List.mem_map.1 hv
  exact h m (List.mem_filter.1 hm).1

namespace Layout

variable {α β : Type}

/-- The layout reads this out of an exact object or an exact list. -/
def Reads (l : Layout α) (a : α) : Prop :=
  (∃ members : List (String × Value), (∀ m ∈ members, m.2.IsExact) ∧ l.ofMembers members = .ok a) ∨
    ∃ short place, ∃ items : List Value, (∀ v ∈ items, v.IsExact) ∧ l.ofItems short place items = .ok a

theorem Reads.map {l : Layout α} {f : α → β} {b : β} (h : (f <$> l).Reads b) : ∃ a, l.Reads a ∧ f a = b := by
  rcases h with ⟨members, hmembers, h⟩ | ⟨short, place, items, hitems, h⟩
  · obtain ⟨a, ha, hb⟩ := map_eq_ok_iff.1 h
    exact ⟨a, .inl ⟨members, hmembers, ha⟩, hb⟩
  · obtain ⟨a, ha, hb⟩ := map_eq_ok_iff.1 h
    exact ⟨a, .inr ⟨short, place, items, hitems, ha⟩, hb⟩

theorem Reads.seq {l : Layout (α → β)} {r : Layout α} {b : β} (h : (l <*> r).Reads b) :
    ∃ f a, l.Reads f ∧ r.Reads a ∧ f a = b := by
  rcases h with ⟨members, hmembers, h⟩ | ⟨short, place, items, hitems, h⟩
  · obtain ⟨f, a, hf, ha, hb⟩ := Placed.join_eq_ok_iff.1 h
    exact ⟨f, a, .inl ⟨members, hmembers, hf⟩, .inl ⟨members, hmembers, ha⟩, hb⟩
  · obtain ⟨f, a, hf, ha, hb⟩ := Placed.join_eq_ok_iff.1 h
    have hrest : ∀ v ∈ items.drop l.size, v.IsExact := fun v hv => hitems v (List.mem_of_mem_drop hv)
    exact ⟨f, a, .inr ⟨short, place, items, hitems, hf⟩, .inr ⟨short, _, _, hrest, ha⟩, hb⟩

section Several

variable {γ δ ε : Type} {l₁ : Layout α} {l₂ : Layout β} {l₃ : Layout γ} {l₄ : Layout δ}

theorem Reads.two {f : α → β → ε} {r : ε} (h : (f <$> l₁ <*> l₂).Reads r) :
    ∃ a b, l₁.Reads a ∧ l₂.Reads b ∧ r = f a b := by
  obtain ⟨_, b, h₁, hb, rfl⟩ := h.seq
  obtain ⟨a, ha, rfl⟩ := h₁.map
  exact ⟨a, b, ha, hb, rfl⟩

theorem Reads.three {f : α → β → γ → ε} {r : ε} (h : (f <$> l₁ <*> l₂ <*> l₃).Reads r) :
    ∃ a b c, l₁.Reads a ∧ l₂.Reads b ∧ l₃.Reads c ∧ r = f a b c := by
  obtain ⟨_, c, h₂, hc, rfl⟩ := h.seq
  obtain ⟨a, b, ha, hb, rfl⟩ := h₂.two
  exact ⟨a, b, c, ha, hb, hc, rfl⟩

theorem Reads.four {f : α → β → γ → δ → ε} {r : ε} (h : (f <$> l₁ <*> l₂ <*> l₃ <*> l₄).Reads r) :
    ∃ a b c d, l₁.Reads a ∧ l₂.Reads b ∧ l₃.Reads c ∧ l₄.Reads d ∧ r = f a b c d := by
  obtain ⟨_, d, h₃, hd, rfl⟩ := h.seq
  obtain ⟨a, b, c, ha, hb, hc, rfl⟩ := h₃.three
  exact ⟨a, b, c, d, ha, hb, hc, hd, rfl⟩

end Several

/-- A field has its default or is read from an exact value. -/
private theorem Reads.field {name : String} {absent : Option α} {read : Reader α} {a : α}
    (h : (Layout.field name absent read).Reads a) : absent = some a ∨ ∃ v : Value, v.IsExact ∧ read v = .ok a := by
  rcases h with ⟨members, hmembers, h⟩ | ⟨short, place, items, hitems, h⟩
  · have hvalues := map_snd_occurrences name members
    replace h : ofOccurrences name absent read members.length (occurrences name members) = .ok a := h
    unfold ofOccurrences at h
    split at h
    · split at h
      · cases h
        exact .inl rfl
      · cases h
    · rename_i place v hone
      rw [hone] at hvalues
      have hv : v ∈ valuesOf name members := hvalues ▸ List.mem_singleton_self v
      exact .inr ⟨v, isExact_of_mem_valuesOf hmembers hv, Placed.placed_eq_ok_iff.1 h⟩
    · split at h <;> cases h
  · cases items with
    | cons v items => exact .inr ⟨v, hitems v List.mem_cons_self, Placed.placed_eq_ok_iff.1 h⟩
    | nil =>
      cases absent with
      | none => cases h
      | some b =>
        cases h
        exact .inl rfl

section Members

variable {members : List (String × Value)}

theorem ofMembers_map {l : Layout α} {a : α} (h : l.ofMembers members = .ok a) (f : α → β) :
    (f <$> l).ofMembers members = .ok (f a) :=
  map_eq_ok_iff.2 ⟨a, h, rfl⟩

theorem ofMembers_seq {l : Layout (α → β)} {r : Layout α} {f : α → β} {a : α} (hl : l.ofMembers members = .ok f)
    (hr : r.ofMembers members = .ok a) : (l <*> r).ofMembers members = .ok (f a) :=
  Placed.join_eq_ok_iff.2 ⟨f, a, hl, hr, rfl⟩

section Several

variable {γ δ ε : Type} {l₁ : Layout α} {l₂ : Layout β} {l₃ : Layout γ} {l₄ : Layout δ} {a : α} {b : β} {c : γ} {d : δ}
  (ha : l₁.ofMembers members = .ok a) (hb : l₂.ofMembers members = .ok b) (hc : l₃.ofMembers members = .ok c)
  (hd : l₄.ofMembers members = .ok d)

include ha hb

theorem ofMembers_two (f : α → β → ε) : (f <$> l₁ <*> l₂).ofMembers members = .ok (f a b) :=
  ofMembers_seq (ofMembers_map ha f) hb

include hc

theorem ofMembers_three (f : α → β → γ → ε) : (f <$> l₁ <*> l₂ <*> l₃).ofMembers members = .ok (f a b c) :=
  ofMembers_seq (ofMembers_two ha hb f) hc

include hd

theorem ofMembers_four (f : α → β → γ → δ → ε) :
    (f <$> l₁ <*> l₂ <*> l₃ <*> l₄).ofMembers members = .ok (f a b c d) :=
  ofMembers_seq (ofMembers_three ha hb hc f) hd

end Several

/-- A field that is given once is read. -/
theorem ofMembers_field {name : String} {absent : Option α} {read : Reader α} {v : Value} {a : α}
    (hvalues : valuesOf name members = [v]) (hread : read v = .ok a) :
    (field name absent read).ofMembers members = .ok a := by
  rw [← map_snd_occurrences] at hvalues
  obtain ⟨⟨place, v'⟩, hone, hv⟩ := List.map_eq_singleton_iff.1 hvalues
  obtain rfl : v' = v := hv
  show ofOccurrences name absent read members.length (occurrences name members) = .ok a
  rw [hone]
  exact Placed.placed_eq_ok_iff.2 hread

/-- A field that is not given has its default. -/
private theorem ofMembers_field_of_absent {name : String} {read : Reader α} {a : α}
    (hvalues : valuesOf name members = []) : (field name (some a) read).ofMembers members = .ok a := by
  rw [← map_snd_occurrences, List.map_eq_nil_iff] at hvalues
  show ofOccurrences name (some a) read members.length (occurrences name members) = .ok a
  rw [hvalues]
  rfl

end Members

/-! ### Kinds of fields -/

section Fields

variable {name : String} {read : Reader α} {write : α → Value} {room : Nat} {members : List (String × Value)}

theorem Reads.required {a : α} (h : (Layout.required name read).Reads a) (hstable : Document.Stable read write room) :
    read (write a) = .ok a ∧ (write a).Sound room := by
  rcases h.field with habsent | ⟨v, hv, ha⟩
  · cases habsent
  · exact hstable v a hv ha

/-- The default has to be read again as well. -/
theorem Reads.withDefault {default a : α} (h : (Layout.withDefault name default read).Reads a)
    (hstable : Document.Stable read write room)
    (hdefault : read (write default) = .ok default ∧ (write default).Sound room) :
    read (write a) = .ok a ∧ (write a).Sound room := by
  rcases h.field with habsent | ⟨v, hv, ha⟩
  · cases habsent
    exact hdefault
  · exact hstable v a hv ha

theorem nullable_of_ne_null {v : Value} (hv : v ≠ .null) : nullable read v = (read v).map some := by
  unfold nullable
  split
  · exact absurd rfl hv
  · rfl

theorem Reads.optional {o : Option α} (h : (Layout.optional name read).Reads o)
    (hstable : Document.Stable read write room) (hnull : ∀ a, write a ≠ .null) :
    ∀ a, o = some a → nullable read (write a) = .ok (some a) ∧ (write a).Sound room := by
  rintro a rfl
  have hread : ∃ v : Value, v.IsExact ∧ read v = .ok a := by
    rcases h.field with habsent | ⟨v, hv, ha⟩
    · cases habsent
    · unfold nullable at ha
      split at ha
      · cases ha
      · obtain ⟨a', ha', h⟩ := map_eq_ok_iff.1 ha
        cases h
        exact ⟨v, hv, ha'⟩
  obtain ⟨v, hv, ha⟩ := hread
  obtain ⟨hread, hsound⟩ := hstable v a hv ha
  exact ⟨by rw [nullable_of_ne_null (hnull a), hread]; rfl, hsound⟩

/-- An optional field that is left out when there is nothing. -/
theorem ofMembers_optional {o : Option α} (hread : ∀ a, o = some a → nullable read (write a) = .ok (some a))
    (hvalues : valuesOf name members = (o.map write).toList) :
    (Layout.optional name read).ofMembers members = .ok o := by
  cases o with
  | none => exact ofMembers_field_of_absent hvalues
  | some a => exact ofMembers_field hvalues (hread a rfl)

end Fields

/-- What the layout reads is read again from the members that are written for it, which are sound. -/
def Stable (l : Layout α) (members : α → List (String × Value)) (room : Nat) : Prop :=
  ∀ a, l.Reads a → l.ofMembers (members a) = .ok a ∧ ∀ m ∈ members a, m.2.Sound room

theorem Stable.required {name : String} {read : Reader α} {write : α → Value} {room : Nat}
    (h : Document.Stable read write room) : (Layout.required name read).Stable (fun a => [(name, write a)]) room := by
  intro a ha
  obtain ⟨hread, hsound⟩ := ha.required h
  have hvalues : valuesOf name [(name, write a)] = [write a] := by simp [valuesOf]
  exact ⟨ofMembers_field hvalues hread, List.forall_mem_singleton.2 hsound⟩

/-- What a record gives is read by its layout. -/
theorem reads_of_record {l : Layout α} {name : String} {mode : Mode} {v : Value} {a : α} (hv : v.IsExact)
    (h : l.record name mode v = .ok a) : l.Reads a := by
  unfold record at h
  split at h
  · obtain _ | _ | _ | _ | _ | _ | hmembers := hv
    exact .inl ⟨_, hmembers, Placed.settle_eq_ok_iff.1 h⟩
  · obtain _ | _ | _ | _ | _ | hitems := hv
    obtain ⟨a', ha, h⟩ := bind_eq_ok_iff.1 h
    split at h <;> cases h
    exact .inr ⟨_, _, _, hitems, Placed.settle_eq_ok_iff.1 ha⟩
  · cases h

theorem record_object {l : Layout α} {members : List (String × Value)} {a : α} (h : l.ofMembers members = .ok a)
    (name : String) (mode : Mode) : l.record name mode (.object members) = .ok a :=
  Placed.settle_eq_ok_iff.2 h

theorem Stable.record {l : Layout α} {members : α → List (String × Value)} {room : Nat} (h : l.Stable members room)
    (name : String) (mode : Mode) :
    Document.Stable (l.record name mode) (fun a => .object (members a)) (room + 1) := by
  intro v a hv ha
  obtain ⟨hread, hsound⟩ := h a (reads_of_record hv ha)
  exact ⟨record_object hread name mode, .object hsound⟩

theorem Stable.reader {l : Nat → Layout α} {members : α → List (String × Value)}
    (h : ∀ room, (l room).Stable members room) (name : String) (mode : Mode) (room : Nat) :
    Document.Stable (Layout.reader name mode l room) (fun a => .object (members a)) room := by
  cases room with
  | zero => exact stable_closed
  | succ room => exact (h room).record name mode

end Layout

end TableFlow.Document
