import TableFlow.Proofs.Scanning

/-!
# JSON values and their texts

The second half of reading a written value back: its tokens are put together to the value again, so a sound value is
the value of its own text (`Json.Value.Sound.ofText?_text`).  In the other direction every value of a text has integers
of 64 bits only, even where it is unreadable (`Json.Value.isExact_of_ofText?`).
-/

namespace TableFlow.Json

namespace Value

/-! ### Reading written tokens -/

/-- A value begins in the same way behind an opened array as behind a comma. -/
private theorem exists_tokens_eq_cons (v : Value) : ∃ t more, v.tokens = t :: more ∧
    ∀ frames, step (frames, .arrayOpened) t = step (.array [] :: frames, .value) t := by
  cases v <;> exact ⟨_, _, rfl, fun _ => rfl⟩

/-- The tokens are put together to the value. -/
def IsBuilt (v : Value) : Prop :=
  ∀ frames, v.tokens.foldlM step (frames, .value) = some (frames, .after v)

private theorem foldlM_itemTokens {items : List Value} (hne : items ≠ []) (h : ∀ v ∈ items, v.IsBuilt)
    (back : List Value) (frames : List Frame) :
    (itemTokens items ++ [Token.closeArray]).foldlM step (.array back :: frames, .value) =
      some (frames, .after (.array (back.reverse ++ items))) := by
  match items, hne, h with
  | [v], _, h =>
    have hclose : step (.array back :: frames, .after v) .closeArray =
        some (frames, .after (.array (v :: back).reverse)) := rfl
    rw [itemTokens, List.foldlM_append, h v List.mem_cons_self]
    simp [hclose]
  | v :: w :: items, _, h =>
    obtain ⟨hv, htail⟩ := List.forall_mem_cons.1 h
    have htokens : itemTokens (v :: w :: items) ++ [Token.closeArray] =
        v.tokens ++ .comma :: (itemTokens (w :: items) ++ [.closeArray]) := by
      simp [itemTokens]
    have hcomma : step (.array back :: frames, .after v) .comma = some (.array (v :: back) :: frames, .value) := rfl
    have hrest := foldlM_itemTokens (List.cons_ne_nil w items) htail (v :: back) frames
    rw [htokens, List.foldlM_append, hv, Option.bind_eq_bind, Option.bind_some, List.foldlM_cons, hcomma,
      Option.bind_eq_bind, Option.bind_some, hrest, List.reverse_cons, List.append_assoc, List.singleton_append]

/-- Members that were read, as they are kept. -/
def named (members : List (String × Value)) : List Member :=
  members.map fun m => (some m.1, m.2)

private theorem ofMembers_named (members : List (String × Value)) : ofMembers (named members) = .object members := by
  have hread : (named members).mapM (fun m => m.1.map fun name => (name, m.2)) = some members := by
    induction members with
    | nil => rfl
    | cons m members ih =>
      rw [named] at ih ⊢
      rw [List.map_cons, List.mapM_cons, ih]
      rfl
  rw [ofMembers, hread]

private theorem foldlM_member {name : String} {v : Value} (h : v.IsBuilt) (back : List Member) (frames : List Frame) :
    (Token.text (some name) :: .colon :: v.tokens).foldlM step (frames, .member back) =
      some (.object back (some name) :: frames, .after v) := by
  have hname : step (frames, .member back) (.text (some name)) = some (frames, .named back (some name)) := rfl
  have hcolon : step (frames, .named back (some name)) .colon = some (.object back (some name) :: frames, .value) := rfl
  rw [List.foldlM_cons, hname, Option.bind_eq_bind, Option.bind_some, List.foldlM_cons, hcolon, Option.bind_eq_bind,
    Option.bind_some, h]

private theorem foldlM_memberTokens {members : List (String × Value)} (hne : members ≠ [])
    (h : ∀ m ∈ members, m.2.IsBuilt) (back : List Member) (frames : List Frame) :
    (memberTokens members ++ [Token.closeObject]).foldlM step (frames, .member back) =
      some (frames, .after (ofMembers (back.reverse ++ named members))) := by
  match members, hne, h with
  | [(name, v)], _, h =>
    have hclose : step (.object back (some name) :: frames, .after v) .closeObject =
        some (frames, .after (ofMembers ((some name, v) :: back).reverse)) := rfl
    rw [memberTokens, List.foldlM_append, foldlM_member (h _ List.mem_cons_self)]
    simp [hclose, named]
  | (name, v) :: m :: members, _, h =>
    obtain ⟨hv, htail⟩ := List.forall_mem_cons.1 h
    have htokens : memberTokens ((name, v) :: m :: members) ++ [Token.closeObject] =
        (.text (some name) :: .colon :: v.tokens) ++ .comma :: (memberTokens (m :: members) ++ [.closeObject]) := by
      simp [memberTokens]
    have hcomma : step (.object back (some name) :: frames, .after v) .comma =
        some (frames, .member ((some name, v) :: back)) := rfl
    have hrest := foldlM_memberTokens (List.cons_ne_nil m members) htail ((some name, v) :: back) frames
    rw [htokens, List.foldlM_append, foldlM_member hv, Option.bind_eq_bind, Option.bind_some, List.foldlM_cons, hcomma,
      Option.bind_eq_bind, Option.bind_some, hrest, List.reverse_cons, List.append_assoc]
    rfl

private theorem Sound.isBuilt {room : Nat} {v : Value} (h : Sound room v) : v.IsBuilt := by
  induction h with
  | null | bool | int | double | string => exact fun _ => rfl
  | @array room items parts ih =>
    intro frames
    by_cases hempty : items = []
    · subst hempty
      rfl
    · obtain ⟨v, more, rfl⟩ := List.exists_cons_of_ne_nil hempty
      -- the first item begins in the opened array as if it stood behind a comma
      have hopen : (itemTokens (v :: more) ++ [Token.closeArray]).foldlM step (frames, .arrayOpened) =
          (itemTokens (v :: more) ++ [Token.closeArray]).foldlM step (.array [] :: frames, .value) := by
        obtain ⟨t, tokens, htokens, hstep⟩ := exists_tokens_eq_cons v
        obtain ⟨rest, hrest⟩ : ∃ rest, itemTokens (v :: more) = t :: rest := by
          cases more with
          | nil => exact ⟨tokens, htokens⟩
          | cons w more =>
            have hcons : itemTokens (v :: w :: more) = v.tokens ++ .comma :: itemTokens (w :: more) := rfl
            exact ⟨tokens ++ .comma :: itemTokens (w :: more), by rw [hcons, htokens, List.cons_append]⟩
        rw [hrest, List.cons_append, List.foldlM_cons, List.foldlM_cons, hstep]
      have hbegin : step (frames, .value) .openArray = some (frames, .arrayOpened) := rfl
      rw [tokens, List.cons_append, List.foldlM_cons, hbegin, Option.bind_eq_bind, Option.bind_some, hopen,
        foldlM_itemTokens hempty ih]
      rfl
  | @object room members parts ih =>
    intro frames
    by_cases hempty : members = []
    · subst hempty
      rfl
    · obtain ⟨⟨name, v⟩, more, rfl⟩ := List.exists_cons_of_ne_nil hempty
      have hopen : (memberTokens ((name, v) :: more) ++ [Token.closeObject]).foldlM step (frames, .objectOpened) =
          (memberTokens ((name, v) :: more) ++ [Token.closeObject]).foldlM step (frames, .member []) := by
        cases more <;> rfl
      have hbegin : step (frames, .value) .openObject = some (frames, .objectOpened) := rfl
      rw [tokens, List.cons_append, List.foldlM_cons, hbegin, Option.bind_eq_bind, Option.bind_some, hopen,
        foldlM_memberTokens hempty ih, List.reverse_nil, List.nil_append, ofMembers_named]

/-- A sound value is the value of its text. -/
theorem Sound.ofText?_text {room : Nat} {v : Value} (h : Sound room v) : ofText? v.text = some v := by
  rw [ofText?, text, String.toList_ofList, ofChars?, h.ofChars?_chars, Option.bind_eq_bind, Option.bind_some, ofTokens?,
    h.isBuilt []]
  rfl

private theorem itemsFit_iff {room : Nat} {items : List Value} :
    itemsFit room items = true ↔ ∀ v ∈ items, v.fits room = true := by
  induction items with
  | nil => simp [itemsFit]
  | cons v items ih => simp [itemsFit, ih]

private theorem membersFit_iff {room : Nat} {members : List (String × Value)} :
    membersFit room members = true ↔ ∀ m ∈ members, m.2.fits room = true := by
  induction members with
  | nil => simp [membersFit]
  | cons m members ih => simp [membersFit, ih]

theorem fits_array_iff {room : Nat} {items : List Value} :
    (array items).fits room = true ↔ 0 < room ∧ ∀ v ∈ items, v.fits (room - 1) = true := by
  cases room with
  | zero => simp [fits]
  | succ room => simp [fits, itemsFit_iff]

theorem fits_object_iff {room : Nat} {members : List (String × Value)} :
    (object members).fits room = true ↔ 0 < room ∧ ∀ m ∈ members, m.2.fits (room - 1) = true := by
  cases room with
  | zero => simp [fits]
  | succ room => simp [fits, membersFit_iff]

/-- A sound value fits, for nothing in it is unreadable. -/
theorem Sound.fits {room : Nat} {v : Value} (h : Sound room v) : v.fits room = true := by
  induction h with
  | null | bool | int | double | string => rw [Value.fits] <;> exact nofun
  | array _ ih => exact itemsFit_iff.2 ih
  | object _ ih => exact membersFit_iff.2 ih

/-! ### Integers of texts -/

/-- The integers in the value fit 64 bits. -/
inductive IsExact : Value → Prop
  | null : IsExact .null
  | bool (b : Bool) : IsExact (.bool b)
  | int {n : Int} (exact : isExactInt n = true) : IsExact (.int n)
  | double (d : Double) : IsExact (.double d)
  | string (s : String) : IsExact (.string s)
  | array {items : List Value} (parts : ∀ v ∈ items, IsExact v) : IsExact (.array items)
  | object {members : List (String × Value)} (parts : ∀ m ∈ members, IsExact m.2) : IsExact (.object members)
  | unreadable : IsExact .unreadable

private theorem isExact_numeral (n : Numeral) : n.value.IsExact := by
  rw [Numeral.value]
  generalize (if n.negative = true then -((Nat.ofDigitChars 10 n.whole 0 : Nat) : Int)
    else (Nat.ofDigitChars 10 n.whole 0 : Nat)) = signed
  split
  · rename_i h
    exact .int h.2.1
  · rw [Numeral.double]
    split
    · exact .double _
    · exact .unreadable

private theorem isExact_of_ofWord? {word : List Char} {v : Value} (h : ofWord? word = some v) : v.IsExact := by
  rw [ofWord?] at h
  split at h
  · cases h
    exact .null
  split at h
  · cases h
    exact .bool true
  split at h
  · cases h
    exact .bool false
  · obtain ⟨n, -, rfl⟩ := Option.map_eq_some_iff.1 h
    exact isExact_numeral n

end Value

/-- What every step of a run keeps holds behind the run. -/
private theorem foldlM_induction {α σ : Type} {f : σ → α → Option σ} {P : σ → Prop} {l : List α} {s s' : σ}
    (h : l.foldlM f s = some s') (step : ∀ a ∈ l, ∀ s s', f s a = some s' → P s → P s') (hs : P s) : P s' := by
  induction l generalizing s with
  | nil =>
    cases h
    exact hs
  | cons a l ih =>
    rw [List.foldlM_cons, Option.bind_eq_bind, Option.bind_eq_some_iff] at h
    obtain ⟨s₁, hfirst, hrest⟩ := h
    obtain ⟨ha, hl⟩ := List.forall_mem_cons.1 step
    exact ih hrest hl (ha s s₁ hfirst hs)

/-- The integer of the token fits 64 bits, if it is one. -/
def Token.IsExact : Token → Prop
  | .scalar v => v.IsExact
  | _ => True

namespace Scan

/-- Every token so far is exact. -/
def IsExact (s : Scan) : Prop :=
  ∀ t ∈ s.back, t.IsExact

variable {s s' : Scan} {c : Char}

private theorem isExact_fromGap {back : List Token} (h : ∀ t ∈ back, t.IsExact) : (fromGap back c).IsExact := by
  have hpunctuation : ∀ {t}, punctuation? c = some t → t.IsExact := by
    intro t ht
    unfold punctuation? at ht
    split at ht <;> cases ht <;> trivial
  rw [fromGap]
  split
  · exact h
  split
  · exact h
  split
  · rename_i t ht
    exact List.forall_mem_cons.2 ⟨hpunctuation ht, h⟩
  · exact h

private theorem isExact_of_ofBody? {body : List Char} {t : Token} (h : Token.ofBody? body = some t) : t.IsExact := by
  simp only [Token.ofBody?, Option.bind_eq_bind, Option.bind_eq_some_iff] at h
  obtain ⟨units, -, h⟩ := h
  cases h
  trivial

private theorem isExact_step (h : s.step c = some s') (hs : s.IsExact) : s'.IsExact := by
  rw [step] at h
  split at h
  · cases h
    exact isExact_fromGap hs
  · split at h
    · obtain ⟨v, hv, h⟩ := Option.bind_eq_some_iff.1 h
      cases h
      exact isExact_fromGap (List.forall_mem_cons.2 ⟨Value.isExact_of_ofWord? hv, hs⟩)
    · cases h
      exact hs
  · split at h
    · obtain ⟨t, ht, h⟩ := Option.bind_eq_some_iff.1 h
      cases h
      exact List.forall_mem_cons.2 ⟨isExact_of_ofBody? ht, hs⟩
    · split at h <;> cases h
      exact hs
  · split at h <;> cases h
    exact hs

private theorem isExact_finish {tokens : List Token} (h : s.finish = some tokens) (hs : s.IsExact) :
    ∀ t ∈ tokens, t.IsExact := by
  rw [finish] at h
  split at h
  · cases h
    exact fun t ht => hs t (List.mem_reverse.1 ht)
  · obtain ⟨v, hv, h⟩ := Option.bind_eq_some_iff.1 h
    cases h
    intro t ht
    rcases List.mem_cons.1 (List.mem_reverse.1 ht) with rfl | ht
    · exact Value.isExact_of_ofWord? hv
    · exact hs t ht
  · cases h
  · cases h

end Scan

private theorem Token.isExact_of_ofChars? {cs : List Char} {tokens : List Token} (h : Token.ofChars? cs = some tokens) :
    ∀ t ∈ tokens, t.IsExact := by
  obtain ⟨s, hs, hfinish⟩ := Option.bind_eq_some_iff.1 h
  have hstart : Scan.start.IsExact := fun t ht => absurd ht List.not_mem_nil
  exact Scan.isExact_finish hfinish (foldlM_induction hs (fun _ _ _ _ h hs => Scan.isExact_step h hs) hstart)

/-- The parts of an open container are exact. -/
def Frame.IsExact : Frame → Prop
  | .array back => ∀ v ∈ back, v.IsExact
  | .object back _ => ∀ m ∈ back, m.2.IsExact

/-- What was read last is exact. -/
def Place.IsExact : Place → Prop
  | .member back => ∀ m ∈ back, m.2.IsExact
  | .named back _ => ∀ m ∈ back, m.2.IsExact
  | .after v => v.IsExact
  | _ => True

namespace Value

/-- Everything that was read so far is exact. -/
def IsExactState (state : List Frame × Place) : Prop :=
  (∀ f ∈ state.1, f.IsExact) ∧ state.2.IsExact

private theorem isExact_ofString (s : Option String) : (ofString s).IsExact := by
  cases s with
  | none => exact .unreadable
  | some s => exact .string s

private theorem isExact_ofMembers {members : List Member} (h : ∀ m ∈ members, m.2.IsExact) :
    (ofMembers members).IsExact := by
  rw [ofMembers]
  split
  · rename_i read hread
    refine .object ?_
    induction members generalizing read with
    | nil =>
      cases hread
      exact fun m hm => absurd hm List.not_mem_nil
    | cons m members ih =>
      obtain ⟨hm, hmembers⟩ := List.forall_mem_cons.1 h
      simp only [List.mapM_cons, Option.bind_eq_bind, Option.bind_eq_some_iff, Option.map_eq_some_iff] at hread
      obtain ⟨_, ⟨name, -, rfl⟩, rest, hrest, heq⟩ := hread
      cases heq
      exact List.forall_mem_cons.2 ⟨hm, ih hmembers rest hrest⟩
  · exact .unreadable

variable {frames : List Frame} {state state' : List Frame × Place} {t : Token}

private theorem isExact_begin (h : begin frames t = some state') (ht : t.IsExact) (hframes : ∀ f ∈ frames, f.IsExact) :
    IsExactState state' := by
  unfold begin at h
  split at h <;> cases h
  · exact ⟨hframes, ht⟩
  · exact ⟨hframes, isExact_ofString _⟩
  · exact ⟨hframes, trivial⟩
  · exact ⟨hframes, trivial⟩

private theorem isExact_continued {v : Value} (h : continued v frames t = some state') (hv : v.IsExact)
    (hframes : ∀ f ∈ frames, f.IsExact) : IsExactState state' := by
  unfold continued at h
  split at h <;> cases h
  all_goals obtain ⟨hback, hframes⟩ := List.forall_mem_cons.1 hframes
  · rename_i back frames _
    have hback : ∀ w ∈ v :: back, w.IsExact := List.forall_mem_cons.2 ⟨hv, hback⟩
    exact ⟨List.forall_mem_cons.2 ⟨hback, hframes⟩, trivial⟩
  · rename_i back frames _
    have hback : ∀ w ∈ v :: back, w.IsExact := List.forall_mem_cons.2 ⟨hv, hback⟩
    exact ⟨hframes, .array fun w hw => hback w (List.mem_reverse.1 hw)⟩
  · exact ⟨hframes, List.forall_mem_cons.2 ⟨hv, hback⟩⟩
  · rename_i back name frames _
    have hback : ∀ m ∈ (name, v) :: back, m.2.IsExact := List.forall_mem_cons.2 ⟨hv, hback⟩
    exact ⟨hframes, isExact_ofMembers fun m hm => hback m (List.mem_reverse.1 hm)⟩

private theorem isExact_step (h : step state t = some state') (ht : t.IsExact) (hstate : IsExactState state) :
    IsExactState state' := by
  obtain ⟨hframes, hplace⟩ := hstate
  unfold step at h
  split at h
  · exact isExact_begin h ht hframes
  · cases h
    exact ⟨hframes, .array fun v hv => absurd hv List.not_mem_nil⟩
  · refine isExact_begin h ht (List.forall_mem_cons.2 ⟨fun v hv => absurd hv List.not_mem_nil, hframes⟩)
  · cases h
    exact ⟨hframes, .object fun m hm => absurd hm List.not_mem_nil⟩
  · cases h
    exact ⟨hframes, fun m hm => absurd hm List.not_mem_nil⟩
  · cases h
    exact ⟨hframes, hplace⟩
  · cases h
    exact ⟨List.forall_mem_cons.2 ⟨hplace, hframes⟩, trivial⟩
  · exact isExact_continued h hplace hframes
  · cases h

/-- The integers in the value of a text fit 64 bits. -/
theorem isExact_of_ofText? {text : String} {v : Value} (h : ofText? text = some v) : v.IsExact := by
  obtain ⟨tokens, htokens, h⟩ := Option.bind_eq_some_iff.1 h
  obtain ⟨state, hrun, h⟩ := Option.bind_eq_some_iff.1 h
  have hexact := Token.isExact_of_ofChars? htokens
  have hstart : IsExactState ([], .value) := ⟨fun f hf => absurd hf List.not_mem_nil, trivial⟩
  have hstate := foldlM_induction hrun (fun t ht _ _ h hs => isExact_step h (hexact t ht) hs) hstart
  split at h
  · cases h
    exact hstate.2
  · cases h

end Value

end TableFlow.Json
