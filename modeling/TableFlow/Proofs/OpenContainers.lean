import TableFlow.Proofs.Scanning

/-!
# What is read inside open containers

In the middle of a text some containers are open, and the next value will be a part of the innermost one, which will be
a part of the one around it, and so on.  Whatever follows in the text, no part is lost and none is put elsewhere: a
value that a word stands for is found in the whole value at the place where the word stands in the text
(`Json.Opens.encloses`).
-/

namespace TableFlow.Json

/-- The open container, closed with a value as its next part and any more behind it. -/
inductive Frame.Closes : Frame → Value → Value → Prop
  | array (back : List Value) (v : Value) (more : List Value) :
    Closes (.array back) v (.array (back.reverse ++ v :: more))
  | object (back : List Member) (name : Option String) (v : Value) (more : List Member) :
    Closes (.object back name) v (Value.ofMembers (back.reverse ++ (name, v) :: more))

/-- All open containers closed, each one being the next part of the one around it. -/
def Encloses : List Frame → Value → Value → Prop
  | [], v, whole => v = whole
  | frame :: outer, v, whole => ∃ container, frame.Closes v container ∧ Encloses outer container whole

/-- The next part of the container is a field, by its name in an object or by its place in a list. -/
def Frame.IsField (name : String) (place : Nat) : Frame → Prop
  | .object _ pending => pending = some name
  | .array back => back.length = place

/-- The next part of the container is the item of a list. -/
def Frame.IsItem (place : Nat) : Frame → Prop
  | .object _ _ => False
  | .array back => back.length = place

/-- The container has a field with a value. -/
def Value.HasField (container : Value) (name : String) (place : Nat) (v : Value) : Prop :=
  match container with
  | .object members => (name, v) ∈ members
  | .array items => items[place]? = some v
  | _ => False

namespace Value

/-! ### One token -/

/-- Where no value is complete, a token may open a container and changes none that is open. -/
private theorem step_of_not_after {frames frames' : List Frame} {place place' : Place} {t : Token}
    (h : step (frames, place) t = some (frames', place')) (hplace : ∀ v, place ≠ .after v) :
    ∃ opened, frames' = opened ++ frames := by
  have hbegin : ∀ frames, begin frames t = some (frames', place') → frames' = frames := by
    intro frames h
    cases t <;> cases h <;> rfl
  cases place with
  | value => exact ⟨[], hbegin _ h⟩
  | arrayOpened =>
    cases t with
    | closeArray =>
      cases h
      exact ⟨[], rfl⟩
    | _ => exact ⟨[.array []], hbegin _ h⟩
  | objectOpened =>
    cases t <;> cases h <;> exact ⟨[], rfl⟩
  | member back =>
    cases t <;> cases h
    exact ⟨[], rfl⟩
  | named back name =>
    cases t <;> cases h
    exact ⟨[.object back name], rfl⟩
  | after v => exact absurd rfl (hplace v)

/-- Where a value is complete, a token changes or closes the innermost container and no other one. -/
private theorem step_after {frame : Frame} {outer frames' : List Frame} {v : Value} {place' : Place} {t : Token}
    (h : step (frame :: outer, .after v) t = some (frames', place')) : ∃ changed, frames' = changed ++ outer := by
  cases frame with
  | array back =>
    cases t <;> cases h
    · exact ⟨[], rfl⟩
    · exact ⟨[_], rfl⟩
  | object back name =>
    cases t <;> cases h
    · exact ⟨[], rfl⟩
    · exact ⟨[], rfl⟩

/-- A token keeps a container that is not the innermost one, or in which no part is complete. -/
private theorem step_above {opened frames' : List Frame} {frame : Frame} {outer : List Frame} {place place' : Place}
    {t : Token} (h : step (opened ++ frame :: outer, place) t = some (frames', place'))
    (hinner : ∀ v, place = .after v → opened ≠ []) : ∃ opened', frames' = opened' ++ frame :: outer := by
  cases place with
  | after v =>
    obtain ⟨top, opened, rfl⟩ := List.exists_cons_of_ne_nil (hinner v rfl)
    obtain ⟨changed, rfl⟩ := step_after h
    exact ⟨changed ++ opened, (List.append_assoc ..).symm⟩
  | value | arrayOpened | objectOpened | member | named =>
    obtain ⟨more, rfl⟩ := step_of_not_after h fun _ => Place.noConfusion
    exact ⟨more ++ opened, (List.append_assoc ..).symm⟩

/-! ### Until the container is closed -/

/-- The container of a frame is still open, above `outer`, and has `v` as the next of its parts. -/
inductive Keeps (outer : List Frame) : Frame → Value → List Frame × Place → Prop
  | array (opened : List Frame) (back more : List Value) (v : Value) (place : Place) :
    Keeps outer (.array back) v (opened ++ .array (more ++ v :: back) :: outer, place)
  | object (opened : List Frame) (back more : List Member) (name pending : Option String) (v : Value) (place : Place) :
    Keeps outer (.object back name) v (opened ++ .object (more ++ (name, v) :: back) pending :: outer, place)
  | member (back more : List Member) (name : Option String) (v : Value) :
    Keeps outer (.object back name) v (outer, .member (more ++ (name, v) :: back))
  | named (back more : List Member) (name pending : Option String) (v : Value) :
    Keeps outer (.object back name) v (outer, .named (more ++ (name, v) :: back) pending)

section Closing

variable {outer : List Frame} {frame : Frame} {v : Value} {st st' : List Frame × Place} {t : Token}

private theorem closes_array (back more : List Value) (v : Value) :
    (Frame.array back).Closes v (.array (more ++ v :: back).reverse) := by
  rw [List.reverse_append, List.reverse_cons, List.append_assoc, List.singleton_append]
  exact .array back v more.reverse

private theorem closes_object (back more : List Member) (name : Option String) (v : Value) :
    (Frame.object back name).Closes v (ofMembers (more ++ (name, v) :: back).reverse) := by
  rw [List.reverse_append, List.reverse_cons, List.append_assoc, List.singleton_append]
  exact .object back name v more.reverse

/-- Behind its next part a container is kept or closed. -/
private theorem keeps_or_closes (h : step (frame :: outer, .after v) t = some st') :
    Keeps outer frame v st' ∨ ∃ container, frame.Closes v container ∧ st' = (outer, .after container) := by
  cases frame with
  | array back =>
    cases t <;> cases h
    · exact .inr ⟨_, closes_array back [] v, rfl⟩
    · exact .inl (.array [] back [] v .value)
  | object back name =>
    cases t <;> cases h
    · exact .inr ⟨_, closes_object back [] name v, rfl⟩
    · exact .inl (.member back [] name v)

private theorem Keeps.step (h : Keeps outer frame v st) (hstep : step st t = some st') :
    Keeps outer frame v st' ∨ ∃ container, frame.Closes v container ∧ st' = (outer, .after container) := by
  obtain ⟨frames', place'⟩ := st'
  cases h with
  | array opened back more v place =>
    by_cases hinner : ∀ w, place = .after w → opened ≠ []
    · obtain ⟨opened', rfl⟩ := step_above hstep hinner
      exact .inl (.array opened' back more v place')
    · -- one more part of the container itself
      simp only [ne_eq, Classical.not_forall, Classical.not_not] at hinner
      obtain ⟨w, rfl, rfl⟩ := hinner
      cases t <;> cases hstep
      · exact .inr ⟨_, closes_array back (w :: more) v, rfl⟩
      · exact .inl (.array [] back (w :: more) v .value)
  | object opened back more name pending v place =>
    by_cases hinner : ∀ w, place = .after w → opened ≠ []
    · obtain ⟨opened', rfl⟩ := step_above hstep hinner
      exact .inl (.object opened' back more name pending v place')
    · simp only [ne_eq, Classical.not_forall, Classical.not_not] at hinner
      obtain ⟨w, rfl, rfl⟩ := hinner
      cases t <;> cases hstep
      · exact .inr ⟨_, closes_object back ((pending, w) :: more) name v, rfl⟩
      · exact .inl (.member back ((pending, w) :: more) name v)
  | member back more name v =>
    cases t <;> cases hstep
    exact .inl (.named back more name _ v)
  | named back more name pending v =>
    cases t <;> cases hstep
    exact .inl (.object [] back more name pending v .value)

/-- The end of a text leaves nothing open. -/
private theorem Keeps.not_end {whole : Value} : ¬Keeps outer frame v ([], .after whole) := by
  generalize hend : (([], .after whole) : List Frame × Place) = st
  rintro (⟨opened, back, more, v, place⟩ | ⟨opened, back, more, name, pending, v, place⟩ | _ | _)
  · cases opened <;> cases hend
  · cases opened <;> cases hend
  · cases hend
  · cases hend

private theorem exists_step_of_foldlM {tokens : List Token} {last : List Frame × Place}
    (h : (t :: tokens).foldlM Value.step st = some last) :
    ∃ next, Value.step st t = some next ∧ tokens.foldlM Value.step next = some last := by
  rw [List.foldlM_cons] at h
  exact Option.bind_eq_some_iff.1 h

private theorem Keeps.exists_closes {tokens : List Token} {whole : Value} (h : Keeps outer frame v st)
    (hrun : tokens.foldlM Value.step st = some ([], .after whole)) :
    ∃ container, ∃ behind : List Token, frame.Closes v container ∧
      behind.foldlM Value.step (outer, .after container) = some ([], .after whole) := by
  induction tokens generalizing st with
  | nil =>
    cases hrun
    exact absurd h Keeps.not_end
  | cons t tokens ih =>
    obtain ⟨st', hstep, hrun⟩ := exists_step_of_foldlM hrun
    rcases h.step hstep with h' | ⟨container, hcloses, rfl⟩
    · exact ih h' hrun
    · exact ⟨container, tokens, hcloses, hrun⟩

/-- A complete value becomes the next part of each container around it. -/
private theorem encloses_of_run {frames : List Frame} {tokens : List Token} {whole : Value}
    (hrun : tokens.foldlM Value.step (frames, .after v) = some ([], .after whole)) : Encloses frames v whole := by
  induction frames generalizing tokens v with
  | nil =>
    cases tokens with
    | nil =>
      cases hrun
      rfl
    | cons t tokens =>
      obtain ⟨st, hstep, -⟩ := exists_step_of_foldlM hrun
      cases t <;> cases hstep
  | cons frame outer ih =>
    cases tokens with
    | nil => cases hrun
    | cons t tokens =>
      obtain ⟨st, hstep, hrun⟩ := exists_step_of_foldlM hrun
      rcases keeps_or_closes hstep with h | ⟨container, hcloses, rfl⟩
      · obtain ⟨container, behind, hcloses, hrun⟩ := h.exists_closes hrun
        exact ⟨container, hcloses, ih hrun⟩
      · exact ⟨container, hcloses, ih hrun⟩

end Closing

end Value

/-! ### Parts by name and by place -/

namespace Frame

variable {frame : Frame} {name : String} {place : Nat} {v container : Value}

private theorem mem_of_mapM_eq_some {α β : Type} {f : α → Option β} {l : List α} {bs : List β}
    (h : l.mapM f = some bs) {a : α} (ha : a ∈ l) {b : β} (hb : f a = some b) : b ∈ bs := by
  induction l generalizing bs with
  | nil => cases ha
  | cons a' l ih =>
    simp only [List.mapM_cons, Option.bind_eq_bind, Option.bind_eq_some_iff] at h
    obtain ⟨b', hb', bs', hbs', h⟩ := h
    cases h
    rcases List.mem_cons.1 ha with rfl | ha
    · obtain rfl : b = b' := Option.some.inj (hb.symm.trans hb')
      exact List.mem_cons_self
    · exact List.mem_cons_of_mem _ (ih hbs' ha)

theorem Closes.ne_null (h : frame.Closes v container) : container ≠ .null := by
  cases h with
  | array => exact Value.noConfusion
  | object back name v more =>
    unfold Value.ofMembers
    split <;> exact Value.noConfusion

/-- Only an object with an unreadable name has no fields. -/
theorem Closes.hasField (h : frame.Closes v container) (hframe : frame.IsField name place)
    (hreadable : container ≠ .unreadable) : container.HasField name place v := by
  cases h with
  | array back v more =>
    have hlength : back.reverse.length = place := List.length_reverse.trans hframe
    show (back.reverse ++ v :: more)[place]? = some v
    rw [← hlength]
    simp
  | object back pending v more =>
    obtain rfl : pending = some name := hframe
    unfold Value.ofMembers at hreadable ⊢
    split at hreadable
    · rename_i members hmembers
      exact mem_of_mapM_eq_some hmembers (List.mem_append_right _ List.mem_cons_self) rfl
    · exact absurd rfl hreadable

theorem Closes.exists_items (h : frame.Closes v container) (hframe : frame.IsItem place) :
    ∃ items, container = .array items ∧ items[place]? = some v := by
  cases h with
  | array back v more =>
    have hlength : back.reverse.length = place := List.length_reverse.trans hframe
    exact ⟨_, rfl, by rw [← hlength]; simp⟩
  | object => exact hframe.elim

end Frame

/-! ### Tokens that were scanned -/

namespace Scan

private theorem back_suffix_fromGap (back : List Token) (c : Char) : back <:+ (fromGap back c).back := by
  unfold fromGap
  split
  · exact List.suffix_refl _
  · split
    · exact List.suffix_refl _
    · split
      · exact List.suffix_cons _ _
      · exact List.suffix_refl _

private theorem back_suffix_of_step {s s' : Scan} {c : Char} (h : s.step c = some s') : s.back <:+ s'.back := by
  obtain ⟨back, inside⟩ := s
  cases inside with
  | gap =>
    cases h
    exact back_suffix_fromGap back c
  | word word =>
    simp only [step] at h
    split at h
    · obtain ⟨v, -, h⟩ := Option.bind_eq_some_iff.1 h
      cases h
      exact (List.suffix_cons _ _).trans (back_suffix_fromGap _ c)
    · cases h
      exact List.suffix_refl _
  | text body =>
    simp only [step] at h
    split at h
    · obtain ⟨t, -, h⟩ := Option.bind_eq_some_iff.1 h
      cases h
      exact List.suffix_cons _ _
    · split at h <;> cases h
      exact List.suffix_refl _
  | escape body =>
    simp only [step] at h
    split at h <;> cases h
    exact List.suffix_refl _

/-- What was scanned stays in front. -/
private theorem back_prefix_of_run {s : Scan} {cs : List Char} {tokens : List Token} (h : s.run cs = some tokens) :
    s.back.reverse <+: tokens := by
  induction cs generalizing s with
  | nil =>
    obtain ⟨back, inside⟩ := s
    cases inside with
    | gap =>
      cases h
      exact List.prefix_refl _
    | word word =>
      have hfinish : Scan.finish ⟨back, .word word⟩ = some tokens := h
      obtain ⟨v, -, htokens⟩ := Option.bind_eq_some_iff.1 hfinish
      cases htokens
      exact List.reverse_prefix.2 (List.suffix_cons _ _)
    | text | escape => cases h
  | cons c cs ih =>
    rw [run, List.foldlM_cons, Option.bind_eq_bind, Option.bind_eq_bind, Option.bind_assoc] at h
    obtain ⟨s', hstep, h⟩ := Option.bind_eq_some_iff.1 h
    exact (List.reverse_prefix.2 (back_suffix_of_step hstep)).trans (ih h)

end Scan

/-! ### Texts -/

/-- Behind this text a value may stand, inside these open containers, the innermost one first. -/
def Opens (before : List Char) (frames : List Frame) : Prop :=
  ∃ back st, before.foldlM Scan.step .start = some ⟨back, .gap⟩ ∧
    back.reverse.foldlM Value.step ([], .value) = some st ∧
    (st = (frames, .value) ∨ ∃ outer, frames = .array [] :: outer ∧ st = (outer, .arrayOpened))

/-- A word in a text stands for a part of the whole value: the next one of the containers that are open in front of
it. -/
theorem Opens.encloses {before word after : List Char} {frames : List Frame} (h : Opens before frames)
    (hne : word ≠ []) (hword : ∀ c ∈ word, Scan.isDelimiter c = false) {v : Value} (hv : Value.ofWord? word = some v)
    (hafter : Scan.Ends after) {whole : Value} (hwhole : Value.ofChars? (before ++ word ++ after) = some whole) :
    Encloses frames v whole := by
  obtain ⟨back, st, hbefore, hback, hst⟩ := h
  obtain ⟨tokens, htokens, hwhole⟩ := Option.bind_eq_some_iff.1 hwhole
  -- the word is scanned to one token, and the others stand around it
  have hrun : Scan.run ⟨.scalar v :: back, .gap⟩ after = some tokens := by
    rw [← Scan.run_word hne hword hv hafter, ← htokens, Token.ofChars?, List.append_assoc, List.foldlM_append, hbefore]
    rfl
  obtain ⟨behind, rfl⟩ := Scan.back_prefix_of_run hrun
  rw [List.reverse_cons, List.append_assoc, List.singleton_append] at hwhole
  have hvalue : Value.step st (.scalar v) = some (frames, .after v) := by
    rcases hst with rfl | ⟨outer, rfl, rfl⟩ <;> rfl
  have hfold : (back.reverse ++ .scalar v :: behind).foldlM Value.step ([], .value) =
      behind.foldlM Value.step (frames, .after v) := by
    simp [List.foldlM_append, hback, hvalue]
  obtain ⟨last, hlast, hwhole⟩ := Option.bind_eq_some_iff.1 hwhole
  rw [hfold] at hlast
  split at hwhole <;> cases hwhole
  exact Value.encloses_of_run hlast

end TableFlow.Json
