import TableFlow.Proofs.Characters
import TableFlow.Script.Text

/-!
# Texts that say where they end

A way of writing values is framed if two written values with something behind each are the same text only when the
values are the same and so is what stands behind them (`Framed`).  What may stand behind is limited: a bare name goes
on with every letter that follows, so only other characters may follow it.  Texts that are built of framed parts are
framed, and so are lists, as long as an element cannot be taken for what follows the list.
-/

namespace TableFlow

/-- The text of a good value determines the value, and what stands behind it, if that is an end. -/
def Framed {α : Type} (good : α → Prop) (ends : List Char → Prop) (write : α → List Char) : Prop :=
  ∀ ⦃a b : α⦄ ⦃r s : List Char⦄, good a → good b → ends r → ends s → write a ++ r = write b ++ s → a = b ∧ r = s

namespace Framed

variable {α : Type} {good : α → Prop} {ends : List Char → Prop} {write : α → List Char}

theorem prepend (h : Framed good ends write) (first : List Char) : Framed good ends fun a => first ++ write a := by
  intro a b r s ha hb hr hs heq
  simp only [List.append_assoc] at heq
  exact h ha hb hr hs (List.append_cancel_left heq)

/-- Runs of one class of characters are framed by the other characters. -/
theorem of_run {p : Char → Bool} (hrun : ∀ a, good a → ∀ c ∈ write a, p c = true)
    (hwrite : ∀ a b, good a → good b → write a = write b → a = b) : Framed good (Stops p) write := by
  intro a b r s ha hb hr hs heq
  have hrest : r = s := by
    rw [← dropWhile_run (hrun a ha) hr, heq, dropWhile_run (hrun b hb) hs]
  have hwritten : write a = write b := by
    rw [← takeWhile_run (hrun a ha) hr, heq, takeWhile_run (hrun b hb) hs]
  exact ⟨hwrite a b ha hb hwritten, hrest⟩

/-- What may stand behind a list and in front of each of its elements may stand in front of the list. -/
theorem ends_flatMap {closes : List Char → Prop} (hcloses : ∀ r, closes r → ends r)
    (hnext : ∀ a r, good a → ends (write a ++ r)) {l : List α} (hl : ∀ a ∈ l, good a) {r : List Char} (hr : closes r) :
    ends (l.flatMap write ++ r) := by
  cases l with
  | nil => exact hcloses r hr
  | cons a l =>
    rw [List.flatMap_cons, List.append_assoc]
    exact hnext a _ (hl a List.mem_cons_self)

/-- A list is framed if each of its elements may follow another and none can be taken for an end of the list. -/
theorem flatMap (h : Framed good ends write) {closes : List Char → Prop} (hcloses : ∀ r, closes r → ends r)
    (hnext : ∀ a r, good a → ends (write a ++ r)) (hstart : ∀ a r, good a → ¬ closes (write a ++ r)) :
    Framed (∀ a ∈ ·, good a) closes (List.flatMap write) := by
  intro l
  induction l with
  | nil =>
    intro l' r s _ hl' hr hs heq
    cases l' with
    | nil => exact ⟨rfl, heq⟩
    | cons b l' =>
      rw [List.flatMap_nil, List.nil_append, List.flatMap_cons, List.append_assoc] at heq
      rw [heq] at hr
      exact absurd hr (hstart b _ (hl' b List.mem_cons_self))
  | cons a l ih =>
    intro l' r s hl hl' hr hs heq
    have ha : good a := hl a List.mem_cons_self
    have htail : ∀ b ∈ l, good b := fun b hb => hl b (List.mem_cons_of_mem a hb)
    cases l' with
    | nil =>
      rw [List.flatMap_nil, List.nil_append, List.flatMap_cons, List.append_assoc] at heq
      rw [← heq] at hs
      exact absurd hs (hstart a _ ha)
    | cons b l' =>
      have htail' : ∀ c ∈ l', good c := fun c hc => hl' c (List.mem_cons_of_mem b hc)
      simp only [List.flatMap_cons, List.append_assoc] at heq
      obtain ⟨rfl, hrest⟩ := h ha (hl' b List.mem_cons_self) (ends_flatMap hcloses hnext htail hr)
        (ends_flatMap hcloses hnext htail' hs) heq
      obtain ⟨rfl, rfl⟩ := ih htail htail' hr hs hrest
      exact ⟨rfl, rfl⟩

/-- A value that may be missing is framed, if its text cannot be taken for what follows. -/
theorem option (h : Framed good ends write) (hstart : ∀ a r, good a → ¬ ends (write a ++ r)) :
    Framed (∀ a ∈ ·, good a) ends fun o : Option α => o.elim [] write := by
  intro o o' r s ho ho' hr hs heq
  cases o with
  | none =>
    cases o' with
    | none => exact ⟨rfl, heq⟩
    | some b =>
      simp only [Option.elim_none, Option.elim_some, List.nil_append] at heq
      rw [heq] at hr
      exact absurd hr (hstart b _ (ho' b rfl))
  | some a =>
    cases o' with
    | none =>
      simp only [Option.elim_none, Option.elim_some, List.nil_append] at heq
      rw [← heq] at hs
      exact absurd hs (hstart a _ (ho a rfl))
    | some b =>
      obtain ⟨rfl, hrest⟩ := h (ho a rfl) (ho' b rfl) hr hs heq
      exact ⟨rfl, hrest⟩

end Framed

/-! ### Names -/

/-- The name holds no backquote. -/
def Unquoted (name : String) : Prop :=
  '\x60' ∉ name.toList

instance (name : String) : Decidable (Unquoted name) :=
  inferInstanceAs (Decidable (_ ∉ _))

namespace Script

/-- A name is written as a word, or between backquotes. -/
theorem toList_nameText (name : String) :
    (isWord name.toList = true ∧ (nameText name).toList = name.toList) ∨
      (nameText name).toList = '\x60' :: (name.toList ++ ['\x60']) := by
  unfold nameText
  split
  · rename_i h
    rw [Bool.and_eq_true] at h
    exact Or.inl ⟨h.1, rfl⟩
  · exact Or.inr (by simp)

theorem continuesName_of_isWord {cs : List Char} (h : isWord cs = true) : ∀ c ∈ cs, continuesName c = true := by
  intro c hc
  cases cs with
  | nil => cases hc
  | cons d cs =>
    rw [isWord, Bool.and_eq_true, List.all_eq_true] at h
    rcases List.mem_cons.1 hc with rfl | hc
    · rw [continuesName, h.1, Bool.true_or]
    · exact h.2 c hc

private theorem word_ne_cons {word : List Char} (hword : isWord word = true) {c : Char} (hc : startsName c = false)
    (r s : List Char) : word ++ r ≠ c :: s := by
  intro h
  cases word with
  | nil => cases hword
  | cons d word =>
    obtain rfl : d = c := (List.cons.inj h).1
    rw [isWord, hc, Bool.false_and] at hword
    cases hword

/-- A name starts with a backquote if it does not start as a word. -/
theorem nameText_ne_cons (name : String) {c : Char} (hc : startsName c = false) (hquote : c ≠ '\x60')
    (r s : List Char) : (nameText name).toList ++ r ≠ c :: s := by
  intro h
  rcases toList_nameText name with ⟨hword, hname⟩ | hname
  · rw [hname] at h
    exact word_ne_cons hword hc r s h
  · rw [hname] at h
    exact hquote (List.cons.inj h).1.symm

theorem framed_nameText : Framed Unquoted (Stops continuesName) fun name => (nameText name).toList := by
  intro a b r s ha hb hr hs heq
  simp only at heq
  rcases toList_nameText a with ⟨hwordA, hA⟩ | hA <;> rcases toList_nameText b with ⟨hwordB, hB⟩ | hB <;>
    rw [hA, hB] at heq
  · -- two words end where the name cannot go on
    have hwords : Framed (fun name : String => isWord name.toList = true) (Stops continuesName) String.toList :=
      .of_run (fun name hname => continuesName_of_isWord hname) fun _ _ _ _ h => String.toList_inj.1 h
    exact hwords hwordA hwordB hr hs heq
  · exact absurd heq (word_ne_cons hwordA rfl r _)
  · exact absurd heq.symm (word_ne_cons hwordB rfl s _)
  · -- two names between backquotes end at the second one
    have hquoted : Framed Unquoted (Stops (· != '\x60')) String.toList :=
      .of_run (fun name hname c hc => by simpa using fun h : c = '\x60' => hname (h ▸ hc))
        fun _ _ _ _ h => String.toList_inj.1 h
    simp only [List.cons_append, List.append_assoc, List.nil_append, List.cons.injEq, true_and] at heq
    obtain ⟨hname, hrest⟩ := hquoted ha hb (.cons rfl _) (.cons rfl _) heq
    exact ⟨hname, (List.cons.inj hrest).2⟩

theorem toList_columnText (name : String) :
    (columnText name).toList = ['t', 'h', 'i', 's', '.'] ++ (nameText name).toList := by
  simp [columnText]

theorem framed_columnText : Framed Unquoted (Stops continuesName) fun name => (columnText name).toList := by
  simp only [toList_columnText]
  exact framed_nameText.prepend _

end Script

/-! ### Lists in braces -/

private theorem intercalate_cons (separator first : List Char) (rest : List (List Char)) :
    separator.intercalate (first :: rest) = first ++ rest.flatMap fun next => separator ++ next := by
  induction rest generalizing first with
  | nil => simp
  | cons next rest ih => rw [List.intercalate_cons_cons, ih, List.flatMap_cons, List.append_assoc, List.append_assoc]

private theorem toList_bracedList_nil : (bracedList []).toList = ['\x7b', '\x7d'] := by
  simp [bracedList]

theorem toList_bracedList_cons (first : String) (rest : List String) :
    (bracedList (first :: rest)).toList =
      '\x7b' :: (first.toList ++ ((rest.flatMap fun text => [',', ' '] ++ text.toList) ++ ['\x7d'])) := by
  simp [bracedList, intercalate_cons, List.flatMap_map]

section Elements

variable {α : Type} {good : α → Prop} {write : α → String}

/-- Behind an element stands a comma or a brace. -/
private theorem stops_elements (l : List α) (r : List Char) : Stops Script.continuesName
    ((l.flatMap fun a => [',', ' '] ++ (write a).toList) ++ '\x7d' :: r) := by
  cases l <;> exact .cons rfl _

private theorem Framed.elements (h : Framed good (Stops Script.continuesName) fun a => (write a).toList) :
    Framed (∀ a ∈ ·, good a) (fun r => ∃ rest, r = '\x7d' :: rest)
      (List.flatMap fun a => [',', ' '] ++ (write a).toList) := by
  refine (h.prepend [',', ' ']).flatMap ?_ ?_ ?_
  · rintro _ ⟨rest, rfl⟩
    exact .cons rfl rest
  · intro a r _
    exact .cons rfl _
  · rintro a r _ ⟨rest, hclose⟩
    exact absurd (List.cons.inj hclose).1 (by decide)

/-- Elements that start with no closing brace may stand in braces, if a comma and a brace may follow them. -/
theorem Framed.bracedList (h : Framed good (Stops Script.continuesName) fun a => (write a).toList)
    (hstart : ∀ a r s, good a → (write a).toList ++ r ≠ '\x7d' :: s) :
    Framed (∀ a ∈ ·, good a) (fun _ => True) fun l : List α => (TableFlow.bracedList (l.map write)).toList := by
  intro l l' r s hl hl' _ _ heq
  cases l with
  | nil =>
    cases l' with
    | nil => exact ⟨rfl, List.append_cancel_left heq⟩
    | cons b l' =>
      simp only [List.map_nil, List.map_cons, toList_bracedList_nil, toList_bracedList_cons, List.cons_append,
        List.append_assoc, List.cons.injEq, true_and] at heq
      exact absurd heq.symm (hstart b _ _ (hl' b List.mem_cons_self))
  | cons a l =>
    cases l' with
    | nil =>
      simp only [List.map_nil, List.map_cons, toList_bracedList_nil, toList_bracedList_cons, List.cons_append,
        List.append_assoc, List.cons.injEq, true_and] at heq
      exact absurd heq (hstart a _ _ (hl a List.mem_cons_self))
    | cons b l' =>
      simp only [List.map_cons, toList_bracedList_cons, List.flatMap_map, List.cons_append, List.append_assoc,
        List.nil_append, List.cons.injEq, true_and] at heq
      obtain ⟨rfl, hrest⟩ := h (hl a List.mem_cons_self) (hl' b List.mem_cons_self) (stops_elements l r)
        (stops_elements l' s) heq
      obtain ⟨rfl, hclose⟩ := h.elements (fun c hc => hl c (List.mem_cons_of_mem a hc))
        (fun c hc => hl' c (List.mem_cons_of_mem a hc)) ⟨r, rfl⟩ ⟨s, rfl⟩ hrest
      exact ⟨rfl, (List.cons.inj hclose).2⟩

end Elements

end TableFlow
