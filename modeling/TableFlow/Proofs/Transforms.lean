import TableFlow.Proofs.Templates

/-!
# Transforms that are read back

A transform starts with a word that says which it is (`Transform.keyword`), and what stands behind the word is made of
names, lists in braces, templates and ranges.  So the text of a transform on a line of its own determines it, if no name
in it holds a backquote and every filter has a condition (`Transform.framed_text`).
-/

namespace TableFlow

open Script (continuesName nameText columnText framed_nameText framed_columnText)

/-! ### The names in a transform -/

/-- The names that a flat table mentions. -/
def FlatTable.mentions (t : FlatTable) : List String :=
  t.schema :: t.name :: t.columns.flatMap fun c => [c.1, c.2]

/-- The names that a transform mentions. -/
def Transform.mentions : Transform → List String
  | derive columns => columns.flatMap fun c => [c.1, c.2]
  | select columns => columns
  | filter condition => condition.mentions
  | sort keys => keys.map SortKey.column
  | aggregate group _ column label => group ++ [column, label]
  | join label table left right => table.mentions ++ [label, left, right]
  | take _ _ => []

/-! ### Parts of transforms -/

private theorem framed_derived : Framed (fun c : String × String => Unquoted c.1 ∧ Unquoted c.2) (Stops continuesName)
    fun c => (nameText c.1 ++ " = " ++ columnText c.2).toList := by
  intro a b r s ha hb hr hs heq
  simp only [String.toList_append, List.append_assoc] at heq
  obtain ⟨hname, heq⟩ := framed_nameText ha.1 hb.1 (.literal (by decide) _) (.literal (by decide) _) heq
  obtain ⟨hcolumn, hrest⟩ := framed_columnText ha.2 hb.2 hr hs (List.append_cancel_left heq)
  exact ⟨Prod.ext hname hcolumn, hrest⟩

private theorem columnText_ne_brace (name : String) (r s : List Char) :
    (columnText name).toList ++ r ≠ '\x7d' :: s := by
  intro heq
  rw [Script.toList_columnText] at heq
  exact absurd (List.cons.inj heq).1 (by decide)

private theorem framed_deriveText : Framed (∀ c ∈ ·, Unquoted c.1 ∧ Unquoted c.2) (fun _ => True)
    fun columns => (deriveText columns).toList := by
  have hbraces := framed_derived.bracedList fun c r s _ heq => by
    rw [String.toList_append, String.toList_append, List.append_assoc, List.append_assoc] at heq
    exact Script.nameText_ne_cons _ rfl (by decide) _ _ heq
  simp only [deriveText, String.toList_append]
  exact hbraces.prepend _

private theorem framed_columns : Framed (∀ c ∈ ·, Unquoted c) (fun _ => True)
    fun columns : List String => (bracedList (columns.map columnText)).toList :=
  framed_columnText.bracedList fun c r s _ => columnText_ne_brace c r s

private theorem framed_selectText : Framed (∀ c ∈ ·, Unquoted c) (fun _ => True)
    fun columns => (selectText columns).toList := by
  simp only [selectText, String.toList_append]
  exact framed_columns.prepend _

/-- The name of a table of the database. -/
theorem framed_tableName : Framed (fun t : String × String => Unquoted t.1 ∧ Unquoted t.2) (Stops continuesName)
    fun t => (Source.table t.1 t.2).text.toList := by
  intro a b r s ha hb hr hs heq
  simp only [Source.text, String.toList_append, List.append_assoc] at heq
  obtain ⟨hschema, heq⟩ := framed_nameText ha.1 hb.1 (.literal (by decide) _) (.literal (by decide) _) heq
  obtain ⟨hname, hrest⟩ := framed_nameText ha.2 hb.2 hr hs (List.append_cancel_left heq)
  exact ⟨Prod.ext hschema hname, hrest⟩

private theorem unquoted_pairs {columns : List (String × String)}
    (h : ∀ name ∈ columns.flatMap fun c => [c.1, c.2], Unquoted name) : ∀ c ∈ columns, Unquoted c.1 ∧ Unquoted c.2 := by
  intro c hc
  have hpair : ∀ name ∈ [c.1, c.2], Unquoted name := fun name hname => h name (List.mem_flatMap.2 ⟨c, hc, hname⟩)
  exact ⟨hpair _ (by simp), hpair _ (by simp)⟩

private theorem FlatTable.framed_text : Framed (fun t : FlatTable => ∀ name ∈ t.mentions, Unquoted name) (fun _ => True)
    fun t => t.text.toList := by
  have hcolumns : ∀ {t : FlatTable}, (∀ name ∈ t.mentions, Unquoted name) →
      ∀ c ∈ t.columns, Unquoted c.1 ∧ Unquoted c.2 := fun ht =>
    unquoted_pairs fun name hname => ht name (List.mem_cons_of_mem _ (List.mem_cons_of_mem _ hname))
  have hnames : ∀ {t : FlatTable}, (∀ name ∈ t.mentions, Unquoted name) → ∀ name ∈ t.names, Unquoted name := by
    intro t ht name hname
    obtain ⟨c, hc, rfl⟩ := List.mem_map.1 hname
    exact (hcolumns ht c hc).1
  have htable : ∀ {t : FlatTable}, (∀ name ∈ t.mentions, Unquoted name) → Unquoted t.schema ∧ Unquoted t.name :=
    fun ht => ⟨ht _ (by simp [mentions]), ht _ (by simp [mentions])⟩
  rintro ⟨schema, name, columns⟩ ⟨schema', name', columns'⟩ r s ha hb _ _ heq
  simp only [text, String.toList_append, List.append_assoc] at heq
  have hframed := @framed_tableName (schema, name) (schema', name')
  obtain ⟨hname, heq⟩ := hframed (htable ha) (htable hb) (.literal (by decide) _) (.literal (by decide) _)
    (List.append_cancel_left heq)
  obtain ⟨hderived, heq⟩ := framed_deriveText (hcolumns ha) (hcolumns hb) trivial trivial
    (List.append_cancel_left heq)
  obtain ⟨-, hrest⟩ := framed_selectText (hnames ha) (hnames hb) trivial trivial (List.append_cancel_left heq)
  cases hname
  cases hderived
  exact ⟨rfl, hrest⟩

private theorem SortKey.framed_text : Framed (fun k : SortKey => Unquoted k.column) (Stops continuesName)
    fun k => k.text.toList := by
  intro a b r s ha hb hr hs heq
  obtain ⟨column, descending⟩ := a
  obtain ⟨column', descending'⟩ := b
  have hsign : descending = descending' := by
    cases descending <;> cases descending' <;> simp [text, columnText] at heq ⊢
  subst hsign
  simp only [text, String.toList_append, List.append_assoc] at heq
  obtain ⟨hcolumn, hrest⟩ := framed_columnText ha hb hr hs (List.append_cancel_left heq)
  cases hcolumn
  exact ⟨rfl, hrest⟩

private theorem SortKey.framed_list : Framed (∀ k ∈ ·, Unquoted k.column) (fun _ => True)
    fun keys : List SortKey => (bracedList (keys.map SortKey.text)).toList := by
  refine SortKey.framed_text.bracedList fun k r s _ heq => ?_
  cases hdescending : k.descending <;> simp [SortKey.text, columnText, hdescending] at heq

private theorem AggregateOperation.framed_name : Framed (fun _ => True) (Stops (· != ' '))
    fun o : AggregateOperation => o.name.toList := by
  refine .of_run ?_ ?_
  · intro o _
    cases o <;> simp [name, vocabulary]
  · intro o o' _ _ h
    cases o <;> cases o' <;> first | rfl | exact absurd h (by decide)

/-- The text of one new column that draws the values of another one together. -/
def aggregateText (label : String) (operation : AggregateOperation) (column : String) : String :=
  "aggregate " ++ bracedList [nameText label ++ " = " ++ operation.name ++ " " ++ columnText column]

private theorem aggregateText_eq {label label' column column' : String} {operation operation' : AggregateOperation}
    {r s : List Char} (hlabel : Unquoted label) (hlabel' : Unquoted label') (hcolumn : Unquoted column)
    (hcolumn' : Unquoted column') (heq : (aggregateText label operation column).toList ++ r =
      (aggregateText label' operation' column').toList ++ s) :
    (label = label' ∧ operation = operation' ∧ column = column') ∧ r = s := by
  simp only [aggregateText, toList_bracedList_cons, String.toList_append, List.flatMap_nil, List.nil_append,
    List.append_assoc, List.cons_append] at heq
  have heq := (List.cons.inj (List.append_cancel_left heq)).2
  obtain ⟨hlabels, heq⟩ := framed_nameText hlabel hlabel' (.literal (by decide) _) (.literal (by decide) _) heq
  obtain ⟨hoperations, heq⟩ := AggregateOperation.framed_name trivial trivial (.literal (by decide) _)
    (.literal (by decide) _) (List.append_cancel_left heq)
  obtain ⟨hcolumns, heq⟩ := framed_columnText hcolumn hcolumn' (.cons rfl _) (.cons rfl _)
    (List.append_cancel_left heq)
  exact ⟨⟨hlabels, hoperations, hcolumns⟩, (List.cons.inj heq).2⟩

/-! ### Ranges -/

private theorem framed_count :
    Framed (fun _ : UInt64 => True) (Stops Char.isDigit) fun n => (toString n.toNat).toList := by
  have hdigits : ∀ n : UInt64, (toString n.toNat).toList = Nat.toDigits 10 n.toNat := fun _ => Nat.toList_repr
  simp only [hdigits]
  refine .of_run (fun n _ c hc => isDigit_of_mem_toDigits hc) ?_
  intro m n _ _ h
  apply UInt64.toNat_inj.1
  rw [← Nat.ofDigitChars_ten_toDigits (n := m.toNat), h, Nat.ofDigitChars_ten_toDigits]

/-- The end of a line or of everything. -/
abbrev LineEnds (rest : List Char) : Prop :=
  Stops (· != '\n') rest

theorem LineEnds.stops {p : Char → Bool} {rest : List Char} (h : LineEnds rest) (hp : p '\n' = false) :
    Stops p rest := by
  refine h.mono fun c hc => ?_
  rw [bne_iff_ne]
  rintro rfl
  rw [hp] at hc
  cases hc

theorem not_lineEnds_cons {c : Char} (hc : c ≠ '\n') (rest : List Char) : ¬ LineEnds (c :: rest) := by
  intro h
  exact hc (by simpa using h c rfl)

private theorem not_lineEnds_count (n : UInt64) (rest : List Char) :
    ¬ LineEnds ((toString n.toNat).toList ++ rest) := by
  have hdigits : (toString n.toNat).toList = Nat.toDigits 10 n.toNat := Nat.toList_repr
  rw [hdigits]
  cases hn : Nat.toDigits 10 n.toNat with
  | nil => exact absurd hn Nat.toDigits_ne_nil
  | cons c cs =>
    have hc : c.isDigit = true := isDigit_of_mem_toDigits (hn ▸ List.mem_cons_self)
    exact not_lineEnds_cons (ne_of_isDigit hc rfl) _

namespace Transform

/-- The number that the text of a range starts with and, if two points follow, the number behind them, if any. -/
def rangeParts : UInt64 → Option UInt64 → UInt64 × Option (Option UInt64)
  | first, some last => if first = 1 then (last, none) else (first, some (some last))
  | first, none => (first, some none)

private theorem rangeParts_injective {first first' : UInt64} {last last' : Option UInt64}
    (h : rangeParts first last = rangeParts first' last') : first = first' ∧ last = last' := by
  cases last <;> cases last' <;> simp only [rangeParts] at h <;> (repeat' split at h) <;> simp_all

/-- What stands behind the first number of a range. -/
def boundChars (bound : Option UInt64) : List Char :=
  ['.', '.'] ++ bound.elim [] fun n => (toString n.toNat).toList

theorem toList_rangeText (first : UInt64) (last : Option UInt64) :
    (rangeText first last).toList = (toString (rangeParts first last).1.toNat).toList ++
      (rangeParts first last).2.elim [] boundChars := by
  unfold rangeText rangeParts
  cases last with
  | none => simp [boundChars]
  | some last => by_cases h : first = 1 <;> simp [h, boundChars]

private theorem framed_rangeText : Framed (fun _ => True) LineEnds
    fun range : UInt64 × Option UInt64 => (rangeText range.1 range.2).toList := by
  have hcount : Framed (fun _ : UInt64 => True) LineEnds fun n => (toString n.toNat).toList := by
    intro m n r s _ _ hr hs heq
    exact framed_count trivial trivial (hr.stops rfl) (hs.stops rfl) heq
  have hbound : Framed (∀ b ∈ ·, ∀ n ∈ b, True) LineEnds fun o : Option (Option UInt64) => o.elim [] boundChars :=
    ((hcount.option fun n rest _ => not_lineEnds_count n rest).prepend ['.', '.']).option
      fun _ rest _ => not_lineEnds_cons (by decide) _
  -- behind the first number stand two points or the end of the line
  have hends : ∀ (o : Option (Option UInt64)) (rest : List Char), LineEnds rest →
      Stops Char.isDigit (o.elim [] boundChars ++ rest) := by
    intro o rest hrest
    cases o with
    | none => exact hrest.stops rfl
    | some b => exact .cons rfl _
  rintro ⟨first, last⟩ ⟨first', last'⟩ r s _ _ hr hs heq
  simp only [toList_rangeText, List.append_assoc] at heq
  obtain ⟨hnumber, heq⟩ := framed_count trivial trivial (hends _ r hr) (hends _ s hs) heq
  obtain ⟨hbounds, hrest⟩ := hbound (fun _ _ _ _ => trivial) (fun _ _ _ _ => trivial) hr hs heq
  obtain ⟨rfl, rfl⟩ := rangeParts_injective (Prod.ext hnumber hbounds)
  exact ⟨rfl, hrest⟩

/-! ### Transforms -/

theorem text_derive (columns : List (String × String)) : (derive columns).text = deriveText columns := rfl

theorem text_select (columns : List String) : (select columns).text = selectText columns := rfl

theorem text_filter (condition : Template) : (filter condition).text = "filter " ++ Script.templateText condition := rfl

theorem text_sort (keys : List SortKey) : (sort keys).text = "sort " ++ bracedList (keys.map SortKey.text) := rfl

theorem text_join (label : String) (table : FlatTable) (left right : String) :
    (join label table left right).text = "join side:left " ++ nameText label ++ " = (" ++ table.text ++ ") ("
      ++ columnText left ++ " == that." ++ nameText right ++ ")" := rfl

theorem text_take (first : UInt64) (last : Option UInt64) : (take first last).text = "take " ++ rangeText first last :=
  rfl

section Aggregates

variable {group : List String} {operation : AggregateOperation} {column label : String}

theorem text_aggregate_nil : (aggregate [] operation column label).text = aggregateText label operation column := rfl

theorem text_aggregate_cons {name : String} : (aggregate (name :: group) operation column label).text =
    "group " ++ bracedList ((name :: group).map columnText) ++ " (" ++ aggregateText label operation column ++ ")" :=
  rfl

end Aggregates

/-- The word that the text of a transform starts with. -/
def keyword : Transform → String
  | derive _ => "derive"
  | select _ => "select"
  | filter _ => "filter"
  | sort _ => "sort"
  | aggregate group _ _ _ => if group = [] then "aggregate" else "group"
  | join _ _ _ _ => "join"
  | take _ _ => "take"

theorem exists_toList_text (t : Transform) : ∃ rest, t.text.toList = t.keyword.toList ++ ' ' :: rest := by
  cases t with
  | derive columns => simp [text_derive, deriveText, keyword]
  | select columns => simp [text_select, selectText, keyword]
  | filter condition => simp [text_filter, keyword]
  | sort keys => simp [text_sort, keyword]
  | aggregate group => cases group <;> simp [text_aggregate_nil, text_aggregate_cons, aggregateText, keyword]
  | join label table left right => simp [text_join, keyword]
  | take first last => simp [text_take, keyword]

private theorem not_mem_keyword (t : Transform) : ∀ c ∈ t.keyword.toList, (c != ' ') = true := by
  cases t with
  | aggregate group => cases group <;> simp [keyword]
  | _ => simp [keyword]

/-- Transforms with the same text, whatever follows it, start with the same word. -/
private theorem keyword_eq {a b : Transform} {r s : List Char} (heq : a.text.toList ++ r = b.text.toList ++ s) :
    a.keyword = b.keyword := by
  have hword : Framed (fun word : String => ∀ c ∈ word.toList, (c != ' ') = true) (Stops (· != ' ')) String.toList :=
    .of_run (fun _ h => h) fun _ _ _ _ h => String.toList_inj.1 h
  obtain ⟨rest, ha⟩ := a.exists_toList_text
  obtain ⟨rest', hb⟩ := b.exists_toList_text
  rw [ha, hb, List.append_assoc, List.append_assoc] at heq
  exact (hword a.not_mem_keyword b.not_mem_keyword (.cons rfl _) (.cons rfl _) heq).1

/-- No name in the transform holds a backquote, and a filter has a condition. -/
structure Plain (t : Transform) : Prop where
  unquoted : ∀ name ∈ t.mentions, Unquoted name
  condition : ∀ c, t = .filter c → c.OfCondition

private theorem aggregate_eq {group group' : List String} {operation operation' : AggregateOperation}
    {column column' label label' : String} {r s : List Char}
    (h : ∀ name ∈ (aggregate group operation column label).mentions, Unquoted name)
    (h' : ∀ name ∈ (aggregate group' operation' column' label').mentions, Unquoted name)
    (hkeyword : (aggregate group operation column label).keyword = (aggregate group' operation' column' label').keyword)
    (heq : (aggregate group operation column label).text.toList ++ r =
      (aggregate group' operation' column' label').text.toList ++ s) :
    aggregate group operation column label = aggregate group' operation' column' label' ∧ r = s := by
  simp only [mentions, List.mem_append, List.mem_cons, List.not_mem_nil, or_false] at h h'
  have hlabel : Unquoted label := h _ (by simp)
  have hlabel' : Unquoted label' := h' _ (by simp)
  have hcolumn : Unquoted column := h _ (by simp)
  have hcolumn' : Unquoted column' := h' _ (by simp)
  cases group with
  | nil =>
    cases group' with
    | nil =>
      obtain ⟨⟨rfl, rfl, rfl⟩, hrest⟩ := aggregateText_eq hlabel hlabel' hcolumn hcolumn' heq
      exact ⟨rfl, hrest⟩
    | cons name group' => simp [keyword] at hkeyword
  | cons name group =>
    cases group' with
    | nil => simp [keyword] at hkeyword
    | cons name' group' =>
      simp only [text_aggregate_cons, String.toList_append, List.append_assoc] at heq
      obtain ⟨hgroup, heq⟩ := framed_columns (fun c hc => h c (.inl hc)) (fun c hc => h' c (.inl hc)) trivial trivial
        (List.append_cancel_left heq)
      obtain ⟨⟨rfl, rfl, rfl⟩, hrest⟩ :=
        aggregateText_eq hlabel hlabel' hcolumn hcolumn' (List.append_cancel_left heq)
      exact ⟨by rw [hgroup], List.append_cancel_left hrest⟩

private theorem join_eq {table table' : FlatTable} {label label' left left' right right' : String} {r s : List Char}
    (h : ∀ name ∈ (join label table left right).mentions, Unquoted name)
    (h' : ∀ name ∈ (join label' table' left' right').mentions, Unquoted name)
    (heq : (join label table left right).text.toList ++ r = (join label' table' left' right').text.toList ++ s) :
    join label table left right = join label' table' left' right' ∧ r = s := by
  simp only [mentions, List.mem_append, List.mem_cons, List.not_mem_nil, or_false] at h h'
  simp only [text_join, String.toList_append, List.append_assoc] at heq
  obtain ⟨hlabel, heq⟩ := framed_nameText (h _ (by simp)) (h' _ (by simp)) (.literal (by decide) _)
    (.literal (by decide) _) (List.append_cancel_left heq)
  obtain ⟨htable, heq⟩ := FlatTable.framed_text (fun c hc => h c (.inl hc)) (fun c hc => h' c (.inl hc)) trivial
    trivial (List.append_cancel_left heq)
  obtain ⟨hleft, heq⟩ := framed_columnText (h _ (by simp)) (h' _ (by simp)) (.literal (by decide) _)
    (.literal (by decide) _) (List.append_cancel_left heq)
  obtain ⟨hright, heq⟩ := framed_nameText (h _ (by simp)) (h' _ (by simp)) (.literal (by decide) _)
    (.literal (by decide) _) (List.append_cancel_left heq)
  exact ⟨by rw [hlabel, htable, hleft, hright], List.append_cancel_left heq⟩

private theorem Plain.keys {keys : List SortKey} (h : (sort keys).Plain) : ∀ k ∈ keys, Unquoted k.column :=
  fun _ hk => h.unquoted _ (List.mem_map_of_mem hk)

theorem framed_text : Framed Plain LineEnds fun t => t.text.toList := by
  intro a b r s ha hb hr hs heq
  have hkeyword := keyword_eq heq
  -- transforms that start with the same word are of the same kind
  cases a with
  | derive columns =>
    cases b with
    | derive columns' =>
      obtain ⟨rfl, hrest⟩ := framed_deriveText (unquoted_pairs ha.unquoted) (unquoted_pairs hb.unquoted)
        trivial trivial heq
      exact ⟨rfl, hrest⟩
    | _ => grind [keyword]
  | select columns =>
    cases b with
    | select columns' =>
      obtain ⟨rfl, hrest⟩ := framed_selectText ha.unquoted hb.unquoted trivial trivial heq
      exact ⟨rfl, hrest⟩
    | _ => grind [keyword]
  | filter condition =>
    cases b with
    | filter condition' =>
      simp only [text_filter, String.toList_append, List.append_assoc] at heq
      obtain ⟨rfl, hrest⟩ := Script.framed_templateText ⟨ha.condition _ rfl, ha.unquoted⟩
        ⟨hb.condition _ rfl, hb.unquoted⟩ trivial trivial (List.append_cancel_left heq)
      exact ⟨rfl, hrest⟩
    | _ => grind [keyword]
  | sort keys =>
    cases b with
    | sort keys' =>
      simp only [text_sort, String.toList_append, List.append_assoc] at heq
      obtain ⟨rfl, hrest⟩ := SortKey.framed_list ha.keys hb.keys trivial trivial (List.append_cancel_left heq)
      exact ⟨rfl, hrest⟩
    | _ => grind [keyword]
  | aggregate group operation column label =>
    cases b with
    | aggregate => exact aggregate_eq ha.unquoted hb.unquoted hkeyword heq
    | _ => grind [keyword]
  | join label table left right =>
    cases b with
    | join => exact join_eq ha.unquoted hb.unquoted heq
    | _ => grind [keyword]
  | take first last =>
    cases b with
    | take first' last' =>
      simp only [text_take, String.toList_append, List.append_assoc] at heq
      have hframed := @framed_rangeText (first, last) (first', last') r s trivial trivial hr hs
      obtain ⟨hrange, hrest⟩ := hframed (List.append_cancel_left heq)
      cases hrange
      exact ⟨rfl, hrest⟩
    | _ => grind [keyword]

end Transform

end TableFlow
