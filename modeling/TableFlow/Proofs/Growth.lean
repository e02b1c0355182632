import TableFlow.Proofs.Construction

/-!
# Catalogs that grow

A look-up finds what comes first, so whatever is put behind the tables and relations of a catalog changes nothing that
was found in it, and neither do the columns of tables that had none (`Catalog.Grows`).  A pipeline that has a script
keeps it when the catalog grows (`Pipeline.scriptText_of_grows`); one that has none may get one.
-/

namespace TableFlow

/-- More tables and relations stand behind those of the catalog, and whatever columns a table has it keeps. -/
structure Catalog.Grows (c c' : Catalog) : Prop where
  tables : c.tables <+: c'.tables
  relations : c.relations <+: c'.relations
  columns : ∀ id columns, c.columns? id = some columns → columns ≠ [] → c'.columns? id = some columns

section Columns

variable {tables tables' : List Table}

private theorem ColumnRef.flatName_of_isPrefix (h : tables <+: tables') {c : ColumnRef} {name : String}
    (hname : c.flatName tables = .ok name) : c.flatName tables' = .ok name := by
  obtain ⟨source, column, relation⟩ := c
  cases source with
  | aggregate => exact hname
  | table id =>
    cases relation with
    | some a => exact hname
    | none =>
      simp only [flatName] at hname ⊢
      cases hfind : tables.find? fun table => table.id = id with
      | none =>
        rw [hfind] at hname
        cases hname
      | some t =>
        rw [hfind] at hname
        rw [h.find?_eq_some hfind]
        exact hname

private theorem flatNames_of_isPrefix (h : tables <+: tables') {columns : List ColumnRef} {names : List String}
    (hnames : flatNames tables columns = .ok names) : flatNames tables' columns = .ok names :=
  mapM_eq_ok_mono (fun _ _ _ => ColumnRef.flatName_of_isPrefix h) hnames

private theorem Condition.pieces_of_isPrefix (h : tables <+: tables') {c : Condition} {pieces : List Piece}
    (hpieces : c.pieces tables = .ok pieces) : c.pieces tables' = .ok pieces := by
  obtain ⟨column, operator, value⟩ := c
  simp only [Condition.pieces, bind_eq_ok_iff] at hpieces ⊢
  obtain ⟨name, hname, hrest⟩ := hpieces
  refine ⟨name, ColumnRef.flatName_of_isPrefix h hname, ?_⟩
  -- a second column stands only to the right of a comparison
  cases hform : operator.form with
  | postfixed => simpa only [hform] using hrest
  | pattern => cases value <;> simpa only [hform] using hrest
  | comparison =>
    cases value with
    | literal => simpa only [hform] using hrest
    | column other =>
      simp only [hform, bind_eq_ok_iff] at hrest ⊢
      obtain ⟨otherName, hother, hrest⟩ := hrest
      exact ⟨otherName, ColumnRef.flatName_of_isPrefix h hother, hrest⟩

private theorem Filter.transforms_of_isPrefix (h : tables <+: tables') {f : Filter} {transforms : List Transform}
    (htransforms : f.transforms tables = .ok transforms) : f.transforms tables' = .ok transforms := by
  simp only [Filter.transforms, predicate, bind_eq_ok_iff] at htransforms ⊢
  obtain ⟨condition, ⟨pieces, hpieces, hcondition⟩, hrest⟩ := htransforms
  have hpieces' := mapM_eq_ok_mono (fun _ _ _ => Condition.pieces_of_isPrefix h) hpieces
  exact ⟨condition, ⟨pieces, hpieces', hcondition⟩, hrest⟩

private theorem Order.transforms_of_isPrefix (h : tables <+: tables') {o : Order} {transforms : List Transform}
    (htransforms : o.transforms tables = .ok transforms) : o.transforms tables' = .ok transforms := by
  have hkey : ∀ k ∈ o.keys, ∀ key, k.sortKey tables = .ok key → k.sortKey tables' = .ok key := by
    intro k _ key hk
    simp only [OrderKey.sortKey, bind_eq_ok_iff] at hk ⊢
    obtain ⟨name, hname, hkey⟩ := hk
    exact ⟨name, ColumnRef.flatName_of_isPrefix h hname, hkey⟩
  simp only [Order.transforms, bind_eq_ok_iff] at htransforms ⊢
  obtain ⟨keys, hkeys, hrest⟩ := htransforms
  exact ⟨keys, mapM_eq_ok_mono hkey hkeys, hrest⟩

end Columns

/-! ### Look-ups -/

private theorem lookup_cons_eq_ite (id : TableId) (entry : TableId × List Column)
    (entries : List (TableId × List Column)) :
    (entry :: entries).lookup id = if id = entry.1 then some entry.2 else entries.lookup id := by
  by_cases h : id = entry.1
  · rw [List.lookup_cons, beq_iff_eq.2 h, if_pos h]
  · have hne : (id == entry.1) = false := beq_eq_false_iff_ne.2 h
    rw [List.lookup_cons, hne, if_neg h]

/-- The columns of one table are replaced, those of all others stay. -/
theorem Catalog.lookup_putEntry (id other : TableId) (columns : List Column)
    (entries : List (TableId × List Column)) :
    (putEntry id columns entries).lookup other = if other = id then some columns else entries.lookup other := by
  induction entries with
  | nil => exact lookup_cons_eq_ite other (id, columns) []
  | cons entry entries ih =>
    by_cases hentry : entry.1 = id
    · rw [putEntry, if_pos hentry, lookup_cons_eq_ite, lookup_cons_eq_ite, hentry]
      by_cases h : other = id <;> simp [h]
    · rw [putEntry, if_neg hentry, lookup_cons_eq_ite, lookup_cons_eq_ite, ih]
      by_cases h : other = id
      · simp [h, Ne.symm hentry]
      · simp [h]

namespace Catalog.Grows

variable {c c' : Catalog}

private theorem table (h : c.Grows c') {id : TableId} {t : Table} (ht : c.table id = .ok t) : c'.table id = .ok t := by
  rw [table_eq_ok_iff] at ht ⊢
  exact h.tables.find?_eq_some ht

private theorem relation (h : c.Grows c') {id : RelationId} {r : Relation} (hr : c.relation id = .ok r) :
    c'.relation id = .ok r := by
  rw [relation_eq_ok_iff] at hr ⊢
  exact h.relations.find?_eq_some hr

private theorem tableColumns (h : c.Grows c') {id : TableId} {columns : List Column}
    (hcolumns : c.tableColumns id = .ok columns) : c'.tableColumns id = .ok columns := by
  rw [tableColumns_eq_ok_iff] at hcolumns ⊢
  exact ⟨h.columns id columns hcolumns.1 hcolumns.2, hcolumns.2⟩

private theorem found (h : c.Grows c') {a : RelationAlias} {relation : Relation} {target : Table}
    {columns : List Column} (hfound : a.Found c relation target columns) : a.Found c' relation target columns where
  relation_eq := h.relation hfound.relation_eq
  target_eq := h.table hfound.target_eq
  columns_eq := h.tableColumns hfound.columns_eq

private theorem joins (h : c.Grows c') {label : String} {base : JoinBase} {target : Table} {columns : List Column}
    {visible : List ColumnRef} {r : Relation} {transforms : List Transform}
    (joins : r.Joins c label base target columns visible transforms) :
    r.Joins c' label base target columns visible transforms := by
  cases joins with
  | direct kind => exact .direct kind
  | through kind link_eq kept_eq linkColumns_eq =>
    exact .through kind (h.table link_eq) (flatNames_of_isPrefix h.tables kept_eq) (h.tableColumns linkColumns_eq)

/-! ### Scripts -/

/-- A step that goes through does the same in the catalog that has grown. -/
private theorem next (h : c.Grows c') {root : Table} {p q : Progress} {s : Step} (next : p.Next c root s q) :
    p.Next c' root s q := by
  cases next with
  | display => exact .display
  | select nonempty names_eq => exact .select nonempty (flatNames_of_isPrefix h.tables names_eq)
  | filter transforms_eq => exact .filter (Filter.transforms_of_isPrefix h.tables transforms_eq)
  | order transforms_eq => exact .order (Order.transforms_of_isPrefix h.tables transforms_eq)
  | take transforms_eq => exact .take transforms_eq
  | aggregate group_eq column_eq =>
    exact .aggregate (flatNames_of_isPrefix h.tables group_eq) (ColumnRef.flatName_of_isPrefix h.tables column_eq)
  | relate base_eq found joins => exact .relate base_eq (h.found found) (h.joins joins)

private theorem run (h : c.Grows c') {root : Table} {initial q : Progress} {steps : List Step}
    (run : Progress.Run c root initial steps q) : Progress.Run c' root initial steps q := by
  induction run with
  | nil => exact .nil
  | snoc _ next ih => exact ih.snoc (h.next next)

private theorem script (h : c.Grows c') {p : Pipeline} {s : Script} (hs : p.script c = .ok s) :
    p.script c' = .ok s := by
  obtain ⟨q, names, hq, hnames, rfl⟩ := Pipeline.script_eq_ok_iff.1 hs
  obtain ⟨root, columns, hroot, hcolumns, run⟩ := Pipeline.progress_eq_ok_iff.1 hq
  have hq' : p.progress c' = .ok q :=
    Pipeline.progress_eq_ok_iff.2 ⟨root, columns, h.table hroot, h.tableColumns hcolumns, h.run run⟩
  exact Pipeline.script_eq_ok_iff.2 ⟨q, names, hq', flatNames_of_isPrefix h.tables hnames, rfl⟩

/-! ### Ways to grow -/

theorem addRelation (c : Catalog) (r : Relation) : c.Grows (c.addRelation r) where
  tables := List.prefix_refl _
  relations := List.prefix_append _ _
  columns := fun _ _ h _ => h

/-- A table may be added again, with columns only if it has none. -/
theorem addTable (t : Table) (columns : List Column) (h : c.columns? t.id = none) : c.Grows (c.addTable t columns) where
  tables := List.prefix_append _ _
  relations := List.prefix_refl _
  columns := by
    intro id known hknown _
    have hid : id ≠ t.id := by
      rintro rfl
      rw [h] at hknown
      cases hknown
    rw [columns?, Catalog.addTable, putColumns, lookup_putEntry, if_neg hid]
    exact hknown

end Catalog.Grows

/-- A pipeline keeps its script when the catalog grows. -/
theorem Pipeline.scriptText_of_grows {p : Pipeline} {c c' : Catalog} {text : String}
    (htext : p.scriptText c = .ok text) (h : c.Grows c') : p.scriptText c' = .ok text := by
  obtain ⟨s, hs, rfl⟩ := map_eq_ok_iff.1 htext
  exact map_eq_ok_iff.2 ⟨s, h.script hs, rfl⟩

/-- A second table with the id of the root table, and a second relation with the id of the one that is used, come too
late to be found. -/
theorem Pipeline.scriptText_of_grows_taught :
    let p : Pipeline := ⟨⟨"t"⟩, [.relate school.taught]⟩
    let c' : Catalog := { school with
      tables := school.tables ++ [⟨⟨"t"⟩, "tutors", "private", "db"⟩]
      relations := school.relations ++ [⟨⟨"teaches"⟩, .oneToOne, ⟨"t"⟩, "id", ⟨"s"⟩, "id"⟩]
      columns := school.columns ++ [(⟨"x"⟩, [])] }
    ∃ text, p.scriptText school = .ok text ∧ school.Grows c' ∧ p.scriptText c' = .ok text := by
  intro p c'
  obtain ⟨text, htext⟩ : ∃ text, p.scriptText school = .ok text := ⟨_, rfl⟩
  have hgrows : school.Grows c' := by
    refine ⟨List.prefix_append _ _, List.prefix_append _ _, ?_⟩
    intro id columns h _
    rw [Catalog.columns?, List.lookup_append]
    exact Option.or_eq_some_iff.2 (Or.inl h)
  exact ⟨text, htext, hgrows, scriptText_of_grows htext hgrows⟩

-- a pipeline without a script may get one
example : let p : Pipeline := ⟨⟨"s"⟩, [.relate school.attended]⟩
    school.Grows school.enrolled ∧ p.scriptText school = .error (.unknownTable ⟨"e"⟩) ∧
      (p.scriptText school.enrolled).isOk = true := ⟨.addTable _ _ rfl, rfl, rfl⟩

end TableFlow
