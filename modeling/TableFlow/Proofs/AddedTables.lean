import TableFlow.Proofs.Growth

/-!
# Tables added to the empty catalog

A table that is added for a known id stands behind the one that is there, while its columns take the place of the
others.  So what is found for an id after any number of calls is the table of the first call and the columns of the
last one, and the table of the last call is found exactly if the first one gave the same
(`Catalog.lookups_after_calls`).
-/

namespace TableFlow.Catalog

/-- A call for a table with its columns. -/
abbrev Call := Table × List Column

/-- The tables of all calls, added one after the other. -/
def addTables (c : Catalog) (calls : List Call) : Catalog :=
  calls.foldl (fun c call => c.addTable call.1 call.2) c

/-- The first call for an id. -/
def firstCall? (calls : List Call) (id : TableId) : Option Call :=
  calls.find? fun call => call.1.id = id

/-! ### One call -/

section Step

variable (c : Catalog) (t : Table) (columns : List Column) (id : TableId)

private theorem columns?_addTable :
    (c.addTable t columns).columns? id = if id = t.id then some columns else c.columns? id :=
  lookup_putEntry t.id id columns c.columns

private theorem table?_addTable :
    (c.addTable t columns).table? id = (c.table? id).or (if t.id = id then some t else none) := by
  rw [table?, addTable, List.find?_append]
  by_cases h : t.id = id <;> simp [table?, h]

variable {t id}

/-- The columns of a table are those that it was added with, if there are any. -/
private theorem tableColumns_addTable :
    (c.addTable t columns).tableColumns t.id =
      if columns = [] then .error (.noColumns t.id) else .ok columns := by
  rw [tableColumns, columns?_addTable, if_pos rfl]
  cases columns <;> rfl

/-- What is found for another id is what was found before. -/
private theorem lookups_addTable_of_ne (h : id ≠ t.id) :
    (c.addTable t columns).table id = c.table id ∧
      (c.addTable t columns).tableColumns id = c.tableColumns id ∧
      ∀ name, (c.addTable t columns).column? id name = c.column? id name := by
  have htable : (c.addTable t columns).table? id = c.table? id := by
    rw [table?_addTable, if_neg h.symm, Option.or_none]
  have hcolumns : (c.addTable t columns).columns? id = c.columns? id := by
    rw [columns?_addTable, if_neg h]
  refine ⟨?_, ?_, fun name => ?_⟩
  · rw [table, htable, table]
  · rw [tableColumns, hcolumns, tableColumns]
  · rw [column?, hcolumns, column?]

end Step

/-! ### Many calls -/

section Run

variable (c : Catalog)

private theorem addTables_append (calls others : List Call) :
    c.addTables (calls ++ others) = (c.addTables calls).addTables others :=
  List.foldl_append

/-- A table that was known stays the one that is found; otherwise that of the first call is. -/
private theorem table?_addTables (calls : List Call) (id : TableId) :
    (c.addTables calls).table? id = (c.table? id).or ((firstCall? calls id).map Prod.fst) := by
  induction calls generalizing c with
  | nil => exact (Option.or_none ..).symm
  | cons call calls ih =>
    have hrest : (c.addTables (call :: calls)).table? id = _ := ih (c.addTable call.1 call.2)
    rw [hrest, table?_addTable, Option.or_assoc, firstCall?, firstCall?, List.find?_cons]
    by_cases h : call.1.id = id <;> simp [h]

/-- Calls for other tables change nothing about an id. -/
private theorem lookups_addTables_of_ne {calls : List Call} {id : TableId} (h : ∀ call ∈ calls, id ≠ call.1.id) :
    (c.addTables calls).table id = c.table id ∧ (c.addTables calls).tableColumns id = c.tableColumns id := by
  induction calls generalizing c with
  | nil => exact ⟨rfl, rfl⟩
  | cons call calls ih =>
    rw [List.forall_mem_cons] at h
    obtain ⟨htable, hcolumns, -⟩ := c.lookups_addTable_of_ne call.2 h.1
    obtain ⟨htable', hcolumns'⟩ := ih (c.addTable call.1 call.2) h.2
    exact ⟨htable'.trans htable, hcolumns'.trans hcolumns⟩

end Run

/-- After the last call for an id its columns are those of that call, and its table is that of the first call.  So both
come from the last call exactly if the first one gave the same table.  A call changes nothing that is found for any
other id, and no relation. -/
theorem lookups_after_calls (before behind : List Call) (t : Table) (columns : List Column)
    (h : ∀ call ∈ behind, t.id ≠ call.1.id) :
    let c := empty.addTables (before ++ (t, columns) :: behind)
    (c.table t.id = .ok t ↔ ∀ call ∈ firstCall? before t.id, call.1 = t) ∧
      c.tableColumns t.id = (if columns = [] then .error (.noColumns t.id) else .ok columns) ∧
      ∀ d : Catalog,
        (∀ id, id ≠ t.id →
          (d.addTable t columns).table id = d.table id ∧
            (d.addTable t columns).tableColumns id = d.tableColumns id ∧
            ∀ name, (d.addTable t columns).column? id name = d.column? id name) ∧
          ∀ id, (d.addTable t columns).relation id = d.relation id := by
  intro c
  have hc : c = ((empty.addTables before).addTable t columns).addTables behind := addTables_append ..
  obtain ⟨htable, hcolumns⟩ := ((empty.addTables before).addTable t columns).lookups_addTables_of_ne h
  refine ⟨?_, ?_, fun d => ⟨fun id hid => d.lookups_addTable_of_ne columns hid, fun id => rfl⟩⟩
  · rw [hc, htable, table_eq_ok_iff, table?_addTable, table?_addTables, if_pos rfl]
    cases hfirst : firstCall? before t.id with
    | none => simp [table?, empty]
    | some call => simp [table?, empty]
  · rw [hc, hcolumns, tableColumns_addTable]

/-- A table that is added again as it was may get other columns. -/
theorem lookups_after_calls_again :
    let students : Table := ⟨⟨"s"⟩, "students", "public", "db"⟩
    let courses : Table := ⟨⟨"c"⟩, "courses", "public", "db"⟩
    let columns := [school.number "id", school.number "year"]
    let c := empty.addTables [(students, []), (students, columns), (courses, [school.number "id"])]
    (∀ call ∈ [(courses, [school.number "id"])], students.id ≠ call.1.id) ∧
      c.table students.id = .ok students ∧ c.tableColumns students.id = .ok columns := by
  intro students courses columns c
  have hne : ∀ call ∈ [(courses, [school.number "id"])], students.id ≠ call.1.id := by decide
  have hfirst : ∀ call ∈ firstCall? [(students, [])] students.id, call.1 = students := by decide
  obtain ⟨htable, hcolumns, -⟩ := lookups_after_calls [(students, [])] _ students columns hne
  exact ⟨hne, htable.2 hfirst, hcolumns⟩

/-- Another table with the same id is not found, but its columns are. -/
theorem table_after_calls_hidden :
    let students : Table := ⟨⟨"s"⟩, "students", "public", "db"⟩
    let pupils : Table := ⟨⟨"s"⟩, "pupils", "public", "db"⟩
    let c := empty.addTables [(students, [school.number "id"]), (pupils, [school.number "year"])]
    c.table pupils.id = .ok students ∧ students ≠ pupils ∧
      c.tableColumns pupils.id = .ok [school.number "year"] :=
  ⟨rfl, by decide, rfl⟩

end TableFlow.Catalog
