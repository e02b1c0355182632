import TableFlow.Pipeline.FlatName
import TableFlow.Proofs.Outcome

/-!
# Look-ups and flat names

When a catalog finds something, and when a column reference has a flat name: exactly if it is `Resolvable`, that is,
comes from an aggregate, names an alias, or names a table of the catalog (`exists_flatName_iff`).
-/

namespace TableFlow

/-! ### Look-ups in a catalog -/

namespace Catalog

variable {c : Catalog}

theorem table_eq_ok_iff {id : TableId} {t : Table} : c.table id = .ok t ↔ c.table? id = some t := by
  unfold table
  split <;> simp_all

theorem relation_eq_ok_iff {id : RelationId} {r : Relation} : c.relation id = .ok r ↔ c.relation? id = some r := by
  unfold relation
  split <;> simp_all

theorem tableColumns_eq_ok_iff {id : TableId} {columns : List Column} :
    c.tableColumns id = .ok columns ↔ c.columns? id = some columns ∧ columns ≠ [] := by
  unfold tableColumns
  cases c.columns? id with
  | none => simp
  | some found =>
    cases found with
    | nil => simp
    | cons d ds =>
      simp only [Except.ok.injEq, Option.some.injEq, iff_self_and]
      rintro rfl
      exact List.cons_ne_nil d ds

/-- A table that was found has the id it was looked up by. -/
theorem id_of_table_eq_ok {id : TableId} {t : Table} (h : c.table id = .ok t) : t.id = id := by
  rw [table_eq_ok_iff] at h
  simpa using List.find?_some h

private theorem exists_table_iff {id : TableId} : (∃ t, c.table id = .ok t) ↔ ∃ t ∈ c.tables, t.id = id := by
  simp only [table_eq_ok_iff, table?, ← Option.isSome_iff_exists, List.find?_isSome, decide_eq_true_eq]

/-- The catalog has a table with the id, and at least one column for it. -/
def Knows (c : Catalog) (id : TableId) : Prop :=
  (∃ t ∈ c.tables, t.id = id) ∧ ∃ columns, c.columns? id = some columns ∧ columns ≠ []

/-- A table or its columns are not found. -/
def Lacks (c : Catalog) (id : TableId) (e : Cause) : Prop :=
  c.table id = .error e ∨ ∃ t, c.table id = .ok t ∧ c.tableColumns t.id = .error e

/-- A table and its columns are found exactly for the ids that a catalog knows. -/
theorem knows_iff {id : TableId} :
    c.Knows id ↔ ∃ t columns, c.table id = .ok t ∧ c.tableColumns t.id = .ok columns := by
  unfold Knows
  rw [← exists_table_iff]
  simp only [← tableColumns_eq_ok_iff]
  constructor
  · rintro ⟨⟨t, ht⟩, columns, hcolumns⟩
    exact ⟨t, columns, ht, by rw [id_of_table_eq_ok ht]; exact hcolumns⟩
  · rintro ⟨t, columns, ht, hcolumns⟩
    rw [id_of_table_eq_ok ht] at hcolumns
    exact ⟨⟨t, ht⟩, columns, hcolumns⟩

end Catalog

/-! ### Flat names -/

/-- A reference that has a flat name: to the result of an aggregate, under an alias, or to a table that is known. -/
def ColumnRef.Resolvable (tables : List Table) (c : ColumnRef) : Prop :=
  c.source = .aggregate ∨ c.relation.isSome ∨ ∃ t ∈ tables, c.source = .table t.id

namespace ColumnRef

variable {tables : List Table}

private theorem flatName_ofTable {id : TableId} {t : Table} (h : tables.find? (fun t => t.id = id) = some t)
    (name : String) : (ofTable id name).flatName tables = .ok (t.qualifier.flat name) := by
  simp [flatName, ofTable, h]

theorem exists_flatName_iff {c : ColumnRef} : (∃ name, c.flatName tables = .ok name) ↔ c.Resolvable tables := by
  obtain ⟨source, name, relation⟩ := c
  cases source with
  | aggregate => simp [flatName, Resolvable]
  | table id =>
    cases relation with
    | some a => simp [flatName, Resolvable]
    | none =>
      have hfind : (tables.find? fun t => t.id = id).isSome ↔ ∃ t ∈ tables, t.id = id := by simp
      simp only [flatName, Resolvable, reduceCtorEq, Option.isSome_none, Bool.false_eq_true, false_or,
        ColumnSource.table.injEq]
      rw [show (∃ t ∈ tables, id = t.id) ↔ ∃ t ∈ tables, t.id = id by simp only [eq_comm], ← hfind]
      cases tables.find? fun t => t.id = id <;> simp

end ColumnRef

section FlatNames

variable {tables : List Table}

theorem flatNames_eq_ok_iff {columns : List ColumnRef} {names : List String} :
    flatNames tables columns = .ok names ↔ columns.map (ColumnRef.flatName tables) = names.map .ok :=
  mapM_eq_ok_iff

theorem exists_flatNames_iff {columns : List ColumnRef} :
    (∃ names, flatNames tables columns = .ok names) ↔ ∀ c ∈ columns, c.Resolvable tables := by
  unfold flatNames
  simp only [exists_mapM_eq_ok_iff, ColumnRef.exists_flatName_iff]

theorem flatNames_append {columns others : List ColumnRef} {names otherNames : List String}
    (h : flatNames tables columns = .ok names) (h' : flatNames tables others = .ok otherNames) :
    flatNames tables (columns ++ others) = .ok (names ++ otherNames) := by
  rw [flatNames_eq_ok_iff] at h h' ⊢
  rw [List.map_append, List.map_append, h, h']

/-- The flat names of a joined table's columns. -/
theorem flatNames_under (id : TableId) (a : RelationAlias) (columns : List Column) :
    flatNames tables (columns.map fun c => (ColumnRef.ofTable id c.name).under a) =
      .ok (columns.map fun c => (Qualifier.joined a.label).flat c.name) := by
  rw [flatNames_eq_ok_iff, List.map_map, List.map_map]
  rfl

/-- The flat names of a table's own columns. -/
theorem flatNames_ofTable {id : TableId} {t : Table} (h : tables.find? (fun t => t.id = id) = some t)
    (columns : List Column) :
    flatNames tables (columns.map fun c => .ofTable id c.name) =
      .ok (columns.map fun c => t.qualifier.flat c.name) := by
  rw [flatNames_eq_ok_iff, List.map_map, List.map_map]
  exact List.map_congr_left fun c _ => ColumnRef.flatName_ofTable h c.name

end FlatNames

/-! ### A sample -/

/-- A school where teachers teach courses and students attend them.  The table of those who attend is not known. -/
def school : Catalog where
  tables := [⟨⟨"s"⟩, "students", "public", "db"⟩, ⟨⟨"c"⟩, "courses", "public", "db"⟩,
    ⟨⟨"t"⟩, "teachers", "public", "db"⟩]
  relations := [⟨⟨"attends"⟩, .manyToMany ⟨⟨"e"⟩, "student_id", "course_id"⟩, ⟨"s"⟩, "id", ⟨"c"⟩, "id"⟩,
    ⟨⟨"teaches"⟩, .oneToMany, ⟨"t"⟩, "id", ⟨"c"⟩, "teacher_id"⟩]
  columns := [(⟨"s"⟩, [number "id"]), (⟨"c"⟩, [number "id", number "teacher_id"]), (⟨"t"⟩, [number "id"])]
where
  number (name : String) : Column := ⟨name, .number, false, none, false, false⟩

namespace school

/-- The school with the table of those who attend. -/
def enrolled : Catalog :=
  school.addTable ⟨⟨"e"⟩, "enrollments", "public", "db"⟩ [number "student_id", number "course_id"]

/-- The courses that a student attends. -/
def attended : RelationAlias := .fromRoot "course" ⟨"attends"⟩ ⟨"c"⟩ false

/-- The courses that a teacher teaches. -/
def taught : RelationAlias := .fromRoot "course" ⟨"teaches"⟩ ⟨"c"⟩ false

/-- Students in the place of the courses that a teacher teaches. -/
def pupil : RelationAlias := .fromRoot "pupil" ⟨"teaches"⟩ ⟨"s"⟩ false

/-- Students in the place of the teachers of a course. -/
def tutor : RelationAlias := .chained "tutor" ⟨"teaches"⟩ ⟨"s"⟩ taught

end school

end TableFlow
