import Mathlib.Data.List.Induction
import Mathlib.Data.List.Nodup
import TableFlow.Proofs.JoinedRows
import TableFlow.Proofs.Naming

/-!
# What a flat table holds

A flat table makes its columns one after another.  Each of them copies a column of the table, and from then on it is
there beside the columns of the table and hides one of its own name.  So a column whose name is the flat name of an
earlier one is hidden when its turn comes, and the value of the earlier one is copied in its place.

A flat table has the columns that it should have, in order, and it holds the values of the table exactly if no such
column has another value than the one that hides it (`Table.row_flattened_iff`).
-/

namespace TableFlow

variable {V : Type}

/-! ### Columns made one after another -/

namespace Row

/-- The row with one more column, which copies another one and hides those of its own name. -/
def copied? (row : Row V) (c : String × String) : Option (Row V) :=
  (row.lookup c.2).map fun value => (c.1, value) :: row

/-- The columns of a row under these names, if all of them are there. -/
def selected? (row : Row V) (names : List String) : Option (Row V) :=
  names.mapM fun name => (row.lookup name).map fun value => (name, value)

end Row

/-- A row with new columns, or with those that are selected.  The other transforms are not about a row by itself. -/
def Transform.row? (row : Row V) : Transform → Option (Row V)
  | derive columns => columns.foldlM Row.copied? row
  | select names => row.selected? names
  | _ => none

/-- A row behind all transforms of a flow. -/
def Flow.row? (f : Flow) (row : Row V) : Option (Row V) :=
  f.transforms.foldlM Transform.row? row

section Copies

variable {q : Qualifier} {columns : List Column} {row : Row V} {values : String → V}

/-- A column that is copied behind others has its own value exactly if each of these that has its name has it too. -/
private theorem exists_lookup_of_named (hnodup : (columns.map Column.name).Nodup) {name : String}
    (hrow : row.lookup name = some (values name)) :
    ∃ value, ((q.named columns values).reverse ++ row).lookup name = some value ∧
      (value = values name ↔ ∀ c ∈ columns, q.flat c.name = name → values c.name = values name) := by
  have hnames : (Row.names (q.named columns values).reverse).Nodup := by
    have hreverse : Row.names (q.named columns values).reverse = (q.names columns).reverse := by
      rw [Row.names, List.map_reverse]
      exact congrArg List.reverse (Qualifier.names_named values)
    rw [hreverse, List.nodup_reverse]
    exact q.nodup_flat hnodup
  by_cases hhidden : ∃ c ∈ columns, q.flat c.name = name
  · obtain ⟨c, hc, rfl⟩ := hhidden
    have hmem : (q.flat c.name, values c.name) ∈ (q.named columns values).reverse :=
      List.mem_reverse.2 (List.mem_map_of_mem hc)
    refine ⟨values c.name, ?_, ?_⟩
    · rw [List.lookup_append, Row.lookup_of_mem hmem hnames, Option.some_or]
    · constructor
      · intro hvalue d hd hflat
        rw [Qualifier.flat_inj.1 hflat, hvalue]
      · intro hall
        exact hall c hc rfl
  · refine ⟨values name, ?_, ?_⟩
    · have habsent : name ∉ Row.names (q.named columns values).reverse := by
        intro hmem
        rw [Row.names, List.map_reverse, List.mem_reverse] at hmem
        have hmem' : name ∈ q.names columns := Qualifier.names_named values ▸ hmem
        exact hhidden (List.mem_map.1 hmem')
      rw [List.lookup_append, Row.lookup_eq_none habsent, Option.none_or, hrow]
    · exact iff_of_true rfl fun c hc hflat => absurd ⟨c, hc, hflat⟩ hhidden

/-- The columns are made under their flat names, and with their own values exactly if no column hides another one that
has another value. -/
private theorem exists_copied (hnodup : (columns.map Column.name).Nodup)
    (hrow : ∀ c ∈ columns, row.lookup c.name = some (values c.name)) :
    ∃ made : Row V, (columns.map fun c => (q.flat c.name, c.name)).foldlM Row.copied? row = some (made.reverse ++ row) ∧
      Row.names made = q.names columns ∧
      (made = q.named columns values ↔
        columns.Pairwise fun c d => q.flat c.name = d.name → values c.name = values d.name) := by
  -- from the back, so that the last column is copied from a row with all others in it
  induction columns using List.reverseRecOn with
  | nil => exact ⟨[], rfl, rfl, iff_of_true rfl .nil⟩
  | append_singleton columns d ih =>
    rw [List.map_append, List.nodup_append] at hnodup
    rw [List.forall_mem_append, List.forall_mem_singleton] at hrow
    obtain ⟨made, hmade, hnames, hiff⟩ := ih hnodup.1 hrow.1
    obtain ⟨value, hvalue⟩ : ∃ value, (made.reverse ++ row).lookup d.name = some value := by
      rw [List.lookup_append, hrow.2]
      cases made.reverse.lookup d.name with
      | none => exact ⟨_, rfl⟩
      | some value => exact ⟨value, rfl⟩
    refine ⟨made ++ [(q.flat d.name, value)], ?_, ?_, ?_⟩
    · have hlast : Row.copied? (made.reverse ++ row) (q.flat d.name, d.name) =
          some ((made ++ [(q.flat d.name, value)]).reverse ++ row) := by
        rw [Row.copied?, hvalue]
        simp
      rw [List.map_append, List.foldlM_append, hmade]
      simp [hlast]
    · rw [Row.names_append, hnames]
      simp [Row.names, Qualifier.names]
    · have hsnoc : q.named (columns ++ [d]) values = q.named columns values ++ [(q.flat d.name, values d.name)] :=
        List.map_append
      have hlast : made = q.named columns values →
          (value = values d.name ↔ ∀ c ∈ columns, q.flat c.name = d.name → values c.name = values d.name) := by
        rintro rfl
        obtain ⟨value', hvalue', hiff'⟩ := exists_lookup_of_named (q := q) hnodup.1 hrow.2
        obtain rfl : value = value' := Option.some.inj (hvalue.symm.trans hvalue')
        exact hiff'
      rw [hsnoc, List.append_singleton_inj, Prod.mk.injEq, List.pairwise_append, ← hiff]
      simp only [true_and, List.pairwise_singleton, List.mem_singleton, forall_eq]
      exact and_congr_right hlast

private theorem mapM_map_eq_some {α β : Type} {f : β → Option α} {g : α → β} {l : List α}
    (h : ∀ a ∈ l, f (g a) = some a) : (l.map g).mapM f = some l := by
  induction l with
  | nil => rfl
  | cons a l ih =>
    have hrest := ih fun b hb => h b (List.mem_cons_of_mem a hb)
    rw [List.map_cons, List.mapM_cons, h a List.mem_cons_self, hrest]
    rfl

/-- All new columns are selected, and nothing else. -/
private theorem selected?_reverse_append {made : Row V} (hnodup : made.names.Nodup) :
    Row.selected? (made.reverse ++ row) made.names = some made := by
  have hlookup : ∀ entry ∈ made, (List.lookup entry.1 (made.reverse ++ row)).map (fun value => (entry.1, value)) =
      some entry := by
    intro entry hentry
    have hreverse : (Row.names made.reverse).Nodup := by
      rw [Row.names, List.map_reverse, List.nodup_reverse]
      exact hnodup
    rw [List.lookup_append, Row.lookup_of_mem (List.mem_reverse.2 hentry) hreverse]
    rfl
  exact mapM_map_eq_some hlookup

end Copies

/-- A flat table has the columns of the table under their flat names, each once and in order, and it holds the values of
the table exactly if wherever a column has the flat name of an earlier one, the two have the same value. -/
theorem Table.row_flattened_iff (t : Table) (q : Qualifier) {columns : List Column}
    (hnodup : (columns.map Column.name).Nodup) {row : Row V} {values : String → V}
    (hrow : ∀ c ∈ columns, row.lookup c.name = some (values c.name)) :
    ∃ made, (t.flattened q columns).flow.row? row = some made ∧ Row.names made = q.names columns ∧ made.names.Nodup ∧
      (made = q.named columns values ↔
        columns.Pairwise fun c d => q.flat c.name = d.name → values c.name = values d.name) := by
  obtain ⟨made, hmade, hnames, hiff⟩ := exists_copied (q := q) hnodup hrow
  have hmade_nodup : made.names.Nodup := hnames ▸ q.nodup_flat hnodup
  have hcolumns : made.names = (t.flattened q columns).names := hnames.trans (t.names_flattened q columns).symm
  have hselected : Row.selected? (made.reverse ++ row) (t.flattened q columns).names = some made :=
    hcolumns ▸ selected?_reverse_append hmade_nodup
  have hderived : Transform.row? row (.derive (t.flattened q columns).columns) = some (made.reverse ++ row) := hmade
  refine ⟨made, ?_, hnames, hmade_nodup, hiff⟩
  rw [Flow.row?, FlatTable.flow, List.foldlM_cons, hderived]
  simp [Transform.row?, hselected]

/-- A column is copied in time if the one that takes its name comes behind it. -/
theorem Table.row_flattened_students :
    let t : Table := ⟨⟨"s"⟩, "students", "public", "db"⟩
    let columns := [school.number "students__id", school.number "id"]
    (t.flattened t.qualifier columns).flow.row? [("students__id", 2), ("id", 1)] =
      some [("students__students__id", 2), ("students__id", 1)] := by
  intro t columns
  let values : String → Nat := fun name => if name = "id" then 1 else 2
  have hnodup : (columns.map Column.name).Nodup := by decide
  have hrow : ∀ c ∈ columns, List.lookup c.name [("students__id", 2), ("id", 1)] = some (values c.name) := by decide
  obtain ⟨made, hmade, -, -, hiff⟩ := t.row_flattened_iff t.qualifier hnodup hrow
  have hvalues := hiff.2 (by decide)
  rw [hmade, hvalues]
  decide

/-- The other way round its value gets lost: both columns are made of the same one. -/
theorem Table.row_flattened_hidden :
    let t : Table := ⟨⟨"s"⟩, "students", "public", "db"⟩
    let columns := [school.number "id", school.number "students__id"]
    let values : String → Nat := fun name => if name = "id" then 1 else 2
    let row : Row Nat := [("id", 1), ("students__id", 2)]
    (columns.map Column.name).Nodup ∧ (∀ c ∈ columns, row.lookup c.name = some (values c.name)) ∧
      (t.flattened t.qualifier columns).flow.row? row =
        some [("students__id", 1), ("students__students__id", 1)] ∧
      t.qualifier.named columns values = [("students__id", 1), ("students__students__id", 2)] := by
  decide

end TableFlow
