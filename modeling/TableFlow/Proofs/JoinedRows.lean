import Mathlib.Data.List.Flatten
import Mathlib.Data.List.Perm.Basic
import TableFlow.Proofs.Columns

/-!
# The rows of a relate step

A script is about rows, and a relate step puts rows beside each other: every row at hand beside each row of the target
that belongs to it, or beside nulls.  What belongs to what is up to the relation alone.  A direct one compares two
columns; one through a junction looks for rows there that agree with both sides, and finds as many as there are.

A step picks these columns by the side that it leads to, and it takes two joins and a selection to go through a
junction.  Whatever a database holds, the rows come out as the relation has them (`RelationAlias.joined_rows`), from
either side.
-/

namespace TableFlow

/-! ### Rows -/

/-- A row: its values under their names, in order. -/
abbrev Row (V : Type) := List (String × V)

/-- The names of a row. -/
def Row.names {V : Type} (row : Row V) : List String :=
  row.map (·.1)

/-- What the tables of a database hold, by schema and name: a row there has a value for each of its columns. -/
abbrev Database (V : Type) := String → String → List (String → V)

/-- Which values a join takes for equal.  There is a value that stands for none and is like no other. -/
structure Matching (V : Type) where
  null : V
  agrees : V → V → Bool
  null_agrees : ∀ v, agrees null v = false
  agrees_null : ∀ v, agrees v null = false

/-- Values agree if they are there and are the same. -/
def Matching.same (V : Type) [DecidableEq V] : Matching (Option V) where
  null := none
  agrees v w := v.isSome && decide (v = w)
  null_agrees _ := rfl
  agrees_null v := by cases v <;> rfl

section Semantics

variable {V : Type} (m : Matching V)

/-- Each member of a list that satisfies a condition, or what stands for them if there is none. -/
def matchedOr {α β : Type} (l : List α) (p : α → Bool) (f : α → β) (b : β) : List β :=
  match l.filter p with
  | [] => [b]
  | matched => matched.map f

namespace Matching

/-- The value of a row under a name. -/
def value (row : Row V) (name : String) : V :=
  (row.lookup name).getD m.null

/-- The row under other names. -/
def pick (names : List String) (row : Row V) : Row V :=
  names.map fun name => (name, m.value row name)

/-- The row that has no values. -/
def nulls (names : List String) : Row V :=
  names.map fun name => (name, m.null)

end Matching

/-- The rows of a table of the database, under the new names of its columns. -/
def FlatTable.rows (t : FlatTable) (db : Database V) : List (Row V) :=
  (db t.schema t.name).map fun row => t.columns.map fun c => (c.1, row c.2)

/-- The rows behind a join or a selection, if all names that it uses are there.  What other transforms do to rows is not
modelled. -/
def Transform.rows? (db : Database V) (rows : List (Row V)) : Transform → Option (List (Row V))
  | select names =>
    if ∀ row ∈ rows, ∀ name ∈ names, name ∈ row.names then some (rows.map (m.pick names)) else none
  | join _ table left right =>
    if (∀ row ∈ rows, left ∈ row.names) ∧ right ∈ table.names then
      some (rows.flatMap fun row =>
        matchedOr (table.rows db) (fun other => m.agrees (m.value row left) (m.value other right)) (row ++ ·)
          (row ++ m.nulls table.names))
    else none
  | _ => none

end Semantics

/-! ### What a relation says -/

/-- A side of a relation. -/
inductive Side where
  | first
  | second
deriving DecidableEq

/-- The side across. -/
def Side.other : Side → Side
  | first => second
  | second => first

namespace Relation

/-- The table of a side. -/
def tableAt (r : Relation) : Side → TableId
  | .first => r.table1
  | .second => r.table2

/-- The column of a side. -/
def columnAt (r : Relation) : Side → String
  | .first => r.column1
  | .second => r.column2

end Relation

/-- The column that refers to a side. -/
def Junction.columnAt (j : Junction) : Side → String
  | .first => j.column1
  | .second => j.column2

section Links

variable {V : Type} (m : Matching V) (catalog : Catalog) (db : Database V)

/-- The rows of a table. -/
def Catalog.rows (id : TableId) : List (String → V) :=
  match catalog.table? id with
  | some t => db t.schema t.externalName
  | none => []

/-- The flat names of columns. -/
def Qualifier.names (q : Qualifier) (columns : List Column) : List String :=
  columns.map fun c => q.flat c.name

/-- The row of a table under flat names. -/
def Qualifier.named (q : Qualifier) (columns : List Column) (row : String → V) : Row V :=
  columns.map fun c => (q.flat c.name, row c.name)

namespace Relation

variable (r : Relation) (side : Side)

/-- How many times a relation links a value across to a row of the side: once if it agrees with the row's column, or as
often as a row of the junction agrees with both. -/
def links (v : V) (row : String → V) : Nat :=
  match r.kind with
  | .manyToMany junction => (catalog.rows db junction.table).countP fun link =>
      m.agrees v (link (junction.columnAt side.other)) &&
        m.agrees (link (junction.columnAt side)) (row (r.columnAt side))
  | _ => if m.agrees v (row (r.columnAt side)) then 1 else 0

/-- No row of the side agrees with the value. -/
def lost (v : V) : Bool :=
  (catalog.rows db (r.tableAt side)).all fun row => !m.agrees v (row (r.columnAt side))

/-- How many times a relation leads from a value across to no row of the side: once if there is nothing to lead on from
it, or as often as a row of the junction that agrees with it leads nowhere. -/
def misses (v : V) : Nat :=
  match r.kind with
  | .manyToMany junction =>
    let linked := (catalog.rows db junction.table).filter fun link => m.agrees v (link (junction.columnAt side.other))
    if linked.isEmpty then 1 else linked.countP fun link => r.lost m catalog db side (link (junction.columnAt side))
  | _ => if r.lost m catalog db side v then 1 else 0

/-- Each row of the side as often as it is linked to a value across, put beside something, and the same thing alone as
often as the relation leads to no row. -/
def counted (v : V) (beside : (String → V) → Row V) (alone : Row V) : List (Row V) :=
  ((catalog.rows db (r.tableAt side)).flatMap fun row =>
    List.replicate (r.links m catalog db side v row) (beside row)) ++
      List.replicate (r.misses m catalog db side v) alone

end Relation

end Links

/-! ### Matched members -/

section Matched

variable {α β γ : Type} {l : List α} {p : α → Bool} {f : α → β} {b : β}

private theorem matchedOr_map (g : γ → α) (l : List γ) :
    matchedOr (l.map g) p f b = matchedOr l (p ∘ g) (f ∘ g) b := by
  unfold matchedOr
  rw [List.filter_map]
  cases l.filter (p ∘ g) with
  | nil => rfl
  | cons c matched => simp

private theorem map_matchedOr (g : β → γ) : (matchedOr l p f b).map g = matchedOr l p (g ∘ f) (g b) := by
  unfold matchedOr
  cases l.filter p with
  | nil => rfl
  | cons a matched => simp

private theorem matchedOr_of_forall (h : ∀ a ∈ l, p a = false) : matchedOr l p f b = [b] := by
  have hnone : l.filter p = [] := List.filter_eq_nil_iff.2 fun a ha => by simp [h a ha]
  rw [matchedOr, hnone]

/-- What is there is one of the members that match, or stands for them. -/
private theorem mem_matchedOr {c : β} (h : c ∈ matchedOr l p f b) : c = b ∨ ∃ a ∈ l, c = f a := by
  unfold matchedOr at h
  split at h
  · exact Or.inl (List.mem_singleton.1 h)
  · obtain ⟨a, ha, rfl⟩ := List.mem_map.1 h
    exact Or.inr ⟨a, (List.mem_filter.1 ha).1, rfl⟩

private theorem flatMap_matchedOr (g : β → List γ) :
    (matchedOr l p f b).flatMap g = if (l.filter p).isEmpty then g b else (l.filter p).flatMap fun a => g (f a) := by
  unfold matchedOr
  cases l.filter p with
  | nil => simp
  | cons a matched => simp [List.flatMap_map]

/-- Each member comes once if it matches, and what stands for them comes once if none does. -/
private theorem matchedOr_eq_append :
    matchedOr l p f b = (l.flatMap fun a => List.replicate (if p a then 1 else 0) (f a)) ++
      List.replicate (if l.all fun a => !p a then 1 else 0) b := by
  have hmatched : (l.flatMap fun a => List.replicate (if p a then 1 else 0) (f a)) = (l.filter p).map f := by
    induction l with
    | nil => rfl
    | cons a l ih =>
      rw [List.flatMap_cons, ih]
      cases h : p a <;> simp [h]
  rw [hmatched]
  unfold matchedOr
  cases h : l.filter p with
  | nil =>
    have hall : (l.all fun a => !p a) = true := by simpa using List.filter_eq_nil_iff.1 h
    simp [hall]
  | cons a matched =>
    have ha : a ∈ l ∧ p a = true := List.mem_filter.1 (h ▸ List.mem_cons_self)
    have hall : (l.all fun a => !p a) = false := List.all_eq_false.2 ⟨a, ha.1, by simp [ha.2]⟩
    simp [hall]

/-- Over many conditions, each member comes as often as it matches, and what stands for them as often as none does. -/
private theorem flatMap_matchedOr_perm {ι : Type} (links : List ι) (q : ι → α → Bool) :
    (links.flatMap fun i => matchedOr l (q i) f b).Perm
      ((l.flatMap fun a => List.replicate (links.countP fun i => q i a) (f a)) ++
        List.replicate (links.countP fun i => l.all fun a => !q i a) b) := by
  induction links with
  | nil => simp
  | cons i links ih =>
    rw [List.flatMap_cons, matchedOr_eq_append]
    simp only [List.countP_cons, Nat.add_comm _ (ite _ _ _), List.replicate_add]
    -- the members that the first condition matches move to those that the others match
    refine ((List.Perm.refl _).append ih).trans ?_
    rw [List.append_assoc]
    refine ((List.Perm.refl _).append (List.perm_append_comm_assoc _ _ _)).trans ?_
    rw [← List.append_assoc]
    exact (List.flatMap_append_perm _ _ _).append (List.Perm.refl _)

end Matched

/-! ### Values under names -/

section Values

variable {V : Type} {m : Matching V} {row other : Row V} {name : String}

theorem Row.names_append (row other : Row V) : Row.names (row ++ other) = Row.names row ++ Row.names other :=
  List.map_append

theorem Row.lookup_eq_none (h : name ∉ row.names) : row.lookup name = none := by
  rw [List.lookup_eq_none_iff]
  exact fun entry hentry => bne_iff_ne.2 fun hname => h (List.mem_map.2 ⟨entry, hentry, hname.symm⟩)

theorem Row.lookup_of_mem {v : V} (h : (name, v) ∈ row) (hnodup : row.names.Nodup) : row.lookup name = some v := by
  obtain ⟨before, after, rfl⟩ := List.append_of_mem h
  have hbefore : name ∉ Row.names before := by
    rw [Row.names_append, List.nodup_append] at hnodup
    exact fun hmem => hnodup.2.2 name hmem name (List.mem_map_of_mem List.mem_cons_self) rfl
  simp [List.lookup_append, Row.lookup_eq_none hbefore]

namespace Matching

private theorem names_nulls (names : List String) : Row.names (m.nulls names) = names :=
  (List.map_map ..).trans (List.map_id names)

private theorem value_append_right (h : name ∉ row.names) : m.value (row ++ other) name = m.value other name := by
  simp [value, List.lookup_append, Row.lookup_eq_none h]

private theorem value_of_mem {v : V} (h : (name, v) ∈ row) (hnodup : row.names.Nodup) : m.value row name = v := by
  simp [value, Row.lookup_of_mem h hnodup]

private theorem value_nulls (names : List String) : m.value (m.nulls names) name = m.null := by
  unfold value nulls
  induction names with
  | nil => rfl
  | cons other names ih =>
    rw [List.map_cons, List.lookup_cons]
    split
    · rfl
    · exact ih

/-- A part of a row, in order, is picked by its names. -/
private theorem pick_names_of_sublist (h : other.Sublist row) (hnodup : row.names.Nodup) :
    m.pick (Row.names other) row = other := by
  rw [pick, Row.names, List.map_map]
  refine (List.map_congr_left fun entry hentry => ?_).trans (List.map_id other)
  exact Prod.ext rfl (value_of_mem (h.subset hentry) hnodup)

private theorem pick_names_of_between {between : Row V}
    (hnodup : (Row.names row ++ Row.names between ++ Row.names other).Nodup) :
    m.pick (Row.names row ++ Row.names other) (row ++ between ++ other) = row ++ other := by
  rw [← Row.names_append]
  refine pick_names_of_sublist ((List.sublist_append_left row between).append (List.Sublist.refl other)) ?_
  rwa [Row.names_append, Row.names_append]

end Matching

namespace Qualifier

variable {q : Qualifier} {columns : List Column}

theorem names_named (values : String → V) : Row.names (q.named columns values) = q.names columns :=
  List.map_map ..

private theorem flat_mem_names {column : String} (h : column ∈ columns.map Column.name) :
    q.flat column ∈ q.names columns := by
  obtain ⟨c, hc, rfl⟩ := List.mem_map.1 h
  exact List.mem_map_of_mem hc

private theorem value_named {column : String} (h : column ∈ columns.map Column.name) (hnodup : (q.names columns).Nodup)
    (values : String → V) : m.value (q.named columns values) (q.flat column) = values column := by
  obtain ⟨c, hc, rfl⟩ := List.mem_map.1 h
  refine Matching.value_of_mem (List.mem_map_of_mem hc) ?_
  rwa [names_named]

end Qualifier

end Values

/-! ### Sides -/

namespace Relation

variable {r : Relation}

private theorem towards_first : r.towards (r.tableAt .first) = r.swap :=
  if_pos rfl

private theorem towards_second (hne : r.table1 ≠ r.table2) : r.towards (r.tableAt .second) = r :=
  if_neg hne.symm

/-- On the way to a side of a relation, its columns are in their places. -/
private theorem columns_towards (hne : r.table1 ≠ r.table2) (side : Side) :
    (r.towards (r.tableAt side)).column1 = r.columnAt side.other ∧
      (r.towards (r.tableAt side)).column2 = r.columnAt side := by
  cases side with
  | first => rw [towards_first]; exact ⟨rfl, rfl⟩
  | second => rw [towards_second hne]; exact ⟨rfl, rfl⟩

/-- On the way to a side of a relation, the columns of its junction are in their places. -/
private theorem exists_junction_towards (hne : r.table1 ≠ r.table2) (side : Side) {junction : Junction}
    (hkind : r.kind = .manyToMany junction) :
    ∃ junction', (r.towards (r.tableAt side)).kind = .manyToMany junction' ∧ junction'.table = junction.table ∧
      junction'.column1 = junction.columnAt side.other ∧ junction'.column2 = junction.columnAt side := by
  cases side with
  | first =>
    rw [towards_first]
    exact ⟨junction.swap, by rw [swap, hkind]; rfl, rfl, rfl, rfl⟩
  | second =>
    rw [towards_second hne]
    exact ⟨junction, hkind, rfl, rfl, rfl⟩

private theorem kind_towards_ne (hkind : ∀ junction, r.kind ≠ .manyToMany junction) (id : TableId)
    (junction : Junction) : (r.towards id).kind ≠ .manyToMany junction := by
  intro h
  have htable : (r.towards id).junctionTable? = some junction.table := junctionTable?_eq_some_iff.2 ⟨junction, h, rfl⟩
  rw [junctionTable?_towards] at htable
  obtain ⟨junction', h', -⟩ := junctionTable?_eq_some_iff.1 htable
  exact hkind junction' h'

end Relation

/-! ### Joins -/

section Joins

variable {V : Type} {m : Matching V} {catalog : Catalog} {db : Database V}

private theorem Catalog.rows_eq_of_table {id : TableId} {t : Table} (h : catalog.table id = .ok t) :
    catalog.rows db id = db t.schema t.externalName := by
  rw [rows, Catalog.table_eq_ok_iff.1 h]

/-- The row beside each row of a table that agrees with it in a column. -/
def Matching.beside (m : Matching V) (l : List (String → V)) (q : Qualifier) (columns : List Column)
    (left column : String) (row : Row V) : List (Row V) :=
  matchedOr l (fun values => m.agrees (m.value row left) (values column)) (fun values => row ++ q.named columns values)
    (row ++ m.nulls (q.names columns))

variable {q : Qualifier} {columns : List Column} {column left : String} {names : List String} {rows : List (Row V)}

/-- What a join with a table makes of rows. -/
private theorem rows?_join_flattened (m : Matching V) (db : Database V) {id : TableId} {t : Table} (label : String)
    (htable : catalog.table id = .ok t) (hcolumn : column ∈ columns.map Column.name)
    (hnodup : (q.names columns).Nodup) (hrows : ∀ row ∈ rows, Row.names row = names) (hleft : left ∈ names) :
    Transform.rows? m db rows (.join label (t.flattened q columns) left (q.flat column)) =
      some (rows.flatMap (m.beside (catalog.rows db id) q columns left column)) := by
  have hnames : (t.flattened q columns).names = q.names columns := Table.names_flattened t q columns
  have hflat : (t.flattened q columns).rows db = (catalog.rows db id).map (q.named columns) := by
    rw [Catalog.rows_eq_of_table htable, FlatTable.rows]
    refine List.map_congr_left fun row _ => ?_
    exact List.map_map ..
  have hthere : (∀ row ∈ rows, left ∈ Row.names row) ∧ q.flat column ∈ (t.flattened q columns).names := by
    rw [hnames]
    exact ⟨fun row hrow => hrows row hrow ▸ hleft, Qualifier.flat_mem_names hcolumn⟩
  rw [Transform.rows?, if_pos hthere, hflat, hnames]
  simp only [matchedOr_map, Function.comp_def, Qualifier.value_named hcolumn hnodup]
  rfl

private theorem names_of_mem_beside {l : List (String → V)} {row row' : Row V}
    (h : row' ∈ m.beside l q columns left column row) : Row.names row' = Row.names row ++ q.names columns := by
  rcases mem_matchedOr h with rfl | ⟨values, -, rfl⟩
  · rw [Row.names_append, Matching.names_nulls]
  · rw [Row.names_append, Qualifier.names_named]

/-- The names behind a join are those in front of it and those of the table. -/
private theorem names_of_mem_flatMap_beside {l : List (String → V)} (hrows : ∀ row ∈ rows, Row.names row = names) :
    ∀ row ∈ rows.flatMap (m.beside l q columns left column), Row.names row = names ++ q.names columns := by
  intro row hrow
  obtain ⟨row', hrow', hmem⟩ := List.mem_flatMap.1 hrow
  rw [names_of_mem_beside hmem, hrows row' hrow']

/-- What a join with a table, a join from there with another one and the selection without the names of the first make
of rows. -/
private theorem foldlM_rows?_through (m : Matching V) (db : Database V) {id id' : TableId} {t t' : Table}
    {q' : Qualifier} {linkColumns : List Column} {near far : String} (label label' : String)
    (htable : catalog.table id = .ok t) (htable' : catalog.table id' = .ok t')
    (hcolumn : column ∈ columns.map Column.name) (hnear : near ∈ linkColumns.map Column.name)
    (hfar : far ∈ linkColumns.map Column.name)
    (hnodup : (names ++ q'.names linkColumns ++ q.names columns).Nodup) (hrows : ∀ row ∈ rows, Row.names row = names)
    (hleft : left ∈ names) :
    [.join label' (t'.flattened q' linkColumns) left (q'.flat near),
      .join label (t.flattened q columns) (q'.flat far) (q.flat column),
      .select (names ++ (t.flattened q columns).names)].foldlM (Transform.rows? m db) rows =
    some (((rows.flatMap (m.beside (catalog.rows db id') q' linkColumns left near)).flatMap
      (m.beside (catalog.rows db id) q columns (q'.flat far) column)).map
        (m.pick (names ++ q.names columns))) := by
  obtain ⟨hfront, hlast, -⟩ := List.nodup_append.1 hnodup
  have hjoin' := rows?_join_flattened m db label' htable' hnear (List.nodup_append.1 hfront).2.1 hrows hleft
  have hnames' : ∀ row ∈ rows.flatMap (m.beside (catalog.rows db id') q' linkColumns left near),
      Row.names row = names ++ q'.names linkColumns := names_of_mem_flatMap_beside hrows
  have hjoin := rows?_join_flattened m db (q := q) label htable hcolumn hlast hnames'
    (List.mem_append_right _ (Qualifier.flat_mem_names hfar))
  refine Option.bind_eq_some_iff.2 ⟨_, hjoin', Option.bind_eq_some_iff.2 ⟨_, hjoin, ?_⟩⟩
  refine Option.bind_eq_some_iff.2 ⟨_, if_pos fun row hrow name hname => ?_, ?_⟩
  · rw [names_of_mem_flatMap_beside hnames' row hrow, List.append_assoc]
    rw [Table.names_flattened] at hname
    exact ((List.Sublist.refl names).append (List.sublist_append_right _ _)).subset hname
  · rw [Table.names_flattened]
    rfl

/-- A direct relation counts each match once. -/
private theorem Relation.matchedOr_eq_counted {r : Relation} (hkind : ∀ junction, r.kind ≠ .manyToMany junction)
    (side : Side) (v : V) (beside : (String → V) → Row V) (alone : Row V) :
    matchedOr (catalog.rows db (r.tableAt side)) (fun row => m.agrees v (row (r.columnAt side))) beside alone =
      r.counted m catalog db side v beside alone := by
  have hlinks : ∀ row, r.links m catalog db side v row = if m.agrees v (row (r.columnAt side)) then 1 else 0 := by
    intro row
    unfold links
    split
    · exact absurd ‹_› (hkind _)
    · rfl
  have hmisses : r.misses m catalog db side v = if r.lost m catalog db side v then 1 else 0 := by
    unfold misses
    split
    · exact absurd ‹_› (hkind _)
    · rfl
  rw [matchedOr_eq_append, counted, hmisses, lost]
  simp only [hlinks]

/-- A relation through a junction counts the matches of each row there that agrees with the value across. -/
private theorem Relation.flatMap_matchedOr_perm_counted {r : Relation} {junction : Junction}
    (hkind : r.kind = .manyToMany junction) (side : Side) (v : V) (beside : (String → V) → Row V) (alone : Row V) :
    (if ((catalog.rows db junction.table).filter fun link =>
        m.agrees v (link (junction.columnAt side.other))).isEmpty then [alone]
      else ((catalog.rows db junction.table).filter fun link =>
        m.agrees v (link (junction.columnAt side.other))).flatMap fun link =>
          matchedOr (catalog.rows db (r.tableAt side))
            (fun row => m.agrees (link (junction.columnAt side)) (row (r.columnAt side))) beside alone).Perm
      (r.counted m catalog db side v beside alone) := by
  set linked := (catalog.rows db junction.table).filter fun link => m.agrees v (link (junction.columnAt side.other))
  have hlinks : ∀ row, r.links m catalog db side v row =
      linked.countP fun link => m.agrees (link (junction.columnAt side)) (row (r.columnAt side)) := by
    intro row
    rw [List.countP_filter, links, hkind]
    simp only [Bool.and_comm]
  have hmisses : r.misses m catalog db side v = if linked.isEmpty then 1 else
      linked.countP fun link => r.lost m catalog db side (link (junction.columnAt side)) := by
    rw [misses, hkind]
  simp only [counted, hlinks, hmisses]
  cases linked with
  | nil => simp
  | cons link linked => exact flatMap_matchedOr_perm (link :: linked) _

/-- One row, joined to a junction, from there to the table of a side, and without the junction's columns again. -/
private theorem Relation.through_perm_counted {r : Relation} {junction : Junction}
    (hkind : r.kind = .manyToMany junction) (side : Side) {q' : Qualifier} {linkColumns : List Column}
    (hcolumn : junction.columnAt side ∈ linkColumns.map Column.name) {row : Row V}
    (hnodup : (Row.names row ++ q'.names linkColumns ++ q.names columns).Nodup) :
    ((m.beside (catalog.rows db junction.table) q' linkColumns left (junction.columnAt side.other) row).flatMap
      fun between => (m.beside (catalog.rows db (r.tableAt side)) q columns (q'.flat (junction.columnAt side))
        (r.columnAt side) between).map (m.pick (Row.names row ++ q.names columns))).Perm
      (r.counted m catalog db side (m.value row left) (fun values => row ++ q.named columns values)
        (row ++ m.nulls (q.names columns))) := by
  obtain ⟨hfront, -, -⟩ := List.nodup_append.1 hnodup
  obtain ⟨-, hlink, hapart⟩ := List.nodup_append.1 hfront
  have hrow : q'.flat (junction.columnAt side) ∉ Row.names row :=
    fun h => hapart _ h _ (Qualifier.flat_mem_names hcolumn) rfl
  have hpick : ∀ between other : Row V, Row.names between = q'.names linkColumns → Row.names other = q.names columns →
      m.pick (Row.names row ++ q.names columns) (row ++ between ++ other) = row ++ other := by
    intro between other hbetween hother
    rw [← hbetween, ← hother] at hnodup
    rw [← hother, Matching.pick_names_of_between hnodup]
  -- nulls in the place of the junction's columns agree with nothing
  have hnone : (m.beside (catalog.rows db (r.tableAt side)) q columns (q'.flat (junction.columnAt side))
      (r.columnAt side) (row ++ m.nulls (q'.names linkColumns))).map (m.pick (Row.names row ++ q.names columns)) =
        [row ++ m.nulls (q.names columns)] := by
    rw [Matching.beside, matchedOr_of_forall, List.map_singleton,
      hpick _ _ (Matching.names_nulls _) (Matching.names_nulls _)]
    intro values _
    rw [Matching.value_append_right hrow, Matching.value_nulls, m.null_agrees]
  have hsome : ∀ link, (m.beside (catalog.rows db (r.tableAt side)) q columns (q'.flat (junction.columnAt side))
      (r.columnAt side) (row ++ q'.named linkColumns link)).map (m.pick (Row.names row ++ q.names columns)) =
        matchedOr (catalog.rows db (r.tableAt side))
          (fun values => m.agrees (link (junction.columnAt side)) (values (r.columnAt side)))
          (fun values => row ++ q.named columns values) (row ++ m.nulls (q.names columns)) := by
    intro link
    rw [Matching.beside, map_matchedOr, Matching.value_append_right hrow, Qualifier.value_named hcolumn hlink,
      hpick _ _ (Qualifier.names_named _) (Matching.names_nulls _)]
    simp only [Function.comp_def, hpick _ _ (Qualifier.names_named _) (Qualifier.names_named _)]
  rw [Matching.beside, flatMap_matchedOr]
  simp only [hnone, hsome]
  exact flatMap_matchedOr_perm_counted hkind side _ _ _

/-- No row is lost: a relation makes something of every one. -/
private theorem Relation.counted_ne_nil (r : Relation) (side : Side) (v : V) (beside : (String → V) → Row V)
    (alone : Row V) : r.counted m catalog db side v beside alone ≠ [] := by
  have hmatched : ∀ {p : (String → V) → Bool},
      matchedOr (catalog.rows db (r.tableAt side)) p beside alone ≠ [] := by
    intro p
    unfold matchedOr
    split
    · exact List.cons_ne_nil _ _
    · rename_i hne
      exact fun h => hne (List.map_eq_nil_iff.1 h)
  cases hkind : r.kind with
  | manyToMany junction =>
    intro hnil
    have hperm := (flatMap_matchedOr_perm_counted hkind side v beside alone).trans (List.Perm.of_eq hnil)
    rw [List.perm_nil] at hperm
    split at hperm
    · cases hperm
    · rename_i hlinked
      obtain ⟨link, hlink⟩ := List.exists_mem_of_ne_nil _ fun h => hlinked (List.isEmpty_iff.2 h)
      exact hmatched (List.flatMap_eq_nil_iff.1 hperm link hlink)
  | oneToOne | oneToMany =>
    rw [← matchedOr_eq_counted (by simp [hkind])]
    exact hmatched

end Joins

/-! ### Relate steps -/

/-- The alias leads to a side of a relation between two tables, and all that it names is known. -/
structure RelationAlias.LeadsTo (catalog : Catalog) (a : RelationAlias) (r : Relation) (side : Side) (target : Table)
    (columns : List Column) : Prop where
  found : a.Found catalog r target columns
  tables_ne : r.table1 ≠ r.table2
  table_eq : a.table = r.tableAt side
  column_mem : r.columnAt side ∈ columns.map Column.name

/-- The table of a junction and its columns are known. -/
structure Junction.Known (catalog : Catalog) (junction : Junction) (link : Table) (columns : List Column) : Prop where
  link_eq : catalog.table junction.table = .ok link
  columns_eq : catalog.tableColumns link.id = .ok columns
  column_mem : ∀ side, junction.columnAt side ∈ columns.map Column.name

section Steps

variable {V : Type} {m : Matching V} {catalog : Catalog} {db : Database V} {a : RelationAlias} {r : Relation}
  {side : Side} {target : Table} {columns : List Column} {base : JoinBase} {visible : List ColumnRef}
  {kept : List String} {rows : List (Row V)}

namespace RelationAlias.LeadsTo

private theorem id_eq (leads : a.LeadsTo catalog r side target columns) : target.id = r.tableAt side :=
  (Catalog.id_of_table_eq_ok leads.found.target_eq).trans leads.table_eq

private theorem table_tableAt (leads : a.LeadsTo catalog r side target columns) :
    catalog.table (r.tableAt side) = .ok target :=
  leads.table_eq ▸ leads.found.target_eq

/-- The rows behind the join of a direct relation. -/
private theorem exists_direct (leads : a.LeadsTo catalog r side target columns)
    (hkind : ∀ junction, r.kind ≠ .manyToMany junction)
    (hbase : base.qualifier.flat (r.columnAt side.other) ∈ kept)
    (hapart : (kept ++ (Qualifier.joined a.label).names columns).Nodup)
    (hrows : ∀ row ∈ rows, Row.names row = kept) :
    ∃ transforms out, (r.towards target.id).Joins catalog a.label base target columns visible transforms ∧
      transforms.foldlM (Transform.rows? m db) rows = some out ∧ out.Perm (rows.flatMap fun row =>
        r.counted m catalog db side (m.value row (base.qualifier.flat (r.columnAt side.other)))
          (fun values => row ++ (Qualifier.joined a.label).named columns values)
          (row ++ m.nulls ((Qualifier.joined a.label).names columns))) := by
  obtain ⟨hcolumn1, hcolumn2⟩ := Relation.columns_towards leads.tables_ne side
  have hjoin := rows?_join_flattened m db (q := .joined a.label) a.label leads.table_tableAt leads.column_mem
    (List.nodup_append.1 hapart).2.1 hrows hbase
  refine ⟨_, _, .direct (Relation.kind_towards_ne hkind target.id), ?_, List.Perm.of_eq (List.flatMap_congr fun row _ =>
    Relation.matchedOr_eq_counted hkind side _ _ _)⟩
  rw [List.foldlM_cons, leads.id_eq, hcolumn1, hcolumn2]
  exact Option.bind_eq_some_iff.2 ⟨_, hjoin, rfl⟩

/-- The rows behind the two joins and the selection of a relation through a junction. -/
private theorem exists_through (leads : a.LeadsTo catalog r side target columns) {junction : Junction}
    (hkind : r.kind = .manyToMany junction) {link : Table} {linkColumns : List Column}
    (known : junction.Known catalog link linkColumns) (hkept : flatNames catalog.tables visible = .ok kept)
    (hbase : base.qualifier.flat (r.columnAt side.other) ∈ kept)
    (hapart :
      (kept ++ (Qualifier.junction a.label).names linkColumns ++ (Qualifier.joined a.label).names columns).Nodup)
    (hrows : ∀ row ∈ rows, Row.names row = kept) :
    ∃ transforms out, (r.towards target.id).Joins catalog a.label base target columns visible transforms ∧
      transforms.foldlM (Transform.rows? m db) rows = some out ∧ out.Perm (rows.flatMap fun row =>
        r.counted m catalog db side (m.value row (base.qualifier.flat (r.columnAt side.other)))
          (fun values => row ++ (Qualifier.joined a.label).named columns values)
          (row ++ m.nulls ((Qualifier.joined a.label).names columns))) := by
  obtain ⟨hcolumn1, hcolumn2⟩ := Relation.columns_towards leads.tables_ne side
  obtain ⟨junction', hkind', htable, hjunction1, hjunction2⟩ :=
    Relation.exists_junction_towards leads.tables_ne side hkind
  have hout := foldlM_rows?_through m db a.label (Qualifier.junction a.label).text leads.table_tableAt known.link_eq
    leads.column_mem (known.column_mem side.other) (known.column_mem side) hapart hrows hbase
  have joins : (r.towards (r.tableAt side)).Joins catalog a.label base target columns visible _ :=
    .through hkind' (htable ▸ known.link_eq) hkept known.columns_eq
  rw [hcolumn1, hcolumn2, hjunction1, hjunction2] at joins
  rw [leads.id_eq]
  refine ⟨_, _, joins, hout, ?_⟩
  rw [List.map_flatMap, List.flatMap_assoc]
  refine List.Perm.flatMap_left rows fun row hrow => ?_
  rw [← hrows row hrow] at hapart ⊢
  exact Relation.through_perm_counted hkind side (known.column_mem side) hapart

end RelationAlias.LeadsTo

/-- The transforms of a relate step put each row beside the rows that its relation links to the base's column, each as
often as it is linked, and beside nulls as often as the relation leads to no row.  No row gets lost.  It does not matter
which side of the relation the step leads to. -/
theorem RelationAlias.joined_rows (m : Matching V) (db : Database V) (leads : a.LeadsTo catalog r side target columns)
    (hkept : flatNames catalog.tables visible = .ok kept)
    (hbase : base.qualifier.flat (r.columnAt side.other) ∈ kept)
    (hapart : (kept ++ (Qualifier.joined a.label).names columns).Nodup)
    (hjunction : ∀ junction, r.kind = .manyToMany junction → ∃ link linkColumns,
      junction.Known catalog link linkColumns ∧
        (kept ++ (Qualifier.junction a.label).names linkColumns ++ (Qualifier.joined a.label).names columns).Nodup)
    (hrows : ∀ row ∈ rows, Row.names row = kept) :
    let made : Row V → List (Row V) := fun row =>
      r.counted m catalog db side (m.value row (base.qualifier.flat (r.columnAt side.other)))
        (fun values => row ++ (Qualifier.joined a.label).named columns values)
        (row ++ m.nulls ((Qualifier.joined a.label).names columns))
    ∃ joined out, a.joined catalog base visible = .ok joined ∧
      joined.transforms.foldlM (Transform.rows? m db) rows = some out ∧ out.Perm (rows.flatMap made) ∧
      ∀ row, made row ≠ [] := by
  intro made
  obtain ⟨transforms, out, joins, hout, hperm⟩ : ∃ transforms out,
      (r.towards target.id).Joins catalog a.label base target columns visible transforms ∧
      transforms.foldlM (Transform.rows? m db) rows = some out ∧ out.Perm (rows.flatMap made) := by
    by_cases hdirect : ∀ junction, r.kind ≠ .manyToMany junction
    · exact leads.exists_direct hdirect hbase hapart hrows
    · obtain ⟨junction, hkind⟩ := not_forall_not.1 hdirect
      obtain ⟨link, linkColumns, known, hapart⟩ := hjunction junction hkind
      exact leads.exists_through hkind known hkept hbase hapart hrows
  have hjoined := RelationAlias.joined_eq_ok_iff.2 ⟨r, target, columns, transforms, leads.found, joins, rfl⟩
  exact ⟨_, out, hjoined, hout, hperm, fun row => r.counted_ne_nil side _ _ _⟩

end Steps

/-- Two courses.  The first student attends one of them twice, and another one that is not there; the second student
attends nothing, and the third one the other course. -/
def school.database : Database (Option Nat) := fun _ table =>
  if table = "courses" then [row [("id", 7), ("teacher_id", 1)], row [("id", 8), ("teacher_id", 1)]]
  else if table = "enrollments" then
    [row [("student_id", 1), ("course_id", 7)], row [("student_id", 3), ("course_id", 8)],
      row [("student_id", 1), ("course_id", 9)], row [("student_id", 1), ("course_id", 7)]]
  else []
where
  row (values : List (String × Nat)) (column : String) : Option Nat := values.lookup column

/-- What the students attend. -/
theorem RelationAlias.joined_rows_attended :
    let rows : List (Row (Option Nat)) := [[("students__id", some 1)], [("students__id", some 2)],
      [("students__id", some 3)]]
    ∃ joined out, school.attended.joined school.enrolled (.root ⟨⟨"s"⟩, "students", "public", "db"⟩)
        [.ofTable ⟨"s"⟩ "id"] = .ok joined ∧
      joined.transforms.foldlM (Transform.rows? (.same Nat) school.database) rows = some out ∧
      out.Perm [
        [("students__id", some 1), ("course__id", some 7), ("course__teacher_id", some 1)],
        [("students__id", some 1), ("course__id", some 7), ("course__teacher_id", some 1)],
        [("students__id", some 1), ("course__id", none), ("course__teacher_id", none)],
        [("students__id", some 2), ("course__id", none), ("course__teacher_id", none)],
        [("students__id", some 3), ("course__id", some 8), ("course__teacher_id", some 1)]] := by
  intro rows
  have leads : school.attended.LeadsTo school.enrolled _ .second _ _ := ⟨⟨rfl, rfl, rfl⟩, by decide, rfl, by decide⟩
  have known : Junction.Known school.enrolled ⟨⟨"e"⟩, "student_id", "course_id"⟩ _ _ :=
    ⟨rfl, rfl, fun side => by cases side <;> decide⟩
  have hkept : flatNames school.enrolled.tables [.ofTable ⟨"s"⟩ "id"] = .ok ["students__id"] := rfl
  have hbase : (JoinBase.root ⟨⟨"s"⟩, "students", "public", "db"⟩).qualifier.flat "id" ∈ ["students__id"] := by decide
  have hrows : ∀ row ∈ rows, Row.names row = ["students__id"] := by decide
  obtain ⟨joined, out, hjoined, hout, hperm, -⟩ := joined_rows (.same Nat) school.database leads hkept hbase
    (by decide) (fun junction hkind => ⟨_, _, by cases hkind; exact known, by decide⟩) hrows
  exact ⟨joined, out, hjoined, hout, hperm.trans (List.Perm.of_eq (by decide))⟩

end TableFlow
