import Mathlib.Data.List.Basic
import TableFlow.Proofs.Columns
import TableFlow.Proofs.Naming
import TableFlow.Proofs.Numbering

/-!
# The columns of junctions

A step that goes through a junction ends with a selection: the names that were visible in front of it and those of its
target, so that the columns of the junction are dropped again.  The names of a junction's columns have a qualifier of
their own, but only its text stands in a script, and a relation, a table or an aggregate may bring in names that start
with the same text.  The selection passes them on, and there is nothing to tell them from the junction's columns while
these are joined.  So the junction stays hidden exactly if no such name is visible in front of the step
(`Pipeline.junction_hidden_iff`).
-/

namespace TableFlow

/-- The name starts with the text of the qualifier and the underscores behind it. -/
def Qualifier.Prefixes (q : Qualifier) (name : String) : Prop :=
  (q.flat "").toList <+: name.toList

/-- The step makes a column visible under the name. -/
def Step.Shows (catalog : Catalog) (name : String) : Step → Prop
  | .select columns => ∃ c ∈ columns, c.flatName catalog.tables = .ok name
  | .aggregate a => (∃ c ∈ a.group, c.flatName catalog.tables = .ok name) ∨ name = a.label
  | .relate a => ∃ columns, catalog.columns? a.table = some columns ∧
      ∃ c ∈ columns, (Qualifier.joined a.label).flat c.name = name
  | _ => False

namespace Pipeline

/-- The root table of the pipeline has a column with the flat name. -/
def RootShows (p : Pipeline) (catalog : Catalog) (name : String) : Prop :=
  ∃ root columns, catalog.table p.root = .ok root ∧ catalog.columns? p.root = some columns ∧
    ∃ c ∈ columns, root.qualifier.flat c.name = name

/-- Behind all steps of the pipeline a column is visible under the name: a step, or the root table, has made it visible,
and no step behind that has started afresh. -/
def Shows (p : Pipeline) (catalog : Catalog) (name : String) : Prop :=
  (∃ before s after, p.steps = before ++ s :: after ∧ s.Shows catalog name ∧ ∀ s' ∈ after, ¬s'.StartsAfresh) ∨
    (p.RootShows catalog name ∧ ∀ s ∈ p.steps, ¬s.StartsAfresh)

end Pipeline

/-- The declaration joins a table that leads to another one, and ends with a selection. -/
def Declaration.SelectsThrough (d : Declaration) (link : FlatTable) (names : List String) : Prop :=
  ∃ label left right label' target left' right',
    d.flow.transforms = [.join label link left right, .join label' target left' right', .select names]

/-! ### Names and qualifiers -/

namespace Qualifier

private theorem prefixes_flat (q : Qualifier) (column : String) : q.Prefixes (q.flat column) := by
  refine ⟨column.toList, ?_⟩
  simp [flat]

/-- The columns of a joined table have none of the names that its junction's columns have. -/
private theorem not_prefixes_flat (label column : String) :
    ¬(junction label).Prefixes ((joined label).flat column) := by
  rintro ⟨rest, h⟩
  simp only [flat, text, String.toList_append, List.append_assoc, List.append_cancel_left_eq] at h
  -- behind the label one goes on with two underscores and the other with one
  exact absurd (List.cons.inj (List.cons.inj h).2).1 (by decide)

end Qualifier

private theorem mem_flatNames_iff {tables : List Table} {columns : List ColumnRef} {names : List String}
    (h : flatNames tables columns = .ok names) {name : String} :
    name ∈ names ↔ ∃ c ∈ columns, c.flatName tables = .ok name := by
  rw [flatNames_eq_ok_iff] at h
  have hmem : (.ok name : Except Cause String) ∈ columns.map (ColumnRef.flatName tables) ↔ name ∈ names := by
    rw [h, List.mem_map]
    simp
  rw [← hmem, List.mem_map]

/-! ### Visible names -/

/-- What holds of a member of a list with what stands before and behind it, when the list grows at its end. -/
private theorem exists_split_snoc {α : Type} {l : List α} {a : α} {P : List α → α → List α → Prop} :
    (∃ before b after, l ++ [a] = before ++ b :: after ∧ P before b after) ↔
      P l a [] ∨ ∃ before b after, l = before ++ b :: after ∧ P before b (after ++ [a]) := by
  have h := not_congr (forall_split_snoc (l := l) (a := a) (P := fun before b after => ¬P before b after))
  push Not at h
  rw [h, or_iff_not_imp_left]

namespace Progress

variable {catalog : Catalog} {root : Table} {columns : List Column} {steps : List Step} {p q : Progress}

/-- A name is visible behind a step exactly if the step makes it visible, or it was visible and the step does not start
afresh. -/
private theorem Next.mem_names_iff {s : Step} (next : p.Next catalog root s q) {visible names : List String}
    (hvisible : flatNames catalog.tables p.visible = .ok visible)
    (hnames : flatNames catalog.tables q.visible = .ok names) {name : String} :
    name ∈ names ↔ s.Shows catalog name ∨ (name ∈ visible ∧ ¬s.StartsAfresh) := by
  cases next with
  | display | filter | order | take =>
    obtain rfl : visible = names := Except.ok.inj (hvisible.symm.trans hnames)
    simp [Step.Shows, Step.StartsAfresh]
  | select nonempty names_eq =>
    rw [mem_flatNames_iff hnames]
    simp [Step.Shows, Step.StartsAfresh]
  | @aggregate a group column group_eq column_eq =>
    have hresult : ∀ c : ColumnRef, c = .ofAggregate a.label →
        (c.flatName catalog.tables = .ok name ↔ name = a.label) := by
      rintro _ rfl
      exact ⟨fun h => (Except.ok.inj h).symm, fun h => congrArg Except.ok h.symm⟩
    rw [mem_flatNames_iff hnames]
    simp [Step.Shows, Step.StartsAfresh, or_and_right, exists_or, hresult]
  | @relate a base relation target new transforms base_eq found joins =>
    have hnew : flatNames catalog.tables (new.map fun c => (ColumnRef.ofTable target.id c.name).under a) =
        .ok (new.map fun c => (Qualifier.joined a.label).flat c.name) := flatNames_under target.id a new
    obtain rfl := Except.ok.inj ((flatNames_append hvisible hnew).symm.trans hnames)
    have hknown : catalog.columns? a.table = some new := by
      rw [← Catalog.id_of_table_eq_ok found.target_eq]
      exact (Catalog.tableColumns_eq_ok_iff.1 found.columns_eq).1
    simp [Step.Shows, Step.StartsAfresh, hknown, or_comm]

/-- A name is visible behind a list of steps exactly if one of them has made it visible, or it was visible, and no step
behind that has started afresh. -/
private theorem Run.mem_names_iff {id : TableId} (hroot : catalog.table id = .ok root)
    (run : Run catalog root (start root columns) steps q) {initial names : List String}
    (hinitial : flatNames catalog.tables (start root columns).visible = .ok initial)
    (hnames : flatNames catalog.tables q.visible = .ok names) {name : String} :
    name ∈ names ↔
      (∃ before s after, steps = before ++ s :: after ∧ s.Shows catalog name ∧ ∀ s' ∈ after, ¬s'.StartsAfresh) ∨
        (name ∈ initial ∧ ∀ s ∈ steps, ¬s.StartsAfresh) := by
  induction run generalizing names with
  | nil =>
    obtain rfl : initial = names := Except.ok.inj (hinitial.symm.trans hnames)
    simp
  | @snoc steps p q s run next ih =>
    obtain ⟨visible, hvisible⟩ := exists_flatNames_iff.2 (run.resolvable hroot)
    rw [next.mem_names_iff hvisible hnames, ih hvisible, exists_split_snoc]
    have hbehind : ∀ l : List Step,
        (∀ s' ∈ l ++ [s], ¬s'.StartsAfresh) ↔ (∀ s' ∈ l, ¬s'.StartsAfresh) ∧ ¬s.StartsAfresh := by
      intro l
      rw [List.forall_mem_append, List.forall_mem_singleton]
    simp only [hbehind]
    -- what was visible stays so exactly if the last step does not start afresh
    by_cases hafresh : s.StartsAfresh
    · simp [hafresh]
    · simp [hafresh, or_assoc]

end Progress

namespace Pipeline

variable {p : Pipeline} {catalog : Catalog} {k : Nat}

private theorem mem_names_iff_shows {q : Progress} (hq : p.progress catalog = .ok q) {names : List String}
    (hnames : flatNames catalog.tables q.visible = .ok names) {name : String} :
    name ∈ names ↔ p.Shows catalog name := by
  obtain ⟨root, columns, hroot, hcolumns, run⟩ := progress_eq_ok_iff.1 hq
  have hid : root.id = p.root := Catalog.id_of_table_eq_ok hroot
  have hinitial : flatNames catalog.tables (columns.map fun c => .ofTable root.id c.name) =
      .ok (columns.map fun c => root.qualifier.flat c.name) :=
    flatNames_ofTable (hid ▸ Catalog.table_eq_ok_iff.1 hroot) columns
  have hknown : catalog.columns? p.root = some columns := hid ▸ (Catalog.tableColumns_eq_ok_iff.1 hcolumns).1
  rw [run.mem_names_iff hroot hinitial hnames, Shows]
  simp [RootShows, hroot, hknown]

/-- A step through a junction selects what was visible in front of it and the columns of its target. -/
private theorem exists_selectsThrough {s : Script} (hscript : p.script catalog = .ok s) {a : RelationAlias}
    (hstep : p.steps[k]? = some (.relate a)) {r : Relation} (hrelation : catalog.relation a.relation = .ok r)
    {junction : Junction} (hkind : r.kind = .manyToMany junction) :
    ∃ d link linkColumns visible names, ∃ columns : List Column, d ∈ s.declarations ∧ p.Makes catalog k d ∧
      catalog.table junction.table = .ok link ∧ catalog.tableColumns link.id = .ok linkColumns ∧
      d.SelectsThrough (link.flattened (.junction a.label) linkColumns) names ∧
      (∀ name, name ∈ visible ↔ (p.take k).Shows catalog name) ∧
      names = visible ++ columns.map fun c => (Qualifier.joined a.label).flat c.name := by
  obtain ⟨q, _, hq, -, rfl⟩ := script_eq_ok_iff.1 hscript
  obtain ⟨root, before, after, hroot, hbefore, next, hprefix⟩ := exists_next_of_getElem? hq hstep
  have hnext := Progress.step_eq_ok_iff.2 next
  cases next with
  | @relate a base relation target columns transforms base_eq found joins =>
    obtain rfl := Except.ok.inj (found.relation_eq.symm.trans hrelation)
    have htable : (relation.towards target.id).junctionTable? = some junction.table := by
      rw [Relation.junctionTable?_towards]
      exact Relation.junctionTable?_eq_some_iff.2 ⟨junction, hkind, rfl⟩
    obtain ⟨junction', hkind', hlink⟩ := Relation.junctionTable?_eq_some_iff.1 htable
    cases joins with
    | direct kind => exact absurd hkind' (kind junction')
    | @through _ link kept linkColumns kind link_eq kept_eq linkColumns_eq =>
      obtain rfl := RelationKind.manyToMany.inj (kind.symm.trans hkind')
      rw [hlink] at link_eq
      have hmem : _ ∈ q.declarations := hprefix.subset (List.mem_append_right _ (List.mem_singleton_self _))
      exact ⟨_, link, linkColumns, kept, _, columns, hmem, ⟨root, before, _, _, hroot, hbefore, hstep, hnext, rfl⟩,
        link_eq, linkColumns_eq, ⟨_, _, _, _, _, _, _, rfl⟩, fun name => mem_names_iff_shows hbefore kept_eq,
        by rw [Table.names_flattened]⟩

/-- The selection behind a junction has no name with the junction's qualifier exactly if no such name is visible in
front of the step, and it has no name of the junction's columns exactly if none of these is.  (The columns of the target
never have one.) -/
theorem junction_hidden_iff {s : Script} (hscript : p.script catalog = .ok s) {a : RelationAlias}
    (hstep : p.steps[k]? = some (.relate a)) {r : Relation} (hrelation : catalog.relation a.relation = .ok r)
    {junction : Junction} (hkind : r.kind = .manyToMany junction) :
    ∃ d link linkColumns names, d ∈ s.declarations ∧ p.Makes catalog k d ∧
      catalog.table junction.table = .ok link ∧ catalog.tableColumns link.id = .ok linkColumns ∧
      d.SelectsThrough (link.flattened (.junction a.label) linkColumns) names ∧
      ((∀ name ∈ names, ¬(Qualifier.junction a.label).Prefixes name) ↔
        ∀ name, (p.take k).Shows catalog name → ¬(Qualifier.junction a.label).Prefixes name) ∧
      (List.Disjoint names (link.flattened (.junction a.label) linkColumns).names ↔
        ∀ name, (p.take k).Shows catalog name → name ∉ (link.flattened (.junction a.label) linkColumns).names) := by
  obtain ⟨d, link, linkColumns, visible, names, columns, hmem, hmakes, hlink, hlinkColumns, hselects, hvisible, rfl⟩ :=
    exists_selectsThrough hscript hstep hrelation hkind
  have htarget : ∀ name ∈ columns.map fun c : Column => (Qualifier.joined a.label).flat c.name,
      ¬(Qualifier.junction a.label).Prefixes name := by
    intro name hname
    obtain ⟨c, -, rfl⟩ := List.mem_map.1 hname
    exact Qualifier.not_prefixes_flat a.label c.name
  have hjunction : ∀ name ∈ (link.flattened (.junction a.label) linkColumns).names,
      (Qualifier.junction a.label).Prefixes name := by
    intro name hname
    rw [Table.names_flattened] at hname
    obtain ⟨c, -, rfl⟩ := List.mem_map.1 hname
    exact Qualifier.prefixes_flat _ c.name
  refine ⟨d, link, linkColumns, _, hmem, hmakes, hlink, hlinkColumns, hselects, ?_, ?_⟩
  · rw [List.forall_mem_append, and_iff_left htarget]
    simp only [hvisible]
  · have hdisjoint : List.Disjoint (columns.map fun c => (Qualifier.joined a.label).flat c.name)
        (link.flattened (.junction a.label) linkColumns).names :=
      fun name hname h => htarget name hname (hjunction name h)
    rw [List.disjoint_append_left, and_iff_left hdisjoint, List.disjoint_left]
    simp only [hvisible]

/-- The courses of the students: nothing that is visible in front of the step has the qualifier of its junction. -/
theorem junction_hidden_attended :
    let p : Pipeline := ⟨⟨"s"⟩, [.relate school.attended]⟩
    ∃ s r junction, p.script school.enrolled = .ok s ∧ p.steps[0]? = some (.relate school.attended) ∧
      school.enrolled.relation school.attended.relation = .ok r ∧ r.kind = .manyToMany junction ∧
      ∃ d link names, d ∈ s.declarations ∧ p.Makes school.enrolled 0 d ∧ d.SelectsThrough link names ∧
        (∀ name ∈ names, ¬(Qualifier.junction "course").Prefixes name) ∧ List.Disjoint names link.names := by
  intro p
  obtain ⟨s, hs⟩ : ∃ s, p.script school.enrolled = .ok s := ⟨_, rfl⟩
  have hunlike : ∀ name, (p.take 0).Shows school.enrolled name → ¬(Qualifier.junction "course").Prefixes name := by
    rintro name (⟨before, s, after, h, -⟩ | ⟨⟨root, columns, hroot, hcolumns, c, hc, rfl⟩, -⟩)
    · -- there are no steps in front
      exact absurd h.symm (List.append_ne_nil_of_right_ne_nil before (List.cons_ne_nil s after))
    · cases hroot
      cases hcolumns
      obtain rfl := List.mem_singleton.1 hc
      unfold Qualifier.Prefixes
      decide
  obtain ⟨d, link, linkColumns, names, hmem, hmakes, -, -, hselects, hprefixes, hdisjoint⟩ :=
    junction_hidden_iff (k := 0) (a := school.attended) hs rfl rfl rfl
  refine ⟨s, _, _, hs, rfl, rfl, rfl, d, _, names, hmem, hmakes, hselects, hprefixes.2 hunlike, hdisjoint.2 ?_⟩
  intro name hname hlink
  rw [Table.names_flattened] at hlink
  obtain ⟨c, -, rfl⟩ := List.mem_map.1 hlink
  exact hunlike _ hname (Qualifier.prefixes_flat _ _)

/-- Students are enrolled under the label `course_join_table`, and what they attend is joined under `course`.  The
columns of the first step have the qualifier of the junction of the second: its selection keeps them, and one of them
has the name of a column of the junction. -/
theorem junction_not_hidden_enrolled :
    let catalog := school.enrolled.addRelation ⟨⟨"enrolls"⟩, .oneToMany, ⟨"s"⟩, "id", ⟨"e"⟩, "student_id"⟩
    let enrolled : RelationAlias := .fromRoot "course_join_table" ⟨"enrolls"⟩ ⟨"e"⟩ false
    let p : Pipeline := ⟨⟨"s"⟩, [.relate enrolled, .relate school.attended]⟩
    p.issues catalog = [] ∧ ∃ s d link names, p.script catalog = .ok s ∧ d ∈ s.declarations ∧
      p.Makes catalog 1 d ∧ d.SelectsThrough link names ∧
      ∃ name ∈ names, (Qualifier.junction "course").Prefixes name ∧ name ∈ link.names := by
  intro catalog enrolled p
  refine ⟨rfl, _, _, _, _, rfl, List.mem_of_getElem? (i := 2) rfl, ⟨_, _, _, _, rfl, rfl, rfl, rfl, rfl⟩,
    ⟨_, _, _, _, _, _, _, rfl⟩, "course_join_table__student_id", by decide, ?_, by decide⟩
  exact Qualifier.prefixes_flat (.junction "course") "student_id"

end Pipeline

end TableFlow
