import TableFlow.Compile.Pipeline
import TableFlow.Review
import TableFlow.Proofs.Resolution

/-!
# Copies of aliases

A column that was joined in carries a copy of its alias, and so does a relation that starts at an earlier alias.  A copy
may be out of date: only its label counts.  `Pipeline.stripped` leaves nothing but the label of every copy, and two
pipelines that are the same when stripped have the same script, or stop with the same cause, and have the same issues
(`Pipeline.scriptText_and_issues_eq_of_stripped_eq`).
-/

namespace TableFlow

/-! ### Stripping -/

namespace RelationAlias

/-- A copy of an alias of which nothing but the label is left. -/
def bare (a : RelationAlias) : RelationAlias :=
  .fromRoot a.label ⟨""⟩ ⟨""⟩ false

/-- The alias of a relate step, which is no copy itself but may hold one. -/
def stripped : RelationAlias → RelationAlias
  | fromRoot label relation table explicit => fromRoot label relation table explicit
  | chained label relation table base => chained label relation table base.bare

variable (a : RelationAlias)

@[simp] theorem bare_bare : a.bare.bare = a.bare := rfl

@[simp] theorem label_stripped : a.stripped.label = a.label := by cases a <;> rfl

@[simp] theorem relation_stripped : a.stripped.relation = a.relation := by cases a <;> rfl

@[simp] theorem table_stripped : a.stripped.table = a.table := by cases a <;> rfl

@[simp] theorem bare_stripped : a.stripped.bare = a.bare := by cases a <;> rfl

@[simp] theorem stripped_stripped : a.stripped.stripped = a.stripped := by cases a <;> rfl

end RelationAlias

/-- The column with a bare copy of its alias. -/
def ColumnRef.stripped (c : ColumnRef) : ColumnRef :=
  { c with relation := c.relation.map RelationAlias.bare }

/-- A column on the right side is stripped as well. -/
def Operand.stripped : Operand → Operand
  | column c => column c.stripped
  | literal value => literal value

/-- The condition on stripped columns. -/
def Condition.stripped (c : Condition) : Condition :=
  ⟨c.column.stripped, c.operator, c.value.stripped⟩

/-- The step without anything in its copies but their labels. -/
def Step.stripped : Step → Step
  | root id => root id
  | select columns => select (columns.map ColumnRef.stripped)
  | filter f => filter ⟨f.connective, f.conditions.map Condition.stripped⟩
  | order o => order ⟨o.keys.map fun k => ⟨k.column.stripped, k.direction⟩⟩
  | aggregate a => aggregate ⟨a.group.map ColumnRef.stripped, a.operation, a.column.stripped, a.label⟩
  | relate a => relate a.stripped
  | take t => take t
  | display => display

/-- The pipeline without anything in its copies but their labels. -/
def Pipeline.stripped (p : Pipeline) : Pipeline :=
  ⟨p.root, p.steps.map Step.stripped⟩

/-! ### Columns -/

section Columns

variable (tables : List Table)

@[simp] theorem ColumnRef.stripped_stripped (c : ColumnRef) : c.stripped.stripped = c.stripped := by
  simp [stripped, Function.comp_def]

@[simp] theorem ColumnRef.name_stripped (c : ColumnRef) : c.stripped.name = c.name := rfl

@[simp] theorem ColumnRef.flatName_stripped (c : ColumnRef) : c.stripped.flatName tables = c.flatName tables := by
  obtain ⟨source, name, relation⟩ := c
  cases source <;> cases relation <;> rfl

private theorem flatName_comp_stripped : ColumnRef.flatName tables ∘ ColumnRef.stripped = ColumnRef.flatName tables :=
  funext (ColumnRef.flatName_stripped tables)

private theorem flatNames_map_stripped (columns : List ColumnRef) :
    flatNames tables (columns.map ColumnRef.stripped) = flatNames tables columns := by
  rw [flatNames, List.mapM_map, flatName_comp_stripped, flatNames]

private theorem flatNames_eq_of_stripped_eq {columns columns' : List ColumnRef}
    (h : columns'.map ColumnRef.stripped = columns.map ColumnRef.stripped) :
    flatNames tables columns' = flatNames tables columns := by
  rw [← flatNames_map_stripped, h, flatNames_map_stripped]

private theorem Condition.pieces_stripped (c : Condition) : c.stripped.pieces tables = c.pieces tables := by
  obtain ⟨column, operator, value⟩ := c
  simp only [pieces, stripped, ColumnRef.flatName_stripped]
  cases operator.form <;> cases value <;> simp [Operand.stripped]

private theorem Filter.transforms_stripped (f : Filter) :
    transforms tables ⟨f.connective, f.conditions.map Condition.stripped⟩ = f.transforms tables := by
  have hpieces : Condition.pieces tables ∘ Condition.stripped = Condition.pieces tables :=
    funext (Condition.pieces_stripped tables)
  simp only [transforms, predicate, List.mapM_map, hpieces]

private theorem Order.transforms_stripped (o : Order) :
    transforms tables ⟨o.keys.map fun k => ⟨k.column.stripped, k.direction⟩⟩ = o.transforms tables := by
  have hkey : (OrderKey.sortKey tables ∘ fun k => ⟨k.column.stripped, k.direction⟩) = OrderKey.sortKey tables := by
    funext k
    simp [OrderKey.sortKey]
  simp only [transforms, List.mapM_map, hkey]

private theorem Aggregate.transforms_stripped (a : Aggregate) :
    transforms tables ⟨a.group.map ColumnRef.stripped, a.operation, a.column.stripped, a.label⟩ =
      a.transforms tables := by
  simp only [transforms, flatNames_map_stripped, ColumnRef.flatName_stripped]

end Columns

/-! ### Relations -/

/-- The base with its alias stripped. -/
def JoinBase.stripped : JoinBase → JoinBase
  | root table => root table
  | joined a => joined a.stripped

/-- The joins with the columns that they add stripped. -/
def Joined.stripped (j : Joined) : Joined :=
  ⟨j.transforms, j.columns.map ColumnRef.stripped⟩

@[simp] theorem JoinBase.qualifier_stripped (base : JoinBase) : base.stripped.qualifier = base.qualifier := by
  cases base with
  | root => rfl
  | joined a => simp [stripped, qualifier]

@[simp] theorem JoinBase.table_stripped (base : JoinBase) : base.stripped.table = base.table := by
  cases base with
  | root => rfl
  | joined a => simp [stripped, table]

section Relations

variable {catalog : Catalog} {root : Table} {base base' : JoinBase} {a : RelationAlias}

/-- A search by label among aliases that are the same when stripped. -/
private theorem map_find?_label_stripped {aliases aliases' : List RelationAlias}
    (h : aliases'.map RelationAlias.stripped = aliases.map RelationAlias.stripped) (label : String) :
    (aliases'.find? fun a => a.label = label).map RelationAlias.stripped =
      (aliases.find? fun a => a.label = label).map RelationAlias.stripped := by
  have hfind : ∀ aliases : List RelationAlias,
      (aliases.map RelationAlias.stripped).find? (fun a => a.label = label) =
        (aliases.find? fun a => a.label = label).map RelationAlias.stripped := by
    intro aliases
    have hlabel : (fun a : RelationAlias => decide (a.label = label)) ∘ RelationAlias.stripped =
        fun a => decide (a.label = label) := by
      funext a
      simp
    rw [List.find?_map, hlabel]
  rw [← hfind, h, hfind]

/-- What starts at an alias that was searched for starts at the same one, up to the copy that it holds. -/
private theorem map_joined_stripped_of_find {found found' : Option RelationAlias}
    (h : found'.map RelationAlias.stripped = found.map RelationAlias.stripped) (e : Cause) :
    Except.map JoinBase.stripped (match found' with
      | some earlier => .ok (.joined earlier)
      | none => .error e) =
    Except.map JoinBase.stripped (match found with
      | some earlier => .ok (.joined earlier)
      | none => .error e) := by
  cases found with
  | none =>
    rw [Option.map_none, Option.map_eq_none_iff] at h
    rw [h]
  | some earlier =>
    rw [Option.map_some, Option.map_eq_some_iff] at h
    obtain ⟨earlier', rfl, hearlier⟩ := h
    exact congrArg (fun a => Except.ok (JoinBase.joined a)) hearlier

private theorem RelationAlias.map_joined_stripped (hbase : base'.stripped = base.stripped)
    {visible visible' : List ColumnRef} (hvisible : visible'.map ColumnRef.stripped = visible.map ColumnRef.stripped) :
    (a.stripped.joined catalog base' visible').map Joined.stripped =
      (a.joined catalog base visible).map Joined.stripped := by
  have hqualifier : base'.qualifier = base.qualifier := by
    rw [← JoinBase.qualifier_stripped, hbase, JoinBase.qualifier_stripped]
  have hnames : flatNames catalog.tables visible' = flatNames catalog.tables visible :=
    flatNames_eq_of_stripped_eq _ hvisible
  have hcolumns : ∀ (id : TableId) (columns : List Column),
      (columns.map fun c => (ColumnRef.ofTable id c.name).under a.stripped).map ColumnRef.stripped =
        (columns.map fun c => (ColumnRef.ofTable id c.name).under a).map ColumnRef.stripped := by
    intro id columns
    simp [ColumnRef.under, ColumnRef.stripped, Function.comp_def]
  have hjoins : ∀ (r : Relation) (target : Table) (columns : List Column),
      r.joins catalog a.stripped.label base' target columns visible' =
        r.joins catalog a.label base target columns visible := by
    intro r target columns
    simp only [Relation.joins, hqualifier, hnames, label_stripped]
  simp only [joined, hjoins, relation_stripped, table_stripped, map_bind_eq]
  simp only [Except.map, Joined.stripped, hcolumns]

private theorem Review.connected_stripped (hbase : base'.stripped = base.stripped) :
    connected catalog a.stripped base' = connected catalog a base := by
  have htable : base'.table = base.table := by rw [← JoinBase.table_stripped, hbase, JoinBase.table_stripped]
  simp only [connected, htable, RelationAlias.relation_stripped, RelationAlias.table_stripped]

end Relations

/-! ### Steps -/

/-- The script under construction with its columns and aliases stripped. -/
def Progress.stripped (q : Progress) : Progress :=
  ⟨q.declarations, q.visible.map ColumnRef.stripped, q.aliases.map RelationAlias.stripped⟩

/-- The review under way with its aliases stripped. -/
def Review.stripped (r : Review) : Review :=
  ⟨r.visible, r.aliases.map RelationAlias.stripped, r.issues⟩

section Steps

variable {catalog : Catalog} {root : Table}

namespace Progress

variable {q q' : Progress}

private theorem map_base_stripped (h : q'.stripped = q.stripped) (a : RelationAlias) :
    (q'.base root a.stripped).map JoinBase.stripped = (q.base root a).map JoinBase.stripped := by
  have haliases : q'.aliases.reverse.map RelationAlias.stripped = q.aliases.reverse.map RelationAlias.stripped := by
    rw [List.map_reverse, List.map_reverse]
    exact congrArg List.reverse (congrArg aliases h)
  cases a with
  | fromRoot => rfl
  | chained label relation table b =>
    exact map_joined_stripped_of_find (map_find?_label_stripped haliases b.label) (.unknownAlias b.label)

/-- A step does the same to what is seen of a script under construction. -/
private theorem map_step_stripped (h : q'.stripped = q.stripped) (s : Step) :
    (q'.step catalog root s.stripped).map stripped = (q.step catalog root s).map stripped := by
  have hdeclarations : q'.declarations = q.declarations := (congrArg declarations h :)
  have hvisible : q'.visible.map ColumnRef.stripped = q.visible.map ColumnRef.stripped := congrArg visible h
  have haliases : q'.aliases.map RelationAlias.stripped = q.aliases.map RelationAlias.stripped :=
    congrArg aliases h
  have hdeclare : ∀ x : Except Cause (List Transform),
      (x.map q'.declare).map stripped = (x.map q.declare).map stripped := by
    intro x
    cases x with
    | error e => rfl
    | ok transforms => exact congrArg (fun q => Except.ok (declare q transforms)) h
  cases s with
  | display => exact congrArg Except.ok h
  | root id => rfl
  | filter f =>
    simp only [step, Step.stripped, Filter.transforms_stripped]
    exact hdeclare _
  | order o =>
    simp only [step, Step.stripped, Order.transforms_stripped]
    exact hdeclare _
  | take t => exact hdeclare t.transforms
  | select columns =>
    simp only [step, Step.stripped, List.isEmpty_map, flatNames_map_stripped]
    split
    · rfl
    · rw [map_bind_eq, map_bind_eq]
      simp [Except.map, stripped, declare, last, hdeclarations, haliases, Function.comp_def]
  | aggregate a =>
    simp only [step, Step.stripped, Aggregate.transforms_stripped, map_bind_eq]
    simp [Except.map, stripped, declare, last, hdeclarations, haliases, Function.comp_def]
  | relate a =>
    simp only [step, Step.stripped, map_bind_eq]
    refine bind_congr_of_map_eq (map_base_stripped h a) fun base base' hbase => ?_
    refine bind_congr_of_map_eq (RelationAlias.map_joined_stripped hbase hvisible) fun joined joined' hjoined => ?_
    obtain ⟨transforms, columns⟩ := joined
    obtain ⟨transforms', columns'⟩ := joined'
    simp only [Joined.stripped, Joined.mk.injEq] at hjoined
    simp [Except.map, stripped, declare, last, hdeclarations, hvisible, haliases, hjoined]

end Progress

namespace Review

variable {r r' : Review}

private theorem map_base_stripped (h : r'.stripped = r.stripped) (a : RelationAlias) :
    (r'.base root a.stripped).map JoinBase.stripped = (r.base root a).map JoinBase.stripped := by
  cases a with
  | fromRoot => rfl
  | chained label relation table b =>
    exact map_joined_stripped_of_find (map_find?_label_stripped (congrArg aliases h) b.label) (.unknownAlias b.label)

private theorem columnType?_stripped (c : ColumnRef) : columnType? catalog c.stripped = columnType? catalog c := rfl

private theorem ofCondition_stripped (c : Condition) : ofCondition catalog c.stripped = ofCondition catalog c := by
  obtain ⟨column, operator, value⟩ := c
  cases value <;> simp only [ofCondition, Condition.stripped, Operand.stripped, columnType?_stripped,
    ColumnRef.flatName_stripped, ColumnRef.name_stripped]

/-- A step does the same to what is seen of a review. -/
private theorem step_stripped (h : r'.stripped = r.stripped) (s : Step) :
    (r'.step catalog root s.stripped).stripped = (r.step catalog root s).stripped := by
  have hvisible : r'.visible = r.visible := (congrArg visible h :)
  have haliases : r'.aliases.map RelationAlias.stripped = r.aliases.map RelationAlias.stripped :=
    congrArg aliases h
  have hissues : r'.issues = r.issues := (congrArg issues h :)
  have hreport : ∀ causes, (r'.report causes).stripped = (r.report causes).stripped :=
    fun causes => congrArg (report · causes) h
  cases s with
  | root id => exact hreport _
  | take | display => exact h
  | filter f =>
    simp only [step, Step.stripped, List.flatMap_map, ofCondition_stripped]
    exact hreport _
  | order o =>
    simp only [step, Step.stripped, List.map_map, Function.comp_def, ColumnRef.flatName_stripped]
    exact hreport _
  | select columns =>
    simp only [step, Step.stripped, select, List.map_map, flatName_comp_stripped]
    simp only [stripped, report, hissues, haliases]
  | aggregate a =>
    simp only [step, Step.stripped, aggregate, List.map_map, flatName_comp_stripped, ColumnRef.flatName_stripped,
      ColumnRef.name_stripped, columnType?_stripped, hvisible]
    simp only [stripped, report, hissues, haliases]
  | relate a =>
    have hfound :
        (r'.base root a.stripped >>= connected catalog a.stripped) = (r.base root a >>= connected catalog a) :=
      bind_congr_of_map_eq (map_base_stripped h a) fun base base' hbase => connected_stripped hbase
    simp only [step, Step.stripped, relate, hfound]
    cases r.base root a >>= connected catalog a with
    | error cause => exact hreport _
    | ok columns => simp [stripped, hvisible, haliases, hissues]

end Review

end Steps

/-! ### Pipelines -/

namespace Pipeline

variable {p p' : Pipeline} {catalog : Catalog}

private theorem script_stripped (p : Pipeline) (catalog : Catalog) : p.stripped.script catalog = p.script catalog := by
  have hsteps : ∀ root q, ((p.steps.map Step.stripped).foldlM (Progress.step catalog root) q).map Progress.stripped =
      (p.steps.foldlM (Progress.step catalog root) q).map Progress.stripped :=
    fun root q => map_foldlM_congr (fun s _ _ _ h => Progress.map_step_stripped h s) rfl
  have hfinish : ∀ q q' : Progress, q'.stripped = q.stripped → q'.finish catalog = q.finish catalog := by
    intro q q' h
    have hdeclarations : q'.declarations = q.declarations := (congrArg Progress.declarations h :)
    have hnames : flatNames catalog.tables q'.visible = flatNames catalog.tables q.visible :=
      flatNames_eq_of_stripped_eq _ (congrArg Progress.visible h)
    simp only [Progress.finish, Progress.last, hdeclarations, hnames]
  have hrest : ∀ root q,
      ((p.steps.map Step.stripped).foldlM (Progress.step catalog root) q >>= Progress.finish catalog) =
      (p.steps.foldlM (Progress.step catalog root) q >>= Progress.finish catalog) :=
    fun root q => bind_congr_of_map_eq (hsteps root q) hfinish
  simp only [script, stripped, hrest]

private theorem issues_stripped (p : Pipeline) (catalog : Catalog) : p.stripped.issues catalog = p.issues catalog := by
  have hsteps : ∀ root (steps : List Step) (r r' : Review), r'.stripped = r.stripped →
      ((steps.map Step.stripped).foldl (Review.step catalog root) r').stripped =
        (steps.foldl (Review.step catalog root) r).stripped := by
    intro root steps
    induction steps with
    | nil => exact fun _ _ h => h
    | cons s steps ih => exact fun r r' h => ih _ _ (Review.step_stripped h s)
  have hissues : ∀ root r, ((p.steps.map Step.stripped).foldl (Review.step catalog root) r).issues =
      (p.steps.foldl (Review.step catalog root) r).issues :=
    fun root r => (congrArg Review.issues (hsteps root p.steps r r rfl) :)
  simp only [issues, stripped, hissues]

/-- Pipelines that differ in nothing but what their copies of aliases hold besides a label have the same script, or stop
with the same cause, and have the same issues. -/
theorem scriptText_and_issues_eq_of_stripped_eq (h : p.stripped = p'.stripped) (catalog : Catalog) :
    p.scriptText catalog = p'.scriptText catalog ∧ p.issues catalog = p'.issues catalog := by
  constructor
  · rw [scriptText, scriptText, ← script_stripped p, h, script_stripped]
  · rw [← issues_stripped p, h, issues_stripped]

/-- The copies in the last two steps name a relation, a table and a base that nothing has. -/
theorem scriptText_and_issues_eq_of_stale_copies :
    let back (base : RelationAlias) : RelationAlias := .chained "lecturer" ⟨"teaches"⟩ ⟨"t"⟩ base
    let p (copy : RelationAlias) : Pipeline := ⟨⟨"t"⟩,
      [.relate school.taught, .relate (back copy), .select [(ColumnRef.ofTable ⟨"c"⟩ "id").under copy]]⟩
    let stale : RelationAlias := .chained "course" ⟨"r"⟩ ⟨"x"⟩ (back school.taught)
    p stale ≠ p school.taught ∧ (p stale).stripped = (p school.taught).stripped ∧
      (p stale).scriptText school = (p school.taught).scriptText school ∧
      (p stale).issues school = (p school.taught).issues school := by
  intro back p stale
  have hstripped : (p stale).stripped = (p school.taught).stripped := rfl
  exact ⟨by decide, hstripped, scriptText_and_issues_eq_of_stripped_eq hstripped school⟩

-- the label of a copy does count
example : let p (copy : RelationAlias) : Pipeline :=
      ⟨⟨"t"⟩, [.relate school.taught, .relate (.chained "lecturer" ⟨"teaches"⟩ ⟨"t"⟩ copy)]⟩
    (p school.taught).issues school = [] ∧ (p school.pupil).issues school = [.unknownAlias "pupil"] := ⟨rfl, rfl⟩

end Pipeline

end TableFlow
