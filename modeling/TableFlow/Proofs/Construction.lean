import TableFlow.Compile.Pipeline
import TableFlow.Proofs.Resolution

/-!
# Scripts under construction

What one step of a pipeline does to a script under construction (`Progress.Next`), and what a list of steps does to it
(`Progress.Run`): proofs about pipelines go by cases of the one and by induction on the other.  Whatever the steps,
the visible columns keep their flat names (`Progress.Run.resolvable`), so that a script can always be finished
(`Progress.Run.exists_finish`); the aliases are those of the relate steps, and the declarations are numbered.
-/

namespace TableFlow

/-! ### Relations -/

/-- What an alias names is known: its relation, its table, and the columns of that table. -/
structure RelationAlias.Found (catalog : Catalog) (a : RelationAlias) (relation : Relation) (target : Table)
    (columns : List Column) : Prop where
  relation_eq : catalog.relation a.relation = .ok relation
  target_eq : catalog.table a.table = .ok target
  columns_eq : catalog.tableColumns target.id = .ok columns

/-- The transforms of a relation that leads to a table: one join, or two through a junction and a selection that drops
the junction's columns. -/
inductive Relation.Joins (catalog : Catalog) (label : String) (base : JoinBase) (target : Table)
    (columns : List Column) (visible : List ColumnRef) (r : Relation) : List Transform → Prop
  | direct (kind : ∀ junction, r.kind ≠ .manyToMany junction) :
    Joins catalog label base target columns visible r
      [.join (Qualifier.joined label).text (target.flattened (.joined label) columns) (base.qualifier.flat r.column1)
        ((Qualifier.joined label).flat r.column2)]
  | through {junction : Junction} {link : Table} {kept : List String} {linkColumns : List Column}
      (kind : r.kind = .manyToMany junction) (link_eq : catalog.table junction.table = .ok link)
      (kept_eq : flatNames catalog.tables visible = .ok kept)
      (linkColumns_eq : catalog.tableColumns link.id = .ok linkColumns) :
    Joins catalog label base target columns visible r
      [.join (Qualifier.junction label).text (link.flattened (.junction label) linkColumns)
        (base.qualifier.flat r.column1) ((Qualifier.junction label).flat junction.column1),
      .join (Qualifier.joined label).text (target.flattened (.joined label) columns)
        ((Qualifier.junction label).flat junction.column2) ((Qualifier.joined label).flat r.column2),
      .select (kept ++ (target.flattened (.joined label) columns).names)]

/-- The junction table of a relation, if it goes through one. -/
def Relation.junctionTable? (r : Relation) : Option TableId :=
  match r.kind with
  | .manyToMany junction => some junction.table
  | _ => none

theorem Relation.junctionTable?_towards (r : Relation) (id : TableId) :
    (r.towards id).junctionTable? = r.junctionTable? := by
  unfold towards
  split
  · obtain ⟨_, kind, _, _, _, _⟩ := r
    cases kind <;> rfl
  · rfl

theorem Relation.junctionTable?_eq_some_iff {r : Relation} {id : TableId} :
    r.junctionTable? = some id ↔ ∃ junction, r.kind = .manyToMany junction ∧ junction.table = id := by
  unfold junctionTable?
  cases r.kind <;> simp

section Relations

variable {catalog : Catalog} {base : JoinBase} {visible : List ColumnRef}

private theorem Relation.joins_eq_ok_iff {label : String} {target : Table} {columns : List Column} {r : Relation}
    {transforms : List Transform} :
    r.joins catalog label base target columns visible = .ok transforms ↔
      r.Joins catalog label base target columns visible transforms := by
  constructor
  · intro h
    unfold Relation.joins at h
    split at h
    · rename_i junction kind
      simp only [bind_eq_ok_iff, Except.ok.injEq] at h
      obtain ⟨link, hlink, kept, hkept, linkColumns, hlinkColumns, rfl⟩ := h
      exact .through kind hlink hkept hlinkColumns
    · rename_i kind
      cases h
      exact .direct kind
  · intro h
    cases h with
    | direct kind =>
      unfold Relation.joins
      split
      · exact absurd ‹_› (kind _)
      · rfl
    | through kind link_eq kept_eq linkColumns_eq =>
      simp [Relation.joins, kind, link_eq, kept_eq, linkColumns_eq, bind, Except.bind]

theorem RelationAlias.joined_eq_ok_iff {a : RelationAlias} {joined : Joined} :
    a.joined catalog base visible = .ok joined ↔
      ∃ relation target columns transforms, a.Found catalog relation target columns ∧
        (relation.towards target.id).Joins catalog a.label base target columns visible transforms ∧
        joined = ⟨transforms, columns.map fun c => (ColumnRef.ofTable target.id c.name).under a⟩ := by
  simp only [RelationAlias.joined, bind_eq_ok_iff, Except.ok.injEq, Relation.joins_eq_ok_iff]
  constructor
  · rintro ⟨relation, hrelation, target, htarget, columns, hcolumns, transforms, htransforms, rfl⟩
    exact ⟨relation, target, columns, transforms, ⟨hrelation, htarget, hcolumns⟩, htransforms, rfl⟩
  · rintro ⟨relation, target, columns, transforms, ⟨hrelation, htarget, hcolumns⟩, htransforms, rfl⟩
    exact ⟨relation, hrelation, target, htarget, columns, hcolumns, transforms, htransforms, rfl⟩

end Relations

/-! ### One step -/

namespace Progress

/-- What a step does to a script under construction. -/
inductive Next (catalog : Catalog) (root : Table) (p : Progress) : Step → Progress → Prop
  | display : Next catalog root p .display p
  | select {columns : List ColumnRef} {names : List String} (nonempty : columns ≠ [])
      (names_eq : flatNames catalog.tables columns = .ok names) :
    Next catalog root p (.select columns) { p.declare [.select names] with visible := columns }
  | filter {f : Filter} {transforms : List Transform} (transforms_eq : f.transforms catalog.tables = .ok transforms) :
    Next catalog root p (.filter f) (p.declare transforms)
  | order {o : Order} {transforms : List Transform} (transforms_eq : o.transforms catalog.tables = .ok transforms) :
    Next catalog root p (.order o) (p.declare transforms)
  | take {t : Take} {transforms : List Transform} (transforms_eq : t.transforms = .ok transforms) :
    Next catalog root p (.take t) (p.declare transforms)
  | aggregate {a : Aggregate} {group : List String} {column : String}
      (group_eq : flatNames catalog.tables a.group = .ok group)
      (column_eq : a.column.flatName catalog.tables = .ok column) :
    Next catalog root p (.aggregate a)
      { p.declare [.aggregate group a.operation column a.label] with visible := a.group ++ [.ofAggregate a.label] }
  | relate {a : RelationAlias} {base : JoinBase} {relation : Relation} {target : Table} {columns : List Column}
      {transforms : List Transform} (base_eq : p.base root a = .ok base)
      (found : a.Found catalog relation target columns)
      (joins : (relation.towards target.id).Joins catalog a.label base target columns p.visible transforms) :
    Next catalog root p (.relate a)
      { p.declare transforms with
        visible := p.visible ++ columns.map fun c => (ColumnRef.ofTable target.id c.name).under a
        aliases := p.aliases ++ [a] }

variable {catalog : Catalog} {root : Table} {p q : Progress}

/-- A relation can start at the root table and at the tables of earlier aliases. -/
theorem exists_base_iff {a : RelationAlias} :
    (∃ base, p.base root a = .ok base) ↔ ∀ b, a.base? = some b → ∃ earlier ∈ p.aliases, earlier.label = b.label := by
  unfold base
  cases a.base? with
  | none => simp
  | some b =>
    have hfind : (p.aliases.reverse.find? fun earlier => earlier.label = b.label).isSome ↔
        ∃ earlier ∈ p.aliases, earlier.label = b.label := by simp
    simp only [Option.some.injEq, forall_eq', ← hfind]
    cases p.aliases.reverse.find? fun earlier => earlier.label = b.label <;> simp

theorem step_eq_ok_iff {s : Step} : p.step catalog root s = .ok q ↔ p.Next catalog root s q := by
  constructor
  · intro h
    cases s with
    | root id => cases h
    | display => cases h; exact .display
    | select columns =>
      simp only [step] at h
      split at h
      · cases h
      · rename_i nonempty
        simp only [bind_eq_ok_iff, Except.ok.injEq] at h
        obtain ⟨names, hnames, rfl⟩ := h
        exact .select (by simpa using nonempty) hnames
    | filter f =>
      obtain ⟨transforms, htransforms, rfl⟩ := map_eq_ok_iff.1 h
      exact .filter htransforms
    | order o =>
      obtain ⟨transforms, htransforms, rfl⟩ := map_eq_ok_iff.1 h
      exact .order htransforms
    | take t =>
      obtain ⟨transforms, htransforms, rfl⟩ := map_eq_ok_iff.1 h
      exact .take htransforms
    | aggregate a =>
      simp only [step, Aggregate.transforms, bind_eq_ok_iff, Except.ok.injEq] at h
      obtain ⟨_, ⟨group, hgroup, column, hcolumn, rfl⟩, rfl⟩ := h
      exact .aggregate hgroup hcolumn
    | relate a =>
      simp only [step, bind_eq_ok_iff, Except.ok.injEq, RelationAlias.joined_eq_ok_iff] at h
      obtain ⟨base, hbase, _, ⟨relation, target, columns, transforms, hfound, hjoins, rfl⟩, rfl⟩ := h
      exact .relate hbase hfound hjoins
  · intro h
    cases h with
    | display => rfl
    | select nonempty names_eq => simp [step, nonempty, names_eq, bind, Except.bind]
    | filter transforms_eq => exact map_eq_ok_iff.2 ⟨_, transforms_eq, rfl⟩
    | order transforms_eq => exact map_eq_ok_iff.2 ⟨_, transforms_eq, rfl⟩
    | take transforms_eq => exact map_eq_ok_iff.2 ⟨_, transforms_eq, rfl⟩
    | aggregate group_eq column_eq =>
      simp [step, Aggregate.transforms, group_eq, column_eq, bind, Except.bind]
    | relate base_eq found joins =>
      have hjoined := RelationAlias.joined_eq_ok_iff.2 ⟨_, _, _, _, found, joins, rfl⟩
      simp [step, base_eq, hjoined, bind, Except.bind]

/-! ### A list of steps -/

/-- What a list of steps does to a script under construction. -/
inductive Run (catalog : Catalog) (root : Table) (initial : Progress) : List Step → Progress → Prop
  | nil : Run catalog root initial [] initial
  | snoc {steps : List Step} {p q : Progress} {s : Step} (run : Run catalog root initial steps p)
      (next : p.Next catalog root s q) : Run catalog root initial (steps ++ [s]) q

variable {initial : Progress} {steps : List Step}

private theorem Run.append {rest : List Step} (run : Run catalog root initial steps p)
    (h : rest.foldlM (step catalog root) p = .ok q) : Run catalog root initial (steps ++ rest) q := by
  -- from the front of the rest, each step moves to the end of the run
  induction rest generalizing steps p with
  | nil =>
    cases h
    rwa [List.append_nil]
  | cons s rest ih =>
    rw [List.foldlM_cons, bind_eq_ok_iff] at h
    obtain ⟨p', hp', h⟩ := h
    have := ih (run.snoc (step_eq_ok_iff.1 hp')) h
    rwa [List.append_assoc, List.singleton_append] at this

theorem foldlM_step_eq_ok_iff :
    steps.foldlM (step catalog root) initial = .ok q ↔ Run catalog root initial steps q := by
  constructor
  · intro h
    exact Run.nil.append h
  · intro run
    induction run with
    | nil => rfl
    | snoc run next ih =>
      rw [List.foldlM_append, ih]
      exact bind_eq_ok_iff.2 ⟨_, rfl, bind_eq_ok_iff.2 ⟨_, step_eq_ok_iff.2 next, rfl⟩⟩

theorem run_cons_iff {s : Step} :
    Run catalog root initial (s :: steps) q ↔
      ∃ p, initial.Next catalog root s p ∧ Run catalog root p steps q := by
  simp only [← foldlM_step_eq_ok_iff, ← step_eq_ok_iff, List.foldlM_cons, bind_eq_ok_iff]

theorem run_append_iff {rest : List Step} :
    Run catalog root initial (steps ++ rest) q ↔
      ∃ p, Run catalog root initial steps p ∧ Run catalog root p rest q := by
  simp only [← foldlM_step_eq_ok_iff, List.foldlM_append, bind_eq_ok_iff]

/-- A list of steps fails at the first step that fails behind those before it. -/
private theorem foldlM_step_eq_error_iff {e : Cause} :
    steps.foldlM (step catalog root) initial = .error e ↔ ∃ before s after p, steps = before ++ s :: after ∧
      Run catalog root initial before p ∧ p.step catalog root s = .error e := by
  constructor
  · intro h
    -- either the first step fails, or it goes through and the failure lies behind it
    induction steps generalizing initial with
    | nil => cases h
    | cons s steps ih =>
      rw [List.foldlM_cons, bind_eq_error_iff] at h
      rcases h with h | ⟨p, hp, h⟩
      · exact ⟨[], s, steps, initial, rfl, .nil, h⟩
      · obtain ⟨before, s', after, p', hsteps, run, h⟩ := ih h
        refine ⟨s :: before, s', after, p', by rw [hsteps, List.cons_append], ?_, h⟩
        exact run_cons_iff.2 ⟨p, step_eq_ok_iff.1 hp, run⟩
  · rintro ⟨before, s, after, p, rfl, run, h⟩
    rw [List.foldlM_append, foldlM_step_eq_ok_iff.2 run]
    exact bind_eq_error_iff.2 (Or.inr ⟨p, rfl, by rw [List.foldlM_cons, h]; rfl⟩)

/-! ### What every run keeps -/

/-- The declarations are numbered from 0, and there is at least one. -/
structure Numbered (p : Progress) : Prop where
  pos : 0 < p.declarations.length
  names : p.declarations.map (·.name) = (List.range p.declarations.length).map declarationName

theorem numbered_start (root : Table) (columns : List Column) : (start root columns).Numbered :=
  ⟨Nat.one_pos, rfl⟩

private theorem Numbered.declare (h : p.Numbered) (transforms : List Transform) : (p.declare transforms).Numbered where
  pos := by simp [Progress.declare]
  names := by simp [Progress.declare, h.names, List.range_succ]

theorem Run.numbered (run : Run catalog root initial steps q) (h : initial.Numbered) : q.Numbered := by
  induction run with
  | nil => exact h
  | snoc run next ih =>
    cases next with
    | display => exact ih
    | select | filter | order | take | aggregate | relate => exact ⟨(ih.declare _).pos, (ih.declare _).names⟩

end Progress

/-- The alias that a step introduces. -/
def Step.alias? : Step → Option RelationAlias
  | .relate a => some a
  | _ => none

theorem Step.alias?_eq_some_iff {s : Step} {a : RelationAlias} : s.alias? = some a ↔ s = .relate a := by
  cases s <;> simp [alias?]

namespace Progress

variable {catalog : Catalog} {root : Table} {q : Progress} {steps : List Step} {columns : List Column}

/-- The aliases are those of the relate steps, in order. -/
theorem Run.aliases_eq (run : Run catalog root (start root columns) steps q) :
    q.aliases = steps.filterMap Step.alias? := by
  induction run with
  | nil => rfl
  | snoc run next ih =>
    rw [List.filterMap_append, ← ih]
    cases next with
    | display | select | filter | order | take | aggregate => simp [Step.alias?, declare]
    | relate => rfl

theorem Run.mem_aliases_iff (run : Run catalog root (start root columns) steps q) {a : RelationAlias} :
    a ∈ q.aliases ↔ .relate a ∈ steps := by
  rw [run.aliases_eq, List.mem_filterMap]
  constructor
  · rintro ⟨s, hs, ha⟩
    cases s <;> cases ha
    exact hs
  · exact fun h => ⟨_, h, rfl⟩

/-- Every column that is visible has a flat name. -/
theorem Run.resolvable {id : TableId} (run : Run catalog root (start root columns) steps q)
    (hroot : catalog.table id = .ok root) : ∀ c ∈ q.visible, c.Resolvable catalog.tables := by
  induction run with
  | nil =>
    intro c hc
    obtain ⟨column, -, rfl⟩ := List.mem_map.1 hc
    have hmem : root ∈ catalog.tables := List.mem_of_find?_eq_some (Catalog.table_eq_ok_iff.1 hroot)
    exact Or.inr (Or.inr ⟨root, hmem, rfl⟩)
  | snoc run next ih =>
    cases next with
    | display => exact ih
    | filter | order | take => exact ih
    | select nonempty names_eq => exact exists_flatNames_iff.1 ⟨_, names_eq⟩
    | aggregate group_eq column_eq =>
      intro c hc
      rcases List.mem_append.1 hc with hc | hc
      · exact exists_flatNames_iff.1 ⟨_, group_eq⟩ c hc
      · rw [List.mem_singleton.1 hc]
        exact Or.inl rfl
    | relate base_eq found joins =>
      intro c hc
      rcases List.mem_append.1 hc with hc | hc
      · exact ih c hc
      · obtain ⟨column, -, rfl⟩ := List.mem_map.1 hc
        exact Or.inr (Or.inl rfl)

/-- A script under construction can be finished whenever its steps went through. -/
theorem Run.exists_finish {id : TableId} (run : Run catalog root (start root columns) steps q)
    (hroot : catalog.table id = .ok root) :
    ∃ names, flatNames catalog.tables q.visible = .ok names ∧
      q.finish catalog = .ok ⟨q.declarations, ⟨.declaration q.last, [.select names]⟩⟩ := by
  obtain ⟨names, hnames⟩ := exists_flatNames_iff.2 (run.resolvable hroot)
  exact ⟨names, hnames, by simp [finish, hnames, bind, Except.bind]⟩

end Progress

/-! ### Pipelines -/

namespace Pipeline

/-- The script under construction when all steps of a pipeline went through. -/
def progress (p : Pipeline) (catalog : Catalog) : Except Cause Progress := do
  let root ← catalog.table p.root
  let columns ← catalog.tableColumns root.id
  p.steps.foldlM (Progress.step catalog root) (.start root columns)

variable {p : Pipeline} {catalog : Catalog}

theorem progress_eq_ok_iff {q : Progress} :
    p.progress catalog = .ok q ↔ ∃ root columns, catalog.table p.root = .ok root ∧
      catalog.tableColumns root.id = .ok columns ∧ Progress.Run catalog root (.start root columns) p.steps q := by
  simp only [progress, bind_eq_ok_iff, Progress.foldlM_step_eq_ok_iff, ← exists_and_left]

/-- A pipeline fails to have a script only by its root table or one of its steps. -/
theorem script_eq_error_iff {e : Cause} : p.script catalog = .error e ↔ p.progress catalog = .error e := by
  have hscript : p.script catalog = p.progress catalog >>= Progress.finish catalog := by
    simp only [script, progress, bind_assoc]
  rw [hscript, bind_eq_error_iff]
  -- what went through all steps can be finished
  refine ⟨fun h => h.resolve_right ?_, Or.inl⟩
  rintro ⟨q, hq, he⟩
  obtain ⟨root, columns, hroot, -, run⟩ := progress_eq_ok_iff.1 hq
  obtain ⟨names, -, hfinish⟩ := run.exists_finish hroot
  rw [hfinish] at he
  cases he

/-- The script of a pipeline, taken apart. -/
theorem script_eq_ok_iff {s : Script} :
    p.script catalog = .ok s ↔ ∃ q names, p.progress catalog = .ok q ∧
      flatNames catalog.tables q.visible = .ok names ∧
      s = ⟨q.declarations, ⟨.declaration q.last, [.select names]⟩⟩ := by
  have hscript : p.script catalog = p.progress catalog >>= Progress.finish catalog := by
    simp only [script, progress, bind_assoc]
  simp only [hscript, bind_eq_ok_iff, Progress.finish, Except.ok.injEq, ← exists_and_left, eq_comm (a := s)]

/-! ### Where a pipeline stops -/

/-- The pipeline before the step with a number has a script, but the step itself fails. -/
structure StopsAt (p : Pipeline) (catalog : Catalog) (k : Nat) (e : Cause) : Prop where
  compiles : ∃ s, (p.take k).script catalog = .ok s
  fails : (p.take (k + 1)).script catalog = .error e

theorem stopsAt_iff {k : Nat} {e : Cause} :
    p.StopsAt catalog k e ↔ ∃ root columns q s, catalog.table p.root = .ok root ∧
      catalog.tableColumns root.id = .ok columns ∧
      Progress.Run catalog root (.start root columns) (p.steps.take k) q ∧ p.steps[k]? = some s ∧
      q.step catalog root s = .error e := by
  have hstep : ∀ {root columns q}, catalog.table p.root = .ok root → catalog.tableColumns root.id = .ok columns →
      Progress.Run catalog root (.start root columns) (p.steps.take k) q →
      (p.take (k + 1)).progress catalog = p.steps[k]?.toList.foldlM (Progress.step catalog root) q := by
    intro root columns q hroot hcolumns run
    rw [← Progress.foldlM_step_eq_ok_iff] at run
    simp [progress, take, hroot, hcolumns, List.take_add_one, run, bind, Except.bind]
  constructor
  · rintro ⟨⟨s, hs⟩, hfails⟩
    obtain ⟨q, -, hq, -⟩ := script_eq_ok_iff.1 hs
    obtain ⟨root, columns, hroot, hcolumns, run⟩ := progress_eq_ok_iff.1 hq
    rw [script_eq_error_iff, hstep hroot hcolumns run] at hfails
    cases hk : p.steps[k]? with
    | none =>
      rw [hk] at hfails
      cases hfails
    | some s =>
      rw [hk, Option.toList_some, List.foldlM_cons, bind_eq_error_iff] at hfails
      refine ⟨root, columns, q, s, hroot, hcolumns, run, rfl, hfails.resolve_right ?_⟩
      rintro ⟨_, -, h⟩
      cases h
  · rintro ⟨root, columns, q, s, hroot, hcolumns, run, hk, h⟩
    obtain ⟨names, hnames, -⟩ := run.exists_finish hroot
    refine ⟨⟨_, script_eq_ok_iff.2 ⟨q, names, ?_, hnames, rfl⟩⟩, ?_⟩
    · exact progress_eq_ok_iff.2 ⟨root, columns, hroot, hcolumns, run⟩
    · rw [script_eq_error_iff, hstep hroot hcolumns run, hk, Option.toList_some, List.foldlM_cons, h]
      rfl

/-- A pipeline without a script lacks its root table, or it stops at one of its steps. -/
theorem script_eq_error_iff_stopsAt {e : Cause} :
    p.script catalog = .error e ↔ catalog.Lacks p.root e ∨ ∃ k, p.StopsAt catalog k e := by
  rw [script_eq_error_iff]
  simp only [progress, bind_eq_error_iff, Progress.foldlM_step_eq_error_iff, stopsAt_iff]
  constructor
  · rintro (h | ⟨root, hroot, h | ⟨columns, hcolumns, before, s, after, q, hsteps, run, h⟩⟩)
    · exact Or.inl (Or.inl h)
    · exact Or.inl (Or.inr ⟨root, hroot, h⟩)
    · refine Or.inr ⟨before.length, root, columns, q, s, hroot, hcolumns, ?_, ?_, h⟩
      · rwa [hsteps, List.take_left]
      · simp [hsteps]
  · rintro ((h | ⟨root, hroot, h⟩) | ⟨k, root, columns, q, s, hroot, hcolumns, run, hk, h⟩)
    · exact Or.inl h
    · exact Or.inr ⟨root, hroot, Or.inl h⟩
    · obtain ⟨hlt, hget⟩ := List.getElem?_eq_some_iff.1 hk
      refine Or.inr ⟨root, hroot, Or.inr ⟨columns, hcolumns, p.steps.take k, s, p.steps.drop (k + 1), q, ?_, run, h⟩⟩
      rw [← hget, ← List.drop_eq_getElem_cons hlt, List.take_append_drop]

end Pipeline

end TableFlow
