import TableFlow.Proofs.Construction

/-!
# The columns of a script

Which columns a script has can be read off its text alone: a flow starts with the columns of its source, and every
transform turns a list of columns into another one (`Transform.columns`).  A pipeline keeps account of its columns by
itself, as references with flat names.  The two agree (`Pipeline.columns_of_last_declaration`): the columns of the last
declaration are those that the main flow selects, in the same order and as often.
-/

namespace TableFlow

/-! ### Reading columns off a script -/

/-- The columns behind a transform, given those in front of it.  A joined table has the new names of its columns (see
`FlatTable.foldl_columns_flow`). -/
def Transform.columns (before : List String) : Transform → List String
  | derive columns => before ++ columns.map (·.1)
  | select columns => columns
  | filter _ => before
  | sort _ => before
  | take _ _ => before
  | aggregate group _ _ label => group ++ [label]
  | join _ table _ _ => before ++ table.names

/-- The columns of declarations, by their names. -/
abbrev Scope := List (String × List String)

/-- The columns of a source: `physical` says which columns the tables of the database have. -/
def Source.columns? (physical : String → String → List String) (scope : Scope) : Source → Option (List String)
  | table schema name => some (physical schema name)
  | declaration name => scope.lookup name

/-- The columns of a flow, if its source is known. -/
def Flow.columns? (physical : String → String → List String) (scope : Scope) (f : Flow) : Option (List String) :=
  (f.source.columns? physical scope).map fun columns => f.transforms.foldl Transform.columns columns

/-- The columns of all declarations, each of which may read from those in front of it. -/
def scopeOf (physical : String → String → List String) (declarations : List Declaration) : Option Scope :=
  declarations.foldlM (fun scope d =>
    (d.flow.columns? physical scope).map fun columns => scope ++ [(d.name, columns)]) []

theorem FlatTable.foldl_columns_flow (t : FlatTable) (columns : List String) :
    t.flow.transforms.foldl Transform.columns columns = t.names := rfl

theorem Table.names_flattened (t : Table) (q : Qualifier) (columns : List Column) :
    (t.flattened q columns).names = columns.map fun c => q.flat c.name := by
  simp [flattened, FlatTable.names]

section Scopes

variable {physical : String → String → List String}

private theorem scopeOf_append_singleton (declarations : List Declaration) (d : Declaration) :
    scopeOf physical (declarations ++ [d]) = (scopeOf physical declarations).bind fun scope =>
      (d.flow.columns? physical scope).map fun columns => scope ++ [(d.name, columns)] := by
  simp [scopeOf, List.foldlM_append]

/-- A scope has the names of its declarations. -/
private theorem names_of_scopeOf_eq_some {declarations : List Declaration} {scope : Scope}
    (h : scopeOf physical declarations = some scope) : scope.map (·.1) = declarations.map (·.name) := by
  -- the scope in front of the declarations grows, so the statement is about any
  suffices hfold : ∀ initial : Scope, declarations.foldlM (fun scope d =>
      (d.flow.columns? physical scope).map fun columns => scope ++ [(d.name, columns)]) initial = some scope →
      scope.map (·.1) = initial.map (·.1) ++ declarations.map (·.name) from by simpa using hfold [] h
  clear h
  induction declarations with
  | nil =>
    intro initial h
    cases h
    simp
  | cons d declarations ih =>
    intro initial h
    rw [List.foldlM_cons, Option.bind_eq_bind, Option.bind_eq_some_iff] at h
    obtain ⟨next, hnext, h⟩ := h
    obtain ⟨columns, -, rfl⟩ := Option.map_eq_some_iff.1 hnext
    simpa using ih _ h

end Scopes

/-! ### The two accounts of a step -/

private theorem declarationName_injective {m n : Nat} (h : declarationName m = declarationName n) : m = n := by
  have hrepr : m.repr = n.repr := (String.append_right_inj _).1 h
  have hdigits : Nat.toDigits 10 m = Nat.toDigits 10 n := by rw [← Nat.toList_repr, hrepr, Nat.toList_repr]
  rw [← Nat.ofDigitChars_ten_toDigits (n := m), hdigits, Nat.ofDigitChars_ten_toDigits]

section Transforms

variable {tables : List Table} {transforms : List Transform} (columns : List String)

private theorem Filter.foldl_columns {f : Filter} (h : f.transforms tables = .ok transforms) :
    transforms.foldl Transform.columns columns = columns := by
  simp only [Filter.transforms, bind_eq_ok_iff] at h
  obtain ⟨condition, -, h⟩ := h
  split at h <;> cases h <;> rfl

private theorem Order.foldl_columns {o : Order} (h : o.transforms tables = .ok transforms) :
    transforms.foldl Transform.columns columns = columns := by
  simp only [Order.transforms, bind_eq_ok_iff] at h
  obtain ⟨keys, -, h⟩ := h
  split at h <;> cases h <;> rfl

private theorem Take.foldl_columns {t : Take} (h : t.transforms = .ok transforms) :
    transforms.foldl Transform.columns columns = columns := by
  simp only [Take.transforms] at h
  split at h
  · simp only [bind_eq_ok_iff, Except.ok.injEq] at h
    obtain ⟨_, -, _, -, rfl⟩ := h
    rfl
  · split at h
    · simp only [bind_eq_ok_iff, Except.ok.injEq] at h
      obtain ⟨_, -, rfl⟩ := h
      rfl
    · cases h
      rfl

end Transforms

/-- A relation adds the columns of its table and nothing else: those of a junction are dropped again. -/
private theorem Relation.Joins.foldl_columns {catalog : Catalog} {label : String} {base : JoinBase} {target : Table}
    {columns : List Column} {visible : List ColumnRef} {r : Relation} {transforms : List Transform}
    (joins : r.Joins catalog label base target columns visible transforms) {names : List String}
    (hnames : flatNames catalog.tables visible = .ok names) :
    transforms.foldl Transform.columns names = names ++ columns.map fun c => (Qualifier.joined label).flat c.name := by
  cases joins with
  | direct => simp [Transform.columns, Table.names_flattened]
  | through kind link_eq kept_eq linkColumns_eq =>
    rw [hnames] at kept_eq
    cases kept_eq
    -- the selection decides, whatever the two joins have added
    simp [Transform.columns, Table.names_flattened]

namespace Progress

variable {physical : String → String → List String} {catalog : Catalog} {p : Progress}

/-- The account that a script under construction keeps of its columns is that of its declarations. -/
structure Described (physical : String → String → List String) (catalog : Catalog) (p : Progress)
    (names : List String) : Prop where
  visible : flatNames catalog.tables p.visible = .ok names
  scope : ∃ earlier, scopeOf physical p.declarations = some (earlier ++ [(p.last, names)])

private theorem last_declare (transforms : List Transform) :
    (p.declare transforms).last = declarationName p.declarations.length := by
  simp [last, declare]

/-- One more declaration keeps the accounts in agreement if its transforms make the visible columns. -/
private theorem Described.declare {names names' : List String} (h : p.Described physical catalog names)
    (hp : p.Numbered) {transforms : List Transform} {visible : List ColumnRef} {aliases : List RelationAlias}
    (hvisible : flatNames catalog.tables visible = .ok names')
    (htransforms : transforms.foldl Transform.columns names = names') :
    Described physical catalog { p.declare transforms with visible, aliases } names' := by
  refine ⟨hvisible, ?_⟩
  obtain ⟨earlier, hscope⟩ := h.scope
  have hnames := names_of_scopeOf_eq_some hscope
  obtain ⟨n, hn⟩ : ∃ n, p.declarations.length = n + 1 := ⟨_, (Nat.succ_pred_eq_of_pos hp.pos).symm⟩
  have hlast : p.last = declarationName n := by simp [last, hn]
  -- no earlier declaration has the name of the last one
  have hearlier : earlier.map (·.1) = (List.range n).map declarationName := by
    rw [hp.names, hn, List.range_succ, List.map_append, List.map_append] at hnames
    exact (List.append_inj' hnames rfl).1
  have hfresh : earlier.lookup p.last = none := by
    rw [List.lookup_eq_none_iff]
    intro entry hentry
    have hmem : entry.1 ∈ (List.range n).map declarationName := hearlier ▸ List.mem_map_of_mem hentry
    obtain ⟨m, hm, hname⟩ := List.mem_map.1 hmem
    rw [List.mem_range] at hm
    rw [bne_iff_ne, hlast, ← hname]
    intro heq
    have := declarationName_injective heq
    omega
  refine ⟨earlier ++ [(p.last, names)], ?_⟩
  have hlookup : (earlier ++ [(p.last, names)]).lookup p.last = some names := by
    rw [List.lookup_append, hfresh]
    simp
  show scopeOf physical (p.declarations ++ [_]) = some (_ ++ [((p.declare transforms).last, names')])
  rw [last_declare, scopeOf_append_singleton, hscope, ← htransforms]
  simp [Flow.columns?, Source.columns?, hlookup]

variable {root : Table} {columns : List Column}

private theorem described_start (hroot : catalog.table root.id = .ok root) :
    (start root columns).Described physical catalog (columns.map fun c => root.qualifier.flat c.name) where
  visible := flatNames_ofTable (Catalog.table_eq_ok_iff.1 hroot) columns
  scope := by
    have hsource : (root.flattened root.qualifier columns).flow.source = .table root.schema root.externalName := rfl
    refine ⟨[], ?_⟩
    simp [start, last, scopeOf, Flow.columns?, Source.columns?, hsource, FlatTable.foldl_columns_flow,
      Table.names_flattened]

/-- A step keeps the two accounts in agreement. -/
private theorem Described.next {q : Progress} {s : Step} {names : List String} (h : p.Described physical catalog names)
    (hp : p.Numbered) (next : p.Next catalog root s q) : ∃ names', q.Described physical catalog names' := by
  cases next with
  | display => exact ⟨names, h⟩
  | select nonempty names_eq => exact ⟨_, h.declare hp names_eq rfl⟩
  | filter transforms_eq => exact ⟨_, h.declare hp h.visible (Filter.foldl_columns names transforms_eq)⟩
  | order transforms_eq => exact ⟨_, h.declare hp h.visible (Order.foldl_columns names transforms_eq)⟩
  | take transforms_eq => exact ⟨_, h.declare hp h.visible (Take.foldl_columns names transforms_eq)⟩
  | aggregate group_eq column_eq =>
    refine ⟨_, h.declare hp (flatNames_append group_eq ?_) rfl⟩
    exact flatNames_eq_ok_iff.2 rfl
  | relate base_eq found joins =>
    exact ⟨_, h.declare hp (flatNames_append h.visible (flatNames_under _ _ _)) (joins.foldl_columns h.visible)⟩

private theorem Run.described {q : Progress} {steps : List Step} (run : Run catalog root (start root columns) steps q)
    (hroot : catalog.table root.id = .ok root) : ∃ names, q.Described physical catalog names := by
  induction run with
  | nil => exact ⟨_, described_start hroot⟩
  | snoc run next ih =>
    obtain ⟨names, h⟩ := ih
    exact h.next (run.numbered (numbered_start root columns)) next

end Progress

/-- The columns of the last declaration of a script are those that its main flow selects: the columns that are visible
in the end, under their flat names. -/
theorem Pipeline.columns_of_last_declaration {p : Pipeline} {catalog : Catalog} {s : Script}
    (h : p.script catalog = .ok s) (physical : String → String → List String) :
    ∃ q names earlier last, p.progress catalog = .ok q ∧ flatNames catalog.tables q.visible = .ok names ∧
      s.declarations.getLast? = some last ∧
      scopeOf physical s.declarations = some (earlier ++ [(last.name, names)]) ∧
      s.main = ⟨.declaration last.name, [.select names]⟩ := by
  obtain ⟨q, names, hq, hnames, rfl⟩ := script_eq_ok_iff.1 h
  obtain ⟨root, columns, hroot, -, run⟩ := progress_eq_ok_iff.1 hq
  rw [← Catalog.id_of_table_eq_ok hroot] at hroot
  obtain ⟨names', hdescribed⟩ : ∃ names, q.Described physical catalog names := run.described hroot
  obtain rfl : names = names' := Except.ok.inj (hnames.symm.trans hdescribed.visible)
  obtain ⟨earlier, hscope⟩ := hdescribed.scope
  have hlast : q.declarations.getLast?.map (·.name) = some q.last := by
    rw [← List.getLast?_map, ← names_of_scopeOf_eq_some hscope]
    simp
  obtain ⟨last, hlast, hname⟩ := Option.map_eq_some_iff.1 hlast
  rw [← hname] at hscope
  exact ⟨q, names, earlier, last, hq, hnames, hlast, hscope, by rw [hname]⟩

/-- Of a junction no columns are left. -/
theorem Pipeline.columns_of_attended :
    ∃ s, (⟨⟨"s"⟩, [.relate school.attended]⟩ : Pipeline).script school.enrolled = .ok s ∧
      ∃ earlier, scopeOf (fun _ _ => []) s.declarations =
        some (earlier ++ [("step_1", ["students__id", "course__id", "course__teacher_id"])]) := by
  obtain ⟨s, h⟩ : ∃ s, (⟨⟨"s"⟩, [.relate school.attended]⟩ : Pipeline).script school.enrolled = .ok s := ⟨_, rfl⟩
  refine ⟨s, h, ?_⟩
  obtain ⟨q, names, earlier, last, hq, hnames, hlast, hscope, -⟩ := columns_of_last_declaration h fun _ _ => []
  cases h
  cases hq
  cases hnames
  cases hlast
  exact ⟨earlier, hscope⟩

end TableFlow
