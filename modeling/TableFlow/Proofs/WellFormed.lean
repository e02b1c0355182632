import TableFlow.Proofs.Construction

/-!
# Well-formed pipelines

Which pipelines have a script can be said step by step, without constructing one: `Step.WellFormed` asks of a step only
what stands in the step itself, in the catalog, and in the relate steps before it.  A pipeline has a script exactly if
its root table is known and all of its steps are well-formed (`Pipeline.exists_scriptText_iff`).
-/

namespace TableFlow

/-- A condition whose columns have flat names and whose pattern has a text. -/
structure Condition.WellFormed (tables : List Table) (c : Condition) : Prop where
  column : c.column.Resolvable tables
  pattern : ∀ words, c.operator.form = .pattern words → ∃ value, c.value = .literal value ∧ value ≠ .null
  comparison : ∀ sign other, c.operator.form = .comparison sign → c.value = .column other → other.Resolvable tables

/-- The numbers of the first row and of the last one fit into 64 bits. -/
structure Take.WellFormed (t : Take) : Prop where
  first : (t.offset.getD 0).toNat + 1 < UInt64.size
  last : ∀ limit, t.limit = some limit → (t.offset.getD 0).toNat + limit.toNat < UInt64.size

/-- An alias that starts at the root table or at an earlier alias, and that leads to a known table by a known relation;
if the relation has a junction table, that is known as well. -/
structure RelationAlias.WellFormed (catalog : Catalog) (before : List Step) (a : RelationAlias) : Prop where
  base : ∀ b, a.base? = some b → ∃ earlier, .relate earlier ∈ before ∧ earlier.label = b.label
  relation : ∃ relation, catalog.relation? a.relation = some relation ∧
    ∀ id, relation.junctionTable? = some id → catalog.Knows id
  target : catalog.Knows a.table

/-- What a step has to meet, given the steps before it. -/
def Step.WellFormed (catalog : Catalog) (before : List Step) : Step → Prop
  | .root _ => False
  | .select columns => columns ≠ [] ∧ ∀ c ∈ columns, c.Resolvable catalog.tables
  | .filter f => ∀ c ∈ f.conditions, c.WellFormed catalog.tables
  | .order o => ∀ k ∈ o.keys, k.column.Resolvable catalog.tables
  | .aggregate a => (∀ c ∈ a.group, c.Resolvable catalog.tables) ∧ a.column.Resolvable catalog.tables
  | .relate a => a.WellFormed catalog before
  | .take t => t.WellFormed
  | .display => True

/-- The root table is known, and each step is well-formed behind those before it. -/
structure Pipeline.WellFormed (catalog : Catalog) (p : Pipeline) : Prop where
  root : catalog.Knows p.root
  steps : ∀ before s after, p.steps = before ++ s :: after → s.WellFormed catalog before

/-! ### Transforms of single steps -/

section Transforms

variable {tables : List Table}

private theorem Condition.exists_pieces_iff {c : Condition} :
    (∃ pieces, c.pieces tables = .ok pieces) ↔ c.WellFormed tables := by
  constructor
  · rintro ⟨pieces, h⟩
    simp only [Condition.pieces, bind_eq_ok_iff] at h
    obtain ⟨column, hcolumn, h⟩ := h
    refine ⟨ColumnRef.exists_flatName_iff.1 ⟨column, hcolumn⟩, ?_, ?_⟩
    · intro words hform
      rw [hform] at h
      cases hvalue : c.value with
      | column other =>
        rw [hvalue] at h
        cases h
      | literal value =>
        refine ⟨value, rfl, ?_⟩
        rintro rfl
        rw [hvalue] at h
        cases h
    · intro sign other hform hvalue
      rw [hform, hvalue] at h
      simp only [bind_eq_ok_iff] at h
      obtain ⟨name, hname, -⟩ := h
      exact ColumnRef.exists_flatName_iff.1 ⟨name, hname⟩
  · intro h
    obtain ⟨column, hcolumn⟩ := ColumnRef.exists_flatName_iff.2 h.column
    simp only [Condition.pieces, bind_eq_ok_iff, hcolumn, Except.ok.injEq, exists_eq_left']
    cases hform : c.operator.form with
    | postfixed words => exact ⟨_, rfl⟩
    | pattern words =>
      obtain ⟨value, hvalue, hne⟩ := h.pattern words hform
      rw [hvalue]
      cases value with
      | null => exact absurd rfl hne
      | boolean | integer | unsigned | float | string => exact ⟨_, rfl⟩
    | comparison sign =>
      cases hvalue : c.value with
      | literal value => exact ⟨_, rfl⟩
      | column other =>
        obtain ⟨name, hname⟩ := ColumnRef.exists_flatName_iff.2 (h.comparison sign other hform hvalue)
        exact ⟨_, by simp only [hname]; rfl⟩

private theorem Filter.exists_transforms_iff {f : Filter} :
    (∃ transforms, f.transforms tables = .ok transforms) ↔ ∀ c ∈ f.conditions, c.WellFormed tables := by
  simp only [← Condition.exists_pieces_iff, ← exists_mapM_eq_ok_iff]
  constructor
  · rintro ⟨transforms, h⟩
    simp only [Filter.transforms, Filter.predicate, bind_eq_ok_iff] at h
    obtain ⟨_, ⟨pieces, hpieces, -⟩, -⟩ := h
    exact ⟨pieces, hpieces⟩
  · rintro ⟨pieces, hpieces⟩
    simp only [Filter.transforms, Filter.predicate, hpieces, bind, Except.bind]
    split <;> exact ⟨_, rfl⟩

private theorem Order.exists_transforms_iff {o : Order} :
    (∃ transforms, o.transforms tables = .ok transforms) ↔ ∀ k ∈ o.keys, k.column.Resolvable tables := by
  have hkey : ∀ k : OrderKey, (∃ key, k.sortKey tables = .ok key) ↔ k.column.Resolvable tables := by
    intro k
    rw [← ColumnRef.exists_flatName_iff]
    simp only [OrderKey.sortKey, bind_eq_ok_iff, Except.ok.injEq]
    exact ⟨fun ⟨_, name, hname, _⟩ => ⟨name, hname⟩, fun ⟨name, hname⟩ => ⟨_, name, hname, rfl⟩⟩
  simp only [← hkey, ← exists_mapM_eq_ok_iff]
  constructor
  · rintro ⟨transforms, h⟩
    simp only [Order.transforms, bind_eq_ok_iff] at h
    obtain ⟨keys, hkeys, -⟩ := h
    exact ⟨keys, hkeys⟩
  · rintro ⟨keys, hkeys⟩
    simp only [Order.transforms, hkeys, bind, Except.bind]
    split <;> exact ⟨_, rfl⟩

private theorem exists_addRows_iff {m n : UInt64} : (∃ k, addRows m n = .ok k) ↔ m.toNat + n.toNat < UInt64.size := by
  unfold addRows
  split
  · rename_i h
    exact ⟨fun _ => h, fun _ => ⟨_, rfl⟩⟩
  · rename_i h
    simp [h]

theorem Take.exists_transforms_iff {t : Take} : (∃ transforms, t.transforms = .ok transforms) ↔ t.WellFormed := by
  have hone : (1 : UInt64).toNat = 1 := rfl
  constructor
  · rintro ⟨transforms, h⟩
    simp only [Take.transforms] at h
    split at h
    · rename_i limit hlimit
      simp only [bind_eq_ok_iff] at h
      obtain ⟨first, hfirst, last, hlast, -⟩ := h
      refine ⟨exists_addRows_iff.1 ⟨first, hfirst⟩, ?_⟩
      intro limit' hlimit'
      obtain rfl : limit = limit' := Option.some.inj (hlimit.symm.trans hlimit')
      exact exists_addRows_iff.1 ⟨last, hlast⟩
    · rename_i hlimit
      refine ⟨?_, fun limit h => absurd (hlimit.symm.trans h) (by simp)⟩
      split at h
      · simp only [bind_eq_ok_iff] at h
        obtain ⟨first, hfirst, -⟩ := h
        exact exists_addRows_iff.1 ⟨first, hfirst⟩
      · rename_i hoffset
        -- neither a limit nor an offset, so nothing is added up
        have hzero : (t.offset.getD 0).toNat ≤ 0 := UInt64.le_iff_toNat_le.1 (UInt64.not_lt.1 hoffset)
        have hsize : 1 < UInt64.size := by decide
        omega
  · rintro ⟨hfirst, hlast⟩
    obtain ⟨first, hfirst⟩ := exists_addRows_iff.2 (hone.symm ▸ hfirst)
    simp only [Take.transforms]
    split
    · rename_i limit hlimit
      obtain ⟨last, hlast⟩ := exists_addRows_iff.2 (hlast limit hlimit)
      exact ⟨_, by rw [hfirst, hlast]; rfl⟩
    · split
      · exact ⟨_, by rw [hfirst]; rfl⟩
      · exact ⟨_, rfl⟩

end Transforms

/-! ### Relate steps -/

/-- A relation that leads to a known table can be joined if its junction table, if any, is known. -/
private theorem Relation.exists_joins_iff {catalog : Catalog} {label : String} {base : JoinBase} {target : Table}
    {columns : List Column} {visible : List ColumnRef} {r : Relation}
    (hvisible : ∀ c ∈ visible, c.Resolvable catalog.tables) :
    (∃ transforms, r.Joins catalog label base target columns visible transforms) ↔
      ∀ id, r.junctionTable? = some id → catalog.Knows id := by
  constructor
  · rintro ⟨transforms, joins⟩ id hid
    cases joins with
    | direct kind =>
      unfold junctionTable? at hid
      split at hid
      · exact absurd ‹_› (kind _)
      · cases hid
    | through kind link_eq kept_eq linkColumns_eq =>
      simp only [junctionTable?, kind, Option.some.injEq] at hid
      rw [← hid]
      exact Catalog.knows_iff.2 ⟨_, _, link_eq, linkColumns_eq⟩
  · intro h
    by_cases hkind : ∃ junction, r.kind = .manyToMany junction
    · obtain ⟨junction, hkind⟩ := hkind
      have hknown : catalog.Knows junction.table := h junction.table (by simp [junctionTable?, hkind])
      obtain ⟨link, linkColumns, hlink, hlinkColumns⟩ := Catalog.knows_iff.1 hknown
      -- the selection behind the joins never fails, since what is visible has flat names
      obtain ⟨kept, hkept⟩ := exists_flatNames_iff.2 hvisible
      exact ⟨_, .through hkind hlink hkept hlinkColumns⟩
    · exact ⟨_, .direct fun junction hjunction => hkind ⟨junction, hjunction⟩⟩

/-! ### Steps and runs -/

namespace Progress

variable {catalog : Catalog} {root : Table} {columns : List Column} {before : List Step} {p : Progress}

/-- Behind steps that went through, the next one goes through exactly if it is well-formed. -/
private theorem Run.exists_next_iff {id : TableId} (run : Run catalog root (start root columns) before p)
    (hroot : catalog.table id = .ok root) {s : Step} :
    (∃ q, p.Next catalog root s q) ↔ s.WellFormed catalog before := by
  have hvisible := run.resolvable hroot
  constructor
  · rintro ⟨q, next⟩
    cases next with
    | display => trivial
    | select nonempty names_eq => exact ⟨nonempty, exists_flatNames_iff.1 ⟨_, names_eq⟩⟩
    | filter transforms_eq => exact Filter.exists_transforms_iff.1 ⟨_, transforms_eq⟩
    | order transforms_eq => exact Order.exists_transforms_iff.1 ⟨_, transforms_eq⟩
    | take transforms_eq => exact Take.exists_transforms_iff.1 ⟨_, transforms_eq⟩
    | aggregate group_eq column_eq =>
      exact ⟨exists_flatNames_iff.1 ⟨_, group_eq⟩, ColumnRef.exists_flatName_iff.1 ⟨_, column_eq⟩⟩
    | relate base_eq found joins =>
      refine ⟨?_, ⟨_, Catalog.relation_eq_ok_iff.1 found.relation_eq, ?_⟩,
        Catalog.knows_iff.2 ⟨_, _, found.target_eq, found.columns_eq⟩⟩
      · simpa only [run.mem_aliases_iff] using exists_base_iff.1 ⟨_, base_eq⟩
      · simpa only [Relation.junctionTable?_towards] using (Relation.exists_joins_iff hvisible).1 ⟨_, joins⟩
  · intro h
    cases s with
    | root id => exact h.elim
    | display => exact ⟨_, .display⟩
    | select columns =>
      obtain ⟨names, hnames⟩ := exists_flatNames_iff.2 h.2
      exact ⟨_, .select h.1 hnames⟩
    | filter f =>
      obtain ⟨transforms, htransforms⟩ := Filter.exists_transforms_iff.2 h
      exact ⟨_, .filter htransforms⟩
    | order o =>
      obtain ⟨transforms, htransforms⟩ := Order.exists_transforms_iff.2 h
      exact ⟨_, .order htransforms⟩
    | take t =>
      obtain ⟨transforms, htransforms⟩ := Take.exists_transforms_iff.2 h
      exact ⟨_, .take htransforms⟩
    | aggregate a =>
      obtain ⟨group, hgroup⟩ := exists_flatNames_iff.2 h.1
      obtain ⟨column, hcolumn⟩ := ColumnRef.exists_flatName_iff.2 h.2
      exact ⟨_, .aggregate hgroup hcolumn⟩
    | relate a =>
      obtain ⟨base, hbase⟩ : ∃ base, p.base root a = .ok base := by
        rw [exists_base_iff]
        simpa only [run.mem_aliases_iff] using h.base
      obtain ⟨relation, hrelation, hjunction⟩ := h.relation
      obtain ⟨target, columns, htarget, hcolumns⟩ := Catalog.knows_iff.1 h.target
      obtain ⟨transforms, hjoins⟩ : ∃ transforms,
          (relation.towards target.id).Joins catalog a.label base target columns p.visible transforms := by
        rw [Relation.exists_joins_iff hvisible]
        simpa only [Relation.junctionTable?_towards] using hjunction
      exact ⟨_, .relate hbase ⟨Catalog.relation_eq_ok_iff.2 hrelation, htarget, hcolumns⟩ hjoins⟩

/-- Behind steps that went through, more steps go through exactly if each of them is well-formed. -/
private theorem Run.exists_run_iff {id : TableId} (run : Run catalog root (start root columns) before p)
    (hroot : catalog.table id = .ok root) {rest : List Step} :
    (∃ q, Run catalog root p rest q) ↔
      ∀ middle s after, rest = middle ++ s :: after → s.WellFormed catalog (before ++ middle) := by
  -- the steps before grow by the first of the rest
  induction rest generalizing before p with
  | nil =>
    refine ⟨fun _ middle s after h => ?_, fun _ => ⟨p, .nil⟩⟩
    simp at h
  | cons s rest ih =>
    simp only [run_cons_iff]
    constructor
    · rintro ⟨q, p', next, hq⟩ middle s' after h
      cases middle with
      | nil =>
        rw [List.nil_append, List.cons.injEq] at h
        rw [← h.1, List.append_nil]
        exact (run.exists_next_iff hroot).1 ⟨p', next⟩
      | cons s'' middle =>
        rw [List.cons_append, List.cons.injEq] at h
        have := (ih (run.snoc next)).1 ⟨q, hq⟩ middle s' after h.2
        rw [← h.1]
        simpa using this
    · intro h
      obtain ⟨p', next⟩ := (run.exists_next_iff hroot).2 (by simpa using h [] s rest rfl)
      obtain ⟨q, hq⟩ := (ih (run.snoc next)).2 (fun middle s' after hrest => by
        simpa using h (s :: middle) s' after (by rw [hrest, List.cons_append]))
      exact ⟨q, p', next, hq⟩

end Progress

/-- A pipeline has a script exactly if it is well-formed. -/
theorem Pipeline.exists_scriptText_iff {p : Pipeline} {catalog : Catalog} :
    (∃ text, p.scriptText catalog = .ok text) ↔ p.WellFormed catalog := by
  have hscript : (∃ text, p.scriptText catalog = .ok text) ↔ ∃ q, p.progress catalog = .ok q := by
    simp only [scriptText, map_eq_ok_iff, script_eq_ok_iff]
    constructor
    · rintro ⟨_, _, ⟨q, _, hq, _⟩, _⟩
      exact ⟨q, hq⟩
    · rintro ⟨q, hq⟩
      obtain ⟨root, columns, hroot, -, run⟩ := progress_eq_ok_iff.1 hq
      obtain ⟨names, hnames, -⟩ := run.exists_finish hroot
      exact ⟨_, _, ⟨q, names, hq, hnames, rfl⟩, rfl⟩
  rw [hscript]
  simp only [progress_eq_ok_iff]
  constructor
  · rintro ⟨q, root, columns, hroot, hcolumns, run⟩
    exact ⟨Catalog.knows_iff.2 ⟨root, columns, hroot, hcolumns⟩,
      ((Progress.Run.nil).exists_run_iff hroot).1 ⟨q, run⟩⟩
  · rintro ⟨hroot, hsteps⟩
    obtain ⟨root, columns, hroot, hcolumns⟩ := Catalog.knows_iff.1 hroot
    have hnil : Progress.Run catalog root (.start root columns) [] (.start root columns) := .nil
    obtain ⟨q, run⟩ := (hnil.exists_run_iff hroot).2 hsteps
    exact ⟨q, root, columns, hroot, hcolumns, run⟩

end TableFlow
