import TableFlow.Proofs.Issues

/-!
# Flat names that are taken twice

The columns that a script selects in the end are told apart by their flat names alone.  A review refuses a selection
that repeats a name, but it lets two other kinds of steps repeat one: an aggregate whose group repeats a name or holds
the name of its result, and a relation whose columns get names that are visible already, because two aliases have the
same label, an alias is called like the root table, or the parts of two names run together.  A selection or an
aggregate behind such a step clears the repeated names away.  So the selected names are different from each other
exactly if each step that repeats one is followed by a step that starts afresh (`Pipeline.nodup_selects_iff`).
-/

namespace TableFlow

/-- No two columns of a table have the same name. -/
def Catalog.TellsColumnsApart (c : Catalog) : Prop :=
  ∀ id columns, c.columns? id = some columns → (columns.map Column.name).Nodup

namespace Step

/-- The step makes a flat name a second time, `visible` being the names in front of it. -/
def Repeats (catalog : Catalog) (visible : List String) : Step → Prop
  | .aggregate a =>
    ∃ group, flatNames catalog.tables a.group = .ok group ∧ (¬group.Nodup ∨ a.label ∈ group)
  | .relate a =>
    ∃ columns, catalog.columns? a.table = some columns ∧
      ∃ c ∈ columns, (Qualifier.joined a.label).flat c.name ∈ visible
  | _ => False

/-- The columns behind the step are its own, whatever is visible in front of it. -/
def StartsAfresh : Step → Prop
  | .select _ => True
  | .aggregate _ => True
  | _ => False

end Step

/-- The script of a pipeline selects these flat names in the end. -/
def Pipeline.Selects (p : Pipeline) (catalog : Catalog) (names : List String) : Prop :=
  ∃ declarations source, p.script catalog = .ok ⟨declarations, ⟨source, [.select names]⟩⟩

/-! ### Names of single steps -/

theorem Qualifier.flat_inj {q : Qualifier} {c d : String} : q.flat c = q.flat d ↔ c = d :=
  String.append_right_inj _

/-- One qualifier keeps different columns apart. -/
theorem Qualifier.nodup_flat (q : Qualifier) {columns : List Column} (h : (columns.map Column.name).Nodup) :
    (columns.map fun c => q.flat c.name).Nodup := by
  rw [List.nodup_iff_pairwise_ne, List.pairwise_map] at h ⊢
  exact h.imp fun hne heq => hne (Qualifier.flat_inj.1 heq)

/-- Nothing comes again in a list exactly if its members are different from each other and from those seen before. -/
private theorem repeats_eq_nil_iff {seen names : List String} :
    repeats seen names = [] ↔ names.Nodup ∧ ∀ name ∈ names, name ∉ seen := by
  induction names generalizing seen with
  | nil => simp [repeats]
  | cons name names ih =>
    rw [repeats]
    split
    · rename_i hmem
      simp [hmem]
    · rename_i hmem
      rw [ih, List.nodup_cons, List.forall_mem_cons]
      constructor
      · rintro ⟨hnodup, hseen⟩
        refine ⟨⟨fun h => hseen name h List.mem_cons_self, hnodup⟩, hmem, ?_⟩
        exact fun other hother h => hseen other hother (List.mem_cons_of_mem _ h)
      · rintro ⟨⟨hnew, hnodup⟩, -, hseen⟩
        refine ⟨hnodup, fun other hother h => ?_⟩
        rcases List.mem_cons.1 h with rfl | h
        · exact hnew hother
        · exact hseen other hother h

theorem successes_of_flatNames {tables : List Table} {columns : List ColumnRef} {names : List String}
    (h : flatNames tables columns = .ok names) : successes (columns.map (ColumnRef.flatName tables)) = names := by
  rw [flatNames_eq_ok_iff.1 h, successes, List.filterMap_map]
  exact List.filterMap_some

namespace Step

variable {catalog : Catalog} {visible : List String}

private theorem not_repeats_aggregate_iff {a : Aggregate} {group : List String}
    (hgroup : flatNames catalog.tables a.group = .ok group) :
    ¬(aggregate a).Repeats catalog visible ↔ (group ++ [a.label]).Nodup := by
  have hrepeats : (aggregate a).Repeats catalog visible ↔ ¬group.Nodup ∨ a.label ∈ group := by
    simp [Repeats, hgroup]
  rw [hrepeats, not_or, Classical.not_not, List.nodup_append]
  constructor
  · rintro ⟨hnodup, hlabel⟩
    refine ⟨hnodup, by simp, fun name hname other hother h => hlabel ?_⟩
    rwa [← List.mem_singleton.1 hother, ← h]
  · rintro ⟨hnodup, -, hne⟩
    exact ⟨hnodup, fun h => hne _ h _ (List.mem_singleton_self _) rfl⟩

private theorem nodup_relate_iff {a : RelationAlias} {columns : List Column}
    (hcolumns : catalog.columns? a.table = some columns) (happart : catalog.TellsColumnsApart) :
    (visible ++ columns.map fun c => (Qualifier.joined a.label).flat c.name).Nodup ↔
      ¬(relate a).Repeats catalog visible ∧ visible.Nodup := by
  have hrepeats : (relate a).Repeats catalog visible ↔
      ∃ c ∈ columns, (Qualifier.joined a.label).flat c.name ∈ visible := by
    simp [Repeats, hcolumns]
  rw [hrepeats, List.nodup_append]
  constructor
  · rintro ⟨hvisible, -, hne⟩
    refine ⟨?_, hvisible⟩
    rintro ⟨c, hc, hmem⟩
    exact hne _ hmem _ (List.mem_map_of_mem hc) rfl
  · rintro ⟨hnew, hvisible⟩
    refine ⟨hvisible, Qualifier.nodup_flat _ (happart _ _ hcolumns), fun name hname other hother h => ?_⟩
    obtain ⟨c, hc, rfl⟩ := List.mem_map.1 hother
    exact hnew ⟨c, hc, h ▸ hname⟩

end Step

/-- A step without an issue is accepted by the review in front of it. -/
private theorem Pipeline.exists_raised_eq_nil {p : Pipeline} {catalog : Catalog} (hissues : p.issues catalog = [])
    {root : Table} {columns : List Column} (hroot : catalog.table p.root = .ok root)
    (hcolumns : catalog.tableColumns root.id = .ok columns) {s : Step} (hs : s ∈ p.steps) :
    ∃ r : Review, r.raised catalog root s = [] := by
  obtain ⟨k, hk⟩ := List.mem_iff_getElem?.1 hs
  have hreview := take_review hroot hcolumns k
  have hwhole := take_review hroot hcolumns p.steps.length
  rw [show p.take p.steps.length = p by simp [take]] at hwhole
  refine ⟨_, (issuesAt_eq_raised hk hroot hreview).symm.trans (List.eq_nil_iff_forall_not_mem.2 fun i hi => ?_)⟩
  have : i ∈ p.issues catalog := (mem_issues_iff hwhole).2 ⟨k, hi⟩
  rw [hissues] at this
  exact List.not_mem_nil this

/-- A selection without an issue has different names. -/
private theorem Review.nodup_of_raised_select {catalog : Catalog} {root : Table} {r : Review} {columns : List ColumnRef}
    {names : List String} (h : r.raised catalog root (.select columns) = [])
    (hnames : flatNames catalog.tables columns = .ok names) : names.Nodup := by
  have hraised : r.raised catalog root (.select columns) =
      faults (columns.map (ColumnRef.flatName catalog.tables)) ++
        (repeats [] (successes (columns.map (ColumnRef.flatName catalog.tables)))).map .selectedTwice :=
    raised_eq rfl
  rw [hraised, successes_of_flatNames hnames, List.append_eq_nil_iff, List.map_eq_nil_iff, repeats_eq_nil_iff] at h
  exact h.2.1

/-! ### Runs -/

/-- What holds of each member of a list with what stands before and behind it, when the list grows at its end. -/
theorem forall_split_snoc {α : Type} {l : List α} {a : α} {P : List α → α → List α → Prop} :
    (∀ before b after, l ++ [a] = before ++ b :: after → P before b after) ↔
      P l a [] ∧ ∀ before b after, l = before ++ b :: after → P before b (after ++ [a]) := by
  constructor
  · intro h
    refine ⟨h l a [] rfl, fun before b after hl => h before b (after ++ [a]) ?_⟩
    rw [hl, List.append_assoc, List.cons_append]
  · rintro ⟨hlast, hinner⟩ before b after hl
    rcases List.eq_nil_or_concat after with rfl | ⟨after, a', rfl⟩
    · obtain ⟨rfl, h⟩ := List.append_inj' hl rfl
      obtain rfl : a = b := by simpa using h
      exact hlast
    · rw [List.concat_eq_append, ← List.cons_append, ← List.append_assoc] at hl
      obtain ⟨rfl, h⟩ := List.append_inj' hl rfl
      obtain rfl : a = a' := by simpa using h
      rw [List.concat_eq_append]
      exact hinner before b after rfl

namespace Progress

variable {catalog : Catalog} {root : Table} {columns : List Column} {steps : List Step} {q : Progress}

/-- Behind steps that went through, one more step repeats a visible name. -/
def Run.Repeats (catalog : Catalog) (initial : Progress) (root : Table) (before : List Step) (s : Step) : Prop :=
  ∃ q visible, Run catalog root initial before q ∧ flatNames catalog.tables q.visible = .ok visible ∧
    s.Repeats catalog visible

private theorem Run.unique {initial q' : Progress} (run : Run catalog root initial steps q)
    (run' : Run catalog root initial steps q') : q = q' := by
  rw [← foldlM_step_eq_ok_iff] at run run'
  exact Except.ok.inj (run.symm.trans run')

private theorem Run.repeats_iff {initial : Progress} (run : Run catalog root initial steps q) {visible : List String}
    (hvisible : flatNames catalog.tables q.visible = .ok visible) {s : Step} :
    Run.Repeats catalog initial root steps s ↔ s.Repeats catalog visible := by
  constructor
  · rintro ⟨q', visible', run', hvisible', h⟩
    obtain rfl := run.unique run'
    obtain rfl := Except.ok.inj (hvisible.symm.trans hvisible')
    exact h
  · exact fun h => ⟨q, visible, run, hvisible, h⟩

/-- Behind a step the names are different exactly if it repeats none and either they were different in front of it or it
starts afresh. -/
private theorem Next.nodup_iff {p : Progress} {s : Step} (next : p.Next catalog root s q)
    (happart : catalog.TellsColumnsApart)
    (hselect : ∀ refs names, s = .select refs → flatNames catalog.tables refs = .ok names → names.Nodup)
    {visible names : List String} (hvisible : flatNames catalog.tables p.visible = .ok visible)
    (hnames : flatNames catalog.tables q.visible = .ok names) :
    names.Nodup ↔ ¬s.Repeats catalog visible ∧ (visible.Nodup ∨ s.StartsAfresh) := by
  cases next with
  | display | filter | order | take =>
    obtain rfl : visible = names := Except.ok.inj (hvisible.symm.trans hnames)
    simp [Step.Repeats, Step.StartsAfresh]
  | @select refs selected nonempty names_eq =>
    obtain rfl : selected = names := Except.ok.inj (names_eq.symm.trans hnames)
    exact iff_of_true (hselect refs selected rfl names_eq) ⟨id, Or.inr trivial⟩
  | @aggregate a group column group_eq column_eq =>
    have hresult : flatNames catalog.tables [.ofAggregate a.label] = .ok [a.label] := flatNames_eq_ok_iff.2 rfl
    have hall : flatNames catalog.tables (a.group ++ [.ofAggregate a.label]) = .ok (group ++ [a.label]) :=
      flatNames_append group_eq hresult
    obtain rfl : group ++ [a.label] = names := Except.ok.inj (hall.symm.trans hnames)
    rw [← Step.not_repeats_aggregate_iff group_eq]
    exact ⟨fun h => ⟨h, Or.inr trivial⟩, And.left⟩
  | @relate a base relation target new transforms base_eq found joins =>
    have hnew : flatNames catalog.tables (new.map fun c => (ColumnRef.ofTable target.id c.name).under a) =
        .ok (new.map fun c => (Qualifier.joined a.label).flat c.name) := flatNames_under _ _ _
    have hall := flatNames_append hvisible hnew
    obtain rfl := Except.ok.inj (hall.symm.trans hnames)
    have hknown : catalog.columns? a.table = some new := by
      rw [← Catalog.id_of_table_eq_ok found.target_eq]
      exact (Catalog.tableColumns_eq_ok_iff.1 found.columns_eq).1
    rw [Step.nodup_relate_iff hknown happart]
    exact and_congr_right fun _ => (or_iff_left id).symm

/-- The names of the visible columns are different exactly if no repeated name is left over from an earlier step. -/
private theorem Run.nodup_iff (run : Run catalog root (start root columns) steps q)
    (hroot : catalog.table root.id = .ok root) (hcolumns : catalog.tableColumns root.id = .ok columns)
    (happart : catalog.TellsColumnsApart)
    (hselect : ∀ refs names, .select refs ∈ steps → flatNames catalog.tables refs = .ok names → names.Nodup)
    {names : List String} (hnames : flatNames catalog.tables q.visible = .ok names) :
    names.Nodup ↔ ∀ before s after, steps = before ++ s :: after →
      Run.Repeats catalog (start root columns) root before s → ∃ s' ∈ after, s'.StartsAfresh := by
  induction run generalizing names with
  | nil =>
    have hstart : flatNames catalog.tables (start root columns).visible =
        .ok (columns.map fun c => root.qualifier.flat c.name) :=
      flatNames_ofTable (Catalog.table_eq_ok_iff.1 hroot) columns
    obtain rfl := Except.ok.inj (hnames.symm.trans hstart)
    refine iff_of_true (Qualifier.nodup_flat _ (happart _ _ (Catalog.tableColumns_eq_ok_iff.1 hcolumns).1)) ?_
    intro before s after h
    simp at h
  | @snoc steps p q s run next ih =>
    obtain ⟨visible, hvisible⟩ := exists_flatNames_iff.2 (run.resolvable hroot)
    have hstep := next.nodup_iff happart (fun refs names hs => hselect refs names (by simp [hs])) hvisible hnames
    have ih := ih (fun refs names hmem => hselect refs names (List.mem_append_left _ hmem)) hvisible
    rw [hstep, ih, forall_split_snoc, run.repeats_iff hvisible]
    have hlast : (∃ s' ∈ ([] : List Step), s'.StartsAfresh) ↔ False := by simp
    have hbehind : ∀ after : List Step, (∃ s' ∈ after ++ [s], s'.StartsAfresh) ↔
        (∃ s' ∈ after, s'.StartsAfresh) ∨ s.StartsAfresh := by
      intro after
      simp only [List.mem_append, List.mem_singleton, or_and_right, exists_or, exists_eq_left]
    simp only [hlast, hbehind]
    -- the step starts afresh, or what is repeated in front of it stays so
    by_cases hafresh : s.StartsAfresh
    · simp [hafresh]
    · simp [hafresh]

end Progress

/-! ### Pipelines -/

namespace Pipeline

variable {p : Pipeline} {catalog : Catalog}

/-- Behind the steps of the pipeline, one more step makes a flat name that is visible already. -/
def RepeatsWith (p : Pipeline) (catalog : Catalog) (s : Step) : Prop :=
  ∃ visible, p.Selects catalog visible ∧ s.Repeats catalog visible

theorem selects_iff {names : List String} :
    p.Selects catalog names ↔ ∃ q, p.progress catalog = .ok q ∧ flatNames catalog.tables q.visible = .ok names := by
  simp only [Selects, script_eq_ok_iff, Script.mk.injEq, Flow.mk.injEq, List.cons.injEq, Transform.select.injEq,
    and_true]
  constructor
  · rintro ⟨_, _, q, names, hq, hnames, -, -, rfl⟩
    exact ⟨q, hq, hnames⟩
  · rintro ⟨q, hq, hnames⟩
    exact ⟨_, _, q, names, hq, hnames, rfl, rfl, rfl⟩

/-- The flat names that the script of an accepted pipeline selects are different from each other exactly if behind each
step that repeats a visible name another step starts afresh. -/
theorem nodup_selects_iff {names : List String} (happart : catalog.TellsColumnsApart)
    (hissues : p.issues catalog = []) (h : p.Selects catalog names) :
    names.Nodup ↔ ∀ before s after, p.steps = before ++ s :: after →
      (⟨p.root, before⟩ : Pipeline).RepeatsWith catalog s → ∃ s' ∈ after, s'.StartsAfresh := by
  obtain ⟨q, hq, hnames⟩ := selects_iff.1 h
  obtain ⟨root, columns, hroot, hcolumns, run⟩ := progress_eq_ok_iff.1 hq
  have hroot' : catalog.table root.id = .ok root := by rwa [Catalog.id_of_table_eq_ok hroot]
  have hselect : ∀ refs names, .select refs ∈ p.steps → flatNames catalog.tables refs = .ok names → names.Nodup := by
    intro refs names hmem hrefs
    obtain ⟨r, hr⟩ := exists_raised_eq_nil hissues hroot hcolumns hmem
    exact Review.nodup_of_raised_select hr hrefs
  rw [run.nodup_iff hroot' hcolumns happart hselect hnames]
  have hrepeats : ∀ before s, Progress.Run.Repeats catalog (.start root columns) root before s ↔
      (⟨p.root, before⟩ : Pipeline).RepeatsWith catalog s := by
    intro before s
    constructor
    · rintro ⟨q, visible, run, hvisible, h⟩
      exact ⟨visible, selects_iff.2 ⟨q, progress_eq_ok_iff.2 ⟨root, columns, hroot, hcolumns, run⟩, hvisible⟩, h⟩
    · rintro ⟨visible, hselects, h⟩
      obtain ⟨q, hq, hvisible⟩ := selects_iff.1 hselects
      obtain ⟨root', columns', hroot', hcolumns', run⟩ := progress_eq_ok_iff.1 hq
      obtain rfl := Except.ok.inj (hroot.symm.trans hroot')
      obtain rfl := Except.ok.inj (hcolumns.symm.trans hcolumns')
      exact ⟨q, visible, run, hvisible, h⟩
  simp only [hrepeats]

/-- A school tells the columns of its tables apart. -/
private theorem school_tellsColumnsApart : school.TellsColumnsApart := by
  intro id columns h
  obtain ⟨before, after, hentries, -⟩ := List.lookup_eq_some_iff.1 h
  have hall : ∀ entry ∈ school.columns, (entry.2.map Column.name).Nodup := by decide
  exact hall (id, columns) (hentries ▸ List.mem_append_right _ List.mem_cons_self)

/-- The courses that teachers teach are joined twice under one label, and a selection makes up for it. -/
theorem nodup_selects_cleared :
    let p : Pipeline := ⟨⟨"t"⟩, [.relate school.taught, .relate school.taught, .select [.ofTable ⟨"t"⟩ "id"]]⟩
    school.TellsColumnsApart ∧ p.issues school = [] ∧ p.Selects school ["teachers__id"] ∧ ["teachers__id"].Nodup := by
  intro p
  have hissues : p.issues school = [] := rfl
  have hselects : p.Selects school ["teachers__id"] := ⟨_, _, rfl⟩
  refine ⟨school_tellsColumnsApart, hissues, hselects,
    (nodup_selects_iff school_tellsColumnsApart hissues hselects).2 ?_⟩
  refine forall_split_snoc (l := [Step.relate school.taught, .relate school.taught]).2 ⟨?_, fun _ _ _ _ _ => ?_⟩
  · rintro ⟨_, _, h⟩
    exact h.elim
  · exact ⟨_, List.mem_append_right _ List.mem_cons_self, trivial⟩

/-- The courses that teachers teach are joined twice under one label: the review accepts it, but the names of their
columns are selected twice. -/
theorem not_nodup_selects_taught :
    let p : Pipeline := ⟨⟨"t"⟩, [.relate school.taught, .relate school.taught]⟩
    school.TellsColumnsApart ∧ p.issues school = [] ∧ ∃ names, p.Selects school names ∧ ¬names.Nodup :=
  ⟨school_tellsColumnsApart, rfl,
    ["teachers__id", "course__id", "course__teacher_id", "course__id", "course__teacher_id"], ⟨_, _, rfl⟩, by decide⟩

-- a label that is the name of the root table
example : let p : Pipeline := ⟨⟨"t"⟩, [.relate (.fromRoot "teachers" ⟨"teaches"⟩ ⟨"c"⟩ false)]⟩
    p.issues school = [] ∧ p.Selects school ["teachers__id", "teachers__id", "teachers__teacher_id"] :=
  ⟨rfl, _, _, rfl⟩

-- a group that holds a column twice
example : let id := ColumnRef.ofTable ⟨"c"⟩ "id"
    let p : Pipeline := ⟨⟨"c"⟩, [.aggregate ⟨[id, id], .count, .ofTable ⟨"c"⟩ "teacher_id", "n"⟩]⟩
    p.issues school = [] ∧ p.Selects school ["courses__id", "courses__id", "n"] := ⟨rfl, _, _, rfl⟩

end Pipeline

end TableFlow
