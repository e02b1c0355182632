import TableFlow.Proofs.Connection
import TableFlow.Proofs.Coverage
import TableFlow.Proofs.Naming
import TableFlow.Proofs.Traces

/-!
# Reviews beside scripts

A review keeps its own account of the visible columns, as flat names, and of the aliases.  Beside the steps of a
pipeline that has a script it stays in step with the script under construction (`Review.Tracks`), as long as it does not
find a relation unconnected: then it sees in the end what the main flow selects, and it calls the name of a last
aggregate taken exactly if the steps before it select that name (`Pipeline.visible_review_of_script`).
-/

namespace TableFlow

/-! ### One step -/

/-- The review sees the columns of the script under construction and knows its aliases. -/
structure Review.Tracks (catalog : Catalog) (r : Review) (q : Progress) : Prop where
  visible : flatNames catalog.tables q.visible = .ok r.visible
  aliases : r.aliases = q.aliases

namespace Review

variable {catalog : Catalog} {root : Table} {r : Review} {p q : Progress}

private theorem tracks_start (hroot : catalog.table root.id = .ok root) (columns : List Column) :
    (start root columns).Tracks catalog (.start root columns) :=
  ⟨flatNames_ofTable (Catalog.table_eq_ok_iff.1 hroot) columns, rfl⟩

/-- What a relation starts at is known to the review as well, although it may be another alias with the same label. -/
theorem Tracks.exists_base (h : r.Tracks catalog p) {a : RelationAlias} {base : JoinBase}
    (hbase : p.base root a = .ok base) : ∃ base', r.base root a = .ok base' := by
  cases hr : r.base root a with
  | ok base' => exact ⟨base', rfl⟩
  | error e =>
    obtain ⟨b, hb, hnone, -⟩ := base_eq_error_iff.1 hr
    obtain ⟨earlier, hearlier, hlabel⟩ := Progress.exists_base_iff.1 ⟨base, hbase⟩ b hb
    rw [← h.aliases] at hearlier
    exact absurd hlabel (hnone earlier hearlier)

/-- A step that goes through is followed by the review unless it finds the relation of the step unconnected. -/
private theorem Tracks.next {s : Step} (h : r.Tracks catalog p) (next : p.Next catalog root s q)
    (hconnected : ∀ relation base target, .unconnected relation base target ∉ r.raised catalog root s) :
    (r.step catalog root s).Tracks catalog q := by
  cases next with
  | display => exact h
  | filter | order | take => exact ⟨h.visible, h.aliases⟩
  | select nonempty names_eq =>
    refine ⟨?_, h.aliases⟩
    rw [names_eq]
    exact congrArg Except.ok (successes_of_flatNames names_eq).symm
  | @aggregate a group column group_eq column_eq =>
    have hresult : flatNames catalog.tables [.ofAggregate a.label] = .ok [a.label] := flatNames_eq_ok_iff.2 rfl
    have hvisible : (r.step catalog root (.aggregate a)).visible = group ++ [a.label] := by
      rw [← successes_of_flatNames group_eq]
      rfl
    refine ⟨?_, h.aliases⟩
    rw [hvisible]
    exact flatNames_append group_eq hresult
  | @relate a base relation target columns transforms base_eq found joins =>
    obtain ⟨base', hbase'⟩ : ∃ base', r.base root a = .ok base' := h.exists_base base_eq
    by_cases hside : (relation.towards target.id).table1 = base'.table
    · have hcolumns : (r.base root a >>= connected catalog a) = .ok columns := by
        rw [hbase']
        exact (connected_eq found).trans (if_pos hside)
      simp only [step, relate, hcolumns]
      exact ⟨flatNames_append h.visible (flatNames_under _ _ _), by rw [h.aliases]⟩
    · have hraised := raised_relate_of_found hbase' found
      rw [if_neg hside] at hraised
      refine absurd ?_ (hconnected relation.id base'.table target.id)
      rw [hraised]
      exact List.mem_singleton_self _

end Review

private theorem ColumnRef.exists_of_flatName_eq_error {tables : List Table} {c : ColumnRef} {e : Cause}
    (h : c.flatName tables = .error e) : ∃ id, e = .unknownTable id := by
  unfold flatName at h
  split at h
  · cases h
  · cases h
  · split at h <;> cases h
    exact ⟨_, rfl⟩

/-- The name of an aggregate is called taken exactly if the review sees it. -/
private theorem Review.aggregateNameTaken_mem_raised_iff {catalog : Catalog} {root : Table} {r : Review}
    {a : Aggregate} : .aggregateNameTaken a.label ∈ r.raised catalog root (.aggregate a) ↔ a.label ∈ r.visible := by
  rw [raised_eq rfl]
  simp only [List.mem_append, or_assoc]
  constructor
  · -- of the four kinds of issues of an aggregate only the second one is about its name
    rintro (hfault | htaken | hgrouped | htyping)
    · rw [mem_faults_iff, ← List.map_singleton, ← List.map_append] at hfault
      obtain ⟨c, -, hc⟩ := List.mem_map.1 hfault
      obtain ⟨id, hid⟩ := ColumnRef.exists_of_flatName_eq_error hc
      cases hid
    · split at htaken
      · assumption
      · cases htaken
    · split at hgrouped
      · split at hgrouped <;> simp at hgrouped
      · cases hgrouped
    · split at htyping
      · split at htyping <;> simp at htyping
      · cases htyping
  · intro hmem
    rw [if_pos hmem]
    exact Or.inr (Or.inl (List.mem_singleton_self _))

/-! ### Pipelines -/

/-- Behind steps that went through, the review is in step unless it found a relation unconnected. -/
private theorem Progress.Run.tracks {catalog : Catalog} {root : Table} {columns : List Column} {steps : List Step}
    {q : Progress} (run : Run catalog root (start root columns) steps q) (hroot : catalog.table root.id = .ok root)
    (hconnected : ∀ relation base target, .unconnected relation base target ∉
      (steps.foldl (Review.step catalog root) (.start root columns)).issues) :
    (steps.foldl (Review.step catalog root) (.start root columns)).Tracks catalog q := by
  induction run with
  | nil => exact Review.tracks_start hroot columns
  | snoc run next ih =>
    -- what the last step raises comes on top of what was found before
    simp only [List.foldl_append, List.foldl_cons, List.foldl_nil, Review.issues_step, List.mem_append, not_or]
      at hconnected ⊢
    have hbefore := ih fun relation base target => (hconnected relation base target).1
    exact hbefore.next next fun relation base target => (hconnected relation base target).2

namespace Pipeline

variable {p : Pipeline} {catalog : Catalog}

/-- The review of the pipeline finds no relation unconnected. -/
def IsConnected (p : Pipeline) (catalog : Catalog) : Prop :=
  ∀ relation base target, .unconnected relation base target ∉ p.issues catalog

theorem IsConnected.take (h : p.IsConnected catalog) (n : Nat) : (p.take n).IsConnected catalog :=
  fun relation base target hmem => h relation base target ((issues_take_prefix_issues n).subset hmem)

theorem exists_review_tracks {q : Progress} (hq : p.progress catalog = .ok q) (hconnected : p.IsConnected catalog) :
    ∃ r, p.review catalog = .ok r ∧ r.Tracks catalog q := by
  obtain ⟨root, columns, hroot, hcolumns, run⟩ := progress_eq_ok_iff.1 hq
  have hreview : p.review catalog = .ok (p.steps.foldl (Review.step catalog root) (.start root columns)) := by
    simp only [review, hroot, hcolumns, bind, Except.bind]
  have hissues := issues_of_review_eq_ok hreview
  have hroot' : catalog.table root.id = .ok root := by rwa [Catalog.id_of_table_eq_ok hroot]
  refine ⟨_, hreview, run.tracks hroot' ?_⟩
  rw [← hissues]
  exact hconnected

/-- If a pipeline has a script and its review finds no relation unconnected, then the review sees in the end what the
main flow selects; and of a last aggregate the review says that its name is taken exactly if the script without that
step selects the name. -/
theorem visible_review_of_script {s : Script} (h : p.script catalog = .ok s) (hconnected : p.IsConnected catalog) :
    (∃ r source, p.review catalog = .ok r ∧ s.main = ⟨source, [.select r.visible]⟩) ∧
    ∀ before a, p.steps = before ++ [.aggregate a] →
      ∃ names, (⟨p.root, before⟩ : Pipeline).Selects catalog names ∧
        (.aggregateNameTaken a.label ∈ p.issuesAt catalog before.length ↔ a.label ∈ names) := by
  obtain ⟨q, names, hq, hnames, rfl⟩ := script_eq_ok_iff.1 h
  constructor
  · obtain ⟨r, hr, htracks⟩ := exists_review_tracks hq hconnected
    obtain rfl := Except.ok.inj (hnames.symm.trans htracks.visible)
    exact ⟨r, _, hr, rfl⟩
  · intro before a hsteps
    have hcut : p.take before.length = ⟨p.root, before⟩ := by simp [Pipeline.take, hsteps]
    have hlast : p.steps[before.length]? = some (.aggregate a) := by simp [hsteps]
    obtain ⟨q', hq', -⟩ := exists_progress_take hq before.length
    obtain ⟨r, hr, htracks⟩ := exists_review_tracks hq' (hconnected.take before.length)
    obtain ⟨root, columns, hroot, -, -⟩ := progress_eq_ok_iff.1 hq
    refine ⟨r.visible, ?_, ?_⟩
    · rw [← hcut]
      exact selects_iff.2 ⟨q', hq', htracks.visible⟩
    · rw [issuesAt_eq_raised hlast hroot hr]
      exact Review.aggregateNameTaken_mem_raised_iff

/-- The name of an aggregate that a joined column has already. -/
theorem visible_review_of_attended :
    let count : Aggregate := ⟨[], .count, .ofTable ⟨"s"⟩ "id", "course__id"⟩
    let p : Pipeline := ⟨⟨"s"⟩, [.relate school.attended, .aggregate count]⟩
    (∃ s, p.script school.enrolled = .ok s) ∧ p.IsConnected school.enrolled ∧
      (∃ r, p.review school.enrolled = .ok r ∧ r.visible = ["course__id"]) ∧
      .aggregateNameTaken "course__id" ∈ p.issuesAt school.enrolled 1 := by
  intro count p
  obtain ⟨s, hs⟩ : ∃ s, p.script school.enrolled = .ok s := ⟨_, rfl⟩
  have hconnected : p.IsConnected school.enrolled := by
    have hissues : p.issues school.enrolled = [.aggregateNameTaken "course__id"] := rfl
    intro relation base target
    simp [hissues]
  obtain ⟨⟨r, source, hr, hmain⟩, haggregate⟩ := visible_review_of_script hs hconnected
  obtain ⟨names, ⟨declarations, source', hselects⟩, htaken⟩ := haggregate [.relate school.attended] count rfl
  refine ⟨⟨s, hs⟩, hconnected, ⟨r, hr, ?_⟩, htaken.2 ?_⟩
  · cases hs
    have htransforms := congrArg Flow.transforms hmain
    exact (Transform.select.inj (List.cons.inj htransforms).1).symm
  · cases hselects
    decide

-- courses that students teach are joined by the script, but the review does not let them in
example : let p : Pipeline := ⟨⟨"s"⟩, [.relate school.taught]⟩
    p.Selects school ["students__id", "course__id", "course__teacher_id"] ∧
      ∃ r, p.review school = .ok r ∧ r.visible = ["students__id"] := ⟨⟨_, _, rfl⟩, _, rfl, rfl⟩

end Pipeline

end TableFlow
