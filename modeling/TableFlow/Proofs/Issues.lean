import TableFlow.Review
import TableFlow.Proofs.Construction

/-!
# Issues step by step

A review only ever adds issues (`Review.issues_step`), so that every issue belongs to one step: `Pipeline.issuesAt`
are those of the step with a number, and the issues of a pipeline are those of its steps, one after another
(`Pipeline.mem_issues_iff`).  What a step adds depends on the review before it (`Pipeline.issuesAt_eq_raised`).
-/

namespace TableFlow

/-! ### One step -/

namespace Review

variable {catalog : Catalog} {root : Table} {r : Review}

/-- The issues that a step adds to a review. -/
def raised (catalog : Catalog) (root : Table) (r : Review) (s : Step) : List Cause :=
  (r.step catalog root s).issues.drop r.issues.length

private theorem exists_issues_step (s : Step) : ∃ causes, (r.step catalog root s).issues = r.issues ++ causes := by
  cases s with
  | root id => exact ⟨_, rfl⟩
  | select columns => exact ⟨_, rfl⟩
  | filter f => exact ⟨_, rfl⟩
  | order o => exact ⟨_, rfl⟩
  | aggregate a => exact ⟨_, rfl⟩
  | relate a =>
    simp only [step, relate]
    split
    · exact ⟨[], (List.append_nil _).symm⟩
    · exact ⟨_, rfl⟩
  | take t => exact ⟨[], (List.append_nil _).symm⟩
  | display => exact ⟨[], (List.append_nil _).symm⟩

theorem issues_step (s : Step) : (r.step catalog root s).issues = r.issues ++ r.raised catalog root s := by
  obtain ⟨causes, h⟩ : ∃ causes, (r.step catalog root s).issues = r.issues ++ causes := exists_issues_step s
  rw [raised, h, List.drop_left]

theorem raised_eq {s : Step} {causes : List Cause} (h : (r.step catalog root s).issues = r.issues ++ causes) :
    r.raised catalog root s = causes := by
  rw [raised, h, List.drop_left]

/-- A relate step raises the one fault that is in its way. -/
theorem raised_relate (a : RelationAlias) :
    r.raised catalog root (.relate a) = match r.base root a >>= connected catalog a with
      | .ok _ => []
      | .error cause => [cause] := by
  apply raised_eq
  cases h : r.base root a >>= connected catalog a with
  | ok columns => simp [step, relate, h]
  | error cause => simp [step, relate, h, report]

theorem mem_faults_iff {α : Type} {results : List (Except Cause α)} {cause : Cause} :
    cause ∈ faults results ↔ .error cause ∈ results := by
  unfold faults
  rw [List.mem_filterMap]
  constructor
  · rintro ⟨result, hresult, h⟩
    cases result with
    | ok a => cases h
    | error c =>
      cases h
      exact hresult
  · exact fun h => ⟨_, h, rfl⟩

/-- A step adds an alias to a review if it is a relate step that raises nothing. -/
private theorem mem_aliases_step_iff {s : Step} {a : RelationAlias} :
    a ∈ (r.step catalog root s).aliases ↔ a ∈ r.aliases ∨ s = .relate a ∧ r.raised catalog root s = [] := by
  cases s with
  | root | select | filter | order | aggregate | take | display =>
    simp [step, report, Review.select, Review.aggregate]
  | relate a' =>
    rw [raised_relate]
    cases h : r.base root a' >>= connected catalog a' with
    | ok columns => simp [step, relate, h, eq_comm]
    | error cause => simp [step, relate, h, report]

end Review

/-! ### Pipelines -/

namespace Pipeline

/-- The review of a pipeline behind its last step. -/
def review (p : Pipeline) (catalog : Catalog) : Except Cause Review := do
  let root ← catalog.table p.root
  let columns ← catalog.tableColumns root.id
  .ok (p.steps.foldl (Review.step catalog root) (.start root columns))

/-- The issues of the step with a number: those of the pipeline up to that step that the pipeline before it does not
have. -/
def issuesAt (p : Pipeline) (catalog : Catalog) (k : Nat) : List Cause :=
  ((p.take (k + 1)).issues catalog).drop ((p.take k).issues catalog).length

variable {p : Pipeline} {catalog : Catalog}

theorem issues_of_review_eq_ok {r : Review} (h : p.review catalog = .ok r) : p.issues catalog = r.issues := by
  simp only [review, bind_eq_ok_iff, Except.ok.injEq] at h
  obtain ⟨root, hroot, columns, hcolumns, rfl⟩ := h
  simp [issues, hroot, hcolumns, bind, Except.bind]

theorem issues_of_review_eq_error {e : Cause} (h : p.review catalog = .error e) : p.issues catalog = [e] := by
  simp only [review, bind_eq_error_iff, reduceCtorEq, and_false, exists_false, or_false] at h
  rcases h with h | ⟨root, hroot, h⟩
  · simp [issues, h, bind, Except.bind]
  · simp [issues, hroot, h, bind, Except.bind]

/-- A review under way needs a root table with columns. -/
private theorem exists_root_of_review {r : Review} (h : p.review catalog = .ok r) :
    ∃ root columns, catalog.table p.root = .ok root ∧ catalog.tableColumns root.id = .ok columns := by
  simp only [review, bind_eq_ok_iff] at h
  obtain ⟨root, hroot, columns, hcolumns, -⟩ := h
  exact ⟨root, columns, hroot, hcolumns⟩

theorem take_review {root : Table} {columns : List Column} (hroot : catalog.table p.root = .ok root)
    (hcolumns : catalog.tableColumns root.id = .ok columns) (k : Nat) :
    (p.take k).review catalog = .ok ((p.steps.take k).foldl (Review.step catalog root) (.start root columns)) := by
  simp only [review, take, hroot, hcolumns, bind, Except.bind]

/-- One more step turns the review of a pipeline into the next one. -/
private theorem review_take_succ {k : Nat} {s : Step} (hs : p.steps[k]? = some s) {root : Table}
    (hroot : catalog.table p.root = .ok root) {r : Review} (h : (p.take k).review catalog = .ok r) :
    (p.take (k + 1)).review catalog = .ok (r.step catalog root s) := by
  obtain ⟨_, columns, hroot', hcolumns⟩ := exists_root_of_review h
  obtain rfl := Except.ok.inj (hroot'.symm.trans hroot)
  rw [take_review hroot hcolumns, Except.ok.injEq] at h
  rw [take_review hroot hcolumns, ← h, List.take_add_one, hs, Option.toList_some, List.foldl_append]
  rfl

theorem issuesAt_eq_raised {k : Nat} {s : Step} (hs : p.steps[k]? = some s) {root : Table}
    (hroot : catalog.table p.root = .ok root) {r : Review} (h : (p.take k).review catalog = .ok r) :
    p.issuesAt catalog k = r.raised catalog root s := by
  rw [issuesAt, issues_of_review_eq_ok (review_take_succ hs hroot h), issues_of_review_eq_ok h, Review.raised]

private theorem take_succ_of_none {k : Nat} (h : p.steps[k]? = none) : p.take (k + 1) = p.take k := by
  simp [take, List.take_add_one, h]

/-- The issues up to a step are those before it and its own. -/
theorem issues_take_succ (k : Nat) :
    (p.take (k + 1)).issues catalog = (p.take k).issues catalog ++ p.issuesAt catalog k := by
  cases hs : p.steps[k]? with
  | none => simp [issuesAt, take_succ_of_none hs]
  | some s =>
    cases h : (p.take k).review catalog with
    | error e =>
      have h' : (p.take (k + 1)).review catalog = .error e := by
        simpa [review, take, bind_eq_error_iff] using h
      simp [issuesAt, issues_of_review_eq_error h, issues_of_review_eq_error h']
    | ok r =>
      obtain ⟨root, hroot, -⟩ := bind_eq_ok_iff.1 h
      rw [issuesAt_eq_raised hs hroot h, issues_of_review_eq_ok (review_take_succ hs hroot h),
        issues_of_review_eq_ok h, Review.issues_step]

/-- The aliases that a review knows are those of the relate steps without issues. -/
theorem mem_aliases_review_iff {k : Nat} {r : Review} (h : (p.take k).review catalog = .ok r) {a : RelationAlias} :
    a ∈ r.aliases ↔ ∃ j < k, p.steps[j]? = some (.relate a) ∧ p.issuesAt catalog j = [] := by
  obtain ⟨root, columns, hroot, hcolumns⟩ : ∃ root columns, catalog.table p.root = .ok root ∧
      catalog.tableColumns root.id = .ok columns := exists_root_of_review (p := p.take k) h
  rw [take_review hroot hcolumns, Except.ok.injEq] at h
  subst h
  induction k with
  | zero => simp [Review.start]
  | succ k ih =>
    cases hs : p.steps[k]? with
    | none =>
      -- behind the last step nothing is added any more
      rw [List.take_add_one, hs, Option.toList_none, List.append_nil, ih]
      constructor
      · rintro ⟨j, hj, h⟩
        exact ⟨j, by omega, h⟩
      · rintro ⟨j, hj, h⟩
        refine ⟨j, Nat.lt_of_le_of_ne (by omega) ?_, h⟩
        rintro rfl
        rw [hs] at h
        cases h.1
    | some s =>
      rw [List.take_add_one, hs, Option.toList_some, List.foldl_append, List.foldl_cons, List.foldl_nil,
        Review.mem_aliases_step_iff, ih, ← issuesAt_eq_raised hs hroot (take_review hroot hcolumns k)]
      constructor
      · rintro (⟨j, hj, h⟩ | ⟨rfl, h⟩)
        · exact ⟨j, by omega, h⟩
        · exact ⟨k, by omega, hs, h⟩
      · rintro ⟨j, hj, h⟩
        by_cases hjk : j = k
        · subst hjk
          rw [hs] at h
          exact Or.inr ⟨Option.some.inj h.1, h.2⟩
        · exact Or.inl ⟨j, by omega, h⟩

/-- Every issue of a pipeline whose root table is known belongs to one of its steps. -/
theorem mem_issues_iff {r : Review} (h : p.review catalog = .ok r) {i : Cause} :
    i ∈ p.issues catalog ↔ ∃ k, i ∈ p.issuesAt catalog k := by
  have htake : ∀ n, i ∈ (p.take n).issues catalog ↔ ∃ k < n, i ∈ p.issuesAt catalog k := by
    intro n
    induction n with
    | zero =>
      obtain ⟨root, columns, hroot, hcolumns⟩ := exists_root_of_review h
      simp [issues_of_review_eq_ok (take_review hroot hcolumns 0), Review.start]
    | succ n ih =>
      rw [issues_take_succ, List.mem_append, ih]
      constructor
      · rintro (⟨k, hk, hi⟩ | hi)
        · exact ⟨k, by omega, hi⟩
        · exact ⟨n, by omega, hi⟩
      · rintro ⟨k, hk, hi⟩
        by_cases hkn : k = n
        · exact Or.inr (hkn ▸ hi)
        · exact Or.inl ⟨k, by omega, hi⟩
  have hall : p.take p.steps.length = p := by simp [take]
  rw [← hall, htake, hall]
  constructor
  · rintro ⟨k, -, hi⟩
    exact ⟨k, hi⟩
  · rintro ⟨k, hi⟩
    refine ⟨k, Nat.lt_of_not_le fun hk => ?_, hi⟩
    rw [issuesAt, take_succ_of_none (List.getElem?_eq_none (by omega))] at hi
    simp at hi

end Pipeline

end TableFlow
