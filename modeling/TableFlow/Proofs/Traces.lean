import TableFlow.Proofs.Issues

/-!
# Pipelines cut short

Those who write a pipeline look at it step by step, each time cut to its first steps.  Every cut is compiled and
reviewed by itself, with a main flow of its own, but what it shows stays true of the longer ones
(`Pipeline.script_and_issues_take`): its declarations come first among theirs, a fault that stops it stops them as well,
and its issues come first among theirs.
-/

namespace TableFlow

namespace Progress

variable {catalog : Catalog} {root : Table} {p q : Progress} {steps : List Step}

/-- A step leaves the declarations in front of it as they are. -/
theorem Next.declarations_prefix {s : Step} (next : p.Next catalog root s q) : p.declarations <+: q.declarations := by
  cases next with
  | display => exact List.prefix_refl _
  | select | filter | order | take | aggregate | relate => exact List.prefix_append _ _

theorem Run.declarations_prefix (run : Run catalog root p steps q) : p.declarations <+: q.declarations := by
  induction run with
  | nil => exact List.prefix_refl _
  | snoc run next ih => exact ih.trans next.declarations_prefix

end Progress

namespace Pipeline

variable {p : Pipeline} {catalog : Catalog} {n m : Nat}

private theorem take_take_of_le (h : n ≤ m) : (p.take m).take n = p.take n := by
  have hsteps : (p.steps.take m).take n = p.steps.take n := by rw [List.take_take, Nat.min_eq_left h]
  simp [take, hsteps]

/-- The first steps of a pipeline go through if all of them do. -/
theorem exists_progress_take {q : Progress} (h : p.progress catalog = .ok q) (n : Nat) :
    ∃ q', (p.take n).progress catalog = .ok q' ∧ q'.declarations <+: q.declarations := by
  obtain ⟨root, columns, hroot, hcolumns, run⟩ := progress_eq_ok_iff.1 h
  rw [← List.take_append_drop n p.steps] at run
  obtain ⟨q', before, after⟩ := Progress.run_append_iff.1 run
  have hq' : (p.take n).progress catalog = .ok q' :=
    progress_eq_ok_iff.2 ⟨root, columns, hroot, hcolumns, before⟩
  exact ⟨q', hq', after.declarations_prefix⟩

/-- The step with a number, between what it finds and what it leaves. -/
theorem exists_next_of_getElem? {k : Nat} {q : Progress} (hq : p.progress catalog = .ok q) {s : Step}
    (hs : p.steps[k]? = some s) :
    ∃ root before after, catalog.table p.root = .ok root ∧ (p.take k).progress catalog = .ok before ∧
      before.Next catalog root s after ∧ after.declarations <+: q.declarations := by
  obtain ⟨root, columns, hroot, hcolumns, run⟩ := progress_eq_ok_iff.1 hq
  obtain ⟨hk, rfl⟩ := List.getElem?_eq_some_iff.1 hs
  rw [← List.take_append_drop k p.steps, List.drop_eq_getElem_cons hk] at run
  obtain ⟨before, runBefore, runRest⟩ := Progress.run_append_iff.1 run
  obtain ⟨after, next, runAfter⟩ := Progress.run_cons_iff.1 runRest
  exact ⟨root, before, after, hroot, progress_eq_ok_iff.2 ⟨root, columns, hroot, hcolumns, runBefore⟩, next,
    Progress.Run.declarations_prefix runAfter⟩

private theorem exists_script_take {t : Script} (h : p.script catalog = .ok t) (n : Nat) :
    ∃ s, (p.take n).script catalog = .ok s ∧ s.declarations <+: t.declarations := by
  obtain ⟨q, names, hq, -, rfl⟩ := script_eq_ok_iff.1 h
  obtain ⟨q', hq', hdeclarations⟩ := exists_progress_take hq n
  -- the cut pipeline has a main flow of its own, which never fails
  obtain ⟨root, columns, hroot, -, run⟩ := progress_eq_ok_iff.1 hq'
  obtain ⟨names', hnames', -⟩ := run.exists_finish hroot
  exact ⟨_, script_eq_ok_iff.2 ⟨q', names', hq', hnames', rfl⟩, hdeclarations⟩

/-- What stops the first steps of a pipeline stops the whole of it. -/
private theorem script_eq_error_of_take {e : Cause} (h : (p.take n).script catalog = .error e) :
    p.script catalog = .error e := by
  rw [script_eq_error_iff] at h ⊢
  simp only [progress, take, bind_eq_error_iff] at h ⊢
  rcases h with h | ⟨root, hroot, h | ⟨columns, hcolumns, h⟩⟩
  · exact Or.inl h
  · exact Or.inr ⟨root, hroot, Or.inl h⟩
  · have hsteps : (p.steps.take n ++ p.steps.drop n).foldlM (Progress.step catalog root) (.start root columns) =
        .error e := by
      rw [List.foldlM_append]
      exact bind_eq_error_iff.2 (Or.inl h)
    rw [List.take_append_drop] at hsteps
    exact Or.inr ⟨root, hroot, Or.inr ⟨columns, hcolumns, hsteps⟩⟩

private theorem issues_take_prefix (h : n ≤ m) : (p.take n).issues catalog <+: (p.take m).issues catalog := by
  induction h with
  | refl => exact List.prefix_refl _
  | @step m h ih =>
    have hnext : (p.take m).issues catalog <+: (p.take (m + 1)).issues catalog := by
      rw [issues_take_succ]
      exact List.prefix_append _ _
    exact ih.trans hnext

theorem issues_take_prefix_issues (n : Nat) : (p.take n).issues catalog <+: p.issues catalog := by
  have hall : ∀ m, p.steps.length ≤ m → p.take m = p := fun m hm => by simp [take, List.take_of_length_le hm]
  rcases Nat.le_total n p.steps.length with h | h
  · have hprefix : (p.take n).issues catalog <+: (p.take p.steps.length).issues catalog := issues_take_prefix h
    rwa [hall _ (Nat.le_refl _)] at hprefix
  · simp [hall n h]

theorem issuesAt_eq_nil (h : p.issues catalog = []) (k : Nat) : p.issuesAt catalog k = [] := by
  have hprefix : (p.take (k + 1)).issues catalog <+: p.issues catalog := issues_take_prefix_issues (k + 1)
  rw [h, List.prefix_nil, issues_take_succ, List.append_eq_nil_iff] at hprefix
  exact hprefix.2

/-- Of two cuts of a pipeline, the longer one has a script only if the shorter one has, with the declarations of the
shorter one in front; it fails with the same cause if the shorter one fails; and the issues of the shorter one come
first among its own. -/
theorem script_and_issues_take (p : Pipeline) (catalog : Catalog) (h : n ≤ m) :
    (∀ t, (p.take m).script catalog = .ok t →
      ∃ s, (p.take n).script catalog = .ok s ∧ s.declarations <+: t.declarations) ∧
    (∀ e, (p.take n).script catalog = .error e → (p.take m).script catalog = .error e) ∧
    (p.take n).issues catalog <+: (p.take m).issues catalog := by
  refine ⟨?_, ?_, issues_take_prefix h⟩
  · intro t ht
    rw [← take_take_of_le h]
    exact exists_script_take ht n
  · intro e he
    rw [← take_take_of_le h] at he
    exact script_eq_error_of_take he

/-- A second root table stops the steps behind it, whatever else is wrong with them, and is the first issue. -/
theorem script_and_issues_take_taught :
    let p : Pipeline := ⟨⟨"t"⟩, [.relate school.taught, .root ⟨"s"⟩, .relate school.tutor]⟩
    (∃ s t, (p.take 0).script school = .ok s ∧ (p.take 1).script school = .ok t ∧
      s.declarations <+: t.declarations) ∧
    (p.take 3).script school = .error (.secondRoot ⟨"s"⟩) ∧ [.secondRoot ⟨"s"⟩] <+: (p.take 3).issues school := by
  intro p
  have hshort := script_and_issues_take p school (show 0 ≤ 1 by decide)
  have hlong := script_and_issues_take p school (show 2 ≤ 3 by decide)
  obtain ⟨t, ht⟩ : ∃ t, (p.take 1).script school = .ok t := ⟨_, rfl⟩
  obtain ⟨s, hs, hdeclarations⟩ := hshort.1 t ht
  exact ⟨⟨s, t, hs, ht, hdeclarations⟩, hlong.2.1 _ rfl, hlong.2.2⟩

end Pipeline

end TableFlow
