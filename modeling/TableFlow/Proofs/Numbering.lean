import TableFlow.Proofs.Traces

/-!
# Numbered declarations

Marks for display aside, each step of a pipeline makes one declaration, which reads from the declaration in front of it
(`Pipeline.Numbers`).  The marks themselves leave no trace: without them a pipeline has the same script or stops with
the same cause, and has the same issues.  And nothing ever reads from a declaration that is not there: a compiler that
looked before each step would find nothing to complain of (`Pipeline.guardedScript_eq`).
-/

namespace TableFlow

/-- The pipeline without its marks for display. -/
def Pipeline.withoutDisplays (p : Pipeline) : Pipeline :=
  { p with steps := p.steps.filter (· ≠ .display) }

/-! ### Marks for display -/

section Displays

variable {catalog : Catalog} {root : Table}

private theorem Progress.foldlM_step_filter (steps : List Step) (q : Progress) :
    (steps.filter (· ≠ .display)).foldlM (step catalog root) q = steps.foldlM (step catalog root) q := by
  induction steps generalizing q with
  | nil => rfl
  | cons s steps ih =>
    by_cases hs : s = .display
    · rw [hs, List.filter_cons_of_neg (by simp), ih]
      rfl
    · rw [List.filter_cons_of_pos (by simpa using hs), List.foldlM_cons, List.foldlM_cons]
      exact congrArg (q.step catalog root s >>= ·) (funext ih)

private theorem Review.foldl_step_filter (steps : List Step) (r : Review) :
    (steps.filter (· ≠ .display)).foldl (step catalog root) r = steps.foldl (step catalog root) r := by
  induction steps generalizing r with
  | nil => rfl
  | cons s steps ih =>
    by_cases hs : s = .display
    · rw [hs, List.filter_cons_of_neg (by simp), ih]
      rfl
    · rw [List.filter_cons_of_pos (by simpa using hs), List.foldl_cons, List.foldl_cons, ih]

end Displays

namespace Pipeline

variable (p : Pipeline) (catalog : Catalog)

private theorem script_withoutDisplays : p.withoutDisplays.script catalog = p.script catalog := by
  simp only [script, withoutDisplays, Progress.foldlM_step_filter]

private theorem issues_withoutDisplays : p.withoutDisplays.issues catalog = p.issues catalog := by
  simp only [issues, withoutDisplays, Review.foldl_step_filter]

end Pipeline

/-! ### Declarations -/

namespace Progress

variable {catalog : Catalog} {root : Table} {initial p q : Progress} {steps : List Step}

/-- A step that is no mark adds one declaration, with the next number, which reads from the last one. -/
private theorem Next.exists_declaration {s : Step} (next : p.Next catalog root s q) (hs : s ≠ .display) :
    ∃ transforms, q.declarations = p.declarations ++
      [⟨declarationName p.declarations.length, ⟨.declaration p.last, transforms⟩⟩] := by
  cases next with
  | display => exact absurd rfl hs
  | select | filter | order | take | aggregate | relate => exact ⟨_, rfl⟩

private theorem Run.length_declarations (run : Run catalog root initial steps q) (h : ∀ s ∈ steps, s ≠ .display) :
    q.declarations.length = initial.declarations.length + steps.length := by
  induction run with
  | nil => rfl
  | snoc run next ih =>
    rw [List.forall_mem_append, List.forall_mem_singleton] at h
    obtain ⟨transforms, hdeclarations⟩ := next.exists_declaration h.2
    rw [hdeclarations, List.length_append, List.length_append, ih h.1]
    rfl

end Progress

namespace Pipeline

/-- The declaration is what the step with a number adds to the script of the steps in front of it. -/
def Makes (p : Pipeline) (catalog : Catalog) (k : Nat) (d : Declaration) : Prop :=
  ∃ root q q' s, catalog.table p.root = .ok root ∧ (p.take k).progress catalog = .ok q ∧ p.steps[k]? = some s ∧
    q.step catalog root s = .ok q' ∧ q'.declarations = q.declarations ++ [d]

/-- The declarations of a script are numbered as the steps of a pipeline are. -/
structure Numbers (p : Pipeline) (catalog : Catalog) (s : Script) : Prop where
  length : s.declarations.length = p.steps.length + 1
  name : ∀ (k : Nat) (d : Declaration), s.declarations[k]? = some d → d.name = "step_" ++ toString k
  /-- Behind the root table each declaration reads from the one in front of it. -/
  source : ∀ (k : Nat) (d : Declaration), s.declarations[k + 1]? = some d →
    d.flow.source = .declaration ("step_" ++ toString k)
  made : ∀ k d, s.declarations[k + 1]? = some d → p.Makes catalog k d
  /-- The main flow reads from the last declaration. -/
  main : ∃ d, s.declarations.getLast? = some d ∧ s.main.source = .declaration d.name

variable {p : Pipeline} {catalog : Catalog}

/-- The step with a number makes the declaration with the next one. -/
private theorem exists_makes {q : Progress} (hq : p.progress catalog = .ok q) (h : ∀ s ∈ p.steps, s ≠ .display)
    {k : Nat} (hk : k < p.steps.length) :
    ∃ transforms, q.declarations[k + 1]? =
        some ⟨declarationName (k + 1), ⟨.declaration (declarationName k), transforms⟩⟩ ∧
      p.Makes catalog k ⟨declarationName (k + 1), ⟨.declaration (declarationName k), transforms⟩⟩ := by
  obtain ⟨root, before, after, hroot, hbefore, next, rest, hrest⟩ :=
    exists_next_of_getElem? hq (List.getElem?_eq_getElem hk)
  obtain ⟨_, _, -, -, run⟩ := progress_eq_ok_iff.1 hbefore
  have hlength : before.declarations.length = k + 1 := by
    rw [run.length_declarations fun s hs => h s (List.mem_of_mem_take hs), take, List.length_take,
      Nat.min_eq_left (Nat.le_of_lt hk)]
    exact Nat.add_comm 1 k
  obtain ⟨transforms, hafter⟩ := next.exists_declaration (h _ (List.getElem_mem hk))
  have hlast : before.last = declarationName k := by rw [Progress.last, hlength]; rfl
  rw [hlength, hlast] at hafter
  refine ⟨transforms, ?_, root, before, after, _, hroot, hbefore, List.getElem?_eq_getElem hk,
    Progress.step_eq_ok_iff.2 next, hafter⟩
  -- what stands behind the steps so far stays in its place
  rw [← hrest, hafter, List.append_assoc, ← hlength, List.getElem?_append_right (Nat.le_refl _)]
  simp

private theorem numbers_of_script_eq_ok {s : Script} (hs : p.script catalog = .ok s) (h : ∀ s ∈ p.steps, s ≠ .display) :
    p.Numbers catalog s := by
  obtain ⟨q, names, hq, -, rfl⟩ := script_eq_ok_iff.1 hs
  obtain ⟨root, columns, -, -, run⟩ := progress_eq_ok_iff.1 hq
  have hnumbered : q.Numbered := run.numbered (Progress.numbered_start root columns)
  have hlength : q.declarations.length = p.steps.length + 1 := by
    rw [run.length_declarations h]
    exact Nat.add_comm 1 _
  have hname : ∀ k d, q.declarations[k]? = some d → d.name = declarationName k := by
    intro k d hd
    obtain ⟨hk, rfl⟩ := List.getElem?_eq_some_iff.1 hd
    simpa [hk] using congrArg (·[k]?) hnumbered.names
  have hmakes : ∀ k d, q.declarations[k + 1]? = some d →
      d.flow.source = .declaration (declarationName k) ∧ p.Makes catalog k d := by
    intro k d hd
    have hk : k + 1 < q.declarations.length := (List.getElem?_eq_some_iff.1 hd).1
    obtain ⟨transforms, hget, hmakes⟩ := exists_makes hq h (show k < p.steps.length by omega)
    obtain rfl := Option.some.inj (hd.symm.trans hget)
    exact ⟨rfl, hmakes⟩
  have hlast : ∃ d, q.declarations[q.declarations.length - 1]? = some d :=
    ⟨_, List.getElem?_eq_getElem (Nat.sub_one_lt_of_lt hnumbered.pos)⟩
  obtain ⟨d, hd⟩ := hlast
  refine ⟨hlength, hname, fun k d hd => (hmakes k d hd).1, fun k d hd => (hmakes k d hd).2, d, ?_, ?_⟩
  · rw [List.getLast?_eq_getElem?, hd]
  · rw [hname _ d hd]
    rfl

end Pipeline

/-! ### Rules that are never broken -/

/-- A step behind no declaration would have nothing to read from. -/
def Progress.guardedStep (catalog : Catalog) (root : Table) (q : Progress) (s : Step) : Except Failure Progress := do
  let q' ← (q.step catalog root s).mapError Cause.failure
  if s ≠ .display ∧ q.declarations = [] then .error (.of (.bug (some "only the from step may be numbered 0")))
  else .ok q'

/-- The main flow would have nothing to read from either. -/
def Progress.guardedFinish (catalog : Catalog) (q : Progress) : Except Failure Script :=
  if q.declarations = [] then .error (.of (.bug none)) else (q.finish catalog).mapError Cause.failure

namespace Pipeline

/-- The script of a pipeline, made by a compiler that looks for a declaration to read from each time that one is needed,
and reports a bug of its own when there is none. -/
def guardedScript (p : Pipeline) (catalog : Catalog) : Except Failure Script := do
  let root ← (catalog.table p.root).mapError Cause.failure
  let columns ← (catalog.tableColumns root.id).mapError Cause.failure
  let q ← p.steps.foldlM (Progress.guardedStep catalog root) (.start root columns)
  q.guardedFinish catalog

end Pipeline

namespace Progress

variable {catalog : Catalog} {root : Table} {q : Progress}

theorem guardedStep_eq (hq : q.declarations ≠ []) (s : Step) :
    q.guardedStep catalog root s = (q.step catalog root s).mapError Cause.failure := by
  unfold guardedStep
  cases q.step catalog root s with
  | error e => rfl
  | ok q' => exact if_neg fun h => hq h.2

private theorem foldlM_guardedStep_eq (hq : q.declarations ≠ []) (steps : List Step) :
    steps.foldlM (guardedStep catalog root) q = (steps.foldlM (step catalog root) q).mapError Cause.failure := by
  induction steps generalizing q with
  | nil => rfl
  | cons s steps ih =>
    rw [List.foldlM_cons, List.foldlM_cons, guardedStep_eq hq]
    cases hstep : q.step catalog root s with
    | error e => rfl
    | ok q' =>
      have hprefix : q.declarations <+: q'.declarations := Next.declarations_prefix (step_eq_ok_iff.1 hstep)
      exact ih fun h => hq (List.prefix_nil.1 (h ▸ hprefix))

end Progress

namespace Pipeline

variable (p : Pipeline) (catalog : Catalog)

/-- A compiler that looks for a declaration to read from always finds one. -/
theorem guardedScript_eq : p.guardedScript catalog = (p.script catalog).mapError Cause.failure := by
  have hstart : ∀ root columns, (Progress.start root columns).declarations ≠ [] :=
    fun root columns => List.cons_ne_nil _ _
  simp only [guardedScript, script, mapError_bind_eq, Progress.foldlM_guardedStep_eq (hstart _ _)]
  refine bind_congr_of_eq_ok fun root _ => bind_congr_of_eq_ok fun columns _ => bind_congr_of_eq_ok fun q hq => ?_
  have run : Progress.Run catalog root (.start root columns) p.steps q :=
    Progress.foldlM_step_eq_ok_iff.1 (mapError_eq_ok_iff.1 hq)
  have hprefix : _ <+: q.declarations := Progress.Run.declarations_prefix run
  have hne : q.declarations ≠ [] := fun h => hstart root columns (List.prefix_nil.1 (h ▸ hprefix))
  exact if_neg hne

/-- A script has one declaration for each step that is no mark for display, behind that of the root table, each reading
from the one in front of it.  The marks change nothing, whether there is a script or not, and a compiler that looked
for the declaration to read from would report no bug of its own. -/
theorem numbers_and_erases_displays :
    (∀ s, p.script catalog = .ok s → p.withoutDisplays.Numbers catalog s) ∧
    p.withoutDisplays.scriptText catalog = p.scriptText catalog ∧
    p.withoutDisplays.issues catalog = p.issues catalog ∧
    p.guardedScript catalog = (p.script catalog).mapError Cause.failure ∧
    ∀ f, p.guardedScript catalog = .error f → ∀ details, f.reason ≠ .bug details := by
  have hbug : ∀ (e : Cause) details, e.failure.reason ≠ .bug details := by
    intro e details
    cases e <;> exact Reason.noConfusion
  refine ⟨?_, ?_, issues_withoutDisplays p catalog, guardedScript_eq p catalog, ?_⟩
  · intro s hs
    rw [← script_withoutDisplays] at hs
    refine numbers_of_script_eq_ok hs fun s hs => ?_
    simpa using (List.mem_filter.1 hs).2
  · rw [scriptText, script_withoutDisplays, scriptText]
  · intro f hf
    rw [guardedScript_eq] at hf
    cases hscript : p.script catalog with
    | ok s =>
      rw [hscript] at hf
      cases hf
    | error e =>
      rw [hscript] at hf
      cases hf
      exact hbug e

/-- Marks in front of, between and behind the steps, and a pipeline that fails behind one. -/
theorem numbers_and_erases_displays_taught :
    let p : Pipeline := ⟨⟨"t"⟩, [.display, .relate school.taught, .display, .take ⟨some 1, none⟩, .display]⟩
    let failing : Pipeline := ⟨⟨"t"⟩, [.display, .root ⟨"s"⟩]⟩
    (∃ s, p.script school = .ok s ∧ s.declarations.length = 3 ∧
      (⟨⟨"t"⟩, [.relate school.taught, .take ⟨some 1, none⟩]⟩ : Pipeline).Numbers school s) ∧
    ∃ f, failing.guardedScript school = .error f ∧ ∀ details, f.reason ≠ .bug details := by
  intro p failing
  obtain ⟨s, hs⟩ : ∃ s, p.script school = .ok s := ⟨_, rfl⟩
  obtain ⟨f, hf⟩ : ∃ f, failing.guardedScript school = .error f := ⟨_, rfl⟩
  have hnumbers : p.withoutDisplays.Numbers school s := (numbers_and_erases_displays p school).1 s hs
  obtain ⟨-, -, -, -, hbug⟩ := numbers_and_erases_displays failing school
  exact ⟨⟨s, hs, hnumbers.length, hnumbers⟩, f, hf, hbug f hf⟩

end Pipeline

end TableFlow
