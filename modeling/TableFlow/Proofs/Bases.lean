import Mathlib.Order.Bounds.Basic
import TableFlow.Proofs.Tracking

/-!
# Where a relation starts

A relation that does not start at the root table starts at the table of an earlier alias, which is looked up by its
label.  Nothing keeps two relate steps from introducing the same label.  A review then starts at the first of them and a
script at the last (`Pipeline.bases_of_relate`): the two start at the same step exactly if no other earlier step has the
label, and otherwise the table that a script joins from need not be a side of the relation.
-/

namespace TableFlow

namespace school

/-- The teachers of a course. -/
def lecturer : RelationAlias := .fromRoot "person" ⟨"teaches"⟩ ⟨"t"⟩ false

/-- The students of a course, under the same label. -/
def listener : RelationAlias := .fromRoot "person" ⟨"attends"⟩ ⟨"s"⟩ false

/-- The courses that a person teaches. -/
def lecture : RelationAlias := .chained "lecture" ⟨"teaches"⟩ ⟨"c"⟩ lecturer

end school

/-! ### The first and the last alias with a label -/

section Labels

variable {steps : List Step} {label : String} {a : RelationAlias}

private theorem exists_of_find_alias
    (h : (steps.filterMap Step.alias?).find? (fun earlier => earlier.label = label) = some a) :
    a.label = label ∧ ∃ before after, steps = before ++ .relate a :: after ∧
      ∀ a', .relate a' ∈ before → a'.label ≠ label := by
  have hlabel : a.label = label := by simpa using List.find?_some h
  rw [List.find?_filterMap, Option.bind_eq_some_iff] at h
  obtain ⟨s, hs, ha⟩ := h
  obtain ⟨-, before, after, rfl, hnone⟩ := List.find?_eq_some_iff_append.1 hs
  obtain rfl := Step.alias?_eq_some_iff.1 ha
  refine ⟨hlabel, before, after, rfl, ?_⟩
  intro a' ha'
  simpa [Step.alias?] using hnone _ ha'

private theorem exists_of_find_alias_reverse
    (h : (steps.filterMap Step.alias?).reverse.find? (fun earlier => earlier.label = label) = some a) :
    a.label = label ∧ ∃ before after, steps = before ++ .relate a :: after ∧
      ∀ a', .relate a' ∈ after → a'.label ≠ label := by
  rw [← List.filterMap_reverse] at h
  obtain ⟨hlabel, after, before, hsteps, hnone⟩ := exists_of_find_alias h
  refine ⟨hlabel, before.reverse, after.reverse, ?_, ?_⟩
  · rw [← List.reverse_reverse steps, hsteps]
    simp
  · intro a' ha'
    exact hnone a' (List.mem_reverse.1 ha')

end Labels

namespace Pipeline

/-- The steps in front of the one with a number that introduce an alias with a label. -/
def introducing (p : Pipeline) (k : Nat) (label : String) : Set Nat :=
  {j | j < k ∧ p.Introduces j label}

section Introducing

variable {p : Pipeline} {k : Nat} {label : String} {a : RelationAlias} {before after : List Step}

private theorem mem_introducing_iff {j : Nat} :
    j ∈ p.introducing k label ↔ ∃ a, (p.steps.take k)[j]? = some (.relate a) ∧ a.label = label := by
  have hmem : j ∈ p.introducing k label ↔ j < k ∧ ∃ a, p.steps[j]? = some (.relate a) ∧ a.label = label := Iff.rfl
  rw [hmem, List.getElem?_take]
  split
  · rename_i hj
    simp [hj]
  · rename_i hj
    simp [hj]

/-- A step that introduces a label in front of all others that do. -/
private theorem isLeast_introducing (hsteps : p.steps.take k = before ++ .relate a :: after) (hlabel : a.label = label)
    (hnone : ∀ a', .relate a' ∈ before → a'.label ≠ label) : IsLeast (p.introducing k label) before.length := by
  constructor
  · rw [mem_introducing_iff, hsteps]
    exact ⟨a, by simp, hlabel⟩
  · intro j hj
    obtain ⟨a', ha', hlabel'⟩ := mem_introducing_iff.1 hj
    rw [hsteps] at ha'
    by_contra hlt
    rw [List.getElem?_append_left (by omega)] at ha'
    exact hnone a' (List.mem_of_getElem? ha') hlabel'

/-- A step that introduces a label behind all others that do. -/
private theorem isGreatest_introducing (hsteps : p.steps.take k = before ++ .relate a :: after)
    (hlabel : a.label = label) (hnone : ∀ a', .relate a' ∈ after → a'.label ≠ label) :
    IsGreatest (p.introducing k label) before.length := by
  constructor
  · rw [mem_introducing_iff, hsteps]
    exact ⟨a, by simp, hlabel⟩
  · intro j hj
    obtain ⟨a', ha', hlabel'⟩ := mem_introducing_iff.1 hj
    rw [hsteps] at ha'
    by_contra hlt
    obtain ⟨n, rfl⟩ : ∃ n, j = before.length + 1 + n := ⟨j - (before.length + 1), by omega⟩
    rw [← List.singleton_append, ← List.append_assoc, List.getElem?_append_right (by simp)] at ha'
    exact hnone a' (List.mem_of_getElem? ha') hlabel'

private theorem getElem?_length (hsteps : p.steps.take k = before ++ .relate a :: after) :
    p.steps[before.length]? = some (.relate a) := by
  rw [← List.take_append_drop k p.steps, hsteps]
  simp

end Introducing

end Pipeline

/-! ### Bases in a review and in a script -/

private theorem exists_of_base_of_find_eq_ok {aliases : List RelationAlias} {label : String} {base : JoinBase}
    (h : (match aliases.find? fun earlier => earlier.label = label with
      | some earlier => .ok (.joined earlier)
      | none => .error (.unknownAlias label) : Except Cause JoinBase) = .ok base) :
    ∃ earlier, base = .joined earlier ∧ aliases.find? (fun earlier => earlier.label = label) = some earlier := by
  cases hfind : aliases.find? fun earlier => earlier.label = label with
  | none =>
    rw [hfind] at h
    cases h
  | some earlier =>
    rw [hfind] at h
    exact ⟨earlier, (Except.ok.inj h).symm, rfl⟩

section Bases

variable {p : Pipeline} {catalog : Catalog} {root : Table} {k : Nat} {a b : RelationAlias} {base : JoinBase}

/-- A review starts at the alias of the first step with the label. -/
private theorem Review.exists_isLeast_of_base_eq_ok {r : Review} (hbase : r.base root a = .ok base)
    (hb : a.base? = some b) (haliases : r.aliases = (p.steps.take k).filterMap Step.alias?) :
    ∃ i earliest, base = .joined earliest ∧ p.steps[i]? = some (.relate earliest) ∧
      IsLeast (p.introducing k b.label) i := by
  unfold Review.base at hbase
  rw [hb] at hbase
  obtain ⟨earliest, rfl, hfind⟩ := exists_of_base_of_find_eq_ok hbase
  rw [haliases] at hfind
  obtain ⟨hlabel, before, after, hsteps, hnone⟩ := exists_of_find_alias hfind
  exact ⟨before.length, earliest, rfl, Pipeline.getElem?_length hsteps,
    Pipeline.isLeast_introducing hsteps hlabel hnone⟩

/-- A script starts at the alias of the last step with the label. -/
private theorem Progress.exists_isGreatest_of_base_eq_ok {q : Progress} (hbase : q.base root a = .ok base)
    (hb : a.base? = some b) (haliases : q.aliases = (p.steps.take k).filterMap Step.alias?) :
    ∃ j latest, base = .joined latest ∧ p.steps[j]? = some (.relate latest) ∧
      IsGreatest (p.introducing k b.label) j := by
  unfold Progress.base at hbase
  rw [hb] at hbase
  obtain ⟨latest, rfl, hfind⟩ := exists_of_base_of_find_eq_ok hbase
  rw [haliases] at hfind
  obtain ⟨hlabel, before, after, hsteps, hnone⟩ := exists_of_find_alias_reverse hfind
  exact ⟨before.length, latest, rfl, Pipeline.getElem?_length hsteps,
    Pipeline.isGreatest_introducing hsteps hlabel hnone⟩

/-- A review that raises nothing starts at the side of the relation that the target is not on. -/
private theorem Review.table1_towards_of_raised_eq_nil {r : Review} {relation : Relation} {target : Table}
    {columns : List Column} (hbase : r.base root a = .ok base) (found : a.Found catalog relation target columns)
    (h : r.raised catalog root (.relate a) = []) : (relation.towards a.table).table1 = base.table := by
  rw [← Catalog.id_of_table_eq_ok found.target_eq]
  by_contra hne
  rw [raised_relate_of_found hbase found, if_neg hne] at h
  cases h

end Bases

namespace Pipeline

variable {p : Pipeline} {catalog : Catalog} {k : Nat} {a b : RelationAlias}

/-- In front of a relate step of a pipeline that goes through, its base and all that its alias names are known. -/
private theorem exists_found_of_progress {q q' : Progress} (hstep : p.steps[k]? = some (.relate a))
    (hq : (p.take k).progress catalog = .ok q) (hq' : (p.take (k + 1)).progress catalog = .ok q') :
    ∃ root base relation target columns, catalog.table p.root = .ok root ∧ q.base root a = .ok base ∧
      a.Found catalog relation target columns := by
  obtain ⟨root, columns, hroot, hcolumns, run⟩ := progress_eq_ok_iff.1 hq'
  have hsteps : (p.take (k + 1)).steps = (p.take k).steps ++ [.relate a] := by
    simp [take, List.take_add_one, hstep]
  rw [hsteps, Progress.run_append_iff] at run
  obtain ⟨q₀, run, last⟩ := run
  have hq₀ : (p.take k).progress catalog = .ok q₀ := progress_eq_ok_iff.2 ⟨root, columns, hroot, hcolumns, run⟩
  obtain rfl := Except.ok.inj (hq.symm.trans hq₀)
  obtain ⟨q₁, next, -⟩ := Progress.run_cons_iff.1 last
  cases next with
  | relate base_eq found joins => exact ⟨root, _, _, _, _, hroot, base_eq, found⟩

/-- For a relate step of an accepted pipeline that has a script, the review starts at the first earlier step with the
label of its base, which is the side of the relation that the target is not on, and the script starts at the last one;
these are the same step exactly if there is no other. -/
theorem bases_of_relate {s : Script} (hissues : p.issues catalog = []) (hscript : p.script catalog = .ok s)
    (hstep : p.steps[k]? = some (.relate a)) (hb : a.base? = some b) :
    ∃ root r q relation i j earliest latest, catalog.table p.root = .ok root ∧
      (p.take k).review catalog = .ok r ∧ (p.take k).progress catalog = .ok q ∧
      r.base root a = .ok (.joined earliest) ∧ p.steps[i]? = some (.relate earliest) ∧
      IsLeast (p.introducing k b.label) i ∧
      q.base root a = .ok (.joined latest) ∧ p.steps[j]? = some (.relate latest) ∧
      IsGreatest (p.introducing k b.label) j ∧
      catalog.relation a.relation = .ok relation ∧ (relation.towards a.table).table1 = earliest.table ∧
      (i = j ↔ (p.introducing k b.label).Subsingleton) := by
  obtain ⟨_, _, hall, -, -⟩ := script_eq_ok_iff.1 hscript
  obtain ⟨q, hq, -⟩ := exists_progress_take hall k
  obtain ⟨q', hq', -⟩ := exists_progress_take hall (k + 1)
  have hconnected : p.IsConnected catalog := by
    intro relation base target
    simp [hissues]
  obtain ⟨r, hr, htracks⟩ := exists_review_tracks hq (hconnected.take k)
  obtain ⟨root, base, relation, target, columns, hroot, hbase, found⟩ := exists_found_of_progress hstep hq hq'
  obtain ⟨base', hbase'⟩ : ∃ base', r.base root a = .ok base' := htracks.exists_base hbase
  -- both know the aliases of all relate steps in front
  have haliases : q.aliases = (p.steps.take k).filterMap Step.alias? := by
    obtain ⟨_, _, _, _, run⟩ := progress_eq_ok_iff.1 hq
    exact run.aliases_eq
  obtain ⟨i, earliest, rfl, hi, hleast⟩ :=
    Review.exists_isLeast_of_base_eq_ok hbase' hb (htracks.aliases.trans haliases)
  obtain ⟨j, latest, rfl, hj, hgreatest⟩ := Progress.exists_isGreatest_of_base_eq_ok hbase hb haliases
  have hraised : r.raised catalog root (.relate a) = [] :=
    (issuesAt_eq_raised hstep hroot hr).symm.trans (issuesAt_eq_nil hissues k)
  have hside : (relation.towards a.table).table1 = earliest.table :=
    Review.table1_towards_of_raised_eq_nil hbase' found hraised
  refine ⟨root, r, q, relation, i, j, earliest, latest, hroot, hr, hq, hbase', hi, hleast, hbase, hj, hgreatest,
    found.relation_eq, hside, ?_⟩
  constructor
  · intro heq
    exact Set.subsingleton_of_isLUB_le_isGLB hleast.isGLB hgreatest.isLUB heq.ge
  · intro hsingle
    exact hsingle hleast.1 hgreatest.1

/-- With one label for one alias, the review and the script start at the same step. -/
theorem bases_of_lecture :
    let p : Pipeline := ⟨⟨"c"⟩, [.relate school.lecturer, .relate school.lecture]⟩
    p.issues school = [] ∧ (∃ s, p.script school = .ok s) ∧
      ∃ root r q, (p.take 1).review school = .ok r ∧ (p.take 1).progress school = .ok q ∧
        r.base root school.lecture = .ok (.joined school.lecturer) ∧
        q.base root school.lecture = .ok (.joined school.lecturer) := by
  intro p
  have hissues : p.issues school = [] := rfl
  obtain ⟨s, hs⟩ : ∃ s, p.script school = .ok s := ⟨_, rfl⟩
  obtain ⟨root, r, q, _, i, j, earliest, latest, -, hr, hq, hbase, hi, hleast, hbase', hj, hgreatest, -⟩ :=
    bases_of_relate hissues hs (show p.steps[1]? = some (.relate school.lecture) from rfl) rfl
  obtain rfl : i = 0 := Nat.lt_one_iff.1 hleast.1.1
  obtain rfl : j = 0 := Nat.lt_one_iff.1 hgreatest.1.1
  cases hi
  cases hj
  exact ⟨hissues, ⟨s, hs⟩, root, r, q, hr, hq, hbase, hbase'⟩

/-- With one label for the teachers of a course and for its students, the review checks that teachers teach, and the
script joins the courses that students teach. -/
theorem bases_ne_of_listener :
    let p : Pipeline := ⟨⟨"c"⟩, [.relate school.lecturer, .relate school.listener, .relate school.lecture]⟩
    p.issues school.enrolled = [] ∧ (∃ text, p.scriptText school.enrolled = .ok text) ∧
      p.steps[2]? = some (.relate school.lecture) ∧
      ∃ root r q earliest latest relation, school.enrolled.table p.root = .ok root ∧
        (p.take 2).review school.enrolled = .ok r ∧ (p.take 2).progress school.enrolled = .ok q ∧
        r.base root school.lecture = .ok (.joined earliest) ∧ q.base root school.lecture = .ok (.joined latest) ∧
        earliest ≠ latest ∧ school.enrolled.relation school.lecture.relation = .ok relation ∧
        relation.Connects earliest.table school.lecture.table ∧ ¬relation.Connects latest.table school.lecture.table :=
  ⟨rfl, ⟨_, rfl⟩, rfl, _, _, _, school.lecturer, school.listener, _, rfl, rfl, rfl, rfl, rfl, by decide, rfl,
    by decide, by decide⟩

end Pipeline

end TableFlow
