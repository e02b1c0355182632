import Mathlib.Data.List.Basic
import Mathlib.Data.List.Forall2
import TableFlow.Compile.Pipeline
import TableFlow.Review
import TableFlow.Proofs.Resolution

/-!
# The order of a relation's sides

A relation is stored with one of its sides first, and which one that is says nothing: a step towards one of the two
tables starts at the other (`Relation.towards_swap`).  So a catalog that stores some of its relations the other way
round (`Catalog.Reorients`) gives a pipeline the same script, or stops it with the same cause, and gives it the same
issues (`Pipeline.scriptText_and_issues_reorients`), as long as the pipeline leads to a side of each such relation.
-/

namespace TableFlow

/-! ### Relations -/

/-- The relation with its sides, and the columns of its junction, in the other order. -/
structure Relation.Swapped (r r' : Relation) : Prop where
  id : r'.id = r.id
  table1 : r'.table1 = r.table2
  column1 : r'.column1 = r.column2
  table2 : r'.table2 = r.table1
  column2 : r'.column2 = r.column1
  kind : match r.kind with
    | .oneToOne => r'.kind = .oneToOne
    | .oneToMany => r'.kind = .oneToMany
    | .manyToMany junction => ∃ junction', r'.kind = .manyToMany junction' ∧ junction'.table = junction.table ∧
        junction'.column1 = junction.column2 ∧ junction'.column2 = junction.column1

namespace Relation

variable {r r' : Relation} {target : TableId}

private theorem swapped_iff : r.Swapped r' ↔ r' = r.swap := by
  obtain ⟨id, kind, table1, column1, table2, column2⟩ := r
  constructor
  · intro h
    obtain ⟨id', kind', table1', column1', table2', column2'⟩ := r'
    obtain ⟨rfl, rfl, rfl, rfl, rfl, hkind⟩ := h
    cases kind with
    | oneToOne | oneToMany =>
      cases hkind
      rfl
    | manyToMany junction =>
      obtain ⟨junction', rfl, htable, hcolumn1, hcolumn2⟩ := hkind
      cases junction'
      cases htable
      cases hcolumn1
      cases hcolumn2
      rfl
  · rintro rfl
    refine ⟨rfl, rfl, rfl, rfl, rfl, ?_⟩
    cases kind with
    | oneToOne | oneToMany => rfl
    | manyToMany junction => exact ⟨junction.swap, rfl, rfl, rfl, rfl⟩

private theorem swap_swap (r : Relation) : r.swap.swap = r := by
  obtain ⟨_, kind, _, _, _, _⟩ := r
  cases kind <;> rfl

/-- On the way to one of two different tables it does not matter which of them comes first. -/
theorem towards_swap (hne : r.table1 ≠ r.table2) (htarget : target = r.table1 ∨ target = r.table2) :
    r.swap.towards target = r.towards target := by
  have hfirst : r.swap.table1 = r.table2 := rfl
  unfold towards
  rw [hfirst, swap_swap]
  rcases htarget with rfl | rfl
  · rw [if_neg hne, if_pos rfl]
  · rw [if_pos rfl, if_neg hne.symm]

end Relation

/-! ### Catalogs -/

/-- The same catalog, but that some of its relations have their sides in the other order. -/
structure Catalog.Reorients (c c' : Catalog) : Prop where
  tables : c'.tables = c.tables
  columns : c'.columns = c.columns
  relations : List.Forall₂ (fun r r' => r' = r ∨ r.Swapped r') c.relations c'.relations

/-- If the relation of the alias is not the same in the two catalogs, then it has two different tables, and the alias
leads to one of them. -/
def RelationAlias.LeadsToSide (c c' : Catalog) (a : RelationAlias) : Prop :=
  ∀ r, c.relation? a.relation = some r → c'.relation? a.relation ≠ some r →
    r.table1 ≠ r.table2 ∧ (a.table = r.table1 ∨ a.table = r.table2)

namespace Catalog.Reorients

variable {c c' : Catalog} {a : RelationAlias}

private theorem table (h : c.Reorients c') (id : TableId) : c'.table id = c.table id := by
  simp only [Catalog.table, table?, h.tables]

private theorem tableColumns (h : c.Reorients c') (id : TableId) : c'.tableColumns id = c.tableColumns id := by
  simp only [Catalog.tableColumns, columns?, h.columns]

/-- A relation is found as it was, or the other way round. -/
private theorem relation? (h : c.Reorients c') (id : RelationId) :
    c'.relation? id = c.relation? id ∨ ∃ r, c.relation? id = some r ∧ c'.relation? id = some r.swap := by
  have hrelations := h.relations
  unfold Catalog.relation?
  generalize c.relations = relations at hrelations ⊢
  generalize c'.relations = relations' at hrelations ⊢
  induction hrelations with
  | nil => exact Or.inl rfl
  | @cons r r' relations relations' hr _ ih =>
    have hid : r'.id = r.id := hr.elim (congrArg Relation.id) Relation.Swapped.id
    by_cases hfound : r.id = id
    · rw [List.find?_cons_of_pos (by simp [hid, hfound]), List.find?_cons_of_pos (by simp [hfound])]
      rcases hr with rfl | hswapped
      · exact Or.inl rfl
      · exact Or.inr ⟨r, rfl, congrArg some (Relation.swapped_iff.1 hswapped)⟩
    · rw [List.find?_cons_of_neg (by simp [hid, hfound]), List.find?_cons_of_neg (by simp [hfound])]
      exact ih

/-- What looks up all that an alias names and goes on from the relation as it leads to the table, comes out alike. -/
private theorem bind_found_eq {α : Type} (h : c.Reorients c') (ha : a.LeadsToSide c c')
    (f : RelationId → Relation → Table → List Column → Except Cause α) :
    (do
      let relation ← c'.relation a.relation
      let target ← c'.table a.table
      let columns ← c'.tableColumns target.id
      f relation.id (relation.towards target.id) target columns) =
    (do
      let relation ← c.relation a.relation
      let target ← c.table a.table
      let columns ← c.tableColumns target.id
      f relation.id (relation.towards target.id) target columns) := by
  simp only [h.table, h.tableColumns]
  rcases h.relation? a.relation with heq | ⟨r, hr, hr'⟩
  · simp only [Catalog.relation, heq]
  · by_cases hsame : r.swap = r
    · simp only [Catalog.relation, hr, hr', hsame]
    · have hdiffers : c'.relation? a.relation ≠ some r := by
        rw [hr']
        exact fun heq => hsame (Option.some.inj heq)
      obtain ⟨hne, hside⟩ := ha r hr hdiffers
      have hrelation : c.relation a.relation = .ok r := relation_eq_ok_iff.2 hr
      have hrelation' : c'.relation a.relation = .ok r.swap := relation_eq_ok_iff.2 hr'
      cases htarget : c.table a.table with
      | error e => rw [hrelation, hrelation']; rfl
      | ok target =>
        -- the table that was found has the id that the alias gives
        rw [← id_of_table_eq_ok htarget] at hside
        have htowards := Relation.towards_swap hne hside
        have hid : r.swap.id = r.id := rfl
        simp only [hrelation, hrelation', bind, Except.bind, htowards, hid]

private theorem joins (h : c.Reorients c') (r : Relation) (label : String) (base : JoinBase) (target : Table)
    (columns : List Column) (visible : List ColumnRef) :
    r.joins c' label base target columns visible = r.joins c label base target columns visible := by
  simp only [Relation.joins, h.table, h.tableColumns, h.tables]

private theorem joined (h : c.Reorients c') (ha : a.LeadsToSide c c') (base : JoinBase) (visible : List ColumnRef) :
    a.joined c' base visible = a.joined c base visible := by
  simp only [RelationAlias.joined, h.joins]
  exact h.bind_found_eq ha fun _ relation target columns => do
    let transforms ← relation.joins c a.label base target columns visible
    .ok (⟨transforms, columns.map fun c => (ColumnRef.ofTable target.id c.name).under a⟩ : Joined)

private theorem connected (h : c.Reorients c') (ha : a.LeadsToSide c c') (base : JoinBase) :
    Review.connected c' a base = Review.connected c a base :=
  h.bind_found_eq ha fun id relation target columns =>
    if relation.table1 = base.table then .ok columns else .error (.unconnected id base.table target.id)

end Catalog.Reorients

/-! ### Pipelines -/

section Pipelines

variable {c c' : Catalog} {root : Table} {s : Step}

/-- A step does the same to a script under construction. -/
private theorem Progress.step_reorients (h : c.Reorients c') (hs : ∀ a, s = .relate a → a.LeadsToSide c c')
    (q : Progress) : q.step c' root s = q.step c root s := by
  cases s with
  | relate a => simp only [step, h.joined (hs a rfl)]
  | root | select | filter | order | aggregate | take | display => simp only [step, h.tables]

/-- A step does the same to a review. -/
private theorem Review.step_reorients (h : c.Reorients c') (hs : ∀ a, s = .relate a → a.LeadsToSide c c') (r : Review) :
    r.step c' root s = r.step c root s := by
  have htype : ∀ column, columnType? c' column = columnType? c column := by
    intro column
    simp only [columnType?, Catalog.column?, Catalog.columns?, h.columns]
  have hcondition : ∀ condition, ofCondition c' condition = ofCondition c condition := by
    intro condition
    simp only [ofCondition, htype, h.tables]
  cases s with
  | relate a =>
    have hconnected : Review.connected c' a = Review.connected c a := funext (h.connected (hs a rfl))
    simp only [step, relate, hconnected]
  | filter f => simp only [step, funext hcondition]
  | aggregate a => simp only [step, aggregate, htype, h.tables]
  | select columns => simp only [step, select, h.tables]
  | order o => simp only [step, h.tables]
  | root | take | display => rfl

/-- Which side of a relation comes first changes neither the script of a pipeline, nor the cause that stops it, nor its
issues, if the pipeline leads to one of two different tables wherever it uses a relation that is the other way round. -/
theorem Pipeline.scriptText_and_issues_reorients {p : Pipeline} (h : c.Reorients c')
    (hsides : ∀ a, .relate a ∈ p.steps → a.LeadsToSide c c') :
    p.scriptText c' = p.scriptText c ∧ p.issues c' = p.issues c := by
  have hs : ∀ s ∈ p.steps, ∀ a, s = .relate a → a.LeadsToSide c c' := by
    rintro s hs a rfl
    exact hsides a hs
  have hscript : ∀ root q, p.steps.foldlM (Progress.step c' root) q = p.steps.foldlM (Progress.step c root) q :=
    fun root q => foldlM_congr (fun s hmem q => Progress.step_reorients h (hs s hmem) q) q
  have hreview : ∀ root r, p.steps.foldl (Review.step c' root) r = p.steps.foldl (Review.step c root) r :=
    fun root r => List.foldl_ext _ _ r fun r s hmem => Review.step_reorients h (hs s hmem) r
  constructor
  · simp only [scriptText, script, Progress.finish, h.table, h.tableColumns, h.tables, hscript]
  · simp only [issues, h.table, h.tableColumns, hreview]

/-- The courses that students attend are joined through the same junction columns when courses come first. -/
theorem Pipeline.scriptText_and_issues_attended :
    let attends' : Relation :=
      ⟨⟨"attends"⟩, .manyToMany ⟨⟨"e"⟩, "course_id", "student_id"⟩, ⟨"c"⟩, "id", ⟨"s"⟩, "id"⟩
    let c' : Catalog := { school.enrolled with relations := attends' :: school.relations.tail }
    let p : Pipeline := ⟨⟨"s"⟩, [.relate school.attended]⟩
    school.enrolled.Reorients c' ∧ (∀ a, .relate a ∈ p.steps → a.LeadsToSide school.enrolled c') ∧
      c' ≠ school.enrolled ∧ p.scriptText c' = p.scriptText school.enrolled ∧
      p.issues c' = p.issues school.enrolled := by
  intro attends' c' p
  have horients : school.enrolled.Reorients c' :=
    ⟨rfl, rfl, .cons (Or.inr ⟨rfl, rfl, rfl, rfl, rfl, _, rfl, rfl, rfl, rfl⟩) (.cons (Or.inl rfl) .nil)⟩
  have hsides : ∀ a, .relate a ∈ p.steps → a.LeadsToSide school.enrolled c' := by
    intro a ha r hr _
    obtain rfl : a = school.attended := by simpa [p] using ha
    cases hr
    exact ⟨by decide, by decide⟩
  exact ⟨horients, hsides, by decide, scriptText_and_issues_reorients horients hsides⟩

-- towards a table on neither side the order does matter: it says which side the step is taken to start at
example : let c' : Catalog := { school with relations := school.relations.map Relation.swap }
    let p : Pipeline := ⟨⟨"t"⟩, [.relate school.pupil]⟩
    p.issues school = [] ∧ p.issues c' = [.unconnected ⟨"teaches"⟩ ⟨"t"⟩ ⟨"s"⟩] := ⟨rfl, rfl⟩

end Pipelines

end TableFlow
