import TableFlow.Proofs.Issues

/-!
# Relations that lead somewhere

A review is meant to report a relate step whose relation does not have the base and the target as its two tables
(`Relation.Connects`).  It looks at the relation with the side of the target last, and a target that is neither side is
taken for the last one, so that a step from the first table to a foreign one is not reported.  This is the only case in
which the report is missing, and there is none in which it is wrong (`Pipeline.reportsUnconnected_iff`).
-/

namespace TableFlow

/-- The base and the target are the two tables of the relation, in either order. -/
def Relation.Connects (r : Relation) (base target : TableId) : Prop :=
  (base = r.table1 ∧ target = r.table2) ∨ (base = r.table2 ∧ target = r.table1)

instance (r : Relation) (base target : TableId) : Decidable (r.Connects base target) :=
  inferInstanceAs (Decidable (_ ∨ _))

/-- The review of a pipeline reports for the step with a number that its relation does not connect two tables. -/
def Pipeline.ReportsUnconnected (p : Pipeline) (catalog : Catalog) (k : Nat) : Prop :=
  ∃ relation base target, .unconnected relation base target ∈ p.issuesAt catalog k

/-- The table that a relation starts from is the side that the target is not on; of a target on neither side it is
the first one. -/
private theorem Relation.table1_towards_eq_iff {r : Relation} {base target : TableId} :
    (r.towards target).table1 = base ↔ r.Connects base target ∨
      (base = r.table1 ∧ target ≠ r.table1 ∧ target ≠ r.table2) := by
  unfold towards Connects
  split
  · rename_i h
    subst h
    simp only [swap, ne_eq, not_true_eq_false, false_and, and_false, or_false, and_true]
    constructor
    · exact fun h => Or.inr h.symm
    · rintro (⟨h, h'⟩ | h)
      · exact h'.symm.trans h.symm
      · exact h.symm
  · rename_i h
    constructor
    · rintro rfl
      by_cases htarget : target = r.table2
      · exact Or.inl (Or.inl ⟨rfl, htarget⟩)
      · exact Or.inr ⟨rfl, h, htarget⟩
    · rintro ((⟨h', -⟩ | ⟨-, h'⟩) | ⟨h', -⟩)
      · exact h'.symm
      · exact absurd h' h
      · exact h'.symm

section Reports

variable {catalog : Catalog} {a : RelationAlias} {base : JoinBase} {relation : Relation} {target : Table}
  {columns : List Column}

theorem Review.connected_eq (found : a.Found catalog relation target columns) :
    connected catalog a base = if (relation.towards target.id).table1 = base.table then .ok columns
      else .error (.unconnected relation.id base.table target.id) := by
  simp [connected, found.relation_eq, found.target_eq, found.columns_eq, bind, Except.bind]

/-- What a relate step raises whose base, relation, and table are known. -/
theorem Review.raised_relate_of_found {root : Table} {r : Review} (hbase : r.base root a = .ok base)
    (found : a.Found catalog relation target columns) :
    r.raised catalog root (.relate a) = if (relation.towards target.id).table1 = base.table then []
      else [.unconnected relation.id base.table target.id] := by
  have hconnected : (r.base root a >>= connected catalog a) = connected catalog a base := by
    rw [hbase]
    rfl
  rw [raised_relate, hconnected, connected_eq found]
  split <;> rename_i h <;> split at h <;> simp_all

/-- A relate step whose base, relation, table, and columns are known is reported exactly if its relation does not
connect the base to the target, save that a step from the first table of the relation to a foreign one is never
reported. -/
theorem Pipeline.reportsUnconnected_iff {p : Pipeline} {k : Nat} {root : Table} {r : Review}
    (hstep : p.steps[k]? = some (.relate a)) (hroot : catalog.table p.root = .ok root)
    (hreview : (p.take k).review catalog = .ok r) (hbase : r.base root a = .ok base)
    (found : a.Found catalog relation target columns) :
    (p.ReportsUnconnected catalog k ↔ ¬relation.Connects base.table target.id) ↔
      ¬(base.table = relation.table1 ∧ target.id ≠ relation.table1 ∧ target.id ≠ relation.table2) := by
  have hreports : p.ReportsUnconnected catalog k ↔ (relation.towards target.id).table1 ≠ base.table := by
    rw [ReportsUnconnected, issuesAt_eq_raised hstep hroot hreview, Review.raised_relate_of_found hbase found]
    split
    · simp_all
    · simp_all
  rw [hreports, ne_eq, Relation.table1_towards_eq_iff]
  -- a relation that connects the two is never reported, and has its target on one of the sides
  by_cases hconnects : relation.Connects base.table target.id
  · simp only [hconnects, true_or, not_true_eq_false, iff_self, true_iff]
    unfold Relation.Connects at hconnects
    rintro ⟨-, h1, h2⟩
    rcases hconnects with ⟨-, h⟩ | ⟨-, h⟩
    · exact h2 h
    · exact h1 h
  · simp [hconnects]

/-- A step to students that starts at the courses of a teacher is reported. -/
theorem Pipeline.reportsUnconnected_tutor :
    ∃ p : Pipeline, p.steps[1]? = some (.relate school.tutor) ∧ p.ReportsUnconnected school 1 := by
  refine ⟨⟨⟨"t"⟩, [.relate school.taught, .relate school.tutor]⟩, rfl, ?_⟩
  have hfound : school.tutor.Found school _ _ _ := ⟨rfl, rfl, rfl⟩
  exact ((reportsUnconnected_iff rfl rfl rfl rfl hfound).2 (by decide)).2 (by decide)

/-- A step to students that starts at teachers is not reported, although the relation leads to courses. -/
theorem Pipeline.not_reportsUnconnected_pupil :
    ∃ (p : Pipeline) (root : Table) (r : Review) (relation : Relation) (target : Table) (columns : List Column),
      p.steps[0]? = some (.relate school.pupil) ∧ school.table p.root = .ok root ∧
      (p.take 0).review school = .ok r ∧ r.base root school.pupil = .ok (.root root) ∧
      school.pupil.Found school relation target columns ∧
      ¬(p.ReportsUnconnected school 0 ↔ ¬relation.Connects root.id target.id) := by
  refine ⟨⟨⟨"t"⟩, [.relate school.pupil]⟩, _, _, _, _, _, rfl, rfl, rfl, rfl, ⟨rfl, rfl, rfl⟩, ?_⟩
  intro h
  obtain ⟨_, _, _, hmem⟩ := h.2 (by decide)
  exact absurd hmem List.not_mem_nil

end Reports

end TableFlow
