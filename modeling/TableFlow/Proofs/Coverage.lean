import TableFlow.Proofs.Issues

/-!
# Look-ups that reviews leave out

A review is meant to report whatever a look-up would stop a script with.  Step by step this is so
(`Review.mem_raised_of_step_eq_error`), but for relate steps there are two gaps: a review never looks for the junction
table of a relation, and it looks for nothing at all when the base of an alias is lost, since every step that introduced
it had issues of its own.  The faults in these gaps are not reported unless another step happens to raise the same one
(`Pipeline.lookup_reported_iff`).
-/

namespace TableFlow

/-! ### Faults of look-ups -/

namespace Cause

/-- Something was looked up in a catalog and was not found. -/
def OfCatalog : Cause → Prop
  | unknownTable _ | unknownRelation _ | notIntrospected _ | noColumns _ => True
  | _ => False

/-- Something was looked up, in a catalog or among the aliases of earlier steps, and was not found. -/
def IsLookup : Cause → Prop
  | unknownAlias _ => True
  | e => e.OfCatalog

variable {e : Cause}

private theorem OfCatalog.isLookup (h : e.OfCatalog) : e.IsLookup := by
  cases e <;> first | exact h | trivial

private theorem OfCatalog.reason_ne_unknownAlias (h : e.OfCatalog) (label : String) :
    (unknownAlias label).reason ≠ e.reason := by
  cases e with
  | unknownTable | unknownRelation | notIntrospected | noColumns => simp [reason]
  | _ => exact h.elim

private theorem OfCatalog.reason_ne_unconnected (h : e.OfCatalog) (relation : RelationId) (base target : TableId) :
    (unconnected relation base target).reason ≠ e.reason := by
  cases e with
  | unknownTable | unknownRelation | notIntrospected => simp [reason]
  | noColumns id =>
    intro h
    simp only [reason, Reason.simple.injEq] at h
    -- the texts differ in their first character
    have hchars := congrArg String.toList h
    simp [toString] at hchars
  | _ => exact h.elim

end Cause

/-- Something that an alias names is not found: its relation, its table, or the columns of that table. -/
def RelationAlias.Lacks (catalog : Catalog) (a : RelationAlias) (e : Cause) : Prop :=
  catalog.relation a.relation = .error e ∨ ∃ relation, catalog.relation a.relation = .ok relation ∧
    catalog.Lacks a.table e

/-- All that an alias names is found, but the junction table of its relation, or its columns, are not. -/
def RelationAlias.LacksJunction (catalog : Catalog) (a : RelationAlias) (e : Cause) : Prop :=
  ∃ relation target columns id, a.Found catalog relation target columns ∧ relation.junctionTable? = some id ∧
    catalog.Lacks id e

section Lookups

variable {catalog : Catalog} {e : Cause}

private theorem Catalog.Lacks.ofCatalog {id : TableId} (h : catalog.Lacks id e) : e.OfCatalog := by
  rcases h with h | ⟨table, -, h⟩
  · unfold Catalog.table at h
    split at h <;> cases h
    trivial
  · unfold tableColumns at h
    split at h <;> cases h <;> trivial

private theorem RelationAlias.Lacks.ofCatalog {a : RelationAlias} (h : a.Lacks catalog e) : e.OfCatalog := by
  rcases h with h | ⟨relation, -, h⟩
  · unfold Catalog.relation at h
    split at h <;> cases h
    trivial
  · exact h.ofCatalog

private theorem RelationAlias.LacksJunction.ofCatalog {a : RelationAlias} (h : a.LacksJunction catalog e) :
    e.OfCatalog := by
  obtain ⟨_, _, _, _, -, -, h⟩ := h
  exact h.ofCatalog

/-- What stops the joins of a relation is its junction table: the visible columns have flat names. -/
private theorem Relation.joins_eq_error_iff {label : String} {base : JoinBase} {target : Table} {columns : List Column}
    {visible : List ColumnRef} {r : Relation} (hvisible : ∀ c ∈ visible, c.Resolvable catalog.tables) :
    r.joins catalog label base target columns visible = .error e ↔
      ∃ id, r.junctionTable? = some id ∧ catalog.Lacks id e := by
  obtain ⟨kept, hkept⟩ := exists_flatNames_iff.2 hvisible
  unfold joins junctionTable? Catalog.Lacks
  cases r.kind with
  | oneToOne | oneToMany => simp
  | manyToMany junction => simp [bind_eq_error_iff, hkept]

/-- What looks up all that an alias names and goes on from there fails by one of the two. -/
private theorem RelationAlias.bind_found_eq_error_iff {α : Type} {a : RelationAlias}
    {f : Relation → Table → List Column → Except Cause α} :
    (do
      let relation ← catalog.relation a.relation
      let target ← catalog.table a.table
      let columns ← catalog.tableColumns target.id
      f relation target columns) = .error e ↔
    a.Lacks catalog e ∨ ∃ relation target columns, a.Found catalog relation target columns ∧
      f relation target columns = .error e := by
  simp only [bind_eq_error_iff]
  constructor
  · rintro (h | ⟨relation, hrelation, h | ⟨target, htarget, h | ⟨columns, hcolumns, h⟩⟩⟩)
    · exact Or.inl (Or.inl h)
    · exact Or.inl (Or.inr ⟨relation, hrelation, Or.inl h⟩)
    · exact Or.inl (Or.inr ⟨relation, hrelation, Or.inr ⟨target, htarget, h⟩⟩)
    · exact Or.inr ⟨relation, target, columns, ⟨hrelation, htarget, hcolumns⟩, h⟩
  · rintro ((h | ⟨relation, hrelation, h | ⟨target, htarget, h⟩⟩) |
      ⟨relation, target, columns, ⟨hrelation, htarget, hcolumns⟩, h⟩)
    · exact Or.inl h
    · exact Or.inr ⟨relation, hrelation, Or.inl h⟩
    · exact Or.inr ⟨relation, hrelation, Or.inr ⟨target, htarget, Or.inl h⟩⟩
    · exact Or.inr ⟨relation, hrelation, Or.inr ⟨target, htarget, Or.inr ⟨columns, hcolumns, h⟩⟩⟩

private theorem RelationAlias.joined_eq_error_iff {base : JoinBase} {visible : List ColumnRef} {a : RelationAlias}
    (hvisible : ∀ c ∈ visible, c.Resolvable catalog.tables) :
    a.joined catalog base visible = .error e ↔ a.Lacks catalog e ∨ a.LacksJunction catalog e := by
  rw [joined, bind_found_eq_error_iff]
  simp only [bind_eq_error_iff, Relation.joins_eq_error_iff hvisible, Relation.junctionTable?_towards, reduceCtorEq,
    and_false, exists_false, or_false, LacksJunction, exists_and_left]

private theorem Review.connected_eq_error_iff {base : JoinBase} {a : RelationAlias} :
    connected catalog a base = .error e ↔ a.Lacks catalog e ∨ ∃ relation target columns,
      a.Found catalog relation target columns ∧ (relation.towards target.id).table1 ≠ base.table ∧
      e = .unconnected relation.id base.table target.id := by
  have hif : ∀ (relation : Relation) (target : Table) (columns : List Column),
      (if (relation.towards target.id).table1 = base.table then .ok columns
        else .error (.unconnected relation.id base.table target.id) : Except Cause (List Column)) = .error e ↔
      (relation.towards target.id).table1 ≠ base.table ∧ e = .unconnected relation.id base.table target.id := by
    intro relation target columns
    split <;> simp_all [eq_comm]
  rw [connected, RelationAlias.bind_found_eq_error_iff]
  simp only [hif]

end Lookups

/-! ### Steps that relate nothing -/

section Steps

variable {catalog : Catalog} {e : Cause}

theorem Take.eq_of_transforms_eq_error {t : Take} (h : t.transforms = .error e) : e = .takeOutOfBounds := by
  have hrows : ∀ {m n : UInt64}, addRows m n = .error e → e = .takeOutOfBounds := by
    intro m n h
    unfold addRows at h
    split at h <;> cases h
    rfl
  simp only [transforms] at h
  split at h
  · simp only [bind_eq_error_iff, reduceCtorEq, and_false, exists_false, or_false] at h
    rcases h with h | ⟨_, -, h⟩ <;> exact hrows h
  · split at h
    · simp only [bind_eq_error_iff, reduceCtorEq, and_false, exists_false, or_false] at h
      exact hrows h
    · cases h

private theorem Filter.exists_of_transforms_eq_error {tables : List Table} {f : Filter}
    (h : f.transforms tables = .error e) : ∃ c ∈ f.conditions, c.pieces tables = .error e := by
  simp only [transforms, predicate, bind_eq_error_iff, reduceCtorEq, and_false, exists_false, or_false] at h
  rcases h with h | ⟨condition, -, h⟩
  · exact exists_of_mapM_eq_error h
  · split at h <;> cases h

private theorem Order.exists_of_transforms_eq_error {tables : List Table} {o : Order}
    (h : o.transforms tables = .error e) : ∃ k ∈ o.keys, k.column.flatName tables = .error e := by
  simp only [transforms, bind_eq_error_iff] at h
  rcases h with h | ⟨keys, -, h⟩
  · obtain ⟨k, hk, h⟩ := exists_of_mapM_eq_error h
    simp only [OrderKey.sortKey, bind_eq_error_iff, reduceCtorEq, and_false, exists_false, or_false] at h
    exact ⟨k, hk, h⟩
  · split at h <;> cases h

private theorem Aggregate.exists_of_transforms_eq_error {tables : List Table} {a : Aggregate}
    (h : a.transforms tables = .error e) : ∃ c ∈ a.group ++ [a.column], c.flatName tables = .error e := by
  simp only [transforms, bind_eq_error_iff, reduceCtorEq, and_false, exists_false, or_false] at h
  rcases h with h | ⟨group, -, h⟩
  · obtain ⟨c, hc, h⟩ := exists_of_mapM_eq_error h
    exact ⟨c, List.mem_append_left _ hc, h⟩
  · exact ⟨a.column, by simp, h⟩

namespace Review

private theorem mem_ofCondition {c : Condition} (h : c.pieces catalog.tables = .error e) (hlookup : e.IsLookup) :
    e ∈ ofCondition catalog c := by
  apply List.mem_append_left
  rw [mem_faults_iff]
  simp only [Condition.pieces, bind_eq_error_iff] at h
  rcases h with h | ⟨column, -, h⟩
  · rw [← h]
    exact List.mem_cons_self
  · split at h
    · cases h
    · split at h <;> cases h
      exact hlookup.elim
    · cases h
      exact hlookup.elim
    · rename_i other hvalue
      simp only [bind_eq_error_iff, reduceCtorEq, and_false, exists_false, or_false] at h
      simp [hvalue, h]
    · cases h

variable {root : Table} {p : Progress} {r : Review}

/-- Whatever look-up stops a script at a step that relates nothing, a review raises it there. -/
theorem mem_raised_of_step_eq_error {s : Step} (hs : s.alias? = none) (h : p.step catalog root s = .error e)
    (hlookup : e.IsLookup) : e ∈ r.raised catalog root s := by
  cases s with
  | root id =>
    cases h
    exact hlookup.elim
  | select columns =>
    simp only [Progress.step] at h
    split at h
    · cases h
      exact hlookup.elim
    · simp only [bind_eq_error_iff, reduceCtorEq, and_false, exists_false, or_false] at h
      obtain ⟨c, hc, h⟩ := exists_of_mapM_eq_error h
      -- what a review raises beyond look-ups stands behind them
      rw [raised_eq rfl]
      exact List.mem_append_left _ (mem_faults_iff.2 (List.mem_map.2 ⟨c, hc, h⟩))
  | filter f =>
    obtain ⟨c, hc, h⟩ := Filter.exists_of_transforms_eq_error (map_eq_error_iff.1 h)
    rw [raised_eq rfl]
    exact List.mem_flatMap.2 ⟨c, hc, mem_ofCondition h hlookup⟩
  | order o =>
    obtain ⟨k, hk, h⟩ := Order.exists_of_transforms_eq_error (map_eq_error_iff.1 h)
    rw [raised_eq rfl]
    exact mem_faults_iff.2 (List.mem_map.2 ⟨k, hk, h⟩)
  | aggregate a =>
    simp only [Progress.step, bind_eq_error_iff, reduceCtorEq, and_false, exists_false, or_false] at h
    obtain ⟨c, hc, h⟩ := Aggregate.exists_of_transforms_eq_error h
    have hfault : e ∈ faults
        (a.group.map (ColumnRef.flatName catalog.tables) ++ [a.column.flatName catalog.tables]) := by
      rw [mem_faults_iff, ← List.map_singleton, ← List.map_append]
      exact List.mem_map.2 ⟨c, hc, h⟩
    rw [raised_eq rfl]
    exact List.mem_append_left _ (List.mem_append_left _ (List.mem_append_left _ hfault))
  | relate a => cases hs
  | take t =>
    obtain rfl := Take.eq_of_transforms_eq_error (map_eq_error_iff.1 h)
    exact hlookup.elim
  | display => cases h

end Review

end Steps

/-! ### Relate steps -/

section Relates

variable {catalog : Catalog} {root : Table} {p : Progress} {r : Review} {a : RelationAlias} {e : Cause}

private theorem base_of_find_eq_error_iff {aliases : List RelationAlias} {label : String} :
    (match aliases.find? fun earlier => earlier.label = label with
      | some earlier => .ok (.joined earlier)
      | none => .error (.unknownAlias label) : Except Cause JoinBase) = .error e ↔
    (∀ earlier ∈ aliases, earlier.label ≠ label) ∧ e = .unknownAlias label := by
  cases hfind : aliases.find? fun earlier => earlier.label = label with
  | none =>
    have hnone : ∀ earlier ∈ aliases, earlier.label ≠ label := by simpa using hfind
    simp only [Except.error.injEq, eq_comm (b := e)]
    exact ⟨fun h => ⟨hnone, h⟩, fun h => h.2⟩
  | some earlier =>
    have hlabel : earlier.label = label := by simpa using List.find?_some hfind
    constructor
    · intro h
      cases h
    · intro h
      exact absurd hlabel (h.1 earlier (List.mem_of_find?_eq_some hfind))

private theorem Progress.base_eq_error_iff : p.base root a = .error e ↔
    ∃ b, a.base? = some b ∧ (∀ earlier ∈ p.aliases, earlier.label ≠ b.label) ∧ e = .unknownAlias b.label := by
  unfold base
  cases a.base? with
  | none => simp
  | some b =>
    have hreverse : (∀ earlier ∈ p.aliases, earlier.label ≠ b.label) ↔
        ∀ earlier ∈ p.aliases.reverse, earlier.label ≠ b.label := by simp only [List.mem_reverse]
    simp only [Option.some.injEq, exists_eq_left', hreverse]
    exact base_of_find_eq_error_iff

theorem Review.base_eq_error_iff : r.base root a = .error e ↔
    ∃ b, a.base? = some b ∧ (∀ earlier ∈ r.aliases, earlier.label ≠ b.label) ∧ e = .unknownAlias b.label := by
  unfold base
  cases a.base? with
  | none => simp
  | some b =>
    simp only [Option.some.injEq, exists_eq_left']
    exact base_of_find_eq_error_iff

private theorem Review.mem_raised_relate_iff {i : Cause} : i ∈ r.raised catalog root (.relate a) ↔
    r.base root a = .error i ∨ ∃ base, r.base root a = .ok base ∧ connected catalog a base = .error i := by
  rw [raised_relate, ← bind_eq_error_iff]
  cases r.base root a >>= connected catalog a <;> simp [eq_comm]

private theorem RelationAlias.Found.not_lacks {relation : Relation} {target : Table} {columns : List Column}
    (found : a.Found catalog relation target columns) : ¬a.Lacks catalog e := by
  simp [RelationAlias.Lacks, Catalog.Lacks, found.relation_eq, found.target_eq, found.columns_eq]

/-- When a look-up fails that an alias leads to, a review that knows the base raises it unless it is the junction's. -/
private theorem Review.exists_connected_eq_error_iff {base : JoinBase}
    (h : a.Lacks catalog e ∨ a.LacksJunction catalog e) :
    (∃ i, connected catalog a base = .error i ∧ i.reason = e.reason) ↔ ¬a.LacksJunction catalog e := by
  rcases h with h | h
  · refine iff_of_true ⟨e, connected_eq_error_iff.2 (Or.inl h), rfl⟩ ?_
    rintro ⟨_, _, _, _, found, -⟩
    exact found.not_lacks h
  · refine iff_of_false ?_ fun hno => hno h
    rintro ⟨i, hi, hreason⟩
    rcases connected_eq_error_iff.1 hi with hi | ⟨_, _, _, -, -, rfl⟩
    · obtain ⟨_, _, _, _, found, -⟩ := h
      exact found.not_lacks hi
    · exact h.ofCatalog.reason_ne_unconnected _ _ _ hreason

/-- The alias at which a relation starts is known to a script under construction, but not to a review. -/
def Review.LosesBase (r : Review) (p : Progress) (a : RelationAlias) : Prop :=
  ∃ b, a.base? = some b ∧ (∃ earlier ∈ p.aliases, earlier.label = b.label) ∧
    ∀ earlier ∈ r.aliases, earlier.label ≠ b.label

private theorem Review.losesBase_iff {base : JoinBase} (hbase : p.base root a = .ok base) :
    r.LosesBase p a ↔ ∃ label, r.base root a = .error (.unknownAlias label) := by
  constructor
  · rintro ⟨b, hb, -, hnone⟩
    exact ⟨b.label, base_eq_error_iff.2 ⟨b, hb, hnone, rfl⟩⟩
  · rintro ⟨label, h⟩
    obtain ⟨b, hb, hnone, -⟩ := base_eq_error_iff.1 h
    exact ⟨b, hb, Progress.exists_base_iff.1 ⟨base, hbase⟩ b hb, hnone⟩

/-- Where a script is stopped by a relate step, a review raises the fault unless it lies with the junction or the
review has lost the base. -/
private theorem Review.exists_raised_relate_iff (hvisible : ∀ c ∈ p.visible, c.Resolvable catalog.tables)
    (haliases : ∀ earlier ∈ r.aliases, earlier ∈ p.aliases) (h : p.step catalog root (.relate a) = .error e) :
    (∃ i ∈ r.raised catalog root (.relate a), i.reason = e.reason) ↔
      ¬(a.LacksJunction catalog e ∨ r.LosesBase p a) := by
  simp only [Progress.step, bind_eq_error_iff, RelationAlias.joined_eq_error_iff hvisible, reduceCtorEq, and_false,
    exists_false, or_false] at h
  simp only [mem_raised_relate_iff]
  rcases h with h | ⟨base, hbase, h⟩
  · -- no alias of the script has the label, so none of the review has it either
    obtain ⟨b, hb, hnone, rfl⟩ := Progress.base_eq_error_iff.1 h
    have hraised : r.base root a = .error (.unknownAlias b.label) :=
      base_eq_error_iff.2 ⟨b, hb, fun earlier hearlier => hnone earlier (haliases earlier hearlier), rfl⟩
    refine iff_of_true ⟨_, Or.inl hraised, rfl⟩ ?_
    rintro (h | ⟨b', hb', ⟨earlier, hearlier, hlabel⟩, -⟩)
    · exact h.ofCatalog.reason_ne_unknownAlias _ rfl
    · obtain rfl := Option.some.inj (hb.symm.trans hb')
      exact hnone earlier hearlier hlabel
  · have hcatalog : e.OfCatalog := h.elim RelationAlias.Lacks.ofCatalog RelationAlias.LacksJunction.ofCatalog
    cases hr : r.base root a with
    | error i =>
      obtain ⟨b, -, -, rfl⟩ := base_eq_error_iff.1 hr
      refine iff_of_false ?_ fun hno => hno (Or.inr ((losesBase_iff hbase).2 ⟨_, hr⟩))
      rintro ⟨i, hi | ⟨_, hi, -⟩, hreason⟩
      · cases hi
        exact hcatalog.reason_ne_unknownAlias _ hreason
      · cases hi
    | ok base' =>
      -- the two bases may be different ones, which matters to no look-up
      have hknown : ¬r.LosesBase p a := by
        rw [losesBase_iff hbase, hr]
        rintro ⟨_, h⟩
        cases h
      simpa [hknown] using exists_connected_eq_error_iff h

end Relates

/-! ### Pipelines -/

namespace Pipeline

/-- The step with a number introduces an alias with a label. -/
def Introduces (p : Pipeline) (k : Nat) (label : String) : Prop :=
  ∃ a, p.steps[k]? = some (.relate a) ∧ a.label = label

/-- The alias that the step with a number starts at was introduced, but each step that did so has issues. -/
def LosesBase (p : Pipeline) (catalog : Catalog) (k : Nat) (a : RelationAlias) : Prop :=
  ∃ b, a.base? = some b ∧ (∃ j < k, p.Introduces j b.label) ∧
    ∀ j < k, p.Introduces j b.label → p.issuesAt catalog j ≠ []

/-- The script of a pipeline is stopped by a relate step, with a fault that is not looked for in the review of that
step. -/
structure Overlooks (p : Pipeline) (catalog : Catalog) (k : Nat) (e : Cause) : Prop where
  stops : p.StopsAt catalog k e
  gap : ∃ a, p.steps[k]? = some (.relate a) ∧ (a.LacksJunction catalog e ∨ p.LosesBase catalog k a)

variable {p : Pipeline} {catalog : Catalog} {k : Nat} {e : Cause}

section Introduces

variable {label : String}

private theorem exists_alias_iff {root : Table} {columns : List Column} {q : Progress}
    (run : Progress.Run catalog root (.start root columns) (p.steps.take k) q) :
    (∃ a ∈ q.aliases, a.label = label) ↔ ∃ j < k, p.Introduces j label := by
  have hmem : ∀ a, a ∈ q.aliases ↔ ∃ j < k, p.steps[j]? = some (.relate a) := by
    intro a
    rw [run.mem_aliases_iff, List.mem_iff_getElem?]
    simp [List.getElem?_take]
  constructor
  · rintro ⟨a, ha, hlabel⟩
    obtain ⟨j, hj, hs⟩ := (hmem a).1 ha
    exact ⟨j, hj, a, hs, hlabel⟩
  · rintro ⟨j, hj, a, hs, hlabel⟩
    exact ⟨a, (hmem a).2 ⟨j, hj, hs⟩, hlabel⟩

private theorem forall_alias_ne_iff {r : Review} (h : (p.take k).review catalog = .ok r) :
    (∀ a ∈ r.aliases, a.label ≠ label) ↔ ∀ j < k, p.Introduces j label → p.issuesAt catalog j ≠ [] := by
  constructor
  · rintro hne j hj ⟨a, hs, hlabel⟩ hissues
    exact hne a ((mem_aliases_review_iff h).2 ⟨j, hj, hs, hissues⟩) hlabel
  · intro hall a ha hlabel
    obtain ⟨j, hj, hs, hissues⟩ := (mem_aliases_review_iff h).1 ha
    exact hall j hj ⟨a, hs, hlabel⟩ hissues

end Introduces

/-- Where a look-up stops a script, the review raises it exactly if it does not overlook it. -/
private theorem exists_issuesAt_iff_not_overlooks (h : p.StopsAt catalog k e) (hlookup : e.IsLookup) :
    (∃ i ∈ p.issuesAt catalog k, i.reason = e.reason) ↔ ¬p.Overlooks catalog k e := by
  obtain ⟨root, columns, q, s, hroot, hcolumns, run, hs, hstep⟩ := stopsAt_iff.1 h
  have hreview := take_review hroot hcolumns k
  rw [issuesAt_eq_raised hs hroot hreview]
  cases ha : s.alias? with
  | none =>
    refine iff_of_true ⟨e, Review.mem_raised_of_step_eq_error ha hstep hlookup, rfl⟩ ?_
    rintro ⟨-, a, hs', -⟩
    obtain rfl := Option.some.inj (hs.symm.trans hs')
    cases ha
  | some a =>
    obtain rfl : s = .relate a := by
      cases s <;> cases ha
      rfl
    have haliases : ∀ earlier ∈ ((p.steps.take k).foldl (Review.step catalog root) (.start root columns)).aliases,
        earlier ∈ q.aliases := by
      intro earlier hearlier
      obtain ⟨j, hj, hs, -⟩ := (mem_aliases_review_iff hreview).1 hearlier
      rw [run.mem_aliases_iff]
      exact List.mem_iff_getElem?.2 ⟨j, by rw [List.getElem?_take_of_lt hj, hs]⟩
    rw [Review.exists_raised_relate_iff (run.resolvable hroot) haliases hstep]
    simp only [Review.LosesBase, exists_alias_iff run, forall_alias_ne_iff hreview]
    apply not_congr
    constructor
    · exact fun hgap => ⟨h, a, hs, hgap⟩
    · rintro ⟨-, a', hs', hgap⟩
      obtain rfl : a = a' := Step.relate.inj (Option.some.inj (hs.symm.trans hs'))
      exact hgap

/-- Whatever a review overlooks is the fault of a look-up. -/
private theorem Overlooks.isLookup (h : p.Overlooks catalog k e) : e.IsLookup := by
  obtain ⟨stops, a, hs, -⟩ := h
  obtain ⟨root, columns, q, s, hroot, -, run, hs', hstep⟩ := stopsAt_iff.1 stops
  obtain rfl := Option.some.inj (hs.symm.trans hs')
  simp only [Progress.step, bind_eq_error_iff, RelationAlias.joined_eq_error_iff (run.resolvable hroot), reduceCtorEq,
    and_false, exists_false, or_false] at hstep
  rcases hstep with hstep | ⟨base, -, hstep | hstep⟩
  · obtain ⟨b, -, -, rfl⟩ := Progress.base_eq_error_iff.1 hstep
    trivial
  · exact hstep.ofCatalog.isLookup
  · exact hstep.ofCatalog.isLookup

/-- Every fault of a look-up that leaves a pipeline without a script is reported by its review, exactly if those that
are overlooked at the step that they stop are raised by another step. -/
theorem lookup_reported_iff : (∀ e, p.scriptText catalog = .error e → e.IsLookup →
      ∃ i ∈ p.issues catalog, i.reason = e.reason) ↔
    ∀ k e, p.Overlooks catalog k e → ∃ j, j ≠ k ∧ ∃ i ∈ p.issuesAt catalog j, i.reason = e.reason := by
  have hreview : ∀ {k e}, p.StopsAt catalog k e → ∃ r, p.review catalog = .ok r := by
    intro k e h
    obtain ⟨root, columns, _, _, hroot, hcolumns, -⟩ := stopsAt_iff.1 h
    exact ⟨_, bind_eq_ok_iff.2 ⟨root, hroot, bind_eq_ok_iff.2 ⟨columns, hcolumns, rfl⟩⟩⟩
  simp only [scriptText, map_eq_error_iff]
  constructor
  · intro hreported k e h
    obtain ⟨i, hi, hreason⟩ := hreported e (script_eq_error_iff_stopsAt.2 (Or.inr ⟨k, h.stops⟩)) h.isLookup
    obtain ⟨r, hr⟩ := hreview h.stops
    obtain ⟨j, hj⟩ := (mem_issues_iff hr).1 hi
    refine ⟨j, ?_, i, hj, hreason⟩
    rintro rfl
    exact (exists_issuesAt_iff_not_overlooks h.stops h.isLookup).1 ⟨i, hj, hreason⟩ h
  · intro helsewhere e herror hlookup
    rcases script_eq_error_iff_stopsAt.1 herror with hroot | ⟨k, h⟩
    · have hissues : p.issues catalog = [e] := by
        apply issues_of_review_eq_error
        simpa [review, bind_eq_error_iff, Catalog.Lacks] using hroot
      exact ⟨e, by rw [hissues, List.mem_singleton], rfl⟩
    · obtain ⟨r, hr⟩ := hreview h
      have hissue : ∃ j, ∃ i ∈ p.issuesAt catalog j, i.reason = e.reason := by
        by_cases hoverlooks : p.Overlooks catalog k e
        · obtain ⟨j, -, hj⟩ := helsewhere k e hoverlooks
          exact ⟨j, hj⟩
        · exact ⟨k, (exists_issuesAt_iff_not_overlooks h hlookup).2 hoverlooks⟩
      obtain ⟨j, i, hi, hreason⟩ := hissue
      exact ⟨i, (mem_issues_iff hr).2 ⟨j, hi⟩, hreason⟩

/-- The junction table that students attend courses by stops the script and is not reported. -/
theorem not_lookup_reported_attended : ∃ e,
    (⟨⟨"s"⟩, [.relate school.attended]⟩ : Pipeline).scriptText school = .error e ∧ e.IsLookup ∧
      ∀ i ∈ (⟨⟨"s"⟩, [.relate school.attended]⟩ : Pipeline).issues school, i.reason ≠ e.reason :=
  ⟨.unknownTable ⟨"e"⟩, rfl, trivial, fun _ hi => absurd hi List.not_mem_nil⟩

-- a base that is lost: the relation of the second step is not looked for, since the first one leads nowhere
example : let p : Pipeline := ⟨⟨"s"⟩, [.relate school.taught, .relate (.chained "aide" ⟨"helps"⟩ ⟨"t"⟩ school.taught)]⟩
    p.scriptText school = .error (.unknownRelation ⟨"helps"⟩) ∧
      p.issues school = [.unconnected ⟨"teaches"⟩ ⟨"s"⟩ ⟨"c"⟩, .unknownAlias "course"] := ⟨rfl, rfl⟩

end Pipeline

end TableFlow
