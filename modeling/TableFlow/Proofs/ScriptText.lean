import TableFlow.Proofs.Construction
import TableFlow.Proofs.Transforms

/-!
# The text of a script determines the script

As long as no name that a script mentions holds a backquote, its text is read in one way only
(`Pipeline.text_eq_text_iff`): every source, transform, flow and declaration says where it ends.  A backquote in a name
is not doubled, so it ends the name early and what follows reads as more of the script
(`Pipeline.exists_text_eq_and_ne`).
-/

namespace TableFlow

open Script (nameText framed_nameText)

/-! ### The names in a script -/

/-- The names that a source mentions. -/
def Source.mentions : Source → List String
  | table schema name => [schema, name]
  | declaration name => [name]

/-- The names that a flow mentions. -/
def Flow.mentions (f : Flow) : List String :=
  f.source.mentions ++ f.transforms.flatMap Transform.mentions

/-- The names that a script mentions. -/
def Script.mentions (s : Script) : List String :=
  (s.declarations.flatMap fun d => d.name :: d.flow.mentions) ++ s.main.mentions

/-! ### Flows and declarations -/

/-- Behind a schema stands a point, and behind the name of a declaration the line ends. -/
private theorem tableName_ne_nameText {schema name other : String} (hschema : Unquoted schema) (hother : Unquoted other)
    {r s : List Char} (hs : LineEnds s) :
    (Source.table schema name).text.toList ++ r ≠ (nameText other).toList ++ s := by
  intro heq
  simp only [Source.text, String.toList_append, List.append_assoc] at heq
  obtain ⟨-, hrest⟩ := framed_nameText hschema hother (.literal (by decide) _) (hs.stops rfl) heq
  rw [← hrest] at hs
  exact not_lineEnds_cons (by decide) _ hs

private theorem Source.framed_text : Framed (fun source : Source => ∀ name ∈ source.mentions, Unquoted name) LineEnds
    fun source => source.text.toList := by
  have htable : ∀ {schema name : String}, (∀ n ∈ (table schema name).mentions, Unquoted n) →
      Unquoted schema ∧ Unquoted name := fun h => ⟨h _ (by simp [mentions]), h _ (by simp [mentions])⟩
  have hdeclaration : ∀ {name : String}, (∀ n ∈ (declaration name).mentions, Unquoted n) → Unquoted name :=
    fun h => h _ List.mem_cons_self
  intro a b r s ha hb hr hs heq
  cases a with
  | table schema name =>
    cases b with
    | table schema' name' =>
      have hframed := @framed_tableName (schema, name) (schema', name')
      obtain ⟨hname, hrest⟩ := hframed (htable ha) (htable hb) (hr.stops rfl) (hs.stops rfl) heq
      cases hname
      exact ⟨rfl, hrest⟩
    | declaration name' => exact absurd heq (tableName_ne_nameText (htable ha).1 (hdeclaration hb) hs)
  | declaration name =>
    cases b with
    | table schema' name' => exact absurd heq.symm (tableName_ne_nameText (htable hb).1 (hdeclaration ha) hr)
    | declaration name' =>
      obtain ⟨rfl, hrest⟩ := framed_nameText (hdeclaration ha) (hdeclaration hb) (hr.stops rfl) (hs.stops rfl) heq
      exact ⟨rfl, hrest⟩

namespace Flow

/-- No name in the flow holds a backquote, and its filters have conditions. -/
structure Plain (f : Flow) : Prop where
  source : ∀ name ∈ f.source.mentions, Unquoted name
  transforms : ∀ t ∈ f.transforms, t.Plain

private theorem toList_text (separator : String) (f : Flow) : (f.text separator).toList =
    "from ".toList ++ (f.source.text.toList ++ f.transforms.flatMap fun t => separator.toList ++ t.text.toList) := by
  simp only [text, String.toList_append, String.toList_join, List.flatMap_map, List.append_assoc]

/-- A flow whose transforms stand on lines of their own is framed by what is no such line. -/
private theorem framed_text {separator : String} {closes : List Char → Prop}
    (hseparator : separator.toList.head? = some '\n') (hcloses : ∀ r, closes r → LineEnds r)
    (hstart : ∀ (t : Transform) r, ¬ closes (separator.toList ++ (t.text.toList ++ r))) :
    Framed Plain closes fun f => (f.text separator).toList := by
  have hnext : ∀ (t : Transform) (rest : List Char), t.Plain →
      LineEnds ((separator.toList ++ t.text.toList) ++ rest) := by
    intro t rest _
    rw [List.append_assoc]
    exact Stops.literal (by rw [hseparator]; rfl) _
  have htransforms : Framed (∀ t ∈ ·, t.Plain) closes
      (List.flatMap fun t : Transform => separator.toList ++ t.text.toList) := by
    refine (Transform.framed_text.prepend separator.toList).flatMap hcloses hnext ?_
    intro t rest _
    rw [List.append_assoc]
    exact hstart t rest
  rintro ⟨source, transforms⟩ ⟨source', transforms'⟩ r s hf hg hr hs heq
  simp only [toList_text, List.append_assoc] at heq
  obtain ⟨hsource, heq⟩ := Source.framed_text hf.source hg.source (Framed.ends_flatMap hcloses hnext hf.transforms hr)
    (Framed.ends_flatMap hcloses hnext hg.transforms hs) (List.append_cancel_left heq)
  obtain ⟨hlist, hrest⟩ := htransforms hf.transforms hg.transforms hr hs heq
  cases hsource
  cases hlist
  exact ⟨rfl, hrest⟩

end Flow

namespace Declaration

/-- No name in the declaration holds a backquote, and its filters have conditions. -/
structure Plain (d : Declaration) : Prop where
  name : Unquoted d.name
  flow : d.flow.Plain

private theorem framed_text : Framed Plain (fun _ => True) fun d => d.text.toList := by
  have hflow : Framed Flow.Plain (fun r => ∃ rest, r = "\n)".toList ++ rest) fun f => (f.text "\n  ").toList := by
    refine Flow.framed_text (by decide) ?_ ?_
    · rintro _ ⟨rest, rfl⟩
      exact .literal (by decide) _
    · rintro t r ⟨rest, hrest⟩
      exact absurd (List.cons.inj (List.cons.inj hrest).2).1 (by decide)
  rintro ⟨name, flow⟩ ⟨name', flow'⟩ r s hd he _ _ heq
  simp only [text, String.toList_append, List.append_assoc] at heq
  obtain ⟨hname, heq⟩ := framed_nameText hd.name he.name (.literal (by decide) _) (.literal (by decide) _)
    (List.append_cancel_left heq)
  obtain ⟨hflows, hrest⟩ := hflow hd.flow he.flow ⟨_, rfl⟩ ⟨_, rfl⟩ (List.append_cancel_left heq)
  cases hname
  cases hflows
  exact ⟨rfl, List.append_cancel_left hrest⟩

end Declaration

/-! ### Scripts -/

namespace Script

/-- Declarations, each with an empty line behind it, end where the main flow begins. -/
private theorem framed_declarations : Framed (∀ d ∈ ·, d.Plain) (fun r => ∃ rest, r = "from ".toList ++ rest)
    (List.flatMap fun d : Declaration => (d.text ++ "\n\n").toList) := by
  have hdeclaration : Framed Declaration.Plain (fun _ => True) fun d => (d.text ++ "\n\n").toList := by
    intro d e r s hd he _ _ heq
    simp only [String.toList_append, List.append_assoc] at heq
    obtain ⟨hde, hrest⟩ := Declaration.framed_text hd he trivial trivial heq
    exact ⟨hde, List.append_cancel_left hrest⟩
  refine hdeclaration.flatMap (fun _ _ => trivial) (fun _ _ _ => trivial) ?_
  rintro d r _ ⟨rest, hrest⟩
  simp only [Declaration.text, String.toList_append, List.append_assoc] at hrest
  exact absurd (List.cons.inj hrest).1 (by decide)

/-- The main flow ends where the last line does. -/
private theorem framed_main : Framed Flow.Plain (· = "\n".toList) fun f => (f.text "\n").toList := by
  refine Flow.framed_text (by decide) ?_ ?_
  · rintro _ rfl
    exact .cons rfl _
  · intro t r hr
    obtain ⟨rest, hrest⟩ := t.exists_toList_text
    simp [hrest] at hr

private theorem toList_text (s : Script) : s.text.toList =
    (s.declarations.flatMap fun d => (d.text ++ "\n\n").toList) ++ ((s.main.text "\n").toList ++ "\n".toList) := by
  simp only [text, String.toList_append, String.toList_join, List.flatMap_map, List.append_assoc]

private theorem text_injective {s s' : Script} (hd : ∀ d ∈ s.declarations, d.Plain)
    (hd' : ∀ d ∈ s'.declarations, d.Plain) (hmain : s.main.Plain) (hmain' : s'.main.Plain) (h : s.text = s'.text) :
    s = s' := by
  have hfrom : ∀ f : Flow, ∃ rest, (f.text "\n").toList ++ "\n".toList = "from ".toList ++ rest := by
    intro f
    rw [Flow.toList_text, List.append_assoc]
    exact ⟨_, rfl⟩
  have heq := congrArg String.toList h
  rw [toList_text, toList_text] at heq
  obtain ⟨hlist, heq⟩ := framed_declarations hd hd' (hfrom _) (hfrom _) heq
  obtain ⟨hflows, -⟩ := framed_main hmain hmain' rfl rfl heq
  obtain ⟨_, _⟩ := s
  cases hlist
  cases hflows
  rfl

end Script

/-! ### Scripts of pipelines -/

/-- Every filter among the transforms has a condition. -/
def Conditioned (transforms : List Transform) : Prop :=
  ∀ c, .filter c ∈ transforms → c.OfCondition

section Steps

variable {tables : List Table} {transforms : List Transform}

private theorem Filter.conditioned {f : Filter} (h : f.transforms tables = .ok transforms) :
    Conditioned transforms := by
  simp only [Filter.transforms, bind_eq_ok_iff] at h
  obtain ⟨t, ht, h⟩ := h
  split at h
  · cases h
    exact fun c hc => absurd hc List.not_mem_nil
  · rename_i hne
    cases h
    intro c hc
    cases List.mem_singleton.1 hc
    exact Filter.ofCondition ht hne

private theorem Order.conditioned {o : Order} (h : o.transforms tables = .ok transforms) : Conditioned transforms := by
  simp only [Order.transforms, bind_eq_ok_iff] at h
  obtain ⟨keys, -, h⟩ := h
  split at h <;> cases h <;> simp [Conditioned]

private theorem Take.conditioned {t : Take} (h : t.transforms = .ok transforms) : Conditioned transforms := by
  simp only [Take.transforms] at h
  split at h
  · simp only [bind_eq_ok_iff, Except.ok.injEq] at h
    obtain ⟨_, -, _, -, rfl⟩ := h
    simp [Conditioned]
  · split at h
    · simp only [bind_eq_ok_iff, Except.ok.injEq] at h
      obtain ⟨_, -, rfl⟩ := h
      simp [Conditioned]
    · cases h
      simp [Conditioned]

private theorem Relation.Joins.conditioned {catalog : Catalog} {label : String} {base : JoinBase} {target : Table}
    {columns : List Column} {visible : List ColumnRef} {r : Relation}
    (joins : r.Joins catalog label base target columns visible transforms) : Conditioned transforms := by
  cases joins <;> simp [Conditioned]

end Steps

namespace Progress

variable {catalog : Catalog} {root : Table} {p q : Progress}

/-- Every filter that was declared has a condition. -/
def Conditioned (p : Progress) : Prop :=
  ∀ d ∈ p.declarations, TableFlow.Conditioned d.flow.transforms

private theorem Conditioned.declare (h : p.Conditioned) {transforms : List Transform}
    (htransforms : TableFlow.Conditioned transforms) : (p.declare transforms).Conditioned := by
  intro d hd
  rcases List.mem_append.1 hd with hd | hd
  · exact h d hd
  · cases List.mem_singleton.1 hd
    exact htransforms

private theorem Conditioned.next {s : Step} (h : p.Conditioned) (next : p.Next catalog root s q) : q.Conditioned := by
  cases next with
  | display => exact h
  | select => exact h.declare (by simp [TableFlow.Conditioned])
  | filter transforms_eq => exact h.declare (Filter.conditioned transforms_eq)
  | order transforms_eq => exact h.declare (Order.conditioned transforms_eq)
  | take transforms_eq => exact h.declare (Take.conditioned transforms_eq)
  | aggregate => exact h.declare (by simp [TableFlow.Conditioned])
  | relate base_eq found joins => exact h.declare joins.conditioned

private theorem Run.conditioned {initial : Progress} {steps : List Step} (run : Run catalog root initial steps q)
    (h : initial.Conditioned) : q.Conditioned := by
  induction run with
  | nil => exact h
  | snoc run next ih => exact ih.next next

private theorem conditioned_start (root : Table) (columns : List Column) : (start root columns).Conditioned := by
  intro d hd
  cases List.mem_singleton.1 hd
  simp [TableFlow.Conditioned, FlatTable.flow]

end Progress

private theorem Flow.plain {f : Flow} (hnames : ∀ name ∈ f.mentions, Unquoted name) (h : Conditioned f.transforms) :
    f.Plain where
  source name hname := hnames name (List.mem_append_left _ hname)
  transforms t ht :=
    { unquoted := fun name hname => hnames name (List.mem_append_right _ (List.mem_flatMap.2 ⟨t, ht, hname⟩))
      condition := by
        rintro c rfl
        exact h c ht }

namespace Pipeline

private theorem plain_of_script_eq_ok {p : Pipeline} {catalog : Catalog} {s : Script} (h : p.script catalog = .ok s)
    (hnames : ∀ name ∈ s.mentions, Unquoted name) : (∀ d ∈ s.declarations, d.Plain) ∧ s.main.Plain := by
  obtain ⟨q, names, hq, -, rfl⟩ := script_eq_ok_iff.1 h
  obtain ⟨root, columns, -, -, run⟩ := progress_eq_ok_iff.1 hq
  have hconditioned : q.Conditioned := run.conditioned (Progress.conditioned_start root columns)
  constructor
  · intro d hd
    have hmem : ∀ name ∈ d.name :: d.flow.mentions, Unquoted name := fun name hname =>
      hnames name (List.mem_append_left _ (List.mem_flatMap.2 ⟨d, hd, hname⟩))
    refine ⟨hmem _ List.mem_cons_self, Flow.plain ?_ (hconditioned d hd)⟩
    exact fun name hname => hmem name (List.mem_cons_of_mem _ hname)
  · refine Flow.plain (fun name hname => hnames name (List.mem_append_right _ hname)) ?_
    simp [Conditioned]

/-- If no name in the scripts of two pipelines holds a backquote, they have the same text only when they are the same
script. -/
theorem text_eq_text_iff {p p' : Pipeline} {catalog catalog' : Catalog} {s s' : Script}
    (h : p.script catalog = .ok s) (h' : p'.script catalog' = .ok s') (hnames : ∀ name ∈ s.mentions, Unquoted name)
    (hnames' : ∀ name ∈ s'.mentions, Unquoted name) : s.text = s'.text ↔ s = s' := by
  obtain ⟨hdeclarations, hmain⟩ := plain_of_script_eq_ok h hnames
  obtain ⟨hdeclarations', hmain'⟩ := plain_of_script_eq_ok h' hnames'
  constructor
  · exact Script.text_injective hdeclarations hdeclarations' hmain hmain'
  · rintro rfl
    rfl

end Pipeline

/-- The rows of a table with some results of aggregates. -/
def school.aggregates (names : List String) : Pipeline :=
  ⟨⟨"s"⟩, [.select (names.map .ofAggregate)]⟩

namespace Pipeline

/-- One name that holds a comma is told from two names. -/
theorem text_aggregates_ne : ∃ s s', (school.aggregates ["x y", "z w"]).script school = .ok s ∧
    (school.aggregates ["x y, this.z w"]).script school = .ok s' ∧ s.text ≠ s'.text := by
  refine ⟨_, _, rfl, rfl, ?_⟩
  have hiff := @text_eq_text_iff (school.aggregates ["x y", "z w"]) (school.aggregates ["x y, this.z w"]) school school
    _ _ rfl rfl (by decide) (by decide)
  exact mt hiff.1 (by decide)

/-- A backquote in a name ends the name, and what follows it is read as another column. -/
theorem exists_text_eq_and_ne : ∃ s s', (school.aggregates ["x y", "z w"]).script school = .ok s ∧
    (school.aggregates ["x y\x60, this.\x60z w"]).script school = .ok s' ∧ s ≠ s' ∧ s.text = s'.text := by
  refine ⟨_, _, rfl, rfl, by decide, ?_⟩
  rfl

end Pipeline

end TableFlow
