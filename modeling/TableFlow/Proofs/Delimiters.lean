import Mathlib.Data.List.Basic
import TableFlow.Proofs.Resolution
import TableFlow.Proofs.Templates

/-!
# The delimiters of templates

A quoted text starts with a run of quotes and ends with the next run that is as long; an even run has nothing inside
(`Script.quoted?`).  So a text must not start with its quote, end in it, or hold as many of them in a row as its
delimiter has: for some texts no delimiter is right.  The condition of a filter starts with the place of a column and
ends in a word, a number, a place or a single quote, and that is enough (`Filter.template_delimited`).
-/

namespace TableFlow

namespace Script

/-- What stands between a run of quotes and the next run as long, and what follows.  Quotes in an even number are a text
with nothing in it. -/
def quoted? : List Char → Option (List Char × List Char)
  | [] => none
  | q :: cs =>
    let run := q :: cs.takeWhile (· == q)
    let behind := cs.dropWhile (· == q)
    if q ≠ '"' ∧ q ≠ '\x27' then none
    else if run.length % 2 = 0 then some ([], behind)
    else behind.dropInfix? run

/-! ### Runs of quotes -/

private theorem isQuote_of_mem_delimiter {cs : List Char} {q : Char} (h : q ∈ delimiter cs) : q = '"' ∨ q = '\x27' := by
  unfold delimiter at h
  split at h
  · exact Or.inl (List.mem_singleton.1 h)
  · split at h
    · exact Or.inr (List.mem_singleton.1 h)
    · rw [longDelimiter] at h
      have hq := List.eq_of_mem_replicate h
      split at hq
      · exact Or.inr hq
      · exact Or.inl hq

/-- A delimiter has an odd number of quotes. -/
private theorem length_delimiter (cs : List Char) : (delimiter cs).length % 2 = 1 := by
  unfold delimiter
  split
  · rfl
  · split
    · rfl
    · rw [longDelimiter, List.length_replicate]
      omega

namespace Delimited

variable {cs before after rest : List Char} {n : Nat} {q : Char}

/-- The first run behind what is delimited closes it. -/
private theorem eq_of_append_eq (h : Delimited cs n q)
    (heq : cs ++ List.replicate n q = before ++ (List.replicate n q ++ after)) : before = cs ∧ after = [] := by
  have hle : cs.length ≤ before.length :=
    h.length_le (r := []) (s := after) (by rw [List.append_nil, heq])
  have hlengths := congrArg List.length heq
  simp only [List.length_append, List.length_replicate] at hlengths
  have hlength : cs.length = before.length := by omega
  obtain ⟨hinside, hrest⟩ := List.append_inj heq hlength
  exact ⟨hinside.symm, List.length_eq_zero_iff.1 (by omega)⟩

/-- What is delimited is read up to its closing run, whatever follows. -/
private theorem dropInfix?_eq_some (h : Delimited cs n q) (rest : List Char) :
    (cs ++ (List.replicate n q ++ rest)).dropInfix? (List.replicate n q) = some (cs, rest) := by
  rw [List.dropInfix?_eq_some_iff]
  refine ⟨⟨List.replicate n q, by rw [List.append_assoc], beq_self_eq_true _⟩, ?_⟩
  intro before run after heq hrun
  obtain rfl : run = List.replicate n q := eq_of_beq hrun
  rw [List.append_assoc] at heq
  exact h.length_le heq

private theorem quoted?_eq_some (h : Delimited cs n q) (hodd : n % 2 = 1) (hquote : q = '"' ∨ q = '\x27')
    (rest : List Char) : quoted? (List.replicate n q ++ (cs ++ (List.replicate n q ++ rest))) = some (cs, rest) := by
  obtain ⟨m, rfl⟩ := Nat.exists_eq_succ_of_ne_zero (Nat.pos_iff_ne_zero.1 h.pos)
  -- the opening run ends where the text inside starts
  have hrun : ∀ c ∈ List.replicate m q, (c == q) = true := by
    intro c hc
    rw [List.eq_of_mem_replicate hc, beq_self_eq_true]
  have hstops : Stops (· == q) (cs ++ (List.replicate (m + 1) q ++ rest)) := by
    intro c hc
    rw [List.head?_append_of_ne_nil _ h.nonempty] at hc
    simpa using h.head c hc
  have hlength : (q :: List.replicate m q).length % 2 ≠ 0 := by
    rw [← List.replicate_succ, List.length_replicate, hodd]
    exact Nat.one_ne_zero
  have hcond : ¬(q ≠ '"' ∧ q ≠ '\x27') := fun hne => hquote.elim hne.1 hne.2
  rw [List.replicate_succ, List.cons_append, quoted?, ← List.replicate_succ, takeWhile_run hrun hstops,
    dropWhile_run hrun hstops]
  simp only [if_neg hcond, if_neg hlength]
  exact h.dropInfix?_eq_some rest

end Delimited

end Script

/-! ### Filters -/

namespace Filter

variable {f : Filter} {tables : List Table} {t : Template}

/-- A filter with conditions has a template with something in it. -/
theorem predicate_ne_nil (h : f.predicate tables = .ok t) (hne : f.conditions ≠ []) : t ≠ [] := by
  simp only [predicate, bind_eq_ok_iff, Except.ok.injEq] at h
  obtain ⟨conditions, hconditions, rfl⟩ := h
  rw [mapM_eq_ok_iff] at hconditions
  cases conditions with
  | nil => exact absurd (List.map_eq_nil_iff.1 hconditions) hne
  | cons pieces conditions =>
    obtain ⟨c, cs, hf⟩ := List.exists_cons_of_ne_nil hne
    rw [hf, List.map_cons, List.map_cons, List.cons.injEq] at hconditions
    obtain ⟨name, rest, rfl⟩ := (Condition.isCondition hconditions.1).head
    -- the first piece is a column, which nothing melts into
    cases conditions with
    | nil => exact List.cons_ne_nil _ _
    | cons => exact List.cons_ne_nil _ _

theorem exists_delimiter (h : f.predicate tables = .ok t) (hne : f.conditions ≠ []) :
    ∃ n q, (q = '"' ∨ q = '\x27') ∧ n % 2 = 1 ∧ Script.delimiter (Script.body t) = List.replicate n q ∧
      Script.Delimited (Script.body t) n q := by
  obtain ⟨pieces, rfl, hcondition⟩ := ofCondition h (predicate_ne_nil h hne)
  obtain ⟨n, q, hdelimiter, hinside⟩ := hcondition.exists_delimiter
  rw [← Template.body_ofPieces] at hdelimiter hinside
  refine ⟨n, q, ?_, ?_, hdelimiter, hinside⟩
  · have hmem : q ∈ List.replicate n q := List.mem_replicate.2 ⟨Nat.pos_iff_ne_zero.1 hinside.pos, rfl⟩
    rw [← hdelimiter] at hmem
    exact Script.isQuote_of_mem_delimiter hmem
  · have hlength := Script.length_delimiter (Script.body (Template.ofPieces pieces))
    rwa [hdelimiter, List.length_replicate] at hlength

/-- A reader finds what is inside the delimiters of a filter's template. -/
theorem quoted?_template (h : f.predicate tables = .ok t) (hne : f.conditions ≠ []) (rest : List Char) :
    Script.quoted? ((Script.templateText t).toList.tail ++ rest) = some (Script.body t, rest) := by
  obtain ⟨n, q, hquote, hodd, hdelimiter, hinside⟩ := exists_delimiter h hne
  rw [Script.toList_templateText, hdelimiter, List.tail_cons, List.append_assoc, List.append_assoc]
  exact hinside.quoted?_eq_some hodd hquote rest

/-- The delimiter of a filter's template is an odd run of one quote.  What is inside is not empty and does not start
with that quote, and the delimiter comes first in it, and in the run that closes it, at the very end; so a reader finds
what is inside, whatever follows. -/
theorem template_delimited (h : f.predicate tables = .ok t) (hne : f.conditions ≠ []) :
    ∃ n q, (q = '"' ∨ q = '\x27') ∧ n % 2 = 1 ∧
      (Script.templateText t).toList = 's' :: (List.replicate n q ++ (Script.body t ++ List.replicate n q)) ∧
      Script.body t ≠ [] ∧ (Script.body t).head? ≠ some q ∧
      (∀ before after, Script.body t ++ List.replicate n q = before ++ (List.replicate n q ++ after) →
        before = Script.body t ∧ after = []) ∧
      ∀ rest, Script.quoted? ((Script.templateText t).toList.tail ++ rest) = some (Script.body t, rest) := by
  obtain ⟨n, q, hquote, hodd, hdelimiter, hinside⟩ := exists_delimiter h hne
  have htext := Script.toList_templateText t
  rw [hdelimiter] at htext
  exact ⟨n, q, hquote, hodd, htext, hinside.nonempty, fun hhead => hinside.head q hhead rfl,
    fun _ _ heq => hinside.eq_of_append_eq heq, quoted?_template h hne⟩

/-- A value that holds quotes of both kinds, one of them at its start and at its end. -/
theorem template_delimited_quotes :
    let f : Filter := ⟨.and, [⟨.ofTable ⟨"s"⟩ "id", .equal, .literal (.string "\"it's\"")⟩]⟩
    f.conditions ≠ [] ∧ ∃ t n q, f.predicate school.tables = .ok t ∧ (q = '"' ∨ q = '\x27') ∧ n % 2 = 1 ∧
      (Script.templateText t).toList = 's' :: (List.replicate n q ++ (Script.body t ++ List.replicate n q)) ∧
      ∀ rest, Script.quoted? ((Script.templateText t).toList.tail ++ rest) = some (Script.body t, rest) := by
  intro f
  have hne : f.conditions ≠ [] := List.cons_ne_nil _ _
  obtain ⟨t, ht⟩ : ∃ t, f.predicate school.tables = .ok t := ⟨_, rfl⟩
  obtain ⟨n, q, hquote, hodd, htext, -, -, -, hread⟩ := template_delimited ht hne
  exact ⟨hne, t, n, q, ht, hquote, hodd, htext, hread⟩

-- a text that starts with a double quote and ends in a single one loses its end
example : let cs := ['"', ' ', '\x27']
    Script.quoted? (Script.delimiter cs ++ (cs ++ Script.delimiter cs)) = some (['"', ' '], ['\x27']) := by decide

end Filter

end TableFlow
