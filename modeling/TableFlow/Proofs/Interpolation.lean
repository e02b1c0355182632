import Mathlib.Data.List.TakeWhile
import TableFlow.Proofs.Delimiters

/-!
# Templates that are read again

How a template is read: its delimiters are taken off, its escapes are undone, and what is left is split into characters
and places, in which a column stands bare or between backquotes (`Script.Escapes.template?`).  A backslash always starts
an escape.  In the texts of a template backslashes are doubled, in its columns they are not; and a name between
backquotes ends at the first one.  So a filter is read as it was written exactly if none of its columns has a backslash
or a backquote in its name (`Filter.template_read_iff`), whatever else the names and the values hold.
-/

namespace TableFlow.Script

/-! ### Reading unit by unit -/

/-- A reader of the first unit of a text, with what follows it. -/
structure Scanner (α : Type) where
  first? : List Char → Option (α × List Char)
  suffix : ∀ c cs a rest, first? (c :: cs) = some (a, rest) → rest <:+ cs

namespace Scanner

variable {α : Type} {s : Scanner α} {cs rest : List Char} {a : α}

/-- The units of a text. -/
def all? (s : Scanner α) (cs : List Char) : Option (List α) :=
  match cs with
  | [] => some []
  | c :: cs =>
    match h : s.first? (c :: cs) with
    | none => none
    | some (a, rest) =>
      have : rest.length < cs.length + 1 := Nat.lt_succ_of_le (s.suffix c cs a rest h).length_le
      (s.all? rest).map (a :: ·)
termination_by cs.length

private theorem all?_nil (s : Scanner α) : s.all? [] = some [] := by
  rw [all?]

private theorem all?_of_first? {c : Char} (h : s.first? (c :: cs) = some (a, rest)) :
    s.all? (c :: cs) = (s.all? rest).map (a :: ·) := by
  rw [all?]
  split
  · rename_i hnone
    rw [h] at hnone
    cases hnone
  · rename_i hsome
    rw [h] at hsome
    cases hsome
    rfl

private theorem all?_append {chars : List Char} (hne : chars ≠ []) (h : s.first? (chars ++ rest) = some (a, rest)) :
    s.all? (chars ++ rest) = (s.all? rest).map (a :: ·) := by
  obtain ⟨c, cs, rfl⟩ := List.exists_cons_of_ne_nil hne
  exact all?_of_first? h

/-- What holds of no text and goes from the rest of a text to the text holds of all that is read. -/
private theorem all?_induction {motive : List Char → List α → Prop} (nil : motive [] [])
    (next : ∀ cs a rest as, s.first? cs = some (a, rest) → motive rest as → motive cs (a :: as)) {as : List α}
    (h : s.all? cs = some as) : motive cs as := by
  fun_induction all? s cs generalizing as with
  | case1 =>
    cases h
    exact nil
  | case2 => cases h
  | case3 c cs a rest hfirst _ ih =>
    obtain ⟨as, has, rfl⟩ := Option.map_eq_some_iff.1 h
    exact next _ _ _ _ hfirst (ih has)

end Scanner

/-! ### Escapes -/

/-- The escapes of a reader, but for the doubled backslash, which stands for one. -/
structure Escapes where
  /-- The character that an escape stands for, with what follows the escape, given what follows its backslash. -/
  read? : List Char → Option (Char × List Char)
  /-- An escape is at least one character long behind its backslash and holds no other backslash, nor a backquote. -/
  exists_taken : ∀ cs c rest, read? cs = some (c, rest) →
    ∃ taken, taken ≠ [] ∧ '\\' ∉ taken ∧ '\x60' ∉ taken ∧ cs = taken ++ rest

namespace Escapes

variable {e : Escapes} {cs rest : List Char}

/-- The first character of a text whose escapes are undone. -/
def first? (e : Escapes) : List Char → Option (Char × List Char)
  | [] => none
  | c :: cs =>
    if c = '\\' then
      if cs.head? = some '\\' then some ('\\', cs.drop 1) else e.read? cs
    else some (c, cs)

private theorem first?_suffix {c d : Char} (h : e.first? (c :: cs) = some (d, rest)) : rest <:+ cs := by
  rw [first?] at h
  split at h
  · split at h
    · cases h
      exact List.drop_suffix 1 cs
    · obtain ⟨taken, -, -, -, rfl⟩ := e.exists_taken cs d rest h
      exact List.suffix_append taken rest
  · cases h
    exact List.suffix_refl cs

/-- The text whose escapes are undone. -/
def undo? (e : Escapes) (cs : List Char) : Option (List Char) :=
  Scanner.all? ⟨e.first?, fun _ _ _ _ => first?_suffix⟩ cs

private theorem undo?_append (h : '\\' ∉ cs) : e.undo? (cs ++ rest) = (e.undo? rest).map (cs ++ ·) := by
  induction cs with
  | nil => simp
  | cons c cs ih =>
    rw [List.mem_cons, not_or] at h
    have hfirst : e.first? (c :: (cs ++ rest)) = some (c, cs ++ rest) := by
      rw [first?, if_neg fun heq => h.1 heq.symm]
    have hread : e.undo? (c :: (cs ++ rest)) = (e.undo? (cs ++ rest)).map (c :: ·) := Scanner.all?_of_first? hfirst
    rw [List.cons_append, hread, ih h.2, Option.map_map]
    rfl

private theorem undo?_backslash : e.undo? ('\\' :: '\\' :: rest) = (e.undo? rest).map ('\\' :: ·) :=
  Scanner.all?_of_first? rfl

/-- Escapes that are one character long behind the backslash, with what they stand for. -/
def letterTable : List (Char × Char) :=
  [('n', '\n'), ('r', '\r'), ('t', '\t'), ('b', '\x08'), ('f', '\x0c'), ('/', '/'), ('"', '"'), ('\x27', '\x27')]

/-- A reader that knows these escapes. -/
def letters : Escapes where
  read?
    | [] => none
    | c :: cs => (letterTable.lookup c).map (·, cs)
  exists_taken := by
    intro cs d rest h
    cases cs with
    | nil => cases h
    | cons c cs =>
      obtain ⟨d', hlookup, heq⟩ := Option.map_eq_some_iff.1 h
      cases heq
      obtain ⟨before, after, hentries, -⟩ := List.lookup_eq_some_iff.1 hlookup
      have hall : ∀ entry ∈ letterTable, entry.1 ≠ '\\' ∧ entry.1 ≠ '\x60' := by decide
      obtain ⟨hbackslash, hquote⟩ := hall (c, d) (hentries ▸ List.mem_append_right _ List.mem_cons_self)
      refine ⟨[c], List.cons_ne_nil _ _, ?_, ?_, rfl⟩
      · exact fun hmem => hbackslash (List.mem_singleton.1 hmem).symm
      · exact fun hmem => hquote (List.mem_singleton.1 hmem).symm

end Escapes

/-! ### Places -/

/-- A name that stands bare or between backquotes, and what follows it. -/
def name? : List Char → Option (String × List Char)
  | [] => none
  | c :: cs =>
    if c = '\x60' then
      match cs.dropWhile (· != '\x60') with
      | [] => none
      | _ :: rest => some (.ofList (cs.takeWhile (· != '\x60')), rest)
    else if startsName c then some (.ofList (c :: cs.takeWhile continuesName), cs.dropWhile continuesName)
    else none

/-- The column in a place that was opened, and what follows the place. -/
def place? (cs : List Char) : Option (String × List Char) := do
  let written ← cs.dropPrefix? ['t', 'h', 'i', 's', '.']
  let (name, behind) ← name? written
  let rest ← behind.dropPrefix? ['\x7d']
  return (name, rest)

/-- The first atom of a template whose escapes are undone.  Braces that are text are doubled. -/
def atom? : List Char → Option (Atom × List Char)
  | [] => none
  | c :: cs =>
    if c ≠ '\x7b' ∧ c ≠ '\x7d' then some (.char c, cs)
    else if cs.head? = some c then some (.char c, cs.drop 1)
    else if c = '\x7b' then (place? cs).map fun (name, rest) => (.column name, rest)
    else none

section Places

variable {cs rest : List Char} {name : String}

/-- What is read as a name is written bare or between backquotes, and there is none in it. -/
private theorem exists_written_of_name? (h : name? cs = some (name, rest)) :
    Unquoted name ∧ ∃ written, cs = written ++ rest ∧
      (written = name.toList ∨ written = '\x60' :: (name.toList ++ ['\x60'])) := by
  cases cs with
  | nil => cases h
  | cons c cs =>
    rw [name?] at h
    split at h
    · rename_i hc
      split at h
      · cases h
      · rename_i d rest' hbehind
        cases h
        have hclose : d = '\x60' := by
          have := List.head?_dropWhile_not (· != '\x60') cs
          rw [hbehind] at this
          simpa using this
        refine ⟨?_, '\x60' :: (cs.takeWhile (· != '\x60') ++ ['\x60']), ?_, Or.inr (by rw [String.toList_ofList])⟩
        · rw [Unquoted, String.toList_ofList]
          intro hmem
          simpa using List.mem_takeWhile_imp hmem
        · have hsplit := List.takeWhile_append_dropWhile (p := (· != '\x60')) (l := cs)
          rw [hbehind, hclose] at hsplit
          rw [hc, List.cons_append, List.append_assoc, List.singleton_append, hsplit]
    · split at h
      · rename_i hc
        cases h
        refine ⟨?_, c :: cs.takeWhile continuesName, ?_, Or.inl (by rw [String.toList_ofList])⟩
        · rw [Unquoted, String.toList_ofList, List.mem_cons, not_or]
          refine ⟨?_, fun hmem => ?_⟩
          · rintro rfl
            cases hc
          · have := List.mem_takeWhile_imp hmem
            cases this
        · rw [List.cons_append, List.takeWhile_append_dropWhile]
      · cases h

private theorem name?_append (h : Unquoted name) (hrest : Stops continuesName rest) :
    name? ((nameText name).toList ++ rest) = some (name, rest) := by
  rcases toList_nameText name with ⟨hword, hname⟩ | hname
  · rw [hname]
    cases hchars : name.toList with
    | nil =>
      rw [hchars] at hword
      cases hword
    | cons c cs =>
      have hrun := continuesName_of_isWord hword
      rw [hchars, isWord, Bool.and_eq_true] at hword
      rw [hchars, List.forall_mem_cons] at hrun
      have hc : c ≠ '\x60' := by
        rintro rfl
        cases hword.1
      rw [List.cons_append, name?, if_neg hc, if_pos hword.1, takeWhile_run hrun.2 hrest, dropWhile_run hrun.2 hrest,
        ← hchars, String.ofList_toList]
  · have hrun : ∀ c ∈ name.toList, (c != '\x60') = true := by
      intro c hc
      simpa using fun heq : c = '\x60' => h (heq ▸ hc)
    have hstops : Stops (· != '\x60') ('\x60' :: rest) := .cons rfl rest
    rw [hname, List.cons_append, name?, if_pos rfl, List.append_assoc, List.singleton_append,
      takeWhile_run hrun hstops, dropWhile_run hrun hstops, String.ofList_toList]

private theorem exists_written_of_place? (h : place? cs = some (name, rest)) : Unquoted name ∧
    ∃ written, cs = ['t', 'h', 'i', 's', '.'] ++ (written ++ '\x7d' :: rest) ∧
      (written = name.toList ∨ written = '\x60' :: (name.toList ++ ['\x60'])) := by
  simp only [place?, Option.bind_eq_bind, Option.bind_eq_some_iff, Option.pure_def, Option.some.injEq,
    Prod.mk.injEq] at h
  obtain ⟨written, hthis, ⟨name', behind⟩, hname, rest', hclose, rfl, rfl⟩ := h
  obtain ⟨opening, rfl, hopening⟩ := List.dropPrefix?_eq_some_iff.1 hthis
  obtain ⟨closing, rfl, hclosing⟩ := List.dropPrefix?_eq_some_iff.1 hclose
  obtain ⟨hunquoted, chars, rfl, hchars⟩ := exists_written_of_name? hname
  rw [eq_of_beq hopening, eq_of_beq hclosing]
  exact ⟨hunquoted, chars, by simp, hchars⟩

private theorem place?_append (h : Unquoted name) :
    place? ((columnText name).toList ++ '\x7d' :: rest) = some (name, rest) := by
  have hname : name? ((nameText name).toList ++ '\x7d' :: rest) = some (name, '\x7d' :: rest) :=
    name?_append h (.cons rfl rest)
  have hthis : ((columnText name).toList ++ '\x7d' :: rest).dropPrefix? ['t', 'h', 'i', 's', '.'] =
      some ((nameText name).toList ++ '\x7d' :: rest) := by
    rw [toList_columnText, List.append_assoc]
    exact List.dropPrefix?_append_of_beq _ (beq_self_eq_true _)
  simp [place?, hthis, hname, List.dropPrefix?]

private theorem atom?_suffix {c : Char} {a : Atom} (h : atom? (c :: cs) = some (a, rest)) : rest <:+ cs := by
  rw [atom?] at h
  split at h
  · cases h
    exact List.suffix_refl cs
  split at h
  · cases h
    exact List.drop_suffix 1 cs
  split at h
  · obtain ⟨⟨name, rest'⟩, hplace, heq⟩ := Option.map_eq_some_iff.1 h
    cases heq
    obtain ⟨-, written, rfl, -⟩ := exists_written_of_place? hplace
    exact ⟨['t', 'h', 'i', 's', '.'] ++ (written ++ ['\x7d']), by simp⟩
  · cases h

end Places

/-- The atoms of a template whose escapes are undone. -/
def atoms? (cs : List Char) : Option (List Atom) :=
  Scanner.all? ⟨atom?, fun _ _ _ _ => atom?_suffix⟩ cs

end TableFlow.Script

namespace TableFlow

/-! ### What was written is read -/

namespace Atom

/-- The atom inside a template's delimiters when the escapes are undone. -/
def shown : Atom → List Char
  | char c => if c = '\x7b' ∨ c = '\x7d' then [c, c] else [c]
  | column name => (column name).chars

/-- The name in the atom holds no backslash. -/
def Unescaped : Atom → Prop
  | char _ => True
  | column name => '\\' ∉ name.toList

open Script

private theorem backslash_mem_of_mem_chars {name : String} (h : '\\' ∈ (column name).chars) : '\\' ∈ name.toList := by
  have hname : '\\' ∈ (nameText name).toList := by simpa [chars, toList_columnText] using h
  rcases toList_nameText name with ⟨-, heq⟩ | heq <;> rw [heq] at hname
  · exact hname
  · simpa using hname

private theorem chars_char_of_ne {c : Char} (hc : c ≠ '\\') :
    (char c).chars = (char c).shown ∧ '\\' ∉ (char c).shown := by
  refine ⟨by simp [chars, shown, escaped, hc], fun hmem => hc ?_⟩
  rw [shown] at hmem
  split at hmem <;> simpa [eq_comm] using hmem

private theorem undo?_chars (e : Escapes) {a : Atom} (ha : a.Unescaped) (rest : List Char) :
    e.undo? (a.chars ++ rest) = (e.undo? rest).map (a.shown ++ ·) := by
  cases a with
  | char c =>
    by_cases hc : c = '\\'
    · subst hc
      exact Escapes.undo?_backslash
    · rw [(chars_char_of_ne hc).1]
      exact Escapes.undo?_append (chars_char_of_ne hc).2
  | column name =>
    exact Escapes.undo?_append fun hmem => ha (backslash_mem_of_mem_chars hmem)

private theorem atom?_shown {a : Atom} (ha : a.Plain) (rest : List Char) :
    atom? (a.shown ++ rest) = some (a, rest) := by
  cases a with
  | char c =>
    by_cases hc : c = '\x7b' ∨ c = '\x7d'
    · have hbrace : ¬(c ≠ '\x7b' ∧ c ≠ '\x7d') := fun h => hc.elim h.1 h.2
      have hdoubled : ([c] ++ rest).head? = some c := rfl
      rw [shown, if_pos hc, List.cons_append, atom?, if_neg hbrace, if_pos hdoubled]
      rfl
    · rw [shown, if_neg hc, List.cons_append, atom?, if_pos (not_or.1 hc)]
      rfl
  | column name =>
    have hplace : place? ((columnText name).toList ++ '\x7d' :: rest) = some (name, rest) := place?_append ha
    have hshown : (column name).shown ++ rest = '\x7b' :: ((columnText name).toList ++ '\x7d' :: rest) := by
      simp [shown, chars]
    have hthis : ((columnText name).toList ++ '\x7d' :: rest).head? ≠ some '\x7b' := by
      simp [toList_columnText]
    rw [hshown, atom?, if_neg (by decide), if_neg hthis, if_pos rfl, hplace]
    rfl

private theorem undo?_flatMap_chars (e : Escapes) {atoms : List Atom} (h : ∀ a ∈ atoms, a.Unescaped) :
    e.undo? (atoms.flatMap chars) = some (atoms.flatMap shown) := by
  induction atoms with
  | nil => exact Scanner.all?_nil _
  | cons a atoms ih =>
    rw [List.forall_mem_cons] at h
    rw [List.flatMap_cons, undo?_chars e h.1, ih h.2]
    rfl

private theorem atoms?_flatMap_shown {atoms : List Atom} (h : ∀ a ∈ atoms, a.Plain) :
    atoms? (atoms.flatMap shown) = some atoms := by
  induction atoms with
  | nil => exact Scanner.all?_nil _
  | cons a atoms ih =>
    rw [List.forall_mem_cons] at h
    have hne : a.shown ≠ [] := by
      cases a with
      | char c =>
        rw [shown]
        split <;> exact List.cons_ne_nil _ _
      | column name => exact List.cons_ne_nil _ _
    have hread : atoms? (a.shown ++ atoms.flatMap shown) = (atoms? (atoms.flatMap shown)).map (a :: ·) :=
      Scanner.all?_append hne (atom?_shown h.1 _)
    rw [List.flatMap_cons, hread, ih h.2]
    rfl

end Atom

/-! ### What is read back was written plainly -/

namespace Script

/-- The characters of a text that are no backquotes.  A name has as many of them with backquotes as without. -/
def weight (cs : List Char) : Nat :=
  cs.countP (· != '\x60')

private theorem weight_append (cs ds : List Char) : weight (cs ++ ds) = weight cs + weight ds :=
  List.countP_append

private theorem weight_cons (c : Char) (cs : List Char) :
    weight (c :: cs) = weight cs + if c = '\x60' then 0 else 1 := by
  rw [weight, List.countP_cons]
  by_cases hc : c = '\x60' <;> simp [hc, weight]

/-- Undoing escapes takes away at least half a character for each backslash. -/
private theorem Escapes.weight_undo? {e : Escapes} {cs ds : List Char} (h : e.undo? cs = some ds) :
    2 * weight ds + cs.count '\\' ≤ 2 * weight cs := by
  refine Scanner.all?_induction (motive := fun cs ds => 2 * weight ds + cs.count '\\' ≤ 2 * weight cs)
    (Nat.le_refl 0) ?_ h
  intro cs d rest ds hfirst ih
  cases cs with
  | nil => cases hfirst
  | cons c cs =>
    change e.first? (c :: cs) = some (d, rest) at hfirst
    rw [first?] at hfirst
    split at hfirst
    · rename_i hc
      subst hc
      split at hfirst
      · rename_i hhead
        cases cs with
        | nil => cases hhead
        | cons c cs =>
          cases hhead
          cases hfirst
          simp only [List.drop_succ_cons, List.drop_zero, weight_cons, List.count_cons, Char.reduceEq, if_false,
            beq_self_eq_true, if_true] at ih ⊢
          omega
      · obtain ⟨taken, hne, hbackslash, hquote, rfl⟩ := e.exists_taken cs d rest hfirst
        have hlength : 0 < taken.length := List.length_pos_iff.2 hne
        have htaken : weight taken = taken.length :=
          List.countP_eq_length.2 fun c hc => by simpa using fun heq : c = '\x60' => hquote (heq ▸ hc)
        have hd : (if d = '\x60' then 0 else 1) ≤ 1 := by split <;> decide
        simp only [weight_cons, weight_append, htaken, List.count_cons, List.count_append,
          List.count_eq_zero_of_not_mem hbackslash, Char.reduceEq, if_false, beq_self_eq_true, if_true] at ih ⊢
        omega
    · rename_i hc
      cases hfirst
      simp only [weight_cons, List.count_cons_of_ne hc] at ih ⊢
      omega

private theorem weight_enclosed (cs : List Char) : weight ('\x60' :: (cs ++ ['\x60'])) = weight cs := by
  rw [weight_cons, weight_append]
  rfl

private theorem weight_nameText (name : String) : weight (nameText name).toList = weight name.toList := by
  rcases toList_nameText name with ⟨-, hname⟩ | hname
  · rw [hname]
  · rw [hname, weight_enclosed]

/-- The first atom of a text is found in it, but for backquotes. -/
private theorem weight_of_atom? {cs rest : List Char} {a : Atom} (h : atom? cs = some (a, rest)) :
    a.Plain ∧ weight cs = weight a.shown + weight rest := by
  cases cs with
  | nil => cases h
  | cons c cs =>
    rw [atom?] at h
    split at h
    · rename_i hc
      cases h
      rw [Atom.shown, if_neg (not_or.2 hc), ← weight_append]
      exact ⟨trivial, rfl⟩
    · rename_i hbrace
      split at h
      · rename_i hhead
        cases cs with
        | nil => cases hhead
        | cons d cs =>
          cases hhead
          cases h
          rw [Atom.shown, if_pos (or_iff_not_and_not.2 hbrace), ← weight_append]
          exact ⟨trivial, rfl⟩
      · split at h
        · rename_i hopen
          subst hopen
          obtain ⟨⟨name, rest'⟩, hplace, heq⟩ := Option.map_eq_some_iff.1 h
          cases heq
          obtain ⟨hname, written, rfl, hwritten⟩ := exists_written_of_place? hplace
          have hweight : weight written = weight (nameText name).toList := by
            rw [weight_nameText]
            rcases hwritten with rfl | rfl
            · rfl
            · exact weight_enclosed _
          refine ⟨hname, ?_⟩
          have hnil : weight [] = 0 := rfl
          simp only [Atom.shown, Atom.chars, toList_columnText, weight_append, weight_cons, hweight, hnil]
          omega
        · cases h

private theorem weight_of_atoms? {cs : List Char} {atoms : List Atom} (h : atoms? cs = some atoms) :
    (∀ a ∈ atoms, a.Plain) ∧ weight cs = weight (atoms.flatMap Atom.shown) := by
  refine Scanner.all?_induction
    (motive := fun cs atoms => (∀ a ∈ atoms, a.Plain) ∧ weight cs = weight (atoms.flatMap Atom.shown)) ?_ ?_ h
  · exact ⟨fun a ha => absurd ha List.not_mem_nil, rfl⟩
  · rintro cs a rest atoms hfirst ⟨hplain, hweight⟩
    obtain ⟨ha, hcs⟩ := weight_of_atom? hfirst
    rw [List.forall_mem_cons, List.flatMap_cons, weight_append, hcs, hweight]
    exact ⟨⟨ha, hplain⟩, rfl⟩

end Script

namespace Atom

open Script

/-- The characters of an atom that are written without an escape, whatever they are. -/
def loose : Atom → List Char
  | char _ => []
  | column name => name.toList

private theorem weight_chars (a : Atom) :
    2 * weight a.chars + a.loose.count '\\' = 2 * weight a.shown + a.chars.count '\\' := by
  cases a with
  | char c =>
    by_cases hc : c = '\\'
    · subst hc
      rfl
    · rw [(chars_char_of_ne hc).1, List.count_eq_zero_of_not_mem (chars_char_of_ne hc).2]
      rfl
  | column name =>
    have hcount : (column name).chars.count '\\' = name.toList.count '\\' := by
      simp only [chars, toList_columnText]
      rcases toList_nameText name with ⟨-, hname⟩ | hname <;> simp [hname, List.count_append]
    rw [hcount]
    rfl

private theorem weight_flatMap_chars (atoms : List Atom) :
    2 * weight (atoms.flatMap chars) + (atoms.flatMap loose).count '\\' =
      2 * weight (atoms.flatMap shown) + (atoms.flatMap chars).count '\\' := by
  induction atoms with
  | nil => rfl
  | cons a atoms ih =>
    have ha := weight_chars a
    simp only [List.flatMap_cons, weight_append, List.count_append]
    omega

/-- The atoms that are read are those that were written exactly if no name in them holds a backquote or a backslash. -/
private theorem read_iff (e : Escapes) (atoms : List Atom) :
    (e.undo? (atoms.flatMap chars)).bind atoms? = some atoms ↔ ∀ a ∈ atoms, a.Plain ∧ a.Unescaped := by
  constructor
  · intro h
    obtain ⟨cs, hundo, hread⟩ := Option.bind_eq_some_iff.1 h
    have hundone := Escapes.weight_undo? hundo
    obtain ⟨hplain, hweight⟩ := weight_of_atoms? hread
    have hwritten := weight_flatMap_chars atoms
    have hnone : (atoms.flatMap loose).count '\\' = 0 := by omega
    intro a ha
    refine ⟨hplain a ha, ?_⟩
    have hloose : '\\' ∉ a.loose := fun hmem => List.count_eq_zero.1 hnone (List.mem_flatMap.2 ⟨a, ha, hmem⟩)
    cases a with
    | char c => trivial
    | column name => exact hloose
  · intro h
    rw [undo?_flatMap_chars e fun a ha => (h a ha).2, Option.bind_some]
    exact atoms?_flatMap_shown fun a ha => (h a ha).1

end Atom

/-! ### Templates -/

/-- The template that a text starts with, and what follows it. -/
def Script.Escapes.template? (e : Script.Escapes) : List Char → Option (Template × List Char)
  | 's' :: cs => do
    let (inside, rest) ← Script.quoted? cs
    let atoms ← (e.undo? inside).bind Script.atoms?
    return (.ofPieces (atoms.map Atom.piece), rest)
  | _ => none

namespace Template

private theorem flatMap_atoms_push (p : Piece) (t : Template) :
    (push p t).flatMap Piece.atoms = (p :: t).flatMap Piece.atoms := by
  unfold push
  split
  · simp [Piece.atoms]
  · rfl

private theorem flatMap_atoms_ofPieces (pieces : List Piece) :
    (ofPieces pieces).flatMap Piece.atoms = pieces.flatMap Piece.atoms := by
  induction pieces with
  | nil => rfl
  | cons p pieces ih =>
    rw [ofPieces, List.foldr_cons, flatMap_atoms_push, List.flatMap_cons, List.flatMap_cons]
    exact congrArg (p.atoms ++ ·) ih

/-- A template that was put together from atoms has these atoms. -/
private theorem flatMap_atoms_ofPieces_map (atoms : List Atom) :
    (ofPieces (atoms.map Atom.piece)).flatMap Piece.atoms = atoms := by
  rw [flatMap_atoms_ofPieces, List.flatMap_map]
  induction atoms with
  | nil => rfl
  | cons a atoms ih =>
    rw [List.flatMap_cons, ih]
    cases a with
    | char c => simp [Atom.piece, Piece.atoms]
    | column name => rfl

private theorem forall_atoms_iff (t : Template) : (∀ a ∈ t.flatMap Piece.atoms, a.Plain ∧ a.Unescaped) ↔
    ∀ name ∈ t.mentions, Unquoted name ∧ '\\' ∉ name.toList := by
  constructor
  · intro h name hname
    obtain ⟨p, hp, hcolumn⟩ := List.mem_filterMap.1 hname
    cases p with
    | text s => cases hcolumn
    | column name' =>
      cases hcolumn
      exact h (.column name) (List.mem_flatMap.2 ⟨_, hp, List.mem_singleton_self _⟩)
  · intro h a ha
    obtain ⟨p, hp, ha⟩ := List.mem_flatMap.1 ha
    cases p with
    | text s =>
      obtain ⟨c, -, rfl⟩ := List.mem_map.1 ha
      exact ⟨trivial, trivial⟩
    | column name =>
      rw [List.mem_singleton.1 ha]
      exact h name (List.mem_filterMap.2 ⟨_, hp, rfl⟩)

end Template

namespace Filter

open Script (Escapes)

variable {f : Filter} {tables : List Table} {t : Template}

/-- The template of a filter is read as it was written exactly if no column in it has a backquote or a backslash in its
name. -/
theorem template_read_iff (h : f.predicate tables = .ok t) (hne : f.conditions ≠ []) (e : Escapes) (rest : List Char) :
    e.template? ((Script.templateText t).toList ++ rest) = some (t, rest) ↔
      ∀ name ∈ t.mentions, Unquoted name ∧ '\\' ∉ name.toList := by
  obtain ⟨pieces, rfl, hcondition⟩ := ofCondition h (predicate_ne_nil h hne)
  have hquoted := quoted?_template h hne rest
  generalize ht : Template.ofPieces pieces = t at hquoted
  have hbody : Script.body t = (t.flatMap Piece.atoms).flatMap Atom.chars := Template.body_eq_flatMap_atoms t
  -- the text starts with an s, and the reader finds the atoms that are inside
  have hread : e.template? ((Script.templateText t).toList ++ rest) =
      ((e.undo? (Script.body t)).bind Script.atoms?).map fun atoms => (.ofPieces (atoms.map Atom.piece), rest) := by
    rw [Script.toList_templateText, List.tail_cons] at hquoted
    rw [Script.toList_templateText, List.cons_append, Escapes.template?, hquoted]
    simp only [Option.bind_eq_bind, Option.bind_some, Option.pure_def, Option.map_eq_bind, Function.comp_def]
  rw [← Template.forall_atoms_iff, ← Atom.read_iff e, hread, hbody, Option.map_eq_some_iff]
  constructor
  · rintro ⟨atoms, hatoms, heq⟩
    rw [hatoms, ← (Prod.mk.inj heq).1, Template.flatMap_atoms_ofPieces_map]
  · intro hatoms
    refine ⟨_, hatoms, ?_⟩
    rw [← ht, Template.flatMap_atoms_ofPieces, Template.ofPieces_atoms hcondition.text_ne]

/-- A value and a name that hold braces, quotes and words of the script, and a value that holds backslashes. -/
theorem template_read_braces :
    let f : Filter := ⟨.or,
      [⟨.ofTable ⟨"s"⟩ "\x7bthis.id\x7d \"'", .equal, .literal (.string "\\n \x7bthis.x\x7d '\"")⟩]⟩
    f.conditions ≠ [] ∧ ∃ t, f.predicate school.tables = .ok t ∧
      (∀ name ∈ t.mentions, Unquoted name ∧ '\\' ∉ name.toList) ∧
      Escapes.letters.template? ((Script.templateText t).toList ++ ['\n']) = some (t, ['\n']) := by
  intro f
  have hne : f.conditions ≠ [] := List.cons_ne_nil _ _
  obtain ⟨t, ht⟩ : ∃ t, f.predicate school.tables = .ok t := ⟨_, rfl⟩
  have hnames : ∀ name ∈ t.mentions, Unquoted name ∧ '\\' ∉ name.toList := by
    cases ht
    decide
  exact ⟨hne, t, ht, hnames, (template_read_iff ht hne Escapes.letters ['\n']).2 hnames⟩

/-- Two backslashes in the name of a column are read as one. -/
theorem exists_template_read_ne :
    let f : Filter := ⟨.and, [⟨.ofTable ⟨"s"⟩ "a\\\\b", .isNull, .literal .null⟩]⟩
    ∃ t t', f.conditions ≠ [] ∧ f.predicate school.tables = .ok t ∧
      Escapes.letters.template? (Script.templateText t).toList = some (t', []) ∧ t' ≠ t :=
  ⟨[.column "students__a\\\\b", .text " IS NULL"], [.column "students__a\\b", .text " IS NULL"],
    List.cons_ne_nil _ _, rfl, by decide +kernel, by decide⟩

end Filter

end TableFlow
