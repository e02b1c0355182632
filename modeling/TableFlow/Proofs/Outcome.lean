import TableFlow.Cause

/-!
# Outcomes

A computation that can be at fault ends in a value or in an error.  The lemmas here take such a computation apart: a
sequence of two (`bind_eq_ok_iff`, `bind_eq_error_iff`), and a traversal of a list (`mapM_eq_ok_iff`,
`exists_mapM_eq_ok_iff`, `exists_of_mapM_eq_error`).  Runs through a list are compared member by member
(`foldlM_congr`), also when they agree only in what is seen of them (`map_foldlM_congr`).
-/

namespace TableFlow

section Sequences

variable {ε α β : Type}

theorem bind_eq_ok_iff {x : Except ε α} {f : α → Except ε β} {b : β} :
    (x >>= f) = .ok b ↔ ∃ a, x = .ok a ∧ f a = .ok b := by
  cases x <;> simp [bind, Except.bind]

theorem bind_eq_error_iff {x : Except ε α} {f : α → Except ε β} {e : ε} :
    (x >>= f) = .error e ↔ x = .error e ∨ ∃ a, x = .ok a ∧ f a = .error e := by
  cases x <;> simp [bind, Except.bind]

theorem map_eq_ok_iff {x : Except ε α} {f : α → β} {b : β} : x.map f = .ok b ↔ ∃ a, x = .ok a ∧ f a = b := by
  cases x <;> simp [Except.map]

theorem map_eq_error_iff {x : Except ε α} {f : α → β} {e : ε} : x.map f = .error e ↔ x = .error e := by
  cases x <;> simp [Except.map]

theorem mapError_eq_ok_iff {ε' : Type} {x : Except ε α} {f : ε → ε'} {a : α} : x.mapError f = .ok a ↔ x = .ok a := by
  cases x with
  | ok b => exact ⟨fun h => congrArg Except.ok (Except.ok.inj h), fun h => congrArg Except.ok (Except.ok.inj h)⟩
  | error e => exact ⟨nofun, nofun⟩

theorem mapError_eq_error_iff {ε' : Type} {x : Except ε α} {f : ε → ε'} {e' : ε'} :
    x.mapError f = .error e' ↔ ∃ e, x = .error e ∧ f e = e' := by
  cases x with
  | ok b => exact ⟨nofun, nofun⟩
  | error e =>
    constructor
    · intro h
      exact ⟨e, rfl, Except.error.inj h⟩
    · rintro ⟨_, h, rfl⟩
      cases h
      rfl

theorem toOption_eq_some_iff {x : Except ε α} {a : α} : x.toOption = some a ↔ x = .ok a := by
  cases x with
  | ok b => exact ⟨fun h => congrArg Except.ok (Option.some.inj h), fun h => congrArg some (Except.ok.inj h)⟩
  | error e => exact ⟨nofun, nofun⟩

/-- A traversal succeeds with the list of what it gets for each member. -/
theorem mapM_eq_ok_iff {f : α → Except ε β} {l : List α} {bs : List β} :
    l.mapM f = .ok bs ↔ l.map f = bs.map .ok := by
  induction l generalizing bs with
  | nil => cases bs <;> simp [pure, Except.pure]
  | cons a l ih =>
    simp only [List.mapM_cons, bind_eq_ok_iff, pure, Except.pure, Except.ok.injEq, ih, List.map_cons]
    constructor
    · rintro ⟨b, hb, bs', hbs, rfl⟩
      rw [hb, hbs, List.map_cons]
    · intro h
      cases bs with
      | nil => simp at h
      | cons b bs =>
        rw [List.map_cons, List.cons.injEq] at h
        exact ⟨b, h.1, bs, h.2, rfl⟩

theorem getElem?_of_mapM_eq_ok {f : α → Except ε β} {l : List α} {bs : List β} (h : l.mapM f = .ok bs)
    {i : Nat} {a : α} (ha : l[i]? = some a) : ∃ b, bs[i]? = some b ∧ f a = .ok b := by
  have hi := congrArg (·[i]?) (mapM_eq_ok_iff.1 h)
  simp only [List.getElem?_map, ha, Option.map_some] at hi
  obtain ⟨b, hb, hfb⟩ := Option.map_eq_some_iff.1 hi.symm
  exact ⟨b, hb, hfb.symm⟩

/-- A traversal succeeds if it succeeds for each member. -/
theorem exists_mapM_eq_ok_iff {f : α → Except ε β} {l : List α} :
    (∃ bs, l.mapM f = .ok bs) ↔ ∀ a ∈ l, ∃ b, f a = .ok b := by
  simp only [mapM_eq_ok_iff]
  induction l with
  | nil => exact ⟨fun _ _ h => absurd h List.not_mem_nil, fun _ => ⟨[], rfl⟩⟩
  | cons a l ih =>
    rw [List.forall_mem_cons, ← ih]
    constructor
    · rintro ⟨bs, hbs⟩
      cases bs with
      | nil => simp at hbs
      | cons b bs =>
        rw [List.map_cons, List.map_cons, List.cons.injEq] at hbs
        exact ⟨⟨b, hbs.1⟩, bs, hbs.2⟩
    · rintro ⟨⟨b, hb⟩, bs, hbs⟩
      exact ⟨b :: bs, by rw [List.map_cons, List.map_cons, hb, hbs]⟩

/-- The error of a traversal is that of a member. -/
theorem exists_of_mapM_eq_error {f : α → Except ε β} {l : List α} {e : ε} (h : l.mapM f = .error e) :
    ∃ a ∈ l, f a = .error e := by
  induction l with
  | nil => cases h
  | cons a l ih =>
    simp only [List.mapM_cons, bind_eq_error_iff, pure, Except.pure, reduceCtorEq, and_false, exists_false,
      or_false] at h
    rcases h with h | ⟨_, _, h⟩
    · exact ⟨a, List.mem_cons_self, h⟩
    · obtain ⟨b, hb, he⟩ := ih h
      exact ⟨b, List.mem_cons_of_mem _ hb, he⟩

/-- A traversal that succeeds goes on to do so where its function succeeds more often. -/
theorem mapM_eq_ok_mono {f g : α → Except ε β} {l : List α} {bs : List β}
    (h : ∀ a ∈ l, ∀ b, f a = .ok b → g a = .ok b) (hl : l.mapM f = .ok bs) : l.mapM g = .ok bs := by
  rw [mapM_eq_ok_iff] at hl ⊢
  rw [← hl]
  refine List.map_congr_left fun a ha => ?_
  have hmem : f a ∈ bs.map Except.ok := hl ▸ List.mem_map_of_mem ha
  obtain ⟨b, -, hb⟩ := List.mem_map.1 hmem
  rw [← hb, h a ha b hb.symm]

/-- Two runs through a list come out alike if they do the same at each member. -/
theorem foldlM_congr {f g : β → α → Except ε β} {l : List α} (h : ∀ a ∈ l, ∀ b, f b a = g b a) (b : β) :
    l.foldlM f b = l.foldlM g b := by
  induction l generalizing b with
  | nil => rfl
  | cons a l ih =>
    have hrest : ∀ b, l.foldlM f b = l.foldlM g b := ih fun a' ha' => h a' (List.mem_cons_of_mem a ha')
    rw [List.foldlM_cons, List.foldlM_cons, h a List.mem_cons_self]
    exact congrArg (g b a >>= ·) (funext hrest)

theorem map_bind_eq {γ : Type} (x : Except ε α) (f : α → Except ε β) (g : β → γ) :
    (x >>= f).map g = x >>= fun a => (f a).map g := by
  cases x <;> rfl

theorem mapError_bind_eq {ε' : Type} (x : Except ε α) (f : α → Except ε β) (g : ε → ε') :
    (x >>= f).mapError g = x.mapError g >>= fun a => (f a).mapError g := by
  cases x <;> rfl

/-- Two sequences come out alike if they go on alike from what their first part gives. -/
theorem bind_congr_of_eq_ok {x : Except ε α} {f f' : α → Except ε β} (h : ∀ a, x = .ok a → f' a = f a) :
    (x >>= f') = (x >>= f) := by
  cases x with
  | error e => rfl
  | ok a => exact h a rfl

/-- Two sequences come out alike if their first parts agree in what their second parts look at. -/
theorem bind_congr_of_map_eq {γ : Type} {x x' : Except ε α} {g : α → γ} {f f' : α → Except ε β}
    (hx : x'.map g = x.map g) (hf : ∀ a a', g a' = g a → f' a' = f a) : (x' >>= f') = (x >>= f) := by
  cases x with
  | error e =>
    have hx' : x' = .error e := map_eq_error_iff.1 hx
    rw [hx']
    rfl
  | ok a =>
    obtain ⟨a', hx', ha'⟩ := map_eq_ok_iff.1 hx
    rw [hx']
    exact hf a a' ha'

/-- Two runs, the second one through other members, agree in what is seen of them if that is so at each member. -/
theorem map_foldlM_congr {γ : Type} {g : β → γ} {f : β → α → Except ε β} {t : α → α} {l : List α}
    (h : ∀ a ∈ l, ∀ b b', g b' = g b → (f b' (t a)).map g = (f b a).map g) {b b' : β} (hb : g b' = g b) :
    ((l.map t).foldlM f b').map g = (l.foldlM f b).map g := by
  induction l generalizing b b' with
  | nil => exact congrArg Except.ok hb
  | cons a l ih =>
    have hrest : ∀ b b', g b' = g b → ((l.map t).foldlM f b').map g = (l.foldlM f b).map g :=
      fun _ _ => ih fun a' ha' => h a' (List.mem_cons_of_mem a ha')
    rw [List.map_cons, List.foldlM_cons, List.foldlM_cons, map_bind_eq, map_bind_eq]
    exact bind_congr_of_map_eq (h a List.mem_cons_self b b' hb) hrest

end Sequences

end TableFlow
