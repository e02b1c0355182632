/-!
# Runs of characters

A text that is read from left to right is cut into runs of characters of one class.  A run that was written ends where
a character of another class follows (`takeWhile_run`, `dropWhile_run`).  The runs that numbers are written with are
those of digits.
-/

namespace TableFlow

/-- The text does not go on with a character of the class. -/
def Stops (p : Char → Bool) (rest : List Char) : Prop :=
  ∀ c, rest.head? = some c → p c = false

namespace Stops

variable {p : Char → Bool}

theorem nil : Stops p [] := by
  intro c h
  cases h

theorem cons {c : Char} (h : p c = false) (rest : List Char) : Stops p (c :: rest) := by
  intro d hd
  obtain rfl : c = d := by simpa using hd
  exact h

/-- A text that is written out ends the run in front of it, if its first character is of another class. -/
theorem literal {s : String} (h : (s.toList.head?.any fun c => !p c) = true) (rest : List Char) :
    Stops p (s.toList ++ rest) := by
  intro c hc
  cases hs : s.toList with
  | nil =>
    rw [hs] at h
    cases h
  | cons d cs =>
    rw [hs] at h hc
    obtain rfl : d = c := Option.some.inj hc
    simpa using h

theorem mono {q : Char → Bool} (h : ∀ c, p c = true → q c = true) {rest : List Char} (hrest : Stops q rest) :
    Stops p rest := by
  intro c hc
  rw [Bool.eq_false_iff]
  intro hp
  have hq := h c hp
  rw [hrest c hc] at hq
  cases hq

end Stops

section Runs

variable {p : Char → Bool} {run rest : List Char}

theorem takeWhile_run (hrun : ∀ c ∈ run, p c = true) (hrest : Stops p rest) : (run ++ rest).takeWhile p = run := by
  rw [List.takeWhile_append_of_pos hrun]
  cases rest with
  | nil => simp
  | cons c rest => simp [hrest c rfl]

theorem dropWhile_run (hrun : ∀ c ∈ run, p c = true) (hrest : Stops p rest) : (run ++ rest).dropWhile p = rest := by
  rw [List.dropWhile_append_of_pos hrun]
  cases rest with
  | nil => rfl
  | cons c rest => simp [hrest c rfl]

end Runs

/-! ### Digits -/

theorem isDigit_of_mem_toDigits {n : Nat} {c : Char} (h : c ∈ Nat.toDigits 10 n) : c.isDigit = true :=
  Nat.isDigit_of_mem_toDigits (by decide) (by decide) h

theorem ne_of_isDigit {c d : Char} (hc : c.isDigit = true) (hd : d.isDigit = false) : c ≠ d := by
  rintro rfl
  rw [hc] at hd
  cases hd

/-- No number but zero is written with a zero in front. -/
theorem head?_toDigits_ne_zero {n : Nat} (hn : n ≠ 0) : (Nat.toDigits 10 n).head? ≠ some '0' := by
  induction n using Nat.strongRecOn with
  | ind n ih =>
    by_cases hlt : n < 10
    · rw [Nat.toDigits_of_lt_base hlt]
      have hdigit : ∀ m < 10, m ≠ 0 → m.digitChar ≠ '0' := by decide
      simpa using hdigit n hlt hn
    · have hle : 10 ≤ n := Nat.le_of_not_lt hlt
      have hquotient : n / 10 ≠ 0 := by omega
      rw [Nat.toDigits_of_base_le (by decide) hle, List.head?_append]
      have := ih (n / 10) (by omega) hquotient
      cases hhead : (Nat.toDigits 10 (n / 10)).head? with
      | none => exact absurd (List.head?_eq_none_iff.1 hhead) Nat.toDigits_ne_nil
      | some c =>
        rw [hhead] at this
        simpa using this

/-- Zeros in front of a number do not count. -/
theorem ofDigitChars_zeros_append (k : Nat) (digits : List Char) :
    Nat.ofDigitChars 10 (List.replicate k '0' ++ digits) 0 = Nat.ofDigitChars 10 digits 0 := by
  rw [Nat.ofDigitChars_append, Nat.ofDigitChars_replicate_zero, Nat.mul_zero]

end TableFlow
