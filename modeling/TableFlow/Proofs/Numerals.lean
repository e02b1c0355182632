import TableFlow.Json.Writer
import TableFlow.Json.Token
import TableFlow.Proofs.Characters
import TableFlow.Proofs.Doubles

/-!
# Numbers that are read back

A decimal in positional form is a run of digits, with a point and another run behind it when there are places
(`Decimal.exists_positional_of_neg`).  In documents every number that is written is read as the value that it was
written for: an integer of 64 bits as that integer (`Json.Value.ofWord?_int`), and a double as that double, since its
text has a point or an exponent and the digits are those of its shortest decimal (`Json.Value.ofWord?_scientific`).
-/

namespace TableFlow

/-- A run of digits in front of a point: a zero stands alone. -/
structure IsWhole (run : List Char) : Prop where
  nonempty : run ≠ []
  digits : ∀ c ∈ run, c.isDigit = true
  alone : run.head? = some '0' → run.length = 1

private theorem isWhole_toDigits (n : Nat) : IsWhole (Nat.toDigits 10 n) where
  nonempty := Nat.toDigits_ne_nil
  digits _ h := isDigit_of_mem_toDigits h
  alone h := by
    by_cases hn : n = 0
    · rw [hn, Nat.toDigits_zero]
      rfl
    · exact absurd h (head?_toDigits_ne_zero hn)

/-- Digits, maybe with a point and more digits behind them. -/
def IsNumber (written : List Char) : Prop :=
  ∃ whole places, written = whole ++ places ∧ whole ≠ [] ∧ (∀ c ∈ whole, c.isDigit = true) ∧
    (places = [] ∨ ∃ digits, places = '.' :: digits ∧ ∀ c ∈ digits, c.isDigit = true)

theorem isNumber_toDigits (n : Nat) : IsNumber (Nat.toDigits 10 n) :=
  ⟨_, [], (List.append_nil _).symm, Nat.toDigits_ne_nil, fun _ h => isDigit_of_mem_toDigits h, .inl rfl⟩

theorem IsNumber.isDigit_or_eq_point {written : List Char} (h : IsNumber written) {c : Char} (hc : c ∈ written) :
    c.isDigit = true ∨ c = '.' := by
  obtain ⟨whole, places, rfl, -, hwhole, hplaces⟩ := h
  rcases List.mem_append.1 hc with hc | hc
  · exact .inl (hwhole c hc)
  · rcases hplaces with rfl | ⟨digits, rfl, hdigits⟩
    · exact absurd hc List.not_mem_nil
    · exact (List.mem_cons.1 hc).symm.imp (hdigits c) id

/-! ### Decimals in positional form -/

namespace Decimal

variable {c : Decimal}

private theorem positional_of_nonneg (h : 0 ≤ c.exponent) :
    c.positional = c.digitChars ++ List.replicate c.exponent.toNat '0' := by
  rw [positional, if_pos h]

/-- With places behind the point there is at least one digit in front of it. -/
theorem exists_positional_of_neg (h : c.exponent < 0) :
    ∃ whole fraction, c.positional = whole ++ '.' :: fraction ∧ IsWhole whole ∧ (∀ x ∈ fraction, x.isDigit = true) ∧
      (fraction.length : Int) = -c.exponent ∧ Nat.ofDigitChars 10 (whole ++ fraction) 0 = c.digits := by
  obtain ⟨places, hplaces⟩ : ∃ places, (-c.exponent).toNat = places := ⟨_, rfl⟩
  obtain ⟨padded, hpadded⟩ : ∃ padded, List.replicate (places + 1 - c.digitChars.length) '0' ++ c.digitChars = padded :=
    ⟨_, rfl⟩
  have hlength : padded.length = places + 1 - c.digitChars.length + c.digitChars.length := by
    rw [← hpadded, List.length_append, List.length_replicate]
  have hdigits : ∀ x ∈ padded, x.isDigit = true := by
    intro x hx
    rw [← hpadded, List.mem_append] at hx
    rcases hx with hx | hx
    · rw [(List.mem_replicate.1 hx).2]
      rfl
    · exact isDigit_of_mem_toDigits hx
  have hpositional : c.positional =
      padded.take (padded.length - places) ++ '.' :: padded.drop (padded.length - places) := by
    simp only [positional, if_neg (Int.not_le.2 h), hplaces, hpadded]
  refine ⟨_, _, hpositional, ⟨?_, fun x hx => hdigits x (List.mem_of_mem_take hx), ?_⟩,
    fun x hx => hdigits x (List.mem_of_mem_drop hx), ?_, ?_⟩
  · intro hnil
    have := congrArg List.length hnil
    rw [List.length_take, List.length_nil] at this
    omega
  · intro hhead
    rw [List.length_take]
    by_cases hshort : c.digitChars.length ≤ places
    · omega
    · -- nothing is padded, so the number is zero and has a single digit
      have hwhole : padded = c.digitChars := by
        rw [← hpadded, show places + 1 - c.digitChars.length = 0 by omega]
        rfl
      rw [List.head?_take, if_neg (by omega), hwhole] at hhead
      have := (isWhole_toDigits c.digits).alone hhead
      rw [digitChars] at hshort
      omega
  · rw [List.length_drop]
    omega
  · rw [List.take_append_drop, ← hpadded, ofDigitChars_zeros_append]
    exact Nat.ofDigitChars_ten_toDigits

theorem isNumber_positional (c : Decimal) : IsNumber c.positional := by
  by_cases h : 0 ≤ c.exponent
  · refine ⟨c.positional, [], (List.append_nil _).symm, ?_, ?_, .inl rfl⟩
    · rw [positional_of_nonneg h]
      exact fun hnil => Nat.toDigits_ne_nil (List.append_eq_nil_iff.1 hnil).1
    · intro x hx
      rw [positional_of_nonneg h, List.mem_append] at hx
      rcases hx with hx | hx
      · exact isDigit_of_mem_toDigits hx
      · rw [(List.mem_replicate.1 hx).2]
        rfl
  · obtain ⟨whole, fraction, hpositional, hwhole, hdigits, -, -⟩ := exists_positional_of_neg (Int.not_le.1 h)
    exact ⟨whole, '.' :: fraction, hpositional, hwhole.nonempty, hwhole.digits, .inr ⟨fraction, rfl, hdigits⟩⟩

end Decimal

/-! ### Texts of doubles -/

theorem Double.toList_plain (d : Double) :
    d.plain.toList = (if d.negative then ['-'] else []) ++ (d.shortest .up).positional := by
  have hsigned : d.plain = .ofList (if d.negative then '-' :: (d.shortest .up).positional
      else (d.shortest .up).positional) := rfl
  rw [hsigned, String.toList_ofList]
  cases d.negative <;> rfl

/-- A decimal as documents write it. -/
def Decimal.layout (c : Decimal) : List Char :=
  if -5 ≤ c.leadingExponent ∧ c.leadingExponent < 16 then
    c.positional ++ (if 0 ≤ c.exponent then ['.', '0'] else [])
  else c.withExponent

theorem Double.toList_scientific (d : Double) :
    d.scientific.toList = (if d.negative then ['-'] else []) ++ (d.shortest .even).layout := by
  have hsigned : d.scientific = .ofList (if d.negative then '-' :: (d.shortest .even).layout
      else (d.shortest .even).layout) := rfl
  rw [hsigned, String.toList_ofList]
  cases d.negative <;> rfl

namespace Json

/-! ### Reading numerals -/

namespace Numeral

variable {run rest : List Char}

theorem digits?_append (hne : run ≠ []) (hrun : ∀ c ∈ run, c.isDigit = true) (hrest : Stops Char.isDigit rest) :
    digits? (run ++ rest) = some (run, rest) := by
  rw [digits?, takeWhile_run hrun hrest, dropWhile_run hrun hrest]
  cases run with
  | nil => exact absurd rfl hne
  | cons c run => rfl

private theorem whole?_append (hrun : IsWhole run) (hrest : Stops Char.isDigit rest) :
    whole? (run ++ rest) = some (run, rest) := by
  have hnot : ¬(run.head? = some '0' ∧ run.length ≠ 1) := fun h => h.2 (hrun.alone h.1)
  simp [whole?, digits?_append hrun.nonempty hrun.digits hrest, hnot]

private theorem fraction?_point (hne : run ≠ []) (hrun : ∀ c ∈ run, c.isDigit = true)
    (hrest : Stops Char.isDigit rest) : fraction? ('.' :: (run ++ rest)) = some (run, rest) :=
  digits?_append hne hrun hrest

/-- A signed number, with what stands behind its whole part. -/
private theorem ofWord?_append {whole behind fraction rest : List Char} {exponent : Int} (negative : Bool)
    (hwhole : IsWhole whole) (hbehind : Stops Char.isDigit behind)
    (hfraction : fraction? behind = some (fraction, rest)) (hexponent : exponent? rest = some exponent) :
    ofWord? ((if negative then ['-'] else []) ++ (whole ++ behind)) =
      some ⟨negative, whole, fraction, exponent, behind.isEmpty⟩ := by
  have hread := whole?_append hwhole hbehind
  cases negative with
  | true => simp [ofWord?, hread, hfraction, hexponent]
  | false =>
    -- the first character is a digit, so it is no sign
    obtain ⟨c, more, rfl⟩ := List.exists_cons_of_ne_nil hwhole.nonempty
    have hc : c ≠ '-' := by
      rintro rfl
      exact absurd (hwhole.digits '-' List.mem_cons_self) (by decide)
    rw [if_neg (by decide), List.nil_append]
    unfold ofWord?
    split
    rename_i negative cs hsign
    split at hsign
    · rename_i h
      exact absurd (List.cons.inj h).1 hc
    · cases hsign
      rw [hread]
      simp [hfraction, hexponent]

/-- A number is none of the three names. -/
private theorem value_ofWord?_append {whole : List Char} (negative : Bool) (hwhole : IsWhole whole)
    (behind : List Char) :
    Value.ofWord? ((if negative then ['-'] else []) ++ (whole ++ behind)) =
      (ofWord? ((if negative then ['-'] else []) ++ (whole ++ behind))).map value := by
  obtain ⟨c, more, rfl⟩ := List.exists_cons_of_ne_nil hwhole.nonempty
  have hc := hwhole.digits c List.mem_cons_self
  have hne : ∀ d, d.isDigit = false → d ≠ '-' → ∀ name : List Char,
      (if negative then ['-'] else []) ++ (c :: more ++ behind) ≠ d :: name := by
    intro d hd hdash name h
    cases negative with
    | true => exact hdash (List.cons.inj h).1.symm
    | false =>
      rw [(List.cons.inj h).1, hd] at hc
      cases hc
  rw [Value.ofWord?, if_neg (hne 'n' (by decide) (by decide) _), if_neg (hne 't' (by decide) (by decide) _),
    if_neg (hne 'f' (by decide) (by decide) _)]

end Numeral

/-! ### Integers -/

/-- An integer is written with a sign and the digits of its size. -/
theorem toList_toString_int (n : Int) :
    (toString n).toList = (if decide (n < 0) then ['-'] else []) ++ Nat.toDigits 10 n.natAbs := by
  cases n with
  | ofNat m =>
    have hsign : decide (Int.ofNat m < 0) = false := by simp
    rw [hsign, if_neg (by decide), List.nil_append]
    exact Nat.toList_repr
  | negSucc m =>
    rw [decide_eq_true (Int.negSucc_lt_zero m), if_pos rfl]
    show ("-" ++ Nat.repr (m + 1)).toList = _
    rw [String.toList_append, Nat.toList_repr]
    rfl

/-- An integer of 64 bits is read back from its numeral. -/
theorem Value.ofWord?_int {n : Int} (hn : isExactInt n = true) : ofWord? (toString n).toList = some (.int n) := by
  have hwhole := isWhole_toDigits n.natAbs
  have hword := Numeral.ofWord?_append (decide (n < 0)) hwhole Stops.nil rfl rfl
  rw [List.append_nil] at hword
  have hvalue := Numeral.value_ofWord?_append (decide (n < 0)) hwhole []
  rw [List.append_nil] at hvalue
  rw [toList_toString_int, hvalue, hword]
  have hsize : ((Nat.ofDigitChars 10 (Nat.toDigits 10 n.natAbs) 0 : Nat) : Int) = n.natAbs :=
    congrArg _ Nat.ofDigitChars_ten_toDigits
  have hsigned : (if decide (n < 0) then -(n.natAbs : Int) else n.natAbs) = n := by
    by_cases h : n < 0
    · rw [decide_eq_true h, if_pos rfl]
      omega
    · rw [decide_eq_false h, if_neg (by decide)]
      omega
  have hzero : ¬(decide (n < 0) = true ∧ (n.natAbs : Int) = 0) := by
    rintro ⟨hneg, habs⟩
    have := of_decide_eq_true hneg
    omega
  simp only [Option.map_some, Numeral.value, hsize, hsigned]
  rw [if_pos ⟨rfl, hn, hzero⟩]

/-! ### Doubles -/

/-- A numeral with a point or an exponent is read as the double that its digits and its exponent make. -/
private theorem Value.ofWord?_double {negative : Bool} {whole behind fraction rest : List Char} {exponent : Int}
    {d : Double} (hwhole : IsWhole whole) (hbehind : Stops Char.isDigit behind) (hne : behind ≠ [])
    (hfraction : Numeral.fraction? behind = some (fraction, rest)) (hexponent : Numeral.exponent? rest = some exponent)
    (hread : Double.ofDecimal? negative (Nat.ofDigitChars 10 (whole ++ fraction) 0) (exponent - fraction.length) =
      some d) :
    ofWord? ((if negative then ['-'] else []) ++ (whole ++ behind)) = some (.double d) := by
  have hplain : behind.isEmpty = false := by simpa using hne
  rw [Numeral.value_ofWord?_append negative hwhole,
    Numeral.ofWord?_append negative hwhole hbehind hfraction hexponent, Option.map_some]
  simp [Numeral.value, Numeral.double, hplain, hread]

/-- An exponent is written with its sign. -/
private theorem Numeral.exponent?_signed (x : Int) :
    exponent? ('e' :: (if x < 0 then '-' else '+') :: Nat.toDigits 10 x.natAbs) = some x := by
  have hdigits : digits? (Nat.toDigits 10 x.natAbs ++ []) = some (Nat.toDigits 10 x.natAbs, []) :=
    digits?_append Nat.toDigits_ne_nil (fun _ h => isDigit_of_mem_toDigits h) Stops.nil
  rw [List.append_nil] at hdigits
  have hsize : ((Nat.ofDigitChars 10 (Nat.toDigits 10 x.natAbs) 0 : Nat) : Int) = x.natAbs :=
    congrArg _ Nat.ofDigitChars_ten_toDigits
  by_cases hx : x < 0
  · rw [if_pos hx]
    simp only [exponent?, exponentDigits?, hdigits, Option.bind_eq_bind, Option.bind_some, hsize, if_true]
    rw [Option.some.injEq]
    omega
  · rw [if_neg hx]
    simp only [exponent?, exponentDigits?, hdigits, Option.bind_eq_bind, Option.bind_some, hsize, Bool.false_eq_true,
      if_false]
    rw [Option.some.injEq]
    omega

section Layouts

variable {c : Decimal} {negative : Bool} {d : Double} (hread : Double.ofDecimal? negative c.digits c.exponent = some d)

include hread

/-- A whole number gets a point and a zero, which change the digits but not the number. -/
private theorem Value.ofWord?_positional_point (hnonneg : 0 ≤ c.exponent) (hle : c.exponent ≤ 400)
    (hzero : c.digits = 0 → c.exponent = 0) :
    ofWord? ((if negative then ['-'] else []) ++ (c.positional ++ ['.', '0'])) = some (.double d) := by
  obtain ⟨e, he⟩ : ∃ e : Nat, c.exponent = e := ⟨_, (Int.toNat_of_nonneg hnonneg).symm⟩
  have hpositional : c.positional = c.digitChars ++ List.replicate e '0' := by
    rw [Decimal.positional_of_nonneg hnonneg, he]
    rfl
  have hwhole : IsWhole c.positional := by
    by_cases hdigits : c.digits = 0
    · have he0 : e = 0 := by
        have := hzero hdigits
        omega
      rw [hpositional, he0, List.replicate_zero, List.append_nil]
      exact isWhole_toDigits c.digits
    · rw [hpositional]
      refine ⟨fun h => Nat.toDigits_ne_nil (List.append_eq_nil_iff.1 h).1, fun x hx => ?_, fun h => ?_⟩
      · rcases List.mem_append.1 hx with hx | hx
        · exact isDigit_of_mem_toDigits hx
        · rw [(List.mem_replicate.1 hx).2]
          rfl
      · obtain ⟨first, more, hchars⟩ := List.exists_cons_of_ne_nil (l := c.digitChars) Nat.toDigits_ne_nil
        have hhead := head?_toDigits_ne_zero hdigits
        rw [← Decimal.digitChars, hchars] at hhead
        rw [hchars] at h
        exact absurd h hhead
  have hnumber : Nat.ofDigitChars 10 (c.positional ++ ['0']) 0 = c.digits * Nat.pow 10 (e + 1) := by
    rw [hpositional, List.append_assoc, ← List.replicate_succ', Nat.ofDigitChars_append,
      Nat.ofDigitChars_replicate_zero, Decimal.digitChars, Nat.ofDigitChars_ten_toDigits, Nat.mul_comm]
    rfl
  have hfraction : Numeral.fraction? ['.', '0'] = some (['0'], []) := rfl
  have hexponent : Numeral.exponent? [] = some 0 := rfl
  refine Value.ofWord?_double hwhole (Stops.cons rfl _) (List.cons_ne_nil _ _) hfraction hexponent ?_
  rw [hnumber]
  show Double.ofDecimal? negative _ (-1) = _
  rw [Double.ofDecimal?_mul_pow negative c.digits (by omega), ← he, hread]

private theorem Value.ofWord?_positional (hneg : c.exponent < 0) :
    ofWord? ((if negative then ['-'] else []) ++ c.positional) = some (.double d) := by
  obtain ⟨whole, fraction, hpositional, hwhole, hdigits, hlength, hnumber⟩ := Decimal.exists_positional_of_neg hneg
  have hne : fraction ≠ [] := by
    rintro rfl
    rw [List.length_nil] at hlength
    omega
  have hfraction := Numeral.fraction?_point hne hdigits Stops.nil
  rw [List.append_nil] at hfraction
  rw [hpositional]
  refine Value.ofWord?_double hwhole (Stops.cons rfl _) (List.cons_ne_nil _ _) hfraction rfl ?_
  rw [hnumber, show 0 - (fraction.length : Int) = c.exponent by omega, hread]

private theorem Value.ofWord?_withExponent :
    ofWord? ((if negative then ['-'] else []) ++ c.withExponent) = some (.double d) := by
  have hexponent := Numeral.exponent?_signed c.leadingExponent
  have hvalue : Nat.ofDigitChars 10 c.digitChars 0 = c.digits := Nat.ofDigitChars_ten_toDigits
  have hdigits : ∀ x ∈ c.digitChars, x.isDigit = true := fun x hx => isDigit_of_mem_toDigits hx
  obtain ⟨first, more, hchars⟩ := List.exists_cons_of_ne_nil (l := c.digitChars) Nat.toDigits_ne_nil
  have hleading : c.leadingExponent = c.exponent + more.length := by
    rw [Decimal.leadingExponent, hchars]
    rfl
  rw [hchars] at hvalue hdigits
  -- one digit stands in front of the point
  have hwhole : IsWhole [first] :=
    ⟨List.cons_ne_nil _ _, fun x hx => hdigits x (List.mem_of_mem_take (i := 1) hx), fun _ => rfl⟩
  cases more with
  | nil =>
    have hchars' : c.withExponent = [first] ++ 'e' :: (if c.leadingExponent < 0 then '-' else '+') ::
        Nat.toDigits 10 c.leadingExponent.natAbs := by
      simp only [Decimal.withExponent, hchars]
    have hfraction : ∀ rest, Numeral.fraction? ('e' :: rest) = some ([], 'e' :: rest) := fun _ => rfl
    rw [hchars']
    refine Value.ofWord?_double hwhole (Stops.cons rfl _) (List.cons_ne_nil _ _) (hfraction _) hexponent ?_
    rw [List.append_nil, hvalue, hleading, List.length_nil, Int.natCast_zero, Int.add_zero, Int.sub_zero, hread]
  | cons second more =>
    have hchars' : c.withExponent = [first] ++ '.' :: (second :: more ++ 'e' ::
        (if c.leadingExponent < 0 then '-' else '+') :: Nat.toDigits 10 c.leadingExponent.natAbs) := by
      simp only [Decimal.withExponent, hchars]
      rfl
    have hfraction := Numeral.fraction?_point (List.cons_ne_nil second more)
      (fun x hx => hdigits x (List.mem_cons_of_mem _ hx)) (Stops.cons (c := 'e') rfl
        ((if c.leadingExponent < 0 then '-' else '+') :: Nat.toDigits 10 c.leadingExponent.natAbs))
    rw [hchars']
    refine Value.ofWord?_double hwhole (Stops.cons rfl _) (List.cons_ne_nil _ _) hfraction hexponent ?_
    rw [List.singleton_append, hvalue, hleading, Int.add_sub_cancel, hread]

end Layouts

/-- A double is read back from the text that it has in documents. -/
theorem Value.ofWord?_scientific (d : Double) : ofWord? d.scientific.toList = some (.double d) := by
  obtain ⟨c, hc⟩ : ∃ c, d.shortest .even = c := ⟨_, rfl⟩
  have hread : Double.ofDecimal? d.negative c.digits c.exponent = some d := hc ▸ d.ofDecimal?_shortest .even
  have hzero : c.digits = 0 → c.exponent = 0 := hc ▸ Double.exponent_shortest_of_digits_eq_zero
  rw [Double.toList_scientific, hc, Decimal.layout]
  by_cases hmiddle : -5 ≤ c.leadingExponent ∧ c.leadingExponent < 16
  · rw [if_pos hmiddle]
    by_cases hsign : 0 ≤ c.exponent
    · rw [if_pos hsign]
      have hle : c.exponent ≤ c.leadingExponent := Int.le_add_of_nonneg_right (Int.natCast_nonneg _)
      exact ofWord?_positional_point hread hsign (by omega) hzero
    · rw [if_neg hsign, List.append_nil]
      exact ofWord?_positional hread (Int.not_le.1 hsign)
  · rw [if_neg hmiddle]
    exact ofWord?_withExponent hread

end Json

end TableFlow
