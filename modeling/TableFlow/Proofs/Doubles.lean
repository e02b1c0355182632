import TableFlow.Number.Decimal

/-!
# The shortest decimal of a double

The decimal that a double is written with reads back as the same double (`Double.isReadFrom_shortest`): a grid that the
search stops at has been tried, and if it stops at none the exact value is taken.  That this value reads back needs that
a quotient of the double's own size rounds to the double (`Double.ofQuotient?_quanta_mul`).
-/

namespace TableFlow.Double

/-! ### Rounding -/

/-- Rounding depends on the quotient alone. -/
private theorem roundHalfEven_mul_right {k : Nat} (hk : 0 < k) (n d : Nat) :
    roundHalfEven (n * k) (d * k) = roundHalfEven n d := by
  have hmod : n * k % (d * k) = n % d * k := Nat.mul_mod_mul_right k n d
  have hdiv : n * k / (d * k) = n / d := Nat.mul_div_mul_right n d hk
  have hlt : 2 * (n % d * k) < d * k ↔ 2 * (n % d) < d := by
    rw [← Nat.mul_assoc, Nat.mul_lt_mul_right hk]
  have heq : 2 * (n % d * k) = d * k ↔ 2 * (n % d) = d := by
    rw [← Nat.mul_assoc, Nat.mul_right_cancel_iff hk]
  simp only [roundHalfEven, hmod, hdiv, hlt, heq]

/-- A natural number needs no rounding. -/
private theorem roundHalfEven_mul_self {k : Nat} (hk : 0 < k) (n : Nat) : roundHalfEven (n * k) k = n := by
  rw [roundHalfEven, Nat.mul_mod_left, Nat.mul_div_cancel n hk, if_pos (Or.inl hk)]

private theorem ofQuotient?_mul_right {k : Nat} (hk : 0 < k) (negative : Bool) (n d : Nat) :
    ofQuotient? negative (n * k) (d * k) = ofQuotient? negative n d := by
  have hshift : ∀ e, (d * k) <<< e = d <<< e * k := by
    intro e
    rw [Nat.shiftLeft_eq, Nat.shiftLeft_eq, Nat.mul_right_comm]
  simp only [ofQuotient?, Nat.mul_div_mul_right n d hk, hshift, roundHalfEven_mul_right hk]

/-- The exponent of a double can be told from its size. -/
private theorem log2_quanta_sub (d : Double) : d.quanta.log2 - 52 = d.exponent := by
  have hlt : d.mantissa < 2 ^ 53 := by simpa [Nat.one_shiftLeft] using d.mantissa_lt
  rw [quanta, Nat.shiftLeft_eq]
  rcases d.normal with hzero | hnormal
  · rw [hzero, Nat.pow_zero, Nat.mul_one]
    by_cases hm : d.mantissa = 0
    · simp [hm]
    · have : d.mantissa.log2 < 53 := (Nat.log2_lt hm).2 hlt
      omega
  · have hle : 2 ^ 52 ≤ d.mantissa := by simpa [Nat.one_shiftLeft] using hnormal
    have hpos : 0 < 2 ^ d.exponent := Nat.two_pow_pos _
    have hlog : (d.mantissa * 2 ^ d.exponent).log2 = 52 + d.exponent := by
      rw [Nat.log2_eq_iff (Nat.mul_ne_zero (by omega) (by omega)), Nat.pow_add, Nat.add_right_comm, Nat.pow_add]
      exact ⟨Nat.mul_le_mul_right _ hle, Nat.mul_lt_mul_of_pos_right hlt hpos⟩
    omega

private theorem ofParts?_self (d : Double) : ofParts? d.negative d.mantissa d.exponent = some d :=
  dif_pos ⟨d.mantissa_lt, d.exponent_le, d.normal⟩

/-- The quotient of a double's own size rounds to the double. -/
theorem ofQuotient?_quanta_mul (d : Double) {k : Nat} (hk : 0 < k) :
    ofQuotient? d.negative (d.quanta * k) k = some d := by
  have hmantissa : roundHalfEven (d.quanta * k) (k <<< d.exponent) = d.mantissa := by
    have hunit : 0 < k <<< d.exponent := Nat.shiftLeft_pos_iff.2 hk
    have hsize : d.quanta * k = d.mantissa * k <<< d.exponent := by
      rw [quanta, Nat.shiftLeft_eq, Nat.shiftLeft_eq, Nat.mul_assoc, Nat.mul_comm (2 ^ d.exponent)]
    rw [hsize, roundHalfEven_mul_self hunit]
  have hne : d.mantissa ≠ 1 <<< 53 := Nat.ne_of_lt d.mantissa_lt
  simp only [ofQuotient?, Nat.mul_div_cancel d.quanta hk, log2_quanta_sub, hmantissa, if_neg hne, ofParts?_self]

/-! ### Decimals that read back -/

/-- Only zero has no size. -/
private theorem eq_zero_of_quanta_eq_zero {d : Double} (h : d.quanta = 0) : d = zero d.negative := by
  obtain ⟨negative, mantissa, exponent, hlt, hle, hnormal⟩ := d
  obtain rfl : mantissa = 0 := Nat.shiftLeft_eq_zero_iff.1 h
  obtain rfl : exponent = 0 := hnormal.resolve_right (by decide)
  rfl

private theorem pow_ten_pos (k : Nat) : 0 < Nat.pow 10 k :=
  Nat.pow_pos (by decide)

/-- The same number written with more zeros behind it reads as the same double. -/
theorem ofDecimal?_mul_pow (negative : Bool) (digits : Nat) {e : Nat} (he : e ≤ 400) :
    ofDecimal? negative (digits * Nat.pow 10 (e + 1)) (-1) = ofDecimal? negative digits e := by
  have hpos := pow_ten_pos (e + 1)
  by_cases hdigits : digits = 0
  · simp [ofDecimal?, hdigits]
  · have hmul : digits * Nat.pow 10 (e + 1) ≠ 0 := Nat.mul_ne_zero hdigits (Nat.ne_of_gt hpos)
    have hsize : (digits * Nat.pow 10 (e + 1) * Nat.pow 10 0) <<< 1074 =
        (digits * Nat.pow 10 e) <<< 1074 * 10 := by
      rw [Nat.shiftLeft_eq, Nat.shiftLeft_eq, Nat.pow_eq, Nat.pow_eq, Nat.pow_eq, Nat.pow_succ]
      simp only [Nat.pow_zero, Nat.mul_one]
      rw [← Nat.mul_assoc, Nat.mul_right_comm]
    rw [ofDecimal?, if_neg hmul, if_neg (by omega), if_neg (by omega), ofDecimal?, if_neg hdigits, if_neg (by omega),
      if_neg (by omega)]
    show ofQuotient? negative ((digits * Nat.pow 10 (e + 1) * Nat.pow 10 0) <<< 1074) (1 * 10) = _
    rw [hsize, ofQuotient?_mul_right (by decide)]
    have htoNat : (e : Int).toNat = e := rfl
    have hneg : (-(e : Int)).toNat = 0 := by omega
    rw [htoNat, hneg]

/-- With as many fives as twos a number has only zeros behind it. -/
private theorem mul_pow_five_shiftLeft (n k : Nat) :
    (n * Nat.pow 5 k * Nat.pow 10 0) <<< k = n * Nat.pow 10 k := by
  have hten : Nat.pow 10 k = Nat.pow 5 k * Nat.pow 2 k := Nat.mul_pow 5 2 k
  have hone : Nat.pow 10 0 = 1 := rfl
  rw [hone, Nat.mul_one, Nat.shiftLeft_eq, hten, ← Nat.mul_assoc]
  rfl

private theorem mul_pow_five_ne_zero {n : Nat} (hn : n ≠ 0) (k : Nat) : n * Nat.pow 5 k ≠ 0 := by
  have hfive : 0 < Nat.pow 5 k := Nat.pow_pos (by decide)
  exact Nat.mul_ne_zero hn (Nat.ne_of_gt hfive)

private theorem le_log2_mul_pow_five {n : Nat} (hn : n ≠ 0) (k : Nat) : k ≤ (n * Nat.pow 5 k).log2 := by
  rw [Nat.le_log2 (mul_pow_five_ne_zero hn k)]
  calc
    2 ^ k ≤ 5 ^ k := Nat.pow_le_pow_left (by decide) k
    _ ≤ n * 5 ^ k := Nat.le_mul_of_pos_left _ (Nat.pos_of_ne_zero hn)

/-- The exact value of a double reads back.  The number of places is a variable, so that its powers are not computed. -/
private theorem ofDecimal?_exact {d : Double} (hd : d.quanta ≠ 0) {k : Nat} (hk : k = 1074) :
    ofDecimal? d.negative (d.quanta * Nat.pow 5 k) (-k : Int) = some d := by
  have hdigits := mul_pow_five_ne_zero hd k
  have hlog := le_log2_mul_pow_five hd k
  have hzero : (-k : Int).toNat = 0 := by omega
  have hplaces : (- -k : Int).toNat = k := by omega
  rw [ofDecimal?, if_neg hdigits, if_neg (by omega), if_neg (by omega), hzero, hplaces, ← hk, mul_pow_five_shiftLeft]
  exact ofQuotient?_quanta_mul d (pow_ten_pos k)

private theorem isReadFrom_exactDecimal {d : Double} (hd : d.quanta ≠ 0) : d.isReadFrom d.exactDecimal = true := by
  obtain ⟨k, hk⟩ : ∃ k, k = 1074 := ⟨1074, rfl⟩
  have hexact : d.exactDecimal = ⟨d.quanta * Nat.pow 5 k, (-k : Int)⟩ := by
    have hplaces : (-1074 : Int) = -k := by omega
    rw [exactDecimal, hplaces, ← hk]
  rw [isReadFrom, hexact]
  exact decide_eq_true (ofDecimal?_exact hd hk)

/-- What a grid gives has been read back. -/
private theorem isReadFrom_of_onGrid? {d : Double} {rule : TieRule} {e : Int} {c : Decimal}
    (h : d.onGrid? rule e = some c) : d.isReadFrom c = true := by
  simp only [onGrid?] at h
  split at h
  · rename_i hlower hupper
    obtain rfl := Option.some.inj h
    split
    · exact hupper
    · exact hlower
  · rename_i hlower _
    rwa [← Option.some.inj h]
  · rename_i _ hupper
    rwa [← Option.some.inj h]
  · cases h

/-- The decimal that a double is written with reads back. -/
theorem isReadFrom_shortest (d : Double) (rule : TieRule) : d.isReadFrom (d.shortest rule) = true := by
  by_cases hd : d.quanta = 0
  · rw [shortest, if_pos hd]
    exact decide_eq_true (congrArg some (eq_zero_of_quanta_eq_zero hd).symm)
  · rw [shortest, if_neg hd]
    cases hsearch : (List.range 21).findSome? fun (i : Nat) => d.onGrid? rule (d.decimalCeiling - i) with
    | none => exact isReadFrom_exactDecimal hd
    | some c =>
      obtain ⟨i, -, hi⟩ := List.exists_of_findSome?_eq_some hsearch
      exact isReadFrom_of_onGrid? hi

theorem ofDecimal?_shortest (d : Double) (rule : TieRule) :
    ofDecimal? d.negative (d.shortest rule).digits (d.shortest rule).exponent = some d :=
  of_decide_eq_true (isReadFrom_shortest d rule)

/-- Zero is written with the exponent zero. -/
theorem exponent_shortest_of_digits_eq_zero {d : Double} {rule : TieRule} (h : (d.shortest rule).digits = 0) :
    (d.shortest rule).exponent = 0 := by
  have hread := ofDecimal?_shortest d rule
  rw [ofDecimal?, if_pos h] at hread
  have hd : d.quanta = 0 := by
    rw [← Option.some.inj hread]
    rfl
  rw [shortest, if_pos hd]

end TableFlow.Double
