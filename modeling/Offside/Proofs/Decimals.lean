import Mathlib.Algebra.Order.Field.Power
import Mathlib.Algebra.Order.Field.Rat
import Mathlib.Tactic.FieldSimp
import Mathlib.Tactic.Linarith
import Mathlib.Tactic.Positivity
import Offside.Decimal.Numeral
import Offside.Decimal.Style

/-!
# Offside.Proofs.Decimals

Numbers survive being written. **The text of a number in generated code is a
literal for that number** (`Binary64.exists_literal_toCode`): digits, and behind
a point the digits of a fraction, whose nearest binary64 number is the given one.

A shortest decimal reads back because it has been tested; what is left is the
last resort. The exact decimal of a number reads back since rounding a ratio that
is a number of the format gives that number (`Binary64.ofRatio_exact`), and this
since the size of a ratio determines the exponent (`Binary64.IsScale.unique`).
-/

namespace Offside

namespace Binary64

/-! ### The exponent of a ratio -/

theorem inUnits_pos {num den : Nat} (hden : 0 < den) (k : Int) : 0 < (inUnits num den k).2 := by
  unfold inUnits
  split
  · exact Nat.mul_pos hden (Nat.pow_pos (by decide))
  · exact hden

/-- The ratio in units of `2 ^ k` is the ratio divided by `2 ^ k`. -/
theorem inUnits_eq {num den : Nat} (hden : 0 < den) (k : Int) :
    ((inUnits num den k).1 : ℚ) = num / den / 2 ^ k * (inUnits num den k).2 := by
  have hden' : (den : ℚ) ≠ 0 := by positivity
  unfold inUnits
  split
  · rename_i hk
    obtain ⟨j, rfl⟩ := Int.eq_ofNat_of_zero_le hk
    have hpow : ((2 : ℚ) ^ j) ≠ 0 := by positivity
    simp only [Int.toNat_natCast, Nat.pow_eq, Nat.cast_mul, Nat.cast_pow, Nat.cast_ofNat,
      zpow_natCast]
    field_simp
  · rename_i hk
    obtain ⟨j, rfl⟩ : ∃ j : Nat, k = -j := ⟨(-k).toNat, by omega⟩
    simp only [neg_neg, Int.toNat_natCast, Nat.pow_eq, Nat.cast_mul, Nat.cast_pow, Nat.cast_ofNat,
      zpow_neg, zpow_natCast]
    field_simp

theorem inUnits_lt_iff {num den : Nat} (hden : 0 < den) (k : Int) (j : Nat) :
    (inUnits num den k).1 < Nat.pow 2 j * (inUnits num den k).2 ↔
      (num / den : ℚ) < 2 ^ (k + j) := by
  have hd : (0 : ℚ) < (inUnits num den k).2 := by exact_mod_cast inUnits_pos hden k
  have hk : (0 : ℚ) < 2 ^ k := by positivity
  rw [← Nat.cast_lt (α := ℚ), inUnits_eq hden k, Nat.cast_mul, mul_lt_mul_iff_of_pos_right hd,
    div_lt_iff₀ hk, zpow_add₀ (by norm_num), zpow_natCast, mul_comm ((2 : ℚ) ^ k)]
  simp

/-- Numbers of the size of `x` are written with the exponent `k`. -/
structure IsScale (x : ℚ) (k : Int) : Prop where
  least_le : leastExponent ≤ k
  lt_pow : x < 2 ^ (k + 53)
  pow_le : k = leastExponent ∨ 2 ^ (k + 52) ≤ x

theorem IsScale.le {x : ℚ} {j k : Int} (hj : IsScale x j) (hk : IsScale x k) : j ≤ k := by
  by_contra hlt
  rcases hj.pow_le with hleast | hpow
  · have := hk.least_le
    omega
  · have hmono : (2 : ℚ) ^ (k + 53) ≤ 2 ^ (j + 52) := zpow_le_zpow_right₀ (by norm_num) (by omega)
    exact absurd hk.lt_pow (not_lt.2 (hmono.trans hpow))

theorem IsScale.unique {x : ℚ} {j k : Int} (hj : IsScale x j) (hk : IsScale x k) : j = k :=
  le_antisymm (hj.le hk) (hk.le hj)

/-- The binary lengths of two numbers tell their ratio up to a factor of two. -/
theorem ratio_bounds {num den : Nat} (hnum : 0 < num) (hden : 0 < den) :
    (2 : ℚ) ^ ((num.log2 : Int) - den.log2 - 1) ≤ num / den ∧
      (num / den : ℚ) < 2 ^ ((num.log2 : Int) - den.log2 + 1) := by
  have hnumLow : ((2 : ℚ) ^ num.log2) ≤ num := by
    exact_mod_cast Nat.log2_self_le hnum.ne'
  have hnumHigh : (num : ℚ) < 2 ^ (num.log2 + 1) := by
    exact_mod_cast Nat.lt_log2_self
  have hdenLow : ((2 : ℚ) ^ den.log2) ≤ den := by
    exact_mod_cast Nat.log2_self_le hden.ne'
  have hdenHigh : (den : ℚ) < 2 ^ (den.log2 + 1) := by
    exact_mod_cast Nat.lt_log2_self
  have hden' : (0 : ℚ) < den := by exact_mod_cast hden
  constructor
  · have heq : (2 : ℚ) ^ ((num.log2 : Int) - den.log2 - 1) = 2 ^ num.log2 / 2 ^ (den.log2 + 1) := by
      rw [show (num.log2 : Int) - den.log2 - 1 = num.log2 - ((den.log2 + 1 : Nat) : Int) by omega,
        zpow_sub₀ (by norm_num), zpow_natCast, zpow_natCast]
    rw [heq]
    gcongr
  · have heq : (2 : ℚ) ^ ((num.log2 : Int) - den.log2 + 1) = 2 ^ (num.log2 + 1) / 2 ^ den.log2 := by
      rw [show (num.log2 : Int) - den.log2 + 1 = ((num.log2 + 1 : Nat) : Int) - den.log2 by omega,
        zpow_sub₀ (by norm_num), zpow_natCast, zpow_natCast]
    rw [heq, div_lt_div_iff₀ hden' (by positivity)]
    calc (num : ℚ) * 2 ^ den.log2 < 2 ^ (num.log2 + 1) * 2 ^ den.log2 := by gcongr
      _ ≤ 2 ^ (num.log2 + 1) * den := by gcongr

theorem isScale_exponentFor {num den : Nat} (hnum : 0 < num) (hden : 0 < den) :
    IsScale (num / den) (exponentFor num den) := by
  obtain ⟨hlow, hhigh⟩ := ratio_bounds hnum hden
  have hmono {i j : Int} (hij : i ≤ j) : (2 : ℚ) ^ i ≤ 2 ^ j :=
    zpow_le_zpow_right₀ (by norm_num) hij
  unfold exponentFor
  simp only [inUnits_lt_iff hden]
  split
  · rename_i hlt
    refine ⟨le_max_left _ _, hlt, ?_⟩
    rcases max_choice leastExponent ((num.log2 : Int) - den.log2 - 53) with hmax | hmax
    · exact .inl hmax
    · exact .inr ((hmono (by omega)).trans hlow)
  · rename_i hge
    refine ⟨by omega, hhigh.trans_le (hmono (by omega)), .inr ?_⟩
    exact (hmono (by push_cast; omega)).trans (not_lt.1 hge)

/-! ### Canonical numbers -/

/-- The mantissa and the exponent of a finite number are those of the format. -/
structure IsCanonical (mantissa : Nat) (exponent : Int) : Prop where
  lt_pow : mantissa < Nat.pow 2 53
  least_le : leastExponent ≤ exponent
  le_greatest : exponent ≤ greatestExponent
  pow_le : exponent = leastExponent ∨ Nat.pow 2 52 ≤ mantissa

theorem roundHalfEven_eq_or (n d : Nat) :
    roundHalfEven n d = n / d ∨ roundHalfEven n d = n / d + 1 := by
  simp only [roundHalfEven]
  split
  · exact .inl rfl
  · exact .inr rfl

theorem roundHalfEven_le {n d m : Nat} (hn : n < m * d) : roundHalfEven n d ≤ m := by
  have hlow : n / d < m := Nat.div_lt_of_lt_mul (by rwa [Nat.mul_comm])
  rcases roundHalfEven_eq_or n d with heq | heq <;> omega

theorem le_roundHalfEven {n d m : Nat} (hd : 0 < d) (hn : m * d ≤ n) : m ≤ roundHalfEven n d := by
  have hlow : m ≤ n / d := (Nat.le_div_iff_mul_le hd).2 hn
  rcases roundHalfEven_eq_or n d with heq | heq <;> omega

theorem roundHalfEven_mul {m d : Nat} (hd : 0 < d) : roundHalfEven (m * d) d = m := by
  simp [roundHalfEven, Nat.mul_div_cancel _ hd, hd]

/-- The mantissa that a ratio is rounded to, in units of its exponent. -/
def mantissaFor (num den : Nat) : Nat :=
  roundHalfEven (inUnits num den (exponentFor num den)).1 (inUnits num den (exponentFor num den)).2

theorem ofRatio_of_ne {negative : Bool} {num den : Nat} (h : mantissaFor num den ≠ Nat.pow 2 53) :
    ofRatio negative num den =
      if greatestExponent < exponentFor num den then .infinite negative
      else .finite negative (mantissaFor num den) (exponentFor num den) := by
  simp only [mantissaFor] at h
  simp only [ofRatio, if_neg h, mantissaFor]

theorem ofRatio_of_eq {negative : Bool} {num den : Nat} (h : mantissaFor num den = Nat.pow 2 53) :
    ofRatio negative num den =
      if greatestExponent < exponentFor num den + 1 then .infinite negative
      else .finite negative (Nat.pow 2 52) (exponentFor num den + 1) := by
  simp only [mantissaFor] at h
  simp only [ofRatio, if_pos h]

/-- A ratio is rounded to a number of the format. -/
theorem isCanonical_of_ofRatio {negative sign : Bool} {num den m : Nat} {k : Int}
    (hnum : 0 < num) (hden : 0 < den) (h : ofRatio negative num den = .finite sign m k) :
    sign = negative ∧ IsCanonical m k := by
  obtain ⟨hleast, hlt, hle⟩ := isScale_exponentFor hnum hden
  have hmost : mantissaFor num den ≤ Nat.pow 2 53 :=
    roundHalfEven_le ((inUnits_lt_iff hden _ 53).2 hlt)
  have hfull : exponentFor num den = leastExponent ∨ Nat.pow 2 52 ≤ mantissaFor num den := by
    refine hle.imp_right fun hpow => le_roundHalfEven (inUnits_pos hden _) ?_
    exact not_lt.1 fun hlt' => absurd ((inUnits_lt_iff hden _ 52).1 hlt') (not_lt.2 hpow)
  by_cases hcarry : mantissaFor num den = Nat.pow 2 53
  · rw [ofRatio_of_eq hcarry] at h
    split at h
    · cases h
    · cases h
      exact ⟨rfl, by decide, by omega, by omega, .inr le_rfl⟩
  · rw [ofRatio_of_ne hcarry] at h
    split at h
    · cases h
    · cases h
      exact ⟨rfl, lt_of_le_of_ne hmost hcarry, hleast, by omega, hfull⟩

/-- A ratio that is a number of the format is rounded to that number. -/
theorem ofRatio_exact {num den m : Nat} {k : Int} (hm : 0 < m) (hden : 0 < den)
    (hcanonical : IsCanonical m k)
    (h : (inUnits num den k).1 = m * (inUnits num den k).2) :
    ofRatio false num den = .finite false m k := by
  have hd : 0 < (inUnits num den k).2 := inUnits_pos hden k
  have hnum : 0 < num := by
    by_contra hzero
    obtain rfl : num = 0 := by omega
    have : (inUnits 0 den k).1 = 0 := by
      unfold inUnits
      split <;> simp
    have := Nat.mul_pos hm hd
    omega
  have hscale : IsScale (num / den) k := by
    refine ⟨hcanonical.least_le, (inUnits_lt_iff hden k 53).1 ?_, ?_⟩
    · rw [h]
      exact Nat.mul_lt_mul_of_pos_right hcanonical.lt_pow hd
    · refine hcanonical.pow_le.imp_right fun hpow => not_lt.1 fun hlt => ?_
      have hlt' := (inUnits_lt_iff hden k 52).2 hlt
      rw [h] at hlt'
      exact absurd hlt' (not_lt.2 (Nat.mul_le_mul_right _ hpow))
  have hexponent : exponentFor num den = k := (isScale_exponentFor hnum hden).unique hscale
  have hmantissa : mantissaFor num den = m := by
    rw [mantissaFor, hexponent, h, roundHalfEven_mul hd]
  have hbelow : mantissaFor num den ≠ Nat.pow 2 53 := by
    rw [hmantissa]
    exact hcanonical.lt_pow.ne
  rw [ofRatio_of_ne hbelow, hexponent, hmantissa, if_neg (not_lt.2 hcanonical.le_greatest)]

end Binary64

/-! ### Decimals -/

theorem lt_pow_digitCount (n : Nat) : n < 10 ^ digitCount n :=
  (Nat.length_toDigits_le_iff (by decide) Nat.length_toDigits_pos).1 le_rfl

theorem digitCount_le {n k : Nat} (hk : 0 < k) (h : n < 10 ^ k) : digitCount n ≤ k :=
  (Nat.length_toDigits_le_iff (by decide) hk).2 h

theorem lt_digitCount {n k : Nat} (h : 10 ^ k ≤ n) : k < digitCount n := by
  by_contra hle
  have hpow : 10 ^ digitCount n ≤ 10 ^ k := Nat.pow_le_pow_right (by decide) (by omega)
  have := lt_pow_digitCount n
  omega

theorem pow_le_of_lt_digitCount {n k : Nat} (hn : 0 < n) (h : k < digitCount n) : 10 ^ k ≤ n := by
  by_contra hlt
  by_cases hk : k = 0
  · rw [hk, Nat.pow_zero] at hlt
    omega
  · have := digitCount_le (Nat.pos_of_ne_zero hk) (Nat.lt_of_not_le hlt)
    omega

theorem digitCount_mul_pow {n : Nat} (hn : 0 < n) (k : Nat) :
    digitCount (n * 10 ^ k) = digitCount n + k := by
  have hcount : 0 < digitCount n := Nat.length_toDigits_pos
  have hlow : digitCount n - 1 + k < digitCount (n * 10 ^ k) := by
    refine lt_digitCount ?_
    rw [Nat.pow_add]
    exact Nat.mul_le_mul_right _ (pow_le_of_lt_digitCount hn (by omega))
  have hhigh : digitCount (n * 10 ^ k) ≤ digitCount n + k := by
    refine digitCount_le (by omega) ?_
    rw [Nat.pow_add]
    exact Nat.mul_lt_mul_of_pos_right (lt_pow_digitCount n) (Nat.pow_pos (by decide))
  omega

theorem Decimal.ratio_pos {d : Decimal} (h : d.digits ≠ 0) : 0 < d.ratio.1 ∧ 0 < d.ratio.2 := by
  unfold Decimal.ratio
  split
  · exact ⟨Nat.mul_pos (Nat.pos_of_ne_zero h) (Nat.pow_pos (by decide)), Nat.one_pos⟩
  · exact ⟨Nat.pos_of_ne_zero h, Nat.pow_pos (by decide)⟩

namespace Binary64

theorem isCanonical_zero : IsCanonical 0 leastExponent :=
  ⟨by decide, le_rfl, by decide, .inl rfl⟩

/-- A decimal is read as a number of the format. -/
theorem isCanonical_of_ofDecimal {negative sign : Bool} {d : Decimal} {m : Nat} {k : Int}
    (h : ofDecimal negative d = .finite sign m k) : sign = negative ∧ IsCanonical m k := by
  unfold ofDecimal at h
  split at h
  · cases h
    exact ⟨rfl, isCanonical_zero⟩
  · rename_i hdigits
    split at h
    · cases h
    · split at h
      · cases h
        exact ⟨rfl, isCanonical_zero⟩
      · obtain ⟨hnum, hden⟩ := Decimal.ratio_pos hdigits
        exact isCanonical_of_ofRatio hnum hden h

end Binary64

namespace Shortest

open Binary64

variable {m : Nat} {k : Int}

/-- The exact decimal of a number of the format is neither so great nor so small
that its size alone would settle it. -/
theorem top_exact (hm : 0 < m) (hcanonical : IsCanonical m k) :
    -330 ≤ (exact m k).top ∧ (exact m k).top ≤ 310 := by
  obtain ⟨hlt, hleast, hgreatest, -⟩ := hcanonical
  simp only [leastExponent, greatestExponent] at hleast hgreatest
  unfold exact Decimal.top
  split
  · rename_i hk
    obtain ⟨j, rfl⟩ := Int.eq_ofNat_of_zero_le hk
    have hsize : m * 2 ^ j < 10 ^ 310 :=
      calc m * 2 ^ j ≤ 2 ^ 53 * 2 ^ 971 :=
            Nat.mul_le_mul hlt.le (Nat.pow_le_pow_right (by decide) (by omega))
        _ < 10 ^ 310 := by decide +kernel
    have hcount := digitCount_le (by decide) hsize
    simp only [Int.toNat_natCast, Nat.pow_eq]
    omega
  · rename_i hk
    obtain ⟨j, rfl⟩ : ∃ j : Nat, k = -j := ⟨(-k).toNat, by omega⟩
    have hsize : m * 5 ^ j < 10 ^ (j + 16) :=
      calc m * 5 ^ j ≤ m * 10 ^ j := Nat.mul_le_mul_left m (Nat.pow_le_pow_left (by decide) j)
        _ < 10 ^ 16 * 10 ^ j :=
            Nat.mul_lt_mul_of_pos_right (hlt.trans (by norm_num)) (by positivity)
        _ = 10 ^ (j + 16) := by rw [Nat.pow_add, Nat.mul_comm]
    have hcount := digitCount_le (by omega) hsize
    have hfew : j - 331 < digitCount (m * 5 ^ j) := by
      refine lt_digitCount (le_trans ?_ (Nat.le_mul_of_pos_left _ hm))
      by_cases hj : j ≤ 331
      · rw [Nat.sub_eq_zero_of_le hj]
        exact Nat.pow_pos (by decide)
      · have htwo : ∀ i < 744, 2 ^ i ≤ 5 ^ 331 := by decide +kernel
        calc 10 ^ (j - 331) = 2 ^ (j - 331) * 5 ^ (j - 331) := Nat.mul_pow 2 5 _
          _ ≤ 5 ^ 331 * 5 ^ (j - 331) := Nat.mul_le_mul_right _ (htwo _ (by omega))
          _ = 5 ^ j := by rw [← Nat.pow_add, Nat.add_sub_cancel' (by omega)]
    simp only [neg_neg, Int.toNat_natCast, Nat.pow_eq]
    omega

theorem ofDecimal_exact (hm : 0 < m) (hcanonical : IsCanonical m k) :
    ofDecimal false (exact m k) = .finite false m k := by
  obtain ⟨hlow, hhigh⟩ := top_exact hm hcanonical
  have hdigits : (exact m k).digits ≠ 0 := by
    unfold exact
    split <;> simp [hm.ne']
  obtain ⟨-, hden⟩ := Decimal.ratio_pos hdigits
  rw [ofDecimal, if_neg hdigits, if_neg (by omega), if_neg (by omega)]
  refine ofRatio_exact hm hden hcanonical ?_
  by_cases hk : 0 ≤ k
  · simp [exact, Decimal.ratio, Binary64.inUnits, hk]
  · simp only [exact, Decimal.ratio, Binary64.inUnits, if_neg hk, Nat.pow_eq]
    rw [Nat.mul_assoc, ← Nat.mul_pow]

/-- Only decimals that read back are candidates. -/
theorem ofDecimal_candidate {tie : Tie} {count : Nat} {c : Decimal}
    (h : candidate? tie m k count = some c) : ofDecimal false c = .finite false m k := by
  simp only [candidate?] at h
  split at h
  · rename_i hlow
    obtain rfl := Option.some.inj h
    exact of_decide_eq_true hlow.1
  · split at h
    · rename_i hhigh
      obtain rfl := Option.some.inj h
      exact of_decide_eq_true hhigh
    · cases h

/-- The decimal that is found for a number reads back as that number. -/
theorem ofDecimal_decimal (tie : Tie) (hcanonical : IsCanonical m k) :
    ofDecimal false (decimal tie m k) = .finite false m k := by
  unfold decimal
  split
  · rename_i hm
    subst hm
    have hk : k = leastExponent := hcanonical.pow_le.resolve_right (by decide)
    rw [hk]
    rfl
  · rename_i hm
    cases hfound : (List.range' 1 17).findSome? (candidate? tie m k) with
    | none => exact ofDecimal_exact (Nat.pos_of_ne_zero hm) hcanonical
    | some c =>
        obtain ⟨count, -, hcount⟩ := List.exists_of_findSome?_eq_some hfound
        exact ofDecimal_candidate hcount

end Shortest

/-! ### Texts -/

namespace Numeral

theorem ofDigits_toDigits (n : Nat) : ofDigits (Nat.toDigits 10 n) = n :=
  Nat.ofDigitChars_toDigits (by decide) (by decide)

theorem ofDigits_zeros_append (k : Nat) (cs : List Char) :
    ofDigits (List.replicate k '0' ++ cs) = ofDigits cs := by
  show Nat.ofDigitChars 10 _ 0 = Nat.ofDigitChars 10 _ 0
  rw [Nat.ofDigitChars_append, Nat.ofDigitChars_replicate_zero, Nat.mul_zero]

theorem ofDigits_append_zeros (k : Nat) (cs : List Char) :
    ofDigits (cs ++ List.replicate k '0') = ofDigits cs * 10 ^ k := by
  show Nat.ofDigitChars 10 _ 0 = Nat.ofDigitChars 10 _ 0 * 10 ^ k
  rw [Nat.ofDigitChars_append, Nat.ofDigitChars_replicate_zero, Nat.mul_comm]

theorem isDigit_toDigits {n : Nat} : ∀ c ∈ Nat.toDigits 10 n, c.isDigit = true :=
  fun _ hc => Nat.isDigit_of_mem_toDigits (by decide) (by decide) hc

theorem head_toDigits_ne {n : Nat} (hn : 0 < n) : (Nat.toDigits 10 n).head? ≠ some '0' := by
  induction n using Nat.strongRecOn with
  | ind n ih =>
      by_cases hlt : n < 10
      · have hdigit : ∀ i < 10, 0 < i → i.digitChar ≠ '0' := by decide
        rw [Nat.toDigits_of_lt_base hlt]
        simpa using hdigit n hlt hn
      · rw [Nat.toDigits_of_base_le (by decide) (by omega),
          List.head?_append_of_ne_nil _ Nat.toDigits_ne_nil]
        exact ih (n / 10) (by omega) (by omega)

/-- A text is a decimal literal: digits without a zero in front of others, and
behind a point the digits of the fraction if there is one. -/
structure IsLiteral (text whole part : List Char) : Prop where
  text_eq : text = whole ++ if part = [] then [] else '.' :: part
  whole_ne_nil : whole ≠ []
  isDigit_of_mem : ∀ c ∈ whole ++ part, c.isDigit = true
  eq_zero : whole.head? = some '0' → whole = ['0']

theorem IsLiteral.exists_cons {text whole part : List Char} (h : IsLiteral text whole part) :
    ∃ c cs, text = c :: cs ∧ c.isDigit = true := by
  obtain ⟨c, cs, rfl⟩ := List.exists_cons_of_ne_nil h.whole_ne_nil
  exact ⟨c, _, h.text_eq, h.isDigit_of_mem c (by simp)⟩

/-- A literal has digits, and at most a point. -/
theorem IsLiteral.isDigit_or_point {text whole part : List Char} (h : IsLiteral text whole part) :
    ∀ c ∈ text, (c.isDigit || c = '.') = true := by
  intro c hc
  rw [h.text_eq] at hc
  have hdigit (hmem : c ∈ whole ++ part) : (c.isDigit || c = '.') = true :=
    Bool.or_eq_true_iff.2 (.inl (h.isDigit_of_mem c hmem))
  rcases List.mem_append.1 hc with hwhole | hpart
  · exact hdigit (List.mem_append_left part hwhole)
  · split at hpart
    · cases hpart
    · rcases List.mem_cons.1 hpart with rfl | hpart
      · rfl
      · exact hdigit (List.mem_append_right whole hpart)

theorem isDigit_zeros_append {cs : List Char} (hcs : ∀ c ∈ cs, c.isDigit = true) (k : Nat) :
    ∀ c ∈ List.replicate k '0' ++ cs, c.isDigit = true := by
  intro c hc
  rcases List.mem_append.1 hc with hc | hc
  · rw [List.eq_of_mem_replicate hc]
    rfl
  · exact hcs c hc

/-- Digits with zeros in front, so that a point before the last `k` of them has a
digit before it, are a literal. -/
theorem isLiteral_padded {cs : List Char} {k : Nat} (hk : 0 < k)
    (hcs : ∀ c ∈ cs, c.isDigit = true) (hhead : cs.head? ≠ some '0') :
    let padded := List.replicate (k + 1 - cs.length) '0' ++ cs
    let cut := padded.length - k
    IsLiteral (padded.take cut ++ '.' :: padded.drop cut) (padded.take cut) (padded.drop cut) := by
  intro padded cut
  have hlength : padded.length = max (k + 1) cs.length := by
    simp only [padded, List.length_append, List.length_replicate]
    omega
  have hdrop : padded.drop cut ≠ [] := by
    rw [← List.length_pos_iff, List.length_drop]
    omega
  refine ⟨by rw [if_neg hdrop], ?_, ?_, ?_⟩
  · rw [← List.length_pos_iff, List.length_take]
    omega
  · rw [List.take_append_drop]
    exact isDigit_zeros_append hcs _
  · intro hzero
    by_cases hfew : cs.length ≤ k
    · have hcut : cut = 1 := by omega
      obtain ⟨j, hj⟩ : ∃ j, k + 1 - cs.length = j + 1 := ⟨k - cs.length, by omega⟩
      simp [hcut, padded, hj, List.replicate_succ]
    · have hpadded : padded = cs := by simp [padded, show k + 1 - cs.length = 0 by omega]
      rw [hpadded, List.head?_take, if_neg (by omega)] at hzero
      exact absurd hzero hhead

end Numeral

namespace Decimal

open Numeral

theorem ofDecimal_mul_pow (n k : Nat) (h : n = 0 → k = 0) :
    Binary64.ofDecimal false ⟨n * 10 ^ k, 0⟩ = Binary64.ofDecimal false ⟨n, k⟩ := by
  by_cases hn : n = 0
  · simp [hn, h hn]
  · have hcount := digitCount_mul_pow (Nat.pos_of_ne_zero hn) k
    simp [Binary64.ofDecimal, Decimal.top, Decimal.ratio, hn, hcount]

theorem exists_literal_whole (n k : Nat) (hzero : n = 0 → k = 0) :
    ∃ whole part, IsLiteral (positional false ⟨n, k⟩) whole part ∧
      Binary64.ofDecimal false ⟨ofDigits (whole ++ part), -part.length⟩ =
        Binary64.ofDecimal false ⟨n, k⟩ := by
  refine ⟨Nat.toDigits 10 n ++ List.replicate k '0', [], ⟨?_, ?_, ?_, ?_⟩, ?_⟩
  · simp [positional, digitText]
  · simp
  · intro c hc
    simp only [List.append_nil, List.mem_append, List.mem_replicate] at hc
    rcases hc with hc | ⟨-, rfl⟩
    · exact isDigit_toDigits c hc
    · rfl
  · intro hhead
    rw [List.head?_append_of_ne_nil _ Nat.toDigits_ne_nil] at hhead
    obtain rfl : n = 0 := by
      by_contra hn
      exact head_toDigits_ne (Nat.pos_of_ne_zero hn) hhead
    obtain rfl : k = 0 := hzero rfl
    rfl
  · rw [List.append_nil, ofDigits_append_zeros, ofDigits_toDigits]
    exact ofDecimal_mul_pow n k hzero

theorem exists_literal_pointed {n k : Nat} (hn : 0 < n) (hk : 0 < k) :
    ∃ whole part, IsLiteral (positional false ⟨n, -k⟩) whole part ∧
      Binary64.ofDecimal false ⟨ofDigits (whole ++ part), -part.length⟩ =
        Binary64.ofDecimal false ⟨n, -k⟩ := by
  let padded := List.replicate (k + 1 - (Nat.toDigits 10 n).length) '0' ++ Nat.toDigits 10 n
  let cut := padded.length - k
  refine ⟨padded.take cut, padded.drop cut, ?_, ?_⟩
  · have htext : positional false ⟨n, -k⟩ = padded.take cut ++ '.' :: padded.drop cut := by
      simp only [positional, digitText, if_neg (show ¬ (0 : Int) ≤ -(k : Int) by omega), neg_neg,
        Int.toNat_natCast]
      rfl
    rw [htext]
    exact isLiteral_padded hk isDigit_toDigits (head_toDigits_ne hn)
  · have hlength : (padded.drop cut).length = k := by
      simp only [padded, cut, List.length_drop, List.length_append, List.length_replicate]
      omega
    rw [List.take_append_drop, ofDigits_zeros_append, ofDigits_toDigits, hlength]

/-- The text of a decimal without exponent is a literal for it. -/
theorem exists_literal_positional (d : Decimal) (hzero : d.digits = 0 → d.exponent = 0) :
    ∃ whole part, IsLiteral (d.positional false) whole part ∧
      Binary64.ofDecimal false ⟨ofDigits (whole ++ part), -part.length⟩ =
        Binary64.ofDecimal false d := by
  obtain ⟨n, x⟩ := d
  by_cases hx : 0 ≤ x
  · obtain ⟨k, rfl⟩ := Int.eq_ofNat_of_zero_le hx
    exact exists_literal_whole n k fun hn => by simpa using hzero hn
  · obtain ⟨k, rfl⟩ : ∃ k : Nat, x = -k := ⟨(-x).toNat, by omega⟩
    have hk : 0 < k := by omega
    refine exists_literal_pointed (Nat.pos_of_ne_zero fun hn => ?_) hk
    have : -(k : Int) = 0 := hzero hn
    omega

end Decimal

/-- Only zero has the digits of zero. -/
theorem Shortest.exponent_decimal (tie : Tie) (m : Nat) (k : Int)
    (h : (decimal tie m k).digits = 0) : (decimal tie m k).exponent = 0 := by
  by_cases hm : m = 0
  · rw [decimal, if_pos hm]
  · exfalso
    rw [decimal, if_neg hm] at h
    cases hfound : (List.range' 1 17).findSome? (candidate? tie m k) with
    | none =>
        rw [hfound, Option.getD_none, exact] at h
        split at h
        · exact hm ((Nat.mul_eq_zero.1 h).resolve_right (Nat.pow_pos (by decide)).ne')
        · exact hm ((Nat.mul_eq_zero.1 h).resolve_right (Nat.pow_pos (by decide)).ne')
    | some c =>
        obtain ⟨count, -, hcount⟩ := List.exists_of_findSome?_eq_some hfound
        have hread := ofDecimal_candidate hcount
        rw [hfound, Option.getD_some] at h
        rw [Binary64.ofDecimal, if_pos h] at hread
        exact hm (Binary64.finite.inj hread).2.1.symm

namespace Binary64

/-- The text of a number without a sign is a literal. -/
theorem exists_isLiteral_toCode (m : Nat) (k : Int) :
    ∃ whole part, Numeral.IsLiteral (toCode (.finite false m k)).toList whole part ∧
      ofDecimal false ⟨Numeral.ofDigits (whole ++ part), -part.length⟩ =
        ofDecimal false (Shortest.decimal NumberStyle.code.tie m k) := by
  obtain ⟨whole, part, hliteral, hvalue⟩ :=
    Decimal.exists_literal_positional _ (Shortest.exponent_decimal NumberStyle.code.tie m k)
  refine ⟨whole, part, ?_, hvalue⟩
  simpa [toCode, renderFinite, Decimal.render, NumberStyle.code] using hliteral

/-- A number below zero is written like the one above zero, with a minus before it. -/
theorem toCode_negative (m : Nat) (k : Int) :
    toCode (.finite true m k) = "-" ++ toCode (.finite false m k) := by
  simp [toCode, renderFinite]

/-- The text of a number in generated code is a literal for that number. -/
theorem exists_literal_toCode {m : Nat} {k : Int} (h : IsCanonical m k) :
    ∃ whole part, Numeral.IsLiteral (toCode (.finite false m k)).toList whole part ∧
      ofDecimal false ⟨Numeral.ofDigits (whole ++ part), -part.length⟩ = .finite false m k := by
  obtain ⟨whole, part, hliteral, hvalue⟩ := exists_isLiteral_toCode m k
  exact ⟨whole, part, hliteral, hvalue.trans (Shortest.ofDecimal_decimal _ h)⟩

end Binary64

end Offside
