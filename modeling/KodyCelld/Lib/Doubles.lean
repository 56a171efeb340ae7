import KodyCelld.Lib.Js

namespace KodyCelld.Lib

/-!
# Doubles

What is known of a rational that was rounded to a double.

* `floorLog2_spec` — the exponent that rounding goes by;
* `toDouble_neg` — rounding is symmetric;
* `toDouble_toDouble` — a rounded value is not rounded again;
* `toDouble_intCast`, `toDouble_of_large` — integers up to 2⁵³ are doubles, and what is larger stays so;
* `lt_toDouble_intCast` — so an integer is compared with a time as what it is.
-/

/-! ### Rounding to an integer -/

section
variable {x : ℚ} {n : ℤ}

theorem roundHalfEven_intCast (n : ℤ) : roundHalfEven (n : ℚ) = n := by
  unfold roundHalfEven
  rw [Int.floor_intCast]
  simp

/-- The half that is rounded up is rounded down from the other side. -/
theorem roundHalfEven_neg (x : ℚ) : roundHalfEven (-x) = -roundHalfEven x := by
  by_cases hx : (⌊x⌋ : ℚ) = x
  · rw [← hx, ← Int.cast_neg, roundHalfEven_intCast, roundHalfEven_intCast]
  · have hlow : (⌊x⌋ : ℚ) < x := lt_of_le_of_ne (Int.floor_le x) hx
    have hhigh : x < ⌊x⌋ + 1 := Int.lt_floor_add_one x
    have hfloor : ⌊-x⌋ = -⌊x⌋ - 1 := by
      apply Int.floor_eq_iff.mpr
      push_cast
      constructor
      · linarith
      · linarith
    unfold roundHalfEven
    rw [hfloor]
    dsimp only
    push_cast
    split_ifs
    all_goals first
      | omega
      | linarith

theorem le_roundHalfEven (h : (n : ℚ) ≤ x) : n ≤ roundHalfEven x := by
  have hfloor : n ≤ ⌊x⌋ := Int.le_floor.mpr h
  unfold roundHalfEven
  dsimp only
  split_ifs
  all_goals omega

theorem roundHalfEven_le (h : x ≤ n) : roundHalfEven x ≤ n := by
  have hneg : -n ≤ roundHalfEven (-x) := by
    apply le_roundHalfEven
    push_cast
    linarith
  rw [roundHalfEven_neg] at hneg
  omega

end

/-! ### Exponents -/

section
variable {q v : ℚ} {n d : ℕ}

theorem floorLog2_div (hn : 0 < n) (hd : 0 < d) :
    (2 : ℚ) ^ floorLog2 n d ≤ (n : ℚ) / d ∧ (n : ℚ) / d < (2 : ℚ) ^ (floorLog2 n d + 1) := by
  have hd' : (0 : ℚ) < d := Nat.cast_pos.mpr hd
  have hnlow : (2 : ℚ) ^ (n.log2 : ℤ) ≤ n := by
    rw [zpow_natCast]
    exact_mod_cast Nat.log2_self_le hn.ne'
  have hnhigh : (n : ℚ) < (2 : ℚ) ^ ((n.log2 : ℤ) + 1) := by
    have h : n < 2 ^ (n.log2 + 1) := Nat.lt_log2_self
    exact_mod_cast h
  have hdlow : (2 : ℚ) ^ (d.log2 : ℤ) ≤ d := by
    rw [zpow_natCast]
    exact_mod_cast Nat.log2_self_le hd.ne'
  have hdhigh : (d : ℚ) < (2 : ℚ) ^ ((d.log2 : ℤ) + 1) := by
    have h : d < 2 ^ (d.log2 + 1) := Nat.lt_log2_self
    exact_mod_cast h
  -- the quotient is between the powers on both sides of `k`
  have hquotLow : (2 : ℚ) ^ ((n.log2 : ℤ) - d.log2 - 1) ≤ (n : ℚ) / d := by
    rw [le_div_iff₀ hd']
    calc (2 : ℚ) ^ ((n.log2 : ℤ) - d.log2 - 1) * d
        ≤ (2 : ℚ) ^ ((n.log2 : ℤ) - d.log2 - 1) * (2 : ℚ) ^ ((d.log2 : ℤ) + 1) := by gcongr
      _ = (2 : ℚ) ^ (n.log2 : ℤ) := by
        rw [← zpow_add₀ two_ne_zero]
        congr 1
        omega
      _ ≤ n := hnlow
  have hquotHigh : (n : ℚ) / d < (2 : ℚ) ^ ((n.log2 : ℤ) - d.log2 + 1) := by
    rw [div_lt_iff₀ hd']
    calc (n : ℚ) < (2 : ℚ) ^ ((n.log2 : ℤ) + 1) := hnhigh
      _ = (2 : ℚ) ^ ((n.log2 : ℤ) - d.log2 + 1) * (2 : ℚ) ^ (d.log2 : ℤ) := by
        rw [← zpow_add₀ two_ne_zero]
        congr 1
        omega
      _ ≤ _ := by gcongr
  have htest : ∀ k : ℤ, k = (n.log2 : ℤ) - d.log2 →
      ((if 0 ≤ k then d * 2 ^ k.toNat ≤ n else d ≤ n * 2 ^ (-k).toNat) ↔
        (2 : ℚ) ^ k ≤ (n : ℚ) / d) := by
    intro k _
    rw [le_div_iff₀ hd']
    split
    · rename_i hk
      obtain ⟨j, rfl⟩ := Int.eq_ofNat_of_zero_le hk
      rw [Int.toNat_natCast, zpow_natCast, mul_comm]
      exact_mod_cast Iff.rfl
    · rename_i hk
      obtain ⟨j, hj⟩ := Int.eq_ofNat_of_zero_le (show 0 ≤ -k by omega)
      obtain rfl : k = -(j : ℤ) := by omega
      rw [neg_neg, Int.toNat_natCast, zpow_neg, zpow_natCast, inv_mul_le_iff₀ (by positivity), mul_comm]
      exact_mod_cast Iff.rfl
  have hkeep := htest _ rfl
  unfold floorLog2
  dsimp only
  by_cases hpow : (2 : ℚ) ^ ((n.log2 : ℤ) - d.log2) ≤ (n : ℚ) / d
  · have hfloor : (if 0 ≤ (n.log2 : ℤ) - d.log2 then
        if d * 2 ^ ((n.log2 : ℤ) - d.log2).toNat ≤ n then (n.log2 : ℤ) - d.log2
          else (n.log2 : ℤ) - d.log2 - 1
        else if d ≤ n * 2 ^ (-((n.log2 : ℤ) - d.log2)).toNat then (n.log2 : ℤ) - d.log2
          else (n.log2 : ℤ) - d.log2 - 1) = (n.log2 : ℤ) - d.log2 := by
      have hyes := hkeep.mpr hpow
      split_ifs at hyes ⊢
      all_goals rfl
    rw [hfloor]
    exact ⟨hpow, hquotHigh⟩
  · have hfloor : (if 0 ≤ (n.log2 : ℤ) - d.log2 then
        if d * 2 ^ ((n.log2 : ℤ) - d.log2).toNat ≤ n then (n.log2 : ℤ) - d.log2
          else (n.log2 : ℤ) - d.log2 - 1
        else if d ≤ n * 2 ^ (-((n.log2 : ℤ) - d.log2)).toNat then (n.log2 : ℤ) - d.log2
          else (n.log2 : ℤ) - d.log2 - 1) = (n.log2 : ℤ) - d.log2 - 1 := by
      have hno := mt hkeep.mp hpow
      split_ifs at hno ⊢
      all_goals rfl
    rw [hfloor, sub_add_cancel]
    exact ⟨hquotLow, not_le.mp hpow⟩

/-- The exponent that a rational is rounded by. -/
def binaryExponent (q : ℚ) : ℤ := floorLog2 q.num.natAbs q.den

theorem binaryExponent_neg (q : ℚ) : binaryExponent (-q) = binaryExponent q := by
  unfold binaryExponent
  rw [Rat.num_neg_eq_neg_num, Rat.den_neg_eq_den, Int.natAbs_neg]

theorem binaryExponent_spec (hq : q ≠ 0) :
    (2 : ℚ) ^ binaryExponent q ≤ |q| ∧ |q| < (2 : ℚ) ^ (binaryExponent q + 1) := by
  have habs : |q| = (q.num.natAbs : ℚ) / q.den := by
    conv_lhs => rw [← Rat.num_div_den q]
    rw [abs_div, Nat.abs_cast, Nat.cast_natAbs, Int.cast_abs]
  rw [habs]
  exact floorLog2_div (Int.natAbs_pos.mpr (Rat.num_ne_zero.mpr hq)) q.den_pos

/-- The distance of the doubles around a rational, as an exponent. -/
def doubleExponent (q : ℚ) : ℤ := max (binaryExponent q - 52) (-1074)

/-- The double that a rational is rounded to, unless it is too large. -/
def roundedTo (q : ℚ) : ℚ :=
  (roundHalfEven (q / (2 : ℚ) ^ doubleExponent q) : ℚ) * (2 : ℚ) ^ doubleExponent q

theorem toDouble_of_ne_zero (hq : q ≠ 0) : toDouble q =
    if (2 : ℚ) ^ 1024 ≤ |roundedTo q| then .inf (decide (q < 0)) else .fin (roundedTo q) := by
  unfold toDouble
  rw [if_neg hq]
  rfl

theorem roundedTo_neg (q : ℚ) : roundedTo (-q) = -roundedTo q := by
  unfold roundedTo doubleExponent
  rw [binaryExponent_neg, neg_div, roundHalfEven_neg, Int.cast_neg, neg_mul]

/-- **Rounding is symmetric.** -/
theorem toDouble_neg (h : toDouble q = .fin v) : toDouble (-q) = .fin (-v) := by
  by_cases hq : q = 0
  · subst hq
    obtain rfl : 0 = v := Num.fin.inj h
    rw [neg_zero]
    rfl
  · rw [toDouble_of_ne_zero hq] at h
    split at h
    · cases h
    rename_i hsmall
    obtain rfl := Num.fin.inj h
    rw [toDouble_of_ne_zero (neg_ne_zero.mpr hq), roundedTo_neg, abs_neg, if_neg hsmall]

theorem toDouble_neg_inf {negative : Bool} (h : toDouble q = .inf negative) :
    toDouble (-q) = .inf !negative := by
  have hq : q ≠ 0 := by
    rintro rfl
    cases h
  rw [toDouble_of_ne_zero hq] at h
  rw [toDouble_of_ne_zero (neg_ne_zero.mpr hq), roundedTo_neg, abs_neg]
  split at h
  · rename_i hlarge
    rw [if_pos hlarge, ← Num.inf.inj h]
    rcases lt_or_gt_of_ne hq with hneg | hpos
    · simp [hneg, hneg.le]
    · simp [hpos, hpos.le]
  · cases h

/-! ### What is rounded already -/

/-- **A value of at most 53 bits is a double**, unless it is too large. -/
theorem toDouble_scaled {m e : ℤ} (hm : |m| ≤ 2 ^ 53) (he : -1074 ≤ e)
    (hsmall : |(m : ℚ) * (2 : ℚ) ^ e| < (2 : ℚ) ^ 1024) :
    toDouble ((m : ℚ) * (2 : ℚ) ^ e) = .fin ((m : ℚ) * (2 : ℚ) ^ e) := by
  by_cases hzero : m = 0
  · rw [hzero, Int.cast_zero, zero_mul]
    rfl
  have hne : (m : ℚ) * (2 : ℚ) ^ e ≠ 0 :=
    mul_ne_zero (Int.cast_ne_zero.mpr hzero) (zpow_ne_zero _ two_ne_zero)
  obtain ⟨hlow, -⟩ := binaryExponent_spec hne
  generalize hE : doubleExponent ((m : ℚ) * (2 : ℚ) ^ e) = E at *
  have hE' : max (binaryExponent ((m : ℚ) * (2 : ℚ) ^ e) - 52) (-1074) = E := hE
  -- the value is a whole number of the steps that it is rounded to
  have hwhole : ∃ k : ℤ, (m : ℚ) * (2 : ℚ) ^ e / (2 : ℚ) ^ E = k := by
    have hdiv : (m : ℚ) * (2 : ℚ) ^ e / (2 : ℚ) ^ E = (m : ℚ) * (2 : ℚ) ^ (e - E) := by
      rw [zpow_sub₀ two_ne_zero, mul_div_assoc]
    by_cases hle : E ≤ e
    · obtain ⟨j, hj⟩ := Int.eq_ofNat_of_zero_le (show 0 ≤ e - E by omega)
      refine ⟨m * 2 ^ j, ?_⟩
      rw [hdiv, hj]
      push_cast
      rw [zpow_natCast]
    · -- only 2⁵³ is as wide, and it is even
      have habs : |(m : ℚ) * (2 : ℚ) ^ e| ≤ (2 : ℚ) ^ (e + 53) := by
        rw [abs_mul, abs_of_pos (zpow_pos two_pos e : (0 : ℚ) < 2 ^ e), zpow_add₀ two_ne_zero,
          mul_comm]
        have hm' : |(m : ℚ)| ≤ (2 : ℚ) ^ (53 : ℤ) := by exact_mod_cast hm
        gcongr
      have hexp : binaryExponent ((m : ℚ) * (2 : ℚ) ^ e) ≤ e + 53 :=
        (zpow_le_zpow_iff_right₀ one_lt_two).mp (hlow.trans habs)
      have hE53 : binaryExponent ((m : ℚ) * (2 : ℚ) ^ e) = e + 53 ∧ E = e + 1 := by omega
      have hmlow : (2 : ℤ) ^ 53 ≤ |m| := by
        rw [hE53.1, abs_mul, abs_of_pos (zpow_pos two_pos e : (0 : ℚ) < 2 ^ e),
          zpow_add₀ two_ne_zero, mul_comm] at hlow
        have hcast : (2 : ℚ) ^ (53 : ℤ) ≤ |(m : ℚ)| :=
          le_of_mul_le_mul_right hlow (zpow_pos two_pos e)
        exact_mod_cast hcast
      have hmabs : m = 2 ^ 53 ∨ m = -2 ^ 53 := by
        have heq : |m| = 2 ^ 53 := le_antisymm hm hmlow
        exact (abs_eq (by positivity)).mp heq
      have hstep : (2 : ℚ) ^ (e - E) = 1 / 2 := by
        rw [show e - E = -1 by omega]
        norm_num
      rw [hdiv, hstep]
      rcases hmabs with rfl | rfl
      · exact ⟨2 ^ 52, by norm_num⟩
      · exact ⟨-2 ^ 52, by norm_num⟩
  obtain ⟨k, hk⟩ := hwhole
  have hrounded : roundedTo ((m : ℚ) * (2 : ℚ) ^ e) = (m : ℚ) * (2 : ℚ) ^ e := by
    unfold roundedTo
    rw [hE, hk, roundHalfEven_intCast, ← hk, div_mul_cancel₀ _ (zpow_ne_zero _ two_ne_zero)]
  rw [toDouble_of_ne_zero hne, hrounded, if_neg (not_le.mpr hsmall)]

/-- What rounding leaves has at most 53 bits. -/
theorem toDouble_cases (h : toDouble q = .fin v) : ∃ m e : ℤ, |m| ≤ 2 ^ 53 ∧ -1074 ≤ e ∧
    v = (m : ℚ) * (2 : ℚ) ^ e ∧ |v| < (2 : ℚ) ^ 1024 := by
  by_cases hq : q = 0
  · subst hq
    obtain rfl : 0 = v := Num.fin.inj h
    exact ⟨0, 0, by norm_num, by norm_num, by norm_num, by norm_num⟩
  · rw [toDouble_of_ne_zero hq] at h
    split at h
    · cases h
    rename_i hsmall
    obtain rfl := Num.fin.inj h
    refine ⟨roundHalfEven (q / (2 : ℚ) ^ doubleExponent q), doubleExponent q, ?_,
      le_max_right _ _, rfl, not_le.mp hsmall⟩
    have hbound : |q / (2 : ℚ) ^ doubleExponent q| ≤ ((2 ^ 53 : ℤ) : ℚ) := by
      rw [abs_div, abs_of_pos (zpow_pos two_pos _ : (0 : ℚ) < 2 ^ doubleExponent q),
        div_le_iff₀ (zpow_pos two_pos _)]
      calc |q| ≤ (2 : ℚ) ^ (binaryExponent q + 1) := (binaryExponent_spec hq).2.le
        _ ≤ (2 : ℚ) ^ (53 + doubleExponent q) := by
          apply zpow_le_zpow_right₀ one_le_two
          have hle : binaryExponent q - 52 ≤ doubleExponent q := le_max_left _ _
          omega
        _ = _ := by
          rw [zpow_add₀ two_ne_zero]
          norm_num
    obtain ⟨hlow, hhigh⟩ := abs_le.mp hbound
    apply abs_le.mpr
    refine ⟨le_roundHalfEven ?_, roundHalfEven_le hhigh⟩
    push_cast at hlow ⊢
    exact hlow

/-- **What was rounded is not rounded again.** -/
theorem toDouble_toDouble (h : toDouble q = .fin v) : toDouble v = .fin v := by
  obtain ⟨m, e, hm, he, rfl, hsmall⟩ := toDouble_cases h
  exact toDouble_scaled hm he hsmall

/-! ### Integers -/

theorem toDouble_intCast {n : ℤ} (h : |n| ≤ 2 ^ 53) : toDouble (n : ℚ) = .fin n := by
  have hscaled := @toDouble_scaled n 0 h (by norm_num)
  rw [zpow_zero, mul_one] at hscaled
  apply hscaled
  have hcast : |(n : ℚ)| ≤ 2 ^ 53 := by exact_mod_cast h
  exact hcast.trans_lt (pow_lt_pow_right₀ one_lt_two (by norm_num))

/-- **What is larger stays larger.** -/
theorem toDouble_of_large (h : (2 : ℚ) ^ 53 ≤ q) :
    toDouble q = .inf false ∨ ∃ v, toDouble q = .fin v ∧ (2 : ℚ) ^ 53 ≤ v := by
  have hpos : 0 < q := lt_of_lt_of_le (by norm_num) h
  obtain ⟨hlow, hhigh⟩ := binaryExponent_spec hpos.ne'
  rw [abs_of_pos hpos] at hlow hhigh
  have hexp : 53 ≤ binaryExponent q := by
    have hlt : (2 : ℚ) ^ (53 : ℤ) < (2 : ℚ) ^ (binaryExponent q + 1) := by
      refine lt_of_le_of_lt ?_ hhigh
      exact_mod_cast h
    have := (zpow_lt_zpow_iff_right₀ one_lt_two).mp hlt
    omega
  have hE : doubleExponent q = binaryExponent q - 52 := by
    unfold doubleExponent
    omega
  have hrounded : (2 : ℚ) ^ 53 ≤ roundedTo q := by
    have hmantissa : ((2 ^ 52 : ℤ) : ℚ) ≤ q / (2 : ℚ) ^ doubleExponent q := by
      rw [le_div_iff₀ (zpow_pos two_pos _), hE]
      refine le_trans (le_of_eq ?_) hlow
      have hpow : ((2 ^ 52 : ℤ) : ℚ) = (2 : ℚ) ^ (52 : ℤ) := by norm_num
      rw [hpow, ← zpow_add₀ two_ne_zero]
      congr 1
      omega
    have hround : ((2 ^ 52 : ℤ) : ℚ) ≤ roundHalfEven (q / (2 : ℚ) ^ doubleExponent q) :=
      Int.cast_le.mpr (le_roundHalfEven hmantissa)
    have hscale : (2 : ℚ) ^ (1 : ℤ) ≤ (2 : ℚ) ^ doubleExponent q :=
      zpow_le_zpow_right₀ one_le_two (by omega)
    calc (2 : ℚ) ^ 53 = ((2 ^ 52 : ℤ) : ℚ) * (2 : ℚ) ^ (1 : ℤ) := by norm_num
      _ ≤ _ := mul_le_mul hround hscale (by positivity) (le_trans (by norm_num) hround)
  rw [toDouble_of_ne_zero hpos.ne']
  split
  · refine .inl ?_
    rw [decide_eq_false hpos.le.not_gt]
  · exact .inr ⟨_, rfl, hrounded⟩

/-- **An integer is compared as what it is**, also where it is rounded first. -/
theorem lt_toDouble_intCast (z : ℤ) {n : ℕ} (hn : n ≤ 2 ^ 53) :
    Num.lt (toDouble (z : ℚ)) (.fin n) = decide (z < n) := by
  have hn' : (n : ℚ) ≤ 2 ^ 53 := by exact_mod_cast hn
  by_cases hz : |z| ≤ 2 ^ 53
  · rw [toDouble_intCast hz]
    show decide ((z : ℚ) < n) = _
    exact decide_eq_decide.mpr (by exact_mod_cast Iff.rfl)
  rcases lt_abs.mp (not_le.mp hz) with hlarge | hsmall
  · have hnot : ¬ z < n := by omega
    rw [decide_eq_false hnot]
    have hq : (2 : ℚ) ^ 53 ≤ z := by exact_mod_cast hlarge.le
    rcases toDouble_of_large hq with hinf | ⟨v, hv, hle⟩
    · rw [hinf]
      rfl
    · rw [hv]
      exact decide_eq_false (not_lt.mpr (hn'.trans hle))
  · have hlt : z < n := by omega
    rw [decide_eq_true hlt]
    have hq : (2 : ℚ) ^ 53 ≤ -(z : ℚ) := by exact_mod_cast hsmall.le
    -- below the doubles of times it is negative
    rcases toDouble_of_large hq with hinf | ⟨v, hv, hle⟩
    · have hneg := toDouble_neg_inf hinf
      rw [neg_neg] at hneg
      rw [hneg]
      rfl
    · have hneg := toDouble_neg hv
      rw [neg_neg] at hneg
      rw [hneg]
      refine decide_eq_true ?_
      have hnonneg : (0 : ℚ) ≤ n := Nat.cast_nonneg n
      have hpow : (0 : ℚ) < 2 ^ 53 := by norm_num
      linarith

end

end KodyCelld.Lib
