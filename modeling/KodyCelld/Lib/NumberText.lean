import KodyCelld.Lib.JsonText

namespace KodyCelld.Lib

/-!
# Numbers as texts

`String(number)`: the shortest decimal that is rounded to the number, with an exponent where it is long.

* `shortestDecimal`, `numberText` — the decimal, and how it is written;
* `decimalLiteral_decimalText` — what is written denotes the decimal;
* `numberOf_numberText` — a number reads back;
* `numberText_injective` — so two numbers have two texts.
-/

/-! ### Shortest decimals -/

/-- `digits × 10 ^ exponent` -/
structure Decimal where
  digits : ℕ
  exponent : ℤ
  deriving DecidableEq, Repr

def Decimal.value (d : Decimal) : ℚ := d.digits * (10 : ℚ) ^ d.exponent

/-- The greatest `k` with `10 ^ k ≤ q`, for a positive `q`. -/
def floorLog10 (q : ℚ) : ℤ :=
  if 1 ≤ q then (natText ⌊q⌋₊).length - 1 else -(natText (⌈q⁻¹⌉₊ - 1)).length

/-- The multiples of a power of ten on both sides, the nearer one first. -/
def nearby (q : ℚ) (e : ℤ) : List Decimal :=
  let near := (roundHalfEven (q / (10 : ℚ) ^ e)).toNat
  let floor := ⌊q / (10 : ℚ) ^ e⌋₊
  [⟨near, e⟩, ⟨if near = floor then floor + 1 else floor, e⟩]

/-- All digits of a fraction whose denominator is a power of two. -/
def exactDecimal (q : ℚ) : Decimal := ⟨q.num.toNat * 5 ^ q.den.log2, -q.den.log2⟩

/-- The first decimal that is rounded to `q`, with digits down to `10 ^ e` and below. -/
def shortestFrom (q : ℚ) : ℕ → ℤ → Decimal
  | 0, _ => exactDecimal q
  | fuel + 1, e =>
    ((nearby q e).find? fun d => decide (toDouble d.value = .fin q)).getD
      (shortestFrom q fuel (e - 1))

/-- A digit that was rounded up to ten. -/
def Decimal.carried (d : Decimal) : Decimal := if d.digits = 10 then ⟨1, d.exponent + 1⟩ else d

/-- Seventeen digits tell all doubles apart. -/
def shortestDecimal (q : ℚ) : Decimal := (shortestFrom q 17 (floorLog10 q)).carried

/-! ### Texts -/

/-- The exponent of a decimal that is written with one. -/
def exponentText (e : ℤ) : Text := 'e' :: (if 0 ≤ e then '+' else '-') :: natText e.natAbs

/-- `Number::toString` of a positive number, from its digits and the place of its point. -/
def decimalText (d : Decimal) : Text :=
  let s := natText d.digits
  let n := s.length + d.exponent
  if s.length ≤ n ∧ n ≤ 21 then s ++ List.replicate (n - s.length).toNat '0'
  else if 0 < n ∧ n ≤ 21 then s.take n.toNat ++ '.' :: s.drop n.toNat
  else if -6 < n ∧ n ≤ 0 then '0' :: '.' :: (List.replicate (-n).toNat '0' ++ s)
  else if s.length = 1 then s ++ exponentText (n - 1)
  else s.take 1 ++ '.' :: (s.drop 1 ++ exponentText (n - 1))

/-- `String(number)` -/
def numberText : Num → Text
  | .nan => "NaN"
  | .inf negative => if negative then "-Infinity" else "Infinity"
  | .fin q =>
    if q = 0 then "0"
    else if q < 0 then '-' :: decimalText (shortestDecimal (-q))
    else decimalText (shortestDecimal q)

/-! ### The decimal is rounded to the number -/

section
variable {q : ℚ}

theorem Decimal.carried_value (d : Decimal) : d.carried.value = d.value := by
  unfold Decimal.carried
  split
  · rename_i hten
    unfold Decimal.value
    rw [hten, zpow_add₀ (by norm_num)]
    push_cast
    ring
  · rfl

/-- The denominator of a double is a power of two. -/
theorem den_of_double (h : toDouble q = .fin q) : ∃ j, q.den = 2 ^ j := by
  obtain ⟨m, e, -, -, hq, -⟩ := toDouble_cases h
  rcases Int.le_total 0 e with he | he
  · obtain ⟨j, rfl⟩ := Int.eq_ofNat_of_zero_le he
    have hint : q = ((m * 2 ^ j : ℤ) : ℚ) := by
      rw [hq, zpow_natCast]
      push_cast
      rfl
    exact ⟨0, by rw [hint, Rat.den_intCast, pow_zero]⟩
  · obtain ⟨j, hj⟩ := Int.eq_ofNat_of_zero_le (show 0 ≤ -e by omega)
    obtain rfl : e = -(j : ℤ) := by omega
    have hdiv : q = Rat.divInt m ((2 ^ j : ℕ) : ℤ) := by
      rw [hq, Rat.divInt_eq_div, zpow_neg, zpow_natCast]
      push_cast
      rfl
    have hdvd : (q.den : ℤ) ∣ ((2 ^ j : ℕ) : ℤ) := hdiv ▸ Rat.den_dvd m _
    obtain ⟨k, -, hk⟩ := (Nat.dvd_prime_pow Nat.prime_two).mp (Int.natCast_dvd_natCast.mp hdvd)
    exact ⟨k, hk⟩

theorem exactDecimal_value (hq : 0 < q) (h : toDouble q = .fin q) : (exactDecimal q).value = q := by
  obtain ⟨j, hj⟩ := den_of_double h
  have hnum : ((q.num.toNat : ℕ) : ℚ) = q.num := by
    exact_mod_cast Int.toNat_of_nonneg (Rat.num_nonneg.mpr hq.le)
  unfold exactDecimal Decimal.value
  dsimp only
  rw [hj, Nat.log2_two_pow, Nat.cast_mul, hnum, Nat.cast_pow, zpow_neg, zpow_natCast]
  have hfive : ((5 : ℕ) : ℚ) ^ j * ((10 : ℚ) ^ j)⁻¹ = ((2 : ℚ) ^ j)⁻¹ := by
    rw [show (10 : ℚ) = 5 * 2 by norm_num, mul_pow, mul_inv, ← mul_assoc]
    push_cast
    rw [mul_inv_cancel₀ (pow_ne_zero _ (by norm_num)), one_mul]
  have hden : ((2 : ℚ) ^ j)⁻¹ = ((q.den : ℕ) : ℚ)⁻¹ := by
    rw [hj]
    push_cast
    rfl
  rw [mul_assoc, hfive, hden, ← div_eq_mul_inv, Rat.num_div_den]

theorem shortestFrom_spec (hq : 0 < q) (h : toDouble q = .fin q) (fuel : ℕ) :
    ∀ e, toDouble (shortestFrom q fuel e).value = .fin q := by
  induction fuel with
  | zero =>
    intro e
    show toDouble (exactDecimal q).value = _
    rw [exactDecimal_value hq h, h]
  | succ fuel ih =>
    intro e
    rw [shortestFrom]
    cases hfind : (nearby q e).find? fun d => decide (toDouble d.value = .fin q) with
    | none => exact ih (e - 1)
    | some d => exact of_decide_eq_true (List.find?_some hfind :)

/-- **The decimal of a double is rounded to it.** -/
theorem shortestDecimal_spec (hq : 0 < q) (h : toDouble q = .fin q) :
    toDouble (shortestDecimal q).value = .fin q := by
  unfold shortestDecimal
  rw [Decimal.carried_value]
  exact shortestFrom_spec hq h _ _

end

/-! ### Reading decimals -/

section
variable {int frac rest : Text} {p : ℚ}

theorem digitsVal_append (a b : Text) :
    digitsVal (a ++ b) = digitsVal a * 10 ^ b.length + digitsVal b := by
  have hfold : ∀ (s : Text) (n : ℕ), s.foldl (fun n c => 10 * n + (c.toNat - '0'.toNat)) n =
      n * 10 ^ s.length + digitsVal s := by
    intro s
    unfold digitsVal
    induction s with
    | nil =>
      intro n
      simp
    | cons c rest ih =>
      intro n
      rw [List.foldl_cons, List.foldl_cons, ih, ih (10 * 0 + _), List.length_cons]
      ring
  rw [digitsVal, List.foldl_append, hfold]
  rfl

theorem digitsVal_zeros (n : ℕ) : digitsVal (List.replicate n '0') = 0 := by
  induction n with
  | zero => rfl
  | succ n ih =>
    have hcons : List.replicate (n + 1) '0' = ['0'] ++ List.replicate n '0' := rfl
    rw [hcons, digitsVal_append, ih]
    show 0 * _ + 0 = 0
    omega

/-- What may follow the digits of a literal, and the power that it stands for. -/
def EndsLiteral (rest : Text) (p : ℚ) : Prop :=
  (rest = [] ∧ p = 1) ∨ ∃ e : ℤ, rest = exponentText e ∧ p = (10 : ℚ) ^ e

theorem EndsLiteral.head (h : EndsLiteral rest p) :
    ∀ c more, rest = c :: more → isDigit c = false := by
  rcases h with ⟨rfl, -⟩ | ⟨e, rfl, -⟩
  · nofun
  · intro c more heq
    rw [← (List.cons.inj heq).1]
    decide

theorem digits_stop (hint : ∀ c ∈ int, isDigit c = true)
    (hrest : ∀ c more, rest = c :: more → isDigit c = false) :
    (int ++ rest).takeWhile isDigit = int ∧ (int ++ rest).dropWhile isDigit = rest := by
  constructor
  · rw [List.takeWhile_append_of_pos hint]
    cases rest with
    | nil => simp
    | cons c more => simp [hrest c more rfl]
  · rw [List.dropWhile_append_of_pos hint]
    cases rest with
    | nil => rfl
    | cons c more => simp [hrest c more rfl]

/-- The end of a literal, with its exponent if it has one. -/
def literalEnd (mantissa : ℚ) : Text → Option ℚ
  | [] => some mantissa
  | e :: r =>
    if e = 'e' ∨ e = 'E' then
      match r with
      | '-' :: ds => if ds ≠ [] ∧ ds.all isDigit then some (mantissa / 10 ^ digitsVal ds) else none
      | '+' :: ds => if ds ≠ [] ∧ ds.all isDigit then some (mantissa * 10 ^ digitsVal ds) else none
      | ds => if ds ≠ [] ∧ ds.all isDigit then some (mantissa * 10 ^ digitsVal ds) else none
    else none

theorem literalEnd_eq (h : EndsLiteral rest p) (mantissa : ℚ) :
    literalEnd mantissa rest = some (mantissa * p) := by
  rcases h with ⟨rfl, rfl⟩ | ⟨e, rfl, rfl⟩
  · show some mantissa = _
    rw [mul_one]
  have hdigits : natText e.natAbs ≠ [] ∧ (natText e.natAbs).all isDigit = true :=
    ⟨Nat.toDigits_ne_nil, List.all_eq_true.mpr fun c => isDigit_of_mem_natText⟩
  unfold exponentText
  by_cases he : 0 ≤ e
  · obtain ⟨n, rfl⟩ := Int.eq_ofNat_of_zero_le he
    rw [if_pos he]
    show (if natText _ ≠ [] ∧ (natText _).all isDigit = true then
      some (mantissa * 10 ^ digitsVal (natText _)) else none) = _
    rw [if_pos hdigits, digitsVal_natText, Int.natAbs_natCast, zpow_natCast]
  · obtain ⟨n, hn⟩ := Int.eq_ofNat_of_zero_le (show 0 ≤ -e by omega)
    obtain rfl : e = -(n : ℤ) := by omega
    rw [if_neg he]
    show (if natText _ ≠ [] ∧ (natText _).all isDigit = true then
      some (mantissa / 10 ^ digitsVal (natText _)) else none) = _
    rw [if_pos hdigits, digitsVal_natText, Int.natAbs_neg, Int.natAbs_natCast, zpow_neg,
      zpow_natCast, div_eq_mul_inv]

theorem decimalLiteral_int (hne : int ≠ []) (hint : ∀ c ∈ int, isDigit c = true)
    (hrest : EndsLiteral rest p) : decimalLiteral (int ++ rest) = some (digitsVal int * p) := by
  obtain ⟨htake, hdrop⟩ := digits_stop hint hrest.head
  have hread := literalEnd_eq hrest (digitsVal (int ++ []) / 10 ^ ([] : Text).length)
  have hmantissa : (digitsVal (int ++ []) : ℚ) / 10 ^ ([] : Text).length = digitsVal int := by
    rw [List.append_nil, List.length_nil, pow_zero, div_one]
  unfold decimalLiteral
  dsimp only
  rw [htake, hdrop, ← hmantissa, ← hread]
  rcases hrest with ⟨rfl, -⟩ | ⟨e, rfl, -⟩
  · exact if_neg fun h => hne h.1
  · exact if_neg fun h => hne h.1

theorem decimalLiteral_point (hne : int ≠ []) (hint : ∀ c ∈ int, isDigit c = true)
    (hfrac : ∀ c ∈ frac, isDigit c = true) (hrest : EndsLiteral rest p) :
    decimalLiteral (int ++ '.' :: (frac ++ rest)) =
      some (digitsVal (int ++ frac) / 10 ^ frac.length * p) := by
  obtain ⟨htake, hdrop⟩ := @digits_stop int ('.' :: (frac ++ rest)) hint (by
    intro c more heq
    rw [← (List.cons.inj heq).1]
    decide)
  obtain ⟨htake', hdrop'⟩ := digits_stop hfrac hrest.head
  have hread : literalEnd ((digitsVal (int ++ (frac ++ rest).takeWhile isDigit) : ℚ) /
      10 ^ ((frac ++ rest).takeWhile isDigit).length) ((frac ++ rest).dropWhile isDigit) =
        some (digitsVal (int ++ frac) / 10 ^ frac.length * p) := by
    rw [htake', hdrop']
    exact literalEnd_eq hrest _
  unfold decimalLiteral
  dsimp only
  rw [htake, hdrop]
  exact (if_neg fun h => hne h.1).trans hread

end

/-! ### Reading back -/

section
variable {q : ℚ} {d : Decimal}

/-- **What is written denotes the decimal**, wherever its point is. -/
theorem decimalLiteral_decimalText (d : Decimal) : decimalLiteral (decimalText d) = some d.value := by
  have hdigits : ∀ c ∈ natText d.digits, isDigit c = true := fun c => isDigit_of_mem_natText
  have hne : natText d.digits ≠ [] := Nat.toDigits_ne_nil
  have hlength : 0 < (natText d.digits).length := List.length_pos_iff.mpr hne
  have hval := digitsVal_natText d.digits
  have hten : (10 : ℚ) ≠ 0 := by norm_num
  have hzeros : ∀ n, ∀ c ∈ List.replicate n '0', isDigit c = true := by
    intro n c hc
    rw [List.eq_of_mem_replicate hc]
    decide
  have hend : EndsLiteral [] 1 := .inl ⟨rfl, rfl⟩
  unfold decimalText Decimal.value
  generalize natText d.digits = s at *
  dsimp only
  split
  · -- an integer, with zeros up to its point
    rename_i hint
    obtain ⟨j, hj⟩ := Int.eq_ofNat_of_zero_le (show 0 ≤ d.exponent by omega)
    have hcount : ((s.length : ℤ) + d.exponent - s.length).toNat = j := by omega
    have hread := decimalLiteral_int (List.append_ne_nil_of_left_ne_nil hne (List.replicate j '0'))
      (List.forall_mem_append.mpr ⟨hdigits, hzeros j⟩) hend
    rw [List.append_nil] at hread
    rw [hcount, hread, digitsVal_append, digitsVal_zeros, hval, List.length_replicate, hj,
      zpow_natCast, mul_one]
    push_cast
    rw [add_zero]
  split
  · -- the point is among the digits
    rename_i hmany hfew
    obtain ⟨j, hj⟩ := Int.eq_ofNat_of_zero_le hfew.1.le
    have hlt : j < s.length ∧ 0 < j := by omega
    have hexp : d.exponent = -((s.length - j : ℕ) : ℤ) := by omega
    have htake : s.take j ≠ [] := by
      rw [← List.length_pos_iff, List.length_take]
      omega
    have hread := @decimalLiteral_point (s.take j) (s.drop j) [] 1 htake
      (fun c hc => hdigits c (List.mem_of_mem_take hc))
      (fun c hc => hdigits c (List.mem_of_mem_drop hc)) hend
    rw [List.append_nil, List.take_append_drop, hval, List.length_drop, mul_one] at hread
    rw [hj, Int.toNat_natCast, hread, hexp, zpow_neg, zpow_natCast, div_eq_mul_inv]
  split
  · -- zeros between the point and the digits
    rename_i hmany hfew hsmall
    obtain ⟨j, hj⟩ := Int.eq_ofNat_of_zero_le (show 0 ≤ -((s.length : ℤ) + d.exponent) by omega)
    have hexp : d.exponent = -((j + s.length : ℕ) : ℤ) := by
      push_cast
      omega
    have hread := @decimalLiteral_point ['0'] (List.replicate j '0' ++ s) [] 1
      (List.cons_ne_nil _ _) (by decide) (List.forall_mem_append.mpr ⟨hzeros j, hdigits⟩) hend
    rw [List.append_nil, digitsVal_append, digitsVal_append, digitsVal_zeros, hval,
      List.length_append, List.length_replicate, mul_one] at hread
    rw [hj, Int.toNat_natCast]
    refine hread.trans ?_
    have hzero : digitsVal ['0'] = 0 := rfl
    rw [hzero, hexp, zpow_neg, zpow_natCast, div_eq_mul_inv]
    simp
  split
  · -- one digit and an exponent
    rename_i hone
    have hread := decimalLiteral_int hne hdigits (.inr ⟨(s.length : ℤ) + d.exponent - 1, rfl, rfl⟩)
    rw [hval, hone] at hread
    rw [hone, hread]
    congr 3
    push_cast
    omega
  · rename_i hone
    obtain ⟨j, hj⟩ : ∃ j, s.length = j + 1 := ⟨s.length - 1, by omega⟩
    have htake : s.take 1 ≠ [] := by
      rw [← List.length_pos_iff, List.length_take]
      omega
    have hread := @decimalLiteral_point (s.take 1) (s.drop 1)
      (exponentText ((s.length : ℤ) + d.exponent - 1)) _ htake
      (fun c hc => hdigits c (List.mem_of_mem_take hc))
      (fun c hc => hdigits c (List.mem_of_mem_drop hc)) (.inr ⟨_, rfl, rfl⟩)
    rw [List.take_append_drop, hval, List.length_drop] at hread
    rw [hread, hj, Nat.add_sub_cancel, div_mul_eq_mul_div, ← zpow_natCast,
      mul_div_assoc, ← zpow_sub₀ hten]
    congr 3
    push_cast
    omega

/-- The characters of a number: digits, a point, an exponent and signs. -/
theorem decimalText_chars (d : Decimal) :
    ∀ c ∈ decimalText d, isDigit c = true ∨ c ∈ ['.', 'e', '+', '-'] := by
  have hdigits : ∀ c ∈ natText d.digits, isDigit c = true := fun c => isDigit_of_mem_natText
  have hexponent : ∀ e, ∀ c ∈ exponentText e, isDigit c = true ∨ c ∈ ['.', 'e', '+', '-'] := by
    intro e c hc
    rcases List.mem_cons.mp hc with rfl | hc
    · exact .inr (by decide)
    · rcases List.mem_cons.mp hc with rfl | hc
      · refine .inr ?_
        split
        · decide
        · decide
      · exact .inl (isDigit_of_mem_natText hc)
  have hzeros : ∀ n, ∀ c ∈ List.replicate n '0', isDigit c = true := by
    intro n c hc
    rw [List.eq_of_mem_replicate hc]
    decide
  intro c hc
  unfold decimalText at hc
  dsimp only at hc
  split_ifs at hc
  · rcases List.mem_append.mp hc with hc | hc
    · exact .inl (hdigits c hc)
    · exact .inl (hzeros _ c hc)
  · rcases List.mem_append.mp hc with hc | hc
    · exact .inl (hdigits c (List.mem_of_mem_take hc))
    · rcases List.mem_cons.mp hc with rfl | hc
      · exact .inr (by decide)
      · exact .inl (hdigits c (List.mem_of_mem_drop hc))
  · rcases List.mem_cons.mp hc with rfl | hc
    · exact .inl (by decide)
    · rcases List.mem_cons.mp hc with rfl | hc
      · exact .inr (by decide)
      · rcases List.mem_append.mp hc with hc | hc
        · exact .inl (hzeros _ c hc)
        · exact .inl (hdigits c hc)
  · rcases List.mem_append.mp hc with hc | hc
    · exact .inl (hdigits c hc)
    · exact hexponent _ c hc
  · rcases List.mem_append.mp hc with hc | hc
    · exact .inl (hdigits c (List.mem_of_mem_take hc))
    · rcases List.mem_cons.mp hc with rfl | hc
      · exact .inr (by decide)
      · rcases List.mem_append.mp hc with hc | hc
        · exact .inl (hdigits c (List.mem_of_mem_drop hc))
        · exact hexponent _ c hc

theorem decimalText_head (d : Decimal) :
    ∃ c rest, decimalText d = c :: rest ∧ isDigit c = true := by
  obtain ⟨c, more, hs⟩ : ∃ c more, natText d.digits = c :: more :=
    List.exists_cons_of_ne_nil Nat.toDigits_ne_nil
  have hc : isDigit c = true := isDigit_of_mem_natText (hs ▸ List.mem_cons_self)
  unfold decimalText
  dsimp only
  rw [hs]
  split
  · exact ⟨c, _, rfl, hc⟩
  split
  · rename_i hpoint
    obtain ⟨j, hj⟩ := Int.eq_ofNat_of_zero_le hpoint.1.le
    obtain ⟨i, rfl⟩ : ∃ i, j = i + 1 := ⟨j - 1, by omega⟩
    rw [hj, Int.toNat_natCast]
    exact ⟨c, _, rfl, hc⟩
  split
  · exact ⟨'0', _, rfl, by decide⟩
  split
  · exact ⟨c, _, rfl, hc⟩
  · exact ⟨c, _, rfl, hc⟩

/-- What is written is read as a decimal, also behind a sign. -/
theorem numberOf_decimalText {v : ℚ} (hd : toDouble d.value = .fin v) :
    numberOf (decimalText d) = .fin v ∧ numberOf ('-' :: decimalText d) = .fin (-v) := by
  have hchars := decimalText_chars d
  have hliteral : numberOf (decimalText d) = toDouble d.value ∧
      ∀ v, toDouble d.value = .fin v → numberOf ('-' :: decimalText d) = .fin (-v) := by
    apply numberOf_literal _ _ _ (decimalLiteral_decimalText d)
    · intro c hc
      rcases hchars c hc with hdigit | hmark
      · exact isSpace_of_isDigit hdigit
      · have hall : ∀ c ∈ ['.', 'e', '+', '-'], isSpace c = false := by decide
        exact hall c hmark
    · intro c rest heq
      obtain ⟨c', rest', heq', hc'⟩ := decimalText_head d
      rw [heq] at heq'
      rw [(List.cons.inj heq').1]
      exact hc'
    · intro c e rest heq hletter
      have hmem : e ∈ decimalText d := heq ▸ List.mem_cons_of_mem _ List.mem_cons_self
      rcases hchars e hmem with hdigit | hmark
      · rw [isLetter_of_isDigit hdigit] at hletter
        cases hletter
      · have hall : ∀ c ∈ ['.', 'e', '+', '-'], isLetter c = true → c = 'e' := by decide
        exact hall e hmark hletter
  exact ⟨hliteral.1.trans hd, hliteral.2 v hd⟩

/-- A number of the language: a finite one is a double. -/
def Num.IsDouble : Num → Prop
  | .fin q => toDouble q = .fin q
  | _ => True

instance (n : Num) : Decidable n.IsDouble :=
  match n with
  | .fin q => inferInstanceAs (Decidable (toDouble q = .fin q))
  | .nan => .isTrue trivial
  | .inf _ => .isTrue trivial

theorem toDouble_isDouble (q : ℚ) : (toDouble q).IsDouble := by
  cases hq : toDouble q with
  | fin v => exact toDouble_toDouble hq
  | nan => trivial
  | inf negative => trivial

theorem numberOf_numberText_fin (h : toDouble q = .fin q) :
    numberOf (numberText (.fin q)) = .fin q := by
  unfold numberText
  dsimp only
  split
  · rename_i hzero
    rw [hzero]
    decide +kernel
  split
  · rename_i hneg
    have hdouble := shortestDecimal_spec (neg_pos.mpr hneg) (toDouble_neg h)
    have hread := (numberOf_decimalText hdouble).2
    rwa [neg_neg] at hread
  · rename_i hzero hneg
    have hpos : 0 < q := lt_of_le_of_ne (not_lt.mp hneg) (Ne.symm hzero)
    exact (numberOf_decimalText (shortestDecimal_spec hpos h)).1

/-- **A number reads back.** -/
theorem numberOf_numberText {n : Num} (h : n.IsDouble) : numberOf (numberText n) = n := by
  cases n with
  | nan => decide +kernel
  | inf negative =>
    cases negative with
    | true => decide +kernel
    | false => decide +kernel
  | fin q => exact numberOf_numberText_fin h

/-- **Two numbers have two texts.** -/
theorem numberText_injective {m n : Num} (hm : m.IsDouble) (hn : n.IsDouble)
    (h : numberText m = numberText n) : m = n := by
  rw [← numberOf_numberText hm, h, numberOf_numberText hn]

/-- A number is written in digits, letters, points and signs. -/
theorem numberText_chars (n : Num) :
    ∀ c ∈ numberText n, isDigit c = true ∨ isLetter c = true ∨ c ∈ ['.', '+', '-'] := by
  have hdecimal : ∀ d, ∀ c ∈ decimalText d,
      isDigit c = true ∨ isLetter c = true ∨ c ∈ ['.', '+', '-'] := by
    intro d c hc
    rcases decimalText_chars d c hc with hdigit | hmark
    · exact .inl hdigit
    · have hall : ∀ c ∈ ['.', 'e', '+', '-'], isLetter c = true ∨ c ∈ ['.', '+', '-'] := by decide
      exact .inr (hall c hmark)
  cases n with
  | nan => decide
  | inf negative =>
    cases negative with
    | true => decide
    | false => decide
  | fin q =>
    unfold numberText
    dsimp only
    intro c hc
    split at hc
    · rw [List.mem_singleton.mp hc]
      exact .inl (by decide)
    split at hc
    · rcases List.mem_cons.mp hc with rfl | hc
      · exact .inr (.inr (by decide))
      · exact hdecimal _ c hc
    · exact hdecimal _ c hc

/-- **What a text denotes is a double.** -/
theorem numberOf_isDouble (text : Text) : (numberOf text).IsDouble := by
  unfold numberOf
  dsimp only
  split
  · rfl
  · repeat' split
    all_goals first
      | exact toDouble_isDouble _
      | trivial
  · split
    · -- the sign is put before a literal
      rename_i v hv
      have hdouble : (Num.fin v).IsDouble := by
        rw [← hv]
        split
        · trivial
        split
        · exact toDouble_isDouble _
        · trivial
      exact toDouble_neg hdouble
    · trivial
    · trivial
  all_goals
    repeat' split
  all_goals first
    | exact toDouble_isDouble _
    | trivial

end

end KodyCelld.Lib
