import KodyCelld.Lib.Doubles
import KodyCelld.Lib.Json

namespace KodyCelld.Lib

/-!
# JSON that reads back

`JSON.parse` undoes `JSON.stringify` on an object of texts and natural numbers:

* `jsonStringBody_escape` — a quoted text reads back;
* `jsonNumber_natText`, `toDouble_natCast` — so does a number that a double can hold;
* `jsonParse_jsonObject` — and so does an object whose members are such;
* `distinctKeys_jsonParse` — the objects of what is parsed have distinct keys.
-/

/-! ### Numbers -/

theorem isDigit_of_mem_natText {n : ℕ} {c : Char} (h : c ∈ natText n) : isDigit c = true := by
  have hdigit := Nat.isDigit_of_mem_toDigits (b := 10) (by decide) (by decide) h
  simpa [Char.isDigit, isDigit, Char.le_def] using hdigit

theorem digitsVal_natText (n : ℕ) : digitsVal (natText n) = n := by
  have h := Nat.ofDigitChars_ten_toDigits (n := n)
  rw [Nat.ofDigitChars_eq_foldl] at h
  exact h

/-- A number is written without leading zeros. -/
theorem head_natText {n : ℕ} {rest : Text} (h : natText n = '0' :: rest) : n = 0 ∧ rest = [] := by
  induction n using Nat.strong_induction_on generalizing rest with
  | _ n ih =>
    by_cases hn : n < 10
    · rw [natText, Nat.toDigits_of_lt_base hn] at h
      obtain ⟨hdigit, rfl⟩ := List.cons.inj h
      have hzero : ∀ k : Fin 10, Nat.digitChar k = '0' → k = 0 := by decide
      have hk := hzero ⟨n, hn⟩ hdigit
      exact ⟨congrArg Fin.val hk, rfl⟩
    · rw [natText, Nat.toDigits_of_base_le (by decide) (Nat.le_of_not_lt hn)] at h
      cases hdigits : natText (n / 10) with
      | nil => exact absurd hdigits Nat.toDigits_ne_nil
      | cons c more =>
        rw [show Nat.toDigits 10 (n / 10) = c :: more from hdigits, List.cons_append] at h
        obtain ⟨rfl, -⟩ := List.cons.inj h
        have hzero := (ih (n / 10) (by omega) hdigits).1
        omega

/-- **A natural number below 2⁵³ is a double.** -/
theorem toDouble_natCast {n : ℕ} (h : n < 2 ^ 53) : toDouble (n : ℚ) = .fin n := by
  have hint : |(n : ℤ)| ≤ 2 ^ 53 := by
    rw [Nat.abs_cast]
    exact_mod_cast h.le
  exact_mod_cast toDouble_intCast hint

theorem ne_of_isDigit {c d : Char} (hc : isDigit c = true) (hd : isDigit d = false) : c ≠ d := by
  rintro rfl
  exact absurd (hc.symm.trans hd) (by decide)

theorem takeWhile_natText {n : ℕ} {rest : Text} (h : ∀ c more, rest = c :: more → isDigit c = false) :
    (natText n ++ rest).takeWhile isDigit = natText n ∧
      (natText n ++ rest).dropWhile isDigit = rest := by
  have hdigits : ∀ c ∈ natText n, isDigit c = true := fun c => isDigit_of_mem_natText
  constructor
  · rw [List.takeWhile_append_of_pos hdigits]
    cases rest with
    | nil => simp
    | cons c more => simp [h c more rfl]
  · rw [List.dropWhile_append_of_pos hdigits]
    cases rest with
    | nil => rfl
    | cons c more => simp [h c more rfl]

theorem isLetter_of_isDigit {c : Char} (hc : isDigit c = true) : isLetter c = false := by
  have hnine : '9' < 'A' ∧ '9' < 'a' := by decide
  simp only [isDigit, Bool.and_eq_true, decide_eq_true_eq] at hc
  simp only [isLetter, Bool.or_eq_false_iff, Bool.and_eq_false_iff, decide_eq_false_iff_not,
    Char.not_le]
  exact ⟨.inl (lt_of_le_of_lt hc.2 hnine.2), .inl (lt_of_le_of_lt hc.2 hnine.1)⟩

theorem isSpace_of_isDigit {c : Char} (hc : isDigit c = true) : isSpace c = false := by
  by_contra hspace
  rw [Bool.not_eq_false] at hspace
  simp only [isDigit, Bool.and_eq_true, decide_eq_true_eq, Char.le_def] at hc
  simp only [isSpace, Bool.or_eq_true, List.mem_cons, decide_eq_true_eq,
    Bool.and_eq_true, List.not_mem_nil, or_false] at hspace
  have hnat : '0'.toNat ≤ c.toNat ∧ c.toNat ≤ '9'.toNat := hc
  rcases hspace with h | h
  · rcases h with h | h | h | h | h | h | h | h | h | h | h | h | h | h
    all_goals
      rw [h] at hnat
      exact absurd hnat (by decide)
  · have : '9'.toNat = 57 := rfl
    omega

theorem trim_eq_self {token : Text} (h : ∀ c ∈ token, isSpace c = false) : trim token = token := by
  have hdrop : ∀ l : Text, (∀ c ∈ l, isSpace c = false) → l.dropWhile isSpace = l := by
    intro l hl
    cases l with
    | nil => rfl
    | cons c rest => exact List.dropWhile_cons_of_neg (by simp [hl c List.mem_cons_self])
  unfold trim
  rw [hdrop _ h, hdrop _ fun c hc => h c (List.mem_reverse.mp hc), List.reverse_reverse]

/-- **A decimal literal** is read as the double nearest to what it writes, also behind a sign. -/
theorem numberOf_literal {token : Text} {q : ℚ} (hplain : ∀ c ∈ token, isSpace c = false)
    (hhead : ∀ c rest, token = c :: rest → isDigit c = true)
    (hsecond : ∀ c d rest, token = c :: d :: rest → isLetter d = true → d = 'e')
    (hliteral : decimalLiteral token = some q) :
    numberOf token = toDouble q ∧
      ∀ v, toDouble q = .fin v → numberOf ('-' :: token) = .fin (-v) := by
  have hne : token ≠ [] := by
    rintro rfl
    have hnone : decimalLiteral [] = none := by decide
    rw [hnone] at hliteral
    cases hliteral
  have hinf : token ≠ "Infinity".toList := by
    intro heq
    exact absurd (hhead 'I' _ heq) (by decide)
  constructor
  · unfold numberOf
    dsimp only
    rw [trim_eq_self hplain]
    split
    · exact absurd rfl hne
    · exact absurd (hhead _ _ rfl) (by decide)
    · exact absurd (hhead _ _ rfl) (by decide)
    · exact absurd (hsecond _ _ _ rfl (by decide)) (by decide)
    · exact absurd (hsecond _ _ _ rfl (by decide)) (by decide)
    · exact absurd (hsecond _ _ _ rfl (by decide)) (by decide)
    · exact absurd (hsecond _ _ _ rfl (by decide)) (by decide)
    · exact absurd (hsecond _ _ _ rfl (by decide)) (by decide)
    · exact absurd (hsecond _ _ _ rfl (by decide)) (by decide)
    · rw [if_neg hinf, hliteral]
  · intro v hv
    have htrim : trim ('-' :: token) = '-' :: token :=
      trim_eq_self (List.forall_mem_cons.mpr ⟨by decide, hplain⟩)
    unfold numberOf
    dsimp only
    rw [htrim]
    split
    · rename_i heq
      cases heq
    · rename_i heq
      exact absurd (List.cons.inj heq).1 (by decide)
    · -- the minus sign
      rename_i s heq
      obtain rfl := (List.cons.inj heq).2
      rw [if_neg hinf, hliteral]
      dsimp only
      rw [hv]
    any_goals
      rename_i heq
      exact absurd (List.cons.inj heq).1 (by decide)
    rename_i hminus _ _ _ _ _ _
    exact absurd rfl (hminus token)

/-- **A run of digits** is read as the double nearest to what it writes. -/
theorem numberOf_digits {token : Text} (hne : token ≠ []) (hdigits : ∀ c ∈ token, isDigit c = true) :
    numberOf token = toDouble (digitsVal token) := by
  have hliteral : decimalLiteral token = some (digitsVal token : ℚ) := by
    have hwhile : token.takeWhile isDigit = token := List.takeWhile_eq_self_iff.mpr hdigits
    have hrest : token.dropWhile isDigit = [] := List.dropWhile_eq_nil_iff.mpr hdigits
    unfold decimalLiteral
    simp [hwhile, hrest, hne]
  refine (numberOf_literal (fun c hc => isSpace_of_isDigit (hdigits c hc)) ?_ ?_ hliteral).1
  · intro c rest heq
    exact hdigits c (heq ▸ List.mem_cons_self)
  · intro c d rest heq hletter
    have hd := hdigits d (heq ▸ List.mem_cons_of_mem _ List.mem_cons_self)
    rw [isLetter_of_isDigit hd] at hletter
    cases hletter

/-- The digits of a number, as a number. -/
theorem numberOf_natText (n : ℕ) : numberOf (natText n) = toDouble n := by
  have hne : natText n ≠ [] := Nat.toDigits_ne_nil
  rw [numberOf_digits hne fun c => isDigit_of_mem_natText, digitsVal_natText]

/-- **A natural number from 2⁵³ on** is rounded to a double that is at least 2⁵². -/
theorem toDouble_large {n : ℕ} (h : 2 ^ 53 ≤ n) :
    toDouble (n : ℚ) = .inf false ∨ ∃ q : ℚ, toDouble (n : ℚ) = .fin q ∧ 2 ^ 52 ≤ q := by
  have hq : (2 : ℚ) ^ 53 ≤ n := by exact_mod_cast h
  rcases toDouble_of_large hq with hinf | ⟨v, hv, hlarge⟩
  · exact .inl hinf
  · exact .inr ⟨v, hv, le_trans (by norm_num) hlarge⟩

/-- A token of digits is read to its end. -/
theorem jsonNumber_digits {c : Char} {more rest : Text} (hsign : c ≠ '-')
    (hzero : c = '0' → more = []) (hdigits : (c :: (more ++ rest)).takeWhile isDigit = c :: more)
    (hrest : ∀ d tail, rest = d :: tail → d ≠ '.' ∧ d ≠ 'e' ∧ d ≠ 'E') :
    jsonNumber (c :: (more ++ rest)) = some (numberOf (c :: more), rest) := by
  have hdrop : (c :: (more ++ rest)).drop (c :: more).length = rest := by
    rw [← List.cons_append]
    exact List.drop_left
  unfold jsonNumber
  split
  rename_i sign s hs
  split at hs
  · rename_i heq
    exact absurd (List.cons.inj heq).1 hsign
  · obtain ⟨rfl, rfl⟩ := Prod.mk.inj hs
    dsimp only
    split
    · rename_i tail heq
      obtain ⟨rfl, -⟩ := List.cons.inj heq
      obtain rfl := hzero rfl
      cases rest with
      | nil => simp
      | cons d tail =>
        obtain ⟨hdot, he, hE⟩ := hrest d tail rfl
        simp [hdot, he, hE]
    · rw [hdigits, hdrop]
      cases rest with
      | nil => simp
      | cons d tail =>
        obtain ⟨hdot, he, hE⟩ := hrest d tail rfl
        simp [hdot, he, hE]

/-- **A number reads back**, where what follows does not go on with it. -/
theorem jsonNumber_natText {n : ℕ} {rest : Text}
    (h : ∀ c more, rest = c :: more → isDigit c = false ∧ c ≠ '.' ∧ c ≠ 'e' ∧ c ≠ 'E') :
    jsonNumber (natText n ++ rest) = some (toDouble n, rest) := by
  have hwhile := @takeWhile_natText n rest fun c more heq => (h c more heq).1
  obtain ⟨c, more, hdigits⟩ := List.exists_cons_of_ne_nil (@Nat.toDigits_ne_nil n 10)
  have htext : natText n = c :: more := hdigits
  have hc : isDigit c = true := isDigit_of_mem_natText (htext ▸ List.mem_cons_self)
  have hzero : c = '0' → more = [] := by
    rintro rfl
    exact (head_natText htext).2
  rw [← numberOf_natText n]
  rw [htext, List.cons_append] at hwhile ⊢
  exact jsonNumber_digits (ne_of_isDigit hc rfl) hzero hwhile.1 fun d tail heq => (h d tail heq).2

/-! ### Texts -/

theorem hexDigit_hexChar : ∀ n : Fin 16, hexDigit? (hexChar n) = some n.val := by
  decide

/-- One escaped character reads back. -/
theorem jsonStringBody_cons (c : Char) (fuel : ℕ) (rest : Text) :
    jsonStringBody (fuel + 1) (jsonEscape c ++ rest) =
      (jsonStringBody fuel rest).map fun p => (c :: p.1, p.2) := by
  unfold jsonEscape
  split_ifs with h1 h2 h3 h4 h5 h6 h7 h8
  · subst h1
    cases h : jsonStringBody fuel rest <;> simp [jsonStringBody, simpleEscape?, h]
  · subst h2
    cases h : jsonStringBody fuel rest <;> simp [jsonStringBody, simpleEscape?, h]
  · subst h3
    cases h : jsonStringBody fuel rest <;> simp [jsonStringBody, simpleEscape?, h]
  · subst h4
    cases h : jsonStringBody fuel rest <;> simp [jsonStringBody, simpleEscape?, h]
  · subst h5
    cases h : jsonStringBody fuel rest <;> simp [jsonStringBody, simpleEscape?, h]
  · subst h6
    cases h : jsonStringBody fuel rest <;> simp [jsonStringBody, simpleEscape?, h]
  · subst h7
    cases h : jsonStringBody fuel rest <;> simp [jsonStringBody, simpleEscape?, h]
  · -- a control character is written as four hexadecimal digits
    have hhigh := hexDigit_hexChar ⟨c.toNat / 16, by omega⟩
    have hlow := hexDigit_hexChar ⟨c.toNat % 16, by omega⟩
    have hhex : hex4 ('0' :: '0' :: hexChar (c.toNat / 16) :: hexChar (c.toNat % 16) :: rest) =
        some (c.toNat, rest) := by
      have hsum : c.toNat / 16 * 16 + c.toNat % 16 = c.toNat := by omega
      simp [hex4, hhigh, hlow, hsum, show hexDigit? '0' = some 0 from rfl]
    have hpair : ¬ (0xd800 ≤ c.toNat ∧ c.toNat < 0xdc00) := by omega
    have hsurrogate : ¬ (0xd800 ≤ c.toNat ∧ c.toNat < 0xe000) := by omega
    simp only [List.cons_append, List.nil_append, jsonStringBody]
    rw [if_neg (by decide), if_pos trivial, if_pos trivial, hhex]
    cases h : jsonStringBody fuel rest with
    | none => simp [hpair, hsurrogate, h]
    | some p => simp [hpair, hsurrogate, h, Char.ofNat_toNat]
  · cases h : jsonStringBody fuel rest <;> simp [jsonStringBody, h1, h2, h8, h]

/-- **A quoted text reads back.** -/
theorem jsonStringBody_escape {s : Text} {fuel : ℕ} (h : s.length < fuel) (rest : Text) :
    jsonStringBody fuel (s.flatMap jsonEscape ++ '"' :: rest) = some (s, rest) := by
  induction s generalizing fuel with
  | nil =>
    obtain ⟨fuel, rfl⟩ := Nat.exists_eq_succ_of_ne_zero (Nat.ne_of_gt h)
    simp [jsonStringBody]
  | cons c s ih =>
    obtain ⟨fuel, rfl⟩ := Nat.exists_eq_succ_of_ne_zero (Nat.ne_of_gt (Nat.zero_lt_of_lt h))
    rw [List.flatMap_cons, List.append_assoc, jsonStringBody_cons,
      ih (Nat.lt_of_succ_lt_succ h)]
    rfl

theorem length_le_flatMap_jsonEscape (s : Text) : s.length ≤ (s.flatMap jsonEscape).length := by
  induction s with
  | nil => exact Nat.le_refl _
  | cons c s ih =>
    have hone : 1 ≤ (jsonEscape c).length := by
      unfold jsonEscape
      split_ifs <;> simp
    rw [List.flatMap_cons, List.length_append, List.length_cons]
    omega

/-! ### Objects -/

/-- A member's value: a text or a natural number. -/
inductive Leaf where
  | text (s : Text)
  | nat (n : ℕ)
  deriving DecidableEq, Repr

def Leaf.write : Leaf → Text
  | .text s => jsonString s
  | .nat n => natText n

def Leaf.value : Leaf → Json
  | .text s => .str s
  | .nat n => .num (toDouble n)

/-- Follows a value in an object. -/
def EndsValue (rest : Text) : Prop :=
  ∀ c more, rest = c :: more → c = ',' ∨ c = '\x7d'

theorem jsonValue_write {leaf : Leaf} {fuel : ℕ} {rest : Text} (h : EndsValue rest) :
    jsonValue (fuel + 1) (leaf.write ++ rest) = some (leaf.value, rest) := by
  cases leaf with
  | text s =>
    have hspace : skipJsonSpace (jsonString s ++ rest) =
        '"' :: (s.flatMap jsonEscape ++ '"' :: rest) := by
      simp [skipJsonSpace, jsonString]
    have hbody : jsonStringBody ((s.flatMap jsonEscape ++ '"' :: rest).length + 1)
        (s.flatMap jsonEscape ++ '"' :: rest) = some (s, rest) := by
      refine jsonStringBody_escape ?_ rest
      have hle := length_le_flatMap_jsonEscape s
      rw [List.length_append]
      omega
    show jsonValue (fuel + 1) (jsonString s ++ rest) = _
    rw [jsonValue, hspace]
    simp only [hbody, Option.map_some]
    rfl
  | nat n =>
    have hends : ∀ c more, rest = c :: more → isDigit c = false ∧ c ≠ '.' ∧ c ≠ 'e' ∧ c ≠ 'E' := by
      intro c more heq
      rcases h c more heq with rfl | rfl
      · decide
      · decide
    obtain ⟨c, more, hdigits⟩ := List.exists_cons_of_ne_nil (@Nat.toDigits_ne_nil n 10)
    have hc : isDigit c = true := isDigit_of_mem_natText (hdigits ▸ List.mem_cons_self)
    have hne : ∀ d, isDigit d = false → c ≠ d := fun d => ne_of_isDigit hc
    have hspace : skipJsonSpace (natText n ++ rest) = c :: (more ++ rest) := by
      have htext : natText n ++ rest = c :: (more ++ rest) := by
        rw [natText, hdigits, List.cons_append]
      rw [htext, skipJsonSpace, List.dropWhile_cons_of_neg]
      simp [hne '\t' rfl, hne '\n' rfl, hne '\r' rfl, hne ' ' rfl]
    have hword : ∀ w word, isDigit w = false → stripWord? (w :: word) (c :: (more ++ rest)) = none := by
      intro w word hw
      rw [stripWord?, if_neg]
      simp [List.isPrefixOf, Ne.symm (hne w hw)]
    have hnull : stripWord? "null" (c :: (more ++ rest)) = none := hword 'n' "ull".toList rfl
    have htrue : stripWord? "true" (c :: (more ++ rest)) = none := hword 't' "rue".toList rfl
    have hfalse : stripWord? "false" (c :: (more ++ rest)) = none := hword 'f' "alse".toList rfl
    show jsonValue (fuel + 1) (natText n ++ rest) = _
    rw [jsonValue, hspace]
    split
    · rename_i heq
      exact absurd (List.cons.inj heq).1 (hne _ rfl)
    · rename_i heq
      exact absurd (List.cons.inj heq).1 (hne _ rfl)
    · rename_i heq
      exact absurd (List.cons.inj heq).1 (hne _ rfl)
    · rw [hnull, htrue, hfalse]
      have hnumber : jsonNumber (c :: (more ++ rest)) = some (toDouble n, rest) := by
        rw [← jsonNumber_natText hends, natText, hdigits, List.cons_append]
      simp only [hnumber, Option.map_some]
      rfl

/-- A new member that is no array index is listed last. -/
theorem defineEntry_new {α : Type} {key : Text} {value : α} {entries : List (Text × α)}
    (hnew : key ∉ entries.map Prod.fst) (hindex : arrayIndex? key = none) :
    defineEntry key value entries = entries ++ [(key, value)] := by
  induction entries with
  | nil => rfl
  | cons e rest ih =>
    obtain ⟨k, v⟩ := e
    rw [List.map_cons, List.mem_cons, not_or] at hnew
    have hbefore : keyBefore key k = false := by
      unfold keyBefore
      rw [hindex]
    rw [defineEntry, if_neg (Ne.symm hnew.1), hbefore, Bool.false_and, if_neg (by decide),
      ih hnew.2]
    rfl

/-- A member as it is written. -/
def writeMember (m : Text × Leaf) : Text := jsonString m.1 ++ ':' :: m.2.write

/-- One member is read, and then what its end calls for. -/
theorem jsonMembers_member {m : Text × Leaf} {fuel : ℕ} {read : List (Text × Json)} {tail : Text}
    (hkey : m.1 ∉ read.map Prod.fst) (hindex : arrayIndex? m.1 = none) :
    jsonMembers (fuel + 2) (writeMember m ++ ',' :: tail) read =
        jsonMembers (fuel + 1) tail (read ++ [(m.1, m.2.value)]) ∧
      jsonMembers (fuel + 2) (writeMember m ++ '\x7d' :: tail) read =
        some (read ++ [(m.1, m.2.value)], tail) := by
  have hdefine := @defineEntry_new _ m.1 m.2.value read hkey hindex
  have hbody : ∀ rest, jsonStringBody ((m.1.flatMap jsonEscape ++ '"' :: rest).length + 1)
      (m.1.flatMap jsonEscape ++ '"' :: rest) = some (m.1, rest) := by
    intro rest
    refine jsonStringBody_escape ?_ rest
    have hle := length_le_flatMap_jsonEscape m.1
    rw [List.length_append]
    omega
  have htext : ∀ rest, writeMember m ++ rest =
      '"' :: (m.1.flatMap jsonEscape ++ '"' :: ':' :: (m.2.write ++ rest)) := by
    intro rest
    simp [writeMember, jsonString]
  have hquote : ∀ r, skipJsonSpace ('"' :: r) = '"' :: r := fun r => rfl
  have hcolon : ∀ r, skipJsonSpace (':' :: r) = ':' :: r := fun r => rfl
  constructor
  · have hvalue : jsonValue (fuel + 1) (m.2.write ++ ',' :: tail) = some (m.2.value, ',' :: tail) :=
      jsonValue_write fun c more heq => .inl (List.cons.inj heq).1.symm
    have hcomma : skipJsonSpace (',' :: tail) = ',' :: tail := rfl
    rw [htext, jsonMembers, hquote]
    simp only [hbody]
    rw [hcolon]
    simp only [hvalue, hdefine]
    rw [hcomma]
    rfl
  · have hvalue : jsonValue (fuel + 1) (m.2.write ++ '\x7d' :: tail) =
        some (m.2.value, '\x7d' :: tail) :=
      jsonValue_write fun c more heq => .inr (List.cons.inj heq).1.symm
    have hbrace : skipJsonSpace ('\x7d' :: tail) = '\x7d' :: tail := rfl
    rw [htext, jsonMembers, hquote]
    simp only [hbody]
    rw [hcolon]
    simp only [hvalue, hdefine]
    rw [hbrace]
    rfl

/-- The members from one on, with the brace that ends them. -/
theorem jsonMembers_write {m : Text × Leaf} {more : List (Text × Leaf)} {fuel : ℕ}
    {read : List (Text × Json)} (hfuel : more.length + 1 < fuel)
    (hnodup : (read.map Prod.fst ++ (m :: more).map Prod.fst).Nodup)
    (hindex : ∀ key ∈ (m :: more).map Prod.fst, arrayIndex? key = none) :
    jsonMembers fuel ([','].intercalate ((m :: more).map writeMember) ++ ['\x7d']) read =
      some (read ++ (m :: more).map fun m => (m.1, m.2.value), []) := by
  induction more generalizing m fuel read with
  | nil =>
    obtain ⟨fuel, rfl⟩ : ∃ k, fuel = k + 2 := ⟨fuel - 2, by simp at hfuel; omega⟩
    have hkey : m.1 ∉ read.map Prod.fst := by
      intro hmem
      exact (List.nodup_append.mp hnodup).2.2 _ hmem _ List.mem_cons_self rfl
    have htext : [','].intercalate ([m].map writeMember) ++ ['\x7d'] = writeMember m ++ ['\x7d'] := by
      simp [List.intercalate]
    rw [htext]
    exact (jsonMembers_member hkey (hindex m.1 List.mem_cons_self)).2
  | cons next more ih =>
    obtain ⟨fuel, rfl⟩ : ∃ k, fuel = k + 2 := ⟨fuel - 2, by simp at hfuel; omega⟩
    have hkey : m.1 ∉ read.map Prod.fst := by
      intro hmem
      exact (List.nodup_append.mp hnodup).2.2 _ hmem _ List.mem_cons_self rfl
    have htext : [','].intercalate ((m :: next :: more).map writeMember) ++ ['\x7d'] =
        writeMember m ++ ',' :: ([','].intercalate ((next :: more).map writeMember) ++ ['\x7d']) := by
      simp [List.intercalate]
    have hrest := @ih next (fuel + 1) (read ++ [(m.1, m.2.value)])
      (by simp at hfuel ⊢; omega) (by simpa using hnodup)
      (fun key hmem => hindex key (List.mem_cons_of_mem _ hmem))
    rw [htext, (jsonMembers_member hkey (hindex m.1 List.mem_cons_self)).1, hrest]
    simp

theorem length_le_intercalate (members : List (Text × Leaf)) :
    members.length ≤ ([','].intercalate (members.map writeMember)).length := by
  induction members with
  | nil => exact Nat.le_refl _
  | cons m more ih =>
    have hone : 1 ≤ (writeMember m).length := by
      simp [writeMember, jsonString]
    cases more with
    | nil => simpa [List.intercalate] using hone
    | cons next more =>
      have htext : [','].intercalate ((m :: next :: more).map writeMember) =
          writeMember m ++ ',' :: [','].intercalate ((next :: more).map writeMember) := by
        simp [List.intercalate]
      rw [htext, List.length_append, List.length_cons, List.length_cons (a := ',')]
      omega

/-- **An object reads back**: `JSON.parse` of what `JSON.stringify` writes. -/
theorem jsonParse_jsonObject {members : List (Text × Leaf)}
    (hnodup : (members.map Prod.fst).Nodup)
    (hindex : ∀ key ∈ members.map Prod.fst, arrayIndex? key = none) :
    jsonParse (jsonObject (members.map fun m => (m.1, m.2.write))) =
      some (.obj (members.map fun m => (m.1, m.2.value))) := by
  cases members with
  | nil => rfl
  | cons m more =>
    have hbody : ((m :: more).map fun m => (m.1, m.2.write)).map
        (fun m => jsonString m.1 ++ ':' :: m.2) = (m :: more).map writeMember := by
      rw [List.map_map]
      rfl
    have hlength := length_le_intercalate (m :: more)
    generalize hwritten : [','].intercalate ((m :: more).map writeMember) = written at hlength
    have hquote : ∃ rest, written = '"' :: rest := by
      rw [← hwritten]
      cases more with
      | nil => exact ⟨_, by simp [List.intercalate, writeMember, jsonString]; rfl⟩
      | cons next more => exact ⟨_, by simp [List.intercalate, writeMember, jsonString]; rfl⟩
    have hread := @jsonMembers_write m more (2 * (written.length + 2) + 1) []
      (by rw [List.length_cons] at hlength; omega) (by simpa using hnodup) hindex
    rw [hwritten, List.nil_append] at hread
    have htext : jsonObject ((m :: more).map fun m => (m.1, m.2.write)) =
        '\x7b' :: (written ++ ['\x7d']) := by
      rw [jsonObject, hbody, hwritten]
      rfl
    have hfuel : 2 * ('\x7b' :: (written ++ ['\x7d'])).length + 2 =
        2 * (written.length + 2) + 1 + 1 := by
      simp
    obtain ⟨rest, hrest⟩ := hquote
    rw [htext, jsonParse, hfuel, jsonValue,
      show skipJsonSpace ('\x7b' :: (written ++ ['\x7d'])) = '\x7b' :: (written ++ ['\x7d']) from rfl]
    have hskip : skipJsonSpace (written ++ ['\x7d']) = '"' :: (rest ++ ['\x7d']) := by
      rw [hrest]
      rfl
    simp only [hskip, hread, Option.map_some]
    rfl

/-! ### The keys of what is parsed -/

/-- A value all of whose objects have distinct keys. -/
inductive DistinctKeys : Json → Prop
  | null : DistinctKeys .null
  | bool (b : Bool) : DistinctKeys (.bool b)
  | num (n : Num) : DistinctKeys (.num n)
  | str (s : Text) : DistinctKeys (.str s)
  | arr {items : List Json} (h : ∀ j ∈ items, DistinctKeys j) : DistinctKeys (.arr items)
  | obj {members : List (Text × Json)} (hnodup : (members.map Prod.fst).Nodup)
      (h : ∀ m ∈ members, DistinctKeys m.2) : DistinctKeys (.obj members)

theorem DistinctKeys.member {members : List (Text × Json)} (h : DistinctKeys (.obj members))
    {key : Text} {value : Json} (hmember : Json.member members key = some value) :
    DistinctKeys value := by
  obtain ⟨m, hfind, rfl⟩ := Option.map_eq_some_iff.mp hmember
  cases h with
  | obj hnodup hvalues => exact hvalues m (List.mem_of_find?_eq_some hfind)

/-- Adding a member keeps a property of the values. -/
theorem forall_defineEntry {α : Type} {p : α → Prop} {key : Text} {value : α} (hvalue : p value)
    {entries : List (Text × α)} (h : ∀ e ∈ entries, p e.2) :
    ∀ e ∈ defineEntry key value entries, p e.2 := by
  induction entries with
  | nil => simpa [defineEntry] using hvalue
  | cons e rest ih =>
    obtain ⟨hfirst, hrest⟩ := List.forall_mem_cons.mp h
    rw [defineEntry]
    split
    · exact List.forall_mem_cons.mpr ⟨hvalue, hrest⟩
    · split
      · exact List.forall_mem_cons.mpr ⟨hvalue, h⟩
      · exact List.forall_mem_cons.mpr ⟨hfirst, ih hrest⟩

/-- **What is parsed** has distinct keys at every level. -/
theorem distinctKeys_jsonValue (fuel : ℕ) :
    (∀ s j rest, jsonValue fuel s = some (j, rest) → DistinctKeys j) ∧
    (∀ s items rest, jsonElements fuel s = some (items, rest) → ∀ j ∈ items, DistinctKeys j) ∧
    (∀ s members read rest, jsonMembers fuel s members = some (read, rest) →
      (members.map Prod.fst).Nodup → (∀ m ∈ members, DistinctKeys m.2) →
        DistinctKeys (.obj read)) := by
  induction fuel with
  | zero =>
    refine ⟨?_, ?_, ?_⟩
    · intro s j rest h
      exact absurd h (by simp [jsonValue])
    · intro s items rest h
      exact absurd h (by simp [jsonElements])
    · intro s members read rest h
      exact absurd h (by simp [jsonMembers])
  | succ fuel ih =>
    obtain ⟨hvalue, helements, hmembers⟩ := ih
    refine ⟨?_, ?_, ?_⟩
    · intro s j rest h
      rw [jsonValue] at h
      split at h
      · obtain ⟨p, -, heq⟩ := Option.map_eq_some_iff.mp h
        rw [← (Prod.mk.inj heq).1]
        exact .str p.1
      · split at h
        · rw [← (Prod.mk.inj (Option.some.inj h)).1]
          exact .arr fun j hj => absurd hj List.not_mem_nil
        · obtain ⟨p, hread, heq⟩ := Option.map_eq_some_iff.mp h
          rw [← (Prod.mk.inj heq).1]
          exact .arr (helements _ p.1 p.2 hread)
      · split at h
        · rw [← (Prod.mk.inj (Option.some.inj h)).1]
          exact .obj List.nodup_nil fun m hm => absurd hm List.not_mem_nil
        · obtain ⟨p, hread, heq⟩ := Option.map_eq_some_iff.mp h
          rw [← (Prod.mk.inj heq).1]
          exact hmembers _ [] p.1 p.2 hread List.nodup_nil
            fun m hm => absurd hm List.not_mem_nil
      · split at h
        · rw [← (Prod.mk.inj (Option.some.inj h)).1]
          exact .null
        · rw [← (Prod.mk.inj (Option.some.inj h)).1]
          exact .bool true
        · rw [← (Prod.mk.inj (Option.some.inj h)).1]
          exact .bool false
        · obtain ⟨p, -, heq⟩ := Option.map_eq_some_iff.mp h
          rw [← (Prod.mk.inj heq).1]
          exact .num p.1
    · intro s items rest h
      rw [jsonElements] at h
      split at h
      · exact absurd h nofun
      rename_i first more hfirst
      split at h
      · obtain ⟨p, hread, heq⟩ := Option.map_eq_some_iff.mp h
        rw [← (Prod.mk.inj heq).1]
        exact List.forall_mem_cons.mpr ⟨hvalue _ _ _ hfirst, helements _ p.1 p.2 hread⟩
      · rw [← (Prod.mk.inj (Option.some.inj h)).1]
        exact List.forall_mem_singleton.mpr (hvalue _ _ _ hfirst)
      · exact absurd h nofun
    · intro s members read rest h hnodup hall
      rw [jsonMembers] at h
      split at h
      · split at h
        · exact absurd h nofun
        · split at h
          · split at h
            · exact absurd h nofun
            · rename_i value more hread
              dsimp only at h
              split at h
              · exact hmembers _ _ _ _ h (nodup_defineEntry hnodup)
                  (forall_defineEntry (hvalue _ _ _ hread) hall)
              · rw [← (Prod.mk.inj (Option.some.inj h)).1]
                exact .obj (nodup_defineEntry hnodup)
                  (forall_defineEntry (hvalue _ _ _ hread) hall)
              · exact absurd h nofun
          · exact absurd h nofun
      · exact absurd h nofun

theorem distinctKeys_jsonParse {text : Text} {j : Json} (h : jsonParse text = some j) :
    DistinctKeys j := by
  unfold jsonParse at h
  split at h
  · rename_i heq
    split at h
    · rw [Option.some.inj h] at heq
      exact (distinctKeys_jsonValue _).1 _ _ _ heq
    · exact absurd h nofun
  · exact absurd h nofun

theorem nodup_jsonParse {text : Text} {members : List (Text × Json)}
    (h : jsonParse text = some (.obj members)) : (members.map Prod.fst).Nodup := by
  cases distinctKeys_jsonParse h with
  | obj hnodup _ => exact hnodup

end KodyCelld.Lib
