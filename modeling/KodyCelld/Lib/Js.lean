import Mathlib

namespace KodyCelld.Lib

/-!
# JavaScript text and numbers

What the source takes from the language itself, as far as the model uses it:

* `Text` — a string as the list of its characters, with the whitespace class that `trim`, `\s`
  and `Number` share;
* `Num` — an IEEE-754 binary64 value (a finite one is kept as the rational it denotes),
  rounding to nearest-even, and `Number(text)`.
-/

/-- A JavaScript string, character by character. -/
abbrev Text := List Char

/-- Membership in lists of texts is decided by comparing texts. -/
instance lawfulBEqText : LawfulBEq Text := inferInstance

instance : Coe String Text := ⟨String.toList⟩

/-- What is said of the characters of a text is decided one by one, not over all characters. -/
instance (priority := high) decidableForallChar (s : Text) (p : Char → Prop) [DecidablePred p] :
    Decidable (∀ c ∈ s, p c) := List.decidableBAll p s

/-- How a natural number prints. -/
def natText (n : ℕ) : Text := Nat.toDigits 10 n

/-- `text.length`: UTF-16 code units. -/
def utf16Length (s : Text) : ℕ := (s.map fun c => if 0x10000 ≤ c.toNat then 2 else 1).sum

/-- The length of the text in UTF-8 bytes. -/
def utf8Length (s : Text) : ℕ := (s.map Char.utf8Size).sum

/-! ### Text -/

/-- The `\s` class, which is also what `trim` removes. -/
def isSpace (c : Char) : Bool :=
  c ∈ ['\t', '\n', '\x0b', '\x0c', '\r', ' ', '\u00a0', '\u1680', '\u2028', '\u2029', '\u202f',
    '\u205f', '\u3000', '\ufeff'] || (0x2000 ≤ c.toNat && c.toNat ≤ 0x200a)

/-- `text.trim()`. -/
def trim (s : Text) : Text := ((s.dropWhile isSpace).reverse.dropWhile isSpace).reverse

/-- What is left of a text whose start was dropped does not start so. -/
theorem dropWhile_idem (p : Char → Bool) (s : Text) : (s.dropWhile p).dropWhile p = s.dropWhile p := by
  induction s with
  | nil => rfl
  | cons c rest ih =>
    cases hc : p c with
    | true => rw [List.dropWhile_cons_of_pos hc, ih]
    | false => rw [List.dropWhile_cons_of_neg (by simp [hc]), List.dropWhile_cons_of_neg (by simp [hc])]

/-- Trimming a trimmed text changes nothing. -/
theorem trim_trim (s : Text) : trim (trim s) = trim s := by
  have hstart : (trim s).dropWhile isSpace = trim s := by
    obtain ⟨dropped, hsplit⟩ : ∃ dropped, s.dropWhile isSpace = trim s ++ dropped := by
      obtain ⟨front, hfront⟩ := List.dropWhile_suffix isSpace (l := (s.dropWhile isSpace).reverse)
      refine ⟨front.reverse, ?_⟩
      rw [trim, ← List.reverse_append, hfront, List.reverse_reverse]
    cases htrim : trim s with
    | nil => rfl
    | cons c rest =>
      -- the first character is the first one that is kept
      have hc : ¬ isSpace c = true := by
        intro hspace
        have hidem := dropWhile_idem isSpace s
        rw [hsplit, htrim, List.cons_append, List.dropWhile_cons_of_pos hspace] at hidem
        have hlength := congrArg List.length hidem
        have hle := (List.dropWhile_sublist isSpace (l := rest ++ dropped)).length_le
        rw [List.length_cons] at hlength
        omega
      rw [List.dropWhile_cons_of_neg hc]
  have hend : (trim s).reverse.dropWhile isSpace = (trim s).reverse := by
    rw [trim, List.reverse_reverse]
    exact dropWhile_idem isSpace _
  calc trim (trim s)
      = (((trim s).dropWhile isSpace).reverse.dropWhile isSpace).reverse := rfl
    _ = ((trim s).reverse.dropWhile isSpace).reverse := by rw [hstart]
    _ = trim s := by rw [hend, List.reverse_reverse]

/-- `\d` -/
def isDigit (c : Char) : Bool := '0' ≤ c && c ≤ '9'

/-- `[a-z]` under the `i` flag. -/
def isLetter (c : Char) : Bool := ('a' ≤ c && c ≤ 'z') || ('A' ≤ c && c ≤ 'Z')

/-- `text.toLowerCase()` on ASCII text. -/
def lower (s : Text) : Text := s.map Char.toLower

/-- `text.split(/\s+/)`: the pieces between runs of whitespace, empty ones at the ends kept. -/
def splitSpaces : Text → List Text
  | [] => [[]]
  | c :: cs =>
    match splitSpaces cs with
    | [] => [[c]]
    | p :: ps =>
      if isSpace c then
        -- a run is one separator: only its last character opens a new piece
        match cs with
        | d :: _ => if isSpace d then p :: ps else [] :: p :: ps
        | [] => [] :: p :: ps
      else (c :: p) :: ps

/-- The digits of a decimal literal as the number they write. -/
def digitsVal (s : Text) : ℕ := s.foldl (fun n c => 10 * n + (c.toNat - '0'.toNat)) 0

/-! ### Numbers -/

/-- A binary64 value; the sign of zero is not kept. -/
inductive Num where
  | nan
  | inf (negative : Bool)
  | fin (q : ℚ)
  deriving DecidableEq, Repr

/-- The greatest `k` with `2 ^ k ≤ n / d`, for positive `n` and `d`. -/
def floorLog2 (n d : ℕ) : ℤ :=
  let k : ℤ := (n.log2 : ℤ) - d.log2
  if 0 ≤ k then
    if d * 2 ^ k.toNat ≤ n then k else k - 1
  else
    if d ≤ n * 2 ^ (-k).toNat then k else k - 1

/-- Round to the nearest integer, ties to even. -/
def roundHalfEven (q : ℚ) : ℤ :=
  let f := ⌊q⌋
  if q - f < 1 / 2 then f
  else if 1 / 2 < q - f then f + 1
  else if f % 2 = 0 then f else f + 1

/-- The binary64 value nearest to a rational. -/
def toDouble (q : ℚ) : Num :=
  if q = 0 then .fin 0
  else
    let e := max (floorLog2 q.num.natAbs q.den - 52) (-1074)
    let v := (roundHalfEven (q / (2 : ℚ) ^ e) : ℚ) * (2 : ℚ) ^ e
    if (2 : ℚ) ^ 1024 ≤ |v| then .inf (decide (q < 0)) else .fin v

/-- `a * b`; an infinite factor is only met with a positive other one. -/
def Num.mul : Num → Num → Num
  | .fin p, .fin q => toDouble (p * q)
  | .inf s, .fin q => if q = 0 then .nan else .inf (s != decide (q < 0))
  | .fin p, .inf s => if p = 0 then .nan else .inf (s != decide (p < 0))
  | .inf s, .inf t => .inf (s != t)
  | _, _ => .nan

/-- `a < b`; false when either is `NaN`. -/
def Num.lt : Num → Num → Bool
  | .fin p, .fin q => decide (p < q)
  | .fin _, .inf s => !s
  | .inf s, .fin _ => s
  | .inf s, .inf t => s && !t
  | _, _ => false

/-- The value as a natural number, when `Number.isInteger` holds and it is not negative. -/
def Num.toNat? : Num → Option ℕ
  | .fin q => if q.den = 1 ∧ 0 ≤ q then some q.num.toNat else none
  | _ => none

/-- A decimal literal without sign: digits, fraction, exponent. -/
def decimalLiteral (s : Text) : Option ℚ :=
  let int := s.takeWhile isDigit
  let rest := s.dropWhile isDigit
  let frac := match rest with
    | '.' :: r => r.takeWhile isDigit
    | _ => []
  let rest := match rest with
    | '.' :: r => r.dropWhile isDigit
    | r => r
  if int = [] ∧ frac = [] then none
  else
    let mantissa : ℚ := (digitsVal (int ++ frac) : ℚ) / 10 ^ frac.length
    match rest with
    | [] => some mantissa
    | e :: r =>
      if e = 'e' ∨ e = 'E' then
        match r with
        | '-' :: ds => if ds ≠ [] ∧ ds.all isDigit then some (mantissa / 10 ^ digitsVal ds) else none
        | '+' :: ds => if ds ≠ [] ∧ ds.all isDigit then some (mantissa * 10 ^ digitsVal ds) else none
        | ds => if ds ≠ [] ∧ ds.all isDigit then some (mantissa * 10 ^ digitsVal ds) else none
      else none

/-- The digits of a `0x`, `0o` or `0b` literal. -/
def radixLiteral (radix : ℕ) (s : Text) : Option ℕ :=
  let digit (c : Char) : Option ℕ :=
    let v := if isDigit c then c.toNat - '0'.toNat else c.toLower.toNat - 'a'.toNat + 10
    if (isDigit c || isLetter c) && decide (v < radix) then some v else none
  if s = [] then none
  else s.foldl (fun acc c => acc.bind fun n => (digit c).map (radix * n + ·)) (some 0)

/-- `Number(text)`. -/
def numberOf (text : Text) : Num :=
  let unsigned (s : Text) : Num :=
    if s = "Infinity".toList then .inf false
    else match decimalLiteral s with
      | some q => toDouble q
      | none => .nan
  let radix (r : ℕ) (s : Text) : Num :=
    match radixLiteral r s with
    | some n => toDouble n
    | none => .nan
  match trim text with
  | [] => .fin 0
  | '+' :: s => unsigned s
  | '-' :: s => match unsigned s with
    | .fin q => .fin (-q)
    | .inf _ => .inf true
    | .nan => .nan
  | '0' :: 'x' :: s => radix 16 s
  | '0' :: 'X' :: s => radix 16 s
  | '0' :: 'o' :: s => radix 8 s
  | '0' :: 'O' :: s => radix 8 s
  | '0' :: 'b' :: s => radix 2 s
  | '0' :: 'B' :: s => radix 2 s
  | s => unsigned s

end KodyCelld.Lib
