import KodyCelld.Jobs.Schedule
import KodyCelld.Lib.JsonText
import KodyCelld.Lib.Texts

namespace KodyCelld.Jobs

open KodyCelld.Lib

/-!
# The grammar of cron expressions (`parseCron`)

What the five fields of an expression may hold, and which values they mean, said without the
parser's splits and defaults:

* `cronNumber_ok_iff` — the tokens that are numbers;
* `parseCronPart_ok` / `parseCronPart_read` — one list element, read and denoted;
* `parseCron_grammar` — a whole expression is accepted exactly when its fields are in the grammar.

The parser drops what follows a second `/` or `-`, takes a number past the range when a step follows
it, and knows 7 as Sunday only where a weekday element opens with it.  `FieldKind.Regular` says that
an element is none of these.
-/

/-! ### Fields and their elements -/

/-- One of the five fields: its range and the names of its first values. -/
structure FieldKind where
  min : ℕ
  max : ℕ
  names : List Text
  /-- Whether 7 is a second number of the first value, as it is for Sunday. -/
  sunday : Bool
  names_nodup : names.Nodup
  names_letters : ∀ name ∈ names, name.length = 3 ∧ ∀ c ∈ name, isLetter c = true
  names_inRange : min + names.length ≤ max + 1
  min_le_max : min ≤ max
  max_lt : max < 60
  sunday_range : sunday = true → min = 0 ∧ max < 7

def minuteField : FieldKind where
  min := 0
  max := 59
  names := []
  sunday := false
  names_nodup := by decide
  names_letters := by decide
  names_inRange := by decide
  min_le_max := by decide
  max_lt := by decide
  sunday_range := nofun

def hourField : FieldKind where
  min := 0
  max := 23
  names := []
  sunday := false
  names_nodup := by decide
  names_letters := by decide
  names_inRange := by decide
  min_le_max := by decide
  max_lt := by decide
  sunday_range := nofun

def dayOfMonthField : FieldKind where
  min := 1
  max := 31
  names := []
  sunday := false
  names_nodup := by decide
  names_letters := by decide
  names_inRange := by decide
  min_le_max := by decide
  max_lt := by decide
  sunday_range := nofun

def monthField : FieldKind where
  min := 1
  max := 12
  names := monthNames
  sunday := false
  names_nodup := by decide
  names_letters := by decide
  names_inRange := by decide
  min_le_max := by decide
  max_lt := by decide
  sunday_range := nofun

def dayOfWeekField : FieldKind where
  min := 0
  max := 6
  names := dayNames
  sunday := true
  names_nodup := by decide
  names_letters := by decide
  names_inRange := by decide
  min_le_max := by decide
  max_lt := by decide
  sunday_range := fun _ => by decide

/-- What an element of a list spans, before its step. -/
inductive Span where
  | all
  | single (n : ℕ)
  | range (n m : ℕ)
  deriving DecidableEq

/-- An element of a list. -/
structure Element where
  span : Span
  step : Option ℕ
  deriving DecidableEq

/-- A name of the field in any letter case, or decimal digits. -/
def FieldKind.WritesPlain (f : FieldKind) (text : Text) (n : ℕ) : Prop :=
  (∃ i, f.names[i]? = some (lower text) ∧ n = i + f.min) ∨
    (text ≠ [] ∧ (∀ c ∈ text, isDigit c = true) ∧ n = digitsVal text)

/-- The texts of a number; a `7` is Sunday too. -/
def FieldKind.Writes (f : FieldKind) (text : Text) (n : ℕ) : Prop :=
  f.WritesPlain text n ∨ (f.sunday = true ∧ text = ['7'] ∧ n = 0)

/-- `*`, `n` or `n-m`; an empty text stands for `*`. -/
inductive WritesSpan (number : Text → ℕ → Prop) : Text → Span → Prop
  | empty : WritesSpan number [] .all
  | star : WritesSpan number ['*'] .all
  | single {text n} : number text n → WritesSpan number text (.single n)
  | range {a b n m} : number a n → number b m → n ≤ m →
      WritesSpan number (a ++ '-' :: b) (.range n m)

/-- A span, with or without `/` and a step: a text that `Number` reads as a positive integer. -/
inductive WritesElement (number : Text → ℕ → Prop) : Text → Element → Prop
  | plain {text span} : WritesSpan number text span → WritesElement number text ⟨span, none⟩
  | stepped {text span stepText step} : WritesSpan number text span → '/' ∉ stepText →
      (numberOf stepText).toNat? = some step → 1 ≤ step →
      WritesElement number (text ++ '/' :: stepText) ⟨span, some step⟩

/-- Every value that is written lies in the field's range. -/
def Span.InRange (f : FieldKind) : Span → Prop
  | .all => True
  | .single n => f.min ≤ n ∧ n ≤ f.max
  | .range n m => f.min ≤ n ∧ m ≤ f.max

def Element.start (f : FieldKind) (e : Element) : ℕ :=
  match e.span with
  | .all => f.min
  | .single n => n
  | .range n _ => n

/-- A single value with a step goes on to the end of the range. -/
def Element.stop (f : FieldKind) (e : Element) : ℕ :=
  match e.span with
  | .all => f.max
  | .single n => if e.step.isNone then n else f.max
  | .range _ m => m

/-- The values an element denotes. -/
def Element.values (f : FieldKind) (e : Element) : Set ℕ :=
  {v | v ≤ e.stop f ∧ ∃ k, v = e.start f + k * e.step.getD 1}

/-- **A field in the grammar**: a comma list of elements, all of them in range. -/
def FieldKind.Reads (f : FieldKind) (text : Text) (elements : List Element) : Prop :=
  List.Forall₂ (fun part e => WritesElement f.Writes part e ∧ e.span.InRange f)
    (text.splitOn ',') elements

/-- The part of an element before its step. -/
def rangePart (part : Text) : Text := part.takeWhile (· ≠ '/')

/-- **An element without the parser's blind spots**: one `/` and one `-` at most, no number past
    the range before a step, and no 7 at the end of a range of week days. -/
structure FieldKind.Regular (f : FieldKind) (part : Text) : Prop where
  slash : ∀ a b, part = a ++ '/' :: b → '/' ∉ a → '/' ∉ b
  hyphen : ∀ a b, rangePart part = a ++ '-' :: b → '-' ∉ a → '-' ∉ b
  start : ∀ digits rest, part = digits ++ '/' :: rest → (∀ c ∈ digits, isDigit c = true) →
    digitsVal digits ≤ f.max
  sunday : f.sunday = true → ∀ a, rangePart part ≠ a ++ ['-', '7']

/-! ### Numbers -/

/-- The comparisons of the parser are exact against a small number. -/
theorem lt_toDouble {m : ℕ} (hm : m < 60) (n : ℕ) :
    (Lib.Num.fin m).lt (toDouble n) = decide (m < n) := by
  by_cases hn : n < 2 ^ 53
  · rw [toDouble_natCast hn]
    simp only [Num.lt, Nat.cast_lt]
  · have hlt : m < n := by omega
    rcases toDouble_large (Nat.le_of_not_lt hn) with h | ⟨q, h, hq⟩
    · simp [h, Num.lt, hlt]
    · have hcast : (m : ℚ) < q := by
        have : (m : ℚ) < 60 := by exact_mod_cast hm
        refine lt_of_lt_of_le this (le_trans (by norm_num) hq)
      simp [h, Num.lt, hlt, hcast]

theorem toDouble_lt {m : ℕ} (hm : m < 60) (n : ℕ) :
    (toDouble n).lt (.fin m) = decide (n < m) := by
  by_cases hn : n < 2 ^ 53
  · rw [toDouble_natCast hn]
    simp only [Num.lt, Nat.cast_lt]
  · have hlt : ¬ n < m := by omega
    rcases toDouble_large (Nat.le_of_not_lt hn) with h | ⟨q, h, hq⟩
    · simp [h, Num.lt, hlt]
    · have hcast : ¬ q < (m : ℚ) := by
        have : (m : ℚ) < 60 := by exact_mod_cast hm
        have : (60 : ℚ) ≤ q := le_trans (by norm_num) hq
        linarith
      simp [h, Num.lt, hlt, hcast]

theorem toNat?_toDouble {n : ℕ} (hn : n < 60) : (toDouble n).toNat? = some n := by
  rw [toDouble_natCast (lt_trans hn (by norm_num))]
  simp [Num.toNat?]

/-- No case of a letter is a digit. -/
theorem isLetter_toLower_of_isDigit {c : Char} (h : isDigit c = true) :
    isLetter c.toLower = false := by
  rcases toLower_cases c with heq | ⟨n, hlow, hhigh, rfl⟩
  · rw [heq]
    simp only [isDigit, Bool.and_eq_true, decide_eq_true_eq] at h
    have hupper : ¬ 'a' ≤ c := fun hle => absurd (le_trans hle h.2) (by decide)
    have hletter : ¬ 'A' ≤ c := fun hle => absurd (le_trans hle h.2) (by decide)
    simp [isLetter, hupper, hletter]
  · interval_cases n <;> exact absurd h (by decide)

variable (expression : Text) (f : FieldKind)

/-- No token of the names can be taken for digits, marks or a star. -/
theorem FieldKind.mem_of_name {text : Text} {i : ℕ} (h : f.names[i]? = some (lower text)) :
    text.length = 3 ∧ ∀ c ∈ text, isLetter c.toLower = true := by
  obtain ⟨hlength, hletters⟩ := f.names_letters _ (List.mem_of_getElem? h)
  refine ⟨by simpa [lower] using hlength, fun c hc => hletters _ ?_⟩
  exact List.mem_map_of_mem hc

/-- **Numbers.**  `toNumber` reads the names and the runs of digits, and nothing else. -/
theorem cronNumber_ok_iff {token : Text} {x : Lib.Num} :
    cronNumber expression f.min f.names token = .ok x ↔
      ∃ n, f.WritesPlain token n ∧ x = toDouble n := by
  have hname : ∀ i, f.names[i]? = some (lower token) →
      f.names.findIdx? (· = (lower token).take 3) = some i := by
    intro i hi
    have hlength := (f.mem_of_name hi).1
    have htake : (lower token).take 3 = lower token :=
      List.take_of_length_le (by simp [lower, hlength])
    obtain ⟨hlt, hget⟩ := List.getElem?_eq_some_iff.mp hi
    rw [htake, List.findIdx?_eq_some_iff_getElem]
    refine ⟨hlt, by simp [hget], fun j hj hmatch => ?_⟩
    -- the names differ, so no earlier one is this one
    have heq : f.names[j] = f.names[i] := by simpa [hget] using hmatch
    have hij := (List.Nodup.getElem_inj_iff f.names_nodup).mp heq
    omega
  have hdigits : ∀ i, f.names.findIdx? (· = (lower token).take 3) = some i →
      (lower token).length ≤ 3 → f.names[i]? = some (lower token) ∧ i < 60 := by
    intro i hi hshort
    obtain ⟨hlt, hget, -⟩ := List.findIdx?_eq_some_iff_getElem.mp hi
    rw [List.take_of_length_le hshort] at hget
    refine ⟨List.getElem?_eq_some_iff.mpr ⟨hlt, by simpa using hget⟩, ?_⟩
    have := f.names_inRange
    have := f.max_lt
    omega
  have hnumber : token ≠ [] ∧ token.all isDigit = true →
      numberOf token = toDouble (digitsVal token) := fun h =>
    numberOf_digits h.1 (List.all_eq_true.mp h.2)
  have hcast : ∀ i, f.names[i]? = some (lower token) →
      Lib.Num.fin ((i + f.min : ℕ) : ℚ) = toDouble ((i + f.min : ℕ) : ℚ) := by
    intro i hi
    obtain ⟨hlt, -⟩ := List.getElem?_eq_some_iff.mp hi
    have hin := f.names_inRange
    have hmax := f.max_lt
    exact (toDouble_natCast (by omega)).symm
  unfold cronNumber
  dsimp only
  constructor
  · intro h
    split at h
    · rename_i i hi
      split_ifs at h with hshort hrun
      · rw [Except.ok.injEq] at h
        obtain ⟨hget, -⟩ := hdigits i hi hshort
        exact ⟨i + f.min, .inl ⟨i, hget, rfl⟩, by rw [← h, hcast i hget]⟩
      · rw [Except.ok.injEq, hnumber hrun] at h
        exact ⟨_, .inr ⟨hrun.1, List.all_eq_true.mp hrun.2, rfl⟩, h.symm⟩
    · split_ifs at h with hrun
      rw [Except.ok.injEq, hnumber hrun] at h
      exact ⟨_, .inr ⟨hrun.1, List.all_eq_true.mp hrun.2, rfl⟩, h.symm⟩
  · rintro ⟨n, ⟨i, hi, rfl⟩ | ⟨hne, hall, rfl⟩, rfl⟩
    · have hlength := (f.mem_of_name hi).1
      rw [hname i hi]
      dsimp only
      rw [if_pos (by simp [lower, hlength]), hcast i hi]
    · have hrun : token ≠ [] ∧ token.all isDigit = true := ⟨hne, List.all_eq_true.mpr hall⟩
      split
      · rename_i i hi
        split_ifs with hshort
        · -- a name that is a run of digits: names have letters only
          obtain ⟨hget, -⟩ := hdigits i hi hshort
          obtain ⟨hlength, hletters⟩ := f.mem_of_name hget
          cases token with
          | nil => exact absurd rfl hne
          | cons c more =>
            have hletter := hletters c List.mem_cons_self
            rw [isLetter_toLower_of_isDigit (hall c List.mem_cons_self)] at hletter
            exact absurd hletter (by decide)
        · rw [hnumber hrun]
      · rw [if_pos hrun, hnumber hrun]

/-! ### One element -/

/-- No mark of the grammar stands in a number. -/
theorem FieldKind.WritesPlain.marks {text : Text} {n : ℕ} (h : f.WritesPlain text n) :
    text ≠ [] ∧ '/' ∉ text ∧ '-' ∉ text ∧ '*' ∉ text := by
  rcases h with ⟨i, hi, -⟩ | ⟨hne, hall, -⟩
  · obtain ⟨hlength, hletters⟩ := f.mem_of_name hi
    refine ⟨?_, fun hc => absurd (hletters _ hc) (by decide),
      fun hc => absurd (hletters _ hc) (by decide), fun hc => absurd (hletters _ hc) (by decide)⟩
    rintro rfl
    exact absurd hlength (by decide)
  · exact ⟨hne, fun hc => absurd (hall _ hc) (by decide),
      fun hc => absurd (hall _ hc) (by decide), fun hc => absurd (hall _ hc) (by decide)⟩

theorem WritesSpan.no_slash {text : Text} {span : Span} (h : WritesSpan f.WritesPlain text span) :
    '/' ∉ text := by
  cases h with
  | empty => exact List.not_mem_nil
  | star => decide
  | single hn => exact (hn.marks f).2.1
  | range ha hb _ =>
    rw [List.mem_append, List.mem_cons]
    rintro (hmem | hmem | hmem)
    · exact (ha.marks f).2.1 hmem
    · exact absurd hmem (by decide)
    · exact (hb.marks f).2.1 hmem

/-- The values the loop of `parseCronField` adds. -/
theorem mem_fieldValues {step stop fuel v x : ℕ} (hstep : 1 ≤ step) (hfuel : stop < v + fuel) :
    x ∈ fieldValues step stop fuel v ↔ x ≤ stop ∧ ∃ k, x = v + k * step := by
  induction fuel generalizing v with
  | zero =>
    simp only [fieldValues, List.not_mem_nil, false_iff]
    rintro ⟨hx, k, rfl⟩
    omega
  | succ fuel ih =>
    rw [fieldValues]
    by_cases hv : v ≤ stop
    · rw [if_pos hv, List.mem_cons, ih (by omega)]
      constructor
      · rintro (rfl | ⟨hx, k, rfl⟩)
        · exact ⟨hv, 0, by omega⟩
        · exact ⟨hx, k + 1, by rw [Nat.succ_mul]; omega⟩
      · rintro ⟨hx, k, rfl⟩
        cases k with
        | zero => exact .inl (by omega)
        | succ k => exact .inr ⟨hx, k, by rw [Nat.succ_mul]; omega⟩
    · rw [if_neg hv]
      simp only [List.not_mem_nil, false_iff]
      rintro ⟨hx, k, rfl⟩
      omega

/-- The step of an element: 1, or what `Number` makes of the text after the `/`. -/
def cronStep (stepPart : Option Text) : Except Thrown ℕ :=
  match (stepPart.map numberOf).getD (.fin 1) |>.toNat? with
  | some step =>
    if 1 ≤ step then .ok step
    else .error (invalidCron expression ("has invalid step \"" ++ stepPart.getD [] ++ "\"."))
  | none => .error (invalidCron expression ("has invalid step \"" ++ stepPart.getD [] ++ "\"."))

/-- The bounds of an element, from the text before the `/`. -/
def cronBounds (min max : ℕ) (names : List Text) (rangePart : Text) (stepPart : Option Text) :
    Except Thrown (Lib.Num × Lib.Num) :=
  if rangePart = ['*'] ∨ rangePart = [] then .ok (Lib.Num.fin min, Lib.Num.fin max)
  else if '-' ∈ rangePart then do
    let ends := rangePart.splitOn '-'
    let a ← cronNumber expression min names (ends.headD [])
    let b ← cronNumber expression min names (ends[1]?.getD [])
    if b.lt a then
      .error (invalidCron expression ("range \"" ++ rangePart ++ "\" is descending."))
    else .ok (a, b)
  else do
    let a ← cronNumber expression min names rangePart
    .ok (a, if stepPart.isNone then a else Lib.Num.fin max)

/-- The values between two bounds, when these are in range. -/
def cronValues (min max : ℕ) (part : Text) (step : ℕ) (bounds : Lib.Num × Lib.Num) :
    Except Thrown (List ℕ) :=
  if bounds.1.lt (.fin min) || (Lib.Num.fin max).lt bounds.2 then
    .error (invalidCron expression ("value out of range in \"" ++ part ++ "\" (" ++
      natText min ++ "-" ++ natText max ++ ")."))
  else
    match bounds.1.toNat?, bounds.2.toNat? with
    | some v, some e => .ok (fieldValues step e (max + 1) v)
    | _, _ => .ok []

/-- The three stages of an element. -/
theorem parseCronPart_eq (min max : ℕ) (names : List Text) (part : Text) :
    parseCronPart expression min max names part =
      (cronStep expression (part.splitOn '/')[1]?).bind fun step =>
        (cronBounds expression min max names ((part.splitOn '/').headD [])
          (part.splitOn '/')[1]?).bind (cronValues expression min max part step) := by
  unfold parseCronPart cronStep cronBounds
  dsimp only
  generalize (part.splitOn '/')[1]? = stepPart
  generalize (part.splitOn '/').headD [] = rangePart
  cases hstep : ((stepPart.map numberOf).getD (.fin 1)).toNat? with
  | none => rfl
  | some step =>
    dsimp only
    by_cases hpos : 1 ≤ step
    · simp only [if_pos hpos]
      by_cases hall : rangePart = ['*'] ∨ rangePart = []
      · simp only [if_pos hall]
        rfl
      · simp only [if_neg hall]
        by_cases hrange : '-' ∈ rangePart
        · simp only [if_pos hrange]
          cases cronNumber expression min names ((rangePart.splitOn '-').headD []) with
          | error e => rfl
          | ok a =>
            cases cronNumber expression min names ((rangePart.splitOn '-')[1]?.getD []) with
            | error e => rfl
            | ok b => cases hlt : b.lt a <;> simp only [Except.bind, bind, hlt] <;> rfl
        · simp only [if_neg hrange]
          cases cronNumber expression min names rangePart <;> rfl
    · simp only [if_neg hpos]
      rfl

/-- Two bounds in range are compared as they are. -/
theorem cronValues_ok {part : Text} {step start stop : ℕ} (hstart : f.min ≤ start)
    (hstop : stop ≤ f.max) (hstartMax : start ≤ f.max) :
    cronValues expression f.min f.max part step (toDouble start, toDouble stop) =
      .ok (fieldValues step stop (f.max + 1) start) := by
  have hmax := f.max_lt
  have hout : ((toDouble start).lt (.fin f.min) || (Lib.Num.fin f.max).lt (toDouble stop)) =
      false := by
    rw [toDouble_lt (by omega), lt_toDouble hmax]
    simp only [Bool.or_eq_false_iff, decide_eq_false_iff_not]
    omega
  unfold cronValues
  simp only [hout, Bool.false_eq_true, if_false, toNat?_toDouble (show start < 60 by omega),
    toNat?_toDouble (show stop < 60 by omega)]

/-- The numbers of a span in the grammar are its bounds. -/
theorem cronBounds_ok {text : Text} {span : Span} (h : WritesSpan f.WritesPlain text span)
    (hin : span.InRange f) (stepPart : Option Text) (step : Option ℕ)
    (hsame : stepPart.isNone = step.isNone) :
    cronBounds expression f.min f.max f.names text stepPart =
      .ok (toDouble ((Element.mk span step).start f), toDouble ((Element.mk span step).stop f)) := by
  have hmax := f.max_lt
  have hmin := f.names_inRange
  have hbounds : (Lib.Num.fin f.min, Lib.Num.fin f.max) = (toDouble f.min, toDouble f.max) := by
    rw [toDouble_natCast (show f.min < 2 ^ 53 by omega),
      toDouble_natCast (show f.max < 2 ^ 53 by omega)]
  unfold cronBounds
  cases h with
  | empty => rw [if_pos (.inr rfl), hbounds]; rfl
  | star => rw [if_pos (.inl rfl), hbounds]; rfl
  | @single text n hn =>
    obtain ⟨hne, -, hhyphen, hstar⟩ := hn.marks f
    have hall : ¬ (text = ['*'] ∨ text = []) := by
      rintro (rfl | rfl)
      · exact hstar List.mem_cons_self
      · exact hne rfl
    rw [if_neg hall, if_neg hhyphen, (cronNumber_ok_iff expression f).mpr ⟨n, hn, rfl⟩]
    show Except.ok (toDouble n, if stepPart.isNone then toDouble n else Lib.Num.fin f.max) = _
    rw [hsame]
    cases step with
    | none => rfl
    | some s => rw [← (toDouble_natCast (show f.max < 2 ^ 53 by omega))]; rfl
  | @range a b n m ha hb hle =>
    have hmark : '-' ∈ a ++ '-' :: b := List.mem_append_right _ List.mem_cons_self
    have hall : ¬ (a ++ '-' :: b = ['*'] ∨ a ++ '-' :: b = []) := by
      rintro (heq | heq)
      · rw [heq] at hmark
        exact absurd hmark (by decide)
      · rw [heq] at hmark
        exact absurd hmark (by decide)
    have hsplit : (a ++ '-' :: b).splitOn '-' = [a, b] := by
      rw [List.splitOn_append_cons_self_of_not_mem (ha.marks f).2.2.1,
        List.splitOn_eq_singleton (hb.marks f).2.2.1]
    have hlt : (toDouble (m : ℚ)).lt (toDouble (n : ℚ)) = false := by
      have hm : m ≤ f.max := hin.2
      rw [toDouble_natCast (show m < 2 ^ 53 by omega), lt_toDouble (by omega)]
      exact decide_eq_false (by omega)
    rw [if_neg hall, if_pos hmark, hsplit]
    simp only [List.headD_cons, List.getElem?_cons_succ, List.getElem?_cons_zero,
      Option.getD_some, (cronNumber_ok_iff expression f).mpr ⟨n, ha, rfl⟩,
      (cronNumber_ok_iff expression f).mpr ⟨m, hb, rfl⟩, Except.bind, bind, hlt]
    rfl

/-- **An element of the grammar is accepted**, and the values of the loop are those it denotes. -/
theorem parseCronPart_ok {part : Text} {e : Element} (h : WritesElement f.WritesPlain part e)
    (hin : e.span.InRange f) :
    ∃ vs, parseCronPart expression f.min f.max f.names part = .ok vs ∧
      ∀ v, v ∈ vs ↔ v ∈ e.values f := by
  -- a span in range starts in range and stops in range
  have hbounds : ∀ (text : Text) (span : Span) (step : Option ℕ),
      WritesSpan f.WritesPlain text span → span.InRange f →
      f.min ≤ (Element.mk span step).start f ∧ (Element.mk span step).start f ≤ f.max ∧
        (Element.mk span step).stop f ≤ f.max := by
    intro text span step hwrites hspan
    have hle := f.min_le_max
    cases hwrites with
    | empty => exact ⟨le_refl _, hle, le_refl _⟩
    | star => exact ⟨le_refl _, hle, le_refl _⟩
    | single hn =>
      refine ⟨hspan.1, hspan.2, ?_⟩
      unfold Element.stop
      dsimp only
      split
      · exact hspan.2
      · exact le_refl _
    | range _ _ hnm => exact ⟨hspan.1, le_trans hnm hspan.2, hspan.2⟩
  cases h with
  | @plain _ span hspan =>
    obtain ⟨hstart, hstartMax, hstop⟩ := hbounds part span none hspan hin
    have hsplit : part.splitOn '/' = [part] := List.splitOn_eq_singleton (hspan.no_slash f)
    refine ⟨fieldValues 1 ((Element.mk span none).stop f) (f.max + 1)
      ((Element.mk span none).start f), ?_, fun v => mem_fieldValues (le_refl 1) (by omega)⟩
    rw [parseCronPart_eq, hsplit]
    show (cronBounds expression f.min f.max f.names part none).bind _ = _
    rw [cronBounds_ok expression f hspan hin none none rfl]
    exact cronValues_ok expression f hstart hstop hstartMax
  | @stepped text span stepText step hspan hone hstep hpos =>
    obtain ⟨hstart, hstartMax, hstop⟩ := hbounds text span (some step) hspan hin
    have hsplit : (text ++ '/' :: stepText).splitOn '/' = [text, stepText] := by
      rw [List.splitOn_append_cons_self_of_not_mem (hspan.no_slash f),
        List.splitOn_eq_singleton hone]
    have hread : cronStep expression (some stepText) = .ok step := by
      simp only [cronStep, Option.map_some, Option.getD_some, hstep, hpos, if_true]
    refine ⟨fieldValues step ((Element.mk span (some step)).stop f) (f.max + 1)
      ((Element.mk span (some step)).start f), ?_, fun v => mem_fieldValues hpos (by omega)⟩
    rw [parseCronPart_eq, hsplit]
    show (cronStep expression (some stepText)).bind (fun step =>
      (cronBounds expression f.min f.max f.names text (some stepText)).bind _) = _
    rw [hread, cronBounds_ok expression f hspan hin (some stepText) (some step) rfl]
    exact cronValues_ok expression f hstart hstop hstartMax

/-- Bounds that pass the range check are in range. -/
theorem inRange_of_cronValues {part : Text} {step start stop : ℕ} {vs : List ℕ}
    (h : cronValues expression f.min f.max part step (toDouble start, toDouble stop) = .ok vs) :
    f.min ≤ start ∧ stop ≤ f.max := by
  have hmax := f.max_lt
  have hmin := f.min_le_max
  unfold cronValues at h
  dsimp only at h
  rw [toDouble_lt (show f.min < 60 by omega), lt_toDouble hmax] at h
  split at h
  · exact absurd h (by simp)
  rename_i hout
  simp only [Bool.or_eq_true, decide_eq_true_eq, not_or, not_lt] at hout
  exact hout

/-- **The bounds that are found** are those of a span, which is in the grammar when its end is in
    range: a range whose end is not may run backwards. -/
theorem cronBounds_read {text : Text} {stepPart : Option Text} {bounds : Lib.Num × Lib.Num}
    (hhyphen : ∀ a b, text = a ++ '-' :: b → '-' ∉ a → '-' ∉ b)
    (h : cronBounds expression f.min f.max f.names text stepPart = .ok bounds) :
    ∃ span, (∀ step : Option ℕ, stepPart.isNone = step.isNone →
        bounds = (toDouble ((Element.mk span step).start f),
          toDouble ((Element.mk span step).stop f))) ∧
      (∀ step : Option ℕ, (Element.mk span step).stop f ≤ f.max →
        WritesSpan f.WritesPlain text span) := by
  have hmax := f.max_lt
  have hmin := f.min_le_max
  have hfmax : Lib.Num.fin f.max = toDouble f.max :=
    (toDouble_natCast (show f.max < 2 ^ 53 by omega)).symm
  unfold cronBounds at h
  split at h
  · rename_i hall
    refine ⟨.all, fun step _ => ?_, fun _ _ => ?_⟩
    · rw [← Except.ok.inj h, hfmax, ← toDouble_natCast (show f.min < 2 ^ 53 by omega)]
      rfl
    · rcases hall with rfl | rfl
      · exact .star
      · exact .empty
  split at h
  · rename_i hmark
    obtain ⟨a, b, rfl, hfirst⟩ := List.eq_append_cons_of_mem hmark
    have hsplit : (a ++ '-' :: b).splitOn '-' = [a, b] := by
      rw [List.splitOn_append_cons_self_of_not_mem hfirst,
        List.splitOn_eq_singleton (hhyphen a b rfl hfirst)]
    simp only [hsplit, List.headD_cons, List.getElem?_cons_succ, List.getElem?_cons_zero,
      Option.getD_some] at h
    cases ha : cronNumber expression f.min f.names a with
    | error e => rw [ha] at h; exact absurd h (by simp [Except.bind, bind])
    | ok x =>
      cases hb : cronNumber expression f.min f.names b with
      | error e => rw [ha, hb] at h; exact absurd h (by simp [Except.bind, bind])
      | ok y =>
        obtain ⟨n, hn, rfl⟩ := (cronNumber_ok_iff expression f).mp ha
        obtain ⟨m, hm, rfl⟩ := (cronNumber_ok_iff expression f).mp hb
        rw [ha, hb] at h
        simp only [Except.bind, bind] at h
        split at h
        · exact absurd h (by simp)
        rename_i hlt
        refine ⟨.range n m, fun step _ => (Except.ok.inj h).symm, fun step hstop => ?_⟩
        have hm' : m ≤ f.max := hstop
        rw [toDouble_natCast (show m < 2 ^ 53 by omega), lt_toDouble (by omega)] at hlt
        simp only [decide_eq_true_eq, not_lt] at hlt
        exact .range hn hm hlt
  · cases ha : cronNumber expression f.min f.names text with
    | error e => rw [ha] at h; exact absurd h (by simp [Except.bind, bind])
    | ok x =>
      obtain ⟨n, hn, rfl⟩ := (cronNumber_ok_iff expression f).mp ha
      rw [ha] at h
      refine ⟨.single n, fun step hsame => ?_, fun _ _ => .single hn⟩
      rw [← Except.ok.inj h, hsame, hfmax]
      cases step <;> rfl

/-- **What is accepted is an element of the grammar**, unless a number past the range starts a
    stepped span. -/
theorem parseCronPart_read {part : Text} {vs : List ℕ}
    (hslash : ∀ a b, part = a ++ '/' :: b → '/' ∉ a → '/' ∉ b)
    (hhyphen : ∀ a b, rangePart part = a ++ '-' :: b → '-' ∉ a → '-' ∉ b)
    (hstart : ∀ digits rest, part = digits ++ '/' :: rest → (∀ c ∈ digits, isDigit c = true) →
      digitsVal digits ≤ f.max)
    (h : parseCronPart expression f.min f.max f.names part = .ok vs) :
    ∃ e, WritesElement f.WritesPlain part e ∧ e.span.InRange f := by
  have hmax := f.max_lt
  -- the parts of a span whose bounds are in range are in range
  have hspanIn : ∀ (span : Span) (step : Option ℕ), (∀ n, span = .single n → n ≤ f.max) →
      f.min ≤ (Element.mk span step).start f → (Element.mk span step).stop f ≤ f.max →
      span.InRange f := by
    intro span step hsingle hlow hhigh
    cases span with
    | all => exact trivial
    | single n => exact ⟨hlow, hsingle n rfl⟩
    | range n m => exact ⟨hlow, hhigh⟩
  rw [parseCronPart_eq] at h
  by_cases hmark : '/' ∈ part
  · obtain ⟨text, stepText, rfl, hfirst⟩ := List.eq_append_cons_of_mem hmark
    have hone := hslash text stepText rfl hfirst
    have hsplit : (text ++ '/' :: stepText).splitOn '/' = [text, stepText] := by
      rw [List.splitOn_append_cons_self_of_not_mem hfirst, List.splitOn_eq_singleton hone]
    have hrange : rangePart (text ++ '/' :: stepText) = text := by
      unfold rangePart
      rw [List.takeWhile_append_of_pos (by
        intro c hc
        simp only [decide_eq_true_eq, ne_eq]
        rintro rfl
        exact hfirst hc)]
      simp
    rw [hsplit] at h
    simp only [List.headD_cons, List.getElem?_cons_succ, List.getElem?_cons_zero] at h
    cases hstep : (numberOf stepText).toNat? with
    | none =>
      simp only [cronStep, Option.map_some, Option.getD_some, hstep] at h
      exact absurd h (by simp [Except.bind])
    | some step =>
      by_cases hpos : 1 ≤ step
      case neg =>
        simp only [cronStep, Option.map_some, Option.getD_some, hstep, hpos, if_false] at h
        exact absurd h (by simp [Except.bind])
      simp only [cronStep, Option.map_some, Option.getD_some, hstep, hpos, if_true] at h
      simp only [Except.bind] at h
      split at h
      · exact absurd h (by simp)
      rename_i bounds hbounds
      obtain ⟨span, hread, hwrites⟩ := cronBounds_read expression f (hrange ▸ hhyphen) hbounds
      rw [hread (some step) rfl] at h
      obtain ⟨hlow, hhigh⟩ := inRange_of_cronValues expression f h
      have hspan := hwrites (some step) hhigh
      refine ⟨⟨span, some step⟩, .stepped hspan hone hstep hpos, ?_⟩
      refine hspanIn span (some step) ?_ hlow hhigh
      rintro n rfl
      -- a single number before a step: its digits are in range, and so are the names
      cases hspan with
      | single hn =>
        rcases hn with ⟨i, hi, rfl⟩ | ⟨-, hall, rfl⟩
        · obtain ⟨hlt, -⟩ := List.getElem?_eq_some_iff.mp hi
          have := f.names_inRange
          omega
        · exact hstart _ _ rfl hall
  · have hsplit : part.splitOn '/' = [part] := List.splitOn_eq_singleton hmark
    have hrange : rangePart part = part := by
      refine List.takeWhile_eq_self_iff.mpr fun c hc => ?_
      simp only [decide_eq_true_eq, ne_eq]
      rintro rfl
      exact hmark hc
    rw [hsplit] at h
    have hdefault : cronStep expression none = .ok 1 := rfl
    simp only [List.headD_cons, List.getElem?_cons_succ, List.getElem?_nil, hdefault] at h
    simp only [Except.bind] at h
    split at h
    · exact absurd h (by simp)
    rename_i bounds hbounds
    obtain ⟨span, hread, hwrites⟩ := cronBounds_read expression f (hrange ▸ hhyphen) hbounds
    rw [hread none rfl] at h
    obtain ⟨hlow, hhigh⟩ := inRange_of_cronValues expression f h
    refine ⟨⟨span, none⟩, .plain (hwrites none hhigh), hspanIn span none ?_ hlow hhigh⟩
    rintro n rfl
    exact hhigh

/-! ### Seven as Sunday -/

/-- A `7` that opens an element, alone or as the start of a range, is rewritten to `0`. -/
def sundayFirst : Text → Text
  | ['7'] => ['0']
  | '7' :: '-' :: rest => '0' :: '-' :: rest
  | part => part

theorem sundayFirst_of_ne {c : Char} {rest : Text} (h : c ≠ '7') :
    sundayFirst (c :: rest) = c :: rest := by
  unfold sundayFirst
  split
  · rename_i heq
    exact absurd (List.cons.inj heq).1 h
  · rename_i heq
    exact absurd (List.cons.inj heq).1 h
  · rfl

/-- **The rewrite works element by element**: inside an element it changes nothing. -/
theorem splitOn_sundayAsZero (text : Text) :
    (∀ first more, text.splitOn ',' = first :: more →
      (sundayAsZero false text).splitOn ',' = first :: more.map sundayFirst) ∧
    (sundayAsZero true text).splitOn ',' = (text.splitOn ',').map sundayFirst := by
  induction text with
  | nil =>
    refine ⟨fun first more h => ?_, rfl⟩
    rw [List.splitOn_nil] at h
    obtain ⟨rfl, rfl⟩ := List.cons.inj h
    rfl
  | cons c cs ih =>
    obtain ⟨ihInside, ihOpen⟩ := ih
    by_cases hcomma : c = ','
    · subst hcomma
      have hsplit : (',' :: cs).splitOn ',' = [] :: cs.splitOn ',' := by
        rw [List.splitOn_cons_eq_if_modifyHead, if_pos (beq_self_eq_true ',')]
      have hrewrite : ∀ opens, (sundayAsZero opens (',' :: cs)).splitOn ',' =
          [] :: (cs.splitOn ',').map sundayFirst := by
        intro opens
        have hstep : sundayAsZero opens (',' :: cs) = ',' :: sundayAsZero true cs := by
          simp [sundayAsZero]
        rw [hstep, List.splitOn_cons_eq_if_modifyHead, if_pos (beq_self_eq_true ','), ihOpen]
      refine ⟨fun first more h => ?_, ?_⟩
      · rw [hsplit] at h
        obtain ⟨rfl, rfl⟩ := List.cons.inj h
        exact hrewrite false
      · rw [hrewrite, hsplit]
        rfl
    · obtain ⟨first, more, hcs⟩ := List.exists_cons_of_ne_nil (List.splitOn_ne_nil ',' cs)
      have hinside := ihInside first more hcs
      have hcons : ∀ d : Char, d ≠ ',' → ∀ rest : Text, (d :: rest).splitOn ',' =
          (rest.splitOn ',').modifyHead (d :: ·) := by
        intro d hd rest
        rw [List.splitOn_cons_eq_if_modifyHead, if_neg (by simpa using hd)]
      have hclosed : (c == ',') = false := by simpa using hcomma
      have hsplit : (c :: cs).splitOn ',' = (c :: first) :: more := by
        rw [hcons c hcomma, hcs, List.modifyHead_cons]
      refine ⟨fun first' more' h => ?_, ?_⟩
      · rw [hsplit] at h
        obtain ⟨rfl, rfl⟩ := List.cons.inj h
        have hstep : sundayAsZero false (c :: cs) = c :: sundayAsZero false cs := by
          simp [sundayAsZero, hclosed]
        rw [hstep, hcons c hcomma, hinside, List.modifyHead_cons]
      · rw [hsplit, List.map_cons]
        by_cases hseven : c = '7'
        case neg =>
          have hstep : sundayAsZero true (c :: cs) = c :: sundayAsZero false cs := by
            simp [sundayAsZero, hclosed, hseven]
          rw [hstep, hcons c hcomma, hinside, List.modifyHead_cons, sundayFirst_of_ne hseven]
        subst hseven
        -- what follows the 7 in the text is what follows it in its element
        cases cs with
        | nil =>
          rw [List.splitOn_nil] at hcs
          obtain ⟨rfl, rfl⟩ := List.cons.inj hcs
          rfl
        | cons d rest =>
          by_cases hd : d = ','
          · subst hd
            have hfirst : first = [] := by
              rw [List.splitOn_cons_eq_if_modifyHead, if_pos (beq_self_eq_true ',')] at hcs
              exact (List.cons.inj hcs).1.symm
            subst hfirst
            have hstep : sundayAsZero true ('7' :: ',' :: rest) =
                '0' :: sundayAsZero false (',' :: rest) := by simp [sundayAsZero]
            rw [hstep, hcons '0' (by decide), hinside, List.modifyHead_cons]
            rfl
          · obtain ⟨tail, rfl⟩ : ∃ tail, first = d :: tail := by
              obtain ⟨head, others, hrest⟩ :=
                List.exists_cons_of_ne_nil (List.splitOn_ne_nil ',' rest)
              rw [hcons d hd, hrest, List.modifyHead_cons] at hcs
              exact ⟨head, (List.cons.inj hcs).1.symm⟩
            by_cases hhyphen : d = '-'
            · subst hhyphen
              have hstep : sundayAsZero true ('7' :: '-' :: rest) =
                  '0' :: sundayAsZero false ('-' :: rest) := by simp [sundayAsZero]
              rw [hstep, hcons '0' (by decide), hinside, List.modifyHead_cons]
              rfl
            · have hstep : sundayAsZero true ('7' :: d :: rest) =
                  '7' :: sundayAsZero false (d :: rest) := by
                simp [sundayAsZero, hd, hhyphen]
              have hkeep : sundayFirst ('7' :: d :: tail) = '7' :: d :: tail := by
                unfold sundayFirst
                split
                · rename_i heq
                  exact absurd heq (by simp)
                · rename_i heq
                  exact absurd (List.cons.inj (List.cons.inj heq).2).1 hhyphen
                · rfl
              rw [hstep, hcons '7' (by decide), hinside, List.modifyHead_cons, hkeep]

variable {f}

/-- The text of an element that `parseCronPart` sees. -/
def FieldKind.rewrite (f : FieldKind) (part : Text) : Text :=
  if f.sunday then sundayFirst part else part

theorem sundayFirst_append_slash {a : Text} (rest : Text) (h : '-' ∉ a) :
    sundayFirst (a ++ '/' :: rest) = a ++ '/' :: rest := by
  unfold sundayFirst
  split
  · rename_i heq
    rcases List.append_eq_singleton_iff.mp heq with ⟨-, hlast⟩ | ⟨-, hlast⟩
    · exact absurd hlast (by simp)
    · exact absurd hlast (by simp)
  · rename_i heq
    cases a with
    | nil => exact absurd (List.cons.inj heq).1 (by decide)
    | cons c more =>
      have htail := (List.cons.inj heq).2
      cases more with
      | nil => exact absurd (List.cons.inj htail).1 (by decide)
      | cons d more =>
        have hd : d = '-' := (List.cons.inj htail).1
        exact absurd (hd ▸ List.mem_cons_of_mem _ List.mem_cons_self) h
  · rfl

theorem sundayFirst_append_hyphen {a : Text} (rest : Text) (h : '-' ∉ a) (hseven : a ≠ ['7']) :
    sundayFirst (a ++ '-' :: rest) = a ++ '-' :: rest := by
  unfold sundayFirst
  split
  · rename_i heq
    rcases List.append_eq_singleton_iff.mp heq with ⟨-, hlast⟩ | ⟨-, hlast⟩
    · exact absurd hlast (by simp)
    · exact absurd hlast (by simp)
  · rename_i heq
    cases a with
    | nil => exact absurd (List.cons.inj heq).1 (by decide)
    | cons c more =>
      have htail := (List.cons.inj heq).2
      cases more with
      | nil => exact absurd ((List.cons.inj heq).1 ▸ rfl) hseven
      | cons d more =>
        have hd : d = '-' := (List.cons.inj htail).1
        exact absurd (hd ▸ List.mem_cons_of_mem _ List.mem_cons_self) h
  · rfl

/-- A text around its first hyphen, when that is its second character. -/
theorem append_hyphen_eq {a x rest : Text} {c : Char} (hc : c ≠ '-') (ha : '-' ∉ a)
    (h : a ++ '-' :: x = c :: '-' :: rest) : a = [c] ∧ x = rest := by
  cases a with
  | nil => exact absurd (List.cons.inj h).1.symm hc
  | cons d more =>
    obtain ⟨rfl, htail⟩ := List.cons.inj h
    cases more with
    | nil => exact ⟨rfl, (List.cons.inj htail).2⟩
    | cons d more =>
      have hd : d = '-' := (List.cons.inj htail).1
      exact absurd (hd ▸ List.mem_cons_of_mem _ List.mem_cons_self) ha

theorem writesPlain_zero : f.sunday = true → f.WritesPlain ['0'] 0 := fun _ =>
  .inr ⟨by decide, by decide, by decide⟩

/-- A lone digit writes itself. -/
theorem FieldKind.WritesPlain.digit {c : Char} {n : ℕ} (h : f.WritesPlain [c] n) :
    n = digitsVal [c] := by
  rcases h with ⟨i, hi, -⟩ | ⟨-, -, rfl⟩
  · exact absurd (f.mem_of_name hi).1 (by simp)
  · rfl

theorem WritesElement.mono {number number' : Text → ℕ → Prop} {part : Text} {e : Element}
    (himp : ∀ text n, number text n → number' text n) (h : WritesElement number part e) :
    WritesElement number' part e := by
  have hspan : ∀ {text span}, WritesSpan number text span → WritesSpan number' text span := by
    intro text span hspan
    cases hspan with
    | empty => exact .empty
    | star => exact .star
    | single hn => exact .single (himp _ _ hn)
    | range hn hm hle => exact .range (himp _ _ hn) (himp _ _ hm) hle
  cases h with
  | plain hs => exact .plain (hspan hs)
  | stepped hs hone hstep hpos => exact .stepped (hspan hs) hone hstep hpos

/-- The span of an element of the grammar, rewritten: only its opening 7 changes. -/
theorem writesSpan_rewrite (hsunday : f.sunday = true) {text rest : Text} {span : Span}
    (h : WritesSpan f.Writes text span) (hin : span.InRange f)
    (hrest : rest = [] ∨ ∃ stepText, rest = '/' :: stepText)
    (hseven : rest ≠ [] → text ≠ ['7']) (hend : ∀ a, text ≠ a ++ ['-', '7']) :
    ∃ text', sundayFirst (text ++ rest) = text' ++ rest ∧ WritesSpan f.WritesPlain text' span := by
  obtain ⟨hmin, hmax⟩ := f.sunday_range hsunday
  have hsmall : ∀ n, n ≤ f.max → ¬ f.WritesPlain ['7'] n := by
    intro n hn hwrites
    have hval : digitsVal ['7'] = 7 := by decide
    have := hwrites.digit
    omega
  cases h with
  | empty =>
    refine ⟨[], ?_, .empty⟩
    rcases hrest with rfl | ⟨stepText, rfl⟩
    · rfl
    · exact sundayFirst_of_ne (by decide)
  | star => exact ⟨['*'], sundayFirst_of_ne (by decide), .star⟩
  | @single text n hn =>
    rcases hn with hplain | ⟨-, rfl, rfl⟩
    · refine ⟨text, ?_, .single hplain⟩
      obtain ⟨hne, -, hhyphen, -⟩ := hplain.marks f
      rcases hrest with rfl | ⟨stepText, rfl⟩
      · rw [List.append_nil]
        unfold sundayFirst
        split
        · exact absurd hplain (hsmall n hin.2)
        · exact absurd (List.mem_cons_of_mem _ List.mem_cons_self) hhyphen
        · rfl
      · exact sundayFirst_append_slash stepText hhyphen
    · rcases hrest with rfl | ⟨stepText, rfl⟩
      · exact ⟨['0'], rfl, .single (writesPlain_zero hsunday)⟩
      · exact absurd rfl (hseven (by simp))
  | @range a b n m ha hb hle =>
    have hb' : f.WritesPlain b m := by
      rcases hb with hplain | ⟨-, rfl, -⟩
      · exact hplain
      · exact absurd rfl (hend a)
    have hshape : ∀ x : Text, (x ++ '-' :: b) ++ rest = x ++ '-' :: (b ++ rest) := by
      intro x
      rw [List.append_assoc, List.cons_append]
    rcases ha with hplain | ⟨-, rfl, rfl⟩
    · refine ⟨a ++ '-' :: b, ?_, .range hplain hb' hle⟩
      rw [hshape, sundayFirst_append_hyphen _ (hplain.marks f).2.2.1]
      rintro rfl
      exact hsmall n (le_trans hle hin.2) hplain
    · exact ⟨['0'] ++ '-' :: b, rfl, .range (writesPlain_zero hsunday) hb' hle⟩

theorem rangePart_append {text rest : Text} (hno : '/' ∉ text)
    (hrest : rest = [] ∨ ∃ stepText, rest = '/' :: stepText) : rangePart (text ++ rest) = text := by
  have hall : ∀ c ∈ text, decide (c ≠ '/') = true := by
    intro c hc
    simp only [decide_eq_true_eq, ne_eq]
    rintro rfl
    exact hno hc
  unfold rangePart
  rw [List.takeWhile_append_of_pos hall]
  rcases hrest with rfl | ⟨stepText, rfl⟩
  · simp
  · simp

theorem WritesSpan.slash_free {text : Text} {span : Span} (h : WritesSpan f.Writes text span) :
    '/' ∉ text := by
  have hnumber : ∀ t n, f.Writes t n → '/' ∉ t := by
    rintro t n (hplain | ⟨-, rfl, -⟩)
    · exact (hplain.marks f).2.1
    · decide
  cases h with
  | empty => exact List.not_mem_nil
  | star => decide
  | single hn => exact hnumber _ _ hn
  | range ha hb _ =>
    rw [List.mem_append, List.mem_cons]
    rintro (hmem | hmem | hmem)
    · exact hnumber _ _ ha hmem
    · exact absurd hmem (by decide)
    · exact hnumber _ _ hb hmem

/-- **What the grammar gives, the parser sees**: a regular element of the grammar is one without
    the second Sunday after the rewrite. -/
theorem writesElement_rewrite {part : Text} {e : Element} (hregular : f.Regular part)
    (h : WritesElement f.Writes part e) (hin : e.span.InRange f) :
    WritesElement f.WritesPlain (f.rewrite part) e := by
  unfold FieldKind.rewrite
  cases hsunday : f.sunday with
  | false =>
    refine h.mono fun text n hn => ?_
    rcases hn with hplain | ⟨htrue, -⟩
    · exact hplain
    · exact absurd (hsunday.symm.trans htrue) (by decide)
  | true =>
    rw [if_pos rfl]
    cases h with
    | @plain _ span hspan =>
      have hpart : rangePart part = part := by
        simpa using rangePart_append hspan.slash_free (.inl rfl)
      obtain ⟨text', htext, hwrites⟩ := writesSpan_rewrite hsunday hspan hin (.inl rfl)
        (fun hne => absurd rfl hne) (fun a => hpart ▸ hregular.sunday hsunday a)
      rw [List.append_nil, List.append_nil] at htext
      exact htext ▸ .plain hwrites
    | @stepped text span stepText step hspan hone hstep hpos =>
      have hpart : rangePart (text ++ '/' :: stepText) = text :=
        rangePart_append hspan.slash_free (.inr ⟨stepText, rfl⟩)
      have hseven : text ≠ ['7'] := by
        rintro rfl
        have hle := hregular.start ['7'] stepText rfl (by decide)
        have hval : digitsVal ['7'] = 7 := by decide
        have := (f.sunday_range hsunday).2
        omega
      obtain ⟨text', htext, hwrites⟩ := writesSpan_rewrite hsunday hspan hin
        (.inr ⟨stepText, rfl⟩) (fun _ => hseven) (fun a => hpart ▸ hregular.sunday hsunday a)
      rw [htext]
      exact .stepped hwrites hone hstep hpos

/-- The three shapes of an element under the rewrite. -/
theorem sundayFirst_cases (part : Text) :
    (part = ['7'] ∧ sundayFirst part = ['0']) ∨
      (∃ rest, part = '7' :: '-' :: rest ∧ sundayFirst part = '0' :: '-' :: rest) ∨
      sundayFirst part = part := by
  unfold sundayFirst
  split
  · exact .inl ⟨rfl, rfl⟩
  · exact .inr (.inl ⟨_, rfl, rfl⟩)
  · exact .inr (.inr rfl)

/-- A stepped or plain element that starts `0-` is a range from 0. -/
theorem writesElement_zeroRange (hsunday : f.sunday = true) {rest : Text} {e : Element}
    (h : WritesElement f.WritesPlain ('0' :: '-' :: rest) e) :
    WritesElement f.Writes ('7' :: '-' :: rest) e := by
  have hspan : ∀ {text tail : Text} {span : Span}, WritesSpan f.WritesPlain text span →
      text ++ tail = '0' :: '-' :: rest → (∀ c, tail.head? = some c → c = '/') →
      ∃ text', text' ++ tail = '7' :: '-' :: rest ∧ WritesSpan f.Writes text' span := by
    intro text tail span hs htext htail
    cases hs with
    | empty => exact absurd (htail '0' (by rw [List.nil_append] at htext; rw [htext]; rfl)) (by decide)
    | star => exact absurd (List.cons.inj htext).1 (by decide)
    | single hn =>
      -- a number holds no hyphen, so the one of the text would open the step
      obtain ⟨hne, -, hhyphen, -⟩ := hn.marks f
      cases text with
      | nil => exact absurd rfl hne
      | cons c more =>
        cases more with
        | nil =>
          have htail' : tail = '-' :: rest := (List.cons.inj htext).2
          exact absurd (htail '-' (by rw [htail']; rfl)) (by decide)
        | cons d more =>
          have hd : d = '-' := (List.cons.inj (List.cons.inj htext).2).1
          exact absurd (hd ▸ List.mem_cons_of_mem _ List.mem_cons_self) hhyphen
    | @range a b n m ha hb hle =>
      have hshape : a ++ '-' :: (b ++ tail) = '0' :: '-' :: rest := by
        rw [← htext, List.append_assoc, List.cons_append]
      obtain ⟨rfl, hrest⟩ := append_hyphen_eq (by decide) (ha.marks f).2.2.1 hshape
      refine ⟨['7'] ++ '-' :: b, by rw [← hrest]; rfl, .range (.inr ⟨hsunday, rfl, ?_⟩) (.inl hb) hle⟩
      exact ha.digit.trans (by decide)
  generalize hpart : '0' :: '-' :: rest = part at h
  cases h with
  | plain hs =>
    obtain ⟨text', htext, hwrites⟩ := hspan hs ((List.append_nil _).trans hpart.symm) (by simp)
    rw [List.append_nil] at htext
    exact htext ▸ .plain hwrites
  | stepped hs hone hstep hpos =>
    obtain ⟨text', htext, hwrites⟩ := hspan hs hpart.symm (by simp)
    exact htext ▸ .stepped hwrites hone hstep hpos

/-- **What the parser sees, the grammar gives.** -/
theorem writesElement_of_rewrite {part : Text} {e : Element}
    (h : WritesElement f.WritesPlain (f.rewrite part) e) : WritesElement f.Writes part e := by
  unfold FieldKind.rewrite at h
  cases hsunday : f.sunday with
  | false =>
    rw [hsunday] at h
    exact h.mono fun text n hn => .inl hn
  | true =>
    rw [hsunday, if_pos rfl] at h
    rcases sundayFirst_cases part with ⟨rfl, hzero⟩ | ⟨rest, rfl, hzero⟩ | hsame
    · rw [hzero] at h
      have hsingle : e = ⟨.single 0, none⟩ := by
        generalize hpart : ['0'] = part at h
        cases h with
        | plain hs =>
          cases hs with
          | empty => exact absurd hpart (by decide)
          | star => exact absurd hpart (by decide)
          | single hn =>
            subst hpart
            rw [hn.digit]
            rfl
          | range _ _ _ =>
            have hmem : '-' ∈ ['0'] := hpart ▸ List.mem_append_right _ List.mem_cons_self
            exact absurd hmem (by decide)
        | stepped _ _ _ _ =>
          have hmem : '/' ∈ ['0'] := hpart ▸ List.mem_append_right _ List.mem_cons_self
          exact absurd hmem (by decide)
      rw [hsingle]
      exact .plain (.single (.inr ⟨hsunday, rfl, rfl⟩))
    · rw [hzero] at h
      exact writesElement_zeroRange hsunday h
    · rw [hsame] at h
      exact h.mono fun text n hn => .inl hn

/-- The rewrite brings in no mark and no number past the range. -/
theorem FieldKind.Regular.rewrite {part : Text} (h : f.Regular part) :
    (∀ a b, f.rewrite part = a ++ '/' :: b → '/' ∉ a → '/' ∉ b) ∧
    (∀ a b, rangePart (f.rewrite part) = a ++ '-' :: b → '-' ∉ a → '-' ∉ b) ∧
    (∀ digits rest, f.rewrite part = digits ++ '/' :: rest → (∀ c ∈ digits, isDigit c = true) →
      digitsVal digits ≤ f.max) := by
  unfold FieldKind.rewrite
  cases hsunday : f.sunday with
  | false => exact ⟨h.slash, h.hyphen, h.start⟩
  | true =>
    rw [if_pos rfl]
    rcases sundayFirst_cases part with ⟨rfl, hzero⟩ | ⟨rest, rfl, hzero⟩ | hsame
    · rw [hzero]
      have hno : ∀ (mark : Char) (a b : Text), mark ≠ '0' → ['0'] ≠ a ++ mark :: b := by
        intro mark a b hmark heq
        have hmem : mark ∈ ['0'] := heq ▸ List.mem_append_right _ List.mem_cons_self
        exact hmark (List.mem_singleton.mp hmem)
      exact ⟨fun a b heq => absurd heq (hno _ _ _ (by decide)),
        fun a b heq => absurd heq (hno _ _ _ (by decide)),
        fun a b heq => absurd heq (hno _ _ _ (by decide))⟩
    · rw [hzero]
      refine ⟨fun a b heq ha => ?_, fun a b heq ha => ?_, fun digits tail heq hdigits => ?_⟩
      · cases a with
        | nil => exact absurd (List.cons.inj heq).1 (by decide)
        | cons c more =>
          have htail : '-' :: rest = more ++ '/' :: b := (List.cons.inj heq).2
          refine h.slash ('7' :: more) b (by rw [htail]; rfl) ?_
          rw [List.mem_cons, not_or]
          exact ⟨by decide, fun hmem => ha (List.mem_cons_of_mem _ hmem)⟩
      · have hrange : ∀ c : Char, c ≠ '/' →
            rangePart (c :: '-' :: rest) = c :: '-' :: rangePart rest := by
          intro c hc
          simp [rangePart, hc]
        rw [hrange '0' (by decide)] at heq
        obtain ⟨rfl, rfl⟩ := append_hyphen_eq (by decide) ha heq.symm
        exact h.hyphen ['7'] (rangePart rest) (hrange '7' (by decide)) (by decide)
      · cases digits with
        | nil => exact absurd (List.cons.inj heq).1 (by decide)
        | cons c more =>
          have htail : '-' :: rest = more ++ '/' :: tail := (List.cons.inj heq).2
          cases more with
          | nil => exact absurd (List.cons.inj htail).1 (by decide)
          | cons d more =>
            have hd : '-' = d := (List.cons.inj htail).1
            exact absurd (hdigits d (List.mem_cons_of_mem _ List.mem_cons_self))
              (by rw [← hd]; decide)
    · rw [hsame]
      exact ⟨h.slash, h.hyphen, h.start⟩

/-- The blind spots of an element can be looked for. -/
theorem FieldKind.regular_iff {part : Text} :
    f.Regular part ↔ part.count '/' ≤ 1 ∧ (rangePart part).count '-' ≤ 1 ∧
      ('/' ∈ part → (∀ c ∈ rangePart part, isDigit c = true) → digitsVal (rangePart part) ≤ f.max) ∧
      (f.sunday = true → ¬ ['-', '7'] <:+ rangePart part) := by
  have hcount : ∀ (mark : Char) (text : Text), text.count mark ≤ 1 ↔
      ∀ a b, text = a ++ mark :: b → mark ∉ a → mark ∉ b := by
    intro mark text
    constructor
    · rintro hle a b rfl ha
      rw [List.count_append, List.count_cons_self] at hle
      exact List.count_eq_zero.mp (by omega)
    · intro hall
      by_cases hmem : mark ∈ text
      · obtain ⟨a, b, rfl, ha⟩ := List.eq_append_cons_of_mem hmem
        rw [List.count_append, List.count_cons_self, List.count_eq_zero.mpr ha,
          List.count_eq_zero.mpr (hall a b rfl ha)]
      · rw [List.count_eq_zero.mpr hmem]
        exact Nat.zero_le 1
  have hdigits : ∀ {digits rest : Text}, (∀ c ∈ digits, isDigit c = true) →
      rangePart (digits ++ '/' :: rest) = digits := by
    intro digits rest hall
    refine rangePart_append (fun hmem => ?_) (.inr ⟨rest, rfl⟩)
    exact absurd (hall _ hmem) (by decide)
  constructor
  · intro h
    refine ⟨(hcount _ _).mpr h.slash, (hcount _ _).mpr h.hyphen, fun hmem hall => ?_,
      fun hsunday ⟨a, ha⟩ => h.sunday hsunday a ha.symm⟩
    obtain ⟨a, b, rfl, ha⟩ := List.eq_append_cons_of_mem hmem
    rw [rangePart_append ha (.inr ⟨b, rfl⟩)] at hall ⊢
    exact h.start a b rfl hall
  · rintro ⟨hslash, hhyphen, hstart, hsunday⟩
    refine ⟨(hcount _ _).mp hslash, (hcount _ _).mp hhyphen, ?_,
      fun hf a ha => hsunday hf ⟨a, ha.symm⟩⟩
    rintro digits rest rfl hall
    have hle := hstart (List.mem_append_right _ List.mem_cons_self)
    rw [hdigits hall] at hle
    exact hle hall

instance (f : FieldKind) (part : Text) : Decidable (f.Regular part) :=
  decidable_of_iff _ FieldKind.regular_iff.symm

/-! ### Fields and expressions -/

/-- The text of a field that `parseCronField` gets. -/
def FieldKind.rewriteField (f : FieldKind) (text : Text) : Text :=
  if f.sunday then sundayAsZero true text else text

theorem splitOn_rewriteField (f : FieldKind) (text : Text) :
    (f.rewriteField text).splitOn ',' = (text.splitOn ',').map f.rewrite := by
  unfold FieldKind.rewriteField FieldKind.rewrite
  cases f.sunday with
  | false => simp
  | true =>
    simp only [if_true]
    exact (splitOn_sundayAsZero text).2

theorem parseCronField_ok_iff {text : Text} {vs : List ℕ} :
    parseCronField expression (f.rewriteField text) f.min f.max f.names = .ok vs ↔
      ∃ lists, List.Forall₂ (fun part list =>
        parseCronPart expression f.min f.max f.names (f.rewrite part) = .ok list)
          (text.splitOn ',') lists ∧ vs = lists.flatten := by
  have hparts : ∀ lists, ((text.splitOn ',').map f.rewrite).mapM
      (parseCronPart expression f.min f.max f.names) = .ok lists ↔
        List.Forall₂ (fun part list =>
          parseCronPart expression f.min f.max f.names (f.rewrite part) = .ok list)
            (text.splitOn ',') lists := by
    intro lists
    rw [mapM_ok_iff, List.forall₂_map_left_iff]
  unfold parseCronField
  rw [splitOn_rewriteField]
  cases hlists : ((text.splitOn ',').map f.rewrite).mapM
      (parseCronPart expression f.min f.max f.names) with
  | error e =>
    constructor
    · intro h
      exact absurd h (by simp [bind, Except.bind])
    · rintro ⟨lists, hall, -⟩
      exact absurd (hlists.symm.trans ((hparts lists).mpr hall)) (by simp)
  | ok lists =>
    constructor
    · intro h
      exact ⟨lists, (hparts lists).mp hlists, (Except.ok.inj h).symm⟩
    · rintro ⟨lists', hall', rfl⟩
      obtain rfl := Except.ok.inj (hlists.symm.trans ((hparts lists').mpr hall'))
      rfl

/-- **An accepted field is in the grammar**, and holds the union of what its elements denote. -/
theorem parseCronField_read {text : Text} (hregular : ∀ part ∈ text.splitOn ',', f.Regular part)
    {vs : List ℕ}
    (h : parseCronField expression (f.rewriteField text) f.min f.max f.names = .ok vs) :
    ∃ es, f.Reads text es ∧ ∀ v, v ∈ vs ↔ ∃ e ∈ es, v ∈ e.values f := by
  obtain ⟨lists, hall, rfl⟩ := (parseCronField_ok_iff expression).mp h
  clear h
  unfold FieldKind.Reads
  generalize text.splitOn ',' = parts at hall hregular
  induction hall with
  | nil => exact ⟨[], .nil, fun v => by simp⟩
  | @cons part list parts lists hpart hrest ih =>
    obtain ⟨es, hreads, hvalues⟩ := ih fun p hp => hregular p (List.mem_cons_of_mem _ hp)
    have hreg := hregular part List.mem_cons_self
    obtain ⟨hslash, hhyphen, hstart⟩ := hreg.rewrite
    obtain ⟨e, hwrites, hin⟩ := parseCronPart_read expression f hslash hhyphen hstart hpart
    obtain ⟨list', hlist, hmem⟩ := parseCronPart_ok expression f hwrites hin
    obtain rfl := Except.ok.inj (hpart.symm.trans hlist)
    refine ⟨e :: es, .cons ⟨writesElement_of_rewrite hwrites, hin⟩ hreads, fun v => ?_⟩
    rw [List.flatten_cons, List.mem_append, hmem v, hvalues v]
    simp [List.mem_cons]

theorem parseCronField_of_reads {text : Text}
    (hregular : ∀ part ∈ text.splitOn ',', f.Regular part) {es : List Element}
    (h : f.Reads text es) :
    ∃ vs, parseCronField expression (f.rewriteField text) f.min f.max f.names = .ok vs := by
  suffices ∃ lists, List.Forall₂ (fun part list =>
      parseCronPart expression f.min f.max f.names (f.rewrite part) = .ok list)
        (text.splitOn ',') lists by
    obtain ⟨lists, hall⟩ := this
    exact ⟨_, (parseCronField_ok_iff expression).mpr ⟨lists, hall, rfl⟩⟩
  unfold FieldKind.Reads at h
  generalize text.splitOn ',' = parts at h hregular
  induction h with
  | nil => exact ⟨[], .nil⟩
  | @cons part e parts es hpart hrest ih =>
    obtain ⟨lists, hall⟩ := ih fun p hp => hregular p (List.mem_cons_of_mem _ hp)
    have hreg := hregular part List.mem_cons_self
    obtain ⟨list, hlist, -⟩ :=
      parseCronPart_ok expression f (writesElement_rewrite hreg hpart.1 hpart.2) hpart.2
    exact ⟨list :: lists, .cons hlist hall⟩

/-- The fields of an expression, in order. -/
def fieldKinds : List FieldKind :=
  [minuteField, hourField, dayOfMonthField, monthField, dayOfWeekField]

/-- The fields of an expression and what a parsed one lists for each. -/
def ParsedCron.fields (cron : ParsedCron) : List (FieldKind × List ℕ) :=
  [(minuteField, cron.minute), (hourField, cron.hour), (dayOfMonthField, cron.dayOfMonth),
    (monthField, cron.month), (dayOfWeekField, cron.dayOfWeek)]

/-- The texts between the white space of an expression. -/
def fieldTexts (expression : Text) : List Text := splitSpaces (trim expression)

/-- **An expression of the grammar**: five fields, each a list of elements in range. -/
def InGrammar (expression : Text) : Prop :=
  List.Forall₂ (fun (f : FieldKind) text => ∃ es, f.Reads text es) fieldKinds (fieldTexts expression)

/-- No element of a field is one of the parser's blind spots. -/
def RegularExpression (expression : Text) : Prop :=
  ∀ field ∈ fieldKinds.zip (fieldTexts expression),
    ∀ part ∈ field.2.splitOn ',', field.1.Regular part

instance (expression : Text) : Decidable (RegularExpression expression) :=
  inferInstanceAs (Decidable (∀ field ∈ fieldKinds.zip (fieldTexts expression),
    ∀ part ∈ field.2.splitOn ',', field.1.Regular part))

/-- Each field lists the union of the values its elements denote. -/
def Denotes (expression : Text) (cron : ParsedCron) : Prop :=
  List.Forall₂ (fun (field : FieldKind × List ℕ) text =>
      ∃ es, field.1.Reads text es ∧ ∀ v, v ∈ field.2 ↔ ∃ e ∈ es, v ∈ e.values field.1)
    cron.fields (fieldTexts expression)

/-- The five fields are parsed as their kinds say, the last one first. -/
theorem parseCron_ok_iff {cron : ParsedCron} :
    parseCron expression = .ok cron ↔
      ∃ minute hour dom month dow, fieldTexts expression = [minute, hour, dom, month, dow] ∧
        List.Forall₂ (fun (field : FieldKind × List ℕ) text =>
            parseCronField expression (field.1.rewriteField text) field.1.min field.1.max
              field.1.names = .ok field.2)
          cron.fields [minute, hour, dom, month, dow] ∧
        cron.domWildcard = decide (dom = ['*']) ∧ cron.dowWildcard = decide (dow = ['*']) := by
  constructor
  · intro h
    unfold parseCron at h
    split at h
    · rename_i minute hour dom month dow htexts
      refine ⟨minute, hour, dom, month, dow, htexts, ?_⟩
      cases hdow : parseCronField expression (sundayAsZero true dow) 0 6 dayNames with
      | error e => rw [hdow] at h; exact absurd h (by simp [bind, Except.bind])
      | ok days =>
      cases hminute : parseCronField expression minute 0 59 [] with
      | error e => rw [hdow, hminute] at h; exact absurd h (by simp [bind, Except.bind])
      | ok minutes =>
      cases hhour : parseCronField expression hour 0 23 [] with
      | error e => rw [hdow, hminute, hhour] at h; exact absurd h (by simp [bind, Except.bind])
      | ok hours =>
      cases hdom : parseCronField expression dom 1 31 [] with
      | error e =>
        rw [hdow, hminute, hhour, hdom] at h
        exact absurd h (by simp [bind, Except.bind])
      | ok monthDays =>
      cases hmonth : parseCronField expression month 1 12 monthNames with
      | error e =>
        rw [hdow, hminute, hhour, hdom, hmonth] at h
        exact absurd h (by simp [bind, Except.bind])
      | ok months =>
      rw [hdow, hminute, hhour, hdom, hmonth] at h
      obtain rfl := Except.ok.inj h
      exact ⟨.cons hminute (.cons hhour (.cons hdom (.cons hmonth (.cons hdow .nil)))), rfl, rfl⟩
    · exact absurd h (by simp)
  · rintro ⟨minute, hour, dom, month, dow, htexts, hfields, hdomWildcard, hdowWildcard⟩
    obtain ⟨minutes, hours, monthDays, months, days, domWildcard, dowWildcard⟩ := cron
    cases hfields with | cons hminute hfields =>
    cases hfields with | cons hhour hfields =>
    cases hfields with | cons hdom hfields =>
    cases hfields with | cons hmonth hfields =>
    cases hfields with | cons hdow _ =>
    have hminute' : parseCronField expression minute 0 59 [] = .ok minutes := hminute
    have hhour' : parseCronField expression hour 0 23 [] = .ok hours := hhour
    have hdom' : parseCronField expression dom 1 31 [] = .ok monthDays := hdom
    have hmonth' : parseCronField expression month 1 12 monthNames = .ok months := hmonth
    have hdow' : parseCronField expression (sundayAsZero true dow) 0 6 dayNames = .ok days := hdow
    have htexts' : splitSpaces (trim expression) = [minute, hour, dom, month, dow] := htexts
    subst hdomWildcard hdowWildcard
    unfold parseCron
    rw [htexts']
    dsimp only
    rw [hdow', hminute', hhour', hdom', hmonth']
    rfl

/-- **Every rejection is `invalid_schedule`.** -/
theorem parseCron_error {e : Thrown} (h : parseCron expression = .error e) :
    ∃ message, e = .kody "invalid_schedule" message := by
  have hbind : ∀ {α β : Type} {x : Except Thrown α} {g : α → Except Thrown β},
      (∀ e, x = .error e → ∃ message, e = .kody "invalid_schedule" message) →
      (∀ a e, g a = .error e → ∃ message, e = .kody "invalid_schedule" message) →
      ∀ e, x.bind g = .error e → ∃ message, e = .kody "invalid_schedule" message := by
    intro α β x g hx hg e he
    cases x with
    | error e' =>
      obtain rfl : e' = e := Except.error.inj he
      exact hx e' rfl
    | ok a => exact hg a e he
  have hnumber : ∀ min names token e, cronNumber expression min names token = .error e →
      ∃ message, e = .kody "invalid_schedule" message := by
    intro min names token e he
    unfold cronNumber at he
    dsimp only at he
    split at he
    · split_ifs at he
      exact ⟨_, (Except.error.inj he).symm⟩
    · split_ifs at he
      exact ⟨_, (Except.error.inj he).symm⟩
  have hpart : ∀ min max names part e, parseCronPart expression min max names part = .error e →
      ∃ message, e = .kody "invalid_schedule" message := by
    intro min max names part
    rw [parseCronPart_eq]
    refine hbind (fun e he => ?_) fun step => hbind (fun e he => ?_) fun bounds e he => ?_
    · unfold cronStep at he
      split at he
      · split_ifs at he
        exact ⟨_, (Except.error.inj he).symm⟩
      · exact ⟨_, (Except.error.inj he).symm⟩
    · unfold cronBounds at he
      split at he
      · exact absurd he (by simp)
      split at he
      · refine hbind (hnumber _ _ _) (fun a => hbind (hnumber _ _ _) fun b e he => ?_) e he
        split_ifs at he
        exact ⟨_, (Except.error.inj he).symm⟩
      · exact hbind (hnumber _ _ _) (fun a e he => absurd he (by simp)) e he
    · unfold cronValues at he
      split at he
      · exact ⟨_, (Except.error.inj he).symm⟩
      · split at he
        · exact absurd he (by simp)
        · exact absurd he (by simp)
  have hfield : ∀ min max names text e, parseCronField expression text min max names = .error e →
      ∃ message, e = .kody "invalid_schedule" message := by
    intro min max names text
    unfold parseCronField
    refine hbind ?_ fun lists e he => absurd he (by simp [pure, Except.pure])
    induction text.splitOn ',' with
    | nil => exact fun e he => absurd he (by simp [pure, Except.pure])
    | cons part parts ih =>
      rw [List.mapM_cons]
      exact hbind (hpart _ _ _ _) fun list => hbind ih fun lists e he =>
        absurd he (by simp [pure, Except.pure])
  unfold parseCron at h
  split at h
  · exact hbind (hfield _ _ _ _) (fun _ => hbind (hfield _ _ _ _) fun _ => hbind (hfield _ _ _ _)
      fun _ => hbind (hfield _ _ _ _) fun _ => hbind (hfield _ _ _ _) fun _ e he =>
        absurd he (by simp [pure, Except.pure])) e h
  · exact ⟨_, (Except.error.inj h).symm⟩

/-- **The grammar of `parseCron`.**  Whatever is rejected is rejected with `invalid_schedule`.  An
    expression with regular elements is accepted exactly when it is in the grammar, and each of its
    fields is then the union of what the elements of the list denote. -/
theorem parseCron_grammar (expression : Text) :
    (∀ e, parseCron expression = .error e → ∃ message, e = .kody "invalid_schedule" message) ∧
    (RegularExpression expression →
      ((∃ cron, parseCron expression = .ok cron) ↔ InGrammar expression) ∧
      ∀ cron, parseCron expression = .ok cron → Denotes expression cron) := by
  refine ⟨fun e => parseCron_error expression, fun hregular => ?_⟩
  have hdenotes : ∀ cron, parseCron expression = .ok cron → Denotes expression cron := by
    intro cron hcron
    obtain ⟨minute, hour, dom, month, dow, htexts, hfields, -, -⟩ :=
      (parseCron_ok_iff expression).mp hcron
    have hkind : ∀ f text, (f, text) ∈ fieldKinds.zip [minute, hour, dom, month, dow] →
        ∀ part ∈ text.splitOn ',', f.Regular part := fun f text hmem =>
      hregular (f, text) (htexts ▸ hmem)
    cases hfields with | cons hminute hfields =>
    cases hfields with | cons hhour hfields =>
    cases hfields with | cons hdom hfields =>
    cases hfields with | cons hmonth hfields =>
    cases hfields with | cons hdow _ =>
    unfold Denotes
    rw [htexts]
    exact .cons (parseCronField_read expression (hkind _ _ (by simp [fieldKinds])) hminute)
      (.cons (parseCronField_read expression (hkind _ _ (by simp [fieldKinds])) hhour)
      (.cons (parseCronField_read expression (hkind _ _ (by simp [fieldKinds])) hdom)
      (.cons (parseCronField_read expression (hkind _ _ (by simp [fieldKinds])) hmonth)
      (.cons (parseCronField_read expression (hkind _ _ (by simp [fieldKinds])) hdow) .nil))))
  refine ⟨⟨?_, ?_⟩, hdenotes⟩
  · rintro ⟨cron, hcron⟩
    have hall := hdenotes cron hcron
    unfold InGrammar
    unfold Denotes at hall
    have hkinds : fieldKinds = cron.fields.map Prod.fst := rfl
    rw [hkinds, List.forall₂_map_left_iff]
    exact hall.imp fun field text ⟨es, hreads, _⟩ => ⟨es, hreads⟩
  · intro hgrammar
    have hlength := hgrammar.length_eq
    unfold InGrammar at hgrammar
    unfold RegularExpression at hregular
    cases htexts : fieldTexts expression with
    | nil => rw [htexts] at hlength; exact absurd hlength (by decide)
    | cons minute texts =>
      rw [htexts] at hgrammar hregular
      cases hgrammar with | cons hminute hgrammar =>
      cases hgrammar with | @cons _ hour _ _ hhour hgrammar =>
      cases hgrammar with | @cons _ dom _ _ hdom hgrammar =>
      cases hgrammar with | @cons _ month _ _ hmonth hgrammar =>
      cases hgrammar with | @cons _ dow _ _ hdow hgrammar =>
      cases hgrammar
      have hkind : ∀ f text, (f, text) ∈ fieldKinds.zip [minute, hour, dom, month, dow] →
          ∀ part ∈ text.splitOn ',', f.Regular part := fun f text hmem => hregular (f, text) hmem
      obtain ⟨es₁, h₁⟩ := hminute
      obtain ⟨es₂, h₂⟩ := hhour
      obtain ⟨es₃, h₃⟩ := hdom
      obtain ⟨es₄, h₄⟩ := hmonth
      obtain ⟨es₅, h₅⟩ := hdow
      obtain ⟨minutes, hminutes⟩ :=
        parseCronField_of_reads expression (hkind _ _ (by simp [fieldKinds])) h₁
      obtain ⟨hours, hhours⟩ :=
        parseCronField_of_reads expression (hkind _ _ (by simp [fieldKinds])) h₂
      obtain ⟨monthDays, hmonthDays⟩ :=
        parseCronField_of_reads expression (hkind _ _ (by simp [fieldKinds])) h₃
      obtain ⟨months, hmonths⟩ :=
        parseCronField_of_reads expression (hkind _ _ (by simp [fieldKinds])) h₄
      obtain ⟨days, hdays⟩ :=
        parseCronField_of_reads expression (hkind _ _ (by simp [fieldKinds])) h₅
      refine ⟨⟨minutes, hours, monthDays, months, days, decide (dom = ['*']), decide (dow = ['*'])⟩,
        (parseCron_ok_iff expression).mpr ⟨minute, hour, dom, month, dow, htexts, ?_, rfl, rfl⟩⟩
      exact .cons hminutes (.cons hhours (.cons hmonthDays (.cons hmonths (.cons hdays .nil))))

/-- Quarters of the working hours of the first three months, on Sundays and Mondays. -/
theorem parseCron_grammar_quarters :
    RegularExpression "*/15 9-17 * jan-MAR 7,Mon" ∧
      InGrammar "*/15 9-17 * jan-MAR 7,Mon" ∧
      ∃ cron, parseCron "*/15 9-17 * jan-MAR 7,Mon" = .ok cron ∧
        Denotes "*/15 9-17 * jan-MAR 7,Mon" cron ∧ cron.minute = [0, 15, 30, 45] ∧
        cron.month = [1, 2, 3] ∧ cron.dayOfWeek = [0, 1] := by
  have hregular : RegularExpression "*/15 9-17 * jan-MAR 7,Mon" := by decide +kernel
  have hparse : ∃ cron, parseCron "*/15 9-17 * jan-MAR 7,Mon" = .ok cron ∧
      cron.minute = [0, 15, 30, 45] ∧ cron.month = [1, 2, 3] ∧ cron.dayOfWeek = [0, 1] :=
    ⟨⟨[0, 15, 30, 45], [9, 10, 11, 12, 13, 14, 15, 16, 17],
      [1, 2, 3, 4, 5, 6, 7, 8, 9, 10, 11, 12, 13, 14, 15, 16, 17, 18, 19, 20, 21, 22, 23, 24, 25,
        26, 27, 28, 29, 30, 31], [1, 2, 3], [0, 1], true, false⟩,
      by decide +kernel, rfl, rfl, rfl⟩
  obtain ⟨cron, hcron, hlists⟩ := hparse
  have hgrammar := (parseCron_grammar "*/15 9-17 * jan-MAR 7,Mon").2 hregular
  exact ⟨hregular, hgrammar.1.mp ⟨cron, hcron⟩, cron, hcron, hgrammar.2 cron hcron, hlists⟩

/-- **An empty element** is accepted, and stands for the whole range. -/
theorem parseCron_empty_element :
    [] ∈ ("1,,2" : Text).splitOn ',' ∧ RegularExpression "1,,2 * * * *" ∧
      ∃ cron, parseCron "1,,2 * * * *" = .ok cron ∧ 30 ∈ cron.minute := by
  have hregular : RegularExpression "1,,2 * * * *" := by decide +kernel
  have haccepted : ((parseCron "1,,2 * * * *").toOption.map fun cron => decide (30 ∈ cron.minute)) =
      some true := by decide +kernel
  refine ⟨by decide +kernel, hregular, ?_⟩
  cases hparse : parseCron "1,,2 * * * *" with
  | error e => rw [hparse] at haccepted; exact absurd haccepted (by simp [Except.toOption])
  | ok cron =>
    rw [hparse] at haccepted
    exact ⟨cron, rfl, by simpa [Except.toOption] using haccepted⟩

end KodyCelld.Jobs
