import KodyCelld.Lib.Bytes
import KodyCelld.Lib.Texts
import KodyCelld.Packages.Manifest

namespace KodyCelld.Webhooks

open KodyCelld.Lib KodyCelld.Execute KodyCelld.Packages

/-!
# Webhook verification (`webhooks/verify.ts`)

What a signature header carries, which time a timestamp header denotes, and which text is signed.

* `signedMessage_timestamp` — where the timestamp is signed, the text whose time is read is the text
  that is signed, for every format and header;
* `signed_text_unique` — a message of digits, a dot and a body is of one timestamp and one body.
-/

/-! ### Signatures -/

def stripPrefix (value : Text) (start : Option Text) : Text :=
  match start with
  | none => value
  | some start => if startsWith value start then value.drop start.length else value

/-- `/^[a-z][a-z0-9_-]*$/i` -/
def isPairKey : Text → Bool
  | [] => false
  | c :: rest => isLetter c && rest.all fun c => isLetter c || isDigit c || c == '_' || c == '-'

/-- The candidate in one comma-separated part of a signature header: plain, or the value of a
    `k=v` pair other than the timestamp. -/
def signatureCandidate (verification : WebhookVerification) (part : Text) : Option Text :=
  let piece := trim part
  if piece = [] then none
  else
    let key := piece.takeWhile (· ≠ '=')
    let rest := piece.drop key.length
    if rest ≠ [] ∧ isPairKey key ∧ verification.signaturePrefix = none then
      if lower key = "t" then none else some (trim (rest.drop 1))
    else some (trim (stripPrefix piece verification.signaturePrefix))

def parseSignatureHeader (raw : Option Text) (verification : WebhookVerification) : List Text :=
  match raw with
  | none => []
  | some raw =>
    if raw = [] then []
    else ((raw.splitOn ',').filterMap (signatureCandidate verification)).filter fun c => decide (c ≠ [])

/-- The digits of a digest, in lower case. -/
def hexText (bytes : List UInt8) : Text :=
  bytes.flatMap fun b => [hexChar (b.toNat / 16), hexChar (b.toNat % 16)]

/-- Whether a candidate writes the digest; hex digits in either case. -/
def candidateMatches (digest : List UInt8) (encoding : SignatureEncoding) (candidate : Text) : Bool :=
  match encoding with
  | .hex => decide (lower candidate = hexText digest)
  | .base64 => decide (candidate = btoa digest)

def signatureMatches (candidates : List Text) (digest : List UInt8) (encoding : SignatureEncoding) :
    Bool :=
  candidates.any (candidateMatches digest encoding)

/-! ### Timestamps -/

inductive TimestampFormat where
  | unixSeconds | unixMillis | iso | stripeSignature
  deriving DecidableEq, Repr

/-- How a declared format is read: anything but the other three names counts seconds. -/
def timestampFormat (raw : Option Json) : TimestampFormat :=
  match raw with
  | some (.str name) =>
    if name = "stripe-signature" then .stripeSignature
    else if name = "iso" then .iso
    else if name = "unix-millis" then .unixMillis
    else .unixSeconds
  | _ => .unixSeconds

/-- `\s*t=(\d+)` at the start of the text. -/
def timestampPair (text : Text) : Option Text :=
  match text.dropWhile isSpace with
  | 't' :: '=' :: rest => if rest.takeWhile isDigit = [] then none else some (rest.takeWhile isDigit)
  | _ => none

/-- The first match behind a comma. -/
def laterPair : Text → Option Text
  | [] => none
  | c :: rest => if c = ',' then (timestampPair rest).orElse fun _ => laterPair rest else laterPair rest

/-- The first match of `/(?:^|,)\s*t=(\d+)/`. -/
def stripeTimestamp (text : Text) : Option Text := (timestampPair text).orElse fun _ => laterPair text

/-- `new Date(ms).getTime()`: `NaN` for a time that a `Date` does not hold. -/
def timeClip : Lib.Num → Lib.Num
  | .fin q => if |q| ≤ 8640000000000000 then .fin ⌊q⌋ else .nan
  | _ => .nan

/-- The time that a bare text denotes, in milliseconds; `none` where it is not one. -/
def timeOf (dateParse : Text → Option ℤ) (format : TimestampFormat) (value : Text) : Option Lib.Num :=
  match format with
  | .iso => (dateParse value).map fun t => .fin t
  | format =>
    if value = [] ∨ !value.all isDigit then none
    else match numberOf value with
      | .fin q => some (timeClip (if format = .unixMillis then .fin q else (Num.fin q).mul (.fin 1000)))
      | _ => none

def parseTimestamp (dateParse : Text → Option ℤ) (raw : Option Text) (format : TimestampFormat) :
    Option Lib.Num :=
  match raw with
  | none => none
  | some raw =>
    if raw = [] then none
    else match format with
      | .stripeSignature =>
        match stripeTimestamp (trim raw) with
        | none => none
        | some value => timeOf dateParse .unixSeconds value
      | format => timeOf dateParse format (trim raw)

/-- `NaN` is in no window. -/
def withinTolerance (timestamp : Lib.Num) (now toleranceSeconds : ℕ) : Bool :=
  match timestamp with
  | .fin q => decide (|(now : ℚ) - q| ≤ toleranceSeconds * 1000)
  | _ => false

/-- What a provider signed: the body, or the timestamp, a dot and the body. -/
def signedMessage (verification : WebhookVerification) (body : Text) (timestampRaw : Option Text)
    (format : TimestampFormat) : Option Text :=
  if verification.signedPayload = .body then some body
  else match timestampRaw with
    | none => none
    | some raw =>
      if raw = [] then none
      else if format = .stripeSignature then (stripeTimestamp raw).map (· ++ '.' :: body)
      else some (trim raw ++ '.' :: body)

/-! ### The text that is checked is the text that is signed -/

section
variable {x space : Text}

theorem dropWhile_space (h : space.all isSpace = true) : space.dropWhile isSpace = [] := by
  have hall : (space ++ []).dropWhile isSpace = [] :=
    List.dropWhile_append_of_pos (List.all_eq_true.mp h)
  rwa [List.append_nil] at hall

theorem isSpace_digit {c : Char} (h : isSpace c = true) : isDigit c = false := by
  have hlisted : ∀ c ∈ ['\t', '\n', '\x0b', '\x0c', '\r', ' ', '\u00a0', '\u1680', '\u2028',
      '\u2029', '\u202f', '\u205f', '\u3000', '\ufeff'], isDigit c = false := by decide
  rw [isSpace, Bool.or_eq_true, decide_eq_true_eq] at h
  rcases h with h | h
  · exact hlisted c h
  · rw [Bool.and_eq_true, decide_eq_true_eq, decide_eq_true_eq] at h
    by_contra hdigit
    simp only [Bool.not_eq_false, isDigit, Bool.and_eq_true, decide_eq_true_eq] at hdigit
    have hhigh : c.toNat ≤ 57 := hdigit.2
    omega

/-- Whitespace behind digits does not add to them. -/
theorem takeWhile_digits (h : space.all isSpace = true) :
    (x ++ space).takeWhile isDigit = x.takeWhile isDigit := by
  induction x with
  | nil =>
    cases space with
    | nil => rfl
    | cons c rest =>
      have hc : isDigit c = false := isSpace_digit (List.all_eq_true.mp h c List.mem_cons_self)
      simp [hc]
  | cons c x ih =>
    by_cases hc : isDigit c = true
    · simp [hc, ih]
    · simp [hc]

/-- A pair is read the same with whitespace behind the text. -/
theorem timestampPair_behind (h : space.all isSpace = true) :
    timestampPair (x ++ space) = timestampPair x := by
  unfold timestampPair
  rw [List.dropWhile_append]
  cases hx : x.dropWhile isSpace with
  | nil => simp [dropWhile_space h]
  | cons c rest =>
    rw [if_neg (by simp)]
    cases rest with
    | nil =>
      -- what follows the letter is whitespace, not the sign
      cases space with
      | nil => rfl
      | cons d space =>
        have hd : d ≠ '=' := by
          rintro rfl
          exact absurd (List.all_eq_true.mp h '=' List.mem_cons_self) (by decide)
        simp only [List.cons_append, List.nil_append]
        split
        · rename_i heq
          exact absurd (List.cons.inj (List.cons.inj heq).2).1 hd
        · rfl
    | cons d rest =>
      by_cases hct : c = 't' ∧ d = '='
      · obtain ⟨rfl, rfl⟩ := hct
        show (if (rest ++ space).takeWhile isDigit = [] then none
            else some ((rest ++ space).takeWhile isDigit)) =
          if rest.takeWhile isDigit = [] then none else some (rest.takeWhile isDigit)
        rw [takeWhile_digits h]
      · simp only [List.cons_append]
        split
        · rename_i heq
          exact absurd ⟨(List.cons.inj heq).1, (List.cons.inj (List.cons.inj heq).2).1⟩ hct
        · split
          · rename_i heq
            exact absurd ⟨(List.cons.inj heq).1, (List.cons.inj (List.cons.inj heq).2).1⟩ hct
          · rfl

theorem laterPair_space (h : space.all isSpace = true) : laterPair space = none := by
  induction space with
  | nil => rfl
  | cons c rest ih =>
    rw [List.all_cons, Bool.and_eq_true] at h
    have hc : c ≠ ',' := by
      rintro rfl
      exact absurd h.1 (by decide)
    show (if c = ',' then _ else laterPair rest) = none
    rw [if_neg hc]
    exact ih h.2

theorem laterPair_behind (h : space.all isSpace = true) :
    laterPair (x ++ space) = laterPair x := by
  induction x with
  | nil => exact laterPair_space h
  | cons c x ih =>
    show (if c = ',' then (timestampPair (x ++ space)).orElse fun _ => laterPair (x ++ space)
      else laterPair (x ++ space)) = laterPair (c :: x)
    rw [timestampPair_behind h, ih]
    rfl

theorem timestampPair_before (h : space.all isSpace = true) :
    timestampPair (space ++ x) = timestampPair x := by
  unfold timestampPair
  rw [List.dropWhile_append, dropWhile_space h]
  rfl

theorem laterPair_before (h : space.all isSpace = true) :
    laterPair (space ++ x) = laterPair x := by
  induction space with
  | nil => rfl
  | cons c rest ih =>
    rw [List.all_cons, Bool.and_eq_true] at h
    have hc : c ≠ ',' := by
      rintro rfl
      exact absurd h.1 (by decide)
    show (if c = ',' then _ else laterPair (rest ++ x)) = laterPair x
    rw [if_neg hc]
    exact ih h.2

end

/-- **The pattern finds the same timestamp in a header and in the trimmed header**, though the time
    is read from one and the message is built from the other. -/
theorem stripeTimestamp_trim (raw : Text) : stripeTimestamp (trim raw) = stripeTimestamp raw := by
  obtain ⟨before, after, hraw, hbefore, hafter⟩ := trim_split raw
  have hpair : timestampPair raw = timestampPair (trim raw) := by
    conv_lhs => rw [hraw]
    rw [timestampPair_before hbefore, timestampPair_behind hafter]
  have hlater : laterPair raw = laterPair (trim raw) := by
    conv_lhs => rw [hraw]
    rw [laterPair_before hbefore, laterPair_behind hafter]
  unfold stripeTimestamp
  rw [hpair, hlater]

/-- The bare text that a format reads of a timestamp header. -/
def timestampText (format : TimestampFormat) (raw : Text) : Option Text :=
  if format = .stripeSignature then stripeTimestamp raw else some (trim raw)

/-- What the bare text of a format counts in. -/
def TimestampFormat.bare (format : TimestampFormat) : TimestampFormat :=
  if format = .stripeSignature then .unixSeconds else format

/-- The time of a header is the time of its bare text. -/
theorem parseTimestamp_text {dateParse : Text → Option ℤ} {raw : Option Text}
    {format : TimestampFormat} {ts : Lib.Num} (h : parseTimestamp dateParse raw format = some ts) :
    ∃ header text, raw = some header ∧ timestampText format header = some text ∧
      timeOf dateParse format.bare text = some ts := by
  unfold parseTimestamp at h
  cases raw with
  | none => exact absurd h (by simp)
  | some header =>
    by_cases hempty : header = []
    · simp [hempty] at h
    · simp only [if_neg hempty] at h
      cases format with
      | stripeSignature =>
        simp only [stripeTimestamp_trim] at h
        cases htext : stripeTimestamp header with
        | none => simp [htext] at h
        | some text =>
          simp only [htext] at h
          exact ⟨header, text, rfl, htext, h⟩
      | unixSeconds => exact ⟨header, trim header, rfl, rfl, h⟩
      | unixMillis => exact ⟨header, trim header, rfl, rfl, h⟩
      | iso => exact ⟨header, trim header, rfl, rfl, h⟩

/-- **The text whose time is read is the text that is signed.** Where a webhook signs its timestamp,
    the message is the bare text of the header, a dot and the body; the time checked against the
    tolerance is that text's, for every format and every header. -/
theorem signedMessage_timestamp {dateParse : Text → Option ℤ} {verification : WebhookVerification}
    {body message : Text} {raw : Option Text} {format : TimestampFormat} {ts : Lib.Num}
    (hsigned : verification.signedPayload ≠ .body)
    (hmessage : signedMessage verification body raw format = some message)
    (htime : parseTimestamp dateParse raw format = some ts) :
    ∃ header text, raw = some header ∧ timestampText format header = some text ∧
      timeOf dateParse format.bare text = some ts ∧ message = text ++ '.' :: body := by
  obtain ⟨header, text, rfl, htext, htimeOf⟩ := parseTimestamp_text htime
  refine ⟨header, text, rfl, htext, htimeOf, ?_⟩
  have hne : header ≠ [] := by
    rintro rfl
    simp [parseTimestamp] at htime
  unfold signedMessage at hmessage
  simp only [if_neg hsigned, if_neg hne] at hmessage
  unfold timestampText at htext
  by_cases hstripe : format = .stripeSignature
  · rw [if_pos hstripe] at hmessage htext
    rw [htext] at hmessage
    exact (Option.some.inj hmessage).symm
  · rw [if_neg hstripe] at hmessage htext
    rw [← Option.some.inj htext]
    exact (Option.some.inj hmessage).symm

/-- A time counted in digits is of a text of digits. -/
theorem timeOf_digits {dateParse : Text → Option ℤ} {format : TimestampFormat} {text : Text}
    {ts : Lib.Num} (hformat : format ≠ .iso) (h : timeOf dateParse format text = some ts) :
    text.all isDigit = true := by
  by_contra hdigits
  have hbad : text = [] ∨ (!text.all isDigit) = true := Or.inr (by simpa using hdigits)
  have hnone : ∀ (q : Option Lib.Num), (if text = [] ∨ (!text.all isDigit) = true then none else q) =
    none := fun _ => if_pos hbad
  cases format with
  | iso => exact hformat rfl
  | unixSeconds => exact absurd ((hnone _).symm.trans h) (by simp)
  | unixMillis => exact absurd ((hnone _).symm.trans h) (by simp)
  | stripeSignature => exact absurd ((hnone _).symm.trans h) (by simp)

/-- **One message is of one timestamp and one body** where the timestamps are digits: the first dot
    ends the timestamp. -/
theorem signed_text_unique {text text' body body' : Text} (htext : text.all isDigit = true)
    (htext' : text'.all isDigit = true) (h : text ++ '.' :: body = text' ++ '.' :: body') :
    text = text' ∧ body = body' := by
  induction text generalizing text' with
  | nil =>
    cases text' with
    | nil => exact ⟨rfl, (List.cons.inj h).2⟩
    | cons d rest' =>
      have hd : d = '.' := (List.cons.inj h).1.symm
      rw [hd] at htext'
      exact absurd (List.all_eq_true.mp htext' '.' List.mem_cons_self) (by decide)
  | cons c rest ih =>
    cases text' with
    | nil =>
      have hc : c = '.' := (List.cons.inj h).1
      rw [hc] at htext
      exact absurd (List.all_eq_true.mp htext '.' List.mem_cons_self) (by decide)
    | cons d rest' =>
      obtain ⟨rfl, htail⟩ := List.cons.inj h
      rw [List.all_cons, Bool.and_eq_true] at htext htext'
      obtain ⟨rfl, hbody⟩ := ih htext.2 htext'.2 htail
      exact ⟨rfl, hbody⟩

end KodyCelld.Webhooks
