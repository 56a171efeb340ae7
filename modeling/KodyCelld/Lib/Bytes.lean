import KodyCelld.Lib.Js

namespace KodyCelld.Lib

/-!
# Bytes

Text as bytes and bytes as text, as the platform converts them:

* `utf8Encode`, `utf8Decode`, `utf8DecodeFatal` — `TextEncoder` and `TextDecoder`;
* `btoa`, `atob` — base64, with the lenient decoding of `atob`;
* `toBase64Url`, `fromBase64Url` — the unpadded alphabet of URLs.

Each decoder undoes its encoder: `utf8Decode_utf8Encode` and `fromBase64Url_toBase64Url`.
-/

/-! ### UTF-8 -/

/-- The bytes of one character. -/
def utf8Bytes (c : Char) : List UInt8 :=
  let n := c.toNat
  if n < 0x80 then [UInt8.ofNat n]
  else if n < 0x800 then [UInt8.ofNat (0xc0 + n / 64), UInt8.ofNat (0x80 + n % 64)]
  else if n < 0x10000 then
    [UInt8.ofNat (0xe0 + n / 4096), UInt8.ofNat (0x80 + n / 64 % 64), UInt8.ofNat (0x80 + n % 64)]
  else
    [UInt8.ofNat (0xf0 + n / 262144), UInt8.ofNat (0x80 + n / 4096 % 64),
      UInt8.ofNat (0x80 + n / 64 % 64), UInt8.ofNat (0x80 + n % 64)]

/-- `new TextEncoder().encode(text)` -/
def utf8Encode (s : Text) : List UInt8 := s.flatMap utf8Bytes

/-- What a malformed sequence decodes to. -/
def replacementChar : Char := '\ufffd'

/-- Where the decoder stands: how many bytes of a character are missing, the bounds of the next one,
    and the bits it has. -/
structure Utf8State where
  needed : ℕ
  lower : ℕ
  upper : ℕ
  code : ℕ
  deriving DecidableEq, Repr

def Utf8State.idle : Utf8State := ⟨0, 0x80, 0xbf, 0⟩

/-- What the first byte of a character emits, and the state it leaves. -/
def utf8Lead (b : ℕ) : Text × Utf8State :=
  if b < 0x80 then ([Char.ofNat b], .idle)
  else if 0xc2 ≤ b ∧ b ≤ 0xdf then ([], ⟨1, 0x80, 0xbf, b - 0xc0⟩)
  else if 0xe0 ≤ b ∧ b ≤ 0xef then
    ([], ⟨2, if b = 0xe0 then 0xa0 else 0x80, if b = 0xed then 0x9f else 0xbf, b - 0xe0⟩)
  else if 0xf0 ≤ b ∧ b ≤ 0xf4 then
    ([], ⟨3, if b = 0xf0 then 0x90 else 0x80, if b = 0xf4 then 0x8f else 0xbf, b - 0xf0⟩)
  else ([replacementChar], .idle)

/-- One byte.  A byte that cannot continue a character ends it and starts the next one. -/
def utf8Step (st : Utf8State) (b : ℕ) : Text × Utf8State :=
  if st.needed = 0 then utf8Lead b
  else if b < st.lower ∨ st.upper < b then (replacementChar :: (utf8Lead b).1, (utf8Lead b).2)
  else if st.needed = 1 then ([Char.ofNat (st.code * 64 + (b - 0x80))], .idle)
  else ([], ⟨st.needed - 1, 0x80, 0xbf, st.code * 64 + (b - 0x80)⟩)

def utf8DecodeFrom (st : Utf8State) : List UInt8 → Text
  | [] => if st.needed = 0 then [] else [replacementChar]
  | b :: rest => (utf8Step st b.toNat).1 ++ utf8DecodeFrom (utf8Step st b.toNat).2 rest

/-- `new TextDecoder().decode(bytes)`, which drops a byte order mark. -/
def utf8Decode : List UInt8 → Text
  | 0xef :: 0xbb :: 0xbf :: rest => utf8DecodeFrom .idle rest
  | bytes => utf8DecodeFrom .idle bytes

/-- The bytes after a byte order mark. -/
def dropByteOrderMark : List UInt8 → List UInt8
  | 0xef :: 0xbb :: 0xbf :: rest => rest
  | bytes => bytes

/-- `new TextDecoder('utf-8', { fatal: true }).decode(bytes)`; `none` where it throws.  A replaced
    sequence does not encode back to the bytes it stood for. -/
def utf8DecodeFatal (bytes : List UInt8) : Option Text :=
  if utf8Encode (utf8Decode bytes) = dropByteOrderMark bytes then some (utf8Decode bytes) else none

/-- `bytes.subarray(start, stop)` -/
def subarray (bytes : List UInt8) (start stop : ℕ) : List UInt8 := (bytes.take stop).drop start

theorem toNat_ofNat_byte {n : ℕ} (h : n < 256) : (UInt8.ofNat n).toNat = n := by
  rw [UInt8.toNat_ofNat']
  exact Nat.mod_eq_of_lt h

/-- A byte within the bounds that completes a character. -/
theorem utf8Step_last {lower upper code b : ℕ} (hlower : lower ≤ b) (hupper : b ≤ upper) :
    utf8Step ⟨1, lower, upper, code⟩ b = ([Char.ofNat (code * 64 + (b - 0x80))], .idle) := by
  have hin : ¬ (b < lower ∨ upper < b) := by omega
  unfold utf8Step
  rw [if_neg Nat.one_ne_zero, if_neg hin, if_pos rfl]

/-- A byte within the bounds that leaves some missing. -/
theorem utf8Step_more {needed lower upper code b : ℕ} (hlower : lower ≤ b) (hupper : b ≤ upper) :
    utf8Step ⟨needed + 2, lower, upper, code⟩ b =
      ([], ⟨needed + 1, 0x80, 0xbf, code * 64 + (b - 0x80)⟩) := by
  have hin : ¬ (b < lower ∨ upper < b) := by omega
  have hmore : needed + 2 ≠ 1 := by omega
  unfold utf8Step
  rw [if_neg (Nat.succ_ne_zero _), if_neg hin, if_neg hmore]
  rfl

theorem utf8Step_lead (b : ℕ) : utf8Step .idle b = utf8Lead b := if_pos rfl

/-- The bytes of a character decode to it, whatever follows. -/
theorem utf8DecodeFrom_utf8Bytes (c : Char) (rest : List UInt8) :
    utf8DecodeFrom .idle (utf8Bytes c ++ rest) = c :: utf8DecodeFrom .idle rest := by
  have hvalid : c.toNat < 0xd800 ∨ (0xdfff < c.toNat ∧ c.toNat < 0x110000) := c.valid
  have hchar : ∀ n, n = c.toNat → Char.ofNat n = c := by
    intro n hn
    rw [hn, Char.ofNat_toNat]
  generalize hn : c.toNat = n at hvalid hchar
  unfold utf8Bytes
  rw [hn]
  dsimp only
  split
  · rename_i h1
    have hlead : utf8Lead n = ([c], .idle) := by
      rw [utf8Lead, if_pos h1, hchar n rfl]
    rw [List.singleton_append, utf8DecodeFrom, toNat_ofNat_byte (by omega), utf8Step_lead, hlead]
    rfl
  · split
    · rename_i h1 h2
      have hlead : utf8Lead (0xc0 + n / 64) = ([], ⟨1, 0x80, 0xbf, n / 64⟩) := by
        rw [utf8Lead, if_neg (by omega), if_pos (by omega), Nat.add_sub_cancel_left]
      simp only [List.cons_append, List.nil_append, utf8DecodeFrom]
      rw [toNat_ofNat_byte (by omega), toNat_ofNat_byte (by omega), utf8Step_lead, hlead,
        utf8Step_last (by omega) (by omega), hchar _ (by omega)]
      rfl
    · split
      · rename_i h1 h2 h3
        -- `E0` and `ED` narrow their second byte: no overlong form, no surrogate
        obtain ⟨lower, upper, hlead, hlower, hupper⟩ : ∃ lower upper,
            utf8Lead (0xe0 + n / 4096) = ([], ⟨2, lower, upper, n / 4096⟩) ∧
              lower ≤ 0x80 + n / 64 % 64 ∧ 0x80 + n / 64 % 64 ≤ upper := by
          rw [utf8Lead, if_neg (by omega), if_neg (by omega), if_pos (by omega),
            Nat.add_sub_cancel_left]
          refine ⟨_, _, rfl, ?_, ?_⟩
          · split <;> omega
          · split <;> omega
        simp only [List.cons_append, List.nil_append, utf8DecodeFrom]
        rw [toNat_ofNat_byte (by omega), toNat_ofNat_byte (by omega), toNat_ofNat_byte (by omega),
          utf8Step_lead, hlead, utf8Step_more hlower hupper, utf8Step_last (by omega) (by omega),
          hchar _ (by omega)]
        rfl
      · rename_i h1 h2 h3
        -- so do `F0` and `F4`: no overlong form, nothing above `10FFFF`
        obtain ⟨lower, upper, hlead, hlower, hupper⟩ : ∃ lower upper,
            utf8Lead (0xf0 + n / 262144) = ([], ⟨3, lower, upper, n / 262144⟩) ∧
              lower ≤ 0x80 + n / 4096 % 64 ∧ 0x80 + n / 4096 % 64 ≤ upper := by
          rw [utf8Lead, if_neg (by omega), if_neg (by omega), if_neg (by omega), if_pos (by omega),
            Nat.add_sub_cancel_left]
          refine ⟨_, _, rfl, ?_, ?_⟩
          · split <;> omega
          · split <;> omega
        simp only [List.cons_append, List.nil_append, utf8DecodeFrom]
        rw [toNat_ofNat_byte (by omega), toNat_ofNat_byte (by omega), toNat_ofNat_byte (by omega),
          toNat_ofNat_byte (by omega), utf8Step_lead, hlead, utf8Step_more hlower hupper,
          utf8Step_more (by omega) (by omega), utf8Step_last (by omega) (by omega),
          hchar _ (by omega)]
        rfl

theorem utf8DecodeFrom_utf8Encode (s : Text) : utf8DecodeFrom .idle (utf8Encode s) = s := by
  induction s with
  | nil => rfl
  | cons c rest ih =>
    rw [utf8Encode, List.flatMap_cons, utf8DecodeFrom_utf8Bytes]
    exact congrArg (c :: ·) ih

/-- **UTF-8 round trip**, for a text that does not start with a byte order mark. -/
theorem utf8Decode_utf8Encode {s : Text} (h : ∀ rest, utf8Encode s ≠ 0xef :: 0xbb :: 0xbf :: rest) :
    utf8Decode (utf8Encode s) = s := by
  unfold utf8Decode
  split
  · rename_i rest heq
    exact absurd heq (h rest)
  · exact utf8DecodeFrom_utf8Encode s

/-! ### Base64 -/

def base64Alphabet : Text := "ABCDEFGHIJKLMNOPQRSTUVWXYZabcdefghijklmnopqrstuvwxyz0123456789+/"

def base64Char (n : ℕ) : Char := base64Alphabet.getD n 'A'

def base64Value? (c : Char) : Option ℕ := base64Alphabet.findIdx? (· = c)

/-- The groups of six bits; the last one is filled up with zeros. -/
def sextets : List UInt8 → List ℕ
  | [] => []
  | [a] => [a.toNat / 4, a.toNat % 4 * 16]
  | [a, b] => [a.toNat / 4, a.toNat % 4 * 16 + b.toNat / 16, b.toNat % 16 * 4]
  | a :: b :: c :: rest =>
    a.toNat / 4 :: (a.toNat % 4 * 16 + b.toNat / 16) :: (b.toNat % 16 * 4 + c.toNat / 64) ::
      c.toNat % 64 :: sextets rest

/-- The bytes of groups of six bits; what is left of the last group is dropped. -/
def ofSextets : List ℕ → List UInt8
  | w :: x :: y :: z :: rest =>
    UInt8.ofNat (w * 4 + x / 16) :: UInt8.ofNat (x % 16 * 16 + y / 4) ::
      UInt8.ofNat (y % 4 * 64 + z) :: ofSextets rest
  | [w, x, y] => [UInt8.ofNat (w * 4 + x / 16), UInt8.ofNat (x % 16 * 16 + y / 4)]
  | [w, x] => [UInt8.ofNat (w * 4 + x / 16)]
  | _ => []

/-- The padding that completes a group of four. -/
def base64Padding (length : ℕ) : Text := List.replicate ((4 - length % 4) % 4) '='

/-- `btoa(binary)` -/
def btoa (bytes : List UInt8) : Text :=
  let digits := (sextets bytes).map base64Char
  digits ++ base64Padding digits.length

/-- The white space that `atob` skips. -/
def isAsciiSpace (c : Char) : Bool := c ∈ ['\t', '\n', '\x0c', '\r', ' ']

/-- Drops up to two padding characters. -/
def dropPadding (data : Text) : Text :=
  match data.reverse with
  | '=' :: '=' :: rest => rest.reverse
  | '=' :: rest => rest.reverse
  | _ => data

/-- `atob(data)`; `none` where it throws. -/
def atob (text : Text) : Option (List UInt8) :=
  let data := text.filter fun c => !isAsciiSpace c
  let data := if data.length % 4 = 0 then dropPadding data else data
  if data.length % 4 = 1 then none
  else (data.mapM base64Value?).map ofSextets

/-- `replaceAll('+', '-').replaceAll('/', '_')` -/
def urlSafe (c : Char) : Char := if c = '+' then '-' else if c = '/' then '_' else c

/-- `replaceAll('-', '+').replaceAll('_', '/')` -/
def urlUnsafe (c : Char) : Char := if c = '-' then '+' else if c = '_' then '/' else c

def toBase64Url (bytes : List UInt8) : Text :=
  (((btoa bytes).map urlSafe).reverse.dropWhile (· = '=')).reverse

/-- `[A-Za-z0-9_-]` -/
def isBase64UrlChar (c : Char) : Bool := isLetter c || isDigit c || c = '_' || c = '-'

def fromBase64Url (text : Text) : Option (List UInt8) :=
  if text = [] ∨ !text.all isBase64UrlChar then none
  else atob (text.map urlUnsafe ++ base64Padding text.length)

theorem sextets_lt {bytes : List UInt8} {n : ℕ} (h : n ∈ sextets bytes) : n < 64 := by
  induction bytes using sextets.induct with
  | case1 => simp [sextets] at h
  | case2 a =>
    have ha := a.toNat_lt
    simp only [sextets, List.mem_cons, List.not_mem_nil, or_false] at h
    omega
  | case3 a b =>
    have ha := a.toNat_lt
    have hb := b.toNat_lt
    simp only [sextets, List.mem_cons, List.not_mem_nil, or_false] at h
    omega
  | case4 a b c rest ih =>
    have ha := a.toNat_lt
    have hb := b.toNat_lt
    have hc := c.toNat_lt
    simp only [sextets, List.mem_cons] at h
    rcases h with h | h | h | h | h
    all_goals first
      | omega
      | exact ih h

theorem length_sextets (bytes : List UInt8) : (sextets bytes).length % 4 ≠ 1 := by
  induction bytes using sextets.induct with
  | case1 => decide
  | case2 a => simp [sextets]
  | case3 a b => simp [sextets]
  | case4 a b c rest ih =>
    simp only [sextets, List.length_cons]
    omega

theorem ofSextets_sextets (bytes : List UInt8) : ofSextets (sextets bytes) = bytes := by
  have hbyte : ∀ (a : UInt8) (n : ℕ), n = a.toNat → UInt8.ofNat n = a := by
    rintro a n rfl
    exact UInt8.ofNat_toNat
  induction bytes using sextets.induct with
  | case1 => rfl
  | case2 a =>
    have ha := a.toNat_lt
    simp only [sextets, ofSextets]
    rw [hbyte a _ (by omega)]
  | case3 a b =>
    have ha := a.toNat_lt
    have hb := b.toNat_lt
    simp only [sextets, ofSextets]
    rw [hbyte a _ (by omega), hbyte b _ (by omega)]
  | case4 a b c rest ih =>
    have ha := a.toNat_lt
    have hb := b.toNat_lt
    have hc := c.toNat_lt
    simp only [sextets, ofSextets, ih]
    rw [hbyte a _ (by omega), hbyte b _ (by omega), hbyte c _ (by omega)]

/-- Every digit of the alphabet has its value, and stays itself through the alphabet of URLs. -/
theorem base64_digit : ∀ n : Fin 64, base64Value? (base64Char n) = some n.val ∧
    urlUnsafe (urlSafe (base64Char n)) = base64Char n ∧
    isBase64UrlChar (urlSafe (base64Char n)) = true ∧ base64Char n ≠ '=' ∧
    isAsciiSpace (base64Char n) = false := by
  decide

section
variable {digits : List ℕ}

theorem mapM_base64Value (h : ∀ n ∈ digits, n < 64) :
    (digits.map base64Char).mapM base64Value? = some digits := by
  induction digits with
  | nil => rfl
  | cons n rest ih =>
    have hn := (base64_digit ⟨n, h n List.mem_cons_self⟩).1
    rw [List.map_cons, List.mapM_cons, hn, ih fun m hm => h m (List.mem_cons_of_mem _ hm)]
    rfl

theorem not_mem_digits (h : ∀ n ∈ digits, n < 64) : '=' ∉ digits.map base64Char := by
  intro hmem
  obtain ⟨n, hn, heq⟩ := List.mem_map.mp hmem
  exact (base64_digit ⟨n, h n hn⟩).2.2.2.1 heq

theorem dropPadding_digits (h : ∀ n ∈ digits, n < 64) {k : ℕ} (hk : k ≤ 2) :
    dropPadding (digits.map base64Char ++ List.replicate k '=') = digits.map base64Char := by
  have hnone : ∀ rest, (digits.map base64Char).reverse ≠ '=' :: rest := by
    intro rest heq
    refine not_mem_digits h (List.mem_reverse.mp ?_)
    rw [heq]
    exact List.mem_cons_self
  unfold dropPadding
  rw [List.reverse_append, List.reverse_replicate]
  match k, hk with
  | 0, _ =>
    split
    · rename_i heq
      exact absurd heq (hnone _)
    · rename_i heq
      exact absurd heq (hnone _)
    · exact List.append_nil _
  | 1, _ =>
    split
    · rename_i heq
      exact absurd (List.cons.inj heq).2 (hnone _)
    · rename_i heq
      rw [← (List.cons.inj heq).2]
      exact List.reverse_reverse _
    · rename_i hno
      exact absurd rfl (hno _)
  | 2, _ =>
    show ((digits.map base64Char).reverse).reverse = _
    rw [List.reverse_reverse]

theorem toBase64Url_eq (bytes : List UInt8) :
    toBase64Url bytes = ((sextets bytes).map base64Char).map urlSafe := by
  have hlt : ∀ n ∈ sextets bytes, n < 64 := fun n => sextets_lt
  have hpadding : ∀ k, (List.replicate k '=').map urlSafe = List.replicate k '=' := by
    intro k
    rw [List.map_replicate]
    rfl
  have hurl : ∀ c ∈ (((sextets bytes).map base64Char).map urlSafe).reverse, c ≠ '=' := by
    intro c hc
    obtain ⟨d, hd, rfl⟩ := List.mem_map.mp (List.mem_reverse.mp hc)
    obtain ⟨n, hn, rfl⟩ := List.mem_map.mp hd
    have hchar := (base64_digit ⟨n, hlt n hn⟩).2.2.1
    rintro heq
    rw [heq] at hchar
    exact absurd hchar (by decide)
  have hdrop : ∀ (k : ℕ) (l : Text), (∀ c ∈ l, c ≠ '=') →
      (List.replicate k '=' ++ l).dropWhile (· = '=') = l := by
    intro k l hl
    induction k with
    | zero =>
      cases l with
      | nil => rfl
      | cons c rest =>
        rw [List.replicate_zero, List.nil_append, List.dropWhile_cons_of_neg]
        simpa using hl c List.mem_cons_self
    | succ k ih =>
      rw [List.replicate_succ, List.cons_append, List.dropWhile_cons_of_pos (by simp)]
      exact ih
  unfold toBase64Url btoa base64Padding
  dsimp only
  rw [List.map_append, hpadding, List.reverse_append, List.reverse_replicate, hdrop _ _ hurl,
    List.reverse_reverse]

end

/-- **Base64 round trip.** -/
theorem fromBase64Url_toBase64Url {bytes : List UInt8} (h : bytes ≠ []) :
    fromBase64Url (toBase64Url bytes) = some bytes := by
  have hlt : ∀ n ∈ sextets bytes, n < 64 := fun n => sextets_lt
  have hlength := length_sextets bytes
  have hunsafe : (((sextets bytes).map base64Char).map urlSafe).map urlUnsafe =
      (sextets bytes).map base64Char := by
    rw [List.map_map, List.map_map]
    refine List.map_congr_left fun n hn => ?_
    exact (base64_digit ⟨n, hlt n hn⟩).2.1
  have hspace : ∀ k, ((sextets bytes).map base64Char ++ List.replicate k '=').filter
      (fun c => !isAsciiSpace c) = (sextets bytes).map base64Char ++ List.replicate k '=' := by
    intro k
    refine List.filter_eq_self.mpr fun c hc => ?_
    rcases List.mem_append.mp hc with hc | hc
    · obtain ⟨n, hn, rfl⟩ := List.mem_map.mp hc
      rw [(base64_digit ⟨n, hlt n hn⟩).2.2.2.2]
      rfl
    · rw [List.eq_of_mem_replicate hc]
      decide
  have hne : ((sextets bytes).map base64Char).map urlSafe ≠ [] := by
    cases bytes with
    | nil => exact absurd rfl h
    | cons a rest =>
      match rest with
      | [] => simp [sextets]
      | [b] => simp [sextets]
      | b :: c :: rest => simp [sextets]
  have hall : (((sextets bytes).map base64Char).map urlSafe).all isBase64UrlChar = true := by
    refine List.all_eq_true.mpr fun c hc => ?_
    obtain ⟨d, hd, rfl⟩ := List.mem_map.mp hc
    obtain ⟨n, hn, rfl⟩ := List.mem_map.mp hd
    exact (base64_digit ⟨n, hlt n hn⟩).2.2.1
  have hpadded : ((sextets bytes).map base64Char ++
      List.replicate ((4 - (sextets bytes).length % 4) % 4) '=').length % 4 = 0 := by
    rw [List.length_append, List.length_map, List.length_replicate]
    omega
  have htext : ¬ (((sextets bytes).map base64Char).map urlSafe = [] ∨
      (!(((sextets bytes).map base64Char).map urlSafe).all isBase64UrlChar) = true) := by
    rw [hall]
    exact fun hor => hor.elim hne (fun hfalse => absurd hfalse (by decide))
  rw [toBase64Url_eq, fromBase64Url, if_neg htext, hunsafe, base64Padding, List.length_map,
    List.length_map]
  unfold atob
  dsimp only
  rw [hspace, if_pos hpadded, dropPadding_digits hlt (by omega), List.length_map, if_neg hlength,
    mapM_base64Value hlt, Option.map_some, ofSextets_sextets]

end KodyCelld.Lib
