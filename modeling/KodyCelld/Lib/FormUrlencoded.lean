import KodyCelld.Lib.Json
import KodyCelld.Lib.Texts
import KodyCelld.Lib.UrlPaths

namespace KodyCelld.Lib

/-!
# Forms and queries (`application/x-www-form-urlencoded`)

What `URLSearchParams` reads from a query and writes to one.

* `formParse`, `formSerialize` — the names and values of a text, and the text of names and values;
* `formDecode_formEncode` — a name or a value reads back as it was written;
* `formParse_formSerialize` — so does a whole list.
-/

/-- The bytes of a text, each escape in it read as the byte that it stands for. -/
def percentDecode : Text → List UInt8
  | [] => []
  | '%' :: high :: low :: rest =>
    match hexDigit? high, hexDigit? low with
    | some h, some l => UInt8.ofNat (h * 16 + l) :: percentDecode rest
    | _, _ => utf8Bytes '%' ++ percentDecode (high :: low :: rest)
  | c :: rest => utf8Bytes c ++ percentDecode rest

def plusToSpace (c : Char) : Char := if c = '+' then ' ' else c

/-- A name or a value of a form, read. -/
def formDecode (text : Text) : Text := utf8DecodeFrom .idle (percentDecode (text.map plusToSpace))

/-- The part of a pair before its first `=`, and the part after it. -/
def splitPair (pair : Text) : Text × Text :=
  (pair.takeWhile fun c => decide (c ≠ '='), (pair.dropWhile fun c => decide (c ≠ '=')).drop 1)

/-- `new URLSearchParams(text)`, of a text without `?`. -/
def formParse (text : Text) : List (Text × Text) :=
  ((text.splitOn '&').filter fun pair => !pair.isEmpty).map fun pair =>
    (formDecode (splitPair pair).1, formDecode (splitPair pair).2)

/-- The characters that a form keeps as they are. -/
def keptInForm (c : Char) : Bool := isLetter c || isDigit c || decide (c ∈ ['*', '-', '.', '_'])

def formByte (b : UInt8) : Text :=
  if b = 0x20 then ['+']
  else if keptInForm (Char.ofNat b.toNat) then [Char.ofNat b.toNat]
  else percentByte b

/-- A name or a value of a form, written. -/
def formEncode (text : Text) : Text := (utf8Encode text).flatMap formByte

/-- `params.toString()` -/
def formSerialize (params : List (Text × Text)) : Text :=
  ['&'].intercalate (params.map fun param => formEncode param.1 ++ '=' :: formEncode param.2)

/-! ### Reading what was written -/

theorem percentDecode_cons {c : Char} (h : c ≠ '%') (rest : Text) :
    percentDecode (c :: rest) = utf8Bytes c ++ percentDecode rest := by
  rw [percentDecode]
  intro high low more hc
  exact absurd hc h

/-- A hexadecimal digit has its value, and is no `+`. -/
theorem upperHex_value : ∀ n : Fin 16, hexDigit? (upperHex n) = some n.val ∧
    plusToSpace (upperHex n) = upperHex n := by
  decide

theorem percentDecode_percentByte (b : UInt8) (rest : Text) :
    percentDecode ((percentByte b).map plusToSpace ++ rest) = b :: percentDecode rest := by
  have hlt : b.toNat < 256 := b.toNat_lt
  obtain ⟨hhigh, hplus⟩ := upperHex_value ⟨b.toNat / 16, by omega⟩
  obtain ⟨hlow, hplus'⟩ := upperHex_value ⟨b.toNat % 16, by omega⟩
  have hbyte : b.toNat / 16 * 16 + b.toNat % 16 = b.toNat := by omega
  have hmapped : (percentByte b).map plusToSpace ++ rest =
      '%' :: upperHex (b.toNat / 16) :: upperHex (b.toNat % 16) :: rest := by
    show plusToSpace '%' :: plusToSpace _ :: plusToSpace _ :: rest = _
    rw [hplus, hplus']
    rfl
  rw [hmapped, percentDecode, hhigh, hlow]
  show UInt8.ofNat (b.toNat / 16 * 16 + b.toNat % 16) :: _ = _
  rw [hbyte, UInt8.ofNat_toNat]

/-- A byte that is kept stands for itself. -/
theorem kept_byte : ∀ n : Fin 256, keptInForm (Char.ofNat n) = true →
    plusToSpace (Char.ofNat n) = Char.ofNat n ∧ Char.ofNat n ≠ '%' ∧
      utf8Bytes (Char.ofNat n) = [UInt8.ofNat n] := by
  decide +kernel

theorem percentDecode_formByte (b : UInt8) (rest : Text) :
    percentDecode ((formByte b).map plusToSpace ++ rest) = b :: percentDecode rest := by
  unfold formByte
  split
  · rename_i hspace
    rw [hspace]
    exact percentDecode_cons (by decide) rest
  · split
    · rename_i hkept
      obtain ⟨hplus, hpercent, hbytes⟩ := kept_byte ⟨b.toNat, b.toNat_lt⟩ hkept
      have hmapped : [Char.ofNat b.toNat].map plusToSpace ++ rest = Char.ofNat b.toNat :: rest := by
        show plusToSpace _ :: rest = _
        rw [hplus]
      rw [hmapped, percentDecode_cons hpercent, hbytes]
      show UInt8.ofNat b.toNat :: percentDecode rest = _
      rw [UInt8.ofNat_toNat]
    · exact percentDecode_percentByte b rest

/-- **What was written reads back.** -/
theorem formDecode_formEncode (text : Text) : formDecode (formEncode text) = text := by
  have hbytes : ∀ bytes : List UInt8,
      percentDecode ((bytes.flatMap formByte).map plusToSpace) = bytes := by
    intro bytes
    induction bytes with
    | nil => rfl
    | cons b rest ih => rw [List.flatMap_cons, List.map_append, percentDecode_formByte, ih]
  unfold formDecode formEncode
  rw [hbytes, utf8DecodeFrom_utf8Encode]

/-- What is written consists of characters that a form keeps, escapes and `+`. -/
theorem mem_formEncode {text : Text} {c : Char} (h : c ∈ formEncode text) :
    c = '+' ∨ c = '%' ∨ keptInForm c = true := by
  obtain ⟨b, -, hb⟩ := List.mem_flatMap.mp h
  have hdigits : ∀ c ∈ ("0123456789ABCDEF" : Text), keptInForm c = true := by decide
  unfold formByte at hb
  split at hb
  · exact .inl (List.mem_singleton.mp hb)
  · split at hb
    · rename_i hkept
      rw [List.mem_singleton.mp hb]
      exact .inr (.inr hkept)
    · right
      rcases List.mem_cons.mp hb with rfl | hb
      · exact .inl rfl
      · right
        rcases List.mem_cons.mp hb with rfl | hb
        · exact hdigits _ (upperHex_cases _)
        · rw [List.mem_singleton.mp hb]
          exact hdigits _ (upperHex_cases _)

theorem not_mem_formEncode {text : Text} {c : Char} (hplus : c ≠ '+') (hpercent : c ≠ '%')
    (hkept : keptInForm c = false) : c ∉ formEncode text := by
  intro h
  rcases mem_formEncode h with rfl | rfl | hc
  · exact hplus rfl
  · exact hpercent rfl
  · rw [hkept] at hc
    cases hc

theorem splitPair_append {name : Text} (h : '=' ∉ name) (value : Text) :
    splitPair (name ++ '=' :: value) = (name, value) := by
  have hname : ∀ c ∈ name, decide (c ≠ '=') = true := by
    intro c hc
    rw [decide_eq_true_eq]
    rintro rfl
    exact h hc
  unfold splitPair
  rw [List.takeWhile_append_of_pos hname, List.dropWhile_append_of_pos hname]
  simp

/-- **A list reads back as it was written.** -/
theorem formParse_formSerialize (params : List (Text × Text)) :
    formParse (formSerialize params) = params := by
  by_cases hempty : params = []
  · rw [hempty]
    rfl
  unfold formParse formSerialize
  have hplain : ∀ pair ∈ params.map fun param => formEncode param.1 ++ '=' :: formEncode param.2,
      '&' ∉ pair := by
    intro pair hpair hmem
    obtain ⟨param, -, rfl⟩ := List.mem_map.mp hpair
    rcases List.mem_append.mp hmem with hname | hvalue
    · exact not_mem_formEncode (by decide) (by decide) (by decide) hname
    · rcases List.mem_cons.mp hvalue with heq | hvalue
      · exact absurd heq (by decide)
      · exact not_mem_formEncode (by decide) (by decide) (by decide) hvalue
  rw [List.splitOn_intercalate '&' hplain (by simpa using hempty)]
  have hfilter : (params.map fun param => formEncode param.1 ++ '=' :: formEncode param.2).filter
      (fun pair => !pair.isEmpty) =
        params.map fun param => formEncode param.1 ++ '=' :: formEncode param.2 := by
    apply List.filter_eq_self.mpr
    intro pair hpair
    obtain ⟨param, -, rfl⟩ := List.mem_map.mp hpair
    simp
  rw [hfilter, List.map_map]
  apply (List.map_congr_left _).trans (List.map_id params)
  intro param _
  show (formDecode (splitPair _).1, formDecode (splitPair _).2) = param
  rw [splitPair_append (not_mem_formEncode (by decide) (by decide) (by decide)),
    formDecode_formEncode, formDecode_formEncode]

end KodyCelld.Lib
