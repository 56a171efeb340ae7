import KodyCelld.Lib.FormUrlencoded
import KodyCelld.Lib.Texts

namespace KodyCelld.Lib

/-!
# Components of URIs

What `decodeURIComponent` reads from a percent-encoded text, and what throws.

* `componentBytes`, `decodeURIComponent` — the bytes of a text, and the text of these bytes;
* `decodeURIComponent_percentEncode` — what was encoded reads back;
* `isDotSegment_decode` — what a path takes for a dot segment decodes to one.
-/

/-- The bytes of a text, each escape in it read as the byte that it stands for; `none` where a percent
    sign starts no escape. -/
def componentBytes : Text → Option (List UInt8)
  | [] => some []
  | '%' :: high :: low :: rest =>
    match hexDigit? high, hexDigit? low with
    | some h, some l => (componentBytes rest).map (UInt8.ofNat (h * 16 + l) :: ·)
    | _, _ => none
  | '%' :: _ => none
  | c :: rest => (componentBytes rest).map (utf8Bytes c ++ ·)

/-- `decodeURIComponent(text)`; `none` where it throws, also on bytes that are not UTF-8. -/
def decodeURIComponent (text : Text) : Option Text :=
  (componentBytes text).bind fun bytes =>
    if utf8Encode (utf8DecodeFrom .idle bytes) = bytes then some (utf8DecodeFrom .idle bytes) else none

/-! ### Reading back -/

section
variable {keep : Char → Bool} {c : Char} {text decoded : Text}

theorem componentBytes_cons (h : c ≠ '%') (rest : Text) :
    componentBytes (c :: rest) = (componentBytes rest).map (utf8Bytes c ++ ·) := by
  rw [componentBytes]
  · intro high low more hc
    exact absurd hc h
  · exact h

/-- An escape is read as its byte. -/
theorem componentBytes_percentByte (b : UInt8) (rest : Text) :
    componentBytes (percentByte b ++ rest) = (componentBytes rest).map (b :: ·) := by
  have hlt : b.toNat < 256 := b.toNat_lt
  obtain ⟨hhigh, -⟩ := upperHex_value ⟨b.toNat / 16, by omega⟩
  obtain ⟨hlow, -⟩ := upperHex_value ⟨b.toNat % 16, by omega⟩
  have hbyte : b.toNat / 16 * 16 + b.toNat % 16 = b.toNat := by omega
  show componentBytes ('%' :: upperHex (b.toNat / 16) :: upperHex (b.toNat % 16) :: rest) = _
  rw [componentBytes, hhigh, hlow]
  show (componentBytes rest).map (UInt8.ofNat (b.toNat / 16 * 16 + b.toNat % 16) :: ·) = _
  rw [hbyte, UInt8.ofNat_toNat]

theorem componentBytes_escape (bytes : List UInt8) (rest : Text) :
    componentBytes (bytes.flatMap percentByte ++ rest) = (componentBytes rest).map (bytes ++ ·) := by
  induction bytes with
  | nil => exact Option.map_id'.symm
  | cons b bytes ih =>
    rw [List.flatMap_cons, List.append_assoc, componentBytes_percentByte, ih, Option.map_map]
    rfl

theorem componentBytes_percentEncode (hkeep : keep '%' = false) (text : Text) :
    componentBytes (percentEncode keep text) = some (utf8Encode text) := by
  induction text with
  | nil => rfl
  | cons c rest ih =>
    by_cases hc : keep c = true
    · have hpercent : c ≠ '%' := by
        rintro rfl
        rw [hkeep] at hc
        cases hc
      rw [percentEncode_cons_kept hc, componentBytes_cons hpercent, ih]
      rfl
    · rw [percentEncode_cons_escaped hc, componentBytes_escape, ih]
      rfl

/-- **What was encoded reads back**, whatever else was kept. -/
theorem decodeURIComponent_percentEncode (hkeep : keep '%' = false) (text : Text) :
    decodeURIComponent (percentEncode keep text) = some text := by
  unfold decodeURIComponent
  rw [componentBytes_percentEncode hkeep, Option.bind_some, utf8DecodeFrom_utf8Encode, if_pos rfl]

/-! ### Dot segments -/

/-- A text that has one more character than its lower case is known to have. -/
theorem lower_eq_cons {c : Char} {rest : Text} (h : lower text = c :: rest) :
    ∃ d more, text = d :: more ∧ d.toLower = c ∧ lower more = rest := by
  cases text with
  | nil => cases h
  | cons d more => exact ⟨d, more, rfl, (List.cons.inj h).1, (List.cons.inj h).2⟩

/-- The escape of a dot, in either case. -/
theorem lower_eq_escape {rest : Text} (h : lower text = '%' :: '2' :: 'e' :: rest) :
    ∃ more, lower more = rest ∧ ∀ bytes, componentBytes more = some bytes →
      componentBytes text = some (0x2e :: bytes) := by
  obtain ⟨a, text, rfl, ha, htext⟩ := lower_eq_cons h
  obtain ⟨b, text, rfl, hb, htext⟩ := lower_eq_cons htext
  obtain ⟨c, more, rfl, hc, hmore⟩ := lower_eq_cons htext
  obtain rfl := eq_of_toLower (by decide) ha
  obtain rfl := eq_of_toLower (by decide) hb
  have hdigit : hexDigit? c = some 14 := by
    rcases toLower_cases c with hsame | ⟨n, hlow, hhigh, rfl⟩
    · rw [← hsame, hc]
      decide
    · have hcapital : ∀ n : Fin 91, (Char.ofNat n).toLower = 'e' → hexDigit? (Char.ofNat n) = some 14 := by
        decide +kernel
      exact hcapital ⟨n, hhigh⟩ hc
  refine ⟨more, hmore, fun bytes hbytes => ?_⟩
  rw [componentBytes, hdigit, hbytes]
  rfl

/-- The same for a dot as it is. -/
theorem lower_eq_dot {rest : Text} (h : lower text = '.' :: rest) :
    ∃ more, lower more = rest ∧ ∀ bytes, componentBytes more = some bytes →
      componentBytes text = some (0x2e :: bytes) := by
  obtain ⟨a, more, rfl, ha, hmore⟩ := lower_eq_cons h
  obtain rfl := eq_of_toLower (by decide) ha
  refine ⟨more, hmore, fun bytes hbytes => ?_⟩
  rw [componentBytes_cons (by decide), hbytes]
  rfl

/-- **What a path takes for a dot segment decodes to one.** -/
theorem isDotSegment_decode (h : isDotSegment text = true) (hdecoded : decodeURIComponent text = some decoded) :
    decoded = "." ∨ decoded = ".." := by
  have hend : ∀ {text : Text}, lower text = [] → componentBytes text = some [] := by
    intro text hnil
    rw [List.map_eq_nil_iff.mp hnil]
    rfl
  have hbytes : componentBytes text = some [0x2e] ∨ componentBytes text = some [0x2e, 0x2e] := by
    have hmem := of_decide_eq_true h
    simp only [List.mem_cons, List.not_mem_nil, or_false] at hmem
    rcases hmem with hone | htwo | hone | htwo | htwo | htwo
    · obtain ⟨more, hmore, hread⟩ := lower_eq_dot hone
      exact .inl (hread _ (hend hmore))
    · obtain ⟨more, hmore, hread⟩ := lower_eq_dot htwo
      obtain ⟨more', hmore', hread'⟩ := lower_eq_dot hmore
      exact .inr (hread _ (hread' _ (hend hmore')))
    · obtain ⟨more, hmore, hread⟩ := lower_eq_escape hone
      exact .inl (hread _ (hend hmore))
    · obtain ⟨more, hmore, hread⟩ := lower_eq_dot htwo
      obtain ⟨more', hmore', hread'⟩ := lower_eq_escape hmore
      exact .inr (hread _ (hread' _ (hend hmore')))
    · obtain ⟨more, hmore, hread⟩ := lower_eq_escape htwo
      obtain ⟨more', hmore', hread'⟩ := lower_eq_dot hmore
      exact .inr (hread _ (hread' _ (hend hmore')))
    · obtain ⟨more, hmore, hread⟩ := lower_eq_escape htwo
      obtain ⟨more', hmore', hread'⟩ := lower_eq_escape hmore
      exact .inr (hread _ (hread' _ (hend hmore')))
  unfold decodeURIComponent at hdecoded
  rcases hbytes with hone | htwo
  · rw [hone] at hdecoded
    exact .inl (Option.some.inj hdecoded).symm
  · rw [htwo] at hdecoded
    exact .inr (Option.some.inj hdecoded).symm

end

end KodyCelld.Lib
