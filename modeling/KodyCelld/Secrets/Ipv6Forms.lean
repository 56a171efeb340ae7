import KodyCelld.Secrets.IpText

namespace KodyCelld.Secrets

open KodyCelld.Lib

/-!
# The written forms of version 6

An address of version 6 is written as eight groups of hexadecimal digits between colons, where one
`::` may stand for one or more groups of zeros and the last two groups may be written as a dotted
quad.  `parseIpv6` takes the quad on either side of the `::`.

* `Ipv6Form`, `Written` — the forms, in lower case and in any case;
* `ipv6Text_iff_form` — what the parser reads beyond them;
* `parseIpv6_exact` — **the exact reading**: on which texts the parser and the forms agree.
-/

/-- Hexadecimal groups between single colons, and no dotted quad. -/
inductive Words : Text → List ℕ → Prop where
  | one {group : Text} {w : ℕ} : WordText group w → Words group [w]
  | more {group rest : Text} {w : ℕ} {ws : List ℕ} :
      WordText group w → Words rest ws → Words (group ++ ':' :: rest) (w :: ws)

/-- **An address of version 6 in lower case** and its 128 bits: a dotted quad stands at the end of
    the text only. -/
def Ipv6Form (text : Text) (value : ℕ) : Prop :=
  (∃ ws, Groups text ws ∧ ws.length = 8 ∧ value = ofWords ws) ∨
    ∃ before after ws vs, text = before ++ ':' :: ':' :: after ∧
      ((before = [] ∧ ws = []) ∨ Words before ws) ∧ Side after vs ∧ ws.length + vs.length ≤ 7 ∧
      value = ofWords (ws ++ List.replicate (8 - ws.length - vs.length) 0 ++ vs)

/-- An address of version 6, with hexadecimal digits in either case. -/
def Written (text : Text) (value : ℕ) : Prop := Ipv6Form (lower text) value

/-- A dotted quad stands right before the `::`, in a text that is well formed otherwise. -/
def QuadInFront (text : Text) : Prop :=
  ∃ before after ws vs, text = before ++ ':' :: ':' :: after ∧ Groups before ws ∧ '.' ∈ before ∧
    Side after vs ∧ ws.length + vs.length ≤ 7

theorem Words.groups {text : Text} {ws : List ℕ} (h : Words text ws) : Groups text ws := by
  induction h with
  | one hword => exact .word hword
  | more hword _ ih => exact .more hword ih

theorem Words.dot_not_mem {text : Text} {ws : List ℕ} (h : Words text ws) : '.' ∉ text := by
  have hdot : isHexDigit '.' = false := by decide
  induction h with
  | one hword => exact hword.not_mem hdot
  | more hword _ ih =>
    intro hmem
    rcases List.mem_append.mp hmem with hmem | hmem
    · exact hword.not_mem hdot hmem
    · rcases List.mem_cons.mp hmem with heq | hmem
      · exact absurd heq (by decide)
      · exact ih hmem

/-- Groups without a dot are hexadecimal groups. -/
theorem Groups.words {text : Text} {ws : List ℕ} (h : Groups text ws) (hdot : '.' ∉ text) :
    Words text ws := by
  induction h with
  | word hword => exact .one hword
  | quad hquad => exact absurd hquad.dot_mem hdot
  | more hword _ ih =>
    exact .more hword (ih fun hmem => hdot (List.mem_append_right _ (List.mem_cons_of_mem _ hmem)))

/-- **What the parser reads**: the forms, and a quad in front of the `::`. -/
theorem Ipv6Text.form_or_quad {text : Text} {value : ℕ} (h : Ipv6Text text value) :
    Ipv6Form text value ∨ QuadInFront text := by
  rcases h with hplain | ⟨before, after, ws, vs, htext, hbefore, hafter, hcount, hvalue⟩
  · exact .inl (.inl hplain)
  · rcases hbefore with hnone | hgroups
    · exact .inl (.inr ⟨before, after, ws, vs, htext, .inl hnone, hafter, hcount, hvalue⟩)
    · by_cases hdot : '.' ∈ before
      · exact .inr ⟨before, after, ws, vs, htext, hgroups, hdot, hafter, hcount⟩
      · exact .inl (.inr ⟨before, after, ws, vs, htext, .inr (hgroups.words hdot), hafter, hcount,
          hvalue⟩)

theorem Ipv6Form.text {text : Text} {value : ℕ} (h : Ipv6Form text value) :
    Ipv6Text text value := by
  rcases h with hplain | ⟨before, after, ws, vs, htext, hbefore, hafter, hcount, hvalue⟩
  · exact .inl hplain
  · exact .inr ⟨before, after, ws, vs, htext, hbefore.imp id Words.groups, hafter, hcount, hvalue⟩

theorem QuadInFront.text {text : Text} (h : QuadInFront text) : ∃ value, Ipv6Text text value := by
  obtain ⟨before, after, ws, vs, htext, hgroups, -, hafter, hcount⟩ := h
  exact ⟨_, .inr ⟨before, after, ws, vs, htext, .inr hgroups, hafter, hcount, rfl⟩⟩

/-- The sides of a `::` are the pieces of the text. -/
theorem splitDouble_sides {before after : Text} {ws vs : List ℕ} (hbefore : Side before ws)
    (hafter : Side after vs) : splitDouble (before ++ ':' :: ':' :: after) = [before, after] := by
  have hback : splitDouble after = [after] := by
    rcases hafter with ⟨rfl, -⟩ | hafter
    · rfl
    · exact (splitDouble_groups hafter).1
  rcases hbefore with ⟨rfl, -⟩ | hbefore
  · rw [List.nil_append, splitDouble, hback]
  · rw [(splitDouble_groups hbefore).2, hback]

/-- A quad in front of the `::` is no form: the `::` splits a text in one way only. -/
theorem QuadInFront.not_form {text : Text} (h : QuadInFront text) (value : ℕ) :
    ¬ Ipv6Form text value := by
  obtain ⟨before, after, ws, vs, rfl, hgroups, hdot, hafter, -⟩ := h
  have hpieces := splitDouble_sides (.inr hgroups) hafter
  rintro (⟨ws', hplain, -⟩ | ⟨before', after', ws', vs', htext, hbefore', hafter', -⟩)
  · rw [(splitDouble_groups hplain).1] at hpieces
    exact absurd (congrArg List.length hpieces) (by simp)
  · rw [htext, splitDouble_sides (hbefore'.imp id Words.groups) hafter'] at hpieces
    obtain rfl : before' = before := (List.cons.inj hpieces).1
    rcases hbefore' with ⟨rfl, -⟩ | hwords
    · exact absurd hdot List.not_mem_nil
    · exact hwords.dot_not_mem hdot

/-- What the parser reads is in lower case. -/
theorem Ipv6Text.lower_eq {text : Text} {value : ℕ} (h : Ipv6Text text value) :
    lower text = text := by
  have hascii : ∀ n ∈ List.range 128,
      (isHexDigit (Char.ofNat n) = true ∨ Char.ofNat n = ':' ∨ Char.ofNat n = '.') →
        (Char.ofNat n).toLower = Char.ofNat n := by decide +kernel
  have hsmall : ∀ c : Char, isHexDigit c = true → c.toNat < 128 := by
    intro c hc
    simp only [isHexDigit, isDigit, Bool.or_eq_true, Bool.and_eq_true, decide_eq_true_eq] at hc
    rcases hc with hc | hc
    · exact lt_of_le_of_lt hc.2 (by decide)
    · exact lt_of_le_of_lt hc.2 (by decide)
  refine (List.map_congr_left fun c hc => ?_).trans (List.map_id text)
  have hchar := h.chars c hc
  have hlt : c.toNat < 128 := by
    rcases hchar with hhex | rfl | rfl
    · exact hsmall c hhex
    · decide
    · decide
  have hsame := hascii c.toNat (List.mem_range.mpr hlt)
  rw [Char.ofNat_toNat] at hsame
  exact hsame hchar

/-- **The exact reading**: the parser of version 6 reads a text as it is written, and rejects what is
    not an address, exactly if no dotted quad stands before a `::` and an address is written in
      lower
    case. -/
theorem parseIpv6_exact {text : Text} :
    (∀ value, parseIpv6 text = some value ↔ Written text value) ↔
      ¬ QuadInFront text ∧ ∀ value, Written text value → lower text = text := by
  constructor
  · intro h
    refine ⟨fun hquad => ?_, fun value hwritten => ?_⟩
    · obtain ⟨value, hvalue⟩ := hquad.text
      have hwritten := (h value).mp (parseIpv6_iff.mpr hvalue)
      rw [Written, hvalue.lower_eq] at hwritten
      exact hquad.not_form value hwritten
    · exact (parseIpv6_iff.mp ((h value).mpr hwritten)).lower_eq
  · rintro ⟨hquad, hlower⟩ value
    rw [parseIpv6_iff]
    constructor
    · intro htext
      rw [Written, htext.lower_eq]
      exact htext.form_or_quad.resolve_right hquad
    · intro hwritten
      have hform := hwritten
      rw [Written, hlower value hwritten] at hform
      exact hform.text

/-- A quad in front of the `::` is read, although it is no form of an address. -/
theorem parseIpv6_quad_first :
    parseIpv6 "1.2.3.4::1" = some 0x01020304000000000000000000000001 ∧
      ¬ ∃ value, Written "1.2.3.4::1" value := by
  have hparsed : parseIpv6 "1.2.3.4::1" = some 0x01020304000000000000000000000001 := by
    decide +kernel
  refine ⟨hparsed, fun ⟨value, hwritten⟩ => ?_⟩
  have htext := parseIpv6_iff.mp hparsed
  have hquad : QuadInFront "1.2.3.4::1" := by
    have hfront : parseIpv4 "1.2.3.4" = some 0x01020304 := by decide +kernel
    refine ⟨"1.2.3.4", "1", _, _, rfl, .quad (parseIpv4_iff.mp hfront), by decide,
      .inr (.word ⟨by decide, by decide, by decide, rfl⟩), by decide⟩
  rw [Written, htext.lower_eq] at hwritten
  exact hquad.not_form value hwritten

end KodyCelld.Secrets
