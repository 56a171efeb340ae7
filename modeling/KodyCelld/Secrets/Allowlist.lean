import KodyCelld.Secrets.IpText

namespace KodyCelld.Secrets

open KodyCelld.Lib KodyCelld.Execute

/-!
# What an allowlist entry admits (`lib/host-allowlist.ts`)

An entry of the operator's allowlist is a name, a `*.suffix`, an address or a range of addresses.

* `normalizeAllowlistEntry` — which entries are accepted, and as what text;
* `parseEntry_iff` — what an accepted entry is parsed as;
* `parseEntry_normalized` — the stored text of an entry is parsed as the entry was;
* `Admits` — the hosts that an entry speaks of, apart from the parser;
* `allowlist_means` — the matcher admits exactly these hosts, for every entry but the ranges of
  version 6 that have white space between the address and the slash: those are matched as if their
  network were `::`.
-/

/-! ### Accepting an entry -/

/-- `value` as a dotted quad -/
def formatIpv4 (value : ℕ) : Text :=
  ['.'].intercalate ([24, 16, 8, 0].map fun shift => natText (value / 2 ^ shift % 256))

/-- An entry that can never match, whose message is shown as is, or any other bad entry. -/
inductive EntryError where
  | unmatchable (message : Text)
  | error (message : Text)
  deriving DecidableEq, Repr

/-- `/^\d{1,3}$/` -/
def isPrefixText (text : Text) : Bool :=
  !text.isEmpty && decide (text.length ≤ 3) && text.all isDigit

/-- What `parseEntry` throws where it throws. -/
def entryError (raw : Text) : EntryError :=
  let shown : Text := "\"" ++ (trim raw ++ "\"")
  let entry := lower (trim raw)
  if entry = [] then .error "empty entry"
  else if '/' ∈ entry then
    let pieces := entry.splitOn '/'
    let address := pieces.getD 0 []
    let prefixText := pieces.getD 1 []
    if 2 < pieces.length ∨ !isPrefixText prefixText then .error (shown ++ " has an invalid prefix")
    else
      match parseIpLiteral address with
      | none => .error (shown ++ " is not an IP range")
      | some (ipVersion, ipValue) =>
        let isV4Text := (parseIpv4 address).isSome
        let bits := digitsVal prefixText
        if !isV4Text ∧ ipVersion = .v4 then
          let hint : Text :=
            if 96 ≤ bits ∧ bits ≤ 128 then
              "write it as " ++ (formatIpv4 (ipValue &&& cidrMask (bits - 96) 32) ++
                ("/" ++ natText (bits - 96)))
            else "write the IPv4 range instead"
          .unmatchable (shown ++ (" is an IPv4-mapped IPv6 range, which never matches: mapped " ++
            ("addresses are compared as IPv4, so " ++ (hint ++ "."))))
        else .error (shown ++ (" has a prefix above /" ++ (if isV4Text then "32" else "128")))
  else if startsWith entry "*." then .error (shown ++ " is not a valid *.suffix")
  else .error (shown ++ " is not a hostname, *.suffix, IP or CIDR range")

/-- `text.replace(/^\[/, '')` -/
def dropOpening (text : Text) : Text := if text.head? = some '[' then text.drop 1 else text

/-- `text.replace(/\](?=\/|$)/g, '')` -/
def dropClosing : Text → Text
  | [] => []
  | c :: rest =>
    if c = ']' ∧ (rest = [] ∨ rest.head? = some '/') then dropClosing rest
    else c :: dropClosing rest

def normalizeAllowlistEntry (entry : Text) : Except EntryError Text :=
  match parseEntry entry with
  | none => .error (entryError entry)
  | some _ => .ok (dropClosing (dropOpening (lower (trim entry))))

/-! ### Characters of entries -/

/-- The characters of addresses are lower case, no space, and none of the marks around one. -/
theorem address_char {c : Char} (h : isHexDigit c = true ∨ c = ':' ∨ c = '.') :
    isSpace c = false ∧ c.toLower = c ∧ c ≠ '[' ∧ c ≠ ']' ∧ c ≠ '/' ∧ c ≠ '*' := by
  have hsmall : c.toNat < 128 := by
    rcases h with h | rfl | rfl
    · have hle : ∀ d : Char, c ≤ d → c.toNat ≤ d.toNat := fun d hd => hd
      have h9 : '9'.toNat = 57 := rfl
      have hf : 'f'.toNat = 102 := rfl
      simp only [isHexDigit, isDigit, Bool.or_eq_true, Bool.and_eq_true, decide_eq_true_eq] at h
      rcases h with ⟨-, hhigh⟩ | ⟨-, hhigh⟩
      all_goals
        have hbound := hle _ hhigh
        omega
    · decide
    · decide
  have hall : ∀ n : Fin 128, isHexDigit (Char.ofNat n) = true ∨ Char.ofNat n = ':' ∨
      Char.ofNat n = '.' → isSpace (Char.ofNat n) = false ∧ (Char.ofNat n).toLower = Char.ofNat n ∧
        Char.ofNat n ≠ '[' ∧ Char.ofNat n ≠ ']' ∧ Char.ofNat n ≠ '/' ∧ Char.ofNat n ≠ '*' := by
    decide +kernel
  have hc := hall ⟨c.toNat, hsmall⟩
  rw [Char.ofNat_toNat] at hc
  exact hc h

/-- A text of address characters is left alone by trimming, lower-casing and dropping brackets. -/
theorem tidy_of_chars {text : Text} (h : ∀ c ∈ text, isHexDigit c = true ∨ c = ':' ∨ c = '.') :
    trim text = text ∧ lower text = text ∧ stripBrackets text = text := by
  refine ⟨trim_of_spaceless fun c hc => (address_char (h c hc)).1, ?_, ?_⟩
  · exact (List.map_congr_left fun c hc => (address_char (h c hc)).2.1).trans (List.map_id text)
  · have hopen : text.head? ≠ some '[' := fun heq =>
      (address_char (h _ (List.mem_of_mem_head? heq))).2.2.1 rfl
    have hclose : text.getLast? ≠ some ']' := fun heq =>
      (address_char (h _ (List.mem_of_mem_getLast? heq))).2.2.2.1 rfl
    unfold stripBrackets
    rw [if_neg hopen, if_neg hclose]

theorem AddressText.tidy {text : Text} {version : IpVersion} {value : ℕ}
    (h : AddressText text version value) : stripBrackets (lower (trim text)) = text := by
  obtain ⟨htrim, hlower, hstrip⟩ := tidy_of_chars h.chars
  rw [htrim, hlower, hstrip]

/-- An address text is parsed as what it says. -/
theorem AddressText.parse {text : Text} {version : IpVersion} {value : ℕ}
    (h : AddressText text version value) : parseIpLiteral text = some (version, value) := by
  rw [parseIpLiteral_iff, h.tidy]
  exact h

theorem AddressText.not_mem {text : Text} {version : IpVersion} {value : ℕ}
    (h : AddressText text version value) {c : Char} (hc : c ∈ ['[', ']', '/', '*']) : c ∉ text := by
  intro hmem
  obtain ⟨-, -, hopen, hclose, hslash, hstar⟩ := address_char (h.chars c hmem)
  simp only [List.mem_cons, List.not_mem_nil, or_false] at hc
  rcases hc with rfl | rfl | rfl | rfl
  · exact hopen rfl
  · exact hclose rfl
  · exact hslash rfl
  · exact hstar rfl

/-- The characters of host names. -/
theorem hostname_char {text : Text} (h : hostnamePattern text = true) {c : Char}
    (hc : c ∈ ['[', ']', '/', '*', ' ', ':']) : c ∉ text := by
  intro hmem
  unfold hostnamePattern at h
  simp only [Bool.and_eq_true, List.all_eq_true] at h
  obtain ⟨-, hlabels⟩ := h
  have hdot : c ≠ '.' := by
    rintro rfl
    exact absurd hc (by decide)
  rcases mem_splitOn_of_mem '.' hmem with heq | ⟨label, hlabel, hin⟩
  · exact hdot heq
  · have hlabel := hlabels label hlabel
    unfold isHostLabel at hlabel
    simp only [Bool.and_eq_true, List.all_eq_true] at hlabel
    have hall := hlabel.1.1.2 c hin
    simp only [List.mem_cons, List.not_mem_nil, or_false] at hc
    rcases hc with rfl | rfl | rfl | rfl | rfl | rfl
    all_goals exact absurd hall (by decide)

theorem hostname_ne_nil {text : Text} (h : hostnamePattern text = true) : text ≠ [] := by
  rintro rfl
  exact absurd h (by decide)

/-- What `stripBrackets` takes away. -/
theorem stripBrackets_split (text : Text) : ∃ closing, (closing = [] ∨ closing = [']']) ∧
    dropOpening text = stripBrackets text ++ closing := by
  have hstrip : stripBrackets text = if (dropOpening text).getLast? = some ']' then
      (dropOpening text).dropLast else dropOpening text := rfl
  rw [hstrip]
  split
  · rename_i hlast
    refine ⟨[']'], .inr rfl, ?_⟩
    exact (List.dropLast_append_getLast? _ hlast).symm
  · exact ⟨[], .inl rfl, by simp⟩

/-- What `dropOpening` takes away. -/
theorem dropOpening_split (text : Text) : ∃ opening, (opening = [] ∨ opening = ['[']) ∧
    text = opening ++ dropOpening text := by
  unfold dropOpening
  split
  · rename_i hhead
    obtain ⟨rest, rfl⟩ := List.head?_eq_some_iff.mp hhead
    exact ⟨['['], .inr rfl, rfl⟩
  · exact ⟨[], .inl rfl, rfl⟩

/-- Without brackets nothing is taken away. -/
theorem stripBrackets_of_not_mem {text : Text} (hopen : '[' ∉ text) (hclose : ']' ∉ text) :
    stripBrackets text = text := by
  have hfirst : dropOpening text = text := if_neg fun h => hopen (List.mem_of_mem_head? h)
  have hstrip : stripBrackets text = if (dropOpening text).getLast? = some ']' then
      (dropOpening text).dropLast else dropOpening text := rfl
  rw [hstrip, hfirst]
  exact if_neg fun h => hclose (List.mem_of_mem_getLast? h)

/-- Only brackets are taken away. -/
theorem mem_stripBrackets {text : Text} {c : Char} (h : c ∈ text)
    (hopen : c ≠ '[') (hclose : c ≠ ']') :
    c ∈ stripBrackets text := by
  obtain ⟨closing, hclosing, hstrip⟩ := stripBrackets_split text
  obtain ⟨opening, hopening, htext⟩ := dropOpening_split text
  rw [htext, hstrip] at h
  simp only [List.mem_append] at h
  rcases h with h | h | h
  · rcases hopening with rfl | rfl
    · exact absurd h List.not_mem_nil
    · exact absurd (List.mem_singleton.mp h) hopen
  · exact h
  · rcases hclosing with rfl | rfl
    · exact absurd h List.not_mem_nil
    · exact absurd (List.mem_singleton.mp h) hclose

/-! ### What an entry is parsed as -/

/-- The digits of a prefix length. -/
structure PrefixText (text : Text) (bits : ℕ) : Prop where
  nonempty : text ≠ []
  short : text.length ≤ 3
  digits : ∀ c ∈ text, isDigit c = true
  value : digitsVal text = bits

/-- **The entries that are accepted**, by the trimmed text in lower case. -/
inductive Parsed : Text → Entry → Prop where
  | address {text : Text} {version : IpVersion} {value : ℕ} : '/' ∉ text →
      parseIpLiteral text = some (version, value) → Parsed text (.cidr version value version.width)
  | suffix {suffix : Text} : hostnamePattern suffix = true →
      Parsed ('*' :: '.' :: suffix) (.suffix ('.' :: suffix))
  | host {text : Text} : hostnamePattern text = true → parseIpLiteral text = none →
      Parsed text (.host text)
  | v4Range {address digits : Text} {value bits : ℕ} : Ipv4Text address value →
      PrefixText digits bits → bits ≤ 32 →
      Parsed (address ++ '/' :: digits) (.cidr .v4 (value &&& cidrMask bits 32) bits)
  | v6Range {address digits : Text} {value bits : ℕ} : '/' ∉ address →
      parseIpLiteral address = some (.v6, value) → PrefixText digits bits → bits ≤ 128 →
      Parsed (address ++ '/' :: digits)
        (.cidr .v6 ((parseIpv6 (stripBrackets address)).getD 0 &&& cidrMask bits 128) bits)

theorem prefixText_iff {text : Text} :
    ¬ (text = [] ∨ 3 < text.length ∨ (!text.all isDigit) = true) ↔
      PrefixText text (digitsVal text) := by
  constructor
  · intro h
    rw [not_or, not_or, Bool.not_eq_true', Bool.not_eq_false, List.all_eq_true] at h
    exact ⟨h.1, Nat.le_of_not_lt h.2.1, h.2.2, rfl⟩
  · rintro ⟨hne, hshort, hdigits, -⟩ (hnil | hlong | hother)
    · exact hne hnil
    · omega
    · rw [List.all_eq_true.mpr hdigits] at hother
      exact absurd hother (by decide)

theorem PrefixText.not_mem {text : Text} {bits : ℕ} (h : PrefixText text bits) {c : Char}
    (hc : isDigit c = false) : c ∉ text := by
  intro hmem
  rw [h.digits c hmem] at hc
  exact absurd hc (by decide)

/-- An entry of two pieces is a range. -/
theorem splitOn_slash {address digits : Text} (haddress : '/' ∉ address) (hdigits : '/' ∉ digits) :
    (address ++ '/' :: digits).splitOn '/' = [address, digits] := by
  rw [List.splitOn_append_cons_self_of_not_mem haddress, List.splitOn_eq_singleton hdigits]

/-- Only space is trimmed. -/
theorem mem_trim {text : Text} {c : Char} (h : c ∈ text) (hc : isSpace c = false) :
    c ∈ trim text := by
  obtain ⟨before, after, hsplit, hbefore, hafter⟩ := trim_split text
  rw [hsplit, List.mem_append, List.mem_append] at h
  rcases h with h | h | h
  · rw [List.all_eq_true.mp hbefore c h] at hc
    exact absurd hc (by decide)
  · exact h
  · rw [List.all_eq_true.mp hafter c h] at hc
    exact absurd hc (by decide)

/-- A mark that no address has stays in what the parser reads. -/
theorem parseIpLiteral_of_mark {text : Text} {c : Char} (h : c ∈ text) (hc : c = '/' ∨ c = '*') :
    parseIpLiteral text = none := by
  cases hparse : parseIpLiteral text with
  | none => rfl
  | some found =>
    obtain ⟨version, value⟩ := found
    have haddress := parseIpLiteral_iff.mp hparse
    have hleft : c ∈ stripBrackets (lower (trim text)) := by
      rcases hc with rfl | rfl
      · exact mem_stripBrackets (List.mem_map.mpr ⟨'/', mem_trim h (by decide), by decide⟩)
          (by decide) (by decide)
      · exact mem_stripBrackets (List.mem_map.mpr ⟨'*', mem_trim h (by decide), by decide⟩)
          (by decide) (by decide)
    refine absurd hleft (haddress.not_mem ?_)
    rcases hc with rfl | rfl
    · decide
    · decide

/-- **What an accepted entry is parsed as.** -/
theorem parseEntry_iff {raw : Text} {e : Entry} :
    parseEntry raw = some e ↔ Parsed (lower (trim raw)) e := by
  unfold parseEntry
  generalize lower (trim raw) = text
  dsimp only
  constructor
  · intro h
    split at h
    · exact absurd h (by simp)
    split at h
    · split at h
      · -- a range
        rename_i address prefixText hpieces
        have hsplit : ['/'].intercalate (text.splitOn '/') = text := List.intercalate_splitOn '/'
        rw [hpieces] at hsplit
        have htext : text = address ++ '/' :: prefixText := by
          rw [← hsplit]
          simp [List.intercalate, List.intersperse]
        have haddress : '/' ∉ address :=
          not_mem_of_mem_splitOn (hpieces ▸ List.mem_cons_self)
        split at h
        · exact absurd h (by simp)
        rename_i hpre
        have hpre := prefixText_iff.mp hpre
        split at h
        · exact absurd h (by simp)
        rename_i ipVersion ipValue hip
        split at h
        · exact absurd h (by simp)
        rename_i hmapped
        rw [htext]
        cases h4 : parseIpv4 address with
        | some v4 =>
          have hquad := parseIpv4_iff.mp h4
          rw [(AddressText.v4 hquad).parse] at hip
          obtain ⟨rfl, rfl⟩ := Prod.mk.inj (Option.some.inj hip)
          rw [h4] at h
          simp only [Option.isSome_some, if_true] at h
          split at h
          · exact absurd h (by simp)
          rename_i hbits
          obtain rfl := Option.some.inj h
          exact .v4Range hquad hpre (Nat.le_of_not_lt hbits)
        | none =>
          rw [h4] at h hmapped
          obtain rfl : ipVersion = .v6 := by
            cases ipVersion with
            | v4 => exact absurd ⟨by decide, rfl⟩ hmapped
            | v6 => rfl
          simp only [Option.isSome_none, Bool.false_eq_true, if_false] at h
          split at h
          · exact absurd h (by simp)
          rename_i hbits
          obtain rfl := Option.some.inj h
          exact .v6Range haddress hip hpre (Nat.le_of_not_lt hbits)
      · exact absurd h (by simp)
    · rename_i hslash
      split at h
      · rename_i version value hip
        obtain rfl := Option.some.inj h
        exact .address hslash hip
      · rename_i hip
        split at h
        · rename_i hstar
          obtain ⟨suffix, hsuffix⟩ := List.isPrefixOf_iff_prefix.mp hstar
          obtain rfl : '*' :: '.' :: suffix = text := hsuffix
          split at h
          · rename_i hname
            obtain rfl := Option.some.inj h
            exact .suffix hname
          · exact absurd h (by simp)
        · split at h
          · rename_i hname
            obtain rfl := Option.some.inj h
            exact .host hname hip
          · exact absurd h (by simp)
  · rintro (⟨hslash, hip⟩ | hname | ⟨hname, hip⟩ | ⟨hquad, hpre, hbits⟩ |
    ⟨haddress, hip, hpre, hbits⟩)
    · have hne : text ≠ [] := by
        rintro rfl
        have hnil : parseIpLiteral [] = none := by decide
        rw [hnil] at hip
        exact absurd hip (by simp)
      rw [if_neg hne, if_neg hslash, hip]
    · rename_i suffix
      have hslash : '/' ∉ '*' :: '.' :: suffix := by
        simpa using hostname_char hname (by decide)
      rw [if_neg (List.cons_ne_nil _ _), if_neg hslash,
        parseIpLiteral_of_mark List.mem_cons_self (.inr rfl)]
      have hdrop : ('*' :: '.' :: suffix).drop 2 = suffix := rfl
      simp only [hdrop]
      rw [if_pos (by rfl), if_pos hname]
    · have hstar : ¬ startsWith text "*." = true := by
        intro hstar
        obtain ⟨suffix, hsuffix⟩ := List.isPrefixOf_iff_prefix.mp hstar
        exact hostname_char hname (c := '*') (by decide) (hsuffix ▸ List.mem_cons_self)
      rw [if_neg (hostname_ne_nil hname), if_neg (hostname_char hname (by decide)), hip]
      simp only
      rw [if_neg hstar, if_pos hname]
    · rename_i address digits value bits
      have haddress : '/' ∉ address := (AddressText.v4 hquad).not_mem (by decide)
      rw [if_neg (by simp), if_pos (by simp),
        splitOn_slash haddress (hpre.not_mem (by decide))]
      simp only
      rw [if_neg (prefixText_iff.mpr (hpre.value ▸ hpre)), (AddressText.v4 hquad).parse,
        parseIpv4_iff.mpr hquad, hpre.value]
      simp only [Option.isSome_some, if_true]
      rw [if_neg (by simp), if_neg (by exact Nat.not_lt.mpr hbits)]
      rfl
    · rename_i address digits value bits
      have hquad : parseIpv4 address = none := by
        cases h4 : parseIpv4 address with
        | none => rfl
        | some v4 =>
          rw [(AddressText.v4 (parseIpv4_iff.mp h4)).parse] at hip
          exact absurd hip (by simp)
      rw [if_neg (by simp), if_pos (by simp),
        splitOn_slash haddress (hpre.not_mem (by decide))]
      simp only
      rw [if_neg (prefixText_iff.mpr (hpre.value ▸ hpre)), hip, hquad, hpre.value]
      simp only [Option.isSome_none]
      rw [if_neg (by simp), if_neg (by exact Nat.not_lt.mpr hbits)]
      rfl

/-- An entry is parsed in one way. -/
theorem Parsed.unique {raw : Text} {e f : Entry} (he : Parsed (lower (trim raw)) e)
    (hf : Parsed (lower (trim raw)) f) : e = f :=
  Option.some.inj ((parseEntry_iff.mpr he).symm.trans (parseEntry_iff.mpr hf))

/-! ### The stored text of an entry -/

theorem dropClosing_append {front : Text} (h : ']' ∉ front) (back : Text) :
    dropClosing (front ++ back) = front ++ dropClosing back := by
  induction front with
  | nil => rfl
  | cons c front ih =>
    have hc : c ≠ ']' := fun heq => h (heq ▸ List.mem_cons_self)
    rw [List.cons_append, dropClosing, if_neg fun hand => hc hand.1,
      ih fun hmem => h (List.mem_cons_of_mem c hmem), List.cons_append]

theorem dropClosing_of_not_mem {text : Text} (h : ']' ∉ text) : dropClosing text = text := by
  have happend := dropClosing_append h []
  rw [List.append_nil] at happend
  rw [happend]
  exact List.append_nil text

theorem dropOpening_of_not_mem {text : Text} (h : '[' ∉ text) : dropOpening text = text :=
  if_neg fun hhead => h (List.mem_of_mem_head? hhead)

theorem dropOpening_append {front : Text} (h : front ≠ []) (back : Text) :
    dropOpening (front ++ back) = dropOpening front ++ back := by
  unfold dropOpening
  cases front with
  | nil => exact absurd rfl h
  | cons c front =>
    simp only [List.cons_append, List.head?_cons, List.drop_succ_cons, List.drop_zero]
    split
    · rfl
    · rfl

/-- A text that begins and ends as an address does is trimmed. -/
theorem trim_between {front middle back : Text} (hfront : front ≠ []) (hback : back ≠ [])
    (hhead : ∀ c ∈ front, isSpace c = false) (hlast : ∀ c ∈ back, isSpace c = false) :
    trim (front ++ (middle ++ back)) = front ++ (middle ++ back) := by
  refine trim_of_tight (fun c hc => hhead c ?_) fun c hc => hlast c ?_
  · rw [List.head?_append_of_ne_nil _ hfront] at hc
    exact List.mem_of_mem_head? hc
  · rw [← List.append_assoc, List.getLast?_append_of_ne_nil _ hback] at hc
    exact List.mem_of_mem_getLast? hc

theorem isSpace_of_digit {c : Char} (h : isDigit c = true) : isSpace c = false :=
  (address_char (.inl (isHexDigit_of_isDigit h))).1

/-- **An address before white space**: the parser trims it, the parser of its words does not. -/
theorem parseIpv6_space {front space : Text} (hne : space ≠ [])
    (hspace : ∀ c ∈ space, isSpace c = true) : parseIpv6 (stripBrackets (front ++ space)) =
      none := by
  cases h : parseIpv6 (stripBrackets (front ++ space)) with
  | none => rfl
  | some value =>
    obtain ⟨c, hc⟩ := List.exists_mem_of_ne_nil space hne
    have hspc := hspace c hc
    have hleft : c ∈ stripBrackets (front ++ space) := by
      apply mem_stripBrackets (List.mem_append_right _ hc)
      · rintro rfl
        exact absurd hspc (by decide)
      · rintro rfl
        exact absurd hspc (by decide)
    rw [(address_char ((parseIpv6_iff.mp h).chars c hleft)).1] at hspc
    exact absurd hspc (by decide)

/-- What an accepted range of version 6 looks like. -/
theorem range_shape {address : Text} {value : ℕ} (hip : parseIpLiteral address = some (.v6, value))
    (hlower : lower address = address) (hhead : ∀ c ∈ address.head?, isSpace c = false) :
    ∃ plain closing space, Ipv6Text plain value ∧ value / 2 ^ 32 ≠ 0xffff ∧
      (closing = [] ∨ closing = [']']) ∧ (∀ c ∈ space, isSpace c = true) ∧
      trim address ≠ [] ∧ stripBrackets (trim address) = plain ∧
      dropOpening (trim address) = plain ++ closing ∧ address = trim address ++ space := by
  have haddress := parseIpLiteral_iff.mp hip
  obtain ⟨before, space, hsplit, hbefore, hspace⟩ := trim_split address
  obtain rfl : before = [] := by
    cases before with
    | nil => rfl
    | cons c before =>
      have hc := List.all_eq_true.mp hbefore c List.mem_cons_self
      rw [hhead c (by rw [hsplit]; rfl)] at hc
      exact absurd hc (by decide)
  have htrim : lower (trim address) = trim address := by
    rw [← trim_lower, hlower]
  rw [htrim] at haddress
  obtain ⟨closing, hclosing, hopening⟩ := stripBrackets_split (trim address)
  refine ⟨stripBrackets (trim address), closing, space, ?_⟩
  cases haddress with
  | v6 hv6 hplain =>
    refine ⟨hv6, hplain, hclosing, List.all_eq_true.mp hspace, ?_, rfl, hopening, hsplit⟩
    intro hnil
    rw [hnil] at hv6
    exact absurd hv6.colon_mem (by decide)

/-! #### Ranges with and without white space before the slash -/

section Range

variable {plain closing space digits : Text} {value bits : ℕ}

/-- Without white space the closing bracket goes. -/
theorem dropClosing_tight (hclosing : closing = [] ∨ closing = [']'])
    (hpre : PrefixText digits bits) : dropClosing (closing ++ '/' :: digits) = '/' :: digits := by
  have hslashes : ']' ∉ '/' :: digits := by
    simpa using hpre.not_mem (by decide)
  rcases hclosing with rfl | rfl
  · exact dropClosing_of_not_mem hslashes
  · rw [List.singleton_append, dropClosing, if_pos ⟨rfl, .inr rfl⟩]
    exact dropClosing_of_not_mem hslashes

theorem not_mem_space (hspace : ∀ c ∈ space, isSpace c = true) {c : Char} (hc : isSpace c = false) :
    c ∉ space := by
  intro hmem
  rw [hspace c hmem] at hc
  exact absurd hc (by decide)

/-- With white space the closing bracket stays. -/
theorem dropClosing_spaced (hclosing : closing = [] ∨ closing = [']']) (hne : space ≠ [])
    (hspace : ∀ c ∈ space, isSpace c = true) (hpre : PrefixText digits bits) :
    dropClosing (closing ++ (space ++ '/' :: digits)) = closing ++ (space ++ '/' :: digits) := by
  have hback : ']' ∉ space ++ '/' :: digits := by
    rw [List.mem_append, not_or]
    refine ⟨not_mem_space hspace (by decide), ?_⟩
    simpa using hpre.not_mem (by decide)
  rcases hclosing with rfl | rfl
  · exact dropClosing_of_not_mem hback
  · rw [List.singleton_append, dropClosing, if_neg, dropClosing_of_not_mem hback]
    rintro ⟨-, hnil | hslash⟩
    · exact absurd hnil (by simp)
    · -- What follows the bracket is white space, not the slash.
      rw [List.head?_append_of_ne_nil _ hne] at hslash
      exact not_mem_space hspace (by decide) (List.mem_of_mem_head? hslash)

/-- An address with a bracket and white space behind it is parsed as the address. -/
theorem parseIpLiteral_spaced (hv6 : Ipv6Text plain value) (hplain : value / 2 ^ 32 ≠ 0xffff)
    (hclosing : closing = [] ∨ closing = [']']) (hspace : ∀ c ∈ space, isSpace c = true) :
    parseIpLiteral (plain ++ (closing ++ space)) = some (.v6, value) := by
  have haddress : AddressText plain .v6 value := .v6 hv6 hplain
  obtain ⟨-, hlower, hstrip⟩ := tidy_of_chars hv6.chars
  have htight : trim (plain ++ closing) = plain ++ closing := by
    apply trim_of_spaceless
    intro c hc
    rcases List.mem_append.mp hc with hc | hc
    · exact (address_char (hv6.chars c hc)).1
    · rcases hclosing with rfl | rfl
      · exact absurd hc List.not_mem_nil
      · rw [List.mem_singleton.mp hc]
        decide
  have hlow : lower (plain ++ closing) = plain ++ closing := by
    unfold lower at hlower ⊢
    rw [List.map_append, hlower]
    rcases hclosing with rfl | rfl
    · rfl
    · rfl
  have hbare : stripBrackets (plain ++ closing) = plain := by
    rcases hclosing with rfl | rfl
    · rw [List.append_nil]
      exact hstrip
    · have hfirst : dropOpening (plain ++ [']']) = plain ++ [']'] := by
        rw [dropOpening_append haddress.ne_nil,
          dropOpening_of_not_mem (haddress.not_mem (by decide))]
      have hstep : stripBrackets (plain ++ [']']) =
          if (dropOpening (plain ++ [']'])).getLast? = some ']' then
            (dropOpening (plain ++ [']'])).dropLast else dropOpening (plain ++ [']']) := rfl
      rw [hstep, hfirst, if_pos List.getLast?_concat, List.dropLast_concat]
  rw [parseIpLiteral_iff, ← List.append_assoc, trim_append_space hspace, htight, hlow, hbare]
  exact haddress

end Range

/-- **The stored text of an entry** is parsed as the entry was. -/
theorem parsed_normalized {text : Text} {e : Entry} (htrim : trim text = text)
    (hlower : lower text = text) (h : Parsed text e) :
    trim (dropClosing (dropOpening text)) = dropClosing (dropOpening text) ∧
      lower (dropClosing (dropOpening text)) = dropClosing (dropOpening text) ∧
      Parsed (dropClosing (dropOpening text)) e := by
  have hsame : '[' ∉ text → ']' ∉ text → dropClosing (dropOpening text) = text := by
    intro hopen hclose
    rw [dropOpening_of_not_mem hopen, dropClosing_of_not_mem hclose]
  cases h with
  | @address text version value hslash hip =>
    have haddress := parseIpLiteral_iff.mp hip
    rw [htrim, hlower] at haddress
    obtain ⟨closing, hclosing, hopening⟩ := stripBrackets_split text
    have hnormal : dropClosing (dropOpening text) = stripBrackets text := by
      rw [hopening, dropClosing_append (haddress.not_mem (by decide))]
      rcases hclosing with rfl | rfl
      · exact List.append_nil _
      · exact List.append_nil _
    obtain ⟨htrim', hlower', -⟩ := tidy_of_chars haddress.chars
    rw [hnormal]
    exact ⟨htrim', hlower', .address (haddress.not_mem (by decide)) haddress.parse⟩
  | suffix hname =>
    rw [hsame (by simpa using hostname_char hname (by decide))
      (by simpa using hostname_char hname (by decide))]
    exact ⟨htrim, hlower, .suffix hname⟩
  | host hname hip =>
    rw [hsame (hostname_char hname (by decide)) (hostname_char hname (by decide))]
    exact ⟨htrim, hlower, .host hname hip⟩
  | v4Range hquad hpre hbits =>
    have hopen := (AddressText.v4 hquad).not_mem (c := '[') (by decide)
    have hclose := (AddressText.v4 hquad).not_mem (c := ']') (by decide)
    rw [hsame (by simpa [hopen] using hpre.not_mem (by decide))
      (by simpa [hclose] using hpre.not_mem (by decide))]
    exact ⟨htrim, hlower, .v4Range hquad hpre hbits⟩
  | @v6Range address digits value bits hslash hip hpre hbits =>
    have hne : address ≠ [] := by
      rintro rfl
      have hnil : parseIpLiteral [] = none := by decide
      rw [hnil] at hip
      exact absurd hip (by simp)
    have hhead : ∀ c ∈ address.head?, isSpace c = false := by
      intro c hc
      refine head_of_trim (address ++ '/' :: digits) c ?_
      rw [htrim, List.head?_append_of_ne_nil _ hne]
      exact hc
    have hlow : lower address = address := by
      have happend := hlower
      unfold lower at happend ⊢
      rw [List.map_append] at happend
      exact (List.append_inj happend (by simp)).1
    obtain ⟨plain, closing, space, hv6, hplain, hclosing, hspace, hcore, hstrip, hopening,
      hsplit⟩ :=
      range_shape hip hlow hhead
    have hdigits : ∀ c ∈ digits, isSpace c = false :=
      fun c hc => isSpace_of_digit (hpre.digits c hc)
    have hchars : ∀ c ∈ plain, isSpace c = false := fun c hc => (address_char (hv6.chars c hc)).1
    have hbare : plain ≠ [] := List.ne_nil_of_mem hv6.colon_mem
    have hlowplain : lower plain = plain := (tidy_of_chars hv6.chars).2.1
    have hlowdigits : lower digits = digits := by
      refine (List.map_congr_left fun c hc => ?_).trans (List.map_id digits)
      exact (address_char (.inl (isHexDigit_of_isDigit (hpre.digits c hc)))).2.1
    have haddress : AddressText plain .v6 value := .v6 hv6 hplain
    have hopened : dropOpening (address ++ '/' :: digits) =
        plain ++ (closing ++ (space ++ '/' :: digits)) := by
      rw [dropOpening_append hne, hsplit, dropOpening_append hcore, hopening, List.append_assoc,
        List.append_assoc]
    rw [hopened, dropClosing_append (haddress.not_mem (by decide))]
    by_cases hspc : space = []
    · -- Without white space the address is left plain.
      subst hspc
      rw [List.append_nil] at hsplit
      rw [List.nil_append, dropClosing_tight hclosing hpre]
      have hwhole : trim (plain ++ (['/'] ++ digits)) = plain ++ (['/'] ++ digits) :=
        trim_between hbare hpre.nonempty hchars hdigits
      refine ⟨hwhole, ?_, ?_⟩
      · unfold lower at hlowplain hlowdigits ⊢
        rw [List.map_append, List.map_cons, hlowplain, hlowdigits]
        rfl
      · have hread : stripBrackets plain = stripBrackets address := by
          rw [hsplit, hstrip, (tidy_of_chars hv6.chars).2.2]
        rw [← hread]
        exact .v6Range (haddress.not_mem (by decide)) haddress.parse hpre hbits
    · -- With white space neither text is read as an address.
      rw [dropClosing_spaced hclosing hspc hspace hpre]
      refine ⟨?_, ?_, ?_⟩
      · have hmiddle : plain ++ (closing ++ (space ++ '/' :: digits)) =
            plain ++ ((closing ++ (space ++ ['/'])) ++ digits) := by
          simp
        rw [hmiddle]
        exact trim_between hbare hpre.nonempty hchars hdigits
      · have hlowspace : lower space = space := by
          have happend := hlow
          rw [hsplit] at happend
          unfold lower at happend ⊢
          rw [List.map_append] at happend
          exact (List.append_inj happend (by simp)).2
        have hlowclosing : lower closing = closing := by
          rcases hclosing with rfl | rfl
          · rfl
          · rfl
        unfold lower at hlowplain hlowclosing hlowspace hlowdigits ⊢
        rw [List.map_append, List.map_append, List.map_append, List.map_cons, hlowplain,
          hlowclosing, hlowspace, hlowdigits]
        rfl
      · have hold : parseIpv6 (stripBrackets address) = none := by
          rw [hsplit]
          exact parseIpv6_space hspc hspace
        have hnew : parseIpv6 (stripBrackets (plain ++ (closing ++ space))) = none := by
          rw [← List.append_assoc]
          exact parseIpv6_space hspc hspace
        have hjoin : plain ++ (closing ++ (space ++ '/' :: digits)) =
            (plain ++ (closing ++ space)) ++ '/' :: digits := by
          simp only [List.append_assoc]
        rw [hold, hjoin, ← hnew]
        refine .v6Range ?_ (parseIpLiteral_spaced hv6 hplain hclosing hspace) hpre hbits
        rw [List.mem_append, List.mem_append, not_or, not_or]
        refine ⟨haddress.not_mem (by decide), ?_, not_mem_space hspace (by decide)⟩
        rcases hclosing with rfl | rfl
        · exact List.not_mem_nil
        · decide

/-- **Normalising keeps the entry**, so its stored text admits what the entry did. -/
theorem parseEntry_normalized {entry normalized : Text}
    (h : normalizeAllowlistEntry entry = .ok normalized) :
    parseEntry normalized = parseEntry entry := by
  unfold normalizeAllowlistEntry at h
  split at h
  · exact absurd h (by simp)
  rename_i e he
  obtain rfl := Except.ok.inj h
  have htrim : trim (lower (trim entry)) = lower (trim entry) := by
    rw [trim_lower, trim_trim]
  have hlower : lower (lower (trim entry)) = lower (trim entry) := by
    unfold lower
    rw [List.map_map]
    exact List.map_congr_left fun c _ => toLower_toLower c
  obtain ⟨htrim', hlower', hparsed⟩ := parsed_normalized htrim hlower (parseEntry_iff.mp he)
  rw [he, parseEntry_iff, htrim', hlower']
  exact hparsed

/-! ### What an entry says -/

/-- A host without the white space and the brackets around it, in lower case. -/
def bareHost (hostname : Text) : Text := stripBrackets (lower (trim hostname))

/-- The address that a host is. -/
def HostAddress (hostname : Text) (version : IpVersion) (value : ℕ) : Prop :=
  AddressText (bareHost (bareHost hostname)) version value

/-- A host name, which is no address. -/
def HostName (text : Text) : Prop :=
  hostnamePattern text = true ∧ ∀ version value, ¬ AddressText text version value

/-- The address before the slash of a range, in the family that it is written in. -/
def RangeText (address : Text) : IpVersion → ℕ → Prop
  | .v4, value => Ipv4Text (stripBrackets (trim address)) value
  | .v6, value => Ipv6Text (stripBrackets (trim address)) value

/-- **What an entry says**: the host is that name, a subdomain of that suffix, that address, or an
    address that begins as the range's does. The text is trimmed and in lower case. -/
inductive Admits : Text → Text → Prop where
  | name {text hostname : Text} : HostName text → bareHost hostname = text → Admits text hostname
  | suffix {suffix front hostname : Text} : hostnamePattern suffix = true → front ≠ [] →
      bareHost hostname = front ++ '.' :: suffix →
      (∀ version value, ¬ HostAddress hostname version value) →
      Admits ('*' :: '.' :: suffix) hostname
  | address {text hostname : Text} {version : IpVersion} {value : ℕ} :
      AddressText (stripBrackets text) version value → HostAddress hostname version value →
      Admits text hostname
  | range {address digits hostname : Text} {version : IpVersion} {network bits value : ℕ} :
      RangeText address version network → PrefixText digits bits → bits ≤ version.width →
      HostAddress hostname version value →
      value / 2 ^ (version.width - bits) = network / 2 ^ (version.width - bits) →
      Admits (address ++ '/' :: digits) hostname

/-- **An entry that means what it says**: its stored text admits the hosts it speaks of, and the
    same hosts as the text that was given. -/
def MeansWhatItSays (entry normalized : Text) : Prop :=
  ∀ hostname, (hostMatchesAllowlist hostname [normalized] = true ↔
      Admits (lower (trim entry)) hostname) ∧
    hostMatchesAllowlist hostname [normalized] = hostMatchesAllowlist hostname [entry]

/-- **A range whose network is lost**: one of version 6 with white space between the address and
    the slash, unless the leading bits are zeros anyway. -/
def LosesNetwork (entry : Text) : Prop :=
  ∃ address space digits network bits, lower (trim entry) = (address ++ space) ++ '/' :: digits ∧
    space ≠ [] ∧ (∀ c ∈ space, isSpace c = true) ∧ Ipv6Text (stripBrackets address) network ∧
    PrefixText digits bits ∧ network / 2 ^ (128 - bits) ≠ 0

/-! ### The matcher -/

theorem hostAddress_iff {hostname : Text} {version : IpVersion} {value : ℕ} :
    parseIpLiteral (bareHost hostname) = some (version, value) ↔
      HostAddress hostname version value :=
  parseIpLiteral_iff

theorem hostAddress_unique {hostname : Text} {version version' : IpVersion} {value value' : ℕ}
    (h : HostAddress hostname version value) (h' : HostAddress hostname version' value') :
    version = version' ∧ value = value' :=
  Prod.mk.inj (Option.some.inj ((hostAddress_iff.mpr h).symm.trans (hostAddress_iff.mpr h')))

/-- What the matcher asks of a host for a parsed entry. -/
def Asks (hostname : Text) : Entry → Prop
  | .cidr version network bits => ∃ value, HostAddress hostname version value ∧
      inCidr value network bits version.width = true
  | .suffix suffix => (∀ version value, ¬ HostAddress hostname version value) ∧
      suffix <:+ bareHost hostname ∧ suffix.length < (bareHost hostname).length
  | .host name => (∀ version value, ¬ HostAddress hostname version value) ∧
    bareHost hostname = name

/-- **The matcher** asks what its one entry was parsed as. -/
theorem matches_iff {hostname raw : Text} {e : Entry} (h : parseEntry raw = some e) :
    hostMatchesAllowlist hostname [raw] = true ↔ Asks hostname e := by
  have hone : hostMatchesAllowlist hostname [raw] =
      entryMatches (bareHost hostname) (parseIpLiteral (bareHost hostname)) raw := by
    unfold hostMatchesAllowlist bareHost
    simp
  rw [hone]
  unfold entryMatches
  rw [h]
  cases hip : parseIpLiteral (bareHost hostname) with
  | none =>
    have hno : ∀ version value, ¬ HostAddress hostname version value := by
      intro version value haddress
      rw [hostAddress_iff.mpr haddress] at hip
      exact absurd hip (by simp)
    cases e with
    | cidr version network bits =>
      simp only [Asks, Bool.false_eq_true, false_iff, not_exists, not_and]
      exact fun value haddress => absurd haddress (hno version value)
    | suffix suffix =>
      simp only [Asks, Bool.and_eq_true, decide_eq_true_eq, endsWith, List.isSuffixOf_iff_suffix]
      exact ⟨fun hmatch => ⟨hno, hmatch⟩, And.right⟩
    | host name =>
      simp only [Asks, decide_eq_true_eq]
      exact ⟨fun hmatch => ⟨hno, hmatch⟩, And.right⟩
  | some found =>
    obtain ⟨ipVersion, value⟩ := found
    have haddress := hostAddress_iff.mp hip
    cases e with
    | cidr version network bits =>
      simp only [Asks, Bool.and_eq_true, decide_eq_true_eq]
      constructor
      · rintro ⟨rfl, hin⟩
        exact ⟨value, haddress, hin⟩
      · rintro ⟨value', haddress', hin⟩
        obtain ⟨rfl, rfl⟩ := hostAddress_unique haddress haddress'
        exact ⟨rfl, hin⟩
    | suffix suffix =>
      simp only [Asks, Bool.false_eq_true, false_iff, not_and]
      exact fun hno => absurd haddress (hno _ _)
    | host name =>
      simp only [Asks, Bool.false_eq_true, false_iff, not_and]
      exact fun hno => absurd haddress (hno _ _)

/-- A range of full length is the address itself. -/
theorem inCidr_full {value network : ℕ} {version : IpVersion} (hvalue : value < 2 ^ version.width)
    (hnetwork : network < 2 ^ version.width) :
    inCidr value network version.width version.width = true ↔ value = network := by
  rw [inCidr_iff hvalue hnetwork le_rfl, Nat.sub_self, pow_zero, Nat.div_one, Nat.div_one]

/-- A masked range asks for the leading bits. -/
theorem asks_masked {hostname : Text} {version : IpVersion} {network bits : ℕ}
    (hnetwork : network < 2 ^ version.width) (hbits : bits ≤ version.width) :
    Asks hostname (.cidr version (network &&& cidrMask bits version.width) bits) ↔
      ∃ value, HostAddress hostname version value ∧
        value / 2 ^ (version.width - bits) = network / 2 ^ (version.width - bits) := by
  simp only [Asks, inCidr_masked]
  constructor
  · rintro ⟨value, haddress, hin⟩
    exact ⟨value, haddress, (inCidr_iff haddress.lt hnetwork hbits).mp hin⟩
  · rintro ⟨value, haddress, hlead⟩
    exact ⟨value, haddress, (inCidr_iff haddress.lt hnetwork hbits).mpr hlead⟩

/-- A text splits around one slash in one way. -/
theorem slash_inj {address address' digits digits' : Text} (haddress : '/' ∉ address)
    (haddress' : '/' ∉ address') (hdigits : '/' ∉ digits) (hdigits' : '/' ∉ digits')
    (h : address ++ '/' :: digits = address' ++ '/' :: digits') :
    address = address' ∧ digits = digits' := by
  have hsplit := splitOn_slash haddress hdigits
  rw [h, splitOn_slash haddress' hdigits'] at hsplit
  obtain ⟨rfl, htail⟩ := List.cons_eq_cons.mp hsplit
  obtain ⟨rfl, -⟩ := List.cons_eq_cons.mp htail
  exact ⟨rfl, rfl⟩

/-- The address of a range holds no slash. -/
theorem RangeText.slash_not_mem {address : Text} {version : IpVersion} {network : ℕ}
    (h : RangeText address version network) : '/' ∉ address := by
  intro hmem
  have hleft : '/' ∈ stripBrackets (trim address) :=
    mem_stripBrackets (mem_trim hmem (by decide)) (by decide) (by decide)
  cases version with
  | v4 => exact (AddressText.v4 h).not_mem (by decide) hleft
  | v6 =>
    obtain ⟨-, -, -, -, hslash, -⟩ := address_char (Ipv6Text.chars h '/' hleft)
    exact hslash rfl

/-! ### The meaning of an accepted entry -/

theorem PrefixText.unique {digits : Text} {bits bits' : ℕ} (h : PrefixText digits bits)
    (h' : PrefixText digits bits') : bits = bits' :=
  h.value.symm.trans h'.value

theorem bareHost_of_address {text : Text} {version : IpVersion} {value : ℕ}
    (h : AddressText text version value) : HostAddress text version value := by
  unfold HostAddress bareHost
  rw [h.tidy, h.tidy]
  exact h

/-- The text of an accepted entry, trimmed and in lower case already. -/
theorem entry_tidy (entry : Text) : trim (lower (trim entry)) = lower (trim entry) ∧
    lower (lower (trim entry)) = lower (trim entry) := by
  constructor
  · rw [trim_lower, trim_trim]
  · unfold lower
    rw [List.map_map]
    exact List.map_congr_left fun c _ => toLower_toLower c

/-- The front of a trimmed text in lower case is both. -/
theorem front_tidy {front back : Text} (htrim : trim (front ++ back) = front ++ back)
    (hlower : lower (front ++ back) = front ++ back) :
    lower front = front ∧ ∀ c ∈ front.head?, isSpace c = false := by
  constructor
  · unfold lower at hlower ⊢
    rw [List.map_append] at hlower
    exact (List.append_inj hlower (by simp)).1
  · intro c hc
    refine head_of_trim (front ++ back) c ?_
    obtain ⟨rest, rfl⟩ := List.head?_eq_some_iff.mp hc
    rw [htrim]
    rfl

/-- A range comes from the two pieces around its slash. -/
theorem Parsed.range {address digits : Text} {e : Entry} (haddress : '/' ∉ address)
    (hdigits : '/' ∉ digits) (h : Parsed (address ++ '/' :: digits) e) :
    ∃ bits, PrefixText digits bits ∧
      ((∃ value, Ipv4Text address value ∧ bits ≤ 32 ∧
          e = .cidr .v4 (value &&& cidrMask bits 32) bits) ∨
        ∃ value, parseIpLiteral address = some (.v6, value) ∧ bits ≤ 128 ∧
          e = .cidr .v6 ((parseIpv6 (stripBrackets address)).getD 0 &&& cidrMask bits 128)
            bits) := by
  have hslash : '/' ∈ address ++ '/' :: digits := List.mem_append_right _ List.mem_cons_self
  generalize htext : address ++ '/' :: digits = text at h hslash
  cases h with
  | address hnone _ => exact absurd hslash hnone
  | suffix hname =>
    refine absurd hslash ?_
    simpa using hostname_char hname (by decide)
  | host hname _ => exact absurd hslash (hostname_char hname (by decide))
  | v4Range hquad hpre hbits =>
    obtain ⟨rfl, rfl⟩ := slash_inj haddress ((AddressText.v4 hquad).not_mem (by decide)) hdigits
      (hpre.not_mem (by decide)) htext
    exact ⟨_, hpre, .inl ⟨_, hquad, hbits, rfl⟩⟩
  | v6Range hnone hip hpre hbits =>
    obtain ⟨rfl, rfl⟩ := slash_inj haddress hnone hdigits (hpre.not_mem (by decide)) htext
    exact ⟨_, hpre, .inr ⟨_, hip, hbits, rfl⟩⟩

/-- **The network that the parser keeps** begins as the one that is written. -/
theorem network_kept {entry address digits : Text} {value bits : ℕ}
    (htext : lower (trim entry) = address ++ '/' :: digits)
    (hip : parseIpLiteral address = some (.v6, value)) (hpre : PrefixText digits bits)
    (hkept : ¬ LosesNetwork entry) :
    (parseIpv6 (stripBrackets address)).getD 0 / 2 ^ (128 - bits) = value / 2 ^ (128 - bits) := by
  obtain ⟨htrim, hlower⟩ := entry_tidy entry
  rw [htext] at htrim hlower
  obtain ⟨hlow, hhead⟩ := front_tidy htrim hlower
  obtain ⟨plain, closing, space, hv6, -, -, hspace, -, hstrip, -, hsplit⟩ :=
    range_shape hip hlow hhead
  by_cases hspc : space = []
  · rw [hspc, List.append_nil] at hsplit
    rw [hsplit, hstrip, parseIpv6_iff.mpr hv6]
    rfl
  · -- The parser of the words gives up, which counts as zeros.
    have hnone : parseIpv6 (stripBrackets address) = none := by
      rw [hsplit]
      exact parseIpv6_space hspc hspace
    by_contra hne
    refine hkept ⟨trim address, space, digits, value, bits, ?_, hspc, hspace, ?_, hpre, ?_⟩
    · rw [htext, ← hsplit]
    · rwa [hstrip]
    · intro hzero
      rw [hnone, hzero] at hne
      exact hne (Nat.zero_div _)

theorem parseIpv6_lt (text : Text) : (parseIpv6 text).getD 0 < 2 ^ 128 := by
  cases h : parseIpv6 text with
  | none => exact Nat.two_pow_pos 128
  | some value => exact (parseIpv6_iff.mp h).lt

/-- **What an entry was parsed as is what it says**, when its network is kept. -/
theorem asks_iff_admits {entry hostname : Text} {e : Entry} (h : parseEntry entry = some e)
    (hkept : ¬ LosesNetwork entry) : Asks hostname e ↔ Admits (lower (trim entry)) hostname := by
  obtain ⟨htrim, hlower⟩ := entry_tidy entry
  have hparsed := parseEntry_iff.mp h
  constructor
  · intro hasks
    generalize htext : lower (trim entry) = text at hparsed htrim hlower ⊢
    cases hparsed with
    | @address _ version network _ hip =>
      obtain ⟨value, haddress, hin⟩ := hasks
      have hnetwork := parseIpLiteral_iff.mp hip
      rw [htrim, hlower] at hnetwork
      rw [inCidr_full haddress.lt hnetwork.lt] at hin
      exact .address hnetwork (hin ▸ haddress)
    | @suffix suffix hname =>
      obtain ⟨hno, ⟨front, hfront⟩, hlonger⟩ := hasks
      refine .suffix hname ?_ hfront.symm hno
      rintro rfl
      rw [← hfront] at hlonger
      exact absurd hlonger (by simp)
    | host hname hip =>
      obtain ⟨hno, hsame⟩ := hasks
      refine .name ⟨hname, fun version value haddress => ?_⟩ hsame
      rw [haddress.parse] at hip
      exact absurd hip (by simp)
    | @v4Range address digits network bits hquad hpre hbits =>
      obtain ⟨value, haddress, hlead⟩ := (@asks_masked hostname .v4 network bits hquad.lt hbits).mp
        hasks
      have hrange : RangeText address .v4 network := by
        obtain ⟨htidy, -, hstrip⟩ := tidy_of_chars (AddressText.v4 hquad).chars
        show Ipv4Text (stripBrackets (trim address)) network
        rwa [htidy, hstrip]
      exact .range hrange hpre hbits haddress hlead
    | @v6Range address digits network bits _ hip hpre hbits =>
      obtain ⟨value, haddress, hlead⟩ :=
        (@asks_masked hostname .v6 _ bits (parseIpv6_lt _) hbits).mp hasks
      have hrange : RangeText address .v6 network := by
        obtain ⟨hlow, hhead⟩ := front_tidy htrim hlower
        obtain ⟨plain, _, _, hv6, -, -, -, -, hstrip, -, -⟩ := range_shape hip hlow hhead
        show Ipv6Text (stripBrackets (trim address)) network
        rwa [hstrip]
      exact .range hrange hpre hbits haddress
        (hlead.trans (network_kept htext hip hpre hkept))
  · intro hadmits
    generalize htext : lower (trim entry) = text at hparsed htrim hlower hadmits
    have hunique : ∀ {f : Entry}, Parsed text f → e = f := by
      intro f hf
      rw [← htext] at hparsed hf
      exact hparsed.unique hf
    cases hadmits with
    | name hname hsame =>
      have hbare : stripBrackets text = text :=
        stripBrackets_of_not_mem (hostname_char hname.1 (by decide))
          (hostname_char hname.1 (by decide))
      have hnone : parseIpLiteral text = none := by
        cases hip : parseIpLiteral text with
        | none => rfl
        | some found =>
          have haddress := parseIpLiteral_iff.mp hip
          rw [htrim, hlower, hbare] at haddress
          exact absurd haddress (hname.2 _ _)
      obtain rfl := hunique (.host hname.1 hnone)
      refine ⟨fun version value haddress => hname.2 version value ?_, hsame⟩
      unfold HostAddress at haddress
      rwa [hsame, bareHost, htrim, hlower, hbare] at haddress
    | @suffix suffix front _ hname hfront hsame hno =>
      obtain rfl := hunique (.suffix hname)
      refine ⟨hno, ⟨front, hsame.symm⟩, ?_⟩
      rw [hsame, List.length_append]
      have hpos := List.length_pos_of_ne_nil hfront
      omega
    | @address _ _ version value hentry haddress =>
      have hip : parseIpLiteral text = some (version, value) := by
        rw [parseIpLiteral_iff, htrim, hlower]
        exact hentry
      have hslash : '/' ∉ text := by
        intro hmem
        rw [parseIpLiteral_of_mark hmem (.inl rfl)] at hip
        exact absurd hip (by simp)
      obtain rfl := hunique (.address hslash hip)
      exact ⟨value, haddress, (inCidr_full haddress.lt haddress.lt).mpr rfl⟩
    | @range address digits _ version network bits value hrange hpre hbits haddress hlead =>
      obtain ⟨bits', hpre', hcases⟩ :=
        Parsed.range hrange.slash_not_mem (hpre.not_mem (by decide)) hparsed
      obtain rfl := hpre.unique hpre'
      rcases hcases with ⟨network', hquad, hbits', rfl⟩ | ⟨network', hip, hbits', rfl⟩
      · obtain ⟨htidy, -, hstrip⟩ := tidy_of_chars (AddressText.v4 hquad).chars
        cases version with
        | v4 =>
          have hwritten : Ipv4Text (stripBrackets (trim address)) network := hrange
          rw [htidy, hstrip] at hwritten
          obtain rfl : network = network' :=
            Option.some.inj ((parseIpv4_iff.mpr hwritten).symm.trans (parseIpv4_iff.mpr hquad))
          exact (@asks_masked hostname .v4 network bits hquad.lt hbits).mpr ⟨value, haddress, hlead⟩
        | v6 =>
          have hwritten : Ipv6Text (stripBrackets (trim address)) network := hrange
          rw [htidy, hstrip] at hwritten
          exact absurd hwritten.colon_mem hquad.colon_not_mem
      · obtain ⟨hlow, hhead⟩ := front_tidy htrim hlower
        obtain ⟨plain, _, _, hv6, -, -, -, -, hstrip, -, -⟩ := range_shape hip hlow hhead
        cases version with
        | v4 =>
          have hwritten : Ipv4Text (stripBrackets (trim address)) network := hrange
          rw [hstrip] at hwritten
          exact absurd hv6.colon_mem hwritten.colon_not_mem
        | v6 =>
          have hwritten : Ipv6Text (stripBrackets (trim address)) network := hrange
          rw [hstrip] at hwritten
          obtain rfl : network = network' :=
            Option.some.inj ((parseIpv6_iff.mpr hwritten).symm.trans (parseIpv6_iff.mpr hv6))
          exact (@asks_masked hostname .v6 _ bits (parseIpv6_lt _) hbits).mpr
            ⟨value, haddress, hlead.trans (network_kept htext hip hpre hkept).symm⟩

/-- **A lost network**: its own first address is in the range and is not matched. -/
theorem lost_not_matched {entry : Text} {e : Entry} (h : parseEntry entry = some e)
    (hlost : LosesNetwork entry) :
    ∃ hostname, Admits (lower (trim entry)) hostname ∧ ¬ Asks hostname e := by
  obtain ⟨address, space, digits, network, bits, htext, hspc, hspace, hv6, hpre, hne⟩ := hlost
  have hparsed := parseEntry_iff.mp h
  obtain ⟨htrim, hlower⟩ := entry_tidy entry
  rw [htext] at hparsed htrim hlower
  -- Address characters and brackets are no space, so the address stands as it is.
  have htight : trim address = address := by
    apply trim_of_spaceless
    intro c hc
    by_contra hspc
    rw [Bool.not_eq_false] at hspc
    have hleft : c ∈ stripBrackets address := by
      apply mem_stripBrackets hc
      · rintro rfl
        exact absurd hspc (by decide)
      · rintro rfl
        exact absurd hspc (by decide)
    rw [(address_char (hv6.chars c hleft)).1] at hspc
    exact absurd hspc (by decide)
  have hrange : RangeText (address ++ space) .v6 network := by
    show Ipv6Text (stripBrackets (trim (address ++ space))) network
    rwa [trim_append_space hspace, htight]
  obtain ⟨bits', hpre', hcases⟩ :=
    Parsed.range hrange.slash_not_mem (hpre.not_mem (by decide)) hparsed
  obtain rfl := hpre.unique hpre'
  rcases hcases with ⟨network', hquad, -, rfl⟩ | ⟨network', hip, hbits, rfl⟩
  · obtain ⟨c, hc⟩ := List.exists_mem_of_ne_nil space hspc
    have hchar := (AddressText.v4 hquad).chars c (List.mem_append_right _ hc)
    exact absurd (hspace c hc) (by simp [(address_char hchar).1])
  · obtain ⟨hlow, hhead⟩ := front_tidy htrim hlower
    obtain ⟨plain, _, _, hv6', hplain, -, -, -, hstrip, -, -⟩ := range_shape hip hlow hhead
    rw [trim_append_space hspace, htight] at hstrip
    rw [hstrip] at hv6
    obtain rfl : network = network' :=
      Option.some.inj ((parseIpv6_iff.mpr hv6).symm.trans (parseIpv6_iff.mpr hv6'))
    have haddress : HostAddress plain .v6 network := bareHost_of_address (.v6 hv6 hplain)
    refine ⟨plain, ?_, ?_⟩
    · rw [htext]
      exact .range hrange hpre hbits haddress rfl
    · intro hasks
      obtain ⟨value, hvalue, hlead⟩ :=
        (@asks_masked plain .v6 _ bits (parseIpv6_lt _) hbits).mp hasks
      obtain ⟨-, rfl⟩ := hostAddress_unique hvalue haddress
      have hnone : parseIpv6 (stripBrackets (address ++ space)) = none :=
        parseIpv6_space hspc hspace
      rw [hnone, Option.getD_none, Nat.zero_div] at hlead
      exact hne hlead

/-- **An accepted entry means what it says** exactly when it does not lose its network. -/
theorem allowlist_means {entry normalized : Text}
    (h : normalizeAllowlistEntry entry = .ok normalized) :
    MeansWhatItSays entry normalized ↔ ¬ LosesNetwork entry := by
  have hsame := parseEntry_normalized h
  obtain ⟨e, he⟩ : ∃ e, parseEntry entry = some e := by
    unfold normalizeAllowlistEntry at h
    split at h
    · exact absurd h (by simp)
    · exact ⟨_, ‹_›⟩
  constructor
  · intro hmeans hlost
    obtain ⟨hostname, hadmits, hnot⟩ := lost_not_matched he hlost
    exact hnot ((matches_iff (hsame.trans he)).mp ((hmeans hostname).1.mpr hadmits))
  · intro hkept hostname
    refine ⟨(matches_iff (hsame.trans he)).trans (asks_iff_admits he hkept), ?_⟩
    rw [Bool.eq_iff_iff, matches_iff (hsame.trans he), matches_iff he]

/-- The range of an organisation, written without a slip, means what it says. -/
theorem ula_means : MeansWhatItSays " [FD00::]/8" "fd00::/8" := by
  refine (allowlist_means (by decide +kernel)).mpr ?_
  rintro ⟨address, space, digits, network, bits, htext, hspc, hspace, -, -, -⟩
  -- The text has no white space at all.
  obtain ⟨c, hc⟩ := List.exists_mem_of_ne_nil space hspc
  have hmem : c ∈ lower (trim (" [FD00::]/8" : Text)) := by
    rw [htext]
    simp [hc]
  have hall : ∀ d ∈ lower (trim (" [FD00::]/8" : Text)), isSpace d = false := by decide +kernel
  exact absurd (hspace c hc) (by simp [hall c hmem])

/-- **A slip that admits another range**: the entry for link-local addresses with white space
    before its slash is accepted, refuses them and admits the addresses that begin with zeros. -/
theorem spaced_range : normalizeAllowlistEntry "fe80:: /10" = .ok ("fe80:: /10" : Text) ∧
    Admits (lower (trim "fe80:: /10")) "fe80::1" ∧
    hostMatchesAllowlist "fe80::1" ["fe80:: /10"] = false ∧
    hostMatchesAllowlist "::2" ["fe80:: /10"] = true ∧
    ¬ MeansWhatItSays "fe80:: /10" "fe80:: /10" := by
  have hadmits : Admits (lower (trim "fe80:: /10")) "fe80::1" := by
    have htext : lower (trim ("fe80:: /10" : Text)) = ("fe80:: " : Text) ++
      '/' :: ("10" : Text) := by
      decide +kernel
    have hnetwork : RangeText "fe80:: " .v6 (0xfe80 * 2 ^ 112) :=
      parseIpv6_iff.mp (by decide +kernel)
    have haddress : HostAddress "fe80::1" .v6 (0xfe80 * 2 ^ 112 + 1) :=
      hostAddress_iff.mp (by decide +kernel)
    rw [htext]
    exact .range hnetwork ⟨by decide, by decide, by decide, rfl⟩ (by decide) haddress (by decide)
  have hrefused : hostMatchesAllowlist "fe80::1" ["fe80:: /10"] = false := by decide +kernel
  refine ⟨by decide +kernel, hadmits, hrefused, by decide +kernel, fun hmeans => ?_⟩
  have hmatch := (hmeans "fe80::1").1.mpr hadmits
  rw [hrefused] at hmatch
  exact absurd hmatch (by decide)

end KodyCelld.Secrets
