import KodyCelld.Secrets.Allowlist

namespace KodyCelld.Secrets

open KodyCelld.Lib KodyCelld.Execute

/-!
# Every spelling of an internal host (`lib/host-allowlist.ts`)

`isPrivateHostname` is the guard against requests to the inside. A host text denotes an address or
a name (`Denotes`), and what it denotes is internal or not (`Internal`), whichever way it is
spelled: in either case, with brackets, as an address of version 6 that embeds one of version 4, or
with the dot of a fully qualified name behind it.

* `isPrivateV4_iff`, `isPrivateV6_iff` — the ranges of the source are the internal addresses;
* `isPrivateHostname_iff` — the guard holds of the internal hosts that have no dot at the end;
* `guard_covers` — so it covers a spelling, and agrees on two, exactly when no internal host among
  them is spelled with the dot.
-/

/-! ### What a host text denotes -/

/-- An address, where an IPv4-mapped one is the one of version 4, or a name in lower case. -/
inductive Denotation where
  | address (version : IpVersion) (value : ℕ)
  | name (text : Text)
  deriving DecidableEq, Repr

/-- A host whose last label is a number; URLs carry it as a dotted quad or not at all. -/
def EndsInNumber (text : Text) : Prop :=
  ∃ front label, text = front ++ label ∧ (front = [] ∨ front.getLast? = some '.') ∧ label ≠ [] ∧
    ((∀ c ∈ label, isDigit c = true) ∨
      ∃ hex, label = '0' :: 'x' :: hex ∧ ∀ c ∈ hex, isHexDigit c = true)

/-- A name of a host as URLs carry them: not empty, none of the marks that end or bracket a host,
    and no number at its end. -/
structure IsName (text : Text) : Prop where
  nonempty : text ≠ []
  chars : ∀ c ∈ text, isSpace c = false ∧ c ≠ ':' ∧ c ≠ '[' ∧ c ≠ ']' ∧ c ≠ '/'
  qualified : text.getLast? ≠ some '.'
  named : ¬ EndsInNumber text

/-- **What a host text denotes**, in any case: an address of version 4 or a name, perhaps with the
    dot of a fully qualified name behind it, or an address of version 6, perhaps in brackets. -/
inductive Denotes : Text → Denotation → Prop where
  | v4 {host text dot : Text} {value : ℕ} : Ipv4Text text value → (dot = [] ∨ dot = ['.']) →
      lower host = text ++ dot → Denotes host (.address .v4 value)
  | v6 {host text : Text} {version : IpVersion} {value : ℕ} : AddressText text version value →
      ':' ∈ text → (lower host = text ∨ lower host = '[' :: (text ++ [']'])) →
      Denotes host (.address version value)
  | name {host text dot : Text} : IsName text → (dot = [] ∨ dot = ['.']) →
      lower host = text ++ dot → Denotes host (.name text)

/-! ### What is internal -/

/-- **The internal addresses of version 4**, by their leading bits. -/
inductive InternalV4 (value : ℕ) : Prop where
  /-- `0.0.0.0/8`, with the unspecified address -/
  | thisNetwork : value / 2 ^ 24 = 0 → InternalV4 value
  /-- `127.0.0.0/8` -/
  | loopback : value / 2 ^ 24 = 127 → InternalV4 value
  /-- `10.0.0.0/8` -/
  | private10 : value / 2 ^ 24 = 10 → InternalV4 value
  /-- `172.16.0.0/12` -/
  | private172 : value / 2 ^ 20 = 172 * 2 ^ 4 + 1 → InternalV4 value
  /-- `192.168.0.0/16` -/
  | private192 : value / 2 ^ 16 = 192 * 2 ^ 8 + 168 → InternalV4 value
  /-- `169.254.0.0/16` -/
  | linkLocal : value / 2 ^ 16 = 169 * 2 ^ 8 + 254 → InternalV4 value
  /-- `100.64.0.0/10`, shared between a carrier and its customers -/
  | shared : value / 2 ^ 22 = 100 * 2 ^ 2 + 1 → InternalV4 value
  /-- `192.0.0.0/24` -/
  | protocolAssignments : value / 2 ^ 8 = 192 * 2 ^ 16 → InternalV4 value
  /-- `198.18.0.0/15` -/
  | benchmarking : value / 2 ^ 17 = 198 * 2 ^ 7 + 9 → InternalV4 value
  /-- `224.0.0.0/4` -/
  | multicast : value / 2 ^ 28 = 14 → InternalV4 value
  /-- `240.0.0.0/4`, with the broadcast address -/
  | reserved : value / 2 ^ 28 = 15 → InternalV4 value

/-- **The addresses of version 6 that embed one of version 4**, which counts for them. -/
inductive Embeds (value : ℕ) : ℕ → Prop where
  /-- `::/96`, with the unspecified address and the loopback one -/
  | compatible : value / 2 ^ 32 = 0 → Embeds value (value % 2 ^ 32)
  /-- `::ffff:0:0/96` -/
  | mapped : value / 2 ^ 32 = 0xffff → Embeds value (value % 2 ^ 32)
  /-- `::ffff:0:0:0/96` -/
  | translated : value / 2 ^ 32 = 0xffff * 2 ^ 16 → Embeds value (value % 2 ^ 32)
  /-- `64:ff9b::/96` -/
  | nat64 : value / 2 ^ 32 = 0x64 * 2 ^ 80 + 0xff9b * 2 ^ 64 → Embeds value (value % 2 ^ 32)
  /-- `2002::/16` -/
  | sixToFour : value / 2 ^ 112 = 0x2002 → Embeds value (value / 2 ^ 80 % 2 ^ 32)

/-- **The internal addresses of version 6.** -/
inductive InternalV6 (value : ℕ) : Prop where
  | embedded {inner : ℕ} : Embeds value inner → InternalV4 inner → InternalV6 value
  /-- `64:ff9b:1::/48` -/
  | localNat64 : value / 2 ^ 80 = 0x64 * 2 ^ 32 + 0xff9b * 2 ^ 16 + 1 → InternalV6 value
  /-- `fc00::/7` -/
  | uniqueLocal : value / 2 ^ 121 = 0xfc / 2 → InternalV6 value
  /-- `fe80::/10` -/
  | linkLocal : value / 2 ^ 118 = 0xfe80 / 2 ^ 6 → InternalV6 value
  /-- `fec0::/10` -/
  | siteLocal : value / 2 ^ 118 = 0xfec0 / 2 ^ 6 → InternalV6 value
  /-- `ff00::/8` -/
  | multicast : value / 2 ^ 120 = 0xff → InternalV6 value
  /-- `100::/64` -/
  | discard : value / 2 ^ 64 = 0x100 * 2 ^ 48 → InternalV6 value

/-- A name that only the inside has: `localhost` and the names under it, the names under `.internal`
    and `.local`, and names of one label. -/
def InternalName (text : Text) : Prop :=
  text = "localhost" ∨ (".localhost" : Text) <:+ text ∨ (".internal" : Text) <:+ text ∨
    (".local" : Text) <:+ text ∨ '.' ∉ text

/-- **What is internal.** -/
def Internal : Denotation → Prop
  | .address .v4 value => InternalV4 value
  | .address .v6 value => InternalV6 value
  | .name text => InternalName text

/-! ### The ranges of the source -/

theorem privateV4_eq : privateV4 =
    [(0, 8), (10 * 2 ^ 24, 8), (100 * 2 ^ 24 + 64 * 2 ^ 16, 10), (127 * 2 ^ 24, 8),
      (169 * 2 ^ 24 + 254 * 2 ^ 16, 16), (172 * 2 ^ 24 + 16 * 2 ^ 16, 12), (192 * 2 ^ 24, 24),
      (192 * 2 ^ 24 + 168 * 2 ^ 16, 16), (198 * 2 ^ 24 + 18 * 2 ^ 16, 15), (224 * 2 ^ 24, 4),
      (240 * 2 ^ 24, 4), (2 ^ 32 - 1, 32)] := by
  decide +kernel

theorem privateV6_eq : privateV6 =
    [(0x64 * 2 ^ 112 + 0xff9b * 2 ^ 96 + 2 ^ 80, 48), (0xfc00 * 2 ^ 112, 7), (0xfe80 * 2 ^ 112, 10),
      (0xfec0 * 2 ^ 112, 10), (0xff00 * 2 ^ 112, 8), (0x100 * 2 ^ 112, 64)] := by
  decide +kernel

/-- An address is in one of some ranges when it begins as one of them does. -/
theorem any_inCidr_iff {value width : ℕ} {rows : List (ℕ × ℕ)} (hvalue : value < 2 ^ width)
    (hrows : ∀ row ∈ rows, row.1 < 2 ^ width ∧ row.2 ≤ width) :
    (rows.any fun row => inCidr value row.1 row.2 width) = true ↔
      ∃ row ∈ rows, value / 2 ^ (width - row.2) = row.1 / 2 ^ (width - row.2) := by
  rw [List.any_eq_true]
  constructor
  · rintro ⟨row, hrow, hin⟩
    exact ⟨row, hrow, (inCidr_iff hvalue (hrows row hrow).1 (hrows row hrow).2).mp hin⟩
  · rintro ⟨row, hrow, hlead⟩
    exact ⟨row, hrow, (inCidr_iff hvalue (hrows row hrow).1 (hrows row hrow).2).mpr hlead⟩

/-- **The ranges of version 4** are the internal addresses of version 4. -/
theorem isPrivateV4_iff {value : ℕ} (hvalue : value < 2 ^ 32) :
    isPrivateV4 value = true ↔ InternalV4 value := by
  unfold isPrivateV4
  rw [any_inCidr_iff hvalue (by rw [privateV4_eq]; decide), privateV4_eq]
  simp only [List.mem_cons, List.not_mem_nil, or_false, exists_eq_or_imp, exists_eq_left]
  norm_num
  constructor
  · rintro (h | h | h | h | h | h | h | h | h | h | h | h)
    · exact .thisNetwork (by omega)
    · exact .private10 (by omega)
    · exact .shared (by omega)
    · exact .loopback (by omega)
    · exact .linkLocal (by omega)
    · exact .private172 (by omega)
    · exact .protocolAssignments (by omega)
    · exact .private192 (by omega)
    · exact .benchmarking (by omega)
    · exact .multicast (by omega)
    · exact .reserved (by omega)
    · exact .reserved (by omega)
  · rintro (h | h | h | h | h | h | h | h | h | h | h)
    all_goals omega

/-- A range of its own, outside the forms that embed an address of version 4. -/
theorem isPrivateV6_own {value : ℕ} (hvalue : value < 2 ^ 128) (network bits : ℕ)
    (hrow : (network, bits) ∈ privateV6)
    (hlead : value / 2 ^ (128 - bits) = network / 2 ^ (128 - bits))
    (hembeds : ¬ (value / 2 ^ 32 = 0 ∨ value / 2 ^ 32 = 0xffff0000 ∨
      value / 2 ^ 32 = 0x64ff9b * 2 ^ 64))
    (hsix : ¬ value / 2 ^ 112 = 0x2002) : isPrivateV6 value = true := by
  unfold isPrivateV6
  dsimp only
  rw [if_neg hembeds, if_neg hsix, any_inCidr_iff hvalue (by rw [privateV6_eq]; decide)]
  exact ⟨_, hrow, hlead⟩

/-- **The ranges of version 6** are the internal addresses of version 6 that are not mapped. -/
theorem isPrivateV6_iff {value : ℕ} (hvalue : value < 2 ^ 128) (hplain : value / 2 ^ 32 ≠ 0xffff) :
    isPrivateV6 value = true ↔ InternalV6 value := by
  have hlow : value % 2 ^ 32 < 2 ^ 32 := Nat.mod_lt _ (by decide)
  have hinner : value / 2 ^ 80 % 2 ^ 32 < 2 ^ 32 := Nat.mod_lt _ (by decide)
  constructor
  · intro h
    unfold isPrivateV6 at h
    dsimp only at h
    split at h
    · rename_i htop
      rw [isPrivateV4_iff hlow] at h
      rcases htop with htop | htop | htop
      · exact .embedded (.compatible htop) h
      · exact .embedded (.translated htop) h
      · exact .embedded (.nat64 (by omega)) h
    · split at h
      · rename_i htop
        rw [isPrivateV4_iff hinner] at h
        exact .embedded (.sixToFour htop) h
      · rw [any_inCidr_iff hvalue (by rw [privateV6_eq]; decide), privateV6_eq] at h
        simp only [List.mem_cons, List.not_mem_nil, or_false, exists_eq_or_imp, exists_eq_left] at h
        norm_num at h
        rcases h with h | h | h | h | h | h
        · exact .localNat64 (by omega)
        · exact .uniqueLocal (by omega)
        · exact .linkLocal (by omega)
        · exact .siteLocal (by omega)
        · exact .multicast (by omega)
        · exact .discard (by omega)
  · intro h
    cases h with
    | embedded hembeds hinternal =>
      cases hembeds with
      | compatible htop =>
        unfold isPrivateV6
        rw [if_pos (.inl htop), isPrivateV4_iff hlow]
        exact hinternal
      | mapped htop => exact absurd htop hplain
      | translated htop =>
        unfold isPrivateV6
        rw [if_pos (.inr (.inl htop)), isPrivateV4_iff hlow]
        exact hinternal
      | nat64 htop =>
        unfold isPrivateV6
        rw [if_pos (.inr (.inr (by omega))), isPrivateV4_iff hlow]
        exact hinternal
      | sixToFour htop =>
        unfold isPrivateV6
        rw [if_neg (by omega), if_pos htop, isPrivateV4_iff hinner]
        exact hinternal
    | localNat64 h =>
      exact isPrivateV6_own hvalue (0x64 * 2 ^ 112 + 0xff9b * 2 ^ 96 + 2 ^ 80) 48
        (by rw [privateV6_eq]; decide) (by omega) (by omega) (by omega)
    | uniqueLocal h =>
      exact isPrivateV6_own hvalue (0xfc00 * 2 ^ 112) 7
        (by rw [privateV6_eq]; decide) (by omega) (by omega) (by omega)
    | linkLocal h =>
      exact isPrivateV6_own hvalue (0xfe80 * 2 ^ 112) 10
        (by rw [privateV6_eq]; decide) (by omega) (by omega) (by omega)
    | siteLocal h =>
      exact isPrivateV6_own hvalue (0xfec0 * 2 ^ 112) 10
        (by rw [privateV6_eq]; decide) (by omega) (by omega) (by omega)
    | multicast h =>
      exact isPrivateV6_own hvalue (0xff00 * 2 ^ 112) 8
        (by rw [privateV6_eq]; decide) (by omega) (by omega) (by omega)
    | discard h =>
      exact isPrivateV6_own hvalue (0x100 * 2 ^ 112) 64
        (by rw [privateV6_eq]; decide) (by omega) (by omega) (by omega)

/-! ### The guard -/

/-- A host spelled with the dot of a fully qualified name. -/
def Dotted (host : Text) : Prop := host.getLast? = some '.'

theorem dotted_lower {host : Text} : (lower host).getLast? = some '.' ↔ Dotted host := by
  unfold lower Dotted
  rw [List.getLast?_map, Option.map_eq_some_iff]
  constructor
  · rintro ⟨c, hlast, hc⟩
    rw [hlast, eq_of_toLower (by decide) hc]
  · exact fun hlast => ⟨'.', hlast, by decide⟩

/-- The names that the guard takes for internal. -/
def nameTest (host : Text) : Bool :=
  decide (host = "localhost") || endsWith host ".localhost" || endsWith host ".internal" ||
    endsWith host ".local" || decide ('.' ∉ host)

theorem nameTest_iff {host : Text} : nameTest host = true ↔ InternalName host := by
  unfold nameTest InternalName endsWith
  simp only [Bool.or_eq_true, decide_eq_true_eq, List.isSuffixOf_iff_suffix, or_assoc]

theorem isPrivateHostname_eq (host : Text) : isPrivateHostname host =
    if isPrivateIp (lower host) then true
    else if ':' ∈ lower host then false
    else nameTest (lower host) := by
  rfl

/-- An internal name with a dot ends in a letter of its last label. -/
theorem not_internalName {text : Text} {c : Char} (hdot : '.' ∈ text)
    (hlast : text.getLast? = some c)
    (hl : c ≠ 'l') (ht : c ≠ 't') : ¬ InternalName text := by
  have hsuffix : ∀ {back : Text}, back ≠ [] → back <:+ text → back.getLast? = some c := by
    rintro back hne ⟨front, rfl⟩
    rwa [List.getLast?_append_of_ne_nil _ hne] at hlast
  rintro (rfl | hback | hback | hback | hnone)
  · exact absurd hdot (by decide)
  · exact ht (Option.some.inj (hsuffix (by decide) hback)).symm
  · exact hl (Option.some.inj (hsuffix (by decide) hback)).symm
  · exact hl (Option.some.inj (hsuffix (by decide) hback)).symm
  · exact hnone hdot

/-- The guard of an address is the guard of its ranges. -/
theorem isPrivateIp_address {host : Text} {version : IpVersion} {value : ℕ}
    (h : AddressText (stripBrackets (lower (trim host))) version value) :
    isPrivateIp host = true ↔ Internal (.address version value) := by
  unfold isPrivateIp
  rw [parseIpLiteral_iff.mpr h]
  cases version with
  | v4 => exact isPrivateV4_iff h.lt
  | v6 =>
    generalize stripBrackets (lower (trim host)) = text at h
    cases h with
    | v6 hv6 hplain => exact isPrivateV6_iff hv6.lt hplain

theorem isPrivateIp_none {host : Text} (h : parseIpLiteral host = none) :
    isPrivateIp host = false := by
  unfold isPrivateIp
  rw [h]

/-- Lower case once is lower case. -/
theorem lower_lower (text : Text) : lower (lower text) = lower text := by
  unfold lower
  rw [List.map_map]
  exact List.map_congr_left fun c _ => toLower_toLower c

/-- Without space and brackets the parser reads the text as it stands. -/
theorem parseIpLiteral_bare {host : Text} (hlower : lower host = host)
    (hchars : ∀ c ∈ host, isSpace c = false ∧ c ≠ '[' ∧ c ≠ ']') {version : IpVersion} {value : ℕ} :
    parseIpLiteral host = some (version, value) ↔ AddressText host version value := by
  have hstrip : stripBrackets host = host :=
    stripBrackets_of_not_mem (fun hmem => (hchars _ hmem).2.1 rfl)
      (fun hmem => (hchars _ hmem).2.2 rfl)
  rw [parseIpLiteral_iff, trim_of_spaceless fun c hc => (hchars c hc).1, hlower, hstrip]

/-- A group of words does not end in a dot, -/
theorem Groups.last {text : Text} {ws : List ℕ} (h : Groups text ws) :
    text.getLast? ≠ some '.' := by
  intro hlast
  induction h with
  | word hword => exact hword.not_mem (by decide) (List.mem_of_mem_getLast? hlast)
  | quad hquad =>
    obtain ⟨c, hc, hdigit⟩ := hquad.last
    rw [hc] at hlast
    obtain rfl := Option.some.inj hlast
    exact absurd hdigit (by decide)
  | more hword hrest ih =>
    refine ih ?_
    have hne := hrest.ne_nil
    rw [List.getLast?_append_of_ne_nil _ (List.cons_ne_nil _ _)] at hlast
    rwa [List.getLast?_cons_of_ne_nil hne] at hlast

/-- so an address of version 6 does not. -/
theorem Ipv6Text.last {text : Text} {value : ℕ} (h : Ipv6Text text value) :
    text.getLast? ≠ some '.' := by
  rcases h with ⟨ws, hgroups, -, -⟩ | ⟨before, after, ws, vs, rfl, -, hafter, -, -⟩
  · exact hgroups.last
  · rw [List.getLast?_append_of_ne_nil _ (List.cons_ne_nil _ _)]
    rcases hafter with ⟨rfl, -⟩ | hafter
    · decide
    · rw [List.getLast?_cons_of_ne_nil (List.cons_ne_nil _ _),
        List.getLast?_cons_of_ne_nil hafter.ne_nil]
      exact hafter.last

/-- A dotted quad ends in a number. -/
theorem Ipv4Text.endsInNumber {text : Text} {value : ℕ} (h : Ipv4Text text value) :
    EndsInNumber text := by
  obtain ⟨a, b, c, d, na, nb, nc, nd, -, -, -, hd, rfl, -⟩ := h
  refine ⟨a ++ '.' :: (b ++ '.' :: (c ++ ['.'])), d, by simp, .inr ?_, hd.nonempty, .inl hd.digits⟩
  have hdot : a ++ '.' :: (b ++ '.' :: (c ++ ['.'])) = (a ++ '.' :: (b ++ '.' :: c)) ++ ['.'] := by
    simp
  rw [hdot, List.getLast?_concat]

/-- An address text is a quad, or it has a colon. -/
theorem AddressText.cases_colon {text : Text} {version : IpVersion} {value : ℕ}
    (h : AddressText text version value) : Ipv4Text text value ∨ ':' ∈ text := by
  cases h with
  | v4 hquad => exact .inl hquad
  | mapped hv6 _ => exact .inr hv6.colon_mem
  | v6 hv6 _ => exact .inr hv6.colon_mem

/-- A text in brackets is what stands between them. -/
theorem stripBrackets_brackets (text : Text) : stripBrackets ('[' :: (text ++ [']'])) = text := by
  have hstep : stripBrackets ('[' :: (text ++ [']'])) =
      if (text ++ [']']).getLast? = some ']' then (text ++ [']']).dropLast else text ++ [']'] := rfl
  rw [hstep, if_pos List.getLast?_concat, List.dropLast_concat]

/-- **A dot at the end**: such a host is no address and none of the names. -/
theorem isPrivateHostname_dotted {host : Text}
    (hchars : ∀ c ∈ lower host, isSpace c = false ∧ c ≠ '[' ∧ c ≠ ']') (hcolon : ':' ∉ lower host)
    (hdotted : (lower host).getLast? = some '.') : isPrivateHostname host = false := by
  have hnone : parseIpLiteral (lower host) = none := by
    cases hip : parseIpLiteral (lower host) with
    | none => rfl
    | some found =>
      have haddress := (parseIpLiteral_bare (lower_lower host) hchars).mp hip
      rcases haddress.cases_colon with hquad | hmem
      · obtain ⟨c, hlast, hdigit⟩ := hquad.last
        rw [hdotted] at hlast
        obtain rfl := Option.some.inj hlast
        exact absurd hdigit (by decide)
      · exact absurd hmem hcolon
  have hname : ¬ InternalName (lower host) :=
    not_internalName (List.mem_of_mem_getLast? hdotted) hdotted (by decide) (by decide)
  rw [isPrivateHostname_eq, isPrivateIp_none hnone, if_neg (by decide), if_neg hcolon]
  exact Bool.eq_false_iff.mpr (mt nameTest_iff.mp hname)

/-- **The guard** holds of the internal hosts that are not spelled with a dot at the end. -/
theorem isPrivateHostname_iff {host : Text} {d : Denotation} (h : Denotes host d) :
    isPrivateHostname host = true ↔ Internal d ∧ ¬ Dotted host := by
  rw [← dotted_lower]
  cases h with
  | @v4 text dot value hquad hdot hhost =>
    have haddress : AddressText text .v4 value := .v4 hquad
    rcases hdot with rfl | rfl
    · -- The bare quad: the ranges decide, and no name ends in a digit.
      rw [List.append_nil] at hhost
      obtain ⟨c, hlast, hdigit⟩ := hquad.last
      have hends : ∀ {e : Char}, isDigit e = false → c ≠ e := by
        rintro e he rfl
        rw [hdigit] at he
        exact absurd he (by decide)
      have hname : ¬ InternalName text :=
        not_internalName hquad.dot_mem hlast (hends (by decide)) (hends (by decide))
      have hip : isPrivateIp text = true ↔ Internal (.address .v4 value) :=
        isPrivateIp_address (haddress.tidy.symm ▸ haddress)
      have hdot : ¬ text.getLast? = some '.' := by
        rw [hlast]
        exact fun heq => hends (by decide) (Option.some.inj heq)
      rw [isPrivateHostname_eq, hhost, ← hip]
      by_cases hprivate : isPrivateIp text = true
      · rw [if_pos hprivate]
        exact iff_of_true rfl ⟨hprivate, hdot⟩
      · rw [if_neg hprivate, if_neg hquad.colon_not_mem, nameTest_iff]
        exact iff_of_false hname fun hand => hprivate hand.1
    · have hlast : (lower host).getLast? = some '.' := by
        rw [hhost, List.getLast?_concat]
      rw [isPrivateHostname_dotted _ _ hlast]
      · exact iff_of_false (by decide) fun hand => hand.2 hlast
      · intro c hc
        rw [hhost] at hc
        rcases List.mem_append.mp hc with hc | hc
        · obtain ⟨hspace, -, hopen, hclose, -, -⟩ := address_char (haddress.chars c hc)
          exact ⟨hspace, hopen, hclose⟩
        · rw [List.mem_singleton.mp hc]
          decide
      · rw [hhost, List.mem_append, not_or]
        exact ⟨hquad.colon_not_mem, by decide⟩
  | @v6 text version value haddress hcolon hhost =>
    -- Brackets or none, the same text is parsed, and nothing else is asked of it.
    have hread : stripBrackets (lower (trim (lower host))) = text := by
      rcases hhost with hhost | hhost
      · rw [hhost]
        exact haddress.tidy
      · have htight : trim (lower host) = lower host := by
          rw [hhost]
          apply trim_of_spaceless
          intro c hc
          rw [List.mem_cons, List.mem_append, List.mem_singleton] at hc
          obtain rfl | hc | rfl := hc
          · decide
          · exact (address_char (haddress.chars c hc)).1
          · decide
        rw [htight, lower_lower, hhost]
        exact stripBrackets_brackets text
    have hip : isPrivateIp (lower host) = true ↔ Internal (.address version value) :=
      isPrivateIp_address (hread.symm ▸ haddress)
    have hmem : ':' ∈ lower host := by
      rcases hhost with hhost | hhost
      · rwa [hhost]
      · rw [hhost]
        exact List.mem_cons_of_mem _ (List.mem_append_left _ hcolon)
    have hdot : ¬ (lower host).getLast? = some '.' := by
      rcases hhost with hhost | hhost
      · rw [hhost]
        cases haddress with
        | v4 hquad => exact absurd hcolon hquad.colon_not_mem
        | mapped hv6 _ => exact hv6.last
        | v6 hv6 _ => exact hv6.last
      · rw [hhost, ← List.cons_append, List.getLast?_concat]
        decide
    rw [isPrivateHostname_eq, ← hip]
    by_cases hprivate : isPrivateIp (lower host) = true
    · rw [if_pos hprivate]
      exact iff_of_true rfl ⟨hprivate, hdot⟩
    · rw [if_neg hprivate, if_pos hmem]
      exact iff_of_false (by decide) fun hand => hprivate hand.1
  | @name text dot hname hdot hhost =>
    rcases hdot with rfl | rfl
    · rw [List.append_nil] at hhost
      have hnone : parseIpLiteral (lower host) = none := by
        cases hip : parseIpLiteral (lower host) with
        | none => rfl
        | some found =>
          have haddress := (parseIpLiteral_bare (lower_lower host) (by
            intro c hc
            rw [hhost] at hc
            obtain ⟨hspace, -, hopen, hclose, -⟩ := hname.chars c hc
            exact ⟨hspace, hopen, hclose⟩)).mp hip
          rw [hhost] at haddress
          rcases haddress.cases_colon with hquad | hmem
          · exact absurd hquad.endsInNumber hname.named
          · exact absurd rfl (hname.chars _ hmem).2.1
      have hcolon : ':' ∉ lower host := by
        rw [hhost]
        exact fun hmem => (hname.chars _ hmem).2.1 rfl
      rw [isPrivateHostname_eq, isPrivateIp_none hnone, if_neg (by decide), if_neg hcolon,
        nameTest_iff, hhost]
      exact (and_iff_left hname.qualified).symm
    · have hlast : (lower host).getLast? = some '.' := by
        rw [hhost, List.getLast?_concat]
      rw [isPrivateHostname_dotted _ _ hlast]
      · exact iff_of_false (by decide) fun hand => hand.2 hlast
      · intro c hc
        rw [hhost] at hc
        rcases List.mem_append.mp hc with hc | hc
        · obtain ⟨hspace, -, hopen, hclose, -⟩ := hname.chars c hc
          exact ⟨hspace, hopen, hclose⟩
        · rw [List.mem_singleton.mp hc]
          decide
      · rw [hhost, List.mem_append, not_or]
        exact ⟨fun hmem => (hname.chars _ hmem).2.1 rfl, by decide⟩

/-- **What is asked of the guard**: it holds of an internal host however it is spelled, and gives
    another spelling of the same host the same answer. -/
def Covered (host other : Text) : Prop :=
  (∀ d, Denotes host d → Internal d → isPrivateHostname host = true) ∧
    ∀ d, Denotes host d → Denotes other d → isPrivateHostname host = isPrivateHostname other

/-- **The guard covers** two hosts exactly when neither spells an internal host with a dot. -/
theorem guard_covers (host other : Text) : Covered host other ↔
    ∀ d, Denotes host d → Internal d → ¬ Dotted host ∧ (Denotes other d → ¬ Dotted other) := by
  constructor
  · rintro ⟨hcovers, hagrees⟩ d hhost hinternal
    have hprivate := hcovers d hhost hinternal
    refine ⟨((isPrivateHostname_iff hhost).mp hprivate).2, fun hother => ?_⟩
    rw [hagrees d hhost hother] at hprivate
    exact ((isPrivateHostname_iff hother).mp hprivate).2
  · intro hundotted
    constructor
    · intro d hhost hinternal
      exact (isPrivateHostname_iff hhost).mpr ⟨hinternal, (hundotted d hhost hinternal).1⟩
    · intro d hhost hother
      rw [Bool.eq_iff_iff, isPrivateHostname_iff hhost, isPrivateHostname_iff hother]
      constructor
      · rintro ⟨hinternal, -⟩
        exact ⟨hinternal, (hundotted d hhost hinternal).2 hother⟩
      · rintro ⟨hinternal, -⟩
        exact ⟨hinternal, (hundotted d hhost hinternal).1⟩

/-- A text whose last character no number has does not end in one. -/
theorem not_endsInNumber {text : Text} {c : Char} (hlast : text.getLast? = some c)
    (hhex : isHexDigit c = false) (hx : c ≠ 'x') : ¬ EndsInNumber text := by
  rintro ⟨front, label, rfl, -, hne, hnumber⟩
  rw [List.getLast?_append_of_ne_nil _ hne] at hlast
  have hmem := List.mem_of_mem_getLast? hlast
  rcases hnumber with hdigits | ⟨hex, rfl, hdigits⟩
  · rw [isHexDigit_of_isDigit (hdigits c hmem)] at hhex
    exact absurd hhex (by decide)
  · rcases List.mem_cons.mp hmem with rfl | hmem
    · exact absurd hhex (by decide)
    · rcases List.mem_cons.mp hmem with rfl | hmem
      · exact hx rfl
      · rw [hdigits c hmem] at hhex
        exact absurd hhex (by decide)

/-- **A spelling that is missed**: the fully qualified names of the machine and of the inside, and
    the loopback address with a dot, are taken for public ones. -/
theorem qualified_missed : isPrivateHostname "localhost" = true ∧
    isPrivateHostname "localhost." = false ∧ isPrivateHostname "db.internal." = false ∧
    isPrivateHostname "127.0.0.1." = false ∧ ¬ Covered "localhost." "localhost" := by
  have hname : Denotes "localhost." (.name "localhost") := by
    refine .name ⟨by decide, by decide, by decide, ?_⟩ (.inr rfl) (by decide)
    exact @not_endsInNumber _ 't' (by decide) (by decide) (by decide)
  refine ⟨by decide +kernel, by decide +kernel, by decide +kernel, by decide +kernel, ?_⟩
  intro hcovered
  have hprivate := hcovered.1 _ hname (.inl rfl)
  have hmissed : isPrivateHostname "localhost." = false := by decide +kernel
  rw [hmissed] at hprivate
  exact absurd hprivate (by decide)

end KodyCelld.Secrets
