import KodyCelld.Secrets.HostPolicy
import KodyCelld.Lib.Texts

namespace KodyCelld.Secrets

open KodyCelld.Lib KodyCelld.Execute

/-!
# What an address text says

The textual forms of the two address families as relations, apart from the parsers, and that the
parsers of `lib/host-allowlist.ts` read exactly these forms:

* `Ipv4Text`, `parseIpv4_iff` — four decimal octets;
* `Ipv6Text`, `parseIpv6_iff` — eight 16-bit words, or fewer around one `::`;
* `AddressText`, `parseIpLiteral_iff` — either, where an IPv4-mapped address is one of version 4;
* `inCidr_iff` — a masked comparison compares the leading bits.
-/

/-! ### Version 4 -/

/-- One to three decimal digits with a value up to 255. -/
structure OctetText (part : Text) (n : ℕ) : Prop where
  nonempty : part ≠ []
  short : part.length ≤ 3
  digits : ∀ c ∈ part, isDigit c = true
  value : digitsVal part = n
  bound : n ≤ 255

/-- **A dotted quad** and the 32 bits it stands for. -/
def Ipv4Text (text : Text) (value : ℕ) : Prop :=
  ∃ a b c d na nb nc nd, OctetText a na ∧ OctetText b nb ∧ OctetText c nc ∧ OctetText d nd ∧
    text = a ++ '.' :: (b ++ '.' :: (c ++ '.' :: d)) ∧
    value = na * 2 ^ 24 + nb * 2 ^ 16 + nc * 2 ^ 8 + nd

/-- The test that `parseIpv4` makes of one part. -/
def octetTest (part : Text) : Bool :=
  !part.isEmpty && decide (part.length ≤ 3) && part.all isDigit && decide (digitsVal part ≤ 255)

theorem octetTest_iff {part : Text} : octetTest part = true ↔ OctetText part (digitsVal part) := by
  unfold octetTest
  simp only [Bool.and_eq_true, Bool.not_eq_true', List.isEmpty_eq_false_iff, decide_eq_true_eq,
    List.all_eq_true]
  constructor
  · rintro ⟨⟨⟨hne, hshort⟩, hdigits⟩, hbound⟩
    exact ⟨hne, hshort, hdigits, rfl, hbound⟩
  · intro h
    exact ⟨⟨⟨h.nonempty, h.short⟩, h.digits⟩, h.bound⟩

theorem OctetText.test {part : Text} {n : ℕ} (h : OctetText part n) : octetTest part = true :=
  octetTest_iff.mpr (h.value ▸ h)

/-- An octet holds no character that is not a digit. -/
theorem OctetText.not_mem {part : Text} {n : ℕ} (h : OctetText part n) {c : Char}
    (hc : isDigit c = false) : c ∉ part := by
  intro hmem
  rw [h.digits c hmem] at hc
  exact absurd hc (by decide)

theorem parseIpv4_eq (text : Text) : parseIpv4 text =
    if (text.splitOn '.').length ≠ 4 then none
    else if (text.splitOn '.').all octetTest then
      some ((text.splitOn '.').foldl (fun value part => value * 2 ^ 8 + digitsVal part) 0)
    else none := by
  rfl

/-- Four octets split at their dots. -/
theorem splitOn_quad {a b c d : Text} {na nb nc nd : ℕ} (ha : OctetText a na) (hb : OctetText b nb)
    (hc : OctetText c nc) (hd : OctetText d nd) :
    (a ++ '.' :: (b ++ '.' :: (c ++ '.' :: d))).splitOn '.' = [a, b, c, d] := by
  have hdot : isDigit '.' = false := by decide
  rw [List.splitOn_append_cons_self_of_not_mem (ha.not_mem hdot),
    List.splitOn_append_cons_self_of_not_mem (hb.not_mem hdot),
    List.splitOn_append_cons_self_of_not_mem (hc.not_mem hdot),
    List.splitOn_eq_singleton (hd.not_mem hdot)]

/-- **The parser of version 4** reads the dotted quads and nothing else. -/
theorem parseIpv4_iff {text : Text} {value : ℕ} :
    parseIpv4 text = some value ↔ Ipv4Text text value := by
  rw [parseIpv4_eq]
  constructor
  · intro h
    split at h
    · exact absurd h (by simp)
    rename_i hlen
    split at h
    · rename_i hall
      -- Four parts, each of them an octet.
      obtain ⟨a, b, c, d, hparts⟩ : ∃ a b c d, text.splitOn '.' = [a, b, c, d] :=
        List.length_eq_four.mp (not_not.mp hlen)
      rw [hparts] at h hall
      simp only [List.all_cons, List.all_nil, Bool.and_true, Bool.and_eq_true] at hall
      obtain ⟨ha, hb, hc, hd⟩ := hall
      have htext : text = a ++ '.' :: (b ++ '.' :: (c ++ '.' :: d)) := by
        have hback : ['.'].intercalate (text.splitOn '.') = text := List.intercalate_splitOn '.'
        rw [hparts] at hback
        rw [← hback]
        simp [List.intercalate, List.intersperse]
      refine ⟨a, b, c, d, _, _, _, _, octetTest_iff.mp ha, octetTest_iff.mp hb,
        octetTest_iff.mp hc,
        octetTest_iff.mp hd, htext, ?_⟩
      simp only [List.foldl_cons, List.foldl_nil, Option.some.injEq] at h
      omega
    · exact absurd h (by simp)
  · rintro ⟨a, b, c, d, na, nb, nc, nd, ha, hb, hc, hd, rfl, rfl⟩
    rw [splitOn_quad ha hb hc hd, if_neg (by simp), if_pos (by
      simp [ha.test, hb.test, hc.test, hd.test])]
    simp only [List.foldl_cons, List.foldl_nil, ha.value, hb.value, hc.value, hd.value,
      Option.some.injEq]
    omega

theorem Ipv4Text.lt {text : Text} {value : ℕ} (h : Ipv4Text text value) : value < 2 ^ 32 := by
  obtain ⟨a, b, c, d, na, nb, nc, nd, ha, hb, hc, hd, -, rfl⟩ := h
  have hna := ha.bound
  have hnb := hb.bound
  have hnc := hc.bound
  have hnd := hd.bound
  omega

/-- A dotted quad has digits and dots only. -/
theorem Ipv4Text.chars {text : Text} {value : ℕ} (h : Ipv4Text text value) :
    ∀ c ∈ text, isDigit c = true ∨ c = '.' := by
  obtain ⟨a, b, c, d, na, nb, nc, nd, ha, hb, hc, hd, rfl, -⟩ := h
  intro x hx
  simp only [List.mem_append, List.mem_cons] at hx
  obtain hx | rfl | hx | rfl | hx | rfl | hx := hx
  · exact .inl (ha.digits x hx)
  · exact .inr rfl
  · exact .inl (hb.digits x hx)
  · exact .inr rfl
  · exact .inl (hc.digits x hx)
  · exact .inr rfl
  · exact .inl (hd.digits x hx)

theorem Ipv4Text.dot_mem {text : Text} {value : ℕ} (h : Ipv4Text text value) : '.' ∈ text := by
  obtain ⟨a, b, c, d, na, nb, nc, nd, -, -, -, -, rfl, -⟩ := h
  exact List.mem_append_right a List.mem_cons_self

theorem Ipv4Text.colon_not_mem {text : Text} {value : ℕ} (h : Ipv4Text text value) :
    ':' ∉ text := by
  intro hmem
  rcases h.chars ':' hmem with hdigit | heq
  · exact absurd hdigit (by decide)
  · exact absurd heq (by decide)

/-- The last character is a digit. -/
theorem Ipv4Text.last {text : Text} {value : ℕ} (h : Ipv4Text text value) :
    ∃ c, text.getLast? = some c ∧ isDigit c = true := by
  obtain ⟨a, b, c, d, na, nb, nc, nd, -, -, -, hd, rfl, -⟩ := h
  have hlast : (a ++ '.' :: (b ++ '.' :: (c ++ '.' :: d))).getLast? = d.getLast? := by
    have hne := hd.nonempty
    rw [show a ++ '.' :: (b ++ '.' :: (c ++ '.' :: d)) =
      (a ++ '.' :: (b ++ '.' :: (c ++ ['.']))) ++ d by simp]
    exact List.getLast?_append_of_ne_nil _ hne
  refine ⟨d.getLast hd.nonempty, ?_, hd.digits _ (List.getLast_mem hd.nonempty)⟩
  rw [hlast, List.getLast?_eq_getLast_of_ne_nil hd.nonempty]

/-! ### Version 6 -/

/-- One to four hexadecimal digits in lower case. -/
structure WordText (group : Text) (w : ℕ) : Prop where
  nonempty : group ≠ []
  short : group.length ≤ 4
  digits : ∀ c ∈ group, isHexDigit c = true
  value : hexVal group = w

/-- **Groups between single colons** and their 16-bit words; the last group may be a dotted quad. -/
inductive Groups : Text → List ℕ → Prop where
  | word {group : Text} {w : ℕ} : WordText group w → Groups group [w]
  | quad {group : Text} {v4 : ℕ} : Ipv4Text group v4 → Groups group [v4 / 2 ^ 16, v4 % 2 ^ 16]
  | more {group rest : Text} {w : ℕ} {ws : List ℕ} :
      WordText group w → Groups rest ws → Groups (group ++ ':' :: rest) (w :: ws)

/-- What stands on one side of `::`, perhaps nothing. -/
def Side (text : Text) (ws : List ℕ) : Prop := (text = [] ∧ ws = []) ∨ Groups text ws

/-- The number that 16-bit words spell, the first one leading. -/
def ofWords (ws : List ℕ) : ℕ := ws.foldl (fun acc word => acc * 2 ^ 16 + word) 0

/-- **A text of version 6** and the 128 bits it stands for: eight words, or one `::` for the zero
    words that are missing. -/
def Ipv6Text (text : Text) (value : ℕ) : Prop :=
  (∃ ws, Groups text ws ∧ ws.length = 8 ∧ value = ofWords ws) ∨
    ∃ before after ws vs, text = before ++ ':' :: ':' :: after ∧ Side before ws ∧ Side after vs ∧
      ws.length + vs.length ≤ 7 ∧
      value = ofWords (ws ++ List.replicate (8 - ws.length - vs.length) 0 ++ vs)

theorem isHexDigit_of_isDigit {c : Char} (h : isDigit c = true) : isHexDigit c = true := by
  unfold isHexDigit
  rw [h]
  rfl

theorem WordText.not_mem {group : Text} {w : ℕ} (h : WordText group w) {c : Char}
    (hc : isHexDigit c = false) : c ∉ group := by
  intro hmem
  rw [h.digits c hmem] at hc
  exact absurd hc (by decide)

theorem Groups.ne_nil {text : Text} {ws : List ℕ} (h : Groups text ws) : text ≠ [] := by
  cases h with
  | word hword => exact hword.nonempty
  | quad hquad => exact List.ne_nil_of_mem hquad.dot_mem
  | more _ _ => simp

/-- Groups hold hexadecimal digits, colons and dots only. -/
theorem Groups.chars {text : Text} {ws : List ℕ} (h : Groups text ws) :
    ∀ c ∈ text, isHexDigit c = true ∨ c = ':' ∨ c = '.' := by
  induction h with
  | word hword => exact fun c hc => .inl (hword.digits c hc)
  | quad hquad =>
    exact fun c hc => (hquad.chars c hc).imp isHexDigit_of_isDigit .inr
  | more hword _ ih =>
    intro c hc
    rcases List.mem_append.mp hc with hc | hc
    · exact .inl (hword.digits c hc)
    · rcases List.mem_cons.mp hc with rfl | hc
      · exact .inr (.inl rfl)
      · exact ih c hc

theorem Side.chars {text : Text} {ws : List ℕ} (h : Side text ws) :
    ∀ c ∈ text, isHexDigit c = true ∨ c = ':' ∨ c = '.' := by
  rcases h with ⟨rfl, -⟩ | h
  · exact fun c hc => absurd hc List.not_mem_nil
  · exact h.chars

theorem Ipv6Text.chars {text : Text} {value : ℕ} (h : Ipv6Text text value) :
    ∀ c ∈ text, isHexDigit c = true ∨ c = ':' ∨ c = '.' := by
  rcases h with ⟨ws, hgroups, -, -⟩ | ⟨before, after, ws, vs, rfl, hbefore, hafter, -, -⟩
  · exact hgroups.chars
  · intro c hc
    simp only [List.mem_append, List.mem_cons] at hc
    obtain hc | rfl | rfl | hc := hc
    · exact hbefore.chars c hc
    · exact .inr (.inl rfl)
    · exact .inr (.inl rfl)
    · exact hafter.chars c hc

theorem Ipv6Text.colon_mem {text : Text} {value : ℕ} (h : Ipv6Text text value) : ':' ∈ text := by
  rcases h with ⟨ws, hgroups, hlen, -⟩ | ⟨before, after, ws, vs, rfl, -⟩
  · cases hgroups with
    | word _ => exact absurd hlen (by simp)
    | quad _ => exact absurd hlen (by simp)
    | more _ _ => exact List.mem_append_right _ List.mem_cons_self
  · exact List.mem_append_right _ List.mem_cons_self

/-! ### The groups of one side -/

theorem wordText_iff {group : Text} :
    (!group.isEmpty && decide (group.length ≤ 4) && group.all isHexDigit) = true ↔
      WordText group (hexVal group) := by
  simp only [Bool.and_eq_true, Bool.not_eq_true', List.isEmpty_eq_false_iff, decide_eq_true_eq,
    List.all_eq_true]
  constructor
  · rintro ⟨⟨hne, hshort⟩, hdigits⟩
    exact ⟨hne, hshort, hdigits, rfl⟩
  · intro h
    exact ⟨⟨h.nonempty, h.short⟩, h.digits⟩

/-- What one round of `pushGroups` did. -/
theorem pushGroups_cons {group : Text} {rest : List Text} {ws : List ℕ} :
    pushGroups (group :: rest) = some ws ↔
      (rest = [] ∧ ∃ v4, Ipv4Text group v4 ∧ ws = [v4 / 2 ^ 16, v4 % 2 ^ 16]) ∨
        ∃ w more, WordText group w ∧ pushGroups rest = some more ∧ ws = w :: more := by
  rw [pushGroups]
  by_cases hdot : '.' ∈ group
  · -- Only a dotted quad has a dot, and only the last group may be one.
    have hword : ∀ w, ¬ WordText group w := fun w h => h.not_mem (by decide) hdot
    rw [if_pos hdot]
    by_cases hrest : rest = []
    · rw [if_neg (not_not.mpr hrest), Option.map_eq_some_iff]
      constructor
      · rintro ⟨v4, hv4, rfl⟩
        exact .inl ⟨hrest, v4, parseIpv4_iff.mp hv4, rfl⟩
      · rintro (⟨-, v4, hv4, rfl⟩ | ⟨w, more, h, -⟩)
        · exact ⟨v4, parseIpv4_iff.mpr hv4, rfl⟩
        · exact absurd h (hword w)
    · rw [if_pos hrest]
      constructor
      · exact fun h => absurd h (by simp)
      · rintro (⟨h, -⟩ | ⟨w, more, h, -⟩)
        · exact absurd h hrest
        · exact absurd h (hword w)
  · rw [if_neg hdot]
    have hquad : ∀ v4, ¬ Ipv4Text group v4 := fun v4 h => hdot h.dot_mem
    split
    · rename_i htest
      rw [Option.map_eq_some_iff]
      constructor
      · rintro ⟨more, hmore, rfl⟩
        exact .inr ⟨hexVal group, more, wordText_iff.mp htest, hmore, rfl⟩
      · rintro (⟨-, v4, h, -⟩ | ⟨w, more, hword, hmore, rfl⟩)
        · exact absurd h (hquad v4)
        · exact ⟨more, hmore, by rw [hword.value]⟩
    · rename_i htest
      constructor
      · exact fun h => absurd h (by simp)
      · rintro (⟨-, v4, h, -⟩ | ⟨w, more, hword, -⟩)
        · exact absurd h (hquad v4)
        · exact absurd (wordText_iff.mpr (hword.value ▸ hword)) htest

theorem pushGroups_nil {ws : List ℕ} : pushGroups [] = some ws ↔ ws = [] := by
  simp [pushGroups, eq_comm]

/-- Pieces that `pushGroups` takes are groups once they are joined. -/
theorem groups_of_push {pieces : List Text} {ws : List ℕ} (hne : pieces ≠ [])
    (h : pushGroups pieces = some ws) : Groups (List.intercalate [':'] pieces) ws := by
  induction pieces generalizing ws with
  | nil => exact absurd rfl hne
  | cons group rest ih =>
    rcases pushGroups_cons.mp h with ⟨rfl, v4, hv4, rfl⟩ | ⟨w, more, hword, hmore, rfl⟩
    · simpa [List.intercalate] using Groups.quad hv4
    · cases rest with
      | nil =>
        rw [pushGroups_nil] at hmore
        subst hmore
        simpa [List.intercalate] using Groups.word hword
      | cons next rest =>
        have hrest := ih (List.cons_ne_nil _ _) hmore
        have hjoin : List.intercalate [':'] (group :: next :: rest) =
            group ++ ':' :: List.intercalate [':'] (next :: rest) := by
          simp [List.intercalate, List.intersperse]
        rw [hjoin]
        exact .more hword hrest

/-- Groups are read back from their pieces. -/
theorem push_of_groups {text : Text} {ws : List ℕ} (h : Groups text ws) :
    pushGroups (text.splitOn ':') = some ws := by
  have hcolon : isHexDigit ':' = false := by decide
  induction h with
  | word hword =>
    rw [List.splitOn_eq_singleton (hword.not_mem hcolon)]
    exact pushGroups_cons.mpr (.inr ⟨_, [], hword, rfl, rfl⟩)
  | quad hquad =>
    rw [List.splitOn_eq_singleton hquad.colon_not_mem]
    exact pushGroups_cons.mpr (.inl ⟨rfl, _, hquad, rfl⟩)
  | more hword _ ih =>
    rw [List.splitOn_append_cons_self_of_not_mem (hword.not_mem hcolon)]
    exact pushGroups_cons.mpr (.inr ⟨_, _, hword, ih, rfl⟩)

/-- The pieces of one side of `::`. -/
def sidePieces (half : Text) : List Text := if half = [] then [] else half.splitOn ':'

theorem pushGroups_side {half : Text} {ws : List ℕ} :
    pushGroups (sidePieces half) = some ws ↔ Side half ws := by
  unfold sidePieces Side
  by_cases hhalf : half = []
  · subst hhalf
    rw [if_pos rfl, pushGroups_nil]
    constructor
    · exact fun h => .inl ⟨rfl, h⟩
    · exact fun h => h.elim And.right fun h => absurd rfl h.ne_nil
  · rw [if_neg hhalf]
    constructor
    · intro h
      have hgroups := groups_of_push (List.splitOn_ne_nil _ _) h
      rw [List.intercalate_splitOn] at hgroups
      exact .inr hgroups
    · rintro (⟨h, -⟩ | h)
      · exact absurd h hhalf
      · exact push_of_groups h

/-! ### Where the text splits -/

/-- Characters before the first piece. -/
def leading (front : Text) : List Text → List Text
  | [] => [front]
  | piece :: pieces => (front ++ piece) :: pieces

theorem splitDouble_ne_nil (text : Text) : splitDouble text ≠ [] := by
  fun_cases splitDouble text <;> simp_all

/-- A character that does not start a `::` belongs to the first piece. -/
theorem splitDouble_cons {c : Char} {rest : Text} (h : c = ':' → rest.head? ≠ some ':') :
    splitDouble (c :: rest) = leading [c] (splitDouble rest) := by
  have hstep : splitDouble (c :: rest) = match splitDouble rest with
      | [] => [[c]]
      | piece :: pieces => (c :: piece) :: pieces := by
    exact splitDouble.eq_2 c rest fun more hc hrest => h hc (by rw [hrest]; rfl)
  rw [hstep]
  cases splitDouble rest with
  | nil => rfl
  | cons piece pieces => rfl

theorem leading_leading (a b : Text) {pieces : List Text} (h : pieces ≠ []) :
    leading a (leading b pieces) = leading (a ++ b) pieces := by
  cases pieces with
  | nil => exact absurd rfl h
  | cons piece pieces => simp [leading]

/-- Text without colons belongs to the first piece as a whole. -/
theorem splitDouble_append {front : Text} (hfront : ':' ∉ front) (rest : Text) :
    splitDouble (front ++ rest) = leading front (splitDouble rest) := by
  induction front with
  | nil =>
    cases hrest : splitDouble rest with
    | nil => exact absurd hrest (splitDouble_ne_nil rest)
    | cons piece pieces => simp [leading, hrest]
  | cons c front ih =>
    have hc : c ≠ ':' := fun heq => hfront (heq ▸ List.mem_cons_self)
    rw [List.cons_append, splitDouble_cons fun heq => absurd heq hc,
      ih fun hmem => hfront (List.mem_cons_of_mem c hmem),
        leading_leading _ _ (splitDouble_ne_nil _)]
    rfl

theorem splitDouble_of_not_mem {text : Text} (h : ':' ∉ text) : splitDouble text = [text] := by
  have happend := splitDouble_append h []
  rw [List.append_nil] at happend
  rw [happend]
  simp [splitDouble, leading]

/-- Groups do not start with a colon. -/
theorem Groups.head_ne {text : Text} {ws : List ℕ} (h : Groups text ws) :
    text.head? ≠ some ':' := by
  have hfront : ∀ {front : Text} (back : Text), front ≠ [] → ':' ∉ front →
      (front ++ back).head? ≠ some ':' := by
    intro front back hne hcolon heq
    cases front with
    | nil => exact hne rfl
    | cons c front =>
      obtain rfl : c = ':' := by simpa using heq
      exact hcolon List.mem_cons_self
  cases h with
  | word hword => simpa using hfront [] hword.nonempty (hword.not_mem (by decide))
  | quad hquad =>
    simpa using hfront [] (List.ne_nil_of_mem hquad.dot_mem) hquad.colon_not_mem
  | more hword _ => exact hfront _ hword.nonempty (hword.not_mem (by decide))

/-- **The split after groups**: they stay one piece, whether `::` follows or nothing. -/
theorem splitDouble_groups {text : Text} {ws : List ℕ} (h : Groups text ws) :
    splitDouble text = [text] ∧
      ∀ after, splitDouble (text ++ ':' :: ':' :: after) = text :: splitDouble after := by
  have hbase : ∀ {text : Text}, ':' ∉ text → splitDouble text = [text] ∧
      ∀ after, splitDouble (text ++ ':' :: ':' :: after) = text :: splitDouble after := by
    intro text hcolon
    refine ⟨splitDouble_of_not_mem hcolon, fun after => ?_⟩
    rw [splitDouble_append hcolon]
    simp [splitDouble, leading]
  have hhex : isHexDigit ':' = false := by decide
  induction h with
  | word hword => exact hbase (hword.not_mem hhex)
  | quad hquad => exact hbase hquad.colon_not_mem
  | @more group rest w ws hword hrest ih =>
    -- The colon between the groups is a single one, since groups do not start with one.
    have hsingle : ∀ back, (rest ++ back).head? ≠ some ':' := by
      intro back heq
      rw [List.head?_append_of_ne_nil _ hrest.ne_nil] at heq
      exact hrest.head_ne heq
    constructor
    · rw [splitDouble_append (hword.not_mem hhex), splitDouble_cons fun _ => hrest.head_ne, ih.1]
      simp [leading]
    · intro after
      rw [List.append_assoc, splitDouble_append (hword.not_mem hhex), List.cons_append,
        splitDouble_cons fun _ => hsingle _, ih.2]
      simp [leading]

/-- The pieces are what stands between the `::`. -/
theorem of_splitDouble {text first : Text} {more : List Text}
    (h : splitDouble text = first :: more) :
    (more = [] ∧ text = first) ∨
      ∃ rest, text = first ++ ':' :: ':' :: rest ∧ splitDouble rest = more := by
  induction text using splitDouble.induct generalizing first more with
  | case1 rest ih =>
    rw [splitDouble] at h
    obtain ⟨rfl, rfl⟩ := List.cons_eq_cons.mp h
    exact .inr ⟨rest, rfl, rfl⟩
  | case2 c rest hc hnil ih => exact absurd hnil (splitDouble_ne_nil rest)
  | case3 c rest hc piece pieces hrest ih =>
    have hstep : splitDouble (c :: rest) = (c :: piece) :: pieces := by
      rw [splitDouble_cons, hrest]
      · rfl
      · intro heq hhead
        cases rest with
        | nil => exact absurd hhead (by simp)
        | cons d rest =>
          obtain rfl : d = ':' := by simpa using hhead
          exact hc rest heq rfl
    rw [hstep] at h
    obtain ⟨rfl, rfl⟩ := List.cons_eq_cons.mp h
    rcases ih hrest with ⟨rfl, rfl⟩ | ⟨back, rfl, hback⟩
    · exact .inl ⟨rfl, rfl⟩
    · exact .inr ⟨back, rfl, hback⟩
  | case4 =>
    rw [splitDouble] at h
    obtain ⟨rfl, rfl⟩ := List.cons_eq_cons.mp h
    exact .inl ⟨rfl, rfl⟩

/-! ### The parser of version 6 -/

/-- The words of the two sides, as `parseIpv6` puts them together. -/
def joinSides (double : Bool) (ws vs : List ℕ) : Option ℕ :=
  let missing : ℤ := 8 - ws.length - vs.length
  if if double then missing < 1 else missing ≠ 0 then none
  else some (ofWords (ws ++ List.replicate missing.toNat 0 ++ vs))

theorem parseIpv6_eq (text : Text) : parseIpv6 text =
    if text = [] ∨ !(text.all fun c => isHexDigit c || c == ':' || c == '.') ∨ ':' ∉ text then none
    else if 2 < (splitDouble text).length then none
    else
      match pushGroups (sidePieces ((splitDouble text).getD 0 [])),
        pushGroups (if (splitDouble text).length = 2 then
          sidePieces ((splitDouble text).getD 1 []) else []) with
      | some ws, some vs => joinSides (decide ((splitDouble text).length = 2)) ws vs
      | _, _ => none := by
  unfold parseIpv6
  split
  · rfl
  · dsimp only
    split
    · rfl
    · unfold sidePieces joinSides ofWords
      by_cases hdouble : (splitDouble text).length = 2 <;>
        simp only [hdouble, decide_true, decide_false, if_true, if_false, Bool.false_eq_true] <;> rfl

theorem joinSides_single {ws : List ℕ} {value : ℕ} :
    joinSides false ws [] = some value ↔ ws.length = 8 ∧ value = ofWords ws := by
  unfold joinSides
  simp only [Bool.false_eq_true, if_false, List.length_nil, List.append_nil]
  constructor
  · intro h
    split at h
    · exact absurd h (by simp)
    rename_i hmissing
    have hlen : ws.length = 8 := by omega
    rw [hlen] at h
    exact ⟨hlen, by simpa [eq_comm] using h⟩
  · rintro ⟨hlen, rfl⟩
    simp [hlen]

theorem joinSides_double {ws vs : List ℕ} {value : ℕ} :
    joinSides true ws vs = some value ↔ ws.length + vs.length ≤ 7 ∧
      value = ofWords (ws ++ List.replicate (8 - ws.length - vs.length) 0 ++ vs) := by
  have hcount : ((8 : ℤ) - ws.length - vs.length).toNat = 8 - ws.length - vs.length := by omega
  unfold joinSides
  simp only [if_true, hcount]
  constructor
  · intro h
    split at h
    · exact absurd h (by simp)
    rename_i hmissing
    exact ⟨by omega, (Option.some.inj h).symm⟩
  · rintro ⟨hlen, rfl⟩
    rw [if_neg (by omega)]

/-- **The parser of version 6** reads the texts of version 6 and nothing else. -/
theorem parseIpv6_iff {text : Text} {value : ℕ} :
    parseIpv6 text = some value ↔ Ipv6Text text value := by
  rw [parseIpv6_eq]
  constructor
  · intro h
    split at h
    · exact absurd h (by simp)
    split at h
    · exact absurd h (by simp)
    rename_i hlen
    split at h
    · rename_i ws vs hws hvs
      cases hpieces : splitDouble text with
      | nil => exact absurd hpieces (splitDouble_ne_nil text)
      | cons before more =>
        rw [hpieces] at h hlen hws hvs
        rcases of_splitDouble hpieces with ⟨rfl, rfl⟩ | ⟨rest, rfl, hrest⟩
        · -- No `::`: eight words between single colons.
          obtain rfl : vs = [] := pushGroups_nil.mp hvs
          obtain ⟨hcount, rfl⟩ := joinSides_single.mp h
          rcases pushGroups_side.mp hws with ⟨-, rfl⟩ | hgroups
          · exact absurd hcount (by simp)
          · exact .inl ⟨ws, hgroups, hcount, rfl⟩
        · cases hmore : more with
          | nil => exact absurd (hrest.trans hmore) (splitDouble_ne_nil rest)
          | cons after more' =>
            subst hmore
            -- At most two pieces: the second one is all that follows.
            obtain rfl : more' = [] := by
              simp only [List.length_cons] at hlen
              exact List.length_eq_zero_iff.mp (by omega)
            obtain ⟨-, rfl⟩ | ⟨rest', -, hrest'⟩ := of_splitDouble hrest
            · obtain ⟨hcount, rfl⟩ := joinSides_double.mp h
              exact .inr ⟨before, rest, ws, vs, rfl, pushGroups_side.mp hws,
                pushGroups_side.mp hvs, hcount, rfl⟩
            · exact absurd hrest' (splitDouble_ne_nil rest')
    · exact absurd h (by simp)
  · intro h
    have hchars : text.all (fun c => isHexDigit c || c == ':' || c == '.') = true := by
      rw [List.all_eq_true]
      intro c hc
      rcases h.chars c hc with hc | rfl | rfl
      · rw [hc]
        rfl
      · rfl
      · rfl
    have hcolon := h.colon_mem
    rw [if_neg (by
      rintro (hnil | hall | hnone)
      · exact absurd hnil (List.ne_nil_of_mem hcolon)
      · rw [hchars] at hall
        exact absurd hall (by decide)
      · exact hnone hcolon)]
    rcases h with ⟨ws, hgroups, hlen, rfl⟩ | ⟨before, after, ws, vs, rfl, hbefore, hafter, hlen,
      rfl⟩
    · rw [(splitDouble_groups hgroups).1]
      simp only [List.length_singleton, List.getD_cons_zero]
      rw [if_neg (by decide), if_neg (by decide), pushGroups_nil.mpr rfl,
        pushGroups_side.mpr (.inr hgroups)]
      exact joinSides_single.mpr ⟨hlen, rfl⟩
    · have hpieces : splitDouble (before ++ ':' :: ':' :: after) = [before, after] := by
        have hback : splitDouble after = [after] := by
          rcases hafter with ⟨rfl, -⟩ | hafter
          · rfl
          · exact (splitDouble_groups hafter).1
        rcases hbefore with ⟨rfl, -⟩ | hbefore
        · rw [List.nil_append, splitDouble, hback]
        · rw [(splitDouble_groups hbefore).2, hback]
      rw [hpieces]
      simp only [List.length_cons, List.length_nil, List.getD_cons_zero, List.getD_cons_succ]
      rw [if_neg (by decide), if_pos (by decide), pushGroups_side.mpr hbefore,
        pushGroups_side.mpr hafter]
      exact joinSides_double.mpr ⟨hlen, rfl⟩

/-! ### The size of an address -/

theorem hexVal_append (a b : Text) : hexVal (a ++ b) = hexVal a * 16 ^ b.length + hexVal b := by
  have hfold : ∀ (b : Text) (n : ℕ), b.foldl (fun n c => 16 * n +
      if isDigit c then c.toNat - '0'.toNat else c.toNat - 'a'.toNat + 10) n =
        n * 16 ^ b.length + hexVal b := by
    intro b
    induction b with
    | nil => simp [hexVal]
    | cons c b ih =>
      intro n
      unfold hexVal at ih ⊢
      rw [List.foldl_cons, ih, List.foldl_cons, ih (16 * 0 + _), List.length_cons]
      ring
  unfold hexVal
  rw [List.foldl_append, hfold]
  rfl

/-- Hexadecimal digits are worth less than sixteen each. -/
theorem hexVal_lt {group : Text} (h : ∀ c ∈ group, isHexDigit c = true) :
    hexVal group < 16 ^ group.length := by
  induction group using List.reverseRecOn with
  | nil => simp [hexVal]
  | append_singleton group c ih =>
    have hdigit : hexVal [c] < 16 := by
      have hc := h c (by simp)
      have hle : ∀ d : Char, c ≤ d → c.toNat ≤ d.toNat := fun d hd => hd
      have hge : ∀ d : Char, d ≤ c → d.toNat ≤ c.toNat := fun d hd => hd
      have h0 : '0'.toNat = 48 := rfl
      have h9 : '9'.toNat = 57 := rfl
      have ha : 'a'.toNat = 97 := rfl
      have hf : 'f'.toNat = 102 := rfl
      simp only [isHexDigit, isDigit, Bool.or_eq_true, Bool.and_eq_true, decide_eq_true_eq] at hc
      simp only [hexVal, List.foldl_cons, List.foldl_nil, isDigit, Bool.and_eq_true,
        decide_eq_true_eq]
      rcases hc with ⟨hlow, hhigh⟩ | ⟨hlow, hhigh⟩
      · rw [if_pos ⟨hlow, hhigh⟩]
        have hhigh := hle _ hhigh
        omega
      · have hlow' := hge _ hlow
        have hhigh' := hle _ hhigh
        rw [if_neg fun hd => absurd (hle _ hd.2) (by omega)]
        omega
    have hfront := ih fun d hd => h d (List.mem_append_left _ hd)
    rw [hexVal_append, List.length_append, List.length_singleton, pow_succ]
    omega

theorem WordText.lt {group : Text} {w : ℕ} (h : WordText group w) : w < 2 ^ 16 := by
  rw [← h.value]
  calc hexVal group < 16 ^ group.length := hexVal_lt h.digits
    _ ≤ 16 ^ 4 := Nat.pow_le_pow_right (by decide) h.short
    _ = 2 ^ 16 := by decide

theorem Groups.lt {text : Text} {ws : List ℕ} (h : Groups text ws) : ∀ w ∈ ws, w < 2 ^ 16 := by
  induction h with
  | word hword => simpa using hword.lt
  | quad hquad =>
    have hlt := hquad.lt
    intro w hw
    simp only [List.mem_cons, List.not_mem_nil, or_false] at hw
    omega
  | more hword _ ih =>
    intro w hw
    rcases List.mem_cons.mp hw with rfl | hw
    · exact hword.lt
    · exact ih w hw

theorem Side.lt {text : Text} {ws : List ℕ} (h : Side text ws) : ∀ w ∈ ws, w < 2 ^ 16 := by
  rcases h with ⟨-, rfl⟩ | h
  · exact fun w hw => absurd hw List.not_mem_nil
  · exact h.lt

theorem ofWords_lt {ws : List ℕ} (h : ∀ w ∈ ws, w < 2 ^ 16) :
    ofWords ws < 2 ^ (16 * ws.length) := by
  induction ws using List.reverseRecOn with
  | nil => simp [ofWords]
  | append_singleton ws w ih =>
    have hw := h w (by simp)
    have hfront := ih fun v hv => h v (List.mem_append_left _ hv)
    have hstep : ofWords (ws ++ [w]) = ofWords ws * 2 ^ 16 + w := by simp [ofWords]
    rw [hstep, List.length_append, List.length_singleton, Nat.mul_add, pow_add]
    omega

theorem Ipv6Text.lt {text : Text} {value : ℕ} (h : Ipv6Text text value) : value < 2 ^ 128 := by
  rcases h with ⟨ws, hgroups, hlen, rfl⟩ | ⟨before, after, ws, vs, -, hbefore, hafter, hlen, rfl⟩
  · have hlt := ofWords_lt hgroups.lt
    rwa [hlen] at hlt
  · have hlt : ofWords (ws ++ List.replicate (8 - ws.length - vs.length) 0 ++ vs) <
        2 ^ (16 * (ws ++ List.replicate (8 - ws.length - vs.length) 0 ++ vs).length) := by
      apply ofWords_lt
      intro w hw
      rcases List.mem_append.mp hw with hw | hw
      · rcases List.mem_append.mp hw with hw | hw
        · exact hbefore.lt w hw
        · rw [(List.mem_replicate.mp hw).2]
          decide
      · exact hafter.lt w hw
    have hcount : (ws ++ List.replicate (8 - ws.length - vs.length) 0 ++ vs).length = 8 := by
      simp only [List.length_append, List.length_replicate]
      omega
    rwa [hcount] at hlt

/-! ### Either version -/

/-- **An address text**: an IPv4-mapped address of version 6 is the one of version 4 inside it. -/
inductive AddressText : Text → IpVersion → ℕ → Prop where
  | v4 {text : Text} {value : ℕ} : Ipv4Text text value → AddressText text .v4 value
  | mapped {text : Text} {value : ℕ} :
      Ipv6Text text value → value / 2 ^ 32 = 0xffff → AddressText text .v4 (value % 2 ^ 32)
  | v6 {text : Text} {value : ℕ} :
      Ipv6Text text value → value / 2 ^ 32 ≠ 0xffff → AddressText text .v6 value

/-- **The parser of both versions** reads what is left of the host without space and brackets. -/
theorem parseIpLiteral_iff {host : Text} {version : IpVersion} {value : ℕ} :
    parseIpLiteral host = some (version, value) ↔
      AddressText (stripBrackets (lower (trim host))) version value := by
  have hapart : ∀ {text : Text} {v w : ℕ}, Ipv4Text text v → ¬ Ipv6Text text w :=
    fun h4 h6 => h4.colon_not_mem h6.colon_mem
  unfold parseIpLiteral
  generalize stripBrackets (lower (trim host)) = text
  dsimp only
  cases h4 : parseIpv4 text with
  | some v =>
    have hquad := parseIpv4_iff.mp h4
    simp only [Option.some.injEq, Prod.mk.injEq]
    constructor
    · rintro ⟨rfl, rfl⟩
      exact .v4 hquad
    · rintro (hother | ⟨hother, -⟩ | ⟨hother, -⟩)
      · exact ⟨rfl, Option.some.inj (h4.symm.trans (parseIpv4_iff.mpr hother))⟩
      · exact absurd hother (hapart hquad)
      · exact absurd hother (hapart hquad)
  | none =>
    have hno4 : ∀ v, ¬ Ipv4Text text v :=
      fun v hv => absurd (h4.symm.trans (parseIpv4_iff.mpr hv)) (by simp)
    cases h6 : parseIpv6 text with
    | none =>
      have hno6 : ∀ v, ¬ Ipv6Text text v :=
        fun v hv => absurd (h6.symm.trans (parseIpv6_iff.mpr hv)) (by simp)
      constructor
      · exact fun h => absurd h (by simp)
      · rintro (hother | ⟨hother, -⟩ | ⟨hother, -⟩)
        · exact absurd hother (hno4 _)
        · exact absurd hother (hno6 _)
        · exact absurd hother (hno6 _)
    | some v =>
      have hsame : ∀ {w}, Ipv6Text text w → w = v :=
        fun hw => (Option.some.inj (h6.symm.trans (parseIpv6_iff.mpr hw))).symm
      dsimp only
      constructor
      · intro h
        split at h
        · rename_i hmapped
          obtain ⟨rfl, rfl⟩ := Prod.mk.inj (Option.some.inj h)
          exact .mapped (parseIpv6_iff.mp h6) hmapped
        · rename_i hplain
          obtain ⟨rfl, rfl⟩ := Prod.mk.inj (Option.some.inj h)
          exact .v6 (parseIpv6_iff.mp h6) hplain
      · rintro (hother | ⟨hother, hmapped⟩ | ⟨hother, hplain⟩)
        · exact absurd hother (hno4 _)
        · obtain rfl := hsame hother
          rw [if_pos hmapped]
        · obtain rfl := hsame hother
          rw [if_neg hplain]

theorem AddressText.lt {text : Text} {version : IpVersion} {value : ℕ}
    (h : AddressText text version value) : value < 2 ^ version.width := by
  cases h with
  | v4 h => exact h.lt
  | mapped _ _ => exact Nat.mod_lt _ (by decide)
  | v6 h _ => exact h.lt

theorem AddressText.chars {text : Text} {version : IpVersion} {value : ℕ}
    (h : AddressText text version value) : ∀ c ∈ text, isHexDigit c = true ∨ c = ':' ∨ c = '.' := by
  cases h with
  | v4 h => exact fun c hc => (h.chars c hc).imp isHexDigit_of_isDigit .inr
  | mapped h _ => exact h.chars
  | v6 h _ => exact h.chars

theorem AddressText.ne_nil {text : Text} {version : IpVersion} {value : ℕ}
    (h : AddressText text version value) : text ≠ [] := by
  cases h with
  | v4 h => exact List.ne_nil_of_mem h.dot_mem
  | mapped h _ => exact List.ne_nil_of_mem h.colon_mem
  | v6 h _ => exact List.ne_nil_of_mem h.colon_mem

/-! ### Masks -/

/-- Masking an address leaves its leading bits. -/
theorem and_cidrMask {value bits width : ℕ} (hvalue : value < 2 ^ width) (hbits : bits ≤ width) :
    value &&& cidrMask bits width = value / 2 ^ (width - bits) * 2 ^ (width - bits) := by
  have hsplit : 2 ^ width = 2 ^ bits * 2 ^ (width - bits) := by
    rw [← pow_add, Nat.add_sub_cancel' hbits]
  have hhigh : value / 2 ^ (width - bits) < 2 ^ bits := by
    rw [Nat.div_lt_iff_lt_mul (Nat.two_pow_pos _), ← hsplit]
    exact hvalue
  have hmask : cidrMask bits width = (2 ^ bits - 1) <<< (width - bits) := by
    unfold cidrMask
    rw [Nat.shiftLeft_eq]
    split
    · rename_i hzero
      rw [hzero]
      simp
    · rfl
  -- A bit survives when it is one of the leading ones.
  have hkept : value &&& cidrMask bits width =
      (value / 2 ^ (width - bits) &&& (2 ^ bits - 1)) <<< (width - bits) := by
    rw [hmask]
    apply Nat.eq_of_testBit_eq
    intro i
    rw [Nat.testBit_and, Nat.testBit_shiftLeft, Nat.testBit_shiftLeft, Nat.testBit_and,
      Nat.testBit_div_two_pow]
    by_cases hi : width - bits ≤ i
    · rw [Nat.sub_add_cancel hi]
      simp [hi]
    · simp [hi]
  rw [hkept, Nat.and_two_pow_sub_one_eq_mod, Nat.mod_eq_of_lt hhigh, Nat.shiftLeft_eq]

/-- **A masked comparison** compares the leading bits. -/
theorem inCidr_iff {value network bits width : ℕ} (hvalue : value < 2 ^ width)
    (hnetwork : network < 2 ^ width) (hbits : bits ≤ width) :
    inCidr value network bits width = true ↔
      value / 2 ^ (width - bits) = network / 2 ^ (width - bits) := by
  unfold inCidr
  rw [decide_eq_true_eq, and_cidrMask hvalue hbits, and_cidrMask hnetwork hbits]
  exact Nat.mul_left_inj (Nat.two_pow_pos _).ne'

/-- A masked network is compared as the network itself. -/
theorem inCidr_masked (value network bits width : ℕ) :
    inCidr value (network &&& cidrMask bits width) bits width =
      inCidr value network bits width := by
  unfold inCidr
  simp only [Nat.and_assoc, Nat.and_self]

end KodyCelld.Secrets
