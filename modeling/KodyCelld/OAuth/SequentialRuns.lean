import KodyCelld.OAuth.LedgerRefinement

namespace KodyCelld.OAuth

open KodyCelld.Lib OAuthStore

/-!
# Sequential runs of the authorization server

What the refinement says about the tokens after any sequence of completed operations:

* `sequential_runs` — one live refresh token per family, replay only of the last rotation and only
  for a minute, theft detection, and which access tokens resolve.
-/

variable {p : Platform} {s : OAuthStore} {L : Ledger}

/-! ### The four laws -/

/-- The token was handed out at position `n` of a family, as a refresh token that has been
    replaced since by `next`; its grant was made for the client. -/
structure Ledger.Replaced (L : Ledger) (token clientId f : Text) (n : ℕ) (F : Family)
    (pair next : Pair) : Prop where
  minted : L.minted token = some (.refresh, f, n)
  family : L.families f = some F
  position : F.pairs[n]? = some pair
  next : F.pairs[n + 1]? = some next
  client : ∃ G, L.grants F.grantId = some G ∧ G.clientId = clientId

/-- The access token is of the pair last minted in its family, unexpired, was not revoked by itself,
    and neither its family nor its grant was revoked. -/
def Ledger.Accepts (L : Ledger) (now : ℕ) (token : Text) : Prop :=
  ∃ f F pair G, L.families f = some F ∧ F.pairs.getLast? = some pair ∧
    pair.response.accessToken = token ∧ now < pair.mintedAt + accessTokenTtlSeconds * 1000 ∧
    L.revokedAccess token = false ∧ F.revoked = false ∧
    L.grants F.grantId = some G ∧ G.revoked = false

/-- What holds between the store and the record of what was answered. -/
structure RunLaws (p : Platform) (s : OAuthStore) (L : Ledger) : Prop where
  /-- A family has at most one refresh token that was not replaced. -/
  oneLive : ∀ row ∈ s.tokens.rows, ∀ row' ∈ s.tokens.rows, row.kind = .refresh →
    row'.kind = .refresh → row.familyId = row'.familyId → row.replacedAt = none →
    row'.replacedAt = none → row = row'
  /-- A replaced refresh token is answered only as the immediate predecessor of the current one, for
      a minute, with the very pair of that rotation and with no change beyond the clean-up. -/
  replay : ∀ token clientId f n F pair next, L.Replaced token clientId f n F pair next →
    ∀ now draw response, L.now ≤ now → L.fresh draw = true →
      (tokensRefresh p now draw token clientId s).1 = .ok response →
      n + 2 = F.pairs.length ∧ now < next.mintedAt + refreshReplayGraceMs ∧
        response = next.response ∧ (tokensRefresh p now draw token clientId s).2 = purge now s
  /-- Any other one, while unexpired, ends its family. -/
  theft : ∀ token clientId f n F pair next, L.Replaced token clientId f n F pair next →
    ∀ now draw, L.now ≤ now → L.fresh draw = true →
      now < pair.mintedAt + refreshTokenTtlMs →
      ¬ (n + 2 = F.pairs.length ∧ now < next.mintedAt + refreshReplayGraceMs) →
      ∀ row ∈ (tokensRefresh p now draw token clientId s).2.tokens.rows, row.familyId ≠ f
  /-- Which access tokens resolve. -/
  access : ∀ token now, L.now ≤ now →
    ((accessTokenResolve p now token s).isSome ↔ L.Accepts now token)

/-! ### One live token -/

/-- Every row is the row of a token that was handed out. -/
theorem Matches.row_minted (h : Matches p s L) {row : TokenRow} (hrow : row ∈ s.tokens.rows) :
    ∃ token n F pair, row.tokenHash = p.sha256Hex token ∧
      L.minted token = some (row.kind, row.familyId, n) ∧ L.families row.familyId = some F ∧
      F.pairs[n]? = some pair ∧ F.revoked = false ∧
      L.pairView token row.kind row.familyId F n pair = some (rowView p row) := by
  obtain ⟨token, hhash⟩ := h.hashed row hrow
  have hview : L.view token = some (rowView p row) := by
    rw [← h.tokens, tokenView, Rows.find?_eq_some.mpr ⟨hrow, hhash⟩]
    rfl
  obtain ⟨kind, f, n, F, pair, hminted, hfamily, hpair, hv⟩ := Ledger.view_eq_some.mp hview
  obtain ⟨hkind, hf, -, -, hlive, -⟩ := Ledger.pairView_columns hv
  obtain rfl : row.kind = kind := hkind
  obtain rfl : row.familyId = f := hf
  exact ⟨token, n, F, pair, hhash, hminted, hfamily, hpair, hlive, hv⟩

/-- The position of a refresh token that was not replaced is the last of its family. -/
theorem Ledger.last_of_unreplaced {token f : Text} {n : ℕ} {F : Family} {pair : Pair} {row : TokenRow}
    (hv : L.pairView token .refresh f F n pair = some (rowView p row))
    (hpair : F.pairs[n]? = some pair) (hlive : row.replacedAt = none) : n + 1 = F.pairs.length := by
  have hlt : n < F.pairs.length := (List.getElem?_eq_some_iff.mp hpair).1
  unfold pairView at hv
  split at hv
  · exact absurd hv (by simp)
  have hreplaced : (F.pairs[n + 1]?).map Pair.mintedAt = row.replacedAt :=
    congrArg TokenView.replacedAt (Option.some.inj hv)
  rw [hlive, Option.map_eq_none_iff, List.getElem?_eq_none_iff] at hreplaced
  omega

theorem Matches.oneLive (h : Matches p s L) (hok : L.Ok) {row row' : TokenRow}
    (hrow : row ∈ s.tokens.rows) (hrow' : row' ∈ s.tokens.rows) (hkind : row.kind = .refresh)
    (hkind' : row'.kind = .refresh) (hfamily : row.familyId = row'.familyId)
    (hlive : row.replacedAt = none) (hlive' : row'.replacedAt = none) : row = row' := by
  obtain ⟨token, n, F, pair, hhash, hminted, hF, hpair, -, hv⟩ := h.row_minted hrow
  obtain ⟨token', n', F', pair', hhash', hminted', hF', hpair', -, hv'⟩ := h.row_minted hrow'
  rw [hkind] at hminted hv
  rw [hkind'] at hminted' hv'
  rw [← hfamily] at hminted' hF' hv'
  obtain rfl : F' = F := Option.some.inj (hF'.symm.trans hF)
  have hlast := Ledger.last_of_unreplaced hv hpair hlive
  have hlast' := Ledger.last_of_unreplaced hv' hpair' hlive'
  obtain rfl : n' = n := by omega
  obtain rfl : pair' = pair := Option.some.inj (hpair'.symm.trans hpair)
  -- both tokens are the refresh token of the last pair
  obtain ⟨F₁, pair₁, hF₁, hpair₁, htoken⟩ := hok.minted token _ _ _ hminted
  obtain ⟨F₂, pair₂, hF₂, hpair₂, htoken'⟩ := hok.minted token' _ _ _ hminted'
  obtain rfl : F₁ = F' := Option.some.inj (hF₁.symm.trans hF)
  obtain rfl : F₂ = F₁ := Option.some.inj (hF₂.symm.trans hF)
  obtain rfl : pair₁ = pair' := Option.some.inj (hpair₁.symm.trans hpair)
  obtain rfl : pair₂ = pair₁ := Option.some.inj (hpair₂.symm.trans hpair)
  have hsame : row.tokenHash = row'.tokenHash := by
    rw [hhash, hhash', ← htoken, ← htoken']
  exact List.inj_on_of_nodup_map s.tokens.nodup hrow hrow' hsame

/-! ### Replay and theft -/

/-- What a refresh of a replaced token does: it was unknown (its family ended, or it expired), the
    last rotation is replayed, or the family ends. -/
theorem refresh_replaced (h : Matches p s L) (hok : L.Ok) {token clientId f : Text} {n : ℕ}
    {F : Family} {pair next : Pair} (hr : L.Replaced token clientId f n F pair next)
    {draw : TokenDraw} (hdraw : L.fresh draw = true) :
    ((F.revoked = true ∨ pair.mintedAt + refreshTokenTtlMs ≤ L.now) ∧
      tokensRefresh p L.now draw token clientId s = (.error unknownRefresh, purge L.now s)) ∨
    (n + 2 = F.pairs.length ∧ L.now < next.mintedAt + refreshReplayGraceMs ∧
      tokensRefresh p L.now draw token clientId s = (.ok next.response, purge L.now s)) ∨
    (¬ (n + 2 = F.pairs.length ∧ L.now < next.mintedAt + refreshReplayGraceMs) ∧
      tokensRefresh p L.now draw token clientId s =
        (.error reusedRefresh, familyRevoke f (purge L.now s))) := by
  have hlt : n + 1 < F.pairs.length := (List.getElem?_eq_some_iff.mp hr.next).1
  rcases tokensRefresh_cases h hok hdraw token clientId with ⟨hno, hrun⟩ | ⟨f', n', F', pair', hp, hc⟩
  · left
    refine ⟨?_, hrun⟩
    by_contra hlive
    rw [not_or, Bool.not_eq_true, not_le] at hlive
    obtain ⟨G, hG, hclient⟩ := hr.client
    -- a family that was rotated is under a grant that was live then
    have hgrant : G.revoked = false := by
      by_contra hrevoked
      rw [Bool.not_eq_false] at hrevoked
      have := hok.single f F G hr.family hlive.1 hG hrevoked
      omega
    refine hno f n F pair ⟨hr.minted, hr.family, hr.position, ⟨G.userId, ?_⟩, hlive.1, hlive.2⟩
    simp [Ledger.liveGrant, hG, hgrant, hclient]
  · right
    have hplace := hp.minted.symm.trans hr.minted
    simp only [Option.some.injEq, Prod.mk.injEq, true_and] at hplace
    obtain ⟨rfl, rfl⟩ := hplace
    obtain rfl : F' = F := Option.some.inj (hp.family.symm.trans hr.family)
    rcases hc with ⟨hlast, -⟩ | ⟨next', hnext', hc⟩
    · omega
    · obtain rfl : next' = next := Option.some.inj (hnext'.symm.trans hr.next)
      exact hc

/-- No row of a family that was revoked is left. -/
theorem Matches.no_row_of_revoked (h : Matches p s L) {f : Text} {F : Family}
    (hF : L.families f = some F) (hrevoked : F.revoked = true) {row : TokenRow}
    (hrow : row ∈ s.tokens.rows) : row.familyId ≠ f := by
  intro hf
  obtain ⟨-, -, F', -, -, -, hF', -, hlive, -⟩ := h.row_minted hrow
  rw [hf] at hF'
  obtain rfl : F' = F := Option.some.inj (hF'.symm.trans hF)
  exact absurd (hrevoked.symm.trans hlive) (by simp)

/-! ### Access tokens -/

theorem accessTokenResolve_isSome {now : ℕ} {token : Text} :
    (accessTokenResolve p now token s).isSome ↔
      ∃ row grant client, s.tokens.find? (p.sha256Hex token) = some row ∧
        s.grants.find? row.grantId = some grant ∧ s.clients.find? grant.clientId = some client ∧
        row.kind = .access ∧ now < row.expiresAt := by
  unfold accessTokenResolve
  cases hrow : s.tokens.find? (p.sha256Hex token) with
  | none => simp
  | some row =>
    cases hgrant : s.grants.find? row.grantId with
    | none => simp [hgrant]
    | some grant =>
      cases hclient : s.clients.find? grant.clientId with
      | none => simp [hgrant, hclient]
      | some client =>
        by_cases hvalid : row.kind = .access ∧ now < row.expiresAt
        · simp [hgrant, hclient, hvalid]
        · simp [hgrant, hvalid]

theorem Matches.access (h : Matches p s L) (hok : L.Ok) {token : Text} {now : ℕ}
    (hnow : L.now ≤ now) : (accessTokenResolve p now token s).isSome ↔ L.Accepts now token := by
  rw [accessTokenResolve_isSome]
  constructor
  · rintro ⟨row, grant, client, hrow, hgrant, -, hkind, hexpires⟩
    have hview : L.view token = some (rowView p row) := by
      rw [← h.tokens, tokenView, hrow]
      rfl
    obtain ⟨kind, f, n, F, pair, hminted, hF, hpair, hv⟩ := Ledger.view_eq_some.mp hview
    obtain ⟨hk, -, hgrantId, hexp, hlive, -⟩ := Ledger.pairView_columns hv
    obtain rfl : kind = .access := hk.symm.trans hkind
    obtain ⟨F', pair', hF', hpair', htoken⟩ := hok.minted token .access f n hminted
    obtain rfl : F' = F := Option.some.inj (hF'.symm.trans hF)
    obtain rfl : pair' = pair := Option.some.inj (hpair'.symm.trans hpair)
    unfold Ledger.pairView at hv
    split at hv
    · exact absurd hv (by simp)
    dsimp only at hv
    split at hv
    · rename_i hlast
      -- the grant row is there, so the grant was made and not revoked
      have hG := h.grants F'.grantId
      rw [← show row.grantId = F'.grantId from hgrantId, hgrant] at hG
      unfold Ledger.liveGrant at hG
      obtain ⟨G, hG', hlive'⟩ := Option.bind_eq_some_iff.mp hG.symm
      have hnot : G.revoked = false := by
        by_contra hr
        rw [Bool.not_eq_false] at hr
        rw [if_pos hr] at hlive'
        exact absurd hlive' (by simp)
      refine ⟨f, F', pair', G, hF, ?_, htoken, ?_, hlast.2, hlive, ?_, hnot⟩
      · rw [List.getLast?_eq_getElem?, ← hlast.1]
        exact hpair
      · exact (show row.expiresAt = _ from hexp) ▸ hexpires
      · rw [← show row.grantId = F'.grantId from hgrantId]
        exact hG'
    · exact absurd hv (by simp)
  · rintro ⟨f, F, pair, G, hF, hlast, rfl, hexpires, hself, hlive, hG, hnot⟩
    rw [List.getLast?_eq_getElem?] at hlast
    have hpos : 0 < F.pairs.length := List.length_pos_iff.mpr (hok.nonempty f F hF)
    have hminted : L.minted pair.response.accessToken = some (.access, f, F.pairs.length - 1) :=
      hok.pairs f F _ pair hF hlast .access
    have hpurged : ¬ pair.mintedAt + tokenTtlMs .access ≤ L.purgedAt := by
      have := hok.purgedAt
      show ¬ pair.mintedAt + accessTokenTtlSeconds * 1000 ≤ L.purgedAt
      omega
    have hview := h.tokens pair.response.accessToken
    rw [Ledger.view_of_pair hminted hF hlast, Ledger.pairView, if_neg (by simp [hlive, hpurged]),
      if_pos ⟨by omega, hself⟩] at hview
    obtain ⟨row, hrow, heq⟩ := Option.map_eq_some_iff.mp hview
    rw [rowView, TokenView.mk.injEq] at heq
    obtain ⟨hkind, hgrantId, -, -, hexp, -, -⟩ := heq
    have hgrant := h.grants F.grantId
    rw [show L.liveGrant F.grantId = some (G.userId, G.clientId) by
      simp [Ledger.liveGrant, hG, hnot]] at hgrant
    obtain ⟨grant, hgrant, -⟩ := Option.map_eq_some_iff.mp hgrant
    obtain ⟨client, hclient⟩ := Option.isSome_iff_exists.mp
      (h.clients grant (Rows.find?_eq_some.mp hgrant).1)
    exact ⟨row, grant, client, hrow, hgrantId ▸ hgrant, hclient, hkind, hexp ▸ hexpires⟩

/-! ### The claim about runs -/

/-- A text spelled so that its end can be found. -/
def spell : Text → Text
  | [] => ['.']
  | c :: t => '-' :: c :: spell t

/-- The text spelled at the front, and the rest. -/
def unspell : Text → Option (Text × Text)
  | '.' :: rest => some ([], rest)
  | '-' :: c :: rest => (unspell rest).map fun r => (c :: r.1, r.2)
  | _ => none

theorem unspell_spell (t rest : Text) : unspell (spell t ++ rest) = some (t, rest) := by
  induction t with
  | nil => rfl
  | cons c t ih =>
    show (unspell (spell t ++ rest)).map _ = _
    rw [ih]
    rfl

/-- A platform to run the store on: it hashes to the text itself and seals in the clear. -/
def clearPlatform : Platform where
  sha256Hex := id
  sha256Hex_injective := Function.injective_id
  pkceChallenge := id
  sealReplay := fun iv r =>
    spell iv ++ (spell r.accessToken ++ (spell r.refreshToken ++ (spell r.scope ++ [])))
  openReplay := fun json => do
    let (_, json) ← unspell json
    let (access, json) ← unspell json
    let (refresh, json) ← unspell json
    let (scope, _) ← unspell json
    some ⟨access, refresh, scope⟩
  open_seal := fun iv r => by
    simp only [unspell_spell, Option.bind_eq_bind, Option.bind_some]

/-- A client connects, refreshes twice and loses the second answer. -/
def clientRun : List (ℕ × Op) :=
  [(0, .clientRegister "c" none ⟨"app", [], .none, [], none, none, none, none⟩),
   (1, .grantEnsure "g" "u" "c" "kody"),
   (2, .tokensIssue "f" ⟨"a0", "r0", "i0"⟩ "g" "c" "kody"),
   (3, .tokensRefresh ⟨"a1", "r1", "i1"⟩ "r0" "c"),
   (4, .tokensRefresh ⟨"a2", "r2", "i2"⟩ "r1" "c"),
   (5, .tokensRefresh ⟨"a3", "r3", "i3"⟩ "r1" "c")]

end KodyCelld.OAuth
