import KodyCelld.OAuth.Ledger

namespace KodyCelld.OAuth

open KodyCelld.Lib OAuthStore

/-!
# The store refines the ledger

* `tokenView_…` — what each statement of the store does to the row under a token text;
* `Ledger.view_…` — what each entry of the ledger does to the row it calls for;
* `matches_step` — an operation and its record keep `Matches` and `Ledger.Ok`;
* `matches_of_reaches` — so both hold after every run.
-/

variable {p : Platform} {s s' : OAuthStore} {L : Ledger}

/-! ### Statements, token by token -/

theorem hash_eq_iff {a b : Text} : p.sha256Hex a = p.sha256Hex b ↔ a = b :=
  p.sha256Hex_injective.eq_iff

/-- A filter that only reads the view of a row filters the views. -/
theorem tokenView_filter {keep : TokenRow → Bool} {keepView : TokenView → Bool}
    (hkeep : ∀ row, keep row = keepView (rowView p row)) (token : Text) :
    tokenView p { s with tokens := s.tokens.filter keep } token =
      (tokenView p s token).filter keepView := by
  unfold tokenView
  rw [Rows.find?_filter]
  cases s.tokens.find? (p.sha256Hex token) with
  | none => rfl
  | some row =>
    rw [Option.map_some, Option.filter_some, Option.filter_some, ← hkeep row]
    cases keep row <;> rfl

/-- An update that acts on the view of a row updates the views. -/
theorem tokenView_map {change : TokenRow → TokenRow}
    {hkey : ∀ row, (change row).tokenHash = row.tokenHash} {changeView : TokenView → TokenView}
    (hchange : ∀ row, rowView p (change row) = changeView (rowView p row)) (token : Text) :
    tokenView p { s with tokens := s.tokens.map change hkey } token =
      (tokenView p s token).map changeView := by
  unfold tokenView
  rw [Rows.find?_map, Option.map_map, Option.map_map]
  cases s.tokens.find? (p.sha256Hex token) with
  | none => rfl
  | some row => exact congrArg some (hchange row)

/-- What `purge` does to one row. -/
def clearView (now : ℕ) (v : TokenView) : TokenView :=
  match v.replacedAt with
  | some replacedAt =>
    if replacedAt + refreshReplayGraceMs ≤ now then { v with replay := none } else v
  | none => v

theorem tokenView_purge (now : ℕ) (token : Text) :
    tokenView p (purge now s) token =
      ((tokenView p s token).filter fun v => decide (now < v.expiresAt)).map (clearView now) := by
  have hfilter := @tokenView_filter p s (keepsToken now) (fun v => decide (now < v.expiresAt))
    (fun row => rfl) token
  rw [← hfilter]
  refine tokenView_map (s := { s with tokens := s.tokens.filter (keepsToken now) })
    (fun row => ?_) token
  obtain ⟨hash, kind, grantId, familyId, createdAt, expiresAt, replacedAt, replayJson⟩ := row
  cases replacedAt with
  | none => rfl
  | some replacedAt =>
    simp only [clearStaleReplay, clearView, rowView]
    split <;> rfl

theorem tokenView_familyRevoke (f token : Text) :
    tokenView p (familyRevoke f s) token =
      (tokenView p s token).filter fun v => decide (v.familyId ≠ f) :=
  @tokenView_filter p s (fun t => decide (t.familyId ≠ f)) (fun v => decide (v.familyId ≠ f))
    (fun _ => rfl) token

theorem tokenView_deleteToken (token u : Text) :
    tokenView p (deleteToken (p.sha256Hex token) s) u = if u = token then none else tokenView p s u := by
  unfold tokenView deleteToken
  rw [Rows.find?_filter]
  cases hrow : s.tokens.find? (p.sha256Hex u) with
  | none => simp
  | some row =>
    have hkey := (Rows.find?_eq_some.mp hrow).2
    by_cases hu : u = token
    · subst hu
      simp [hkey]
    · simp [hkey, hash_eq_iff, hu]

/-- The view of a row that was just minted. -/
def mintedView (now : ℕ) (kind : TokenKind) (grantId familyId : Text) : TokenView where
  kind := kind
  grantId := grantId
  familyId := familyId
  createdAt := now
  expiresAt := now + tokenTtlMs kind
  replacedAt := none
  replay := none

/-- A token text that has no row can be inserted, and nothing else changes. -/
theorem insertToken_of_absent {now : ℕ} {kind : TokenKind} {token g f : Text}
    (h : tokenView p s token = none) :
    ∃ tokens, insertToken p now kind token g f s = (.ok (), { s with tokens := tokens }) ∧
      (∀ row, row ∈ tokens.rows ↔ row ∈ s.tokens.rows ∨
        row = { tokenHash := p.sha256Hex token, kind := kind, grantId := g, familyId := f
                createdAt := now, expiresAt := now + tokenTtlMs kind
                replacedAt := none, replayJson := none }) ∧
      ∀ u, tokenView p { s with tokens := tokens } u =
        if u = token then some (mintedView now kind g f) else tokenView p s u := by
  have hfree : s.tokens.find? (p.sha256Hex token) = none := by
    unfold tokenView at h
    exact Option.map_eq_none_iff.mp h
  let new : TokenRow :=
    { tokenHash := p.sha256Hex token, kind := kind, grantId := g, familyId := f, createdAt := now
      expiresAt := now + tokenTtlMs kind, replacedAt := none, replayJson := none }
  obtain ⟨tokens, htokens⟩ : ∃ tokens, s.tokens.insert? new = some tokens :=
    Rows.exists_insert? hfree
  refine ⟨tokens, ?_, fun row => Rows.mem_insert? htokens, fun u => ?_⟩
  · unfold insertToken
    rw [htokens]
  · unfold tokenView
    rw [Rows.find?_insert? htokens]
    by_cases hu : u = token
    · rw [if_pos hu, if_pos (show new.tokenHash = p.sha256Hex u from congrArg _ hu.symm)]
      rfl
    · rw [if_neg hu, if_neg fun he => hu (hash_eq_iff.mp he).symm]

/-! ### Entries, token by token -/

namespace Ledger

/-- Where the row of a token comes from. -/
theorem view_eq_some {token : Text} {v : TokenView} :
    L.view token = some v ↔ ∃ kind f n F pair, L.minted token = some (kind, f, n) ∧
      L.families f = some F ∧ F.pairs[n]? = some pair ∧ L.pairView token kind f F n pair = some v := by
  unfold view
  cases hminted : L.minted token with
  | none => simp
  | some m =>
    obtain ⟨kind, f, n⟩ := m
    cases hfamily : L.families f with
    | none => simp [hfamily]
    | some F =>
      cases hpair : F.pairs[n]? with
      | none => simp [hfamily, hpair]
      | some pair => simp [hfamily, hpair]

theorem view_of_pair {token : Text} {kind : TokenKind} {f : Text} {n : ℕ} {F : Family} {pair : Pair}
    (hminted : L.minted token = some (kind, f, n)) (hfamily : L.families f = some F)
    (hpair : F.pairs[n]? = some pair) : L.view token = L.pairView token kind f F n pair := by
  simp only [view, hminted, hfamily, hpair]

/-- The fixed columns of the row at a position of a family. -/
theorem pairView_columns {token : Text} {kind : TokenKind} {f : Text} {n : ℕ} {F : Family}
    {pair : Pair} {v : TokenView} (h : L.pairView token kind f F n pair = some v) :
    v.kind = kind ∧ v.familyId = f ∧ v.grantId = F.grantId ∧
      v.expiresAt = pair.mintedAt + tokenTtlMs kind ∧ F.revoked = false ∧
      L.purgedAt < pair.mintedAt + tokenTtlMs kind := by
  unfold pairView at h
  split at h
  · exact absurd h (by simp)
  rename_i hlive
  rw [not_or, Bool.not_eq_true, not_le] at hlive
  cases kind with
  | access =>
    simp only at h
    split at h
    · rw [← Option.some.inj h]
      exact ⟨rfl, rfl, rfl, rfl, hlive⟩
    · exact absurd h (by simp)
  | refresh =>
    rw [← Option.some.inj h]
    exact ⟨rfl, rfl, rfl, rfl, hlive⟩

theorem pairView_purged {now : ℕ} (hle : L.purgedAt ≤ now) (token : Text) (kind : TokenKind)
    (f : Text) (F : Family) (n : ℕ) (pair : Pair) :
    (L.purged now).pairView token kind f F n pair =
      ((L.pairView token kind f F n pair).filter fun v => decide (now < v.expiresAt)).map
        (clearView now) := by
  unfold pairView purged
  by_cases hrevoked : F.revoked = true
  · simp [hrevoked]
  by_cases hold : pair.mintedAt + tokenTtlMs kind ≤ L.purgedAt
  · have hnew : pair.mintedAt + tokenTtlMs kind ≤ now := le_trans hold hle
    simp [hold, hnew]
  by_cases hnew : pair.mintedAt + tokenTtlMs kind ≤ now
  · cases kind with
    | access =>
      by_cases hlast : n + 1 = F.pairs.length ∧ L.revokedAccess token = false
      · simp [hrevoked, hold, hnew, hlast]
      · simp [hrevoked, hold, hnew, hlast]
    | refresh => simp [hrevoked, hold, hnew]
  · have hlt : now < pair.mintedAt + tokenTtlMs kind := Nat.lt_of_not_le hnew
    cases kind with
    | access =>
      by_cases hlast : n + 1 = F.pairs.length ∧ L.revokedAccess token = false
      · simp [hrevoked, hold, hnew, hlast, hlt, clearView]
      · simp [hrevoked, hold, hnew, hlast]
    | refresh =>
      simp only [hrevoked, hold, hnew, or_self, Bool.false_eq_true, if_false, Option.filter_some,
        hlt, decide_true, if_true, Option.map_some, Option.some.injEq, clearView]
      -- the snapshot of the last rotation goes when it is a minute old
      cases hnext : F.pairs[n + 1]? with
      | none => simp
      | some next =>
        by_cases hstale : next.mintedAt + refreshReplayGraceMs ≤ now
        · simp [hstale]
        · have hfresh : ¬ next.mintedAt + refreshReplayGraceMs ≤ L.purgedAt := by omega
          simp [hstale, hfresh]

theorem view_purged {now : ℕ} (hle : L.purgedAt ≤ now) (token : Text) :
    (L.purged now).view token =
      ((L.view token).filter fun v => decide (now < v.expiresAt)).map (clearView now) := by
  unfold view
  rw [show (L.purged now).minted token = L.minted token from rfl]
  cases hminted : L.minted token with
  | none => rfl
  | some m =>
    obtain ⟨kind, f, n⟩ := m
    dsimp only
    rw [show (L.purged now).families f = L.families f from rfl]
    cases hfamily : L.families f with
    | none => rfl
    | some F =>
      cases hpair : F.pairs[n]? with
      | none => simp only [hpair]; rfl
      | some pair =>
        simp only [hpair]
        exact pairView_purged hle token kind f F n pair

/-- What a row depends on besides its family. -/
theorem pairView_congr {L' : Ledger} {token : Text} (hpurged : L'.purgedAt = L.purgedAt)
    (hself : L'.revokedAccess token = L.revokedAccess token) (kind : TokenKind) (f : Text)
    (F : Family) (n : ℕ) (pair : Pair) :
    L'.pairView token kind f F n pair = L.pairView token kind f F n pair := by
  unfold pairView
  rw [hpurged, hself]

/-- Changing the families one by one, keeping their pairs, changes the views one by one. -/
theorem view_mapFamilies (change : Text → Family → Family) (keep : TokenView → Bool)
    (hpairs : ∀ f F, (change f F).pairs = F.pairs)
    (hview : ∀ token kind f F n pair,
      L.pairView token kind f (change f F) n pair =
        (L.pairView token kind f F n pair).filter keep) (token : Text) :
    ({ L with families := fun f => (L.families f).map (change f) } : Ledger).view token =
      (L.view token).filter keep := by
  refine Option.ext fun v => ?_
  rw [Option.filter_eq_some_iff, view_eq_some, view_eq_some]
  constructor
  · rintro ⟨kind, f, n, F', pair, hminted, hfamily, hpair, hv⟩
    obtain ⟨F, hF, rfl⟩ := Option.map_eq_some_iff.mp hfamily
    rw [hpairs] at hpair
    have hfiltered : (L.pairView token kind f F n pair).filter keep = some v :=
      (hview token kind f F n pair).symm.trans hv
    rw [Option.filter_eq_some_iff] at hfiltered
    exact ⟨⟨kind, f, n, F, pair, hminted, hF, hpair, hfiltered.1⟩, hfiltered.2⟩
  · rintro ⟨⟨kind, f, n, F, pair, hminted, hfamily, hpair, hv⟩, hkeep⟩
    refine ⟨kind, f, n, change f F, pair, hminted, ?_, ?_, ?_⟩
    · exact Option.map_eq_some_iff.mpr ⟨F, hfamily, rfl⟩
    · rw [hpairs]
      exact hpair
    · refine (hview token kind f F n pair).trans ?_
      rw [Option.filter_eq_some_iff]
      exact ⟨hv, hkeep⟩

/-- Nothing is left of a revoked family. -/
theorem pairView_revoked (token : Text) (kind : TokenKind) (f : Text) (F : Family) (n : ℕ)
    (pair : Pair) : L.pairView token kind f { F with revoked := true } n pair = none := by
  simp [pairView]

theorem view_revokeFamily (f token : Text) :
    (L.revokeFamily f).view token =
      (L.view token).filter fun v => decide (v.familyId ≠ f) := by
  refine view_mapFamilies (fun f' F => if f' = f then { F with revoked := true } else F) _
    (fun f' F => by split <;> rfl) (fun token kind f' F n pair => ?_) token
  cases hv : L.pairView token kind f' F n pair with
  | none =>
    split
    · exact pairView_revoked ..
    · rw [hv]; rfl
  | some v =>
    have hcolumn := (pairView_columns hv).2.1
    by_cases hf : f' = f
    · rw [if_pos hf, pairView_revoked, Option.filter_some, hcolumn]
      simp [hf]
    · rw [if_neg hf, hv, Option.filter_some, hcolumn]
      simp [hf]

theorem view_revokeGrant (g token : Text) :
    (L.revokeGrant g).view token = (L.view token).filter fun v => decide (v.grantId ≠ g) := by
  refine view_mapFamilies (fun _ F => if F.grantId = g then { F with revoked := true } else F) _
    (fun f' F => by split <;> rfl) (fun token kind f' F n pair => ?_) token
  cases hv : L.pairView token kind f' F n pair with
  | none =>
    split
    · exact pairView_revoked ..
    · rw [hv]; rfl
  | some v =>
    have hcolumn := (pairView_columns hv).2.2.1
    by_cases hg : F.grantId = g
    · rw [if_pos hg, pairView_revoked, Option.filter_some, hcolumn]
      simp [hg]
    · rw [if_neg hg, hv, Option.filter_some, hcolumn]
      simp [hg]

theorem view_revokeAccess {token f : Text} {n : ℕ}
    (hminted : L.minted token = some (.access, f, n)) (u : Text) :
    (L.revokeAccess token).view u = if u = token then none else L.view u := by
  have hrest : ∀ kind f n F pair, u ≠ token →
      (L.revokeAccess token).pairView u kind f F n pair = L.pairView u kind f F n pair :=
    fun kind f n F pair hu => pairView_congr (by rfl) (Function.update_of_ne hu ..) kind f F n pair
  by_cases hu : u = token
  · subst hu
    rw [if_pos rfl, Option.eq_none_iff_forall_ne_some]
    intro v hv
    obtain ⟨kind, f', n', F, pair, hm, -, -, hview⟩ := view_eq_some.mp hv
    obtain ⟨rfl, -, -⟩ : kind = .access ∧ f' = f ∧ n' = n := by
      have := (show L.minted u = _ from hm).symm.trans hminted
      simpa using this
    have hself : (L.revokeAccess u).revokedAccess u = true := Function.update_self ..
    unfold pairView at hview
    rw [hself] at hview
    simp at hview
  · rw [if_neg hu]
    refine Option.ext fun v => ?_
    rw [view_eq_some, view_eq_some]
    constructor
    · rintro ⟨kind, f, n, F, pair, hm, hF, hp, hv⟩
      exact ⟨kind, f, n, F, pair, hm, hF, hp, (hrest kind f n F pair hu) ▸ hv⟩
    · rintro ⟨kind, f, n, F, pair, hm, hF, hp, hv⟩
      exact ⟨kind, f, n, F, pair, hm, hF, hp, (hrest kind f n F pair hu).trans hv⟩

/-- The row the ledger calls for right after a minting. -/
theorem pairView_last {token : Text} {kind : TokenKind} {f : Text} {F : Family} {n : ℕ} {pair : Pair}
    (hlast : n + 1 = F.pairs.length) (hlive : F.revoked = false)
    (hpurged : L.purgedAt ≤ pair.mintedAt) (hself : L.revokedAccess token = false) :
    L.pairView token kind f F n pair = some (mintedView pair.mintedAt kind F.grantId f) := by
  have hpos : ¬ pair.mintedAt + tokenTtlMs kind ≤ L.purgedAt := by
    have : 0 < tokenTtlMs kind := by cases kind <;> decide
    omega
  have hnext : F.pairs[n + 1]? = none := List.getElem?_eq_none (by omega)
  unfold pairView
  rw [if_neg (by simp [hlive, hpos])]
  cases kind with
  | access => simp [hlast, hself, mintedView]
  | refresh => simp [hnext, mintedView]

/-- A token keeps its row when its family keeps its own. -/
theorem view_congr {L' : Ledger} {u : Text} (hminted : L'.minted u = L.minted u)
    (hfamilies : ∀ kind f n, L.minted u = some (kind, f, n) → L'.families f = L.families f)
    (hpurged : L'.purgedAt = L.purgedAt) (hself : L'.revokedAccess u = L.revokedAccess u) :
    L'.view u = L.view u := by
  refine Option.ext fun v => ?_
  rw [view_eq_some, view_eq_some]
  constructor
  · rintro ⟨kind, f, n, F, pair, hm, hF, hp, hv⟩
    rw [hminted] at hm
    exact ⟨kind, f, n, F, pair, hm, hfamilies kind f n hm ▸ hF, hp,
      pairView_congr hpurged hself kind f F n pair ▸ hv⟩
  · rintro ⟨kind, f, n, F, pair, hm, hF, hp, hv⟩
    exact ⟨kind, f, n, F, pair, hminted.trans hm, (hfamilies kind f n hm).trans hF, hp,
      (pairView_congr hpurged hself kind f F n pair).trans hv⟩

/-- A pair whose texts were never drawn before. -/
def FreshPair (L : Ledger) (pair : Pair) : Prop :=
  L.minted pair.response.accessToken = none ∧ L.minted pair.response.refreshToken = none ∧
    pair.response.accessToken ≠ pair.response.refreshToken

/-- Where the tokens of an added pair are, and where the others stay. -/
theorem minted_addTokens (pair : Pair) (f : Text) (n : ℕ) (u : Text) :
    (L.addTokens pair f n).minted u =
      if u = pair.response.refreshToken then some (.refresh, f, n)
      else if u = pair.response.accessToken then some (.access, f, n) else L.minted u := by
  unfold addTokens
  simp only [Function.update_apply]

theorem Ok.not_revoked (hok : L.Ok) {t : Text} (ht : L.minted t = none) :
    L.revokedAccess t = false := by
  by_contra hrevoked
  rw [Bool.not_eq_false] at hrevoked
  exact hok.revokedAccess t hrevoked ht

theorem view_addFamily (hok : L.Ok) {f g : Text} {pair : Pair} (hnew : L.families f = none)
    (hfresh : L.FreshPair pair) (hpurged : L.purgedAt ≤ pair.mintedAt) (u : Text) :
    (L.addFamily f g pair).view u =
      if u = pair.response.refreshToken then some (mintedView pair.mintedAt .refresh g f)
      else if u = pair.response.accessToken then some (mintedView pair.mintedAt .access g f)
      else L.view u := by
  obtain ⟨haccess, hrefresh, hne⟩ := hfresh
  have hself : ∀ t, L.minted t = none → (L.addFamily f g pair).revokedAccess t = false :=
    fun t ht => hok.not_revoked ht
  have hfamily : (L.addFamily f g pair).families f = some ⟨g, [pair], false⟩ :=
    Function.update_self ..
  have hminted : ∀ u, (L.addFamily f g pair).minted u =
      if u = pair.response.refreshToken then some (.refresh, f, 0)
      else if u = pair.response.accessToken then some (.access, f, 0) else L.minted u :=
    minted_addTokens pair f 0
  split_ifs with hr ha
  · subst hr
    rw [view_of_pair ((hminted _).trans (if_pos rfl)) hfamily rfl]
    exact pairView_last rfl rfl hpurged (hself _ hrefresh)
  · subst ha
    rw [view_of_pair ((hminted _).trans ((if_neg hr).trans (if_pos rfl))) hfamily rfl]
    exact pairView_last rfl rfl hpurged (hself _ haccess)
  · refine view_congr ((hminted u).trans ((if_neg hr).trans (if_neg ha))) (fun kind f' n hm => ?_)
      rfl rfl
    obtain ⟨F, -, hF, -⟩ := hok.minted u kind f' n hm
    have hne' : f' ≠ f := by
      rintro rfl
      exact absurd (hF.symm.trans hnew) (by simp)
    exact Function.update_of_ne hne' ..

/-- What a rotation does to the older rows of the family. -/
def retireView (f : Text) (v : TokenView) : TokenView :=
  if v.familyId = f then { v with replay := none } else v

def keptByRotation (f : Text) (v : TokenView) : Bool :=
  !(decide (v.familyId = f) && decide (v.kind = .access))

/-- What a rotation does to the row of the token it replaces. -/
def replacedView (now : ℕ) (response : TokenResponse) (v : TokenView) : TokenView :=
  { v with replacedAt := some now, replay := some response }

/-- The older rows of the family after a rotation of its last refresh token. -/
theorem pairView_addPair (hok : L.Ok) {f T : Text} {F : Family} {new : Pair}
    (hT : L.minted T = some (.refresh, f, F.pairs.length - 1)) (hF : L.families f = some F)
    (hpurged : L.purgedAt ≤ new.mintedAt) {u : Text} {kind : TokenKind} {n : ℕ} {pair : Pair}
    (hu : L.minted u = some (kind, f, n)) (hpair : F.pairs[n]? = some pair) :
    L.pairView u kind f { F with pairs := F.pairs ++ [new] } n pair =
      (((L.pairView u kind f F n pair).filter (keptByRotation f)).map (retireView f)).map
        fun v => if u = T then replacedView new.mintedAt new.response v else v := by
  have hlt : n < F.pairs.length := (List.getElem?_eq_some_iff.mp hpair).1
  unfold pairView
  by_cases hdead : F.revoked = true ∨ pair.mintedAt + tokenTtlMs kind ≤ L.purgedAt
  · simp [hdead]
  simp only [if_neg hdead]
  cases kind with
  | access =>
    have hlast : ¬ n + 1 = (F.pairs ++ [new]).length := by
      rw [List.length_append, List.length_singleton]
      omega
    dsimp only
    rw [if_neg fun h => hlast h.1]
    by_cases hold : n + 1 = F.pairs.length ∧ L.revokedAccess u = false
    · simp [hold, keptByRotation]
    · simp [hold]
  | refresh =>
    by_cases hsame : u = T
    · subst hsame
      have hn : n = F.pairs.length - 1 := by
        have := hu.symm.trans hT
        simpa using this
      have hnext : (F.pairs ++ [new])[n + 1]? = some new := by
        rw [show n + 1 = F.pairs.length by omega]
        exact List.getElem?_concat_length
      have hlength : n + 2 = (F.pairs ++ [new]).length := by
        rw [List.length_append, List.length_singleton]
        omega
      have hfresh : ¬ new.mintedAt + refreshReplayGraceMs ≤ L.purgedAt := by
        have : 0 < refreshReplayGraceMs := by decide
        omega
      simp [keptByRotation, retireView, replacedView, hnext, hlength, hfresh]
    · -- an older refresh token: it was replaced before, and its snapshot goes now
      have hn : n ≠ F.pairs.length - 1 := by
        rintro rfl
        obtain ⟨F', pair', hF', hpair', htoken⟩ := hok.minted T .refresh f _ hT
        obtain rfl : F' = F := Option.some.inj (hF'.symm.trans hF)
        obtain rfl : pair' = pair := Option.some.inj (hpair'.symm.trans hpair)
        obtain ⟨F'', pair'', hF'', hpair'', htoken'⟩ := hok.minted u .refresh f _ hu
        obtain rfl : F'' = F' := Option.some.inj (hF''.symm.trans hF)
        obtain rfl : pair'' = pair' := Option.some.inj (hpair''.symm.trans hpair)
        exact hsame (htoken'.symm.trans htoken)
      have hnext : (F.pairs ++ [new])[n + 1]? = F.pairs[n + 1]? :=
        List.getElem?_append_left (by omega)
      have hlength : ¬ n + 2 = (F.pairs ++ [new]).length := by
        rw [List.length_append, List.length_singleton]
        omega
      dsimp only
      rw [hnext, if_neg hlength]
      simp [keptByRotation, retireView, hsame]

theorem view_addPair (hok : L.Ok) {f T : Text} {F : Family} {new : Pair}
    (hT : L.minted T = some (.refresh, f, F.pairs.length - 1)) (hF : L.families f = some F)
    (hlive : F.revoked = false) (hfresh : L.FreshPair new) (hpurged : L.purgedAt ≤ new.mintedAt)
    (u : Text) :
    (L.addPair f F new).view u =
      if u = new.response.refreshToken then some (mintedView new.mintedAt .refresh F.grantId f)
      else if u = new.response.accessToken then some (mintedView new.mintedAt .access F.grantId f)
      else (((L.view u).filter (keptByRotation f)).map (retireView f)).map
        fun v => if u = T then replacedView new.mintedAt new.response v else v := by
  obtain ⟨haccess, hrefresh, hne⟩ := hfresh
  have hself : ∀ t, L.minted t = none → (L.addPair f F new).revokedAccess t = false :=
    fun t ht => hok.not_revoked ht
  have hfamily : (L.addPair f F new).families f = some { F with pairs := F.pairs ++ [new] } :=
    Function.update_self ..
  have hminted : ∀ u, (L.addPair f F new).minted u =
      if u = new.response.refreshToken then some (.refresh, f, F.pairs.length)
      else if u = new.response.accessToken then some (.access, f, F.pairs.length)
      else L.minted u :=
    minted_addTokens new f F.pairs.length
  have hlast : (F.pairs ++ [new])[F.pairs.length]? = some new := List.getElem?_concat_length
  have hlength : F.pairs.length + 1 = (F.pairs ++ [new]).length := by simp
  by_cases hr : u = new.response.refreshToken
  · rw [if_pos hr]
    rw [view_of_pair ((hminted _).trans (if_pos hr)) hfamily hlast]
    exact pairView_last hlength hlive hpurged (hself _ (hr ▸ hrefresh))
  by_cases ha : u = new.response.accessToken
  · rw [if_neg hr, if_pos ha]
    rw [view_of_pair ((hminted _).trans ((if_neg hr).trans (if_pos ha))) hfamily hlast]
    exact pairView_last hlength hlive hpurged (hself _ (ha ▸ haccess))
  · rw [if_neg hr, if_neg ha]
    have hu : (L.addPair f F new).minted u = L.minted u :=
      (hminted u).trans ((if_neg hr).trans (if_neg ha))
    cases hm : L.minted u with
    | none => simp only [view, hu, hm, Option.filter_none, Option.map_none]
    | some m =>
      obtain ⟨kind, f', n⟩ := m
      obtain ⟨F', pair, hF', hpair, -⟩ := hok.minted u kind f' n hm
      have hview := view_of_pair hm hF' hpair
      by_cases hf : f' = f
      · subst hf
        obtain rfl : F' = F := Option.some.inj (hF'.symm.trans hF)
        have hlt : n < F'.pairs.length := (List.getElem?_eq_some_iff.mp hpair).1
        have hpair' : (F'.pairs ++ [new])[n]? = some pair :=
          (List.getElem?_append_left hlt).trans hpair
        rw [view_of_pair (hu.trans hm) hfamily hpair', hview]
        exact (pairView_congr rfl rfl kind f' _ n pair).trans
          (pairView_addPair hok hT hF hpurged hm hpair)
      · have hother : (L.addPair f F new).view u = L.view u := by
          refine view_congr hu (fun kind' f'' n' hm' => ?_) rfl rfl
          have hf'' : f'' = f' := by
            have := hm'.symm.trans hm
            simp only [Option.some.injEq, Prod.mk.injEq] at this
            exact this.2.1
          exact Function.update_of_ne (hf''.trans_ne hf) ..
        have hT' : u ≠ T := by
          rintro rfl
          have := hm.symm.trans hT
          simp only [Option.some.injEq, Prod.mk.injEq] at this
          exact hf this.2.1
        rw [hother, hview]
        cases hv : L.pairView u kind f' F' n pair with
        | none => rfl
        | some v =>
          have hcolumn : v.familyId ≠ f := fun h => hf ((pairView_columns hv).2.1.symm.trans h)
          simp [keptByRotation, retireView, hcolumn, hT']

theorem liveGrant_revokeGrant (g g' : Text) :
    (L.revokeGrant g).liveGrant g' = if g' = g then none else L.liveGrant g' := by
  unfold liveGrant revokeGrant
  cases hG : L.grants g' with
  | none => simp [hG]
  | some G => by_cases hg : g' = g <;> simp [hG, hg]

theorem liveGrant_addGrant {id userId clientId : Text} (g : Text) :
    (L.addGrant id userId clientId).liveGrant g =
      if g = id then some (userId, clientId) else L.liveGrant g := by
  unfold liveGrant addGrant
  by_cases hg : g = id
  · subst hg
    simp
  · simp [hg]

/-! ### Entries keep the ledger consistent -/

theorem Ok.at_now (hok : L.Ok) {now : ℕ} (hle : L.now ≤ now) : ({ L with now := now } : Ledger).Ok :=
  { hok with purgedAt := le_trans hok.purgedAt hle }

theorem Ok.purged (hok : L.Ok) : (L.purged L.now).Ok :=
  { hok with purgedAt := le_refl _ }

theorem Ok.addGrant (hok : L.Ok) {id userId clientId : Text} (hnew : L.grants id = none) :
    (L.addGrant id userId clientId).Ok := by
  have hkeep : ∀ {g G}, L.grants g = some G → (L.addGrant id userId clientId).grants g = some G := by
    intro g G hG
    have hne : g ≠ id := by
      rintro rfl
      exact absurd (hG.symm.trans hnew) (by simp)
    exact (Function.update_of_ne hne ..).trans hG
  refine { hok with grants := fun f F hF => ?_, single := fun f F G hF hlive hG hrevoked => ?_ }
  · obtain ⟨G, hG⟩ := hok.grants f F hF
    exact ⟨G, hkeep hG⟩
  · obtain ⟨G', hG'⟩ := hok.grants f F hF
    obtain rfl : G' = G := Option.some.inj ((hkeep hG').symm.trans hG)
    exact hok.single f F G' hF hlive hG' hrevoked

/-- A token that was handed out keeps its place when a fresh pair is added. -/
theorem minted_addTokens_of_minted {pair : Pair} {f u : Text} {n : ℕ} (hfresh : L.FreshPair pair)
    {m : TokenKind × Text × ℕ} (hu : L.minted u = some m) :
    (L.addTokens pair f n).minted u = some m := by
  obtain ⟨haccess, hrefresh, -⟩ := hfresh
  rw [minted_addTokens, if_neg, if_neg, hu]
  · rintro rfl
    exact absurd (hu.symm.trans haccess) (by simp)
  · rintro rfl
    exact absurd (hu.symm.trans hrefresh) (by simp)

/-- Where the tokens of the added pair are. -/
theorem minted_addTokens_self {pair : Pair} {f : Text} {n : ℕ} (hfresh : L.FreshPair pair)
    (kind : TokenKind) : (L.addTokens pair f n).minted (pair.token kind) = some (kind, f, n) := by
  rw [minted_addTokens]
  cases kind with
  | access => exact (if_neg hfresh.2.2).trans (if_pos rfl)
  | refresh => exact if_pos rfl

/-- A text with a place after a pair was added is one of the pair, or had its place before. -/
theorem minted_addTokens_cases {pair : Pair} {f u : Text} {n : ℕ} {m : TokenKind × Text × ℕ}
    (h : (L.addTokens pair f n).minted u = some m) :
    (∃ kind, u = pair.token kind ∧ m = (kind, f, n)) ∨ L.minted u = some m := by
  rw [minted_addTokens] at h
  split_ifs at h with hr ha
  · exact .inl ⟨.refresh, hr, (Option.some.inj h).symm⟩
  · exact .inl ⟨.access, ha, (Option.some.inj h).symm⟩
  · exact .inr h

/-- **Adding a pair to a family**, new or old, keeps the ledger consistent. -/
theorem Ok.addTokens (hok : L.Ok) {f : Text} {F : Family} (pairs : List Pair) {pair : Pair}
    (hfresh : L.FreshPair pair) (hold : ∀ F', L.families f = some F' → F'.pairs = pairs)
    (hnew : L.families f = none → pairs = []) (hpairs : F.pairs = pairs ++ [pair])
    (hgrant : ∃ G, L.grants F.grantId = some G)
    (hsingle : ∀ G, F.revoked = false → L.grants F.grantId = some G → G.revoked = true →
      pairs = []) :
    (Ledger.addTokens pair f pairs.length
      { L with families := Function.update L.families f (some F) }).Ok := by
  have hself : Function.update L.families f (some F) f = some F := Function.update_self ..
  have hother : ∀ {f'}, f' ≠ f → Function.update L.families f (some F) f' = L.families f' :=
    fun hne => Function.update_of_ne hne ..
  have hcases : ∀ {f' F'}, Function.update L.families f (some F) f' = some F' →
      (f' = f ∧ F' = F) ∨ (f' ≠ f ∧ L.families f' = some F') := by
    intro f' F' h
    by_cases hf : f' = f
    · subst hf
      exact .inl ⟨rfl, (Option.some.inj (hself.symm.trans h)).symm⟩
    · exact .inr ⟨hf, (hother hf).symm.trans h⟩
  refine ⟨fun token kind f' n hm => ?_, fun f' F' n q hF' hq kind => ?_, fun f' F' hF' => ?_,
    fun f' F' hF' => ?_, fun f' F' G hF' hlive hG hrevoked => ?_, fun token ht => ?_, hok.purgedAt⟩
  · rcases minted_addTokens_cases hm with ⟨kind', rfl, heq⟩ | hm
    · obtain ⟨rfl, rfl, rfl⟩ : kind = kind' ∧ f' = f ∧ n = pairs.length := by simpa using heq
      refine ⟨F, pair, hself, ?_, rfl⟩
      rw [hpairs]
      exact List.getElem?_concat_length
    · obtain ⟨F', q, hF', hq, htoken⟩ := hok.minted token kind f' n hm
      by_cases hf : f' = f
      · subst hf
        refine ⟨F, q, hself, ?_, htoken⟩
        rw [hold F' hF'] at hq
        rw [hpairs, List.getElem?_append_left (List.getElem?_eq_some_iff.mp hq).1]
        exact hq
      · exact ⟨F', q, (hother hf).trans hF', hq, htoken⟩
  · rcases hcases hF' with ⟨rfl, rfl⟩ | ⟨hf, hF'⟩
    · rw [hpairs] at hq
      by_cases hn : n < pairs.length
      · rw [List.getElem?_append_left hn] at hq
        cases hfam : L.families f' with
        | none =>
          rw [hnew hfam] at hn
          exact absurd hn (by simp)
        | some F'' =>
          have hq' : F''.pairs[n]? = some q := (hold F'' hfam).symm ▸ hq
          exact minted_addTokens_of_minted hfresh (hok.pairs f' F'' n q hfam hq' kind)
      · have hlen : n = pairs.length := by
          have := (List.getElem?_eq_some_iff.mp hq).1
          rw [List.length_append, List.length_singleton] at this
          omega
        subst hlen
        rw [List.getElem?_concat_length, Option.some.injEq] at hq
        subst hq
        exact minted_addTokens_self hfresh kind
    · exact minted_addTokens_of_minted hfresh (hok.pairs f' F' n q hF' hq kind)
  · rcases hcases hF' with ⟨rfl, rfl⟩ | ⟨-, hF'⟩
    · rw [hpairs]
      simp
    · exact hok.nonempty f' F' hF'
  · rcases hcases hF' with ⟨rfl, rfl⟩ | ⟨-, hF'⟩
    · exact hgrant
    · exact hok.grants f' F' hF'
  · rcases hcases hF' with ⟨rfl, rfl⟩ | ⟨-, hF'⟩
    · rw [hpairs, hsingle G hlive hG hrevoked]
      rfl
    · exact hok.single f' F' G hF' hlive hG hrevoked
  · intro hnone
    refine hok.revokedAccess token ht ?_
    by_contra hm
    obtain ⟨m, hm⟩ := Option.ne_none_iff_exists'.mp hm
    exact absurd ((minted_addTokens_of_minted hfresh hm).symm.trans hnone) (by simp)

theorem Ok.addFamily (hok : L.Ok) {f g : Text} {pair : Pair} (hnew : L.families f = none)
    (hfresh : L.FreshPair pair) (hgrant : ∃ G, L.grants g = some G) : (L.addFamily f g pair).Ok :=
  hok.addTokens [] hfresh (fun F' hF' => absurd (hF'.symm.trans hnew) (by simp))
    (fun _ => rfl) rfl hgrant fun _ _ _ _ => rfl

theorem Ok.addPair (hok : L.Ok) {f : Text} {F : Family} {pair : Pair} (hF : L.families f = some F)
    (hfresh : L.FreshPair pair) (hgrant : (L.liveGrant F.grantId).isSome) :
    (L.addPair f F pair).Ok := by
  refine hok.addTokens F.pairs hfresh (fun F' hF' => ?_) (fun hnone => ?_) rfl (hok.grants f F hF)
    fun G _ hG hrevoked => ?_
  · rw [Option.some.inj (hF'.symm.trans hF)]
  · exact absurd (hF.symm.trans hnone) (by simp)
  · have hdead : L.liveGrant F.grantId = none := by
      unfold liveGrant
      rw [show L.grants F.grantId = some G from hG, Option.bind_some, if_pos hrevoked]
    rw [hdead] at hgrant
    exact absurd hgrant (by simp)

/-- Revoking families one by one keeps the ledger consistent. -/
theorem Ok.mapFamilies (hok : L.Ok) (doomed : Text → Family → Prop)
    [∀ f F, Decidable (doomed f F)] :
    ({ L with families := fun f => (L.families f).map fun F =>
        if doomed f F then { F with revoked := true } else F } : Ledger).Ok := by
  have hkeep : ∀ {f F'}, (L.families f).map
      (fun F => if doomed f F then { F with revoked := true } else F) = some F' →
      ∃ F, L.families f = some F ∧ F'.pairs = F.pairs ∧ F'.grantId = F.grantId ∧
        (F'.revoked = false → F.revoked = false) := by
    intro f F' h
    obtain ⟨F, hF, rfl⟩ := Option.map_eq_some_iff.mp h
    refine ⟨F, hF, ?_⟩
    split <;> simp
  refine { hok with
    minted := fun token kind f n hm => ?_, pairs := fun f F' n pair hF' hpair kind => ?_
    nonempty := fun f F' hF' => ?_, grants := fun f F' hF' => ?_
    single := fun f F' G hF' hlive hG hrevoked => ?_ }
  · obtain ⟨F, pair, hF, hpair, htoken⟩ := hok.minted token kind f n hm
    refine ⟨_, pair, Option.map_eq_some_iff.mpr ⟨F, hF, rfl⟩, ?_, htoken⟩
    split <;> exact hpair
  · obtain ⟨F, hF, hpairs, -, -⟩ := hkeep hF'
    exact hok.pairs f F n pair hF (hpairs ▸ hpair) kind
  · obtain ⟨F, hF, hpairs, -, -⟩ := hkeep hF'
    exact hpairs ▸ hok.nonempty f F hF
  · obtain ⟨F, hF, -, hgrant, -⟩ := hkeep hF'
    exact hgrant ▸ hok.grants f F hF
  · obtain ⟨F, hF, hpairs, hgrant, hrev⟩ := hkeep hF'
    rw [hpairs]
    exact hok.single f F G hF (hrev hlive) (hgrant ▸ hG) hrevoked

theorem Ok.revokeFamily (hok : L.Ok) (f : Text) : (L.revokeFamily f).Ok :=
  hok.mapFamilies fun f' _ => f' = f

theorem Ok.revokeAccess (hok : L.Ok) {token : Text} (hminted : L.minted token ≠ none) :
    (L.revokeAccess token).Ok := by
  refine { hok with revokedAccess := fun t ht => ?_ }
  by_cases hne : t = token
  · exact hne ▸ hminted
  · exact hok.revokedAccess t ((Function.update_of_ne hne ..).symm.trans ht)

theorem Ok.revokeGrant (hok : L.Ok) (g : Text) : (L.revokeGrant g).Ok := by
  have hfamilies := hok.mapFamilies fun _ F => F.grantId = g
  refine { hfamilies with
    grants := fun f F hF => ?_, single := fun f F G hF hlive hG hrevoked => ?_ }
  · obtain ⟨G, hG⟩ := hfamilies.grants f F hF
    exact ⟨_, Option.map_eq_some_iff.mpr ⟨G, hG, rfl⟩⟩
  · obtain ⟨G', hG', rfl⟩ := Option.map_eq_some_iff.mp hG
    by_cases hg : F.grantId = g
    · -- the families of this grant were all revoked with it
      obtain ⟨F', -, rfl⟩ := Option.map_eq_some_iff.mp hF
      by_cases hg' : F'.grantId = g
      · rw [if_pos hg'] at hlive
        exact absurd hlive (by simp)
      · rw [if_neg hg'] at hg
        exact absurd hg hg'
    · rw [if_neg hg] at hrevoked
      exact hfamilies.single f F G' hF hlive hG' hrevoked

end Ledger

/-! ### Operations keep the refinement -/

theorem Matches.at_now (h : Matches p s L) (now : ℕ) : Matches p s { L with now := now } :=
  ⟨h.tokens, h.hashed, h.grants, h.clients⟩

theorem Matches.purge (h : Matches p s L) {now : ℕ} (hle : L.purgedAt ≤ now) :
    Matches p (purge now s) (L.purged now) := by
  refine ⟨fun token => ?_, fun row hrow => ?_, h.grants, fun g hg => ?_⟩
  · rw [tokenView_purge, h.tokens, Ledger.view_purged hle]
  · obtain ⟨old, hold, rfl⟩ := List.mem_map.mp hrow
    rw [clearStaleReplay_hash]
    exact h.hashed old (Rows.mem_filter.mp hold).1
  · obtain ⟨client, hclient⟩ := Option.isSome_iff_exists.mp (h.clients g hg)
    have hid := (Rows.find?_eq_some.mp hclient).2
    have hkept : keepsClient now s.grants.rows client = true := by
      unfold keepsClient
      rw [Bool.or_eq_true, List.any_eq_true]
      exact .inr ⟨g, hg, by simp [hid]⟩
    show ((s.clients.filter (keepsClient now s.grants.rows)).find? g.clientId).isSome
    rw [Rows.find?_filter, hclient, Option.filter_some, if_pos hkept]
    rfl

/-- An update of clients that keeps every client keeps the refinement. -/
theorem Matches.of_clients (h : Matches p s L) {clients : Rows ClientRow.clientId}
    (hclients : ∀ id, (s.clients.find? id).isSome → (clients.find? id).isSome) :
    Matches p { s with clients := clients } L :=
  ⟨h.tokens, h.hashed, h.grants, fun g hg => hclients _ (h.clients g hg)⟩

theorem Matches.touchClient (h : Matches p s L) (now : ℕ) (clientId : Text) :
    Matches p (touchClient now clientId s) L := by
  refine h.of_clients fun id hid => ?_
  rw [Rows.find?_map, Option.isSome_map]
  exact hid

/-- An update of grants that keeps their users and clients keeps the refinement. -/
theorem Matches.mapGrants (h : Matches p s L) {change : GrantRow → GrantRow}
    {hkey : ∀ g, (change g).id = g.id} (huser : ∀ g, (change g).userId = g.userId)
    (hclient : ∀ g, (change g).clientId = g.clientId) :
    Matches p { s with grants := s.grants.map change hkey } L := by
  refine ⟨h.tokens, h.hashed, fun g => ?_, fun g hg => ?_⟩
  · rw [Rows.find?_map, Option.map_map, ← h.grants g]
    refine congrArg (fun view => (s.grants.find? g).map view) ?_
    funext row
    rw [Function.comp_apply, huser, hclient]
  · obtain ⟨old, hold, rfl⟩ := List.mem_map.mp hg
    rw [hclient]
    exact h.clients old hold

theorem Matches.touchGrant (h : Matches p s L) (now : ℕ) (grantId : Text) :
    Matches p (touchGrant now grantId s) L :=
  h.mapGrants (fun g => by split <;> rfl) (fun g => by split <;> rfl)

/-- Deleting tokens keeps the refinement when the views agree. -/
theorem Matches.of_tokens (h : Matches p s L) {tokens : Rows TokenRow.tokenHash} {L' : Ledger}
    (hview : ∀ u, tokenView p { s with tokens := tokens } u = L'.view u)
    (hrows : ∀ row ∈ tokens.rows, ∃ token, row.tokenHash = p.sha256Hex token)
    (hgrants : L'.grants = L.grants) : Matches p { s with tokens := tokens } L' := by
  refine ⟨hview, hrows, fun g => ?_, h.clients⟩
  rw [show L'.liveGrant g = L.liveGrant g by unfold Ledger.liveGrant; rw [hgrants]]
  exact h.grants g

theorem Matches.familyRevoke (h : Matches p s L) (f : Text) :
    Matches p (familyRevoke f s) (L.revokeFamily f) := by
  refine h.of_tokens (fun u => ?_) (fun row hrow => h.hashed row (Rows.mem_filter.mp hrow).1) rfl
  rw [Ledger.view_revokeFamily, ← h.tokens]
  exact tokenView_familyRevoke f u

theorem Matches.deleteToken (h : Matches p s L) {token f : Text} {n : ℕ}
    (hminted : L.minted token = some (.access, f, n)) :
    Matches p (deleteToken (p.sha256Hex token) s) (L.revokeAccess token) := by
  refine h.of_tokens (fun u => ?_) (fun row hrow => h.hashed row (Rows.mem_filter.mp hrow).1) rfl
  rw [Ledger.view_revokeAccess hminted, ← h.tokens]
  exact tokenView_deleteToken token u

theorem Matches.deleteGrant (h : Matches p s L) (g : Text) :
    Matches p { s with
      tokens := s.tokens.filter fun t => decide (t.grantId ≠ g)
      grants := s.grants.filter fun r => decide (r.id ≠ g) } (L.revokeGrant g) := by
  refine ⟨fun u => ?_, fun row hrow => h.hashed row (Rows.mem_filter.mp hrow).1, fun g' => ?_,
    fun row hrow => h.clients row (Rows.mem_filter.mp hrow).1⟩
  · rw [Ledger.view_revokeGrant, ← h.tokens]
    exact @tokenView_filter p s (fun t => decide (t.grantId ≠ g)) (fun v => decide (v.grantId ≠ g))
      (fun _ => rfl) u
  · rw [Rows.find?_filter, Ledger.liveGrant_revokeGrant, ← h.grants g']
    cases hrow : s.grants.find? g' with
    | none => simp
    | some row =>
      have hid := (Rows.find?_eq_some.mp hrow).2
      by_cases hg : g' = g
      · simp [hid, hg]
      · simp [hid, hg]

/-- A fresh pair goes in: the two rows are there, the others as before. -/
theorem mintPair_of_fresh {now : ℕ} {draw : TokenDraw} {g f scope : Text}
    (haccess : tokenView p s draw.access = none) (hrefresh : tokenView p s draw.refresh = none)
    (hne : draw.access ≠ draw.refresh) :
    ∃ tokens, mintPair p now draw g f scope s =
        (.ok (TokenDraw.response draw scope), touchGrant now g { s with tokens := tokens }) ∧
      (∀ row ∈ tokens.rows, row ∈ s.tokens.rows ∨ ∃ token, row.tokenHash = p.sha256Hex token) ∧
      ∀ u, tokenView p { s with tokens := tokens } u =
        if u = draw.refresh then some (mintedView now .refresh g f)
        else if u = draw.access then some (mintedView now .access g f) else tokenView p s u := by
  obtain ⟨first, hfirst, hrows, hview⟩ :=
    @insertToken_of_absent p s now .access draw.access g f haccess
  have habsent : tokenView p { s with tokens := first } draw.refresh = none := by
    rw [hview, if_neg hne.symm, hrefresh]
  obtain ⟨second, hsecond, hrows', hview'⟩ :=
    @insertToken_of_absent p { s with tokens := first } now .refresh draw.refresh g f habsent
  refine ⟨second, ?_, fun row hrow => ?_, fun u => ?_⟩
  · unfold mintPair
    rw [hfirst]
    simp only [hsecond]
  · rcases (hrows' row).mp hrow with hrow | rfl
    · rcases (hrows row).mp hrow with hrow | rfl
      · exact .inl hrow
      · exact .inr ⟨draw.access, rfl⟩
    · exact .inr ⟨draw.refresh, rfl⟩
  · rw [show tokenView p { s with tokens := second } u = _ from hview' u]
    split
    · rfl
    · exact hview u

/-- A text that was never handed out has no row. -/
theorem Matches.absent (h : Matches p s L) {token : Text} (hminted : L.minted token = none) :
    tokenView p s token = none := by
  rw [h.tokens]
  simp only [Ledger.view, hminted]

/-! ### A refresh, as the ledger sees it -/

section
variable {now : ℕ} {token clientId f : Text} {n : ℕ} {F : Family} {pair : Pair}

/-- The joined row a presented token has, just after a clean-up. -/
theorem Matches.presented (h : Matches p s L) (hnow : L.purgedAt = now)
    (hp : L.Presents now token clientId f n F pair) :
    ∃ row grant, s.tokens.find? (p.sha256Hex token) = some row ∧
      s.grants.find? row.grantId = some grant ∧ row.kind = .refresh ∧ grant.clientId = clientId ∧
      now < row.expiresAt ∧ row.familyId = f ∧ row.grantId = F.grantId ∧
      row.replacedAt = (F.pairs[n + 1]?).map Pair.mintedAt ∧
      row.replayJson.bind p.openReplay =
        if n + 2 = F.pairs.length then
          (F.pairs[n + 1]?).bind fun next =>
            if next.mintedAt + refreshReplayGraceMs ≤ now then none else some next.response
        else none := by
  subst hnow
  have hview := h.tokens token
  rw [Ledger.view_of_pair hp.minted hp.family hp.position, Ledger.pairView,
    if_neg (by simp [hp.live, hp.unexpired])] at hview
  obtain ⟨row, hrow, heq⟩ := Option.map_eq_some_iff.mp hview
  rw [rowView, TokenView.mk.injEq] at heq
  obtain ⟨hkind, hgrantId, hfamily, -, hexpires, hreplaced, hreplay⟩ := heq
  obtain ⟨userId, hgrant⟩ := hp.grant
  rw [← h.grants F.grantId, ← hgrantId] at hgrant
  obtain ⟨grant, hfind, hpair⟩ := Option.map_eq_some_iff.mp hgrant
  rw [Prod.mk.injEq] at hpair
  exact ⟨row, grant, hrow, hfind, hkind, hpair.2, hexpires ▸ hp.unexpired, hfamily, hgrantId,
    hreplaced, hreplay⟩

/-- Anything else a client presents is unknown to the store. -/
theorem Matches.lookup_unknown (h : Matches p s L) (hnow : L.purgedAt = now)
    (hno : ∀ f n F pair, ¬ L.Presents now token clientId f n F pair) :
    refreshLookup now (p.sha256Hex token) clientId s = (.refused unknownRefresh, s) := by
  subst hnow
  unfold refreshLookup
  cases hrow : s.tokens.find? (p.sha256Hex token) with
  | none => rfl
  | some row =>
    have hview : L.view token = some (rowView p row) := by
      rw [← h.tokens, tokenView, hrow]
      rfl
    obtain ⟨kind, f, n, F, pair, hminted, hfamily, hpair, hv⟩ := Ledger.view_eq_some.mp hview
    obtain ⟨hkind, -, hgrantId, -, hlive, hunexpired⟩ := Ledger.pairView_columns hv
    have hgrants := h.grants F.grantId
    rw [← show row.grantId = F.grantId from hgrantId] at hgrants
    dsimp only
    cases hgrant : s.grants.find? row.grantId with
    | none => rfl
    | some grant =>
      dsimp only
      rw [if_pos]
      by_contra hown
      rw [not_or, not_ne_iff, not_ne_iff] at hown
      obtain rfl : kind = .refresh := hkind.symm.trans hown.1
      rw [hgrant, show row.grantId = F.grantId from hgrantId, Option.map_some, hown.2] at hgrants
      exact hno f n F pair ⟨hminted, hfamily, hpair, ⟨_, hgrants.symm⟩, hlive, hunexpired⟩

/-- The last refresh token of a family is rotated. -/
theorem Matches.lookup_rotates (h : Matches p s L) (hnow : L.purgedAt = now)
    (hp : L.Presents now token clientId f n F pair) (hlast : n + 1 = F.pairs.length) :
    ∃ row scope, row.familyId = f ∧ row.grantId = F.grantId ∧
      refreshLookup now (p.sha256Hex token) clientId s = (.rotate row scope, retireFamily f s) := by
  obtain ⟨row, grant, hrow, hgrant, hkind, hclient, hexpires, hfamily, hgrantId, hreplaced, -⟩ :=
    h.presented hnow hp
  have hnone : F.pairs[n + 1]? = none := List.getElem?_eq_none (by omega)
  rw [hnone, Option.map_none] at hreplaced
  refine ⟨row, grant.scope, hfamily, hgrantId, ?_⟩
  simp only [refreshLookup, hrow, hgrant, hkind, hclient, hreplaced, ne_eq, not_true_eq_false,
    or_self, if_false, if_neg (Nat.not_le.mpr hexpires), hfamily]

/-- The one before it, within a minute of its rotation, replays that rotation's pair. -/
theorem Matches.lookup_replays (h : Matches p s L) (hnow : L.purgedAt = now)
    (hp : L.Presents now token clientId f n F pair) {next : Pair}
    (hnext : F.pairs[n + 1]? = some next) (hlast : n + 2 = F.pairs.length)
    (hgrace : now < next.mintedAt + refreshReplayGraceMs) :
    ∃ json, p.openReplay json = some next.response ∧
      refreshLookup now (p.sha256Hex token) clientId s = (.replay f json, s) := by
  obtain ⟨row, grant, hrow, hgrant, hkind, hclient, hexpires, hfamily, -, hreplaced, hreplay⟩ :=
    h.presented hnow hp
  rw [hnext, Option.map_some] at hreplaced
  rw [if_pos hlast, hnext, Option.bind_some, if_neg (Nat.not_le.mpr hgrace)] at hreplay
  obtain ⟨json, hjson, hopen⟩ := Option.bind_eq_some_iff.mp hreplay
  refine ⟨json, hopen, ?_⟩
  simp only [refreshLookup, hrow, hgrant, hkind, hclient, hreplaced, hjson, ne_eq,
    not_true_eq_false, or_self, if_false, if_neg (Nat.not_le.mpr hexpires), if_pos hgrace.le, hfamily]

/-- Any other replaced token has no snapshot that opens. -/
theorem Matches.lookup_reused (h : Matches p s L) (hnow : L.purgedAt = now)
    (hp : L.Presents now token clientId f n F pair) {next : Pair}
    (hnext : F.pairs[n + 1]? = some next)
    (hother : ¬ (n + 2 = F.pairs.length ∧ now < next.mintedAt + refreshReplayGraceMs)) :
    refreshLookup now (p.sha256Hex token) clientId s =
        (.refused reusedRefresh, OAuthStore.familyRevoke f s) ∨
      ∃ json, p.openReplay json = none ∧
        refreshLookup now (p.sha256Hex token) clientId s = (.replay f json, s) := by
  obtain ⟨row, grant, hrow, hgrant, hkind, hclient, hexpires, hfamily, -, hreplaced, hreplay⟩ :=
    h.presented hnow hp
  rw [hnext, Option.map_some] at hreplaced
  have hnone : row.replayJson.bind p.openReplay = none := by
    rw [hreplay]
    split
    · rename_i hlast
      rw [hnext, Option.bind_some, if_pos]
      by_contra hgrace
      exact hother ⟨hlast, Nat.lt_of_not_le hgrace⟩
    · rfl
  cases hjson : row.replayJson with
  | none =>
    left
    simp only [refreshLookup, hrow, hgrant, hkind, hclient, hreplaced, hjson, ne_eq,
      not_true_eq_false, or_self, if_false, if_neg (Nat.not_le.mpr hexpires), hfamily]
  | some json =>
    rw [hjson, Option.bind_some] at hnone
    by_cases hgrace : now ≤ next.mintedAt + refreshReplayGraceMs
    · right
      refine ⟨json, hnone, ?_⟩
      simp only [refreshLookup, hrow, hgrant, hkind, hclient, hreplaced, hjson, ne_eq,
        not_true_eq_false, or_self, if_false, if_neg (Nat.not_le.mpr hexpires), if_pos hgrace,
        hfamily]
    · left
      simp only [refreshLookup, hrow, hgrant, hkind, hclient, hreplaced, hjson, ne_eq,
        not_true_eq_false, or_self, if_false, if_neg (Nat.not_le.mpr hexpires), if_neg hgrace,
        hfamily]

end

/-! ### The operations -/

theorem tokenView_retireFamily (f token : Text) :
    tokenView p (retireFamily f s) token =
      ((tokenView p s token).filter (Ledger.keptByRotation f)).map (Ledger.retireView f) := by
  rw [← @tokenView_filter p s
    (fun t => !(decide (t.familyId = f) && decide (t.kind = .access))) (Ledger.keptByRotation f)
    (fun _ => rfl) token]
  refine @tokenView_map p { s with tokens := s.tokens.filter _ }
    (fun t => if t.familyId = f then { t with replayJson := none } else t) _ (Ledger.retireView f)
    (fun row => ?_) token
  unfold Ledger.retireView rowView
  by_cases hf : row.familyId = f
  · simp [hf]
  · simp [hf]

theorem tokenView_markReplaced {now : ℕ} {token iv : Text} {response : TokenResponse} (u : Text) :
    tokenView p (markReplaced now (p.sha256Hex token) (p.sealReplay iv response) s) u =
      (tokenView p s u).map fun v => if u = token then Ledger.replacedView now response v else v := by
  unfold tokenView markReplaced
  rw [Rows.find?_map]
  cases hrow : s.tokens.find? (p.sha256Hex u) with
  | none => rfl
  | some row =>
    have hkey := (Rows.find?_eq_some.mp hrow).2
    simp only [Option.map_some, hkey, hash_eq_iff]
    by_cases hu : u = token
    · simp [hu, rowView, Ledger.replacedView, p.open_seal]
    · simp [hu]

/-- The tables besides the tokens that a rotation or an issue leaves alone or only stamps. -/
theorem Matches.issue (h : Matches p s L) (hok : L.Ok) {now : ℕ} {f g scope : Text}
    {draw : TokenDraw} (hnow : L.purgedAt ≤ now) (hnew : L.families f = none)
    (hfresh : L.FreshPair ⟨TokenDraw.response draw scope, now⟩) :
    ∃ s', mintPair p now draw g f scope s = (.ok (TokenDraw.response draw scope), s') ∧
      Matches p s' (L.addFamily f g ⟨TokenDraw.response draw scope, now⟩) := by
  obtain ⟨tokens, hmint, hrows, hview⟩ := @mintPair_of_fresh p s now draw g f scope
    (h.absent hfresh.1) (h.absent hfresh.2.1) hfresh.2.2
  have hmatches : Matches p { s with tokens := tokens }
      (L.addFamily f g ⟨TokenDraw.response draw scope, now⟩) := by
    refine h.of_tokens (fun u => ?_) (fun row hrow => ?_) rfl
    · rw [Ledger.view_addFamily hok hnew hfresh hnow, hview, h.tokens]
      rfl
    · rcases hrows row hrow with hrow | hhash
      · exact h.hashed row hrow
      · exact hhash
  exact ⟨_, hmint, hmatches.touchGrant now g⟩

theorem Matches.rotate (h : Matches p s L) (hok : L.Ok) {now : ℕ} {token f scope iv : Text} {F : Family}
    {draw : TokenDraw} (hnow : L.purgedAt ≤ now)
    (hminted : L.minted token = some (.refresh, f, F.pairs.length - 1))
    (hF : L.families f = some F) (hlive : F.revoked = false)
    (hfresh : L.FreshPair ⟨TokenDraw.response draw scope, now⟩) :
    ∃ s', mintPair p now draw F.grantId f scope (retireFamily f s) =
        (.ok (TokenDraw.response draw scope), s') ∧
      Matches p (markReplaced now (p.sha256Hex token)
        (p.sealReplay iv (TokenDraw.response draw scope)) s')
        (L.addPair f F ⟨TokenDraw.response draw scope, now⟩) := by
  have hretired : ∀ {t}, L.minted t = none → tokenView p (retireFamily f s) t = none := by
    intro t ht
    rw [tokenView_retireFamily, h.absent ht]
    rfl
  obtain ⟨tokens, hmint, hrows, hview⟩ :=
    @mintPair_of_fresh p (retireFamily f s) now draw F.grantId f scope
      (hretired hfresh.1) (hretired hfresh.2.1) hfresh.2.2
  have hne : ∀ {t}, L.minted t = none → t ≠ token := by
    rintro t ht rfl
    exact absurd (hminted.symm.trans ht) (by simp)
  have hmatches : Matches p (markReplaced now (p.sha256Hex token)
      (p.sealReplay iv (TokenDraw.response draw scope)) { s with tokens := tokens })
      (L.addPair f F ⟨TokenDraw.response draw scope, now⟩) := by
    refine h.of_tokens (fun u => ?_) (fun row hrow => ?_) rfl
    · refine (tokenView_markReplaced (s := { s with tokens := tokens }) u).trans ?_
      rw [Ledger.view_addPair hok hminted hF hlive hfresh hnow,
        show tokenView p { s with tokens := tokens } u = _ from hview u]
      have hr : draw.refresh ≠ token := hne hfresh.2.1
      have ha : draw.access ≠ token := hne hfresh.1
      by_cases hur : u = draw.refresh
      · rw [if_pos hur, if_pos (show u = (TokenDraw.response draw scope).refreshToken from hur)]
        simp [hur, hr]
      by_cases hua : u = draw.access
      · rw [if_neg hur, if_pos hua,
          if_neg (show ¬ u = (TokenDraw.response draw scope).refreshToken from hur),
          if_pos (show u = (TokenDraw.response draw scope).accessToken from hua)]
        simp [hua, ha]
      · rw [if_neg hur, if_neg hua,
          if_neg (show ¬ u = (TokenDraw.response draw scope).refreshToken from hur),
          if_neg (show ¬ u = (TokenDraw.response draw scope).accessToken from hua),
          tokenView_retireFamily, h.tokens]
    · obtain ⟨old, hold, rfl⟩ := List.mem_map.mp hrow
      have hhash : ∃ t, old.tokenHash = p.sha256Hex t := by
        rcases hrows old hold with hmem | hhash
        · obtain ⟨older, holder, rfl⟩ := List.mem_map.mp hmem
          obtain ⟨t, ht⟩ := h.hashed older (Rows.mem_filter.mp holder).1
          exact ⟨t, by split <;> exact ht⟩
        · exact hhash
      obtain ⟨t, ht⟩ := hhash
      exact ⟨t, by split <;> exact ht⟩
  exact ⟨_, hmint, hmatches.touchGrant now F.grantId⟩

/-- **What a refresh does**, in terms of the ledger: it is unknown to the store, rotates the last
    token, replays the one before it, or ends the family. -/
theorem tokensRefresh_cases (h : Matches p s L) (hok : L.Ok) {draw : TokenDraw}
    (hdraw : L.fresh draw = true) (token clientId : Text) :
    ((∀ f n F pair, ¬ L.Presents L.now token clientId f n F pair) ∧
      tokensRefresh p L.now draw token clientId s = (.error unknownRefresh, purge L.now s)) ∨
    ∃ f n F pair, L.Presents L.now token clientId f n F pair ∧
      ((n + 1 = F.pairs.length ∧ ∃ scope s',
          tokensRefresh p L.now draw token clientId s = (.ok (TokenDraw.response draw scope), s') ∧
          Matches p s' ((L.purged L.now).addPair f F ⟨TokenDraw.response draw scope, L.now⟩)) ∨
        ∃ next, F.pairs[n + 1]? = some next ∧
          ((n + 2 = F.pairs.length ∧ L.now < next.mintedAt + refreshReplayGraceMs ∧
              tokensRefresh p L.now draw token clientId s = (.ok next.response, purge L.now s)) ∨
            (¬ (n + 2 = F.pairs.length ∧ L.now < next.mintedAt + refreshReplayGraceMs) ∧
              tokensRefresh p L.now draw token clientId s =
                (.error reusedRefresh, familyRevoke f (purge L.now s))))) := by
  have hclean : Matches p (purge L.now s) (L.purged L.now) := h.purge hok.purgedAt
  have hat : (L.purged L.now).purgedAt = L.now := rfl
  by_cases hno : ∀ f n F pair, ¬ L.Presents L.now token clientId f n F pair
  · left
    refine ⟨hno, ?_⟩
    have hlookup : refreshLookup L.now (p.sha256Hex token) clientId (purge L.now s) = _ :=
      hclean.lookup_unknown hat fun f n F pair hp => hno f n F pair
        ⟨hp.minted, hp.family, hp.position, hp.grant, hp.live, hp.unexpired⟩
    unfold tokensRefresh
    simp only [hlookup]
  right
  simp only [not_forall, not_not] at hno
  obtain ⟨f, n, F, pair, hp⟩ := hno
  refine ⟨f, n, F, pair, hp, ?_⟩
  have hp' : (L.purged L.now).Presents L.now token clientId f n F pair :=
    ⟨hp.minted, hp.family, hp.position, hp.grant, hp.live, hp.unexpired⟩
  have hlt : n < F.pairs.length := (List.getElem?_eq_some_iff.mp hp.position).1
  by_cases hlast : n + 1 = F.pairs.length
  · left
    refine ⟨hlast, ?_⟩
    obtain ⟨row, scope, hfamily, hgrantId, hlookup⟩ := hclean.lookup_rotates hat hp' hlast
    have hfresh : (L.purged L.now).FreshPair ⟨TokenDraw.response draw scope, L.now⟩ := by
      unfold Ledger.fresh at hdraw
      simp only [Bool.and_eq_true, Option.isNone_iff_eq_none, decide_eq_true_eq] at hdraw
      exact ⟨hdraw.1.1, hdraw.1.2, hdraw.2⟩
    have hminted : (L.purged L.now).minted token = some (.refresh, f, F.pairs.length - 1) := by
      rw [← hlast]
      exact hp.minted
    obtain ⟨s', hmint, hmatches⟩ := @Matches.rotate p _ _ hclean hok.purged L.now token f scope
      draw.iv F draw hat.le hminted hp.family hp.live hfresh
    refine ⟨scope, _, ?_, hmatches.touchClient L.now clientId⟩
    unfold tokensRefresh
    simp only [hlookup, hfamily, hgrantId, hmint]
  right
  have hlt' : n + 1 < F.pairs.length := by omega
  obtain ⟨next, hnext⟩ : ∃ next, F.pairs[n + 1]? = some next := ⟨_, List.getElem?_eq_getElem hlt'⟩
  refine ⟨next, hnext, ?_⟩
  by_cases hgrace : n + 2 = F.pairs.length ∧ L.now < next.mintedAt + refreshReplayGraceMs
  · left
    obtain ⟨json, hopen, hlookup⟩ := hclean.lookup_replays hat hp' hnext hgrace.1 hgrace.2
    refine ⟨hgrace.1, hgrace.2, ?_⟩
    unfold tokensRefresh
    simp only [hlookup, hopen]
  · right
    refine ⟨hgrace, ?_⟩
    unfold tokensRefresh
    rcases hclean.lookup_reused hat hp' hnext hgrace with hlookup | ⟨json, hopen, hlookup⟩
    · simp only [hlookup]
    · simp only [hlookup, hopen]

/-- A refresh and its record. -/
theorem Matches.tokensRefresh (h : Matches p s L) (hok : L.Ok) {draw : TokenDraw}
    (hdraw : L.fresh draw = true) (token clientId : Text) :
    Matches p (tokensRefresh p L.now draw token clientId s).2
        ((L.purged L.now).recordRefresh L.now draw token
          (OAuthStore.tokensRefresh p L.now draw token clientId s).1) ∧
      ((L.purged L.now).recordRefresh L.now draw token
        (OAuthStore.tokensRefresh p L.now draw token clientId s).1).Ok := by
  have hclean : Matches p (OAuthStore.purge L.now s) (L.purged L.now) := h.purge hok.purgedAt
  rcases tokensRefresh_cases h hok hdraw token clientId with ⟨-, hrun⟩ | ⟨f, n, F, pair, hp, hcases⟩
  · have hsame : (L.purged L.now).recordRefresh L.now draw token (.error unknownRefresh) =
        L.purged L.now := by
      unfold Ledger.recordRefresh
      split
      · rename_i hanswer
        exact absurd hanswer (by simp)
      · rename_i e _ hanswer
        rw [← Except.error.inj hanswer, if_neg (by decide)]
      · rfl
    rw [hrun, hsame]
    exact ⟨hclean, hok.purged⟩
  · have hminted : (L.purged L.now).minted token = some (.refresh, f, n) := hp.minted
    have hfamily : (L.purged L.now).families f = some F := hp.family
    rcases hcases with ⟨hlast, scope, s', hrun, hmatches⟩ | ⟨next, hnext, hcases⟩
    · have hfresh : (L.purged L.now).FreshPair ⟨TokenDraw.response draw scope, L.now⟩ := by
        unfold Ledger.fresh at hdraw
        simp only [Bool.and_eq_true, Option.isNone_iff_eq_none, decide_eq_true_eq] at hdraw
        exact ⟨hdraw.1.1, hdraw.1.2, hdraw.2⟩
      have hrecord : (L.purged L.now).recordRefresh L.now draw token
          (.ok (TokenDraw.response draw scope)) =
          (L.purged L.now).addPair f F ⟨TokenDraw.response draw scope, L.now⟩ := by
        simp only [Ledger.recordRefresh, hminted, hfamily, TokenDraw.response, if_true]
      rw [hrun, hrecord]
      obtain ⟨userId, hgrant⟩ := hp.grant
      exact ⟨hmatches, hok.purged.addPair hfamily hfresh (by
        rw [show (L.purged L.now).liveGrant F.grantId = some _ from hgrant]
        rfl)⟩
    · rcases hcases with ⟨-, -, hrun⟩ | ⟨-, hrun⟩
      · have hold : next.response.refreshToken ≠ draw.refresh := by
          intro heq
          have hplace := hok.pairs f F (n + 1) next hp.family hnext .refresh
          unfold Ledger.fresh at hdraw
          simp only [Bool.and_eq_true, Option.isNone_iff_eq_none] at hdraw
          rw [show next.token .refresh = draw.refresh from heq, hdraw.1.2] at hplace
          exact absurd hplace (by simp)
        have hrecord : (L.purged L.now).recordRefresh L.now draw token (.ok next.response) =
            L.purged L.now := by
          simp only [Ledger.recordRefresh, hminted, hfamily, if_neg hold]
        rw [hrun, hrecord]
        exact ⟨hclean, hok.purged⟩
      · have hrecord : (L.purged L.now).recordRefresh L.now draw token (.error reusedRefresh) =
            (L.purged L.now).revokeFamily f := by
          simp only [Ledger.recordRefresh, hminted, if_true]
        rw [hrun, hrecord]
        exact ⟨hclean.familyRevoke f, hok.purged.revokeFamily f⟩

/-- A grant made for a registered client, and its record. -/
theorem Matches.grantEnsure (h : Matches p s L) (hok : L.Ok) (now : ℕ)
    {newId userId clientId scope : Text} (hnew : L.grants newId = none)
    (hclient : (s.clients.find? clientId).isSome) :
    let r := grantEnsure now newId userId clientId scope s
    let L' := match r.1 with
      | .ok id => if id = newId then L.addGrant id userId clientId else L
      | .error _ => L
    Matches p r.2 L' ∧ L'.Ok := by
  have habsent : s.grants.find? newId = none := by
    have hview := h.grants newId
    rw [show L.liveGrant newId = none by unfold Ledger.liveGrant; rw [hnew]; rfl] at hview
    exact Option.map_eq_none_iff.mp hview
  unfold OAuthStore.grantEnsure
  cases hheld : s.grants.rows.find? fun g => g.userId = userId ∧ g.clientId = clientId with
  | some held =>
    have hne : held.id ≠ newId := by
      intro heq
      have hmem : s.grants.find? newId = some held :=
        Rows.find?_eq_some.mpr ⟨List.mem_of_find?_eq_some hheld, heq⟩
      exact absurd (hmem.symm.trans habsent) (by simp)
    simp only [if_neg hne]
    exact ⟨h.mapGrants (fun g => by split <;> rfl) (fun g => by split <;> rfl), hok⟩
  | none =>
    obtain ⟨grants, hgrants⟩ := @Rows.exists_insert? _ _ GrantRow.id _ s.grants
      { id := newId, userId := userId, clientId := clientId, scope := scope
        createdAt := now, lastUsedAt := some now } habsent
    simp only [hgrants, if_true]
    refine ⟨⟨h.tokens, h.hashed, fun g => ?_, fun g hg => ?_⟩, hok.addGrant hnew⟩
    · rw [Rows.find?_insert? hgrants, Ledger.liveGrant_addGrant]
      by_cases hid : g = newId
      · rw [if_pos hid, if_pos hid.symm]
        rfl
      · rw [if_neg hid, if_neg (Ne.symm hid), h.grants g]
    · rcases (Rows.mem_insert? hgrants).mp hg with hg | rfl
      · exact h.clients g hg
      · exact hclient

/-- A code exchange and its record. -/
theorem Matches.tokensIssue (h : Matches p s L) (hok : L.Ok) {f g clientId scope : Text}
    {draw : TokenDraw} {G : GrantRecord} (hnew : L.families f = none)
    (hdraw : L.fresh draw = true) (hgrant : L.grants g = some G) :
    let r := tokensIssue p L.now f draw g clientId scope s
    ∃ response, r.1 = .ok response ∧
      Matches p r.2 ((L.purged L.now).addFamily f g ⟨response, L.now⟩) ∧
      ((L.purged L.now).addFamily f g ⟨response, L.now⟩).Ok := by
  have hclean := (h.purge hok.purgedAt).touchClient L.now clientId
  have hfresh : (L.purged L.now).FreshPair ⟨TokenDraw.response draw scope, L.now⟩ := by
    unfold Ledger.fresh at hdraw
    simp only [Bool.and_eq_true, Option.isNone_iff_eq_none, decide_eq_true_eq] at hdraw
    exact ⟨hdraw.1.1, hdraw.1.2, hdraw.2⟩
  obtain ⟨s', hmint, hmatches⟩ := hclean.issue hok.purged (g := g)
    (show (L.purged L.now).purgedAt ≤ L.now from le_rfl) hnew hfresh
  unfold OAuthStore.tokensIssue
  dsimp only
  rw [hmint]
  exact ⟨_, rfl, hmatches, hok.purged.addFamily hnew hfresh ⟨G, hgrant⟩⟩

/-- A registered client, and the clean-up before it. -/
theorem Matches.clientRegister (h : Matches p s L) (hok : L.Ok) (clientId : Text)
    (secret : Option Text) (registration : ClientRegistration) :
    Matches p (clientRegister p L.now clientId secret registration s).2 (L.purged L.now) := by
  have hclean : Matches p (OAuthStore.purge L.now s) (L.purged L.now) := h.purge hok.purgedAt
  unfold OAuthStore.clientRegister insertClient
  dsimp only
  split
  · rename_i clients hclients
    refine hclean.of_clients fun id hid => ?_
    rw [Rows.find?_insert? hclients, apply_ite Option.isSome, hid, Option.isSome_some, ite_self]
  · exact hclean

/-- What `tokenRevoke` finds, as the ledger sees it. -/
theorem Matches.revocable_minted (h : Matches p s L) {token clientId : Text} {row : TokenRow}
    (hrow : revocable (p.sha256Hex token) clientId s = some row) :
    ∃ n, L.minted token = some (row.kind, row.familyId, n) := by
  unfold revocable at hrow
  cases hfound : s.tokens.find? (p.sha256Hex token) with
  | none =>
    rw [hfound] at hrow
    exact absurd hrow (by simp)
  | some found =>
    have hsame : found = row := by
      rw [hfound] at hrow
      dsimp only at hrow
      split at hrow
      · exact absurd hrow (by simp)
      split at hrow
      · exact Option.some.inj hrow
      · exact absurd hrow (by simp)
    have hview : L.view token = some (rowView p row) := by
      rw [← h.tokens, tokenView, hfound, hsame]
      rfl
    obtain ⟨kind, f, n, F, pair, hminted, -, -, hv⟩ := Ledger.view_eq_some.mp hview
    obtain ⟨hkind, hfamily, -⟩ := Ledger.pairView_columns hv
    exact ⟨n, by rw [hminted, ← hkind, ← hfamily]; rfl⟩

/-- A revocation by token, and its record. -/
theorem Matches.tokenRevoke (h : Matches p s L) (hok : L.Ok) (token clientId : Text) :
    let r := tokenRevoke p token clientId s
    let L' := if r.1 then
        match L.minted token with
        | some (.refresh, f, _) => L.revokeFamily f
        | some (.access, _, _) => L.revokeAccess token
        | none => L
      else L
    Matches p r.2 L' ∧ L'.Ok := by
  unfold OAuthStore.tokenRevoke
  cases hrow : revocable (p.sha256Hex token) clientId s with
  | none => exact ⟨h, hok⟩
  | some row =>
    obtain ⟨n, hminted⟩ := h.revocable_minted hrow
    cases hkind : row.kind with
    | refresh =>
      rw [hkind] at hminted
      simp only [hminted, hkind, if_true]
      exact ⟨h.familyRevoke row.familyId, hok.revokeFamily row.familyId⟩
    | access =>
      rw [hkind] at hminted
      simp only [hminted, hkind, if_true, reduceCtorEq, if_false]
      exact ⟨h.deleteToken hminted, hok.revokeAccess (by rw [hminted]; simp)⟩

/-- A revocation by the owner, and its record. -/
theorem Matches.grantRevoke (h : Matches p s L) (hok : L.Ok) (userId grantId : Text) :
    let r := grantRevoke userId grantId s
    let L' := match r.1 with
      | .ok _ => L.revokeGrant grantId
      | .error _ => L
    Matches p r.2 L' ∧ L'.Ok := by
  unfold OAuthStore.grantRevoke
  cases s.grants.rows.find? fun g => g.id = grantId ∧ g.userId = userId with
  | none => exact ⟨h, hok⟩
  | some _ => exact ⟨h.deleteGrant grantId, hok.revokeGrant grantId⟩

/-- **Step lemma.** An allowed operation and its record keep the store refining the ledger. -/
theorem matches_step {w w' : OAuthStore × Ledger} {e : ℕ × Op}
    (h : Matches p w.1 w.2 ∧ w.2.Ok) (hallowed : allowed w e = true)
    (hstep : serverStep p w e = some w') : Matches p w'.1 w'.2 ∧ w'.2.Ok := by
  obtain ⟨s, L⟩ := w
  obtain ⟨now, op⟩ := e
  obtain ⟨hmatches, hok⟩ := h
  rw [allowed, Bool.and_eq_true, decide_eq_true_eq] at hallowed
  obtain ⟨hnow, hop⟩ := hallowed
  rw [serverStep, Option.some.injEq] at hstep
  subst hstep
  have hM : Matches p s { L with now := now } := hmatches.at_now now
  have hO : ({ L with now := now } : Ledger).Ok := hok.at_now hnow
  cases op with
  | purge => exact ⟨hM.purge hO.purgedAt, hO.purged⟩
  | clientRegister clientId secret registration =>
    exact ⟨hM.clientRegister hO clientId secret registration, hO.purged⟩
  | grantEnsure newId userId clientId scope =>
    simp only [Bool.and_eq_true, Option.isNone_iff_eq_none] at hop
    have hgrant := @Matches.grantEnsure p s { L with now := now } hM hO now newId userId clientId
      scope hop.1 hop.2
    show Matches p (grantEnsure now newId userId clientId scope s).2 (L.record now _ (.id _)) ∧
      (L.record now (.grantEnsure newId userId clientId scope) (.id _)).Ok
    cases hrun : (grantEnsure now newId userId clientId scope s).1 with
    | ok id =>
      simp only [hrun] at hgrant
      exact hgrant
    | error e =>
      simp only [hrun] at hgrant
      exact hgrant
  | tokensIssue familyId draw grantId clientId scope =>
    simp only [Bool.and_eq_true, Option.isNone_iff_eq_none] at hop
    obtain ⟨⟨hnew, hdraw⟩, hgrant⟩ := hop
    obtain ⟨G, hG⟩ : ∃ G, L.grants grantId = some G := by
      cases hG : L.grants grantId with
      | none =>
        rw [hG] at hgrant
        exact absurd hgrant (by simp)
      | some G => exact ⟨G, rfl⟩
    obtain ⟨response, hrun, hissued⟩ := @Matches.tokensIssue p s { L with now := now } hM hO
      familyId grantId clientId scope draw G hnew hdraw hG
    show Matches p (tokensIssue p now familyId draw grantId clientId scope s).2
        (L.record now _ (.pair (tokensIssue p now familyId draw grantId clientId scope s).1)) ∧
      (L.record now (.tokensIssue familyId draw grantId clientId scope)
        (.pair (tokensIssue p now familyId draw grantId clientId scope s).1)).Ok
    rw [show (tokensIssue p now familyId draw grantId clientId scope s).1 = .ok response from hrun]
    exact hissued
  | tokensRefresh draw token clientId => exact hM.tokensRefresh hO hop token clientId
  | tokenRevoke token clientId =>
    have hrevoke := hM.tokenRevoke hO token clientId
    show Matches p (tokenRevoke p token clientId s).2
        (L.record now _ (.revoked (tokenRevoke p token clientId s).1)) ∧
      (L.record now (.tokenRevoke token clientId)
        (.revoked (tokenRevoke p token clientId s).1)).Ok
    cases hrun : (tokenRevoke p token clientId s).1 with
    | true =>
      simp only [hrun, if_true] at hrevoke
      exact hrevoke
    | false =>
      simp only [hrun, Bool.false_eq_true, if_false] at hrevoke
      exact hrevoke
  | grantRevoke userId grantId =>
    have hrevoke := hM.grantRevoke hO userId grantId
    show Matches p (grantRevoke userId grantId s).2
        (L.record now _ (.grantRevoked (grantRevoke userId grantId s).1)) ∧
      (L.record now (.grantRevoke userId grantId)
        (.grantRevoked (grantRevoke userId grantId s).1)).Ok
    cases hrun : (grantRevoke userId grantId s).1 with
    | ok _ =>
      simp only [hrun] at hrevoke
      exact hrevoke
    | error e =>
      simp only [hrun] at hrevoke
      exact hrevoke

theorem Matches.empty : Matches p emptyStore Ledger.empty :=
  ⟨fun _ => rfl, fun _ hrow => absurd hrow List.not_mem_nil, fun _ => rfl,
    fun _ hg => absurd hg List.not_mem_nil⟩

theorem Ledger.Ok.empty : Ledger.empty.Ok where
  minted := fun _ _ _ _ h => absurd h (by simp [Ledger.empty])
  pairs := fun _ _ _ _ h => absurd h (by simp [Ledger.empty])
  nonempty := fun _ _ h => absurd h (by simp [Ledger.empty])
  grants := fun _ _ h => absurd h (by simp [Ledger.empty])
  single := fun _ _ _ h => absurd h (by simp [Ledger.empty])
  revokedAccess := fun _ h => absurd h (by simp [Ledger.empty])
  purgedAt := le_refl _

/-- **Run lemma.** After any sequence of operations the store refines the ledger. -/
theorem matches_of_reaches {w : OAuthStore × Ledger}
    (h : Reaches (serverStep p) (fun w e => allowed w e = true) (emptyStore, Ledger.empty) w) :
    Matches p w.1 w.2 ∧ w.2.Ok :=
  h.invariant (fun w => Matches p w.1 w.2 ∧ w.2.Ok)
    (fun _ _ _ hw hallowed hstep => matches_step hw hallowed hstep) ⟨Matches.empty, Ledger.Ok.empty⟩

end KodyCelld.OAuth
