import KodyCelld.OAuth.CodeExchange

namespace KodyCelld.OAuth

open KodyCelld.Lib OAuthStore

/-!
# Refreshes and revocations that race

A rotation reads its row, and only after three `await`s marks it replaced.

* `RotatedOnce`, `RevokedForGood` — what should hold in every state of every run;
* `Quiet` — no rotation of a token starts, and no family is ended, while a pair is being minted for
  it;
* `refresh_quiet` — on runs whose steps are quiet both hold;
* `refreshRaces` — on others neither has to.
-/

/-! ### What should hold -/

/-- The family that a call ended. -/
def Ret.ended : Ret → Option Text
  | .refreshed _ ended => ended
  | .revoked _ ended => ended
  | _ => none

/-- All callers that present one refresh token and are answered get one pair. -/
def RotatedOnce (log : List (Call × Ret)) : Prop :=
  ∀ token clientId clientId' response response' ended ended',
    (Call.tokensRefresh token clientId, Ret.refreshed (.ok response) ended) ∈ log →
    (Call.tokensRefresh token clientId', Ret.refreshed (.ok response') ended') ∈ log →
    response = response'

/-- The store takes the token for something: as an access token it resolves, or as a refresh token it
    is rotated or replayed. -/
def Accepted (p : Platform) (s : OAuthStore) (token : Text) : Prop :=
  ∃ now, (accessTokenResolve p now token s).isSome ∨
    ∃ clientId, ∀ e, (refreshLookup now (p.sha256Hex token) clientId s).1 ≠ .refused e

/-- Once a revocation of a family or of its grant has returned, no token of it is accepted. -/
def RevokedForGood (p : Platform) (g : Coop.Config (server p)) : Prop :=
  (∀ entry ∈ g.log, ∀ family, entry.2.ended = some family → ∀ token row,
    g.shared.store.tokens.find? (p.sha256Hex token) = some row → row.familyId = family →
    ¬ Accepted p g.shared.store token) ∧
  (∀ userId grantId, (Call.grantRevoke userId grantId, Ret.grantRevoked (.ok ())) ∈ g.log →
    ∀ token row, g.shared.store.tokens.find? (p.sha256Hex token) = some row →
    row.grantId = grantId → ¬ Accepted p g.shared.store token)

/-! ### When it does -/

/-- The refresh token that is between its lookup and its last write. -/
def Frame.rotates : Frame → Option Text
  | .mintAccess _ (.rotation token _) => some token
  | .mintRefresh _ (.rotation token _) _ => some token
  | .sealing _ token .. => some token
  | _ => none

/-- The family that still gets tokens. -/
def Frame.mintsIn : Frame → Option Text
  | .mintAccess m _ => some m.familyId
  | .mintRefresh m .. => some m.familyId
  | _ => none

section
variable {p : Platform}

def NoRotation (g : Coop.Config (server p)) (token : Text) : Prop :=
  ∀ t c f, g.pool t = some (c, f) → f.rotates ≠ some token

def NoMinting (g : Coop.Config (server p)) (familyId : Text) : Prop :=
  ∀ t c f, g.pool t = some (c, f) → f.mintsIn ≠ some familyId

/-- A replaced token whose answer can still be replayed. -/
def replayable (now : ℕ) (row : TokenRow) : Bool :=
  match row.replacedAt with
  | none => false
  | some replacedAt => row.replayJson.isSome && decide (now ≤ replacedAt + refreshReplayGraceMs)

/-- The condition on a step: where it runs a lookup of an unreplaced refresh token, no rotation of
    that token is in flight; and where it ends a family, no pair is being minted in it. -/
def Quiet (g : Coop.Config (server p)) : Coop.Event (server p) → Prop
  | .call _ _ => True
  | .resume t i => ∀ c f, g.pool t = some (c, f) →
    match f with
    | .refreshHashed token clientId => ∀ row,
        revocable (p.sha256Hex token) clientId g.shared.store = some row → row.kind = .refresh →
        i.now < row.expiresAt →
        if row.replacedAt = none then NoRotation g token
        else replayable i.now row = true ∨ NoMinting g row.familyId
    | .replaying _ familyId json => p.openReplay json = none → NoMinting g familyId
    | .tokenRevoke token clientId => ∀ row,
        revocable (p.sha256Hex token) clientId g.shared.store = some row → row.kind = .refresh →
        NoMinting g row.familyId
    | _ => True

end

variable {p : Platform} {s : OAuthStore}

/-! ### Lookups -/

theorem revocable_eq_some {hash clientId : Text} {row : TokenRow} :
    revocable hash clientId s = some row ↔ s.tokens.find? hash = some row ∧
      ∃ grant, s.grants.find? row.grantId = some grant ∧ grant.clientId = clientId := by
  unfold revocable
  cases hrow : s.tokens.find? hash with
  | none => simp
  | some found =>
    cases hgrant : s.grants.find? found.grantId with
    | none =>
      simp only [hgrant, reduceCtorEq, Option.some.injEq, false_iff, not_and]
      rintro rfl
      simp [hgrant]
    | some grant =>
      by_cases hclient : grant.clientId = clientId
      · simp only [hgrant, hclient, if_true, Option.some.injEq]
        constructor
        · rintro rfl
          exact ⟨rfl, grant, hgrant, hclient⟩
        · exact fun h => h.1
      · simp only [hgrant, hclient, if_false, Option.some.injEq, reduceCtorEq, false_iff, not_and]
        rintro rfl
        simp [hgrant, hclient]

/-- What a lookup found and did, by its outcome. -/
theorem refreshLookup_cases (now : ℕ) (hash clientId : Text) :
    (∃ e, (refreshLookup now hash clientId s).1 = .refused e ∧
      (e = reusedRefresh → ∃ row, revocable hash clientId s = some row ∧ row.kind = .refresh ∧
        now < row.expiresAt ∧ row.replacedAt ≠ none ∧ replayable now row = false ∧
        (refreshLookup now hash clientId s).2 = familyRevoke row.familyId s)) ∨
    (∃ row json, (refreshLookup now hash clientId s) = (.replay row.familyId json, s) ∧
      s.tokens.find? hash = some row ∧ row.replacedAt ≠ none ∧ row.replayJson = some json) ∨
    (∃ row scope, (refreshLookup now hash clientId s) =
        (.rotate row scope, retireFamily row.familyId s) ∧
      revocable hash clientId s = some row ∧ row.kind = .refresh ∧ now < row.expiresAt ∧
      row.replacedAt = none) := by
  have hne : unknownRefresh ≠ reusedRefresh ∧ expiredRefresh ≠ reusedRefresh := by decide
  cases hrow : s.tokens.find? hash with
  | none =>
    left
    refine ⟨unknownRefresh, ?_, fun h => absurd h hne.1⟩
    simp only [refreshLookup, hrow]
  | some row =>
    cases hgrant : s.grants.find? row.grantId with
    | none =>
      left
      refine ⟨unknownRefresh, ?_, fun h => absurd h hne.1⟩
      simp only [refreshLookup, hrow, hgrant]
    | some grant =>
      by_cases hown : row.kind ≠ .refresh ∨ grant.clientId ≠ clientId
      · left
        refine ⟨unknownRefresh, ?_, fun h => absurd h hne.1⟩
        simp only [refreshLookup, hrow, hgrant, if_pos hown]
      · have hjoined : row.kind = .refresh ∧ grant.clientId = clientId := by
          rwa [not_or, not_ne_iff, not_ne_iff] at hown
        have hrevocable : revocable hash clientId s = some row :=
          revocable_eq_some.mpr ⟨hrow, grant, hgrant, hjoined.2⟩
        by_cases hexpired : row.expiresAt ≤ now
        · left
          refine ⟨expiredRefresh, ?_, fun h => absurd h hne.2⟩
          simp only [refreshLookup, hrow, hgrant, if_neg hown, if_pos hexpired]
        · have hlive : now < row.expiresAt := Nat.lt_of_not_le hexpired
          cases hreplaced : row.replacedAt with
          | none =>
            right; right
            refine ⟨row, grant.scope, ?_, hrevocable, hjoined.1, hlive, hreplaced⟩
            simp only [refreshLookup, hrow, hgrant, if_neg hown, if_neg hexpired, hreplaced]
          | some replacedAt =>
            have hsome : row.replacedAt ≠ none := by rw [hreplaced]; simp
            cases hjson : row.replayJson with
            | none =>
              left
              refine ⟨reusedRefresh, ?_, fun _ => ⟨row, hrevocable, hjoined.1, hlive, hsome, ?_, ?_⟩⟩
              · simp only [refreshLookup, hrow, hgrant, if_neg hown, if_neg hexpired, hreplaced, hjson]
              · simp only [replayable, hreplaced, hjson, Option.isSome_none, Bool.false_and]
              · simp only [refreshLookup, hrow, hgrant, if_neg hown, if_neg hexpired, hreplaced, hjson]
            | some json =>
              by_cases hgrace : now ≤ replacedAt + refreshReplayGraceMs
              · right; left
                refine ⟨row, json, ?_, rfl, hsome, hjson⟩
                simp only [refreshLookup, hrow, hgrant, if_neg hown, if_neg hexpired, hreplaced,
                  hjson, if_pos hgrace]
              · left
                refine ⟨reusedRefresh, ?_,
                  fun _ => ⟨row, hrevocable, hjoined.1, hlive, hsome, ?_, ?_⟩⟩
                · simp only [refreshLookup, hrow, hgrant, if_neg hown, if_neg hexpired, hreplaced,
                    hjson, if_neg hgrace]
                · simp only [replayable, hreplaced, hjson, hgrace, decide_false, Bool.and_false]
                · simp only [refreshLookup, hrow, hgrant, if_neg hown, if_neg hexpired, hreplaced,
                    hjson, if_neg hgrace]

/-- A token is accepted only when its row is there, under a grant that is there. -/
theorem Accepted.row {token : Text} (h : Accepted p s token) :
    ∃ row grant, s.tokens.find? (p.sha256Hex token) = some row ∧
      s.grants.find? row.grantId = some grant := by
  obtain ⟨now, hresolve | ⟨clientId, hlookup⟩⟩ := h
  · obtain ⟨row, grant, -, hrow, hgrant, -⟩ := accessTokenResolve_isSome.mp hresolve
    exact ⟨row, grant, hrow, hgrant⟩
  · cases hrow : s.tokens.find? (p.sha256Hex token) with
    | none => exact absurd (by simp only [refreshLookup, hrow]) (hlookup unknownRefresh)
    | some row =>
      cases hgrant : s.grants.find? row.grantId with
      | none => exact absurd (by simp only [refreshLookup, hrow, hgrant]) (hlookup unknownRefresh)
      | some grant => exact ⟨row, grant, rfl, hgrant⟩

/-! ### What a piece does to the tokens and the grants -/

/-- The row was there, with its snapshot or without. -/
def Kept (s : OAuthStore) (row : TokenRow) : Prop :=
  ∃ old ∈ s.tokens.rows, row = old ∨ row = { old with replayJson := none }

theorem Kept.of_mem {row : TokenRow} (h : row ∈ s.tokens.rows) : Kept s row := ⟨row, h, .inl rfl⟩

theorem kept_purge {now : ℕ} {row : TokenRow} (h : row ∈ (purge now s).tokens.rows) : Kept s row := by
  obtain ⟨old, hold, rfl⟩ := List.mem_map.mp h
  refine ⟨old, (Rows.mem_filter.mp hold).1, ?_⟩
  unfold clearStaleReplay
  split
  · split
    · exact .inr rfl
    · exact .inl rfl
  · exact .inl rfl

theorem kept_retireFamily {familyId : Text} {row : TokenRow}
    (h : row ∈ (retireFamily familyId s).tokens.rows) :
    Kept s row ∧ (row.familyId = familyId → row.replayJson = none) := by
  obtain ⟨old, hold, rfl⟩ := List.mem_map.mp h
  by_cases hf : old.familyId = familyId
  · rw [if_pos hf]
    exact ⟨⟨old, (Rows.mem_filter.mp hold).1, .inr rfl⟩, fun _ => rfl⟩
  · rw [if_neg hf]
    exact ⟨⟨old, (Rows.mem_filter.mp hold).1, .inl rfl⟩, fun h => absurd h hf⟩

theorem kept_refreshLookup {now : ℕ} {hash clientId : Text} {row : TokenRow}
    (h : row ∈ (refreshLookup now hash clientId s).2.tokens.rows) : Kept s row := by
  unfold refreshLookup at h
  repeat' split at h
  all_goals first
    | exact Kept.of_mem h
    | exact Kept.of_mem (Rows.mem_filter.mp h).1
    | exact (kept_retireFamily h).1

theorem kept_grantRevoke {userId grantId : Text} {row : TokenRow}
    (h : row ∈ (grantRevoke userId grantId s).2.tokens.rows) : Kept s row := by
  unfold grantRevoke at h
  split at h
  · exact Kept.of_mem h
  · exact Kept.of_mem (Rows.mem_filter.mp h).1

theorem mem_insertToken {now : ℕ} {kind : TokenKind} {token g f : Text} {row : TokenRow}
    (h : row ∈ (insertToken p now kind token g f s).2.tokens.rows) :
    row ∈ s.tokens.rows ∨ (row.tokenHash = p.sha256Hex token ∧ row.familyId = f ∧
      row.replacedAt = none ∧ row.replayJson = none) := by
  unfold insertToken at h
  split at h
  · rename_i tokens htokens
    rcases (Rows.mem_insert? htokens).mp h with hold | rfl
    · exact .inl hold
    · exact .inr ⟨rfl, rfl, rfl, rfl⟩
  · exact .inl h

/-- A piece keeps token rows, adds a row for a new value, or marks the row of a rotated token. -/
theorem piece_tokens {f : Frame} {i : Input} {row : TokenRow}
    (h : row ∈ (piece p s f i).1.tokens.rows) :
    Kept s row ∨
    (f.draws = true ∧ row.tokenHash = p.sha256Hex i.draw ∧ f.mintsIn = some row.familyId ∧
      row.replacedAt = none ∧ row.replayJson = none) ∨
    ∃ m token clientId fresh, f = .sealing m token clientId fresh ∧
      ∃ old ∈ s.tokens.rows, old.tokenHash = p.sha256Hex token ∧
        row = { old with
          replacedAt := some m.startedAt
          replayJson := some (p.sealReplay i.extra fresh) } := by
  cases f with
  | clientRegister registration => exact .inl (kept_purge h)
  | granted ticket grantId => exact .inl (kept_purge h)
  | tokensRefresh token clientId => exact .inl (kept_purge h)
  | purge => exact .inl (kept_purge h)
  | grantRevoke userId grantId => exact .inl (kept_grantRevoke h)
  | accessHashed token => exact .inl (Kept.of_mem (Rows.mem_filter.mp h).1)
  | refreshHashed token clientId =>
    left
    simp only [piece] at h
    split at h <;> exact kept_refreshLookup h
  | mintAccess m goal =>
    simp only [piece] at h
    have hmem : row ∈ (insertToken p m.startedAt .access i.draw m.grantId m.familyId
        s).2.tokens.rows := by
      split at h <;> exact h
    rcases mem_insertToken hmem with hold | ⟨hhash, hfamily, hplain⟩
    · exact .inl (Kept.of_mem hold)
    · exact .inr (.inl ⟨rfl, hhash, congrArg some hfamily.symm, hplain⟩)
  | mintRefresh m goal access =>
    simp only [piece] at h
    have hmem : row ∈ (insertToken p m.startedAt .refresh i.draw m.grantId m.familyId
        s).2.tokens.rows := by
      split at h <;> exact h
    rcases mem_insertToken hmem with hold | ⟨hhash, hfamily, hplain⟩
    · exact .inl (Kept.of_mem hold)
    · exact .inr (.inl ⟨rfl, hhash, congrArg some hfamily.symm, hplain⟩)
  | sealing m token clientId fresh =>
    obtain ⟨old, hold, rfl⟩ := List.mem_map.mp h
    by_cases hhash : old.tokenHash = p.sha256Hex token
    · rw [if_pos hhash]
      exact .inr (.inr ⟨m, token, clientId, fresh, rfl, old, hold, hhash, rfl⟩)
    · rw [if_neg hhash]
      exact .inl (Kept.of_mem hold)
  | replaying token familyId json =>
    left
    simp only [piece] at h
    split at h
    · exact Kept.of_mem h
    · exact Kept.of_mem (Rows.mem_filter.mp h).1
  | tokenRevoke token clientId =>
    left
    simp only [piece] at h
    split at h
    · exact Kept.of_mem h
    · split at h
      · exact Kept.of_mem (Rows.mem_filter.mp h).1
      · exact Kept.of_mem h
  | _ =>
    left
    apply Kept.of_mem
    simp only [piece] at h
    repeat' split at h
    all_goals simpa using h

/-- A piece keeps the ids of grants or adds one that was just drawn. -/
theorem piece_grants {f : Frame} {i : Input} {row : GrantRow}
    (h : row ∈ (piece p s f i).1.grants.rows) :
    (∃ old ∈ s.grants.rows, old.id = row.id) ∨ (f.draws = true ∧ row.id = i.draw) := by
  have hsame : row ∈ s.grants.rows → ∃ old ∈ s.grants.rows, old.id = row.id :=
    fun hrow => ⟨row, hrow, rfl⟩
  cases f with
  | codeTaken ticket form =>
    simp only [piece] at h
    split at h
    · exact .inl (hsame h)
    · have hmem : row ∈ (grantEnsure i.now i.draw ticket.row.userId ticket.client.clientId
          ticket.row.scope s).2.grants.rows := by
        split at h <;> exact h
      unfold grantEnsure at hmem
      split at hmem
      · obtain ⟨old, hold, heq⟩ := List.mem_map.mp hmem
        refine .inl ⟨old, hold, ?_⟩
        rw [← heq]
        split <;> rfl
      · split at hmem
        · rename_i grants hgrants
          rcases (Rows.mem_insert? hgrants).mp hmem with hold | rfl
          · exact .inl (hsame hold)
          · exact .inr ⟨rfl, rfl⟩
        · exact .inl (hsame hmem)
  | mintRefresh m goal access =>
    left
    simp only [piece] at h
    split at h
    · exact hsame (by simpa using h)
    · obtain ⟨old, hold, heq⟩ := List.mem_map.mp h
      rw [(insertToken_frame ..).2.2] at hold
      refine ⟨old, hold, ?_⟩
      rw [← heq]
      split <;> rfl
  | grantRevoke userId grantId =>
    left
    simp only [piece, grantRevoke] at h
    split at h
    · exact hsame h
    · exact hsame (Rows.mem_filter.mp h).1
  | refreshHashed token clientId =>
    left
    simp only [piece] at h
    split at h <;> exact hsame (by simpa using h)
  | _ =>
    left
    apply hsame
    simp only [piece] at h
    repeat' split at h
    all_goals simpa [purge, touchClient, markReplaced, familyRevoke, deleteToken] using h

/-! ### Where a frame or an answer comes from -/

/-- The lookup of a refresh decided to rotate the row. -/
def StartsRotation (s : OAuthStore) (p : Platform) (f : Frame) (i : Input) (token : Text)
    (row : TokenRow) : Prop :=
  ∃ clientId scope, f = .refreshHashed token clientId ∧
    refreshLookup i.now (p.sha256Hex token) clientId s =
      (.rotate row scope, retireFamily row.familyId s) ∧
    revocable (p.sha256Hex token) clientId s = some row ∧ row.kind = .refresh ∧
    i.now < row.expiresAt ∧ row.replacedAt = none

/-- What follows a lookup. -/
theorem piece_refreshHashed {token clientId : Text} {i : Input} {f' : Frame}
    (h : (piece p s (.refreshHashed token clientId) i).2 = .inl f') :
    (∃ row json, f' = .replaying token row.familyId json ∧
      s.tokens.find? (p.sha256Hex token) = some row ∧ row.replacedAt ≠ none ∧
      row.replayJson = some json) ∨
    (∃ row scope, f' = .mintAccess ⟨i.now, row.grantId, row.familyId, scope⟩
        (.rotation token clientId) ∧ StartsRotation s p (.refreshHashed token clientId) i token row) := by
  simp only [piece] at h
  rcases @refreshLookup_cases s i.now (p.sha256Hex token) clientId with ⟨e, hr, -⟩ |
    ⟨row, json, hr, hrow, hreplaced, hjson⟩ | ⟨row, scope, hr, hrow, hkind, hlive, hplain⟩
  · rw [hr] at h
    exact absurd h (by simp)
  · rw [hr] at h
    exact .inl ⟨row, json, (Sum.inl.inj h).symm, hrow, hreplaced, hjson⟩
  · rw [hr] at h
    exact .inr ⟨row, scope, (Sum.inl.inj h).symm, clientId, scope, rfl, hr, hrow, hkind, hlive, hplain⟩

/-- A rotation in flight was so before, or was just started. -/
theorem piece_rotates {f f' : Frame} {i : Input} {token : Text}
    (h : (piece p s f i).2 = .inl f') (hf : f'.rotates = some token) :
    f.rotates = some token ∨ ∃ row, StartsRotation s p f i token row := by
  cases f with
  | mintAccess m goal =>
    simp only [piece] at h
    split at h
    · exact absurd h (by simp)
    obtain rfl := Sum.inl.inj h
    cases goal with
    | exchange ticket => exact absurd hf (by simp [Frame.rotates])
    | rotation token' clientId => exact .inl hf
  | mintRefresh m goal access =>
    simp only [piece] at h
    split at h
    · exact absurd h (by simp)
    cases goal with
    | exchange ticket => exact absurd h (by simp [MintFor.done])
    | rotation token' clientId =>
      obtain rfl := Sum.inl.inj h
      exact .inl hf
  | refreshHashed token' clientId =>
    right
    rcases piece_refreshHashed h with ⟨row, json, rfl, -⟩ | ⟨row, scope, rfl, hstart⟩
    · exact absurd hf (by simp [Frame.rotates])
    · obtain rfl : token' = token := Option.some.inj hf
      exact ⟨row, hstart⟩
  | _ =>
    simp only [piece] at h
    repeat' split at h
    all_goals first
      | (obtain rfl := Sum.inl.inj h
         exact absurd hf (by simp [Frame.rotates]))
      | exact absurd h (by simp)

/-- A family gets tokens as before, or as a new one, or by a rotation that just started. -/
theorem piece_mintsIn {f f' : Frame} {i : Input} {familyId : Text}
    (h : (piece p s f i).2 = .inl f') (hf : f'.mintsIn = some familyId) :
    f.mintsIn = some familyId ∨ (f.draws = true ∧ familyId = i.draw) ∨
      ∃ token row, StartsRotation s p f i token row ∧ familyId = row.familyId := by
  cases f with
  | mintAccess m goal =>
    simp only [piece] at h
    split at h
    · exact absurd h (by simp)
    obtain rfl := Sum.inl.inj h
    exact .inl hf
  | mintRefresh m goal access =>
    simp only [piece] at h
    split at h
    · exact absurd h (by simp)
    cases goal with
    | exchange ticket => exact absurd h (by simp [MintFor.done])
    | rotation token' clientId =>
      obtain rfl := Sum.inl.inj h
      exact absurd hf (by simp [Frame.mintsIn])
  | granted ticket grantId =>
    obtain rfl := Sum.inl.inj h
    exact .inr (.inl ⟨rfl, (Option.some.inj hf).symm⟩)
  | refreshHashed token clientId =>
    right; right
    rcases piece_refreshHashed h with ⟨row, json, rfl, -⟩ | ⟨row, scope, rfl, hstart⟩
    · exact absurd hf (by simp [Frame.mintsIn])
    · exact ⟨token, row, hstart, (Option.some.inj hf).symm⟩
  | _ =>
    simp only [piece] at h
    repeat' split at h
    all_goals first
      | (obtain rfl := Sum.inl.inj h
         exact absurd hf (by simp [Frame.mintsIn]))
      | exact absurd h (by simp)

theorem piece_replaying {f : Frame} {i : Input} {token familyId json : Text}
    (h : (piece p s f i).2 = .inl (.replaying token familyId json)) :
    (∃ clientId, f = .refreshHashed token clientId) ∧
      ∃ row, s.tokens.find? (p.sha256Hex token) = some row ∧ row.familyId = familyId ∧
        row.replacedAt ≠ none ∧ row.replayJson = some json := by
  cases f with
  | mintRefresh m goal access =>
    simp only [piece] at h
    split at h
    · exact absurd h (by simp)
    · cases goal <;> exact absurd h (by simp [MintFor.done])
  | refreshHashed token' clientId =>
    rcases piece_refreshHashed h with ⟨row, json', heq, hrow, hreplaced, hjson⟩ | ⟨row, scope, heq, -⟩
    · obtain ⟨rfl, rfl, rfl⟩ := Frame.replaying.inj heq
      exact ⟨⟨clientId, rfl⟩, row, hrow, rfl, hreplaced, hjson⟩
    · exact absurd heq (by simp)
  | _ =>
    simp only [piece] at h
    repeat' split at h
    all_goals exact absurd h (by simp)

theorem piece_sealing {f : Frame} {i : Input} {m : Minting} {token clientId : Text}
    {fresh : TokenResponse} (h : (piece p s f i).2 = .inl (.sealing m token clientId fresh)) :
    ∃ access, f = .mintRefresh m (.rotation token clientId) access := by
  cases f with
  | mintRefresh m' goal access =>
    simp only [piece] at h
    split at h
    · exact absurd h (by simp)
    cases goal with
    | exchange ticket => exact absurd h (by simp [MintFor.done])
    | rotation token' clientId' =>
      obtain ⟨rfl, rfl, rfl, -⟩ := Frame.sealing.inj (Sum.inl.inj h)
      exact ⟨access, rfl⟩
  | refreshHashed token' clientId' =>
    rcases piece_refreshHashed h with ⟨row, json, heq, -⟩ | ⟨row, scope, heq, -⟩
    · exact absurd heq (by simp)
    · exact absurd heq (by simp)
  | _ =>
    simp only [piece] at h
    repeat' split at h
    all_goals exact absurd h (by simp)

/-- A refresh is answered by a rotation that was sealed, or by a snapshot that opens. -/
theorem piece_refreshed_ok {f : Frame} {i : Input} {response : TokenResponse} {ended : Option Text}
    (h : (piece p s f i).2 = .inr (.refreshed (.ok response) ended)) :
    (∃ m token clientId, f = .sealing m token clientId response) ∨
      ∃ token familyId json, f = .replaying token familyId json ∧
        p.openReplay json = some response := by
  cases f with
  | sealing m token clientId fresh =>
    simp only [piece, Sum.inr.injEq, Ret.refreshed.injEq, Except.ok.injEq] at h
    obtain ⟨rfl, -⟩ := h
    exact .inl ⟨m, token, clientId, rfl⟩
  | replaying token familyId json =>
    right
    simp only [piece] at h
    split at h
    · rename_i opened hopened
      simp only [Sum.inr.injEq, Ret.refreshed.injEq, Except.ok.injEq] at h
      obtain ⟨rfl, -⟩ := h
      exact ⟨token, familyId, json, rfl, hopened⟩
    · exact absurd h (by simp)
  | mintAccess m goal =>
    simp only [piece] at h
    split at h
    · cases goal <;> exact absurd h (by simp [MintFor.fail])
    · exact absurd h (by simp)
  | mintRefresh m goal access =>
    simp only [piece] at h
    split at h <;> cases goal <;> exact absurd h (by simp [MintFor.fail, MintFor.done])
  | _ =>
    simp only [piece] at h
    repeat' split at h
    all_goals exact absurd h (by simp)

/-- The ways a family is ended; all its rows go. -/
theorem piece_ended {f : Frame} {i : Input} {r : Ret} {familyId : Text}
    (h : (piece p s f i).2 = .inr r) (hended : r.ended = some familyId) :
    (piece p s f i).1 = familyRevoke familyId s ∧
    ((∃ token clientId row, f = .refreshHashed token clientId ∧
        revocable (p.sha256Hex token) clientId s = some row ∧ row.kind = .refresh ∧
        i.now < row.expiresAt ∧ row.replacedAt ≠ none ∧ replayable i.now row = false ∧
        row.familyId = familyId) ∨
      (∃ token json, f = .replaying token familyId json ∧ p.openReplay json = none) ∨
      ∃ token clientId row, f = .tokenRevoke token clientId ∧
        revocable (p.sha256Hex token) clientId s = some row ∧ row.kind = .refresh ∧
        row.familyId = familyId) := by
  cases f with
  | refreshHashed token clientId =>
    rcases @refreshLookup_cases s i.now (p.sha256Hex token) clientId with ⟨e, hr, hreused⟩ |
      ⟨row, json, hr, -⟩ | ⟨row, scope, hr, -⟩
    · simp only [piece, hr, Sum.inr.injEq] at h
      subst h
      replace hended : endedBy e (p.sha256Hex token) s = some familyId := hended
      unfold endedBy at hended
      split at hended
      · rename_i he
        obtain ⟨row, hrow, hkind, hlive, hreplaced, hnot, hstore⟩ := hreused he
        rw [(revocable_eq_some.mp hrow).1, Option.map_some, Option.some.injEq] at hended
        refine ⟨?_, .inl ⟨token, clientId, row, rfl, hrow, hkind, hlive, hreplaced, hnot, hended⟩⟩
        simp only [piece, hr]
        rw [hstore, hended]
      · exact absurd hended (by simp)
    · simp only [piece, hr] at h
      exact absurd h (by simp)
    · simp only [piece, hr] at h
      exact absurd h (by simp)
  | replaying token familyId' json =>
    simp only [piece] at h ⊢
    split at h
    · obtain rfl := Sum.inr.inj h
      exact absurd hended (by simp [Ret.ended])
    · rename_i hnone
      obtain rfl := Sum.inr.inj h
      obtain rfl : familyId' = familyId := Option.some.inj hended
      exact ⟨rfl, .inr (.inl ⟨token, json, rfl, hnone⟩)⟩
  | tokenRevoke token clientId =>
    simp only [piece] at h ⊢
    cases hrow : revocable (p.sha256Hex token) clientId s with
    | none =>
      simp only [hrow] at h
      obtain rfl := Sum.inr.inj h
      exact absurd hended (by simp [Ret.ended])
    | some row =>
      by_cases hkind : row.kind = .refresh
      · simp only [hrow, hkind, if_true] at h ⊢
        obtain rfl := Sum.inr.inj h
        obtain rfl : row.familyId = familyId := Option.some.inj hended
        exact ⟨rfl, .inr (.inr ⟨token, clientId, row, rfl, hrow, hkind, rfl⟩)⟩
      · simp only [hrow, hkind, if_false] at h
        exact absurd h (by simp)
  | mintAccess m goal =>
    simp only [piece] at h
    split at h
    · obtain rfl := Sum.inr.inj h
      cases goal <;> exact absurd hended (by simp [MintFor.fail, Ret.ended])
    · exact absurd h (by simp)
  | mintRefresh m goal access =>
    simp only [piece] at h
    split at h
    · obtain rfl := Sum.inr.inj h
      cases goal <;> exact absurd hended (by simp [MintFor.fail, Ret.ended])
    · cases goal with
      | exchange ticket =>
        obtain rfl := Sum.inr.inj h
        exact absurd hended (by simp [Ret.ended])
      | rotation token clientId => exact absurd h (by simp [MintFor.done])
  | _ =>
    simp only [piece] at h
    repeat' split at h
    all_goals first
      | (obtain rfl := Sum.inr.inj h
         exact absurd hended (by simp [Ret.ended]))
      | exact absurd h (by simp)

theorem piece_grantRevoked {f : Frame} {i : Input} {answer : Except OAuthError Unit}
    (h : (piece p s f i).2 = .inr (.grantRevoked answer)) :
    ∃ userId grantId, f = .grantRevoke userId grantId ∧ (grantRevoke userId grantId s).1 = answer := by
  cases f with
  | grantRevoke userId grantId =>
    exact ⟨userId, grantId, rfl, Ret.grantRevoked.inj (Sum.inr.inj h)⟩
  | mintAccess m goal =>
    simp only [piece] at h
    split at h
    · cases goal <;> exact absurd h (by simp [MintFor.fail])
    · exact absurd h (by simp)
  | mintRefresh m goal access =>
    simp only [piece] at h
    split at h <;> cases goal <;> exact absurd h (by simp [MintFor.fail, MintFor.done])
  | _ =>
    simp only [piece] at h
    repeat' split at h
    all_goals exact absurd h (by simp)

/-! ### The invariant -/

section
variable {g g' : Coop.Config (server p)}

/-- Some caller that presents the token was answered, or will be answered, with the pair. -/
inductive Outcome (g : Coop.Config (server p)) (token : Text) (response : TokenResponse) : Prop
  | logged (clientId : Text) (ended : Option Text)
      (h : (Call.tokensRefresh token clientId, Ret.refreshed (.ok response) ended) ∈ g.log)
  | snapshot (row : TokenRow) (json : Text)
      (hrow : g.shared.store.tokens.find? (p.sha256Hex token) = some row)
      (hjson : row.replayJson = some json) (hopen : p.openReplay json = some response)
  | replaying (t : ℕ) (c : Call) (familyId json : Text)
      (hpool : g.pool t = some (c, .replaying token familyId json))
      (hopen : p.openReplay json = some response)
  | sealing (t : ℕ) (c : Call) (m : Minting) (clientId : Text)
      (hpool : g.pool t = some (c, .sealing m token clientId response))

/-- The token was rotated: a caller was answered, or waits for a snapshot. -/
inductive Served (g : Coop.Config (server p)) (token : Text) : Prop
  | logged (clientId : Text) (response : TokenResponse) (ended : Option Text)
      (h : (Call.tokensRefresh token clientId, Ret.refreshed (.ok response) ended) ∈ g.log)
  | replaying (t : ℕ) (c : Call) (familyId json : Text)
      (hpool : g.pool t = some (c, .replaying token familyId json))

structure RaceInv (p : Platform) (g : Coop.Config (server p)) : Prop where
  belong : AllBelong g
  hashed : ∀ row ∈ g.shared.store.tokens.rows,
    ∃ token ∈ g.shared.drawn, row.tokenHash = p.sha256Hex token
  families : ∀ row ∈ g.shared.store.tokens.rows, row.familyId ∈ g.shared.drawn
  minting : ∀ t c f familyId, g.pool t = some (c, f) → f.mintsIn = some familyId →
    familyId ∈ g.shared.drawn
  replaying : ∀ t c token familyId json, g.pool t = some (c, .replaying token familyId json) →
    familyId ∈ g.shared.drawn
  plain : ∀ row ∈ g.shared.store.tokens.rows, row.replacedAt = none → row.replayJson = none
  rotating : ∀ t c f token, g.pool t = some (c, f) → f.rotates = some token →
    token ∈ g.shared.drawn
  served : ∀ token, Served g token → token ∈ g.shared.drawn
  /-- A refresh token has one outcome, -/
  one : ∀ token response response', Outcome g token response → Outcome g token response' →
    response = response'
  /-- none before its rotation has drawn the whole pair, -/
  unanswered : ∀ t c f token, g.pool t = some (c, f) → f.rotates = some token →
    f.mintsIn.isSome → ∀ response, ¬ Outcome g token response
  /-- and is rotated by one call; -/
  alone : ∀ t u c c' f f' token, g.pool t = some (c, f) → g.pool u = some (c', f') →
    f.rotates = some token → f'.rotates = some token → t = u
  /-- once it was, its row says so. -/
  replaced : ∀ token, Served g token → ∀ row,
    g.shared.store.tokens.find? (p.sha256Hex token) = some row → row.replacedAt ≠ none
  ended : ∀ entry ∈ g.log, ∀ familyId, entry.2.ended = some familyId →
    familyId ∈ g.shared.drawn ∧ NoMinting g familyId ∧
      ∀ row ∈ g.shared.store.tokens.rows, row.familyId ≠ familyId
  grantIds : ∀ row ∈ g.shared.store.grants.rows, row.id ∈ g.shared.drawn
  revoked : ∀ userId grantId, (Call.grantRevoke userId grantId, Ret.grantRevoked (.ok ())) ∈ g.log →
    grantId ∈ g.shared.drawn ∧ g.shared.store.grants.find? grantId = none

/-! ### The condition, used -/

variable {t : ℕ} {c : Call} {f : Frame} {i : Input}

theorem Quiet.rotation (hq : Quiet g (.resume t i)) (hpool : g.pool t = some (c, f)) {token : Text}
    {row : TokenRow} (hstart : StartsRotation g.shared.store p f i token row) :
    NoRotation g token := by
  obtain ⟨clientId, scope, rfl, -, hrow, hkind, hlive, hplain⟩ := hstart
  have hquiet := hq c _ hpool row hrow hkind hlive
  rwa [if_pos hplain] at hquiet

theorem Quiet.ends (hq : Quiet g (.resume t i)) (hpool : g.pool t = some (c, f)) {r : Ret}
    {familyId : Text} (h : (piece p g.shared.store f i).2 = .inr r)
    (hended : r.ended = some familyId) : NoMinting g familyId := by
  rcases (piece_ended h hended).2 with
    ⟨token, clientId, row, rfl, hrow, hkind, hlive, hreplaced, hnot, rfl⟩ |
    ⟨token, json, rfl, hnone⟩ | ⟨token, clientId, row, rfl, hrow, hkind, rfl⟩
  · have hquiet := hq c _ hpool row hrow hkind hlive
    rw [if_neg hreplaced, hnot] at hquiet
    exact hquiet.resolve_left (by simp)
  · exact hq c _ hpool hnone
  · exact hq c _ hpool row hrow hkind

/-! ### The outcomes -/

/-- A token that has a row was drawn. -/
theorem RaceInv.drawn_of_row (hinv : RaceInv p g) {token : Text} {row : TokenRow}
    (hrow : g.shared.store.tokens.find? (p.sha256Hex token) = some row) :
    token ∈ g.shared.drawn := by
  obtain ⟨hmem, hkey⟩ := Rows.find?_eq_some.mp hrow
  obtain ⟨token', hdrawn, hhash⟩ := hinv.hashed row hmem
  rwa [p.sha256Hex_injective (hkey.symm.trans hhash)]

/-- The row of a token that was drawn before comes from its row before. -/
theorem Ran.old_row (h : Ran p g g' t c f i) {token : Text} {row : TokenRow}
    (hdrawn : token ∈ g.shared.drawn)
    (hrow : g'.shared.store.tokens.find? (p.sha256Hex token) = some row) :
    ∃ old, g.shared.store.tokens.find? (p.sha256Hex token) = some old ∧
      (row.replacedAt = old.replacedAt ∨ row.replacedAt ≠ none) := by
  obtain ⟨hmem, hkey⟩ := Rows.find?_eq_some.mp hrow
  rw [h.store] at hmem
  rcases piece_tokens hmem with ⟨old, hold, rfl | rfl⟩ | ⟨hdraws, hhash, -⟩ |
    ⟨m, token', clientId, fresh, rfl, old, hold, -, rfl⟩
  · exact ⟨row, Rows.find?_eq_some.mpr ⟨hold, hkey⟩, .inl rfl⟩
  · exact ⟨old, Rows.find?_eq_some.mpr ⟨hold, hkey⟩, .inl rfl⟩
  · have hsame : token = i.draw := p.sha256Hex_injective (hkey.symm.trans hhash)
    exact absurd (hsame ▸ hdrawn) (h.drawn.fresh hdraws).1
  · exact ⟨old, Rows.find?_eq_some.mpr ⟨hold, hkey⟩, .inr (by simp)⟩

/-- An outcome was one before, or is the pair whose second token was just stored. -/
theorem Ran.outcome (hinv : RaceInv p g) (h : Ran p g g' t c f i) {token : Text}
    {response : TokenResponse} (ho : Outcome g' token response) :
    Outcome g token response ∨ ∃ m clientId access, f = .mintRefresh m (.rotation token clientId) access ∧
      (piece p g.shared.store f i).2 = .inl (.sealing m token clientId response) := by
  cases ho with
  | logged clientId ended hlog =>
    left
    rcases h.log_cases hlog with hold | ⟨hc, hr⟩
    · exact .logged clientId ended hold
    · have hbelong := hinv.belong t c f h.before
      rw [show c = .tokensRefresh token clientId from hc.symm] at hbelong
      rcases piece_refreshed_ok hr with ⟨m, token', clientId', rfl⟩ |
        ⟨token', familyId, json, rfl, hopen⟩
      · obtain ⟨rfl, rfl⟩ := Call.tokensRefresh.inj hbelong
        exact .sealing t c m clientId h.before
      · obtain ⟨clientId', heq⟩ := hbelong
        obtain ⟨rfl, -⟩ := Call.tokensRefresh.inj heq
        exact .replaying t c familyId json h.before hopen
  | snapshot row json hrow hjson hopen =>
    left
    obtain ⟨hmem, hkey⟩ := Rows.find?_eq_some.mp hrow
    rw [h.store] at hmem
    rcases piece_tokens hmem with ⟨old, hold, rfl | rfl⟩ | ⟨-, -, -, -, hnone⟩ |
      ⟨m, token', clientId, fresh, rfl, old, hold, hhash, rfl⟩
    · exact .snapshot row json (Rows.find?_eq_some.mpr ⟨hold, hkey⟩) hjson hopen
    · exact absurd hjson (by simp)
    · exact absurd (hjson.symm.trans hnone) (by simp)
    · -- the snapshot just sealed opens to the pair
      obtain rfl : token' = token := p.sha256Hex_injective (hhash.symm.trans hkey)
      rw [← Option.some.inj hjson, p.open_seal] at hopen
      rw [← Option.some.inj hopen]
      exact .sealing t c m clientId h.before
  | replaying u c' familyId json hpool hopen =>
    left
    rcases h.pool u c' _ hpool with ⟨-, hold⟩ | ⟨rfl, rfl, hnext⟩
    · exact .replaying u c' familyId json hold hopen
    · obtain ⟨-, row, hrow, -, -, hjson⟩ := piece_replaying hnext
      exact .snapshot row json hrow hjson hopen
  | sealing u c' m clientId hpool =>
    rcases h.pool u c' _ hpool with ⟨-, hold⟩ | ⟨rfl, rfl, hnext⟩
    · exact .inl (.sealing u c' m clientId hold)
    · obtain ⟨access, rfl⟩ := piece_sealing hnext
      exact .inr ⟨m, clientId, access, rfl, hnext⟩

/-- A token is served as before, by the end of its rotation, or by a lookup that finds a snapshot. -/
theorem Ran.served (hinv : RaceInv p g) (h : Ran p g g' t c f i) {token : Text}
    (hs : Served g' token) :
    Served g token ∨ (∃ m clientId fresh, f = .sealing m token clientId fresh) ∨
      ∃ familyId json, (piece p g.shared.store f i).2 = .inl (.replaying token familyId json) := by
  cases hs with
  | logged clientId response ended hlog =>
    rcases h.log_cases hlog with hold | ⟨hc, hr⟩
    · exact .inl (.logged clientId response ended hold)
    · have hbelong := hinv.belong t c f h.before
      rw [show c = .tokensRefresh token clientId from hc.symm] at hbelong
      rcases piece_refreshed_ok hr with ⟨m, token', clientId', rfl⟩ |
        ⟨token', familyId, json, rfl, hopen⟩
      · obtain ⟨rfl, rfl⟩ := Call.tokensRefresh.inj hbelong
        exact .inr (.inl ⟨m, clientId, response, rfl⟩)
      · obtain ⟨clientId', heq⟩ := hbelong
        obtain ⟨rfl, -⟩ := Call.tokensRefresh.inj heq
        exact .inl (.replaying t c familyId json h.before)
  | replaying u c' familyId json hpool =>
    rcases h.pool u c' _ hpool with ⟨-, hold⟩ | ⟨rfl, rfl, hnext⟩
    · exact .inl (.replaying u c' familyId json hold)
    · exact .inr (.inr ⟨familyId, json, hnext⟩)

/-! ### One piece keeps the invariant -/

/-- What the tables have of drawn values. -/
theorem RaceInv.tables (hinv : RaceInv p g) (h : Ran p g g' t c f i) {row : TokenRow}
    (hrow : row ∈ g'.shared.store.tokens.rows) :
    (∃ token ∈ g'.shared.drawn, row.tokenHash = p.sha256Hex token) ∧
      row.familyId ∈ g'.shared.drawn ∧ (row.replacedAt = none → row.replayJson = none) := by
  have hold : ∀ {old}, old ∈ g.shared.store.tokens.rows →
      (∃ token ∈ g'.shared.drawn, old.tokenHash = p.sha256Hex token) ∧
        old.familyId ∈ g'.shared.drawn := by
    intro old hold
    obtain ⟨token, hdrawn, hhash⟩ := hinv.hashed old hold
    exact ⟨⟨token, h.drawn.subset hdrawn, hhash⟩, h.drawn.subset (hinv.families old hold)⟩
  rw [h.store] at hrow
  rcases piece_tokens hrow with ⟨old, hmem, rfl | rfl⟩ | ⟨hdraws, hhash, hfamily, -, hjson⟩ |
    ⟨m, token, clientId, fresh, -, old, hmem, -, rfl⟩
  · exact ⟨(hold hmem).1, (hold hmem).2, hinv.plain row hmem⟩
  · exact ⟨(hold hmem).1, (hold hmem).2, fun _ => rfl⟩
  · refine ⟨⟨i.draw, ?_, hhash⟩, ?_, fun _ => hjson⟩
    · rw [(h.drawn.fresh hdraws).2]
      exact List.mem_cons_self
    · exact h.drawn.subset (hinv.minting t c f _ h.before hfamily)
  · exact ⟨(hold hmem).1, (hold hmem).2, fun hnone => absurd hnone (by simp)⟩

/-- The families and tokens that the frames name were drawn. -/
theorem RaceInv.frames (hinv : RaceInv p g) (h : Ran p g g' t c f i) {u : ℕ} {c' : Call} {f' : Frame}
    (hu : g'.pool u = some (c', f')) :
    (∀ familyId, f'.mintsIn = some familyId → familyId ∈ g'.shared.drawn) ∧
      (∀ token familyId json, f' = .replaying token familyId json → familyId ∈ g'.shared.drawn) ∧
      ∀ token, f'.rotates = some token → token ∈ g'.shared.drawn := by
  rcases h.pool u c' f' hu with ⟨-, hold⟩ | ⟨rfl, rfl, hnext⟩
  · refine ⟨fun familyId hf => ?_, fun token familyId json hf => ?_, fun token hf => ?_⟩
    · exact h.drawn.subset (hinv.minting u c' f' familyId hold hf)
    · subst hf
      exact h.drawn.subset (hinv.replaying u c' token familyId json hold)
    · exact h.drawn.subset (hinv.rotating u c' f' token hold hf)
  · refine ⟨fun familyId hf => ?_, fun token familyId json hf => ?_, fun token hf => ?_⟩
    · rcases piece_mintsIn hnext hf with hold | ⟨hdraws, rfl⟩ |
        ⟨token, row, ⟨clientId, scope, -, -, hrow, -⟩, rfl⟩
      · exact h.drawn.subset (hinv.minting u c' f familyId h.before hold)
      · rw [(h.drawn.fresh hdraws).2]
        exact List.mem_cons_self
      · have hmem := (Rows.find?_eq_some.mp (revocable_eq_some.mp hrow).1).1
        exact h.drawn.subset (hinv.families row hmem)
    · subst hf
      obtain ⟨-, row, hrow, rfl, -⟩ := piece_replaying hnext
      exact h.drawn.subset (hinv.families row (Rows.find?_eq_some.mp hrow).1)
    · rcases piece_rotates hnext hf with hold | ⟨row, clientId, scope, -, -, hrow, -⟩
      · exact h.drawn.subset (hinv.rotating u c' f token h.before hold)
      · exact h.drawn.subset (hinv.drawn_of_row (revocable_eq_some.mp hrow).1)

/-- A token that was served has no unreplaced row. -/
theorem RaceInv.replaced_step (hinv : RaceInv p g) (h : Ran p g g' t c f i) {token : Text}
    (hs : Served g' token) {row : TokenRow}
    (hrow : g'.shared.store.tokens.find? (p.sha256Hex token) = some row) : row.replacedAt ≠ none := by
  rcases h.served hinv hs with hold | ⟨m, clientId, fresh, rfl⟩ | ⟨familyId, json, hnext⟩
  · obtain ⟨old, hfound, hsame | hmarked⟩ := h.old_row (hinv.served token hold) hrow
    · rw [hsame]
      exact hinv.replaced token hold old hfound
    · exact hmarked
  · -- the rotation's last write is on this row
    obtain ⟨hmem, hkey⟩ := Rows.find?_eq_some.mp hrow
    rw [h.store] at hmem
    obtain ⟨old, -, heq⟩ := List.mem_map.mp hmem
    by_cases hhash : old.tokenHash = p.sha256Hex token
    · rw [if_pos hhash] at heq
      rw [← heq]
      simp
    · rw [if_neg hhash] at heq
      exact absurd (heq ▸ hkey) hhash
  · obtain ⟨-, old, hfound, -, hreplaced, -⟩ := piece_replaying hnext
    obtain ⟨old', hfound', hsame | hmarked⟩ := h.old_row (hinv.drawn_of_row hfound) hrow
    · rw [hsame, Option.some.inj (hfound'.symm.trans hfound)]
      exact hreplaced
    · exact hmarked

theorem RaceInv.served_step (hinv : RaceInv p g) (h : Ran p g g' t c f i) {token : Text}
    (hs : Served g' token) : token ∈ g'.shared.drawn := by
  rcases h.served hinv hs with hold | ⟨m, clientId, fresh, rfl⟩ | ⟨familyId, json, hnext⟩
  · exact h.drawn.subset (hinv.served token hold)
  · exact h.drawn.subset (hinv.rotating t c _ token h.before rfl)
  · obtain ⟨-, row, hrow, -⟩ := piece_replaying hnext
    exact h.drawn.subset (hinv.drawn_of_row hrow)

/-- A rotation that starts finds no outcome of its token. -/
theorem RaceInv.no_outcome (hinv : RaceInv p g) (h : Ran p g g' t c f i) {token : Text}
    {row : TokenRow} (hstart : StartsRotation g.shared.store p f i token row)
    (hnone : NoRotation g token) (response : TokenResponse) : ¬ Outcome g' token response := by
  intro ho
  obtain ⟨clientId, scope, rfl, -, hrow, -, -, hplain⟩ := hstart
  have hfound := (revocable_eq_some.mp hrow).1
  rcases h.outcome hinv ho with hold | ⟨m, clientId', access, heq, -⟩
  · cases hold with
    | logged clientId ended hlog =>
      exact hinv.replaced token (.logged clientId response ended hlog) row hfound hplain
    | snapshot row' json hrow' hjson hopen =>
      obtain rfl : row' = row := Option.some.inj (hrow'.symm.trans hfound)
      have := hinv.plain row' (Rows.find?_eq_some.mp hfound).1 hplain
      exact absurd (hjson.symm.trans this) (by simp)
    | replaying u c' familyId json hpool hopen =>
      exact hinv.replaced token (.replaying u c' familyId json hpool) row hfound hplain
    | sealing u c' m clientId hpool => exact hnone u c' _ hpool rfl
  · exact absurd heq (by simp)

/-- A token in rotation without its whole pair still has no outcome. -/
theorem RaceInv.unanswered_step (hinv : RaceInv p g) (h : Ran p g g' t c f i)
    (hq : Quiet g (.resume t i)) {u : ℕ} {c' : Call} {f' : Frame} {token : Text}
    (hu : g'.pool u = some (c', f')) (hf : f'.rotates = some token) (hmints : f'.mintsIn.isSome)
    (response : TokenResponse) : ¬ Outcome g' token response := by
  intro ho
  rcases h.pool u c' f' hu with ⟨hne, hold⟩ | ⟨rfl, rfl, hnext⟩
  · rcases h.outcome hinv ho with ho | ⟨m, clientId, access, rfl, -⟩
    · exact hinv.unanswered u c' f' token hold hf hmints response ho
    · exact hne (hinv.alone u t c' c f' _ token hold h.before hf rfl)
  · rcases piece_rotates hnext hf with hrotates | ⟨row, hstart⟩
    · have hmints' : f.mintsIn.isSome := by
        obtain ⟨familyId, hfamily⟩ := Option.isSome_iff_exists.mp hmints
        rcases piece_mintsIn hnext hfamily with hold | ⟨-, -⟩ | ⟨token', row, ⟨_, _, rfl, -⟩, -⟩
        · rw [hold]
          rfl
        · cases f with
          | sealing m token' clientId fresh => exact absurd hnext (by simp [piece])
          | mintAccess m goal => rfl
          | mintRefresh m goal access => rfl
          | _ => exact absurd hrotates (by simp [Frame.rotates])
        · exact absurd hrotates (by simp [Frame.rotates])
      rcases h.outcome hinv ho with ho | ⟨m, clientId, access, rfl, hsealing⟩
      · exact hinv.unanswered u c' f token h.before hrotates hmints' response ho
      · obtain rfl := Sum.inl.inj (hnext.symm.trans hsealing)
        exact absurd hmints (by simp [Frame.mintsIn])
    · exact hinv.no_outcome h hstart (hq.rotation h.before hstart) response ho

theorem RaceInv.one_step (hinv : RaceInv p g) (h : Ran p g g' t c f i) {token : Text}
    {response response' : TokenResponse} (ho : Outcome g' token response)
    (ho' : Outcome g' token response') : response = response' := by
  rcases h.outcome hinv ho with ho | ⟨m, clientId, access, rfl, hnext⟩
  · rcases h.outcome hinv ho' with ho' | ⟨m, clientId, access, rfl, -⟩
    · exact hinv.one token response response' ho ho'
    · exact absurd ho (hinv.unanswered t c _ token h.before rfl rfl response)
  · rcases h.outcome hinv ho' with ho' | ⟨m', clientId', access', -, hnext'⟩
    · exact absurd ho' (hinv.unanswered t c _ token h.before rfl rfl response')
    · exact (Frame.sealing.inj (Sum.inl.inj (hnext.symm.trans hnext'))).2.2.2

theorem RaceInv.alone_step (hinv : RaceInv p g) (h : Ran p g g' t c f i)
    (hq : Quiet g (.resume t i)) {u v : ℕ} {c₁ c₂ : Call} {f₁ f₂ : Frame} {token : Text}
    (hu : g'.pool u = some (c₁, f₁)) (hv : g'.pool v = some (c₂, f₂))
    (hf : f₁.rotates = some token) (hf' : f₂.rotates = some token) : u = v := by
  rcases h.pool u c₁ f₁ hu with ⟨-, hold⟩ | ⟨rfl, rfl, hnext⟩
  · rcases h.pool v c₂ f₂ hv with ⟨-, hold'⟩ | ⟨rfl, rfl, hnext'⟩
    · exact hinv.alone u v c₁ c₂ f₁ f₂ token hold hold' hf hf'
    · rcases piece_rotates hnext' hf' with hrotates | ⟨row, hstart⟩
      · exact hinv.alone u v c₁ c₂ f₁ f token hold h.before hf hrotates
      · exact absurd hf (hq.rotation h.before hstart u c₁ f₁ hold)
  · rcases h.pool v c₂ f₂ hv with ⟨-, hold'⟩ | ⟨rfl, -, -⟩
    · rcases piece_rotates hnext hf with hrotates | ⟨row, hstart⟩
      · exact hinv.alone u v c₁ c₂ f f₂ token h.before hold' hrotates hf'
      · exact absurd hf' (hq.rotation h.before hstart v c₂ f₂ hold')
    · rfl

/-- A family that was ended stays so. -/
theorem RaceInv.ended_step (hinv : RaceInv p g) (h : Ran p g g' t c f i)
    (hq : Quiet g (.resume t i)) {entry : Call × Ret} (hentry : entry ∈ g'.log) {familyId : Text}
    (hended : entry.2.ended = some familyId) :
    familyId ∈ g'.shared.drawn ∧ NoMinting g' familyId ∧
      ∀ row ∈ g'.shared.store.tokens.rows, row.familyId ≠ familyId := by
  rcases h.log_cases hentry with hold | ⟨-, hr⟩
  · obtain ⟨hdrawn, hnone, hrows⟩ := hinv.ended entry hold familyId hended
    refine ⟨h.drawn.subset hdrawn, fun u c' f' hu hf => ?_, fun row hrow => ?_⟩
    · rcases h.pool u c' f' hu with ⟨-, hold⟩ | ⟨rfl, rfl, hnext⟩
      · exact hnone u c' f' hold hf
      · rcases piece_mintsIn hnext hf with hold | ⟨hdraws, rfl⟩ |
          ⟨token, row, ⟨clientId, scope, -, -, hrow, -⟩, rfl⟩
        · exact hnone u c' f h.before hold
        · exact (h.drawn.fresh hdraws).1 hdrawn
        · exact hrows row (Rows.find?_eq_some.mp (revocable_eq_some.mp hrow).1).1 rfl
    · rw [h.store] at hrow
      rcases piece_tokens hrow with ⟨old, hmem, rfl | rfl⟩ | ⟨-, -, hfamily, -⟩ |
        ⟨m, token, clientId, fresh, -, old, hmem, -, rfl⟩
      · exact hrows row hmem
      · exact hrows old hmem
      · intro heq
        exact hnone t c f h.before (heq ▸ hfamily)
      · exact hrows old hmem
  · have hnone := hq.ends h.before hr hended
    obtain ⟨hstore, hways⟩ := piece_ended hr hended
    refine ⟨h.drawn.subset ?_, fun u c' f' hu => ?_, fun row hrow => ?_⟩
    · rcases hways with ⟨token, clientId, row, -, hrow, -, -, -, -, rfl⟩ | ⟨token, json, rfl, -⟩ |
        ⟨token, clientId, row, -, hrow, -, rfl⟩
      · exact hinv.families row (Rows.find?_eq_some.mp (revocable_eq_some.mp hrow).1).1
      · exact hinv.replaying t c token familyId json h.before
      · exact hinv.families row (Rows.find?_eq_some.mp (revocable_eq_some.mp hrow).1).1
    · rcases h.pool u c' f' hu with ⟨-, hold⟩ | ⟨-, -, hnext⟩
      · exact hnone u c' f' hold
      · exact absurd (hr.symm.trans hnext) (by simp)
    · rw [h.store, hstore] at hrow
      exact of_decide_eq_true (Rows.mem_filter.mp hrow).2

/-- A grant that was revoked is gone for good. -/
theorem RaceInv.revoked_step (hinv : RaceInv p g) (h : Ran p g g' t c f i) {userId grantId : Text}
    (hlog : (Call.grantRevoke userId grantId, Ret.grantRevoked (.ok ())) ∈ g'.log) :
    grantId ∈ g'.shared.drawn ∧ g'.shared.store.grants.find? grantId = none := by
  rcases h.log_cases hlog with hold | ⟨hc, hr⟩
  · obtain ⟨hdrawn, hnone⟩ := hinv.revoked userId grantId hold
    refine ⟨h.drawn.subset hdrawn, ?_⟩
    rw [Option.eq_none_iff_forall_ne_some]
    intro row hrow
    obtain ⟨hmem, hkey⟩ := Rows.find?_eq_some.mp hrow
    rw [h.store] at hmem
    rcases piece_grants hmem with ⟨old, hmem', hid⟩ | ⟨hdraws, hid⟩
    · exact absurd (Rows.find?_eq_some.mpr ⟨hmem', hid.trans hkey⟩) (by rw [hnone]; simp)
    · exact (h.drawn.fresh hdraws).1 ((hid.symm.trans hkey) ▸ hdrawn)
  · obtain ⟨userId', grantId', rfl, hanswer⟩ := piece_grantRevoked hr
    have hbelong := hinv.belong t c _ h.before
    rw [show c = .grantRevoke userId grantId from hc.symm] at hbelong
    obtain ⟨rfl, rfl⟩ := Call.grantRevoke.inj hbelong
    rw [h.store]
    simp only [piece]
    unfold grantRevoke at hanswer ⊢
    split at hanswer
    · exact absurd hanswer (by simp)
    rename_i row hrow
    have hid := List.find?_some hrow
    rw [decide_eq_true_eq] at hid
    refine ⟨h.drawn.subset (hid.1 ▸ hinv.grantIds row (List.mem_of_find?_eq_some hrow)), ?_⟩
    rw [Rows.find?_filter]
    cases hfound : g.shared.store.grants.find? grantId with
    | none => rfl
    | some found => simp [(Rows.find?_eq_some.mp hfound).2]

/-- **Step lemma.** A quiet step of the server keeps the invariant. -/
theorem RaceInv.step (hinv : RaceInv p g) {e : Coop.Event (server p)} (hq : Quiet g e)
    (hstep : Coop.step g e = some g') : RaceInv p g' := by
  have hbelong := hinv.belong.step hstep
  rcases server_step hstep with ⟨t, c, rfl, rfl⟩ | ⟨t, i, c, f, rfl, h⟩
  · -- a call that was just made neither rotates nor mints nor replays
    have hframe : ∀ {u c' f'}, Function.update g.pool t (some (c, Call.start c)) u = some (c', f') →
        g.pool u = some (c', f') ∨ (f'.rotates = none ∧ f'.mintsIn = none ∧
          (∀ token familyId json, f' ≠ .replaying token familyId json) ∧
          ∀ m token clientId fresh, f' ≠ .sealing m token clientId fresh) := by
      intro u c' f' hu
      rcases Coop.pool_update_cases hu with ⟨-, heq⟩ | ⟨-, hold⟩
      · obtain ⟨rfl, rfl⟩ := Prod.mk.inj (Option.some.inj heq)
        right
        cases c <;> exact ⟨rfl, rfl, by simp [Call.start], by simp [Call.start]⟩
      · exact .inl hold
    have houtcome : ∀ {token response}, Outcome { g with
        pool := Function.update g.pool t (some (c, Call.start c)) } token response →
        Outcome g token response := by
      intro token response ho
      cases ho with
      | logged clientId ended hlog => exact .logged clientId ended hlog
      | snapshot row json hrow hjson hopen => exact .snapshot row json hrow hjson hopen
      | replaying u c' familyId json hpool hopen =>
        rcases hframe hpool with hold | ⟨-, -, hnot, -⟩
        · exact .replaying u c' familyId json hold hopen
        · exact absurd rfl (hnot token familyId json)
      | sealing u c' m clientId hpool =>
        rcases hframe hpool with hold | ⟨-, -, -, hnot⟩
        · exact .sealing u c' m clientId hold
        · exact absurd rfl (hnot m token clientId response)
    have hserved : ∀ {token}, Served { g with
        pool := Function.update g.pool t (some (c, Call.start c)) } token → Served g token := by
      intro token hs
      cases hs with
      | logged clientId response ended hlog => exact .logged clientId response ended hlog
      | replaying u c' familyId json hpool =>
        rcases hframe hpool with hold | ⟨-, -, hnot, -⟩
        · exact .replaying u c' familyId json hold
        · exact absurd rfl (hnot token familyId json)
    refine ⟨hbelong, hinv.hashed, hinv.families, fun u c' f' familyId hu hf => ?_,
      fun u c' token familyId json hu => ?_, hinv.plain, fun u c' f' token hu hf => ?_,
      fun token hs => hinv.served token (hserved hs),
      fun token r r' ho ho' => hinv.one token r r' (houtcome ho) (houtcome ho'),
      fun u c' f' token hu hf hmints r ho => ?_, fun u v c₁ c₂ f₁ f₂ token hu hv hf hf' => ?_,
      fun token hs => hinv.replaced token (hserved hs), fun entry hentry familyId hended => ?_,
      hinv.grantIds, hinv.revoked⟩
    · rcases hframe hu with hold | ⟨-, hnone, -⟩
      · exact hinv.minting u c' f' familyId hold hf
      · exact absurd (hf.symm.trans hnone) (by simp)
    · rcases hframe hu with hold | ⟨-, -, hnot, -⟩
      · exact hinv.replaying u c' token familyId json hold
      · exact absurd rfl (hnot token familyId json)
    · rcases hframe hu with hold | ⟨hnone, -⟩
      · exact hinv.rotating u c' f' token hold hf
      · exact absurd (hf.symm.trans hnone) (by simp)
    · rcases hframe hu with hold | ⟨hnone, -⟩
      · exact hinv.unanswered u c' f' token hold hf hmints r (houtcome ho)
      · exact absurd (hf.symm.trans hnone) (by simp)
    · rcases hframe hu with hold | ⟨hnone, -⟩
      · rcases hframe hv with hold' | ⟨hnone, -⟩
        · exact hinv.alone u v c₁ c₂ f₁ f₂ token hold hold' hf hf'
        · exact absurd (hf'.symm.trans hnone) (by simp)
      · exact absurd (hf.symm.trans hnone) (by simp)
    · obtain ⟨hdrawn, hnone, hrows⟩ := hinv.ended entry hentry familyId hended
      refine ⟨hdrawn, fun u c' f' hu hf => ?_, hrows⟩
      rcases hframe hu with hold | ⟨-, hnone', -⟩
      · exact hnone u c' f' hold hf
      · exact absurd (hf.symm.trans hnone') (by simp)
  · refine ⟨hbelong, fun row hrow => (hinv.tables h hrow).1, fun row hrow => (hinv.tables h hrow).2.1,
      fun u c' f' familyId hu => (hinv.frames h hu).1 familyId,
      fun u c' token familyId json hu => (hinv.frames h hu).2.1 token familyId json rfl,
      fun row hrow => (hinv.tables h hrow).2.2, fun u c' f' token hu => (hinv.frames h hu).2.2 token,
      fun token hs => hinv.served_step h hs, fun token r r' ho ho' => hinv.one_step h ho ho',
      fun u c' f' token hu hf hmints => hinv.unanswered_step h hq hu hf hmints,
      fun u v c₁ c₂ f₁ f₂ token hu hv hf hf' => hinv.alone_step h hq hu hv hf hf',
      fun token hs row hrow => hinv.replaced_step h hs hrow,
      fun entry hentry familyId hended => hinv.ended_step h hq hentry hended,
      fun row hrow => ?_, fun userId grantId hlog => hinv.revoked_step h hlog⟩
    rw [h.store] at hrow
    rcases piece_grants hrow with ⟨old, hmem, hid⟩ | ⟨hdraws, hid⟩
    · exact h.drawn.subset (hid ▸ hinv.grantIds old hmem)
    · rw [hid, (h.drawn.fresh hdraws).2]
      exact List.mem_cons_self

theorem RaceInv.start : RaceInv p (freshServer p) where
  belong := fun _ _ _ h => absurd h (by simp [freshServer, Coop.idle])
  hashed := fun _ h => absurd h List.not_mem_nil
  families := fun _ h => absurd h List.not_mem_nil
  minting := fun _ _ _ _ h => absurd h (by simp [freshServer, Coop.idle])
  replaying := fun _ _ _ _ _ h => absurd h (by simp [freshServer, Coop.idle])
  plain := fun _ h => absurd h List.not_mem_nil
  rotating := fun _ _ _ _ h => absurd h (by simp [freshServer, Coop.idle])
  served := fun _ h => by
    cases h with
    | logged _ _ _ h => exact absurd h List.not_mem_nil
    | replaying _ _ _ _ h => exact absurd h (by simp [freshServer, Coop.idle])
  one := fun _ _ _ h _ => by
    cases h with
    | logged _ _ h => exact absurd h List.not_mem_nil
    | snapshot _ _ h => exact absurd h (by simp [freshServer, Coop.idle, emptyStore, Rows.find?])
    | replaying _ _ _ _ h => exact absurd h (by simp [freshServer, Coop.idle])
    | sealing _ _ _ _ h => exact absurd h (by simp [freshServer, Coop.idle])
  unanswered := fun _ _ _ _ h => absurd h (by simp [freshServer, Coop.idle])
  alone := fun _ _ _ _ _ _ _ h => absurd h (by simp [freshServer, Coop.idle])
  replaced := fun _ _ _ h => absurd h (by simp [freshServer, Coop.idle, emptyStore, Rows.find?])
  ended := fun _ h => absurd h List.not_mem_nil
  grantIds := fun _ h => absurd h List.not_mem_nil
  revoked := fun _ _ h => absurd h List.not_mem_nil

/-- **Quiet runs.**  In every run in which no rotation of a token starts during another one of it,
    and no family is ended while a pair is being minted in it, a refresh token has one outcome and
    revocations are final. -/
theorem refresh_quiet (h : Reaches Coop.step Quiet (freshServer p) g) :
    RotatedOnce g.log ∧ RevokedForGood p g := by
  have hinv : RaceInv p g :=
    h.invariant (RaceInv p) (fun _ _ _ hinv hq hstep => hinv.step hq hstep) RaceInv.start
  refine ⟨fun token clientId clientId' r r' ended ended' hlog hlog' => ?_,
    fun entry hentry familyId hended token row hrow hfamily _ => ?_,
    fun userId grantId hlog token row hrow hgrant hacc => ?_⟩
  · exact hinv.one token r r' (.logged clientId ended hlog) (.logged clientId' ended' hlog')
  · obtain ⟨-, -, hrows⟩ := hinv.ended entry hentry familyId hended
    exact hrows row (Rows.find?_eq_some.mp hrow).1 hfamily
  · obtain ⟨-, hnone⟩ := hinv.revoked userId grantId hlog
    obtain ⟨row', grant, hrow', hfound⟩ := hacc.row
    obtain rfl : row' = row := Option.some.inj (hrow'.symm.trans hrow)
    rw [hgrant, hnone] at hfound
    exact absurd hfound (by simp)

end

/-! ### Three runs -/

/-- A call that runs while no other is in flight is quiet. -/
theorem quiet_of_solo {g : Coop.Config (server p)} {e : Coop.Event (server p)}
    (h : Coop.Solo g e) : Quiet g e := by
  cases e with
  | call t c => trivial
  | resume t i =>
    intro c f hpool
    have hrotation : ∀ {token}, f.rotates = none → NoRotation g token := by
      intro token hf u c' f' hu
      by_cases hne : u = t
      · subst hne
        obtain ⟨rfl, rfl⟩ := Prod.mk.inj (Option.some.inj (hu.symm.trans hpool))
        rw [hf]
        simp
      · exact absurd (hu.symm.trans (h u hne)) (by simp)
    have hminting : ∀ {familyId}, f.mintsIn = none → NoMinting g familyId := by
      intro familyId hf u c' f' hu
      by_cases hne : u = t
      · subst hne
        obtain ⟨rfl, rfl⟩ := Prod.mk.inj (Option.some.inj (hu.symm.trans hpool))
        rw [hf]
        simp
      · exact absurd (hu.symm.trans (h u hne)) (by simp)
    cases f with
    | refreshHashed token clientId =>
      intro row _ _ _
      split
      · exact hrotation rfl
      · exact .inr (hminting rfl)
    | replaying token familyId json => exact fun _ => hminting rfl
    | tokenRevoke token clientId => exact fun row _ _ => hminting rfl
    | _ => trivial

/-- One call after the other: a rotation, its replay, and a revocation. -/
def quietRun : List (Coop.Event (server clearPlatform)) :=
  exchangeRun fullForm ++
  alone 3 (.tokensRefresh "r" "c")
    [⟨3, [], []⟩, ⟨3, [], []⟩, ⟨3, "a1", []⟩, ⟨3, "r1", []⟩, ⟨3, [], "iv"⟩] ++
  alone 4 (.tokensRefresh "r" "c") [⟨4, [], []⟩, ⟨4, [], []⟩, ⟨4, [], []⟩] ++
  alone 5 (.tokenRevoke "r1" "c") [⟨5, [], []⟩]

theorem refresh_quiet_quietRun :
    ∃ g, execGuarded Coop.step (Coop.soloBelow 6) (freshServer clearPlatform) quietRun = some g ∧
      (RotatedOnce g.log ∧ RevokedForGood clearPlatform g) ∧
      (g.log.countP fun entry => match entry.2 with
        | .refreshed (.ok response) _ => decide (response = ⟨"a1", "r1", "kody"⟩)
        | _ => false) = 2 ∧
      (accessTokenResolve clearPlatform 6 "a1" g.shared.store).isSome = false := by
  have hrun : (execGuarded Coop.step (Coop.soloBelow 6) (freshServer clearPlatform) quietRun).map
      (fun g => (g.log.countP fun entry => match entry.2 with
          | .refreshed (.ok response) _ => decide (response = ⟨"a1", "r1", "kody"⟩)
          | _ => false,
        (accessTokenResolve clearPlatform 6 "a1" g.shared.store).isSome)) = some (2, false) := by
    decide +kernel
  obtain ⟨g, hg, hseen⟩ := Option.map_eq_some_iff.mp hrun
  obtain ⟨hcount, hresolve⟩ := Prod.mk.inj hseen
  have hreaches := (Coop.reaches_of_soloBelow (fun _ _ => rfl) hg).mono fun _ _ => quiet_of_solo
  exact ⟨g, hg, refresh_quiet hreaches, hcount, hresolve⟩

/-- Two callers present one token, and both look it up before either marks it replaced. -/
def doubleRotation : List (Coop.Event (server clearPlatform)) :=
  exchangeRun fullForm ++
  [.call 3 (.tokensRefresh "r" "c"), .call 4 (.tokensRefresh "r" "c"),
   .resume 3 ⟨3, [], []⟩, .resume 4 ⟨3, [], []⟩, .resume 3 ⟨3, [], []⟩, .resume 4 ⟨3, [], []⟩,
   .resume 3 ⟨3, "a1", []⟩, .resume 3 ⟨3, "r1", []⟩, .resume 3 ⟨3, [], "iv1"⟩,
   .resume 4 ⟨3, "a2", []⟩, .resume 4 ⟨3, "r2", []⟩, .resume 4 ⟨3, [], "iv2"⟩]

/-- The family is revoked between the lookup of a rotation and its `INSERT`s. -/
def revokedRotation : List (Coop.Event (server clearPlatform)) :=
  exchangeRun fullForm ++
  [.call 3 (.tokensRefresh "r" "c"), .resume 3 ⟨3, [], []⟩, .resume 3 ⟨3, [], []⟩,
   .call 4 (.tokenRevoke "r" "c"), .resume 4 ⟨4, [], []⟩,
   .resume 3 ⟨5, "a1", []⟩, .resume 3 ⟨5, "r1", []⟩, .resume 3 ⟨5, [], "iv"⟩]

/-- **Races.**  Two callers can be answered with two different pairs for one refresh token, and a pair
    minted across a revocation of its family is accepted after it. -/
theorem refreshRaces :
    (∃ g, exec Coop.step (freshServer clearPlatform) doubleRotation = some g ∧
      Reaches Coop.step (fun _ _ => True) (freshServer clearPlatform) g ∧ ¬ RotatedOnce g.log) ∧
    ∃ g, exec Coop.step (freshServer clearPlatform) revokedRotation = some g ∧
      Reaches Coop.step (fun _ _ => True) (freshServer clearPlatform) g ∧
      ¬ RevokedForGood clearPlatform g := by
  constructor
  · have hrun : (exec Coop.step (freshServer clearPlatform) doubleRotation).map (fun g =>
        decide ((Call.tokensRefresh "r" "c", Ret.refreshed (.ok ⟨"a1", "r1", "kody"⟩) none) ∈ g.log) &&
        decide ((Call.tokensRefresh "r" "c", Ret.refreshed (.ok ⟨"a2", "r2", "kody"⟩) none) ∈ g.log)) =
        some true := by
      decide +kernel
    obtain ⟨g, hg, hseen⟩ := Option.map_eq_some_iff.mp hrun
    rw [Bool.and_eq_true, decide_eq_true_eq, decide_eq_true_eq] at hseen
    refine ⟨g, hg, reaches_of_exec hg, fun honce => ?_⟩
    exact absurd (honce _ _ _ _ _ _ _ hseen.1 hseen.2) (by decide)
  · have hrun : (exec Coop.step (freshServer clearPlatform) revokedRotation).map (fun g =>
        decide ((Call.tokenRevoke "r" "c", Ret.revoked true (some "f")) ∈ g.log) &&
        decide ((g.shared.store.tokens.find? "a1").map TokenRow.familyId = (some "f" : Option Text)) &&
        (accessTokenResolve clearPlatform 6 "a1" g.shared.store).isSome) = some true := by
      decide +kernel
    obtain ⟨g, hg, hseen⟩ := Option.map_eq_some_iff.mp hrun
    rw [Bool.and_eq_true, Bool.and_eq_true, decide_eq_true_eq, decide_eq_true_eq] at hseen
    obtain ⟨⟨hlog, hfamily⟩, hresolve⟩ := hseen
    obtain ⟨row, hrow, hf⟩ := Option.map_eq_some_iff.mp hfamily
    exact ⟨g, hg, reaches_of_exec hg,
      fun hfinal => hfinal.1 _ hlog "f" rfl "a1" row hrow hf ⟨6, .inl hresolve⟩⟩

end KodyCelld.OAuth
