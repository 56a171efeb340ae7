import KodyCelld.Mcp.Lineage

namespace KodyCelld.Mcp

open KodyCelld.Lib

/-!
# Sign-ins are fenced by the server row

Over every interleaving of the calls: a grant is committed only to the row, URL and client its sign-in
was begun for, ids are never used again, and what a sign-in writes stays with the row it was begun for.

* `Fenced` — the property;
* `inPlace` — the steps that do not run into the windows it breaks in: a save inserts with the id of a
  row that is gone, and a sign-in writes by name after the check of the id;
* `Calm` — the statements that leave ids, and what sign-ins wrote, alone;
* `mcp_fenced` — every run of such steps is fenced;
* `idReturns` — a removed id that comes back.
-/

/-! ### The property -/

/-- The grant was committed for a sign-in that was begun on the same row, for its URL and the client
    stored there, and the row has no bearer. -/
structure Commit.Fenced (s : McpCell) (c : Commit) : Prop where
  begun : ∃ b ∈ s.begun, { c.pending with completedAt := none } = b.pending ∧
    c.row.id = b.record.id ∧ c.row.url = b.record.url ∧ c.storedClientId = b.pending.clientId
  client : c.storedClientId.isSome = true
  notBearer : c.row.auth ≠ .bearer

/-- **A sign-in is fenced by its row**: grants are committed only where it was begun, a removed server
    never has its id back, and what sign-ins wrote to a server and its OAuth row was begun for it. -/
structure Fenced (s : McpCell) : Prop where
  commits : ∀ c ∈ s.commits, c.Fenced s
  fresh : ∀ row ∈ s.servers.rows, row.id ∉ s.removed
  server : ∀ row ∈ s.servers.rows, ∀ id ∈ row.writers, id = row.id
  oauth : ∀ row ∈ s.servers.rows, ∀ oauth ∈ s.oauth.rows, oauth.serverName = row.name →
    ∀ id ∈ oauth.writers, id = row.id

/-! ### The windows -/

section
variable (p : Platform)

/-- The row under the name, if there is one, is the server `id`. -/
def holds (name id : Text) (s : McpCell) : Bool :=
  (s.row name).all fun row => decide (row.id = id)

/-- No sign-in wrote to the OAuth row of the name. -/
def untouched (name : Text) (s : McpCell) : Bool :=
  (s.oauthRow name).all fun row => decide (row.writers = [])

/-- The piece writes where it was begun: a save that found a row still finds one, one that inserts a
    row finds no trace of a sign-in under its name, and what a sign-in writes by name goes to its own
    row, or to none. -/
def inPlace (s : McpCell) (i : Input) : Frame → Bool
  | .sealingBearer input existing =>
    i.rejected.isSome || (s.row input.name).isSome || (existing.isNone && untouched input.name s)
  | .sealingBegun b _ => i.rejected.isSome || holds b.record.name b.record.id s
  | .savedClient b => b.begun.discovery.isNone || holds b.record.name b.record.id s
  | .parking c _ _ =>
    (s.row c.pending.serverName).all fun row =>
      !McpCell.authApplies p row (some c.pending.serverOrigin) ||
        decide (c.pending.serverId = some row.id)
  | _ => true

/-- The same for a step of the system. -/
def inPlaceStep (g : Coop.Config (mcp p)) : Coop.Event (mcp p) → Bool
  | .call _ _ => true
  | .resume t i =>
    match g.pool t with
    | some (_, f) => inPlace p g.shared i f
    | none => true

end

/-! ### The invariant -/

/-- The attempt is one that was begun. -/
def FromBegun (s : McpCell) (pending : PendingRow) : Prop :=
  ∃ b ∈ s.begun, { pending with completedAt := none } = b.pending

/-- A row has an id of its own, and what sign-ins wrote to it and to the OAuth row was begun for it. -/
structure Own (s : McpCell) (row : ServerRow) (oauth : Option OAuthRow) : Prop where
  issued : row.id ∈ s.issued
  fresh : row.id ∉ s.removed
  server : ∀ id ∈ row.writers, id = row.id
  oauth : ∀ found, oauth = some found → ∀ id ∈ found.writers, id = row.id

/-- A sign-in waits for the callback of the record it was begun on. -/
structure SignIn.OnRecord (b : SignIn) : Prop where
  id : b.pending.serverId = some b.record.id
  url : b.pending.serverUrl = b.record.url

structure SignInInv (s : McpCell) : Prop where
  begun : ∀ b ∈ s.begun, b.OnRecord
  pending : ∀ row ∈ s.pending.rows, FromBegun s row
  commits : ∀ c ∈ s.commits, c.Fenced s
  removed : ∀ id ∈ s.removed, id ∈ s.issued
  rows : ∀ n row, s.row n = some row → Own s row (s.oauthRow n)
  distinct : ∀ n m row row', s.row n = some row → s.row m = some row' → row.id = row'.id → n = m

section
variable {s s' s'' : McpCell} {name : Text} {now : ℕ}

theorem FromBegun.mono {pending : PendingRow} (hbegun : s.begun ⊆ s'.begun)
    (h : FromBegun s pending) : FromBegun s' pending := by
  obtain ⟨b, hb, heq⟩ := h
  exact ⟨b, hbegun hb, heq⟩

theorem Commit.Fenced.mono {c : Commit} (hbegun : s.begun ⊆ s'.begun) (h : c.Fenced s) :
    c.Fenced s' := by
  obtain ⟨b, hb, hsame⟩ := h.begun
  exact ⟨⟨b, hbegun hb, hsame⟩, h.client, h.notBearer⟩

/-! ### The statements that leave ids and traces alone -/

/-- No id and no trace of a sign-in is new; the history is kept. -/
structure Calm (s s' : McpCell) : Prop where
  row : ∀ n row', s'.row n = some row' →
    ∃ row, s.row n = some row ∧ row.id = row'.id ∧ row.writers = row'.writers
  oauth : ∀ n row', s'.oauthRow n = some row' →
    row'.writers = [] ∨ ∃ row, s.oauthRow n = some row ∧ row.writers = row'.writers
  pending : ∀ row' ∈ s'.pending.rows, ∃ row ∈ s.pending.rows,
    { row' with completedAt := none } = { row with completedAt := none }
  begun : s'.begun = s.begun
  commits : s'.commits = s.commits
  issued : s'.issued = s.issued
  removed : s'.removed = s.removed

theorem Calm.trans (h : Calm s s') (h' : Calm s' s'') : Calm s s'' := by
  constructor
  · intro n row'' hrow''
    obtain ⟨row', hrow', hid', hwriters'⟩ := h'.row n row'' hrow''
    obtain ⟨row, hrow, hid, hwriters⟩ := h.row n row' hrow'
    exact ⟨row, hrow, hid.trans hid', hwriters.trans hwriters'⟩
  · intro n row'' hrow''
    rcases h'.oauth n row'' hrow'' with hnone | ⟨row', hrow', hwriters'⟩
    · exact .inl hnone
    · rcases h.oauth n row' hrow' with hnone | ⟨row, hrow, hwriters⟩
      · exact .inl (hwriters'.symm.trans hnone)
      · exact .inr ⟨row, hrow, hwriters.trans hwriters'⟩
  · intro row'' hrow''
    obtain ⟨row', hrow', heq'⟩ := h'.pending row'' hrow''
    obtain ⟨row, hrow, heq⟩ := h.pending row' hrow'
    exact ⟨row, hrow, heq'.trans heq⟩
  · exact h'.begun.trans h.begun
  · exact h'.commits.trans h.commits
  · exact h'.issued.trans h.issued
  · exact h'.removed.trans h.removed

theorem Calm.inv (h : Calm s s') (hinv : SignInInv s) : SignInInv s' := by
  have hbegun : s.begun ⊆ s'.begun := by rw [h.begun]; exact List.Subset.refl _
  constructor
  · rw [h.begun]
    exact hinv.begun
  · intro row' hrow'
    obtain ⟨row, hrow, heq⟩ := h.pending row' hrow'
    obtain ⟨b, hb, hsame⟩ := hinv.pending row hrow
    exact ⟨b, hbegun hb, heq.trans hsame⟩
  · intro c hc
    rw [h.commits] at hc
    exact (hinv.commits c hc).mono hbegun
  · rw [h.removed, h.issued]
    exact hinv.removed
  · intro n row' hrow'
    obtain ⟨row, hrow, hid, hwriters⟩ := h.row n row' hrow'
    have hown := hinv.rows n row hrow
    constructor
    · rw [h.issued, ← hid]
      exact hown.issued
    · rw [h.removed, ← hid]
      exact hown.fresh
    · rw [← hid, ← hwriters]
      exact hown.server
    · intro found hfound id hmem
      rcases h.oauth n found hfound with hnone | ⟨old, hold, hsame⟩
      · rw [hnone] at hmem
        exact absurd hmem (by simp)
      · rw [← hid]
        exact hown.oauth old hold id (hsame ▸ hmem)
  · intro n m row₁ row₂ hrow₁ hrow₂ heq
    obtain ⟨old₁, hold₁, hid₁, -⟩ := h.row n row₁ hrow₁
    obtain ⟨old₂, hold₂, hid₂, -⟩ := h.row m row₂ hrow₂
    exact hinv.distinct n m old₁ old₂ hold₁ hold₂ (hid₁.trans (heq.trans hid₂.symm))

/-- A piece that keeps the servers, the OAuth rows, the attempts and the history. -/
theorem calm_of_eq (hservers : s'.servers = s.servers) (hoauth : s'.oauth = s.oauth)
    (hpending : s'.pending = s.pending) (hbegun : s'.begun = s.begun)
    (hcommits : s'.commits = s.commits) (hissued : s'.issued = s.issued)
    (hremoved : s'.removed = s.removed) : Calm s s' := by
  refine ⟨fun n row' hrow' => ?_, fun n row' hrow' => ?_, fun row' hrow' => ?_, hbegun, hcommits,
    hissued, hremoved⟩
  · unfold McpCell.row at hrow'
    rw [hservers] at hrow'
    exact ⟨row', hrow', rfl, rfl⟩
  · unfold McpCell.oauthRow at hrow'
    rw [hoauth] at hrow'
    exact .inr ⟨row', hrow', rfl⟩
  · rw [hpending] at hrow'
    exact ⟨row', hrow', rfl⟩

theorem Calm.refl (s : McpCell) : Calm s s := calm_of_eq rfl rfl rfl rfl rfl rfl rfl

/-- A row of the one table is a row of the other. -/
theorem same_rows {s s' : McpCell} (h : s'.servers = s.servers) (n : Text) (row : ServerRow)
    (hrow : s'.row n = some row) :
    ∃ old, s.row n = some old ∧ old.id = row.id ∧ old.writers = row.writers := by
  unfold McpCell.row at hrow
  rw [h] at hrow
  exact ⟨row, hrow, rfl, rfl⟩

theorem calm_updateOAuth {change : OAuthRow → OAuthRow}
    (hname : ∀ row, (change row).serverName = row.serverName)
    (hwriters : ∀ row, (change row).writers = row.writers) :
    Calm s (s.updateOAuth name change hname) := by
  refine ⟨same_rows rfl, fun n row' hrow' => ?_, fun row' hrow' => ⟨row', hrow', rfl⟩, rfl, rfl,
    rfl, rfl⟩
  rw [McpCell.oauthRow_updateOAuth] at hrow'
  split at hrow'
  · obtain ⟨row, hrow, rfl⟩ := Option.map_eq_some_iff.mp hrow'
    exact .inr ⟨row, hrow, (hwriters row).symm⟩
  · exact .inr ⟨row', hrow', rfl⟩

theorem calm_ensureRow : Calm s (s.ensureRow now name) := by
  refine ⟨same_rows rfl, fun n row' hrow' => ?_, fun row' hrow' => ⟨row', hrow', rfl⟩, rfl, rfl,
    rfl, rfl⟩
  rw [McpCell.oauthRow_ensureRow] at hrow'
  split at hrow'
  · cases hrow : s.oauthRow n with
    | none =>
      rw [hrow, Option.getD_none, Option.some.injEq] at hrow'
      exact .inl (hrow' ▸ rfl)
    | some row =>
      rw [hrow, Option.getD_some, Option.some.injEq] at hrow'
      exact .inr ⟨row, rfl, congrArg _ hrow'⟩
  · exact .inr ⟨row', hrow', rfl⟩

theorem calm_updateServer {change : ServerRow → ServerRow}
    (hname : ∀ row, (change row).name = row.name) (hid : ∀ row, (change row).id = row.id)
    (hwriters : ∀ row, (change row).writers = row.writers) :
    Calm s (s.updateServer name change hname) := by
  refine ⟨fun n row' hrow' => ?_, fun n row' hrow' => .inr ⟨row', hrow', rfl⟩,
    fun row' hrow' => ⟨row', hrow', rfl⟩, rfl, rfl, rfl, rfl⟩
  rw [McpCell.row_updateServer] at hrow'
  split at hrow'
  · obtain ⟨row, hrow, rfl⟩ := Option.map_eq_some_iff.mp hrow'
    exact ⟨row, hrow, (hid row).symm, (hwriters row).symm⟩
  · exact ⟨row', hrow', rfl, rfl⟩

theorem calm_writeClient (mode : McpOAuthClientMode) (client : SealedClient) :
    Calm s (s.writeClient now name mode client) := by
  refine calm_ensureRow.trans (calm_updateOAuth ?_ ?_)
  · exact fun _ => rfl
  · exact fun _ => rfl

theorem calm_saveDiscovery (discovery : OAuthDiscoveryState) :
    Calm s (s.saveDiscovery now name discovery) := by
  refine calm_ensureRow.trans (calm_updateOAuth ?_ ?_)
  · exact fun _ => rfl
  · exact fun _ => rfl

theorem calm_saveChallenge (challenge : Option Text) :
    Calm s (s.saveChallenge now name challenge) := by
  refine calm_ensureRow.trans (calm_updateOAuth ?_ ?_)
  · exact fun _ => rfl
  · exact fun _ => rfl

theorem calm_clearTokens : Calm s (s.clearTokens now name) := by
  have hbump : Calm s (s.bumpGeneration name) := calm_of_eq rfl rfl rfl rfl rfl rfl rfl
  have hend : ∀ t : McpCell, Calm t (t.endGrant name) :=
    fun t => calm_of_eq rfl rfl rfl rfl rfl rfl rfl
  refine (hbump.trans (calm_updateOAuth ?_ ?_)).trans (hend _)
  · exact fun _ => rfl
  · exact fun _ => rfl

theorem calm_clearClient : Calm s (s.clearClient now name) := by
  unfold McpCell.clearClient
  refine Calm.trans (calm_updateOAuth ?_ ?_) calm_clearTokens
  · exact fun _ => rfl
  · exact fun _ => rfl

theorem calm_clear : Calm s (s.clear name) := by
  refine ⟨same_rows rfl, fun n row' hrow' => ?_, fun row' hrow' => ?_, rfl, rfl, rfl, rfl⟩
  · rw [McpCell.oauthRow_clear] at hrow'
    split at hrow'
    · exact absurd hrow' (by simp)
    · exact .inr ⟨row', hrow', rfl⟩
  · exact ⟨row', (Rows.mem_filter.mp hrow').1, rfl⟩

theorem calm_writeTokens (tokens : SealedTokens) (origin : ℕ) (create : Bool) :
    Calm s (s.writeTokens now name tokens origin create) := by
  have hbump : Calm s (s.bumpGeneration name) := calm_of_eq rfl rfl rfl rfl rfl rfl rfl
  have hready : Calm s
      (if create then (s.bumpGeneration name).ensureRow now name else s) := by
    split
    · exact hbump.trans calm_ensureRow
    · exact Calm.refl s
  refine hready.trans (calm_updateOAuth ?_ ?_)
  · exact fun _ => rfl
  · exact fun _ => rfl

theorem calm_commitGrant (tokens : SealedTokens) (savedClient : Option SealedClient) :
    Calm s (s.commitGrant now name tokens savedClient) := by
  have hend : ∀ t : McpCell, Calm t { t.writeTokens now name tokens t.grants true with
      grants := t.grants + 1
      committed := Function.update t.committed name (t.committed name + 1)
      live := Function.update t.live name (some t.grants) } := by
    intro t
    have hwrite : Calm t (t.writeTokens now name tokens t.grants true) := calm_writeTokens _ _ _
    refine hwrite.trans ?_
    exact calm_of_eq rfl rfl rfl rfl rfl rfl rfl
  cases savedClient with
  | none => exact hend s
  | some client => exact (calm_writeClient _ client).trans (hend _)

theorem calm_prunePending : Calm s (s.prunePending now) :=
  ⟨same_rows rfl, fun _ row' hrow' => .inr ⟨row', hrow', rfl⟩,
    fun row' hrow' => ⟨row', (Rows.mem_filter.mp hrow').1, rfl⟩, rfl, rfl, rfl, rfl⟩

theorem calm_claimPending (state : Text) : Calm s (s.claimPending now state) := by
  refine ⟨same_rows rfl, fun _ row' hrow' => .inr ⟨row', hrow', rfl⟩, fun row' hrow' => ?_, rfl, rfl,
    rfl, rfl⟩
  obtain ⟨row, hrow, rfl⟩ := List.mem_map.mp hrow'
  refine ⟨row, hrow, ?_⟩
  split
  · rfl
  · rfl

theorem calm_setDiscovery (p : Platform) (outcome : McpDiscoveryOutcome) :
    Calm s (s.setDiscovery p now name outcome).2 := by
  unfold McpCell.setDiscovery
  split
  · exact Calm.refl s
  · split
    · split
      · exact Calm.refl s
      · split
        · refine Calm.trans ?_ (calm_saveChallenge _)
          refine calm_updateServer ?_ ?_ ?_
          · exact fun _ => rfl
          · exact fun _ => rfl
        · refine calm_updateServer ?_ ?_ ?_
          · exact fun _ => rfl
          · exact fun _ => rfl
          · exact fun _ => rfl
    · refine calm_updateServer ?_ ?_ ?_
      · exact fun _ => rfl
      · exact fun _ => rfl
      · exact fun _ => rfl
    · refine calm_updateServer ?_ ?_ ?_
      · exact fun _ => rfl
      · exact fun _ => rfl
      · exact fun _ => rfl

/-! ### The statements that write ids and traces -/

/-- A sign-in writes to the OAuth row of the server it was begun for. -/
theorem inv_wroteOAuth {id : Text} (hinv : SignInInv s) (hholds : holds name id s = true) :
    SignInInv (s.wroteOAuth name id) := by
  refine ⟨hinv.begun, hinv.pending, fun c hc => (hinv.commits c hc).mono (List.Subset.refl s.begun),
    hinv.removed, fun n row hrow => ?_, hinv.distinct⟩
  replace hrow : s.row n = some row := hrow
  have hown := hinv.rows n row hrow
  refine ⟨hown.issued, hown.fresh, hown.server, fun found hfound => ?_⟩
  unfold McpCell.wroteOAuth at hfound
  rw [McpCell.oauthRow_updateOAuth] at hfound
  split at hfound
  · rename_i hn
    obtain ⟨old, hold, rfl⟩ := Option.map_eq_some_iff.mp hfound
    intro other hother
    rcases List.mem_cons.mp hother with rfl | hother
    · rw [holds, ← hn, hrow, Option.all_some, decide_eq_true_eq] at hholds
      exact hholds.symm
    · exact hown.oauth old hold other hother
  · exact hown.oauth found hfound

/-- A sign-in writes to the server it was begun for. -/
theorem inv_wroteServer {id : Text} (hinv : SignInInv s) (hholds : holds name id s = true) :
    SignInInv (s.wroteServer name id) := by
  have hback : ∀ n row', (s.wroteServer name id).row n = some row' →
      ∃ row, s.row n = some row ∧ row.id = row'.id := by
    intro n row' hrow'
    unfold McpCell.wroteServer at hrow'
    rw [McpCell.row_updateServer] at hrow'
    split at hrow'
    · obtain ⟨row, hrow, rfl⟩ := Option.map_eq_some_iff.mp hrow'
      exact ⟨row, hrow, rfl⟩
    · exact ⟨row', hrow', rfl⟩
  refine ⟨hinv.begun, hinv.pending, fun c hc => (hinv.commits c hc).mono (List.Subset.refl s.begun),
    hinv.removed, fun n row' hrow' => ?_, fun n m row₁ row₂ hrow₁ hrow₂ heq => ?_⟩
  · unfold McpCell.wroteServer at hrow'
    rw [McpCell.row_updateServer] at hrow'
    split at hrow'
    · rename_i hn
      obtain ⟨row, hrow, rfl⟩ := Option.map_eq_some_iff.mp hrow'
      have hown := hinv.rows n row hrow
      refine ⟨hown.issued, hown.fresh, fun other hother => ?_, hown.oauth⟩
      rcases List.mem_cons.mp hother with rfl | hother
      · rw [holds, ← hn, hrow, Option.all_some, decide_eq_true_eq] at hholds
        exact hholds.symm
      · exact hown.server other hother
    · have hown := hinv.rows n row' hrow'
      exact ⟨hown.issued, hown.fresh, hown.server, hown.oauth⟩
  · obtain ⟨old₁, hold₁, hid₁⟩ := hback n row₁ hrow₁
    obtain ⟨old₂, hold₂, hid₂⟩ := hback m row₂ hrow₂
    exact hinv.distinct n m old₁ old₂ hold₁ hold₂ (hid₁.trans (heq.trans hid₂.symm))

/-- The row of a name after a save: updated, or inserted. -/
theorem row_saveRow {p : Platform} {fresh : Text} {existing : Option ServerRow} {input : SaveInput}
    {n : Text} {row' : ServerRow}
    (h : (s.saveRow p now fresh existing input).row n = some row') :
    (∃ row, s.row n = some row ∧ row.id = row'.id ∧ row.writers = row'.writers) ∨
      (n = input.name ∧ s.row n = none ∧ row'.id = (existing.map ServerRow.id).getD fresh ∧
        row'.writers = []) := by
  unfold McpCell.row McpCell.saveRow at h
  extract_lets id lastError at h
  rw [Rows.find?_upsert] at h
  split at h
  · rename_i hn
    cases hrow : s.servers.find? n with
    | none =>
      rw [hrow, Option.elim_none, Option.some.injEq] at h
      exact .inr ⟨hn.symm, hrow, h ▸ rfl, h ▸ rfl⟩
    | some row =>
      rw [hrow, Option.elim_some, Option.some.injEq] at h
      exact .inl ⟨row, hrow, h ▸ rfl, h ▸ rfl⟩
  · exact .inl ⟨row', h, rfl, rfl⟩

/-- A save that finds no row inserts one with a fresh id and no trace of a sign-in. -/
theorem inv_saveRow (p : Platform) {fresh : Text} {existing : Option ServerRow} {input : SaveInput}
    (hinv : SignInInv s) (hfresh : fresh ∉ s.issued)
    (hnew : s.row input.name = none → existing = none ∧ untouched input.name s = true) :
    SignInInv (s.saveRow p now fresh existing input) := by
  have hissued : ∀ id ∈ s.issued, id ∈ (s.saveRow p now fresh existing input).issued :=
    fun id hid => List.mem_cons_of_mem _ hid
  refine ⟨hinv.begun, hinv.pending, fun c hc => (hinv.commits c hc).mono (List.Subset.refl s.begun),
    fun id hid => hissued id (hinv.removed id hid), fun n row' hrow' => ?_,
    fun n m row₁ row₂ hrow₁ hrow₂ heq => ?_⟩
  · rcases row_saveRow hrow' with ⟨row, hrow, hid, hwriters⟩ | ⟨rfl, hnone, hid, hwriters⟩
    · have hown := hinv.rows n row hrow
      refine ⟨hissued _ (hid ▸ hown.issued), hid ▸ hown.fresh, ?_, ?_⟩
      · rw [← hid, ← hwriters]
        exact hown.server
      · rw [← hid]
        exact hown.oauth
    · obtain ⟨rfl, huntouched⟩ := hnew hnone
      replace hid : row'.id = fresh := hid
      refine ⟨?_, ?_, ?_, ?_⟩
      · rw [hid]
        exact List.mem_cons_self
      · rw [hid]
        exact fun hmem => hfresh (hinv.removed fresh hmem)
      · rw [hwriters]
        exact fun id hmem => absurd hmem (by simp)
      · intro found hfound id hmem
        replace hfound : s.oauthRow input.name = some found := hfound
        rw [untouched, hfound, Option.all_some, decide_eq_true_eq] at huntouched
        rw [huntouched] at hmem
        exact absurd hmem (by simp)
  · -- an inserted id differs from every id issued before
    have hother : ∀ k row, s.row k = some row → row.id ≠ fresh :=
      fun k row hrow heq => hfresh (heq ▸ (hinv.rows k row hrow).issued)
    rcases row_saveRow hrow₁ with ⟨old₁, hold₁, hid₁, -⟩ | ⟨rfl, hnone₁, hid₁, -⟩
    · rcases row_saveRow hrow₂ with ⟨old₂, hold₂, hid₂, -⟩ | ⟨rfl, hnone₂, hid₂, -⟩
      · exact hinv.distinct n m old₁ old₂ hold₁ hold₂ (hid₁.trans (heq.trans hid₂.symm))
      · obtain ⟨rfl, -⟩ := hnew hnone₂
        exact absurd (hid₁.trans (heq.trans hid₂)) (hother n old₁ hold₁)
    · rcases row_saveRow hrow₂ with ⟨old₂, hold₂, hid₂, -⟩ | ⟨rfl, -, -, -⟩
      · obtain ⟨rfl, -⟩ := hnew hnone₁
        exact absurd (hid₂.trans (heq.symm.trans hid₁)) (hother m old₂ hold₂)
      · rfl

theorem row_remove (n : Text) :
    (s.remove name).2.row n = if n = name then none else s.row n := by
  show ((s.clear name).servers.filter fun row => decide (row.name ≠ name)).find? n = _
  rw [Rows.find?_filter]
  show (s.servers.find? n).filter _ = _
  unfold McpCell.row
  cases hfind : s.servers.find? n with
  | none =>
    rw [ite_self]
    rfl
  | some row =>
    have hrow : row.name = n := (Rows.find?_eq_some.mp hfind).2
    by_cases hn : n = name
    · rw [if_pos hn, Option.filter_some, if_neg (by simp [hrow, hn])]
    · rw [if_neg hn, Option.filter_some, if_pos (by simp [hrow, hn])]

/-- The id of a removed server is the id of no server. -/
theorem inv_remove (hinv : SignInInv s) : SignInInv (s.remove name).2 := by
  have hclear : SignInInv (s.clear name) := calm_clear.inv hinv
  have hremoved : (s.remove name).2.removed = (s.row name).toList.map ServerRow.id ++ s.removed := rfl
  have hback : ∀ n row, (s.remove name).2.row n = some row → n ≠ name ∧ s.row n = some row := by
    intro n row hrow
    rw [row_remove] at hrow
    split at hrow
    · exact absurd hrow (by simp)
    · exact ⟨‹_›, hrow⟩
  refine ⟨hinv.begun, hclear.pending, fun c hc => (hinv.commits c hc).mono (List.Subset.refl s.begun), ?_, ?_,
    ?_⟩
  · intro id hid
    rw [hremoved, List.mem_append, List.mem_map] at hid
    rcases hid with ⟨row, hrow, rfl⟩ | hid
    · exact (hinv.rows name row (Option.mem_toList.mp hrow)).issued
    · exact hinv.removed id hid
  · intro n row hrow
    obtain ⟨hn, hrow⟩ := hback n row hrow
    have hown := hclear.rows n row hrow
    refine ⟨hown.issued, ?_, hown.server, hown.oauth⟩
    rw [hremoved, List.mem_append, List.mem_map]
    rintro (⟨gone, hgone, heq⟩ | hold)
    · exact hn (hinv.distinct n name row gone hrow (Option.mem_toList.mp hgone) heq.symm)
    · exact hown.fresh hold
  · intro n m row₁ row₂ hrow₁ hrow₂ heq
    exact hinv.distinct n m row₁ row₂ (hback n row₁ hrow₁).2 (hback m row₂ hrow₂).2 heq

/-- What a calm piece keeps of a name. -/
theorem Calm.holds (h : Calm s s') {id : Text} (hholds : Mcp.holds name id s = true) :
    Mcp.holds name id s' = true := by
  unfold Mcp.holds at hholds ⊢
  cases hrow' : s'.row name with
  | none => rfl
  | some row' =>
    obtain ⟨row, hrow, hid, -⟩ := h.row name row' hrow'
    rw [hrow, Option.all_some, decide_eq_true_eq] at hholds
    rw [Option.all_some, decide_eq_true_eq, ← hid]
    exact hholds

/-- A save clears the OAuth row of a name without a server. -/
theorem untouched_clear : untouched name (s.clear name) = true := by
  rw [untouched, McpCell.oauthRow_clear, if_pos rfl]
  rfl

/-! ### Where a call stands -/

/-- A callback is about an attempt that was begun. -/
def FrameFrom (s : McpCell) : Frame → Prop
  | .openingVerifier pending _ _ => FromBegun s pending
  | .openingClaimed c _ _ => FromBegun s c.pending
  | .claimed c => FromBegun s c.pending
  | .exchanging c _ _ => FromBegun s c.pending
  | .parking c _ _ => FromBegun s c.pending
  | .sealingGrant c _ _ => FromBegun s c.pending
  | _ => True

theorem FrameFrom.mono (hbegun : s.begun ⊆ s'.begun) {f : Frame} (h : FrameFrom s f) :
    FrameFrom s' f := by
  cases f with
  | openingVerifier pending firstClaim input => exact FromBegun.mono hbegun h
  | openingClaimed c firstClaim row => exact FromBegun.mono hbegun h
  | claimed c => exact FromBegun.mono hbegun h
  | exchanging c record code => exact FromBegun.mono hbegun h
  | parking c phase message => exact FromBegun.mono hbegun h
  | sealingGrant c tokens savedClient => exact FromBegun.mono hbegun h
  | _ => trivial

/-- A piece keeps the invariant, forgets no sign-in, and leaves a frame that stands for one begun. -/
structure Goes (s : McpCell) (r : McpCell × (Frame ⊕ Ret)) : Prop where
  inv : SignInInv r.1
  begun : s.begun ⊆ r.1.begun
  frame : ∀ f, r.2 = .inl f → FrameFrom r.1 f

theorem Calm.subset (h : Calm s s') : s.begun ⊆ s'.begun := by
  rw [h.begun]
  exact List.Subset.refl _

theorem Calm.returns (h : Calm s s') (hinv : SignInInv s) (ret : Ret) : Goes s (s', .inr ret) :=
  ⟨h.inv hinv, h.subset, fun _ hf => absurd hf (by simp)⟩

theorem Calm.waits (h : Calm s s') (hinv : SignInInv s) {f : Frame} (hf : FrameFrom s f) :
    Goes s (s', .inl f) := by
  refine ⟨h.inv hinv, h.subset, fun f' heq => ?_⟩
  rw [← Sum.inl.inj heq]
  exact hf.mono h.subset

/-! ### The functions -/

theorem calm_act {kind : ActKind} {basis : Basis} : Calm s (s.act kind name basis) :=
  calm_of_eq rfl rfl rfl rfl rfl rfl rfl

/-- Reading and refreshing tokens is calm, and waits for nothing that a sign-in began. -/
structure Idle (s : McpCell) (r : McpCell × Frame) : Prop where
  calm : Calm s r.1
  frame : ∀ t, FrameFrom t r.2

theorem Idle.goes {r : McpCell × Frame} (h : Idle s r) (hinv : SignInInv s) :
    Goes s (r.1, .inl r.2) :=
  h.calm.waits hinv (h.frame s)

theorem idle_openedTokens {options : AccessOptions} {row : Option OAuthRow} {basis : Basis} :
    Idle s (openedTokens now name options row basis s) := by
  unfold openedTokens
  split
  · exact ⟨Calm.refl s, fun _ => trivial⟩
  · split
    · exact ⟨Calm.refl s, fun _ => trivial⟩
    · split
      · exact ⟨calm_act.trans calm_clearTokens, fun _ => trivial⟩
      · split
        · exact ⟨Calm.refl s, fun _ => trivial⟩
        · refine ⟨?_, fun _ => trivial⟩
          exact calm_of_eq rfl rfl rfl rfl rfl rfl rfl

theorem idle_giveUp {r : Refresh} {message : Text} : Idle s (giveUp now r message s) :=
  ⟨calm_act.trans calm_clearTokens, fun _ => trivial⟩

theorem idle_openedClient {r : Refresh} {row : Option OAuthRow} :
    Idle s (openedClient now r row s) := by
  unfold openedClient
  split
  · exact ⟨Calm.refl s, fun _ => trivial⟩
  · split
    · exact idle_giveUp
    · extract_lets otherIssuer
      split
      · exact idle_giveUp
      · exact ⟨Calm.refl s, fun _ => trivial⟩

theorem idle_refreshFailed {r : Refresh} {client : McpOAuthClient} {error : RefreshError} :
    Idle s (refreshFailed now r client error s) := by
  unfold refreshFailed
  split
  · exact ⟨Calm.refl s, fun _ => trivial⟩
  · split
    · exact idle_giveUp
    · exact ⟨Calm.refl s, fun _ => trivial⟩

theorem idle_sealedRefresh {r : Refresh} {next : OAuthTokens} :
    Idle s (sealedRefresh now r next s) := by
  unfold sealedRefresh
  split
  · exact ⟨Calm.refl s, fun _ => trivial⟩
  · exact ⟨calm_act.trans (calm_writeTokens _ _ _), fun _ => trivial⟩

theorem goes_authorization (hinv : SignInInv s) (row : ServerRow) :
    Goes s (s, authorization row) := by
  unfold authorization
  split
  · exact (Calm.refl s).returns hinv _
  · exact (Calm.refl s).waits hinv trivial

theorem goes_callAuthorization (hinv : SignInInv s) (options : AccessOptions) :
    Goes s (s, callAuthorization name options s) := by
  unfold callAuthorization
  split
  · exact (Calm.refl s).returns hinv _
  · split
    · exact goes_authorization hinv _
    · refine (Calm.refl s).waits hinv ?_
      unfold accessToken
      split
      · trivial
      · trivial

theorem goes_answer (p : Platform) (hinv : SignInInv s) (result : Except Thrown McpAccessResult)
    (basis : Basis) : Goes s (answer p now name result basis s) := by
  unfold answer
  split
  · exact (Calm.refl s).returns hinv _
  · exact (Calm.refl s).returns hinv _
  · split
    · exact (Calm.refl s).returns hinv _
    · split
      · exact goes_authorization hinv _
      · refine Calm.returns (Calm.trans ?_ (calm_setDiscovery p _)) hinv _
        split
        · exact calm_act
        · exact Calm.refl s

theorem goes_setPreregisteredClient (hinv : SignInInv s) (clientId : Text)
    (clientSecret : Option Text) :
    Goes s (setPreregisteredClient now name clientId clientSecret s) := by
  unfold setPreregisteredClient
  extract_lets clientId' clientSecret' broken
  split
  · exact (Calm.refl s).returns hinv _
  · split
    · exact (Calm.refl s).returns hinv _
    · exact calm_clearClient.waits hinv trivial

/-- The discovery of a sign-in is written to its server, or to none. -/
theorem goes_saveBegun (hinv : SignInInv s) (b : Beginning)
    (hholds : b.begun.discovery.isNone = true ∨ holds b.record.name b.record.id s = true) :
    Goes s (saveBegun now b s) := by
  unfold saveBegun
  cases hdiscovery : b.begun.discovery with
  | none => exact calm_prunePending.waits hinv trivial
  | some discovery =>
    rw [hdiscovery] at hholds
    have hholds : holds b.record.name b.record.id s = true := by
      rcases hholds with hnone | hholds
      · exact absurd hnone (by simp)
      · exact hholds
    have hsaved : Calm s (s.saveDiscovery now b.record.name discovery) := calm_saveDiscovery _
    have hwrote := inv_wroteOAuth (hsaved.inv hinv) (hsaved.holds hholds)
    refine ⟨calm_prunePending.inv hwrote, ?_, fun f hf => ?_⟩
    · exact hsaved.subset
    · rw [← Sum.inl.inj hf]
      trivial

/-- A sign-in begins on the server whose id it read. -/
theorem goes_beginOAuth (hinv : SignInInv s) (b : Beginning) : Goes s (beginOAuth now b s) := by
  unfold beginOAuth
  extract_lets name
  split
  · exact (Calm.refl s).returns hinv _
  · rename_i server hserver
    split
    · exact (Calm.refl s).returns hinv _
    · rename_i hid
      split
      · exact (Calm.refl s).waits hinv trivial
      · refine goes_saveBegun hinv b (.inr ?_)
        rw [holds, show s.row b.record.name = some server from hserver, Option.all_some,
          decide_eq_true_eq]
        exact not_not.mp hid

theorem goes_probed (p : Platform) (hinv : SignInInv s) (record : McpServerRecord)
    (client : Option McpOAuthClient) (begun : Begun) :
    Goes s (probed p now record client begun s) := by
  unfold probed
  split
  · exact (Calm.refl s).returns hinv _
  · exact goes_beginOAuth hinv _

/-- A new attempt is a sign-in on the record it was begun on. -/
theorem goes_createPending (p : Platform) (hinv : SignInInv s) (b : Beginning) (startedAt : ℕ) :
    Goes s (createPending p b startedAt s) := by
  unfold createPending
  split
  · exact (Calm.refl s).returns hinv _
  · rename_i pending hinsert
    have hbegun : s.begun ⊆ ⟨b.record, b.pending p startedAt⟩ :: s.begun :=
      fun _ hmem => List.mem_cons_of_mem _ hmem
    refine ⟨⟨?_, ?_, fun c hc => (hinv.commits c hc).mono hbegun, hinv.removed, ?_, hinv.distinct⟩,
      hbegun, fun _ hf => absurd hf (by simp)⟩
    · intro other hother
      rcases List.mem_cons.mp hother with rfl | hother
      · exact ⟨rfl, rfl⟩
      · exact hinv.begun other hother
    · intro row hrow
      rcases (Rows.mem_insert? hinsert).mp hrow with hold | rfl
      · exact (hinv.pending row hold).mono hbegun
      · exact ⟨_, List.mem_cons_self, rfl⟩
    · intro n row hrow
      have hown := hinv.rows n row hrow
      exact ⟨hown.issued, hown.fresh, hown.server, hown.oauth⟩

theorem goes_park (hinv : SignInInv s) {c : Claimed} (hc : FromBegun s c.pending)
    (record : McpServerRecord) (phase message : Text) : Goes s (s, park c record phase message) := by
  unfold park
  split
  · exact (Calm.refl s).returns hinv _
  · exact (Calm.refl s).waits hinv hc

theorem goes_claimedRecord (hinv : SignInInv s) {c : Claimed} (hc : FromBegun s c.pending) :
    Goes s (s, claimedRecord c s) := by
  unfold claimedRecord
  split
  · exact (Calm.refl s).returns hinv _
  · split
    · exact (Calm.refl s).returns hinv _
    · split
      · exact (Calm.refl s).returns hinv _
      · split
        · exact goes_park hinv hc _ _ _
        · exact (Calm.refl s).waits hinv hc

/-- A parked sign-in relabels the server it was begun for. -/
theorem goes_parkServer (p : Platform) (hinv : SignInInv s) (c : Claimed) (phase message : Text)
    (hguard : ∀ row, s.row c.pending.serverName = some row →
      McpCell.authApplies p row (some c.pending.serverOrigin) = true →
        c.pending.serverId = some row.id) :
    Goes s (parkServer p now c phase message s) := by
  unfold parkServer
  extract_lets name origin r written
  have hdiscovery : Calm s r.2 := calm_setDiscovery p _
  split
  · rename_i hwritten
    have hholds : holds name (c.pending.serverId.getD []) s = true := by
      unfold holds
      cases hrow : s.row name with
      | none => rfl
      | some row =>
        simp only [written, hrow] at hwritten
        rw [Option.all_some, decide_eq_true_eq, hguard row hrow hwritten]
        rfl
    refine ⟨inv_wroteServer (hdiscovery.inv hinv) (hdiscovery.holds hholds), ?_, ?_⟩
    · exact hdiscovery.subset
    · exact fun _ hf => absurd hf (by simp)
  · exact hdiscovery.returns hinv _

/-- What the identity check of an attempt says. -/
theorem identity_of_matches {pendingServerId pendingClientId serverId clientId : Option Text}
    (h : oauthAttemptIdentityMatches pendingServerId pendingClientId serverId clientId = true) :
    serverId = pendingServerId ∧ clientId = pendingClientId ∧ clientId.isSome = true := by
  rw [oauthAttemptIdentityMatches, Bool.and_eq_true, Bool.and_eq_true, Bool.and_eq_true,
    decide_eq_true_eq, decide_eq_true_eq] at h
  obtain ⟨⟨⟨-, hserver⟩, htruthy⟩, hclient⟩ := h
  refine ⟨hserver, hclient, ?_⟩
  rw [hclient]
  obtain ⟨text, htext⟩ := Option.isSome_iff_exists.mp htruthy
  rw [(Option.filter_eq_some_iff.mp htext).1]
  rfl

/-- **The commit.**  The check made right before the write fences it. -/
theorem goes_completeOAuth (p : Platform) (hinv : SignInInv s) {c : Claimed}
    (hc : FromBegun s c.pending) (tokens : OAuthTokens) (savedClient : Option ClientInformation) :
    Goes s (completeOAuth p now c tokens savedClient s) := by
  unfold completeOAuth
  extract_lets name id committed
  split
  · exact (Calm.refl s).returns hinv _
  · rename_i row hrow
    split
    · rename_i hmay
      rw [mayComplete, Bool.and_eq_true, Bool.and_eq_true, Bool.and_eq_true, decide_eq_true_eq,
        decide_eq_true_eq] at hmay
      obtain ⟨⟨⟨hurl, -⟩, hauth⟩, hidentity⟩ := hmay
      obtain ⟨hserver, hclient, hsome⟩ := identity_of_matches hidentity
      have hfenced : Commit.Fenced s ⟨c.pending, row, s.storedClientId name⟩ := by
        obtain ⟨b, hb, heq⟩ := hc
        have hrecord := hinv.begun b hb
        have hid : c.pending.serverId = b.pending.serverId := by rw [← heq]
        have hpendingUrl : c.pending.serverUrl = b.pending.serverUrl := by rw [← heq]
        have hpendingClient : c.pending.clientId = b.pending.clientId := by rw [← heq]
        refine ⟨⟨b, hb, heq, ?_, ?_, ?_⟩, hsome, hauth⟩
        · exact Option.some.inj (hserver.trans (hid.trans hrecord.id))
        · exact hurl.trans (hpendingUrl.trans hrecord.url)
        · exact hclient.trans hpendingClient
      have hholds : holds name id s = true := by
        rw [holds, hrow, Option.all_some, decide_eq_true_eq]
        show row.id = c.pending.serverId.getD []
        rw [← hserver]
        rfl
      have hcommit : Calm s committed := calm_commitGrant _ _
      have hlisted : SignInInv { committed with
          commits := ⟨c.pending, row, s.storedClientId name⟩ :: s.commits } := by
        have hcommitted := hcommit.inv hinv
        refine ⟨hcommitted.begun, hcommitted.pending, fun other hother => ?_, hcommitted.removed,
          fun n found hfound => ?_, hcommitted.distinct⟩
        · rcases List.mem_cons.mp hother with rfl | hother
          · exact hfenced.mono hcommit.subset
          · exact (hinv.commits other hother).mono hcommit.subset
        · have hown := hcommitted.rows n found hfound
          exact ⟨hown.issued, hown.fresh, hown.server, hown.oauth⟩
      have hmark : ∀ t : McpCell, Calm t (t.markOAuth now name) := by
        intro t
        refine calm_updateServer ?_ ?_ ?_
        · exact fun _ => rfl
        · exact fun _ => rfl
      have hwrote := inv_wroteOAuth hlisted (hcommit.holds hholds)
      refine ⟨inv_wroteServer ((hmark _).inv hwrote) ((hmark _).holds (hcommit.holds hholds)), ?_, ?_⟩
      · exact hcommit.subset
      · exact fun _ hf => absurd hf (by simp)
    · exact (Calm.refl s).returns hinv _

/-! ### The pieces -/

theorem goes_save (p : Platform) (hinv : SignInInv s) (input : SaveInput) {i : Input}
    (hfresh : i.draw ∉ s.issued) : Goes s (save p input i s) := by
  unfold save
  extract_lets existing cleared saved
  have hcleared : Calm s cleared := by
    show Calm s (if _ then _ else _)
    split
    · exact calm_clear
    · exact Calm.refl s
  split
  · exact (Calm.refl s).returns hinv _
  · split
    · exact hcleared.waits hinv trivial
    · have hrows : cleared.row input.name = existing := by
        show McpCell.row (if _ then _ else _) _ = _
        split
        · rfl
        · rfl
      have hissued : cleared.issued = s.issued := hcleared.issued
      refine ⟨inv_saveRow p (hcleared.inv hinv) (hissued ▸ hfresh) fun hnone => ?_,
        hcleared.subset, fun _ hf => absurd hf (by simp)⟩
      have hexisting : existing = none := hrows.symm.trans hnone
      refine ⟨hexisting, ?_⟩
      -- a name without a server is cleared first
      show untouched input.name (if McpCell.saveClears existing input then _ else _) = true
      rw [hexisting]
      exact untouched_clear

theorem goes_begin (p : Platform) (hinv : SignInInv s) (call : Call) {i : Input}
    (hfresh : (Frame.start call).inserts = true → i.draw ∉ s.issued) :
    Goes s (begin p s call i) := by
  cases call with
  | save input => exact goes_save p hinv input (hfresh rfl)
  | remove name =>
    exact ⟨inv_remove hinv, List.Subset.refl _, fun _ hf => absurd hf (by simp [begin])⟩
  | setDiscovery name outcome => exact (calm_setDiscovery p outcome).returns hinv _
  | setEnabled name enabled =>
    refine Calm.returns ?_ hinv _
    unfold McpCell.setEnabled
    split
    · exact Calm.refl s
    · refine calm_updateServer ?_ ?_ ?_
      · exact fun _ => rfl
      · exact fun _ => rfl
      · exact fun _ => rfl
  | setUsage name usage =>
    refine Calm.returns ?_ hinv _
    unfold McpCell.setUsage
    split
    · exact Calm.refl s
    · refine calm_updateServer ?_ ?_ ?_
      · exact fun _ => rfl
      · exact fun _ => rfl
      · exact fun _ => rfl
  | callAuthorization name options => exact goes_callAuthorization hinv options
  | setClient name clientId clientSecret =>
    show Goes s (if _ then _ else _)
    split
    · exact (Calm.refl s).returns hinv _
    · exact goes_setPreregisteredClient hinv clientId clientSecret
  | clearClient name => exact calm_clearClient.returns hinv _
  | startOAuth name =>
    simp only [begin]
    split
    · exact (Calm.refl s).returns hinv _
    · exact (Calm.refl s).waits hinv trivial
  | finishOAuth input =>
    simp only [begin]
    split
    · exact (Calm.refl s).returns hinv _
    · split
      · exact (Calm.refl s).returns hinv _
      · rename_i row hrow
        exact (calm_claimPending input.state).waits hinv
          (hinv.pending row (Rows.find?_eq_some.mp hrow).1)

/-- **One piece.** A piece that writes where it was begun keeps sign-ins fenced. -/
theorem goes_piece (p : Platform) (hinv : SignInInv s) {f : Frame} (hf : FrameFrom s f) {i : Input}
    (hfresh : f.inserts = true → i.draw ∉ s.issued) (hguard : inPlace p s i f = true) :
    Goes s (piece p s f i) := by
  unfold piece
  split
  -- the start of a call
  · exact goes_begin p hinv _ hfresh
  · exact (Calm.refl s).returns hinv _
  · rename_i input existing hrejected
    rw [inPlace, hrejected, Bool.or_eq_true, Bool.or_eq_true, Bool.and_eq_true,
      Option.isNone_iff_eq_none] at hguard
    refine ⟨inv_saveRow p hinv (hfresh rfl) fun hnone => ?_, List.Subset.refl _,
      fun _ hf => absurd hf (by simp)⟩
    rcases hguard with (hrejected | hsome) | hnew
    · exact absurd hrejected (by simp)
    · rw [hnone] at hsome
      exact absurd hsome (by simp)
    · exact hnew
  -- reading and refreshing tokens
  · exact (Calm.refl s).waits hinv trivial
  · exact idle_openedTokens.goes hinv
  · exact (Calm.refl s).waits hinv trivial
  · exact idle_openedClient.goes hinv
  · split
    · exact idle_refreshFailed.goes hinv
    · exact (Calm.refl s).waits hinv trivial
  · exact (Calm.refl s).waits hinv trivial
  · exact idle_sealedRefresh.goes hinv
  · refine Calm.waits ?_ hinv trivial
    exact calm_of_eq rfl rfl rfl rfl rfl rfl rfl
  · split
    · exact (Calm.refl s).waits hinv trivial
    · exact (Calm.refl s).waits hinv trivial
  · exact goes_answer p hinv _ _
  · exact (Calm.refl s).returns hinv _
  · exact (Calm.refl s).returns hinv _
  -- clients
  · exact (Calm.refl s).returns hinv _
  · exact (calm_writeClient _ _).returns hinv _
  -- a sign-in is begun
  · exact (Calm.refl s).waits hinv trivial
  · exact (Calm.refl s).returns hinv _
  · exact (Calm.refl s).waits hinv trivial
  · split
    · exact (Calm.refl s).returns hinv _
    · exact goes_probed p hinv _ _ _
  · exact (Calm.refl s).returns hinv _
  · rename_i b information hrejected
    rw [inPlace, hrejected, Option.isSome_none, Bool.false_or] at hguard
    have hwrite : Calm s (s.writeClient i.now b.record.name b.begun.mode (sealClient information)) :=
      calm_writeClient _ _
    refine ⟨inv_wroteOAuth (hwrite.inv hinv) (hwrite.holds hguard), hwrite.subset, fun f hf => ?_⟩
    rw [← Sum.inl.inj hf]
    trivial
  · rw [inPlace, Bool.or_eq_true] at hguard
    exact goes_saveBegun hinv _ hguard
  · exact (Calm.refl s).returns hinv _
  · exact goes_createPending p hinv _ _
  -- a sign-in is finished
  · exact (Calm.refl s).returns hinv _
  · exact (Calm.refl s).waits hinv hf
  · exact (Calm.refl s).returns hinv _
  · split
    · exact (Calm.refl s).waits hinv hf
    · exact (Calm.refl s).returns hinv _
  · exact goes_claimedRecord hinv hf
  · split
    · exact goes_park hinv hf _ _ _
    · exact (Calm.refl s).waits hinv hf
  · refine goes_parkServer p hinv _ _ _ fun row hrow happlies => ?_
    rw [inPlace, hrow, Option.all_some, happlies, Bool.not_true, Bool.false_or,
      decide_eq_true_eq] at hguard
    exact hguard
  · exact (Calm.refl s).returns hinv _
  · exact goes_completeOAuth p hinv hf _ _

end

/-! ### Runs -/

section
variable {p : Platform}

/-- The invariant of the system. -/
structure FencedInv (g : Coop.Config (mcp p)) : Prop where
  cell : SignInInv g.shared
  frames : ∀ t c f, g.pool t = some (c, f) → FrameFrom g.shared f

theorem fencedInv_step {g g' : Coop.Config (mcp p)} {e : Coop.Event (mcp p)} (h : FencedInv g)
    (hguard : inPlaceStep p g e = true) (hstep : Coop.step g e = some g') : FencedInv g' := by
  rcases Coop.step_ran hstep with ⟨t, c, rfl, -, rfl⟩ | ⟨t, i, c, f, out, rfl, hran⟩
  · refine ⟨h.cell, fun u c' f hu => ?_⟩
    rcases Coop.pool_update_cases hu with ⟨-, heq⟩ | ⟨-, hu⟩
    · obtain ⟨-, rfl⟩ := Prod.mk.inj (Option.some.inj heq)
      trivial
    · exact h.frames u c' f hu
  · have hf := h.frames t c f hran.before
    have hplace : inPlace p g.shared i f = true := by
      rw [inPlaceStep, hran.before] at hguard
      exact hguard
    have hruns : resume p g.shared f i = some (g'.shared, out) := hran.runs
    unfold resume at hruns
    split at hruns
    · exact absurd hruns (by simp)
    rename_i hdraw
    have hpiece := goes_piece p h.cell hf (fun hinserts hmem => hdraw ⟨hinserts, hmem⟩) hplace
    rw [Option.some.inj hruns] at hpiece
    refine ⟨hpiece.inv, fun u c' f' hu => ?_⟩
    rcases hran.pool u c' f' hu with ⟨-, hu⟩ | ⟨-, -, hout⟩
    · exact (h.frames u c' f' hu).mono hpiece.begun
    · exact hpiece.frame f' hout

theorem fencedInv_idle : FencedInv (Coop.idle emptyCell : Coop.Config (mcp p)) := by
  refine ⟨⟨?_, ?_, ?_, ?_, ?_, ?_⟩, ?_⟩
  · exact fun b hb => absurd hb (by simp [Coop.idle, emptyCell])
  · exact fun row hrow => absurd hrow (by simp [Coop.idle, emptyCell])
  · exact fun c hc => absurd hc (by simp [Coop.idle, emptyCell])
  · exact fun id hid => absurd hid (by simp [Coop.idle, emptyCell])
  · exact fun n row hrow => absurd hrow (by simp [Coop.idle, emptyCell, McpCell.row, Rows.find?])
  · exact fun n m row _ hrow => absurd hrow (by simp [Coop.idle, emptyCell, McpCell.row, Rows.find?])
  · exact fun t c f ht => absurd ht (by simp [Coop.idle])

/-- What the invariant says of the tables. -/
theorem SignInInv.fenced {s : McpCell} (h : SignInInv s) : Fenced s := by
  have hown : ∀ row ∈ s.servers.rows, Own s row (s.oauthRow row.name) :=
    fun row hrow => h.rows row.name row (Rows.find?_eq_some.mpr ⟨hrow, rfl⟩)
  refine ⟨h.commits, fun row hrow => (hown row hrow).fresh, fun row hrow => (hown row hrow).server,
    fun row hrow oauth hoauth hname => ?_⟩
  refine (hown row hrow).oauth oauth ?_
  exact Rows.find?_eq_some.mpr ⟨hoauth, hname⟩

/-- **A sign-in is fenced by its row.** In every run whose pieces write where they were begun, a grant
    is committed only to the row, the URL and the client its sign-in was begun for, and only while the
    server has no bearer; a removed id never comes back; and nothing that a sign-in wrote is found on
    another server than the one it was begun for. -/
theorem mcp_fenced (g : Coop.Config (mcp p))
    (h : Reaches Coop.step (fun g e => inPlaceStep p g e = true) (Coop.idle emptyCell) g) :
    Fenced g.shared := by
  have hinv : FencedInv g := by
    refine h.invariant FencedInv ?_ fencedInv_idle
    exact fun s e s' hs hg he => fencedInv_step hs hg he
  exact hinv.cell.fenced

end

/-! ### Examples -/

def removeServer (t now : ℕ) : List (Coop.Event (mcp samplePlatform)) :=
  .call t (.remove "notes") :: resumes t 1 now

/-- A sign-in that commits its grant, and the server removed and added again. -/
theorem mcp_fenced_readded : ∃ g,
    execGuarded Coop.step (inPlaceStep samplePlatform) (Coop.idle emptyCell)
      (signedIn ++ removeServer 0 5000 ++ addServer 0 6000 "mcp_2" none false) = some g ∧
    g.shared.commits.length = 1 ∧ Fenced g.shared := by
  have hrun : (execGuarded Coop.step (inPlaceStep samplePlatform) (Coop.idle emptyCell)
      (signedIn ++ removeServer 0 5000 ++ addServer 0 6000 "mcp_2" none false)).map
        (fun g => g.shared.commits.length) = some 1 := by
    decide +kernel
  obtain ⟨g, hg, hseen⟩ := Option.map_eq_some_iff.mp hrun
  exact ⟨g, hg, hseen, mcp_fenced g (reaches_of_execGuarded (fun _ _ h => h) hg)⟩

/-- **The id returns.**  A save that replaces a server seals its new bearer while the server is
    removed: it inserts the row again, with the id that was removed. -/
theorem idReturns : ∃ g,
    @Reaches _ _ Coop.step (fun _ _ => True) (Coop.idle emptyCell : Coop.Config (mcp samplePlatform))
      g ∧
    ¬ Fenced g.shared := by
  have hrun : (exec Coop.step (Coop.idle emptyCell)
      (addServer 0 1000 "mcp_1" none false ++ addServer 1 2000 "mcp_2" (some "Bearer t") true ++
        removeServer 0 3000 ++ resumes 1 1 4000)).map (fun g =>
          decide (∃ row ∈ g.shared.servers.rows, row.id ∈ g.shared.removed)) = some true := by
    decide +kernel
  obtain ⟨g, hg, hseen⟩ := Option.map_eq_some_iff.mp hrun
  obtain ⟨row, hrow, hremoved⟩ := of_decide_eq_true hseen
  exact ⟨g, reaches_of_exec hg, fun h => h.fresh row hrow hremoved⟩

end KodyCelld.Mcp
