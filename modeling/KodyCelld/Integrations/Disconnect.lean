import KodyCelld.Integrations.Store

namespace KodyCelld.Integrations

open KodyCelld.Lib IntegrationStore

/-!
# Disconnecting an integration while its tokens are in use

A refresh reads its row, awaits the token endpoint, and writes the new tokens back by name.

* `Final` — what should hold in every state: no token stored for a name, or handed out for it, comes
  from a grant that was there when the name was last disconnected, deleted, or given other client
  credentials;
* `Quiet` — no call in flight holds a token or a code of the name when that happens;
* `disconnect_quiet` — on runs whose steps are quiet the first holds;
* `disconnectRaces` — on others it does not have to.
-/

/-! ### What should hold -/

/-- The row stores the token, as its access or its refresh token. -/
def IntegrationRow.Holds (row : IntegrationRow) (held : Held) : Prop :=
  row.access = some held ∨ row.refresh = some held

variable {p : Platform} {s s' : IntegrationStore}

/-- No token of an ended grant is stored, and none was handed out after its grant had ended. -/
def Final (g : Coop.Config (integrations p)) : Prop :=
  (∀ row ∈ g.shared.integrations.rows, ∀ held, row.Holds held →
    g.shared.ended row.name ≤ held.origin) ∧
  ∀ call held record refreshed ended,
    (call, Ret.resolved (.ok (.ok held record refreshed)) ended) ∈ g.log → ended ≤ held.origin

/-! ### When it does -/

/-- The grant behind a resolution. -/
def resolvedOrigin : Except Thrown TokenResolution → Option ℕ
  | .ok (.ok held _ _) => some held.origin
  | _ => none

/-- The token or code that a call in flight holds: for which name, and from which grant. -/
def Frame.carried (s : IntegrationStore) : Frame → Option (Text × ℕ)
  | .nonceChecking row input origin => input.code.map fun _ => (row.name, origin)
  | .openingVerifier _ record _ _ origin => some (record.config.name, origin)
  | .openingRefresh name _ _ held => some (name, held.origin)
  | .openingSecret x _ => some (x.name, x.origin)
  | .fetching x _ => some (x.name, x.origin)
  | .sealing x _ => some (x.name, x.origin)
  | .openingFresh name _ _ held => held.map fun held => (name, held.origin)
  | .settling name _ result => (resolvedOrigin result).map fun origin => (name, origin)
  | .waiting name task => ((s.settled name task).bind resolvedOrigin).map fun origin => (name, origin)
  | .opening name _ held => some (name, held.origin)
  | _ => none

/-- No call in flight holds a token or a code of the name. -/
def Unheld (g : Coop.Config (integrations p)) (name : Text) : Prop :=
  ∀ t c f origin, g.pool t = some (c, f) → f.carried g.shared ≠ some (name, origin)

/-- The piece drops the tokens of the row.  A save that awaited the sealing of a secret does so only
    where the row it had read differs from the new config. -/
def Frame.drops : Frame → Bool
  | .saveSealing _ existing config _ =>
    existing.any fun row => credentialsChanged row.config config
  | _ => true

/-- The condition on a step: where it ends the grants of a name, it drops their tokens and no call in
    flight holds one. -/
def Quiet (g : Coop.Config (integrations p)) : Coop.Event (integrations p) → Prop
  | .call _ _ => True
  | .resume t i => ∀ c f name, g.pool t = some (c, f) → f.ends g.shared i = some name →
    f.drops = true ∧ Unheld g name

/-! ### What a statement leaves alone -/

/-- Only the tables differ. -/
structure OnlyTables (s s' : IntegrationStore) : Prop where
  inFlightRefresh : s'.inFlightRefresh = s.inFlightRefresh
  settled : s'.settled = s.settled
  nextTask : s'.nextTask = s.nextTask
  requests : s'.requests = s.requests
  grants : s'.grants = s.grants
  ended : s'.ended = s.ended

theorem OnlyTables.rfl' : OnlyTables s s := ⟨rfl, rfl, rfl, rfl, rfl, rfl⟩

theorem OnlyTables.trans {s₁ s₂ s₃ : IntegrationStore} (h : OnlyTables s₁ s₂)
    (h' : OnlyTables s₂ s₃) : OnlyTables s₁ s₃ :=
  ⟨h'.1.trans h.1, h'.2.trans h.2, h'.3.trans h.3, h'.4.trans h.4, h'.5.trans h.5, h'.6.trans h.6⟩

/-- Every token of `s'` was stored in `s`, under the same name. -/
def KeepsTokens (s s' : IntegrationStore) : Prop :=
  ∀ row ∈ s'.integrations.rows, ∀ held, row.Holds held →
    ∃ old ∈ s.integrations.rows, old.name = row.name ∧ old.Holds held

theorem KeepsTokens.of_eq (h : s'.integrations = s.integrations) : KeepsTokens s s' :=
  fun row hrow _ hheld => ⟨row, h ▸ hrow, rfl, hheld⟩

theorem KeepsTokens.trans {s₁ s₂ s₃ : IntegrationStore} (h : KeepsTokens s₁ s₂)
    (h' : KeepsTokens s₂ s₃) : KeepsTokens s₁ s₃ := by
  intro row hrow held hheld
  obtain ⟨mid, hmid, hname, hmidHeld⟩ := h' row hrow held hheld
  obtain ⟨old, hold, hname', holdHeld⟩ := h mid hmid held hmidHeld
  exact ⟨old, hold, hname'.trans hname, holdHeld⟩

section
variable {name : Text} {change : IntegrationRow → IntegrationRow}
  {hname : ∀ row, row.name = name → (change row).name = row.name}

theorem mem_update {row : IntegrationRow} (h : row ∈ (s.update name change hname).integrations.rows) :
    ∃ old ∈ s.integrations.rows, old.name = row.name ∧
      ((old.name = name ∧ row = change old) ∨ (old.name ≠ name ∧ row = old)) := by
  obtain ⟨old, hold, rfl⟩ := List.mem_map.mp h
  by_cases hn : old.name = name
  · rw [if_pos hn]
    exact ⟨old, hold, (hname old hn).symm, .inl ⟨hn, rfl⟩⟩
  · rw [if_neg hn]
    exact ⟨old, hold, rfl, .inr ⟨hn, rfl⟩⟩

theorem onlyTables_update : OnlyTables s (s.update name change hname) :=
  ⟨rfl, rfl, rfl, rfl, rfl, rfl⟩

theorem keeps_update (h : ∀ row held, (change row).Holds held → row.Holds held) :
    KeepsTokens s (s.update name change hname) := by
  intro row hrow held hheld
  obtain ⟨old, hold, hn, ⟨-, rfl⟩ | ⟨-, rfl⟩⟩ := mem_update hrow
  · exact ⟨old, hold, hn, h old held hheld⟩
  · exact ⟨_, hold, rfl, hheld⟩

end

theorem not_holds_cleared {row : IntegrationRow} (ha : row.access = none) (hr : row.refresh = none)
    (held : Held) : ¬ row.Holds held := by
  rintro (h | h)
  · exact absurd (ha.symm.trans h) (by simp)
  · exact absurd (hr.symm.trans h) (by simp)

/-- After the tokens of a name are cleared it has none. -/
theorem clearTokens_holds {now : ℕ} {name : Text} {status : IntegrationStatus}
    {reason : Option Text} {row : IntegrationRow}
    (hrow : row ∈ (s.clearTokens now name status reason).integrations.rows) (hn : row.name = name)
    (held : Held) : ¬ row.Holds held := by
  obtain ⟨old, -, hold, ⟨-, rfl⟩ | ⟨hne, rfl⟩⟩ := mem_update hrow
  · exact not_holds_cleared rfl rfl held
  · exact absurd hn hne

theorem keeps_clearTokens {now : ℕ} {name : Text} {status : IntegrationStatus}
    {reason : Option Text} : KeepsTokens s (s.clearTokens now name status reason) :=
  keeps_update fun _ held h => absurd h (not_holds_cleared rfl rfl held)

theorem keeps_failAuth {now : ℕ} {record : IntegrationRecord} {reason : Text} :
    KeepsTokens s (s.failAuth now record reason) := by
  unfold failAuth
  split
  · exact keeps_clearTokens
  · exact .of_eq rfl

theorem onlyTables_failAuth {now : ℕ} {record : IntegrationRecord} {reason : Text} :
    OnlyTables s (s.failAuth now record reason) := by
  unfold failAuth
  split
  · exact onlyTables_update
  · exact .rfl'

theorem onlyTables_updateConnect {id : Text} {change : ConnectRow → ConnectRow}
    {hid : ∀ row, (change row).id = row.id} : OnlyTables s (s.updateConnect id change hid) :=
  ⟨rfl, rfl, rfl, rfl, rfl, rfl⟩

theorem keeps_failRefresh {now : ℕ} {name : Text} {error : TokenError} :
    KeepsTokens s (s.failRefresh now name error) := by
  unfold failRefresh
  dsimp only
  split
  · exact keeps_clearTokens
  · exact keeps_update fun row held h => h

theorem onlyTables_failRefresh {now : ℕ} {name : Text} {error : TokenError} :
    OnlyTables s (s.failRefresh now name error) := by
  unfold failRefresh
  dsimp only
  split <;> exact onlyTables_update

section
variable {startedAt now : ℕ} {existing : Option IntegrationRow} {config : IntegrationConfig}
  {secret : Option (Option Text)}

theorem onlyTables_setClientSecret {name : Text} : OnlyTables s (s.setClientSecret name secret) := by
  unfold setClientSecret
  split
  · exact .rfl'
  · exact onlyTables_update

theorem keeps_setClientSecret {name : Text} : KeepsTokens s (s.setClientSecret name secret) := by
  unfold setClientSecret
  split
  · exact .of_eq rfl
  · exact keeps_update fun _ _ h => h

theorem keeps_setConfig {now : ℕ} {config : IntegrationConfig} :
    KeepsTokens s (s.setConfig now config) := by
  unfold setConfig
  exact keeps_update fun _ _ h => h

theorem onlyTables_saveRow : OnlyTables s (s.saveRow startedAt now existing config secret).2 := by
  unfold saveRow
  split
  · split
    · exact .rfl'
    · exact ⟨rfl, rfl, rfl, rfl, rfl, rfl⟩
  · have hset : OnlyTables s ((s.setConfig startedAt config).setClientSecret config.name secret) :=
      onlyTables_update.trans onlyTables_setClientSecret
    dsimp only
    split
    · exact hset.trans onlyTables_update
    · exact hset

theorem keeps_saveRow : KeepsTokens s (s.saveRow startedAt now existing config secret).2 := by
  unfold saveRow
  split
  · split
    · exact .of_eq rfl
    · rename_i hinsert
      intro row hrow held hheld
      rcases (Rows.mem_insert? hinsert).mp hrow with hold | rfl
      · exact ⟨row, hold, rfl, hheld⟩
      · exact absurd hheld (not_holds_cleared rfl rfl held)
  · have hset : KeepsTokens s ((s.setConfig startedAt config).setClientSecret config.name secret) :=
      keeps_setConfig.trans keeps_setClientSecret
    dsimp only
    split
    · exact hset.trans keeps_clearTokens
    · exact hset

/-- A save that drops the tokens leaves the row with none. -/
theorem saveRow_holds {old : IntegrationRow} (hchanged : credentialsChanged old.config config = true)
    {row : IntegrationRow}
    (hrow : row ∈ (s.saveRow startedAt now (some old) config secret).2.integrations.rows)
    (hn : row.name = config.name) (held : Held) : ¬ row.Holds held := by
  simp only [saveRow, hchanged, if_true] at hrow
  exact clearTokens_holds hrow hn held

end

theorem setUsage_tables {now : ℕ} {name : Text} {usage : IntegrationUsage} :
    OnlyTables s (s.setUsage now name usage).2 ∧ KeepsTokens s (s.setUsage now name usage).2 := by
  unfold setUsage
  split
  · exact ⟨.rfl', .of_eq rfl⟩
  · dsimp only
    exact ⟨onlyTables_update, keeps_update fun _ _ h => h⟩

theorem keeps_delete {name : Text} : KeepsTokens s (s.delete name).2 :=
  fun row hrow _ hheld => ⟨row, (Rows.mem_filter.mp hrow).1, rfl, hheld⟩

theorem delete_gone {name : Text} {row : IntegrationRow}
    (hrow : row ∈ (s.delete name).2.integrations.rows) : row.name ≠ name := by
  simpa using (Rows.mem_filter.mp hrow).2

theorem disconnect_tables {now : ℕ} {name : Text} :
    OnlyTables s (s.disconnect now name).2 ∧ KeepsTokens s (s.disconnect now name).2 := by
  unfold disconnect
  split
  · exact ⟨.rfl', .of_eq rfl⟩
  · dsimp only
    exact ⟨onlyTables_update, keeps_clearTokens⟩

theorem disconnect_holds {now : ℕ} {name : Text} {row : IntegrationRow}
    (hsome : (s.row name).isSome) (hrow : row ∈ (s.disconnect now name).2.integrations.rows)
    (hn : row.name = name) (held : Held) : ¬ row.Holds held := by
  obtain ⟨found, hfound⟩ := Option.isSome_iff_exists.mp hsome
  simp only [disconnect, require, hfound] at hrow
  exact clearTokens_holds hrow hn held

theorem insertConnect_tables {startedAt : ℕ} {id name hash redirectUri : Text} :
    OnlyTables s (s.insertConnect startedAt id name hash redirectUri).2 ∧
      KeepsTokens s (s.insertConnect startedAt id name hash redirectUri).2 := by
  unfold insertConnect
  split <;> exact ⟨⟨rfl, rfl, rfl, rfl, rfl, rfl⟩, .of_eq rfl⟩

/-! ### The outcomes of the longer pieces -/

theorem sendTokenRequest_cases (x : Exchange) (clientSecret : Option Text) (s : IntegrationStore) :
    (∃ e, sendTokenRequest x clientSecret s = (s, .failed x e)) ∨
      sendTokenRequest x clientSecret s =
        ({ s with requests := x :: s.requests }, .fetching x clientSecret) := by
  unfold sendTokenRequest
  split
  · exact .inl ⟨_, rfl⟩
  · exact .inr rfl

theorem beginExchange_cases (p : Platform) (x : Exchange) (s : IntegrationStore) :
    (∃ e, beginExchange p x s = (s, .failed x e)) ∨
    (∃ clientSecret, beginExchange p x s = (s, .openingSecret x clientSecret)) ∨
      ∃ clientSecret, beginExchange p x s =
        ({ s with requests := x :: s.requests }, .fetching x clientSecret) := by
  unfold beginExchange
  split
  · exact .inl ⟨_, rfl⟩
  · exact .inr (.inl ⟨_, rfl⟩)
  · rcases sendTokenRequest_cases x none s with hfailed | hsent
    · exact .inl hfailed
    · exact .inr (.inr ⟨none, hsent⟩)

theorem row_eq_some {name : Text} {row : IntegrationRow} :
    s.row name = some row ↔ row ∈ s.integrations.rows ∧ row.name = name :=
  Rows.find?_eq_some

theorem require_ok {name : Text} {record : IntegrationRecord} (h : s.require name = .ok record) :
    ∃ row, s.row name = some row ∧ record = toRecord row ∧ record.config.name = name := by
  unfold require at h
  split at h
  · rename_i row hrow
    obtain rfl := Except.ok.inj h
    exact ⟨row, hrow, rfl, (row_eq_some.mp hrow).2⟩
  · exact absurd h (by simp)

theorem refreshNow_cases (p : Platform) (name : Text) (task : ℕ) (s : IntegrationStore) :
    (∃ code status message record, refreshNow p name task s =
      (s, .settling name task (.ok (.denied code status message record)))) ∨
    (∃ row, s.row name = some row ∧ refreshNow p name task s =
      beginExchange p ⟨name, toRecord row, .clientCredentials, s.grants, .refresh task⟩
        { s with grants := s.grants + 1 }) ∨
    ∃ row held, s.row name = some row ∧ row.refresh = some held ∧
      refreshNow p name task s = (s, .openingRefresh name task (toRecord row) held) := by
  unfold refreshNow
  split
  · exact .inl ⟨_, _, _, _, rfl⟩
  · rename_i row hrow
    dsimp only
    split
    · exact .inr (.inl ⟨row, hrow, rfl⟩)
    · split
      · exact .inl ⟨_, _, _, _, rfl⟩
      · rename_i held hheld
        exact .inr (.inr ⟨row, held, hrow, hheld, rfl⟩)

/-- The store once a refresh of the name is entered as in flight. -/
def enterRefresh (name : Text) (s : IntegrationStore) : IntegrationStore :=
  { s with
    inFlightRefresh := Function.update s.inFlightRefresh name (some s.nextTask)
    nextTask := s.nextTask + 1 }

theorem refresh_cases (p : Platform) (name : Text) (s : IntegrationStore) :
    (∃ task, s.inFlightRefresh name = some task ∧ refresh p name s = (s, .waiting name task)) ∨
      refresh p name s = refreshNow p name s.nextTask (enterRefresh name s) := by
  unfold refresh
  split
  · exact .inl ⟨_, ‹_›, rfl⟩
  · exact .inr rfl

theorem tokenResolve_cases (p : Platform) (now : ℕ) (input : ResolveInput) (s : IntegrationStore) :
    (∃ code status message record, tokenResolve p now input s =
      (s, .inr (.denied code status message record))) ∨
    (∃ row held, s.row input.name = some row ∧ row.access = some held ∧
      tokenResolve p now input s =
        (s.touch now input.name, .inl (.opening input.name (toRecord row) held))) ∨
      tokenResolve p now input s =
        ((refresh p input.name s).1, .inl (refresh p input.name s).2) := by
  unfold tokenResolve
  split
  · exact .inl ⟨_, _, _, _, rfl⟩
  · rename_i row hrow
    dsimp only
    split
    · exact .inl ⟨_, _, _, _, rfl⟩
    · split
      · exact .inl ⟨_, _, _, _, rfl⟩
      · split
        · rename_i held hheld hconnected
          split
          · exact .inr (.inr rfl)
          · exact .inr (.inl ⟨row, held, hrow, hheld, rfl⟩)
        · split
          · exact .inr (.inr rfl)
          · exact .inl ⟨_, _, _, _, rfl⟩

theorem completeChecked_cases (p : Platform) (now : ℕ) (row : ConnectRow) (input : CompleteInput)
    (origin : ℕ) (s : IntegrationStore) :
    (∃ e, completeChecked p now row input origin s = (s, .inr e)) ∨
    (∃ e error, completeChecked p now row input origin s =
      (s.finishConnect now row.id error, .inr e)) ∨
    (∃ e error record reason, completeChecked p now row input origin s =
      ((s.finishConnect now row.id error).failAuth now record reason, .inr e)) ∨
    ∃ record code verifier, completeChecked p now row input origin s =
        (s, .inl (.openingVerifier ⟨row, input.nonce, now⟩ record code verifier origin)) ∧
      input.code = some code ∧ s.require row.name = .ok record ∧
      some (p.sha256Hex input.nonce) = row.nonceHash ∧
      now < row.expiresAt + connectTicketTtlMs ∧ input.providerError = none := by
  unfold completeChecked
  split
  · exact .inl ⟨_, rfl⟩
  · rename_i hhash
    split
    · exact .inl ⟨_, rfl⟩
    · rename_i record hrecord
      split
      · exact .inr (.inl ⟨_, _, rfl⟩)
      · rename_i hlive
        split
        · rename_i code hprovider hcode
          split
          · exact .inl ⟨_, rfl⟩
          · rename_i verifier _
            exact .inr (.inr (.inr ⟨record, code, verifier, rfl, hcode, hrecord, not_ne_iff.mp hhash,
              Nat.lt_of_not_le hlive, hprovider⟩))
        · exact .inr (.inr (.inl ⟨_, _, _, _, rfl⟩))

/-! ### What a piece does to tokens and grants -/

/-- A task that settled had been entered, and one in flight has not settled. -/
structure TasksOk (s : IntegrationStore) : Prop where
  entered : ∀ name task, s.settled name task ≠ none → task < s.nextTask
  open_ : ∀ name task, s.inFlightRefresh name = some task → s.settled name task = none

/-- The step stores no token, settles nothing and ends nothing. -/
structure Calm (s s' : IntegrationStore) : Prop where
  tokens : KeepsTokens s s'
  settled : s'.settled = s.settled
  ended : s'.ended = s.ended
  grants : s.grants ≤ s'.grants
  nextTask : s.nextTask ≤ s'.nextTask
  tasks : TasksOk s → TasksOk s'

theorem Calm.of_tables (h : OnlyTables s s') (htokens : KeepsTokens s s') : Calm s s' where
  tokens := htokens
  settled := h.settled
  ended := h.ended
  grants := h.grants.ge
  nextTask := h.nextTask.ge
  tasks := fun hs =>
    ⟨fun name task => by rw [h.settled, h.nextTask]; exact hs.entered name task,
      fun name task => by rw [h.settled, h.inFlightRefresh]; exact hs.open_ name task⟩

theorem Calm.rfl' : Calm s s := .of_tables .rfl' (.of_eq rfl)

theorem Calm.trans {s₁ s₂ s₃ : IntegrationStore} (h : Calm s₁ s₂) (h' : Calm s₂ s₃) : Calm s₁ s₃ :=
  ⟨h.tokens.trans h'.tokens, h'.settled.trans h.settled, h'.ended.trans h.ended,
    h.grants.trans h'.grants, h.nextTask.trans h'.nextTask, fun hs => h'.tasks (h.tasks hs)⟩

theorem calm_sendTokenRequest (x : Exchange) (clientSecret : Option Text) :
    Calm s (sendTokenRequest x clientSecret s).1 := by
  rcases sendTokenRequest_cases x clientSecret s with ⟨e, h⟩ | h
  · rw [h]
    exact .rfl'
  · rw [h]
    exact ⟨.of_eq rfl, rfl, rfl, le_rfl, le_rfl, fun hs => ⟨hs.entered, hs.open_⟩⟩

theorem calm_beginExchange (x : Exchange) : Calm s (beginExchange p x s).1 := by
  rcases beginExchange_cases p x s with ⟨e, h⟩ | ⟨secret, h⟩ | ⟨secret, h⟩
  · rw [h]
    exact .rfl'
  · rw [h]
    exact .rfl'
  · rw [h]
    exact ⟨.of_eq rfl, rfl, rfl, le_rfl, le_rfl, fun hs => ⟨hs.entered, hs.open_⟩⟩

theorem calm_moreGrants : Calm s { s with grants := s.grants + 1 } :=
  ⟨.of_eq rfl, rfl, rfl, Nat.le_succ _, le_rfl, fun hs => ⟨hs.entered, hs.open_⟩⟩

theorem calm_enterRefresh (name : Text) : Calm s (enterRefresh name s) := by
  refine ⟨.of_eq rfl, rfl, rfl, le_rfl, Nat.le_succ _,
    fun hs => ⟨fun n task h => ?_, fun n task h => ?_⟩⟩
  · exact Nat.lt_succ_of_lt (hs.entered n task h)
  · by_cases hn : n = name
    · subst hn
      -- the new task has no result: every result belongs to an older one
      simp only [enterRefresh, Function.update_self, Option.some.injEq] at h
      subst h
      by_contra hsettled
      exact absurd (hs.entered n _ hsettled) (Nat.lt_irrefl _)
    · simp only [enterRefresh, Function.update_of_ne hn] at h
      exact hs.open_ n task h

theorem calm_refresh (name : Text) : Calm s (refresh p name s).1 := by
  rcases refresh_cases p name s with ⟨task, -, h⟩ | h
  · rw [h]
    exact .rfl'
  · rw [h]
    refine (calm_enterRefresh name).trans ?_
    rcases refreshNow_cases p name s.nextTask (enterRefresh name s) with
      ⟨_, _, _, _, h⟩ | ⟨row, -, h⟩ | ⟨row, held, -, -, h⟩
    · rw [h]
      exact .rfl'
    · rw [h]
      exact calm_moreGrants.trans (calm_beginExchange _)
    · rw [h]
      exact .rfl'

theorem calm_touch {now : ℕ} {name : Text} : Calm s (s.touch now name) := by
  unfold touch
  exact .of_tables onlyTables_update (keeps_update fun _ _ h => h)

theorem calm_tokenResolve (now : ℕ) (input : ResolveInput) : Calm s (tokenResolve p now input s).1 := by
  rcases tokenResolve_cases p now input s with ⟨_, _, _, _, h⟩ | ⟨row, held, -, -, h⟩ | h
  · rw [h]
    exact .rfl'
  · rw [h]
    exact calm_touch
  · rw [h]
    exact calm_refresh _

theorem calm_finishConnect {now : ℕ} {id : Text} {error : Option Text} :
    Calm s (s.finishConnect now id error) :=
  .of_tables onlyTables_updateConnect (.of_eq rfl)

theorem calm_failAuth {now : ℕ} {record : IntegrationRecord} {reason : Text} :
    Calm s (s.failAuth now record reason) :=
  .of_tables onlyTables_failAuth keeps_failAuth

theorem calm_completeChecked (now : ℕ) (row : ConnectRow) (input : CompleteInput) (origin : ℕ) :
    Calm s (completeChecked p now row input origin s).1 := by
  rcases completeChecked_cases p now row input origin s with ⟨e, h⟩ | ⟨e, error, h⟩ |
    ⟨e, error, record, reason, h⟩ | ⟨record, code, verifier, h, -⟩
  · rw [h]
    exact .rfl'
  · rw [h]
    exact calm_finishConnect
  · rw [h]
    exact calm_finishConnect.trans calm_failAuth
  · rw [h]
    exact .rfl'

theorem calm_begin (call : Call) (i : Input) : Calm s (begin p s call i).1 := by
  cases call with
  | save config clientSecret =>
    rcases clientSecret with _ | _ | clientSecret
    · exact .of_tables onlyTables_saveRow keeps_saveRow
    · exact .of_tables onlyTables_saveRow keeps_saveRow
    · exact .rfl'
  | setUsage name usage => exact .of_tables setUsage_tables.1 setUsage_tables.2
  | delete name => exact .of_tables ⟨rfl, rfl, rfl, rfl, rfl, rfl⟩ keeps_delete
  | disconnect name => exact .of_tables disconnect_tables.1 disconnect_tables.2
  | connectStart name redirectUri =>
    simp only [begin]
    split
    · exact .rfl'
    · exact ⟨.of_eq rfl, rfl, rfl, le_rfl, le_rfl, fun hs => ⟨hs.entered, hs.open_⟩⟩
  | connectBegin connectId ticket =>
    simp only [begin]
    split <;> exact .rfl'
  | connectComplete input =>
    simp only [begin]
    split
    · exact .rfl'
    · exact calm_moreGrants
  | refresh name => exact calm_refresh name
  | tokenResolve input =>
    have h := @calm_tokenResolve p s i.now input
    simp only [begin]
    split <;> rename_i heq <;> rw [heq] at h <;> exact h

/-- Only the last statements of a token exchange store tokens, and only a finished refresh settles. -/
theorem calm_piece {f : Frame} {i : Input} (hsealing : ∀ x tokens, f ≠ .sealing x tokens)
    (hsettling : ∀ name task result, f ≠ .settling name task result) :
    Calm s (piece p s f i).1 := by
  cases f with
  | start call => exact calm_begin call i
  | saveSealing startedAt existing config clientSecret =>
    simp only [piece]
    split
    · exact .rfl'
    · exact .of_tables onlyTables_saveRow keeps_saveRow
  | ticketHashing startedAt id ticket name redirectUri =>
    exact .of_tables insertConnect_tables.1 insertConnect_tables.2
  | nonceHashing row record verifier nonce startedAt =>
    exact .of_tables ⟨rfl, rfl, rfl, rfl, rfl, rfl⟩ (.of_eq rfl)
  | nonceChecking row input origin =>
    have h := @calm_completeChecked p s i.now row input origin
    simp only [piece]
    split <;> rename_i heq <;> rw [heq] at h <;> exact h
  | openingVerifier callback record code verifier origin =>
    simp only [piece]
    split
    · exact .rfl'
    · exact calm_beginExchange _
  | openingRefresh name task record held =>
    simp only [piece]
    split
    · exact .rfl'
    · exact calm_beginExchange _
  | openingSecret x clientSecret =>
    simp only [piece]
    split
    · exact .rfl'
    · exact calm_sendTokenRequest ..
  | sealing x tokens => exact absurd rfl (hsealing x tokens)
  | settling name task result => exact absurd rfl (hsettling name task result)
  | stored x =>
    simp only [piece]
    split
    · exact calm_finishConnect
    · split <;> exact .rfl'
  | failed x error =>
    simp only [piece]
    split
    · exact calm_finishConnect.trans calm_failAuth
    · exact .of_tables onlyTables_failRefresh keeps_failRefresh
  | _ =>
    simp only [piece]
    repeat' split
    all_goals exact .rfl'

/-- Where the tokens that a store of tokens leaves behind come from. -/
theorem storeTokens_holds {now : ℕ} {name : Text} {tokens : TokenResponse} {origin : ℕ}
    {keepRefresh : Bool} {row : IntegrationRow}
    (hrow : row ∈ (s.storeTokens now name tokens origin keepRefresh).integrations.rows) {held : Held}
    (hheld : row.Holds held) :
    (∃ old ∈ s.integrations.rows, old.name = row.name ∧ old.Holds held) ∨
      (row.name = name ∧ held.origin = origin) := by
  obtain ⟨old, hold, hn, ⟨hname, rfl⟩ | ⟨-, rfl⟩⟩ := mem_update hrow
  · rcases hheld with haccess | hrefresh
    · rw [← Option.some.inj haccess]
      exact .inr ⟨hn.symm.trans hname, rfl⟩
    · dsimp only at hrefresh
      split at hrefresh
      · rw [← Option.some.inj hrefresh]
        exact .inr ⟨hn.symm.trans hname, rfl⟩
      · split at hrefresh
        · exact .inl ⟨old, hold, hn, .inr hrefresh⟩
        · exact absurd hrefresh (by simp)
  · exact .inl ⟨_, hold, rfl, hheld⟩

/-- What a piece stores it was holding. -/
theorem piece_tokens {f : Frame} {i : Input} {row : IntegrationRow}
    (hrow : row ∈ (piece p s f i).1.integrations.rows) {held : Held} (hheld : row.Holds held) :
    (∃ old ∈ s.integrations.rows, old.name = row.name ∧ old.Holds held) ∨
      f.carried s = some (row.name, held.origin) := by
  by_cases hsealing : ∃ x tokens, f = .sealing x tokens
  · obtain ⟨x, tokens, rfl⟩ := hsealing
    simp only [piece] at hrow
    split at hrow
    · exact .inl ⟨row, hrow, rfl, hheld⟩
    · rcases storeTokens_holds hrow hheld with hold | ⟨hn, horigin⟩
      · exact .inl hold
      · exact .inr (by rw [hn, horigin]; rfl)
  · by_cases hsettling : ∃ name task result, f = .settling name task result
    · obtain ⟨name, task, result, rfl⟩ := hsettling
      exact .inl ⟨row, hrow, rfl, hheld⟩
    · have hcalm := @calm_piece p s f i (fun x tokens h => hsealing ⟨x, tokens, h⟩)
        fun name task result h => hsettling ⟨name, task, result, h⟩
      exact .inl (hcalm.tokens row hrow held hheld)

/-- The fields that no token passes through. -/
theorem piece_ended (f : Frame) (i : Input) :
    (piece p s f i).1.ended = s.ended ∧ s.grants ≤ (piece p s f i).1.grants := by
  by_cases hsealing : ∃ x tokens, f = .sealing x tokens
  · obtain ⟨x, tokens, rfl⟩ := hsealing
    simp only [piece]
    split <;> exact ⟨rfl, le_rfl⟩
  · by_cases hsettling : ∃ name task result, f = .settling name task result
    · obtain ⟨name, task, result, rfl⟩ := hsettling
      exact ⟨rfl, le_rfl⟩
    · have hcalm := @calm_piece p s f i (fun x tokens h => hsealing ⟨x, tokens, h⟩)
        fun name task result h => hsettling ⟨name, task, result, h⟩
      exact ⟨hcalm.ended, hcalm.grants⟩

/-- A result settles only in the piece that held it. -/
theorem piece_settled {f : Frame} {i : Input} :
    (piece p s f i).1.settled = s.settled ∨ ∃ name task result, f = .settling name task result ∧
      (piece p s f i).1.settled = Function.update s.settled name
        (Function.update (s.settled name) task (some result)) := by
  by_cases hsettling : ∃ name task result, f = .settling name task result
  · obtain ⟨name, task, result, rfl⟩ := hsettling
    exact .inr ⟨name, task, result, rfl, rfl⟩
  · left
    by_cases hsealing : ∃ x tokens, f = .sealing x tokens
    · obtain ⟨x, tokens, rfl⟩ := hsealing
      simp only [piece]
      split <;> rfl
    · exact (@calm_piece p s f i (fun x tokens h => hsealing ⟨x, tokens, h⟩)
        fun name task result h => hsettling ⟨name, task, result, h⟩).settled

/-! ### What the next frame holds -/

def Goal.task : Goal → Option ℕ
  | .connect _ => none
  | .refresh task => some task

/-- The refresh that the call is running. -/
def Frame.task : Frame → Option ℕ
  | .openingRefresh _ task _ _ => some task
  | .openingSecret x _ => x.goal.task
  | .fetching x _ => x.goal.task
  | .sealing x _ => x.goal.task
  | .stored x => x.goal.task
  | .failed x _ => x.goal.task
  | .openingFresh _ task _ _ => some task
  | .settling _ task _ => some task
  | _ => none

/-- A frame that a token request leads to holds what the request holds. -/
structure Follows (x : Exchange) (f : Frame) : Prop where
  task : f.task = x.goal.task
  carried : ∀ s name origin, f.carried s = some (name, origin) → name = x.name ∧ origin = x.origin

theorem follows_of_eq {x : Exchange} {f : Frame} (h : (∃ e, f = .failed x e) ∨
    (∃ secret, f = .openingSecret x secret) ∨ ∃ secret, f = .fetching x secret) : Follows x f := by
  have hpair : ∀ {name : Text} {origin : ℕ}, some (x.name, x.origin) = some (name, origin) →
      name = x.name ∧ origin = x.origin := by
    intro name origin h
    obtain ⟨hn, ho⟩ := Prod.mk.inj (Option.some.inj h)
    exact ⟨hn.symm, ho.symm⟩
  rcases h with ⟨e, rfl⟩ | ⟨secret, rfl⟩ | ⟨secret, rfl⟩
  · exact ⟨rfl, fun s name origin h => absurd h (by simp [Frame.carried])⟩
  · exact ⟨rfl, fun s name origin h => hpair h⟩
  · exact ⟨rfl, fun s name origin h => hpair h⟩

theorem follows_beginExchange (x : Exchange) : Follows x (beginExchange p x s).2 := by
  apply follows_of_eq
  rcases beginExchange_cases p x s with ⟨e, h⟩ | ⟨secret, h⟩ | ⟨secret, h⟩
  · exact .inl ⟨e, congrArg Prod.snd h⟩
  · exact .inr (.inl ⟨secret, congrArg Prod.snd h⟩)
  · exact .inr (.inr ⟨secret, congrArg Prod.snd h⟩)

theorem follows_sendTokenRequest (x : Exchange) (secret : Option Text) :
    Follows x (sendTokenRequest x secret s).2 := by
  apply follows_of_eq
  rcases sendTokenRequest_cases x secret s with ⟨e, h⟩ | h
  · exact .inl ⟨e, congrArg Prod.snd h⟩
  · exact .inr (.inr ⟨secret, congrArg Prod.snd h⟩)

/-- Where what a frame holds can come from, other than the frame before it: a stored token, or a
    grant that is new. -/
def Reads (s : IntegrationStore) (name : Text) (origin : ℕ) : Prop :=
  (∃ row ∈ s.integrations.rows, row.name = name ∧ ∃ held, row.Holds held ∧ held.origin = origin) ∨
    origin = s.grants

/-- What a refresh starts with. -/
theorem refresh_frame {name : Text} (hs : TasksOk s) :
    (∀ task, (refresh p name s).2.task = some task → task < (refresh p name s).1.nextTask) ∧
      ∀ n origin, (refresh p name s).2.carried (refresh p name s).1 = some (n, origin) →
        Reads s n origin := by
  rcases refresh_cases p name s with ⟨task, hopen, h⟩ | h
  · rw [h]
    refine ⟨fun k hk => absurd hk (by simp [Frame.task]), fun n origin hc => ?_⟩
    -- a task in flight has no result yet
    simp only [Frame.carried, hs.open_ name task hopen] at hc
    exact absurd hc (by simp)
  · rw [h]
    rcases refreshNow_cases p name s.nextTask (enterRefresh name s) with
      ⟨_, _, _, _, h⟩ | ⟨row, -, h⟩ | ⟨row, held, hrow, hheld, h⟩
    · rw [h]
      refine ⟨fun k hk => ?_, fun n origin hc => absurd hc (by simp [Frame.carried, resolvedOrigin])⟩
      rw [← Option.some.inj hk]
      exact Nat.lt_succ_self _
    · rw [h]
      refine ⟨fun k hk => ?_, fun n origin hc => ?_⟩
      · rw [(follows_beginExchange _).task] at hk
        rw [← Option.some.inj hk]
        refine Nat.lt_of_lt_of_le ?_ (calm_beginExchange _).nextTask
        exact Nat.lt_succ_self s.nextTask
      · exact .inr ((follows_beginExchange _).carried _ _ _ hc).2
    · rw [h]
      refine ⟨fun k hk => ?_, fun n origin hc => ?_⟩
      · rw [← Option.some.inj hk]
        exact Nat.lt_succ_self _
      · obtain ⟨rfl, rfl⟩ := Prod.mk.inj (Option.some.inj hc)
        obtain ⟨hmem, hn⟩ := row_eq_some.mp hrow
        exact .inl ⟨row, hmem, hn, held, .inr hheld, rfl⟩

theorem begin_frame {call : Call} {i : Input} {f' : Frame} (hs : TasksOk s)
    (h : (begin p s call i).2 = .inl f') :
    (∀ task, f'.task = some task → task < (begin p s call i).1.nextTask) ∧
      ∀ name origin, f'.carried (begin p s call i).1 = some (name, origin) → Reads s name origin := by
  have hnone : ∀ {f : Frame} {s' : IntegrationStore}, f.task = none → f.carried s' = none →
      (∀ task, f.task = some task → task < s'.nextTask) ∧
        ∀ name origin, f.carried s' = some (name, origin) → Reads s name origin := by
    intro f s' htask hcarried
    exact ⟨fun task h => absurd (htask.symm.trans h) (by simp),
      fun name origin h => absurd (hcarried.symm.trans h) (by simp)⟩
  cases call with
  | save config clientSecret =>
    rcases clientSecret with _ | _ | clientSecret
    · exact absurd h (by simp [begin])
    · exact absurd h (by simp [begin])
    · obtain rfl := Sum.inl.inj h
      exact hnone rfl rfl
  | setUsage name usage => exact absurd h (by simp [begin])
  | delete name => exact absurd h (by simp [begin])
  | disconnect name => exact absurd h (by simp [begin])
  | connectStart name redirectUri =>
    simp only [begin] at h
    split at h
    · exact absurd h (by simp)
    obtain rfl := Sum.inl.inj h
    exact hnone rfl rfl
  | connectBegin connectId ticket =>
    simp only [begin] at h
    split at h
    · exact absurd h (by simp)
    obtain rfl := Sum.inl.inj h
    exact hnone rfl rfl
  | connectComplete input =>
    simp only [begin] at h ⊢
    split at h
    · exact absurd h (by simp)
    obtain rfl := Sum.inl.inj h
    refine ⟨fun task hk => absurd hk (by simp [Frame.task]), fun name origin hc => ?_⟩
    obtain ⟨code, -, heq⟩ := Option.map_eq_some_iff.mp hc
    exact .inr (Prod.mk.inj heq).2.symm
  | refresh name =>
    obtain rfl := Sum.inl.inj h
    exact refresh_frame hs
  | tokenResolve input =>
    simp only [begin] at h ⊢
    rcases tokenResolve_cases p i.now input s with ⟨_, _, _, _, hr⟩ | ⟨row, held, hrow, hheld, hr⟩ | hr
    · rw [hr] at h
      exact absurd h (by simp)
    · rw [hr] at h ⊢
      obtain rfl := Sum.inl.inj h
      refine ⟨fun task hk => absurd hk (by simp [Frame.task]), fun name origin hc => ?_⟩
      obtain ⟨rfl, rfl⟩ := Prod.mk.inj (Option.some.inj hc)
      obtain ⟨hmem, hn⟩ := row_eq_some.mp hrow
      exact .inl ⟨row, hmem, hn, held, .inl hheld, rfl⟩
    · rw [hr] at h ⊢
      obtain rfl := Sum.inl.inj h
      exact refresh_frame hs

/-- **What the next frame holds** it held before, or read from a row, or is a new grant; and its task
    is the one before or a new one. -/
theorem piece_frame {f f' : Frame} {i : Input} (hs : TasksOk s)
    (h : (piece p s f i).2 = .inl f') :
    (∀ task, f'.task = some task → f.task = some task ∨ task < (piece p s f i).1.nextTask) ∧
      ∀ name origin, f'.carried (piece p s f i).1 = some (name, origin) →
        f.carried s = some (name, origin) ∨ Reads s name origin := by
  -- most pieces go on with what they have, or let go of it
  have hnone : ∀ {s' : IntegrationStore}, f'.task = none → f'.carried s' = none →
      (∀ task, f'.task = some task → f.task = some task ∨ task < s'.nextTask) ∧
        ∀ name origin, f'.carried s' = some (name, origin) →
          f.carried s = some (name, origin) ∨ Reads s name origin := by
    intro s' htask hcarried
    exact ⟨fun task h => absurd (htask.symm.trans h) (by simp),
      fun name origin h => absurd (hcarried.symm.trans h) (by simp)⟩
  have hsame : ∀ {s' : IntegrationStore}, f'.task = f.task →
      (f'.carried s' = f.carried s ∨ f'.carried s' = none) →
      (∀ task, f'.task = some task → f.task = some task ∨ task < s'.nextTask) ∧
        ∀ name origin, f'.carried s' = some (name, origin) →
          f.carried s = some (name, origin) ∨ Reads s name origin := by
    intro s' htask hcarried
    refine ⟨fun task h => .inl (htask ▸ h), fun name origin h => ?_⟩
    rcases hcarried with heq | hcarried
    · exact .inl (heq ▸ h)
    · exact absurd (hcarried.symm.trans h) (by simp)
  have hfollows : ∀ {x : Exchange} {s' : IntegrationStore}, Follows x f' →
      (f.task = x.goal.task ∨ x.goal.task = none) → f.carried s = some (x.name, x.origin) →
      (∀ task, f'.task = some task → f.task = some task ∨ task < s'.nextTask) ∧
        ∀ name origin, f'.carried s' = some (name, origin) →
          f.carried s = some (name, origin) ∨ Reads s name origin := by
    intro x s' hx htask hcarried
    refine ⟨fun task h => ?_, fun name origin h => ?_⟩
    · rw [hx.task] at h
      rcases htask with htask | htask
      · exact .inl (htask.trans h)
      · exact absurd (htask.symm.trans h) (by simp)
    · obtain ⟨rfl, rfl⟩ := hx.carried _ _ _ h
      exact .inl hcarried
  cases f with
  | start call =>
    obtain ⟨htask, hcarried⟩ := begin_frame hs h
    exact ⟨fun task ht => .inr (htask task ht), fun name origin hc => .inr (hcarried name origin hc)⟩
  | saveSealing startedAt existing config clientSecret =>
    simp only [piece] at h
    split at h <;> exact absurd h (by simp)
  | ticketHashing startedAt id ticket name redirectUri => exact absurd h (by simp [piece])
  | ticketChecking row ticket =>
    simp only [piece] at h
    split at h
    · exact absurd h (by simp)
    split at h
    · exact absurd h (by simp)
    obtain rfl := Sum.inl.inj h
    exact hnone rfl rfl
  | verifierSealing row record verifier nonce =>
    simp only [piece] at h
    split at h
    · exact absurd h (by simp)
    obtain rfl := Sum.inl.inj h
    exact hnone rfl rfl
  | nonceHashing row record verifier nonce startedAt =>
    obtain rfl := Sum.inl.inj h
    exact hnone rfl rfl
  | challenging row record verifier nonce =>
    simp only [piece] at h
    split at h <;> exact absurd h (by simp)
  | nonceChecking row input origin =>
    simp only [piece] at h ⊢
    rcases completeChecked_cases p i.now row input origin s with ⟨e, hr⟩ | ⟨e, error, hr⟩ |
      ⟨e, error, record, reason, hr⟩ | ⟨record, code, verifier, hr, hcode, hrecord, -⟩
    · rw [hr] at h
      exact absurd h (by simp)
    · rw [hr] at h
      exact absurd h (by simp)
    · rw [hr] at h
      exact absurd h (by simp)
    · rw [hr] at h
      obtain rfl := Sum.inl.inj h
      refine hsame rfl (.inl ?_)
      obtain ⟨-, -, -, hname⟩ := require_ok hrecord
      simp only [Frame.carried, hcode, Option.map_some, hname]
  | openingVerifier callback record code verifier origin =>
    simp only [piece] at h ⊢
    split at h
    · exact absurd h (by simp)
    obtain rfl := Sum.inl.inj h
    exact hfollows (follows_beginExchange _) (.inr rfl) rfl
  | openingRefresh name task record held =>
    simp only [piece] at h ⊢
    split at h
    · obtain rfl := Sum.inl.inj h
      exact hsame rfl (.inr rfl)
    · obtain rfl := Sum.inl.inj h
      exact hfollows (follows_beginExchange _) (.inl rfl) rfl
  | openingSecret x clientSecret =>
    simp only [piece] at h ⊢
    split at h
    · obtain rfl := Sum.inl.inj h
      exact hsame rfl (.inr rfl)
    · obtain rfl := Sum.inl.inj h
      exact hfollows (follows_sendTokenRequest ..) (.inl rfl) rfl
  | fetching x clientSecret =>
    simp only [piece] at h ⊢
    split at h
    · obtain rfl := Sum.inl.inj h
      exact hsame rfl (.inr rfl)
    · obtain rfl := Sum.inl.inj h
      exact hsame rfl (.inl rfl)
  | sealing x tokens =>
    simp only [piece] at h ⊢
    split at h
    · obtain rfl := Sum.inl.inj h
      exact hsame rfl (.inr rfl)
    · obtain rfl := Sum.inl.inj h
      exact hsame rfl (.inr rfl)
  | stored x =>
    simp only [piece] at h ⊢
    split at h
    · exact absurd h (by simp)
    rename_i task hgoal
    have htask : (Frame.stored x).task = some task := congrArg Goal.task hgoal
    split at h
    · obtain rfl := Sum.inl.inj h
      exact hsame htask.symm (.inr rfl)
    · rename_i row hrow
      obtain rfl := Sum.inl.inj h
      refine ⟨fun k hk => .inl (htask.trans hk), fun name origin hc => .inr (.inl ?_)⟩
      obtain ⟨held, hheld, heq⟩ := Option.map_eq_some_iff.mp hc
      obtain ⟨hn, ho⟩ := Prod.mk.inj heq
      obtain ⟨hmem, hname⟩ := row_eq_some.mp hrow
      exact ⟨row, hmem, hname.trans hn, held, .inl hheld, ho⟩
  | failed x error =>
    simp only [piece] at h ⊢
    split at h
    · exact absurd h (by simp)
    rename_i task hgoal
    obtain rfl := Sum.inl.inj h
    refine hsame (congrArg Goal.task hgoal).symm (.inr ?_)
    simp only [Frame.carried, resolvedOrigin, Option.map_eq_none_iff]
    cases (s.failRefresh i.now x.name error).require x.name with
    | error e => rfl
    | ok record =>
      simp only [Except.map, refreshFailure]
      cases error.thrown <;> rfl
  | openingFresh name task record held =>
    simp only [piece] at h ⊢
    split at h
    · obtain rfl := Sum.inl.inj h
      exact hsame rfl (.inl rfl)
    · obtain rfl := Sum.inl.inj h
      exact hsame rfl (.inr rfl)
    · obtain rfl := Sum.inl.inj h
      exact hsame rfl (.inr rfl)
  | settling name task result =>
    obtain rfl := Sum.inl.inj h
    refine ⟨fun k hk => absurd hk (by simp [Frame.task]), fun n origin hc => .inl ?_⟩
    simpa [piece, Frame.carried, Function.update_self] using hc
  | waiting name task =>
    simp only [piece] at h ⊢
    split at h
    · obtain rfl := Sum.inl.inj h
      rename_i hwait
      exact hsame rfl (.inr (by simp only [Frame.carried, hwait, Option.bind_none, Option.map_none]))
    · exact absurd h (by simp)
  | opening name record held =>
    simp only [piece] at h
    split at h <;> exact absurd h (by simp)

/-- A resolution that is handed out was held. -/
theorem piece_resolved {f : Frame} {i : Input} {held : Held} {record : IntegrationRecord}
    {refreshed : Bool} {ended : ℕ}
    (h : (piece p s f i).2 = .inr (.resolved (.ok (.ok held record refreshed)) ended)) :
    ∃ name, f.carried s = some (name, held.origin) ∧ ended = s.ended name := by
  cases f with
  | start call =>
    cases call with
    | tokenResolve input =>
      simp only [piece, begin] at h
      rcases tokenResolve_cases p i.now input s with ⟨_, _, _, _, hr⟩ | ⟨row, held, -, -, hr⟩ | hr
      · rw [hr] at h
        exact absurd h (by simp)
      · rw [hr] at h
        exact absurd h (by simp)
      · rw [hr] at h
        exact absurd h (by simp)
    | save config clientSecret =>
      rcases clientSecret with _ | _ | clientSecret <;> exact absurd h (by simp [piece, begin])
    | connectStart name redirectUri =>
      simp only [piece, begin] at h
      split at h <;> exact absurd h (by simp)
    | connectBegin connectId ticket =>
      simp only [piece, begin] at h
      split at h <;> exact absurd h (by simp)
    | connectComplete input =>
      simp only [piece, begin] at h
      split at h <;> exact absurd h (by simp)
    | _ => exact absurd h (by simp [piece, begin])
  | waiting name task =>
    simp only [piece] at h
    split at h
    · exact absurd h (by simp)
    rename_i result hsettled
    obtain ⟨rfl, rfl⟩ := Ret.resolved.inj (Sum.inr.inj h)
    refine ⟨name, ?_, rfl⟩
    simp only [Frame.carried, hsettled, Option.bind_some, resolvedOrigin, Option.map_some]
  | opening name record held =>
    simp only [piece] at h
    split at h
    · exact absurd h (by simp)
    obtain ⟨hanswer, rfl⟩ := Ret.resolved.inj (Sum.inr.inj h)
    obtain ⟨rfl, -, -⟩ := TokenResolution.ok.inj (Except.ok.inj hanswer)
    exact ⟨name, rfl, rfl⟩
  | nonceChecking row input origin =>
    simp only [piece] at h
    split at h <;> exact absurd h (by simp)
  | _ =>
    simp only [piece] at h
    repeat' split at h
    all_goals exact absurd h (by simp)

/-! ### The step -/

theorem piece_tasks {f : Frame} {i : Input} (hs : TasksOk s)
    (htask : ∀ task, f.task = some task → task < s.nextTask) :
    TasksOk (piece p s f i).1 ∧ s.nextTask ≤ (piece p s f i).1.nextTask := by
  by_cases hsealing : ∃ x tokens, f = .sealing x tokens
  · obtain ⟨x, tokens, rfl⟩ := hsealing
    simp only [piece]
    split
    · exact ⟨hs, le_rfl⟩
    · exact ⟨⟨hs.entered, hs.open_⟩, le_rfl⟩
  · by_cases hsettling : ∃ name task result, f = .settling name task result
    · obtain ⟨name, task, result, rfl⟩ := hsettling
      refine ⟨⟨fun n k h => ?_, fun n k h => ?_⟩, le_rfl⟩
      · by_cases hn : n = name
        · subst hn
          by_cases hk : k = task
          · rw [hk]
            exact htask task rfl
          · simp only [piece, Function.update_self, Function.update_of_ne hk] at h
            exact hs.entered n k h
        · simp only [piece, Function.update_of_ne hn] at h
          exact hs.entered n k h
      · by_cases hn : n = name
        · subst hn
          exact absurd h (by simp [piece])
        · simp only [piece, Function.update_of_ne hn] at h ⊢
          exact hs.open_ n k h
    · have hcalm := @calm_piece p s f i (fun x tokens h => hsealing ⟨x, tokens, h⟩)
        fun name task result h => hsettling ⟨name, task, result, h⟩
      exact ⟨hcalm.tasks hs, hcalm.nextTask⟩

/-- What the frame of another call holds changes only when the task it waits for settles. -/
theorem carried_piece {f other : Frame} {i : Input} {name : Text} {origin : ℕ}
    (h : other.carried (piece p s f i).1 = some (name, origin)) :
    other.carried s = some (name, origin) ∨ f.carried s = some (name, origin) := by
  rcases @piece_settled p s f i with hsettled | ⟨n, task, result, rfl, hsettled⟩
  · left
    cases other <;> simpa only [Frame.carried, hsettled] using h
  · cases other with
    | waiting n' task' =>
      by_cases hn : n' = n
      · subst hn
        by_cases hk : task' = task
        · subst hk
          right
          simpa only [Frame.carried, hsettled, Function.update_self, Option.bind_some] using h
        · left
          simpa only [Frame.carried, hsettled, Function.update_self, Function.update_of_ne hk] using h
      · left
        simpa only [Frame.carried, hsettled, Function.update_of_ne hn] using h
    | _ => exact .inl h

/-- The piece of a disconnect, a delete or a change of credentials returns, and settles nothing. -/
theorem ends_piece {f : Frame} {i : Input} {name : Text} (h : f.ends s i = some name) :
    (∃ r, (piece p s f i).2 = .inr r) ∧ (piece p s f i).1.settled = s.settled := by
  refine ⟨?_, ?_⟩
  · cases f with
    | start call =>
      cases call with
      | save config clientSecret =>
        rcases clientSecret with _ | _ | clientSecret
        · exact ⟨_, rfl⟩
        · exact ⟨_, rfl⟩
        · exact absurd h (by simp [Frame.ends])
      | delete name => exact ⟨_, rfl⟩
      | disconnect name => exact ⟨_, rfl⟩
      | _ => exact absurd h (by simp [Frame.ends])
    | saveSealing startedAt existing config clientSecret =>
      simp only [piece]
      split <;> exact ⟨_, rfl⟩
    | _ => exact absurd h (by simp [Frame.ends])
  · rcases @piece_settled p s f i with hsettled | ⟨n, task, result, rfl, -⟩
    · exact hsettled
    · exact absurd h (by simp [Frame.ends])

/-- Where a piece ends the grants of a name and drops their tokens, none is left. -/
theorem ends_holds {f : Frame} {i : Input} {name : Text} (h : f.ends s i = some name)
    (hdrops : f.drops = true) {row : IntegrationRow}
    (hrow : row ∈ (piece p s f i).1.integrations.rows) (hn : row.name = name) (held : Held) :
    ¬ row.Holds held := by
  -- a save whose row has not changed since it read it drops the tokens where it should
  have hsave : ∀ {config secret}, s.changesCredentials (s.row config.name) config = true →
      row ∈ (s.saveRow i.now i.now (s.row config.name) config secret).2.integrations.rows →
      row.name = config.name → ¬ row.Holds held := by
    intro config secret hchanges hrow hn
    unfold changesCredentials at hchanges
    cases hold : s.row config.name with
    | none => simp [hold] at hchanges
    | some old =>
      simp only [hold, Bool.or_self] at hchanges
      rw [hold] at hrow
      exact saveRow_holds hchanges hrow hn held
  cases f with
  | start call =>
    cases call with
    | save config clientSecret =>
      rcases clientSecret with _ | _ | clientSecret
      · obtain ⟨hchanges, hname⟩ := Option.ite_none_right_eq_some.mp h
        exact hsave hchanges hrow (hn.trans (Option.some.inj hname).symm)
      · obtain ⟨hchanges, hname⟩ := Option.ite_none_right_eq_some.mp h
        exact hsave hchanges hrow (hn.trans (Option.some.inj hname).symm)
      · exact absurd h (by simp [Frame.ends])
    | delete deleted =>
      obtain rfl := Option.some.inj h
      exact absurd hn (delete_gone hrow)
    | disconnect disconnected =>
      obtain ⟨hsome, hname⟩ := Option.ite_none_right_eq_some.mp h
      exact disconnect_holds hsome hrow (hn.trans (Option.some.inj hname).symm) held
    | _ => exact absurd h (by simp [Frame.ends])
  | saveSealing startedAt existing config clientSecret =>
    obtain ⟨⟨hsealed, -⟩, hname⟩ := Option.ite_none_right_eq_some.mp h
    simp only [piece, hsealed] at hrow
    obtain ⟨old, hold, hchanged⟩ := (Option.any_eq_true ..).mp hdrops
    rw [hold] at hrow
    exact saveRow_holds hchanged hrow (hn.trans (Option.some.inj hname).symm) held
  | _ => exact absurd h (by simp [Frame.ends])

/-! ### Runs -/

/-- A piece that runs is a piece, and may end the grants of a name. -/
theorem resume_cases {f : Frame} {i : Input} {out : Frame ⊕ Ret}
    (h : resume p s f i = some (s', out)) :
    (∀ id, f.attempt = some id → id ∉ s.attempted) ∧ out = (piece p s f i).2 ∧
    ((f.ends s i = none ∧ s' = (piece p s f i).1) ∨
      ∃ name, f.ends s i = some name ∧ s' = (piece p s f i).1.endGrants name) := by
  unfold resume at h
  split at h
  · exact absurd h (by simp)
  rename_i hfresh
  refine ⟨fun id hid hmem => hfresh ⟨id, hid, hmem⟩, ?_⟩
  have hrun := (Option.some.inj h).symm
  unfold run at hrun
  split at hrun
  · exact ⟨congrArg Prod.snd hrun, .inr ⟨_, ‹_›, congrArg Prod.fst hrun⟩⟩
  · exact ⟨congrArg Prod.snd hrun, .inl ⟨‹_›, congrArg Prod.fst hrun⟩⟩

/-- The invariant: the tables and every call in flight hold only grants that have not ended. -/
structure DisconnectInv (g : Coop.Config (integrations p)) : Prop where
  tasks : TasksOk g.shared
  running : ∀ t c f task, g.pool t = some (c, f) → f.task = some task → task < g.shared.nextTask
  bound : ∀ name, g.shared.ended name ≤ g.shared.grants
  held : ∀ t c f name origin, g.pool t = some (c, f) → f.carried g.shared = some (name, origin) →
    g.shared.ended name ≤ origin
  final : Final g

section
variable {g g' : Coop.Config (integrations p)}

theorem DisconnectInv.call (hg : DisconnectInv g) {t : ℕ} {c : Call} :
    DisconnectInv { g with pool := Function.update g.pool t (some (c, Frame.start c)) } := by
  refine ⟨hg.tasks, fun u c' f task hu htask => ?_, hg.bound, fun u c' f name origin hu hcarried => ?_,
    hg.final⟩
  · rcases Coop.pool_update_cases hu with ⟨-, heq⟩ | ⟨-, hold⟩
    · obtain ⟨-, rfl⟩ := Prod.mk.inj (Option.some.inj heq)
      exact absurd htask (by simp [Frame.task])
    · exact hg.running u c' f task hold htask
  · rcases Coop.pool_update_cases hu with ⟨-, heq⟩ | ⟨-, hold⟩
    · obtain ⟨-, rfl⟩ := Prod.mk.inj (Option.some.inj heq)
      exact absurd hcarried (by simp [Frame.carried])
    · exact hg.held u c' f name origin hold hcarried

/-- What a piece reads from the store has not ended. -/
theorem DisconnectInv.reads (hg : DisconnectInv g) {name : Text} {origin : ℕ}
    (h : Reads g.shared name origin) : g.shared.ended name ≤ origin := by
  rcases h with ⟨row, hrow, rfl, held, hheld, rfl⟩ | rfl
  · exact hg.final.1 row hrow held hheld
  · exact hg.bound name

/-- A piece that ends nothing. -/
theorem DisconnectInv.piece (hg : DisconnectInv g) {t : ℕ} {c : Call} {f : Frame} {i : Input}
    {out : Frame ⊕ Ret} (hran : Coop.Ran g g' t c f i out)
    (hshared : g'.shared = (piece p g.shared f i).1) (hout : out = (piece p g.shared f i).2) :
    DisconnectInv g' := by
  have hown : ∀ {name origin}, f.carried g.shared = some (name, origin) →
      g.shared.ended name ≤ origin := fun h => hg.held t c f _ _ hran.before h
  obtain ⟨hended, hgrants⟩ := @piece_ended p g.shared f i
  obtain ⟨htasks, hnext⟩ := @piece_tasks p g.shared f i hg.tasks
    fun task => hg.running t c f task hran.before
  rw [← hshared] at hended hgrants htasks hnext
  refine ⟨htasks, fun u c' f' task hu htask => ?_, fun name => ?_,
    fun u c' f' name origin hu hcarried => ?_, fun row hrow held hheld => ?_,
    fun call held record refreshed ended hentry => ?_⟩
  · rcases hran.pool u c' f' hu with ⟨-, hold⟩ | ⟨-, -, hnew⟩
    · exact (hg.running u c' f' task hold htask).trans_le hnext
    · rcases (piece_frame hg.tasks (hout.symm.trans hnew)).1 task htask with hsame | hlt
      · exact (hg.running t c f task hran.before hsame).trans_le hnext
      · rw [hshared]
        exact hlt
  · rw [hended]
    exact (hg.bound name).trans hgrants
  · rw [hended]
    rcases hran.pool u c' f' hu with ⟨-, hold⟩ | ⟨-, -, hnew⟩
    · rw [hshared] at hcarried
      rcases carried_piece hcarried with hsame | hmine
      · exact hg.held u c' f' name origin hold hsame
      · exact hown hmine
    · rw [hshared] at hcarried
      rcases (piece_frame hg.tasks (hout.symm.trans hnew)).2 name origin hcarried with hsame | hreads
      · exact hown hsame
      · exact hg.reads hreads
  · rw [hended]
    rw [hshared] at hrow
    rcases piece_tokens hrow hheld with ⟨old, hold, hn, holdHeld⟩ | hmine
    · rw [← hn]
      exact hg.final.1 old hold held holdHeld
    · exact hown hmine
  · rcases hran.log _ hentry with hold | ⟨-, hnew⟩
    · exact hg.final.2 call held record refreshed ended hold
    · obtain ⟨name, hcarried, rfl⟩ := piece_resolved (hout.symm.trans hnew)
      exact hown hcarried

/-- A piece that ends the grants of a name, while no call holds one of them. -/
theorem DisconnectInv.ends (hg : DisconnectInv g) {t : ℕ} {c : Call} {f : Frame} {i : Input}
    {out : Frame ⊕ Ret} {name : Text} (hran : Coop.Ran g g' t c f i out)
    (hends : f.ends g.shared i = some name) (hdrops : f.drops = true) (hunheld : Unheld g name)
    (hshared : g'.shared = (Integrations.piece p g.shared f i).1.endGrants name)
    (hout : out = (Integrations.piece p g.shared f i).2) : DisconnectInv g' := by
  obtain ⟨⟨r, hr⟩, hsettled⟩ := @ends_piece p g.shared f i name hends
  obtain ⟨hended, hgrants⟩ := @piece_ended p g.shared f i
  obtain ⟨htasks, hnext⟩ := @piece_tasks p g.shared f i hg.tasks
    fun task => hg.running t c f task hran.before
  have hother : ∀ n, n ≠ name → g'.shared.ended n = g.shared.ended n := by
    intro n hn
    rw [hshared]
    exact (Function.update_of_ne hn ..).trans (congrFun hended n)
  have hpool : ∀ u c' f', g'.pool u = some (c', f') → g.pool u = some (c', f') := by
    intro u c' f' hu
    rcases hran.pool u c' f' hu with ⟨-, hold⟩ | ⟨-, -, hnew⟩
    · exact hold
    · exact absurd (hr.symm.trans (hout.symm.trans hnew)) (by simp)
  refine ⟨?_, fun u c' f' task hu htask => ?_, fun n => ?_, fun u c' f' n origin hu hcarried => ?_,
    fun row hrow held hheld => ?_, fun call held record refreshed ended hentry => ?_⟩
  · rw [hshared]
    exact ⟨htasks.entered, htasks.open_⟩
  · rw [hshared]
    exact (hg.running u c' f' task (hpool u c' f' hu) htask).trans_le hnext
  · by_cases hn : n = name
    · rw [hshared, hn]
      exact (Function.update_self ..).le
    · rw [hother n hn, hshared]
      exact (hg.bound n).trans hgrants
  · have hold : f'.carried g.shared = some (n, origin) := by
      rw [← hcarried, hshared]
      cases f' <;> simp only [Frame.carried, endGrants, hsettled]
    by_cases hn : n = name
    · subst hn
      exact absurd hold (hunheld u c' f' origin (hpool u c' f' hu))
    · rw [hother n hn]
      exact hg.held u c' f' n origin (hpool u c' f' hu) hold
  · rw [hshared] at hrow
    by_cases hn : row.name = name
    · exact absurd hheld (ends_holds hends hdrops hrow hn held)
    · rw [hother row.name hn]
      rcases piece_tokens hrow hheld with ⟨old, hold, hname, holdHeld⟩ | hmine
      · rw [← hname]
        exact hg.final.1 old hold held holdHeld
      · exact hg.held t c f _ _ hran.before hmine
  · rcases hran.log _ hentry with hold | ⟨-, hnew⟩
    · exact hg.final.2 call held record refreshed ended hold
    · obtain ⟨n, hcarried, rfl⟩ := piece_resolved (hout.symm.trans hnew)
      exact hg.held t c f n held.origin hran.before hcarried

/-- **Step lemma.** -/
theorem DisconnectInv.step {e : Coop.Event (integrations p)} (hg : DisconnectInv g)
    (hquiet : Quiet g e) (h : Coop.step g e = some g') : DisconnectInv g' := by
  rcases Coop.step_ran h with ⟨t, c, -, -, rfl⟩ | ⟨t, i, c, f, out, rfl, hran⟩
  · exact hg.call
  · obtain ⟨-, hout, ⟨-, hshared⟩ | ⟨name, hends, hshared⟩⟩ := resume_cases hran.runs
    · exact hg.piece hran hshared hout
    · obtain ⟨hdrops, hunheld⟩ := hquiet c f name hran.before hends
      exact hg.ends hran hends hdrops hunheld hshared hout

end

theorem DisconnectInv.fresh : DisconnectInv (freshIntegrations p) where
  tasks := ⟨fun _ _ h => absurd rfl h, fun _ _ h => absurd h (by simp [freshIntegrations, emptyStore, Coop.idle])⟩
  running := fun _ _ _ _ h => absurd h (by simp [freshIntegrations, Coop.idle])
  bound := fun _ => le_rfl
  held := fun _ _ _ _ _ h => absurd h (by simp [freshIntegrations, Coop.idle])
  final := ⟨fun _ h => absurd h (by simp [freshIntegrations, emptyStore, Coop.idle]),
    fun _ _ _ _ _ h => absurd h (by simp [freshIntegrations, Coop.idle])⟩

/-- The condition on a step, where only the threads below `N` are ever used. -/
def quietBelow (N : ℕ) : Coop.Config (integrations p) → Coop.Event (integrations p) → Bool :=
  Coop.below N fun g e => match e with
    | .call _ _ => true
    | .resume t i =>
      (g.pool t).all fun (_, f) => (f.ends g.shared i).all fun name =>
        f.drops && (List.range N).all fun u => (g.pool u).all fun (_, other) =>
          (other.carried g.shared).all fun (held, _) => decide (held ≠ name)

theorem quiet_of_quietBelow {N : ℕ} {g g' : Coop.Config (integrations p)}
    {es : List (Coop.Event (integrations p))} (hidle : ∀ u, N ≤ u → g.pool u = none)
    (h : execGuarded Coop.step (quietBelow N) g es = some g') : Reaches Coop.step Quiet g g' := by
  refine (Coop.reaches_of_below hidle h).mono fun g e ⟨hcheck, hidle⟩ => ?_
  cases e with
  | call t c => trivial
  | resume t i =>
    intro c f name hpool hends
    simp only [hpool, hends, Option.all_some, Bool.and_eq_true, List.all_eq_true] at hcheck
    refine ⟨hcheck.1, fun u c' other origin hu hcarried => ?_⟩
    by_cases hN : N ≤ u
    · exact absurd (hu.symm.trans (hidle u hN)) (by simp)
    · have hother := hcheck.2 u (List.mem_range.mpr (Nat.lt_of_not_le hN))
      simp only [hu, hcarried, Option.all_some, decide_eq_true_eq] at hother
      exact hother rfl

/-- A platform whose hash is the text itself. -/
def clearPlatform : Platform where
  userId := "u"
  insecureAllowance := []
  sha256Hex := id
  pkceChallenge := id
  parseUrl := fun text =>
    if text = ("https://gh/token" : Text) then some ⟨"https:", "gh", "https://gh"⟩ else none

def github : IntegrationConfig :=
  { name := "gh", provider := "gh", description := none, flow := .authorizationCode
    authorizeUrl := some "https://gh/authorize", tokenUrl := "https://gh/token", clientId := "id"
    tokenAuthStyle := .body, scopes := [], scopeSeparator := " ", authorizeParams := []
    allowedHosts := ["api.gh"], usage := .any }

/-- The outside at an instant, with what it draws. -/
def at_ (now : ℕ) (draw : Text := []) (extra : Text := []) : Input :=
  ⟨now, draw, extra, none, .error ⟨.error [], none⟩⟩

/-- The outside where the token endpoint answers. -/
def answers (now : ℕ) (access refresh : Text) : Input :=
  ⟨now, [], [], none, .ok ⟨access, some refresh, "Bearer", none, none⟩⟩

/-- A call and its pieces, with nothing between them. -/
def alone (t : ℕ) (c : Call) (inputs : List Input) : List (Coop.Event (integrations clearPlatform)) :=
  .call t c :: inputs.map (.resume t)

/-- An integration is saved, connected, and holds the tokens of its first grant. -/
def connectRun : List (Coop.Event (integrations clearPlatform)) :=
  alone 0 (.save github (some none)) [at_ 0] ++
  alone 0 (.connectStart "gh" "https://kody/callback") [at_ 0 "cn" "ticket", at_ 0] ++
  alone 0 (.connectBegin "cn" "ticket") [at_ 1, at_ 1 "verifier" "nonce", at_ 1, at_ 1, at_ 1] ++
  alone 0 (.connectComplete ⟨"cn", "nonce", some "code", none⟩)
    [at_ 2, at_ 2, at_ 2, answers 2 "a1" "r1", at_ 2, at_ 2]

/-- Two callers share a refresh; once both have their token, the integration is disconnected. -/
def quietRun : List (Coop.Event (integrations clearPlatform)) :=
  connectRun ++
  [.call 0 (.refresh "gh"), .call 1 (.tokenResolve ⟨"gh", none, "api.gh", true⟩),
   .resume 0 (at_ 3), .resume 1 (at_ 3), .resume 0 (at_ 3), .resume 0 (answers 3 "a2" "r2"),
   .resume 0 (at_ 3), .resume 0 (at_ 3), .resume 0 (at_ 3), .resume 0 (at_ 3), .resume 0 (at_ 3),
   .resume 1 (at_ 3)] ++
  alone 0 (.disconnect "gh") [at_ 4]

/-- The integration is disconnected while a refresh awaits the token endpoint. -/
def disconnectedRefresh : List (Coop.Event (integrations clearPlatform)) :=
  connectRun ++
  [.call 0 (.refresh "gh"), .resume 0 (at_ 3), .resume 0 (at_ 3)] ++
  alone 1 (.disconnect "gh") [at_ 4] ++
  [.resume 0 (answers 5 "a2" "r2"), .resume 0 (at_ 5)]

/-- The integration is deleted and saved again while a refresh awaits the token endpoint. -/
def recreatedRefresh : List (Coop.Event (integrations clearPlatform)) :=
  connectRun ++
  [.call 0 (.refresh "gh"), .resume 0 (at_ 3), .resume 0 (at_ 3)] ++
  alone 1 (.delete "gh") [at_ 4] ++ alone 1 (.save github (some none)) [at_ 4] ++
  [.resume 0 (answers 5 "a2" "r2"), .resume 0 (at_ 5)]

end KodyCelld.Integrations
