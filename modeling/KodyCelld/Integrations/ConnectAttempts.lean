import KodyCelld.Integrations.Disconnect

namespace KodyCelld.Integrations

open KodyCelld.Lib IntegrationStore

/-!
# Connect attempts

A connect link is opened once and its state used once, if the calls that do so do not overlap:
`connectBegin` reads its row, awaits a hash, a seal and a hash, and only then marks the row;
`connectComplete` marks it after the token request.

* `SingleUse` — what should hold in every state of every run;
* `Overlapless` — no two openings of one link, and no two callbacks of one attempt, are between
  their check and their mark at once;
* `attempts_singleUse` — on runs whose steps are so the first holds;
* `overlappingAttempts` — on others it does not have to.
-/

/-! ### What should hold -/

/-- The call opened the link of the attempt. -/
def opens (id : Text) (entry : Call × Ret) : Bool :=
  match entry with
  | (.connectBegin connectId _, .begun (.ok _)) => decide (connectId = id)
  | _ => false

def Goal.attempt : Goal → Option Text
  | .connect callback => some callback.row.id
  | .refresh _ => none

/-- The two rows are of one attempt. -/
def SameAttempt (a b : ConnectRow) : Prop :=
  a.id = b.id ∧ a.name = b.name ∧ a.expiresAt = b.expiresAt

theorem SameAttempt.trans {a b c : ConnectRow} (h : SameAttempt a b) (h' : SameAttempt b c) :
    SameAttempt a c :=
  ⟨h.1.trans h'.1, h.2.1.trans h'.2.1, h.2.2.trans h'.2.2⟩

theorem SameAttempt.symm {a b : ConnectRow} (h : SameAttempt a b) : SameAttempt b a :=
  ⟨h.1.symm, h.2.1.symm, h.2.2.symm⟩

variable {p : Platform} {s s' : IntegrationStore}

/-- The state with this nonce hash was issued for the attempt. -/
def IssuedFor (p : Platform) (issued : List (ConnectRow × Text)) (row : ConnectRow) (hash : Text) :
    Prop :=
  ∃ attempt nonce, (attempt, nonce) ∈ issued ∧ SameAttempt attempt row ∧ p.sha256Hex nonce = hash

/-- The callback carried a state that was issued for its attempt and has not expired. -/
def Callback.Admitted (p : Platform) (issued : List (ConnectRow × Text)) (callback : Callback) :
    Prop :=
  IssuedFor p issued callback.row (p.sha256Hex callback.nonce) ∧
    callback.checkedAt < callback.row.expiresAt + connectTicketTtlMs

/-- A token request for the name began the grant: it carried a code, or client credentials. -/
def Rooted (requests : List Exchange) (name : Text) (origin : ℕ) : Prop :=
  ∃ x ∈ requests, x.name = name ∧ x.origin = origin ∧
    (x.grant = .clientCredentials ∨ ∃ callback, x.goal = .connect callback)

/-- Links are opened once, states used once, and tokens stored for what the state was issued for. -/
structure SingleUse (g : Coop.Config (integrations p)) : Prop where
  opened : ∀ id, g.log.countP (opens id) ≤ 1
  requested : ∀ id, g.shared.requests.countP (fun x => decide (x.goal.attempt = some id)) ≤ 1
  admitted : ∀ x ∈ g.shared.requests, ∀ callback, x.goal = .connect callback →
    x.name = callback.row.name ∧ callback.Admitted p g.shared.issued
  stored : ∀ row ∈ g.shared.integrations.rows, ∀ held, row.Holds held →
    Rooted g.shared.requests row.name held.origin

/-! ### When it does -/

/-- The callback carries the state of the attempt, and a code. -/
def presents (p : Platform) (row : ConnectRow) (input : CompleteInput) : Bool :=
  decide (some (p.sha256Hex input.nonce) = row.nonceHash) && input.providerError.isNone &&
    input.code.isSome

/-- The attempt whose link the call is opening, between reading its row and marking it. -/
def Frame.opening? (p : Platform) : Frame → Option Text
  | .ticketChecking row ticket => if p.sha256Hex ticket = row.ticketHash then some row.id else none
  | .verifierSealing row .. => some row.id
  | .nonceHashing row .. => some row.id
  | _ => none

/-- The attempt that the call is completing, between reading its row and marking it. -/
def Frame.completing? (p : Platform) : Frame → Option Text
  | .nonceChecking row input _ => if presents p row input then some row.id else none
  | .openingVerifier callback .. => some callback.row.id
  | .openingSecret x _ => x.goal.attempt
  | .fetching x _ => x.goal.attempt
  | .sealing x _ => x.goal.attempt
  | .stored x => x.goal.attempt
  | .failed x _ => x.goal.attempt
  | _ => none

/-- The condition on a step: where it begins to open a link, with its ticket, no other call is
    opening it; and where it begins to complete an attempt, with its state and a code, no other call
    is completing it. -/
def Overlapless (g : Coop.Config (integrations p)) : Coop.Event (integrations p) → Prop
  | .call _ _ => True
  | .resume t i => ∀ c f, g.pool t = some (c, f) →
    match f with
    | .start (.connectBegin id ticket) => ∀ row, g.shared.connectBegin i.now id = .ok row →
        p.sha256Hex ticket = row.ticketHash → Coop.Free (Frame.opening? p) g id
    | .start (.connectComplete input) => ∀ row, g.shared.connectComplete input.connectId = .ok row →
        presents p row input = true → Coop.Free (Frame.completing? p) g input.connectId
    | _ => True

/-! ### What a statement does to the attempts -/

/-- The attempts of `s'` were there in `s`, and no mark was taken back. -/
structure KeepsAttempts (s s' : IntegrationStore) : Prop where
  attempted : s'.attempted = s.attempted
  issued : s'.issued = s.issued
  rows : ∀ row' ∈ s'.connects.rows, ∃ row ∈ s.connects.rows, SameAttempt row row' ∧
    row'.nonceHash = row.nonceHash ∧ (row.startedAt ≠ none → row'.startedAt ≠ none) ∧
    (row.completedAt ≠ none → row'.completedAt ≠ none)

theorem KeepsAttempts.of_eq (hconnects : s'.connects = s.connects)
    (hattempted : s'.attempted = s.attempted) (hissued : s'.issued = s.issued) :
    KeepsAttempts s s' :=
  ⟨hattempted, hissued, fun row hrow => ⟨row, hconnects ▸ hrow, ⟨rfl, rfl, rfl⟩, rfl, id, id⟩⟩

theorem KeepsAttempts.rfl' : KeepsAttempts s s := .of_eq rfl rfl rfl

theorem KeepsAttempts.trans {s₁ s₂ s₃ : IntegrationStore} (h : KeepsAttempts s₁ s₂)
    (h' : KeepsAttempts s₂ s₃) : KeepsAttempts s₁ s₃ := by
  refine ⟨h'.attempted.trans h.attempted, h'.issued.trans h.issued, fun row₃ hrow => ?_⟩
  obtain ⟨row₂, hrow₂, hsame₂, hhash₂, hstarted₂, hdone₂⟩ := h'.rows row₃ hrow
  obtain ⟨row₁, hrow₁, hsame₁, hhash₁, hstarted₁, hdone₁⟩ := h.rows row₂ hrow₂
  exact ⟨row₁, hrow₁, hsame₁.trans hsame₂, hhash₂.trans hhash₁, hstarted₂ ∘ hstarted₁,
    hdone₂ ∘ hdone₁⟩

/-- The attempt is completed, or its row is gone. -/
def Closed (s : IntegrationStore) (id : Text) : Prop :=
  ∀ row ∈ s.connects.rows, row.id = id → row.completedAt ≠ none

/-- The link was opened, or its row is gone. -/
def Started (s : IntegrationStore) (id : Text) : Prop :=
  ∀ row ∈ s.connects.rows, row.id = id → row.startedAt ≠ none

theorem KeepsAttempts.closed (h : KeepsAttempts s s') {id : Text} (hid : Closed s id) :
    Closed s' id := by
  intro row' hrow' hrowId
  obtain ⟨row, hrow, hsame, -, -, hdone⟩ := h.rows row' hrow'
  exact hdone (hid row hrow (hsame.1.trans hrowId))

theorem KeepsAttempts.started (h : KeepsAttempts s s') {id : Text} (hid : Started s id) :
    Started s' id := by
  intro row' hrow' hrowId
  obtain ⟨row, hrow, hsame, -, hstarted, -⟩ := h.rows row' hrow'
  exact hstarted (hid row hrow (hsame.1.trans hrowId))

theorem keeps_finishConnect {now : ℕ} {id : Text} {error : Option Text} :
    KeepsAttempts s (s.finishConnect now id error) ∧ Closed (s.finishConnect now id error) id := by
  refine ⟨⟨rfl, rfl, fun row' hrow' => ?_⟩, fun row' hrow' hid => ?_⟩
  · obtain ⟨row, hrow, rfl⟩ := List.mem_map.mp hrow'
    refine ⟨row, hrow, ?_⟩
    split
    · exact ⟨⟨rfl, rfl, rfl⟩, rfl, fun h => h, fun _ => by simp⟩
    · exact ⟨⟨rfl, rfl, rfl⟩, rfl, fun h => h, fun h => h⟩
  · obtain ⟨row, hrow, rfl⟩ := List.mem_map.mp hrow'
    by_cases hrowId : row.id = id
    · rw [if_pos hrowId]
      simp
    · rw [if_neg hrowId] at hid
      exact absurd hid hrowId

theorem keepsAttempts_failAuth {now : ℕ} {record : IntegrationRecord} {reason : Text} :
    KeepsAttempts s (s.failAuth now record reason) := by
  unfold failAuth
  split <;> exact .of_eq rfl rfl rfl

theorem keepsAttempts_failRefresh {now : ℕ} {name : Text} {error : TokenError} :
    KeepsAttempts s (s.failRefresh now name error) := by
  unfold failRefresh
  dsimp only
  split <;> exact .of_eq rfl rfl rfl

theorem keepsAttempts_saveRow {startedAt now : ℕ} {existing : Option IntegrationRow}
    {config : IntegrationConfig} {secret : Option (Option Text)} :
    KeepsAttempts s (s.saveRow startedAt now existing config secret).2 := by
  have hset : KeepsAttempts s ((s.setConfig startedAt config).setClientSecret config.name secret) := by
    unfold setClientSecret
    split <;> exact .of_eq rfl rfl rfl
  unfold saveRow
  split
  · split <;> exact .of_eq rfl rfl rfl
  · dsimp only
    split
    · exact hset.trans (.of_eq rfl rfl rfl)
    · exact hset

theorem keepsAttempts_delete {name : Text} : KeepsAttempts s (s.delete name).2 :=
  ⟨rfl, rfl, fun row hrow => ⟨row, (Rows.mem_filter.mp hrow).1, ⟨rfl, rfl, rfl⟩, rfl, id, id⟩⟩

theorem keepsAttempts_setUsage {now : ℕ} {name : Text} {usage : IntegrationUsage} :
    KeepsAttempts s (s.setUsage now name usage).2 := by
  unfold setUsage
  split <;> exact .of_eq rfl rfl rfl

theorem keepsAttempts_disconnect {now : ℕ} {name : Text} :
    KeepsAttempts s (s.disconnect now name).2 := by
  unfold disconnect
  split <;> exact .of_eq rfl rfl rfl

theorem keepsAttempts_sendTokenRequest (x : Exchange) (secret : Option Text) :
    KeepsAttempts s (sendTokenRequest x secret s).1 := by
  unfold sendTokenRequest
  split <;> exact .of_eq rfl rfl rfl

theorem keepsAttempts_beginExchange (x : Exchange) :
    KeepsAttempts s (beginExchange p x s).1 := by
  rcases beginExchange_cases p x s with ⟨e, h⟩ | ⟨secret, h⟩ | ⟨secret, h⟩
  all_goals
    rw [h]
    exact .of_eq rfl rfl rfl

theorem keepsAttempts_refresh (name : Text) : KeepsAttempts s (refresh p name s).1 := by
  rcases refresh_cases p name s with ⟨task, -, h⟩ | h
  · rw [h]
    exact .rfl'
  · rw [h]
    have henter : KeepsAttempts s (enterRefresh name s) := .of_eq rfl rfl rfl
    refine henter.trans ?_
    rcases refreshNow_cases p name s.nextTask (enterRefresh name s) with
      ⟨_, _, _, _, h⟩ | ⟨row, -, h⟩ | ⟨row, held, -, -, h⟩
    · rw [h]
      exact .rfl'
    · rw [h]
      have hgrants : KeepsAttempts (enterRefresh name s)
          { enterRefresh name s with grants := (enterRefresh name s).grants + 1 } :=
        .of_eq rfl rfl rfl
      exact hgrants.trans (keepsAttempts_beginExchange _)
    · rw [h]
      exact .rfl'

theorem keepsAttempts_begin (call : Call) (i : Input) : KeepsAttempts s (begin p s call i).1 := by
  cases call with
  | save config clientSecret =>
    rcases clientSecret with _ | _ | clientSecret
    · exact keepsAttempts_saveRow
    · exact keepsAttempts_saveRow
    · exact .rfl'
  | setUsage name usage => exact keepsAttempts_setUsage
  | delete name => exact keepsAttempts_delete
  | disconnect name => exact keepsAttempts_disconnect
  | connectStart name redirectUri =>
    simp only [begin]
    split <;> exact .rfl'
  | connectBegin connectId ticket =>
    simp only [begin]
    split <;> exact .rfl'
  | connectComplete input =>
    simp only [begin]
    split <;> exact .of_eq rfl rfl rfl
  | refresh name => exact keepsAttempts_refresh name
  | tokenResolve input =>
    simp only [begin]
    rcases tokenResolve_cases p i.now input s with ⟨_, _, _, _, h⟩ | ⟨row, held, -, -, h⟩ | h
    · rw [h]
      exact .rfl'
    · rw [h]
      exact .of_eq rfl rfl rfl
    · rw [h]
      exact keepsAttempts_refresh _

/-- Only a new link and an opened link change more than marks of completion. -/
theorem keepsAttempts_piece {f : Frame} {i : Input}
    (hinsert : ∀ startedAt id ticket name uri, f ≠ .ticketHashing startedAt id ticket name uri)
    (hopen : ∀ row record verifier nonce startedAt,
      f ≠ .nonceHashing row record verifier nonce startedAt) :
    KeepsAttempts s (piece p s f i).1 := by
  cases f with
  | start call => exact keepsAttempts_begin call i
  | ticketHashing startedAt id ticket name uri => exact (hinsert _ _ _ _ _ rfl).elim
  | nonceHashing row record verifier nonce startedAt => exact (hopen _ _ _ _ _ rfl).elim
  | saveSealing startedAt existing config clientSecret =>
    simp only [piece]
    split
    · exact .rfl'
    · exact keepsAttempts_saveRow
  | nonceChecking row input origin =>
    simp only [piece]
    rcases completeChecked_cases p i.now row input origin s with ⟨e, h⟩ | ⟨e, error, h⟩ |
      ⟨e, error, record, reason, h⟩ | ⟨record, code, verifier, h, -⟩
    · rw [h]
      exact .rfl'
    · rw [h]
      exact keeps_finishConnect.1
    · rw [h]
      exact keeps_finishConnect.1.trans keepsAttempts_failAuth
    · rw [h]
      exact .rfl'
  | openingVerifier callback record code verifier origin =>
    simp only [piece]
    split
    · exact .rfl'
    · exact keepsAttempts_beginExchange _
  | openingRefresh name task record held =>
    simp only [piece]
    split
    · exact .rfl'
    · exact keepsAttempts_beginExchange _
  | openingSecret x clientSecret =>
    simp only [piece]
    split
    · exact .rfl'
    · exact keepsAttempts_sendTokenRequest ..
  | sealing x tokens =>
    simp only [piece]
    split <;> exact .of_eq rfl rfl rfl
  | stored x =>
    simp only [piece]
    split
    · exact keeps_finishConnect.1
    · split <;> exact .rfl'
  | failed x error =>
    simp only [piece]
    split
    · exact keeps_finishConnect.1.trans keepsAttempts_failAuth
    · exact keepsAttempts_failRefresh
  | settling name task result => exact .of_eq rfl rfl rfl
  | _ =>
    simp only [piece]
    repeat' split
    all_goals exact .rfl'

/-- A new link adds a row whose state is still to be issued. -/
theorem mem_insertConnect {startedAt : ℕ} {id name hash uri : Text} {row' : ConnectRow}
    (h : row' ∈ (s.insertConnect startedAt id name hash uri).2.connects.rows) :
    row' ∈ s.connects.rows ∨ (row'.id = id ∧ row'.nonceHash = none ∧
      id ∈ (s.insertConnect startedAt id name hash uri).2.attempted) := by
  unfold insertConnect at h ⊢
  split at h
  · exact .inl h
  · rename_i hinsert
    rcases (Rows.mem_insert? hinsert).mp (Rows.mem_filter.mp h).1 with hold | rfl
    · exact .inl hold
    · exact .inr ⟨rfl, rfl, List.mem_cons_self⟩

theorem attempted_insertConnect {startedAt : ℕ} {id name hash uri : Text} {k : Text}
    (h : k ∈ s.attempted) : k ∈ (s.insertConnect startedAt id name hash uri).2.attempted := by
  unfold insertConnect
  split
  · exact h
  · exact List.mem_cons_of_mem _ h

/-- Opening a link marks its row, if it is still there, and sets its state. -/
theorem mem_startConnect {startedAt : ℕ} {row₀ : ConnectRow} {nonce hash verifier : Text}
    {row' : ConnectRow}
    (h : row' ∈ (s.startConnect startedAt row₀ nonce hash verifier).connects.rows) :
    ∃ row ∈ s.connects.rows, SameAttempt row row' ∧ row'.completedAt = row.completedAt ∧
      ((row.id = row₀.id ∧ row'.startedAt ≠ none ∧ row'.nonceHash = some hash) ∨
        (row.id ≠ row₀.id ∧ row' = row)) := by
  obtain ⟨row, hrow, rfl⟩ := List.mem_map.mp h
  refine ⟨row, hrow, ?_⟩
  by_cases hid : row.id = row₀.id
  · rw [if_pos hid]
    exact ⟨⟨rfl, rfl, rfl⟩, rfl, .inl ⟨hid, by simp, rfl⟩⟩
  · rw [if_neg hid]
    exact ⟨⟨rfl, rfl, rfl⟩, rfl, .inr ⟨hid, rfl⟩⟩

/-! ### What the store and the frames know -/

/-- The attempt was made, and its row, if it is still there, is of this attempt. -/
def Known (s : IntegrationStore) (row : ConnectRow) : Prop :=
  row.id ∈ s.attempted ∧ ∀ r ∈ s.connects.rows, r.id = row.id → SameAttempt r row

/-- A token request belongs to an admitted callback, or goes on with a grant begun by one. -/
def ExchangeOk (p : Platform) (s : IntegrationStore) (x : Exchange) : Prop :=
  (∀ callback, x.goal = .connect callback →
    Known s callback.row ∧ x.name = callback.row.name ∧ callback.Admitted p s.issued) ∧
  ((∃ callback, x.goal = .connect callback) ∨ x.grant = .clientCredentials ∨
    Rooted s.requests x.name x.origin)

/-- What a frame holds is what it should be. -/
def FrameOk (p : Platform) (s : IntegrationStore) : Frame → Prop
  | .ticketChecking row _ => Known s row
  | .verifierSealing row .. => Known s row
  | .nonceHashing row .. => Known s row
  | .challenging row .. => ∃ attempt nonce, (attempt, nonce) ∈ s.issued ∧ attempt.id = row.id
  | .nonceChecking row _ _ =>
    Known s row ∧ ∀ hash, row.nonceHash = some hash → IssuedFor p s.issued row hash
  | .openingVerifier callback record .. =>
    Known s callback.row ∧ callback.Admitted p s.issued ∧ record.config.name = callback.row.name
  | .openingRefresh name _ _ held => Rooted s.requests name held.origin
  | .openingSecret x _ => ExchangeOk p s x
  | .fetching x _ => ExchangeOk p s x ∧ x ∈ s.requests
  | .sealing x _ => ExchangeOk p s x ∧ x ∈ s.requests
  | .stored x => ExchangeOk p s x
  | .failed x _ => ExchangeOk p s x
  | _ => True

/-- What the tables and the list of requests hold is what it should be. -/
structure StoreOk (p : Platform) (s : IntegrationStore) : Prop where
  attempted : ∀ row ∈ s.connects.rows, row.id ∈ s.attempted
  issued : ∀ row ∈ s.connects.rows, ∀ hash, row.nonceHash = some hash → IssuedFor p s.issued row hash
  issuedKnown : ∀ attempt nonce, (attempt, nonce) ∈ s.issued → attempt.id ∈ s.attempted
  requests : ∀ x ∈ s.requests, ∀ callback, x.goal = .connect callback →
    callback.row.id ∈ s.attempted ∧ x.name = callback.row.name ∧ callback.Admitted p s.issued
  tokens : ∀ row ∈ s.integrations.rows, ∀ held, row.Holds held →
    Rooted s.requests row.name held.origin

theorem known_of_mem (h : StoreOk p s) {row : ConnectRow} (hrow : row ∈ s.connects.rows) :
    Known s row := by
  refine ⟨h.attempted row hrow, fun r hr hid => ?_⟩
  have hrowKey : s.connects.find? row.id = some row := Rows.find?_eq_some.mpr ⟨hrow, rfl⟩
  have hrKey : s.connects.find? row.id = some r := Rows.find?_eq_some.mpr ⟨hr, hid⟩
  rw [Option.some.inj (hrKey.symm.trans hrowKey)]
  exact ⟨rfl, rfl, rfl⟩

/-- From `s` to `s'` nothing that was known is forgotten. -/
structure Grows (s s' : IntegrationStore) : Prop where
  attempted : ∀ id ∈ s.attempted, id ∈ s'.attempted
  issued : ∀ entry ∈ s.issued, entry ∈ s'.issued
  requests : ∀ x ∈ s.requests, x ∈ s'.requests
  known : ∀ row, Known s row → Known s' row

theorem KeepsAttempts.grows (h : KeepsAttempts s s') (hrequests : ∀ x ∈ s.requests, x ∈ s'.requests) :
    Grows s s' := by
  refine ⟨fun id hid => h.attempted ▸ hid, fun e he => h.issued ▸ he, hrequests,
    fun row hrow => ⟨h.attempted ▸ hrow.1, fun r' hr' hid => ?_⟩⟩
  obtain ⟨r, hr, hsame, -⟩ := h.rows r' hr'
  exact hsame.symm.trans (hrow.2 r hr (hsame.1.trans hid))

theorem IssuedFor.grows {row : ConnectRow} {hash : Text} (hg : Grows s s')
    (h : IssuedFor p s.issued row hash) : IssuedFor p s'.issued row hash := by
  obtain ⟨attempt, nonce, hmem, hsame, hhash⟩ := h
  exact ⟨attempt, nonce, hg.issued _ hmem, hsame, hhash⟩

theorem Callback.Admitted.grows {callback : Callback} (hg : Grows s s')
    (h : callback.Admitted p s.issued) : callback.Admitted p s'.issued :=
  ⟨h.1.grows hg, h.2⟩

theorem Rooted.grows {name : Text} {origin : ℕ} (hg : Grows s s')
    (h : Rooted s.requests name origin) : Rooted s'.requests name origin := by
  obtain ⟨x, hx, hrest⟩ := h
  exact ⟨x, hg.requests x hx, hrest⟩

theorem ExchangeOk.grows {x : Exchange} (hg : Grows s s') (h : ExchangeOk p s x) :
    ExchangeOk p s' x := by
  refine ⟨fun callback hgoal => ?_, ?_⟩
  · obtain ⟨hknown, hname, hadmitted⟩ := h.1 callback hgoal
    exact ⟨hg.known _ hknown, hname, hadmitted.grows hg⟩
  · rcases h.2 with hconnect | hclient | hrooted
    · exact .inl hconnect
    · exact .inr (.inl hclient)
    · exact .inr (.inr (hrooted.grows hg))

theorem FrameOk.grows {f : Frame} (hg : Grows s s') (h : FrameOk p s f) : FrameOk p s' f := by
  cases f with
  | ticketChecking row ticket => exact hg.known _ h
  | verifierSealing row record verifier nonce => exact hg.known _ h
  | nonceHashing row record verifier nonce startedAt => exact hg.known _ h
  | challenging row record verifier nonce =>
    obtain ⟨attempt, issued, hmem, hid⟩ := h
    exact ⟨attempt, issued, hg.issued _ hmem, hid⟩
  | nonceChecking row input origin =>
    exact ⟨hg.known _ h.1, fun hash hhash => (h.2 hash hhash).grows hg⟩
  | openingVerifier callback record code verifier origin =>
    exact ⟨hg.known _ h.1, h.2.1.grows hg, h.2.2⟩
  | openingRefresh name task record held => exact Rooted.grows hg h
  | openingSecret x secret => exact ExchangeOk.grows hg h
  | fetching x secret => exact ⟨ExchangeOk.grows hg h.1, hg.requests x h.2⟩
  | sealing x tokens => exact ⟨ExchangeOk.grows hg h.1, hg.requests x h.2⟩
  | stored x => exact ExchangeOk.grows hg h
  | failed x e => exact ExchangeOk.grows hg h
  | _ => trivial

theorem connectBegin_ok {now : ℕ} {id : Text} {row : ConnectRow}
    (h : s.connectBegin now id = .ok row) :
    row ∈ s.connects.rows ∧ row.id = id ∧ row.startedAt = none := by
  unfold connectBegin at h
  split at h
  · exact absurd h (by simp)
  rename_i found hfound
  split at h
  · exact absurd h (by simp)
  rename_i hopen
  split at h
  · exact absurd h (by simp)
  obtain rfl := Except.ok.inj h
  obtain ⟨hmem, hid⟩ := Rows.find?_eq_some.mp hfound
  exact ⟨hmem, hid, not_ne_iff.mp (not_or.mp hopen).1⟩

theorem connectComplete_ok {id : Text} {row : ConnectRow} (h : s.connectComplete id = .ok row) :
    row ∈ s.connects.rows ∧ row.id = id ∧ row.completedAt = none := by
  unfold connectComplete at h
  split at h
  · exact absurd h (by simp)
  rename_i found hfound
  split at h
  · exact absurd h (by simp)
  rename_i hopen
  obtain rfl := Except.ok.inj h
  obtain ⟨hmem, hid⟩ := Rows.find?_eq_some.mp hfound
  exact ⟨hmem, hid, not_ne_iff.mp (not_or.mp (not_or.mp hopen).2).1⟩

/-! ### What a piece leads to -/

/-- A token request is sent by going on to await its answer, and in no other way. -/
def Sends (s s' : IntegrationStore) (f' : Frame) : Prop :=
  (s'.requests = s.requests ∧ ∀ x secret, f' ≠ .fetching x secret) ∨
    ∃ x secret, f' = .fetching x secret ∧ s'.requests = x :: s.requests

/-- The outcome of a piece: a return that sent nothing, or a frame that holds what it should. -/
def Fine (p : Platform) (s : IntegrationStore) (r : IntegrationStore × (Frame ⊕ Ret)) : Prop :=
  match r.2 with
  | .inr _ => r.1.requests = s.requests
  | .inl f' => Sends s r.1 f' ∧ FrameOk p r.1 f'

theorem Fine.of_frame {f' : Frame} (hkeeps : KeepsAttempts s s') (hrequests : s'.requests = s.requests)
    (hne : ∀ x secret, f' ≠ .fetching x secret) (h : FrameOk p s f') : Fine p s (s', .inl f') :=
  ⟨.inl ⟨hrequests, hne⟩, h.grows (hkeeps.grows fun _ hx => hrequests ▸ hx)⟩

/-- What ran before a piece may have changed the tables and the counters. -/
theorem Fine.after {s₁ : IntegrationStore} {r : IntegrationStore × (Frame ⊕ Ret)}
    (hrequests : s₁.requests = s.requests) (h : Fine p s₁ r) : Fine p s r := by
  unfold Fine at h ⊢
  split at h
  · exact h.trans hrequests
  · refine ⟨?_, h.2⟩
    rcases h.1 with ⟨heq, hne⟩ | ⟨x, secret, hf, heq⟩
    · exact .inl ⟨heq.trans hrequests, hne⟩
    · exact .inr ⟨x, secret, hf, heq.trans (hrequests ▸ rfl)⟩

theorem fine_sent {x : Exchange} {secret : Option Text} (h : ExchangeOk p s x) :
    Fine p s ({ s with requests := x :: s.requests }, .inl (.fetching x secret)) := by
  have hkeeps : KeepsAttempts s { s with requests := x :: s.requests } := .of_eq rfl rfl rfl
  have hgrows := hkeeps.grows fun _ hy => List.mem_cons_of_mem _ hy
  exact ⟨.inr ⟨x, secret, rfl, rfl⟩, h.grows hgrows, List.mem_cons_self⟩

theorem fine_sendTokenRequest {x : Exchange} (secret : Option Text) (h : ExchangeOk p s x) :
    Fine p s ((sendTokenRequest x secret s).1, .inl (sendTokenRequest x secret s).2) := by
  rcases sendTokenRequest_cases x secret s with ⟨e, heq⟩ | heq
  · rw [heq]
    exact .of_frame .rfl' rfl (by simp) h
  · rw [heq]
    exact fine_sent h

theorem fine_beginExchange {x : Exchange} (h : ExchangeOk p s x) :
    Fine p s ((beginExchange p x s).1, .inl (beginExchange p x s).2) := by
  rcases beginExchange_cases p x s with ⟨e, heq⟩ | ⟨secret, heq⟩ | ⟨secret, heq⟩
  · rw [heq]
    exact .of_frame .rfl' rfl (by simp) h
  · rw [heq]
    exact .of_frame .rfl' rfl (by simp) h
  · rw [heq]
    exact fine_sent h

theorem fine_refresh (hs : StoreOk p s) (name : Text) :
    Fine p s ((refresh p name s).1, .inl (refresh p name s).2) := by
  rcases refresh_cases p name s with ⟨task, -, h⟩ | h
  · rw [h]
    exact .of_frame .rfl' rfl (by simp) trivial
  · rw [h]
    have henter : KeepsAttempts s (enterRefresh name s) := .of_eq rfl rfl rfl
    rcases refreshNow_cases p name s.nextTask (enterRefresh name s) with
      ⟨_, _, _, _, h⟩ | ⟨row, -, h⟩ | ⟨row, held, hrow, hheld, h⟩
    · rw [h]
      exact .of_frame henter rfl (by simp) trivial
    · rw [h]
      -- client credentials: the request begins a grant of its own
      have hexchange : ExchangeOk p
          { enterRefresh name s with grants := (enterRefresh name s).grants + 1 }
          ⟨name, toRecord row, .clientCredentials, (enterRefresh name s).grants,
            .refresh s.nextTask⟩ :=
        ⟨fun callback hgoal => absurd hgoal (by simp), .inr (.inl rfl)⟩
      exact (fine_beginExchange hexchange).after rfl
    · rw [h]
      refine .of_frame henter rfl (by simp) ?_
      obtain ⟨hmem, rfl⟩ := row_eq_some.mp hrow
      exact hs.tokens row hmem held (.inr hheld)

theorem fine_begin (hs : StoreOk p s) (call : Call) (i : Input) : Fine p s (begin p s call i) := by
  cases call with
  | save config clientSecret =>
    rcases clientSecret with _ | _ | clientSecret
    · exact onlyTables_saveRow.requests
    · exact onlyTables_saveRow.requests
    · exact .of_frame .rfl' rfl (by simp) trivial
  | setUsage name usage => exact setUsage_tables.1.requests
  | delete name => rfl
  | disconnect name => exact disconnect_tables.1.requests
  | connectStart name redirectUri =>
    simp only [begin]
    split
    · rfl
    · exact .of_frame .rfl' rfl (by simp) trivial
  | connectBegin connectId ticket =>
    simp only [begin]
    split
    · rfl
    · rename_i row hrow
      refine .of_frame .rfl' rfl (by simp) (known_of_mem hs ?_)
      exact (connectBegin_ok hrow).1
  | connectComplete input =>
    simp only [begin]
    split
    · rfl
    · rename_i row hrow
      have hmem := (connectComplete_ok hrow).1
      exact .of_frame (.of_eq rfl rfl rfl) rfl (by simp) ⟨known_of_mem hs hmem, hs.issued row hmem⟩
  | refresh name => exact fine_refresh hs name
  | tokenResolve input =>
    simp only [begin]
    rcases tokenResolve_cases p i.now input s with ⟨_, _, _, _, h⟩ | ⟨row, held, -, -, h⟩ | h
    · rw [h]
      rfl
    · rw [h]
      exact .of_frame (.of_eq rfl rfl rfl) rfl (by simp) trivial
    · rw [h]
      exact fine_refresh hs input.name

/-- An opened link: its state is issued, and its row, if it is still there, is marked. -/
theorem startConnect_ok (hs : StoreOk p s) {startedAt : ℕ} {row : ConnectRow}
    {nonce verifier : Text} (hrow : Known s row) :
    Grows s (s.startConnect startedAt row nonce (p.sha256Hex nonce) verifier) ∧
      StoreOk p (s.startConnect startedAt row nonce (p.sha256Hex nonce) verifier) := by
  have hgrows : Grows s (s.startConnect startedAt row nonce (p.sha256Hex nonce) verifier) := by
    refine ⟨fun _ h => h, fun _ h => List.mem_cons_of_mem _ h, fun _ h => h,
      fun known hknown => ⟨hknown.1, fun r' hr' hid => ?_⟩⟩
    obtain ⟨r, hr, hsame, -⟩ := mem_startConnect hr'
    exact hsame.symm.trans (hknown.2 r hr (hsame.1.trans hid))
  refine ⟨hgrows, fun r' hr' => ?_, fun r' hr' hash hhash => ?_, fun attempt n hmem => ?_,
    fun x hx callback hgoal => ?_, hs.tokens⟩
  · obtain ⟨r, hr, hsame, -⟩ := mem_startConnect hr'
    exact hsame.1 ▸ hs.attempted r hr
  · obtain ⟨r, hr, hsame, -, ⟨hid, -, hnew⟩ | ⟨-, rfl⟩⟩ := mem_startConnect hr'
    · obtain rfl := Option.some.inj (hnew.symm.trans hhash)
      exact ⟨row, nonce, List.mem_cons_self, (hrow.2 r hr hid).symm.trans hsame, rfl⟩
    · exact (hs.issued _ hr hash hhash).grows hgrows
  · rcases List.mem_cons.mp hmem with heq | hold
    · obtain ⟨rfl, -⟩ := Prod.mk.inj heq
      exact hrow.1
    · exact hs.issuedKnown attempt n hold
  · obtain ⟨hid, hname, hadmitted⟩ := hs.requests x hx callback hgoal
    exact ⟨hid, hname, hadmitted.grows hgrows⟩

/-- **The outcome of every piece.** -/
theorem fine_piece (hs : StoreOk p s) {f : Frame} (hf : FrameOk p s f) (i : Input) :
    Fine p s (piece p s f i) := by
  cases f with
  | start call => exact fine_begin hs call i
  | saveSealing startedAt existing config clientSecret =>
    simp only [piece]
    split
    · rfl
    · exact onlyTables_saveRow.requests
  | ticketHashing startedAt id ticket name uri => exact insertConnect_tables.1.requests
  | ticketChecking row ticket =>
    simp only [piece]
    split
    · rfl
    · split
      · rfl
      · exact .of_frame .rfl' rfl (by simp) hf
  | verifierSealing row record verifier nonce =>
    simp only [piece]
    split
    · rfl
    · exact .of_frame .rfl' rfl (by simp) hf
  | nonceHashing row record verifier nonce startedAt =>
    exact ⟨.inl ⟨rfl, by simp⟩, row, nonce, List.mem_cons_self, rfl⟩
  | challenging row record verifier nonce =>
    simp only [piece]
    split <;> rfl
  | nonceChecking row input origin =>
    simp only [piece]
    rcases completeChecked_cases p i.now row input origin s with ⟨e, h⟩ | ⟨e, error, h⟩ |
      ⟨e, error, record, reason, h⟩ | ⟨record, code, verifier, h, -, hrecord, hhash, hlive, -⟩
    · rw [h]
      rfl
    · rw [h]
      rfl
    · rw [h]
      exact onlyTables_failAuth.requests
    · rw [h]
      obtain ⟨-, -, -, hname⟩ := require_ok hrecord
      exact .of_frame .rfl' rfl (by simp) ⟨hf.1, ⟨hf.2 _ hhash.symm, hlive⟩, hname⟩
  | openingVerifier callback record code verifier origin =>
    simp only [piece]
    split
    · rfl
    · refine fine_beginExchange ⟨fun callback' hgoal => ?_, .inl ⟨callback, rfl⟩⟩
      obtain rfl := Goal.connect.inj hgoal
      exact ⟨hf.1, hf.2.2, hf.2.1⟩
  | openingRefresh name task record held =>
    simp only [piece]
    split
    · exact .of_frame .rfl' rfl (by simp) trivial
    · exact fine_beginExchange ⟨fun callback hgoal => absurd hgoal (by simp), .inr (.inr hf)⟩
  | openingSecret x clientSecret =>
    simp only [piece]
    split
    · exact .of_frame .rfl' rfl (by simp) hf
    · exact fine_sendTokenRequest _ hf
  | fetching x clientSecret =>
    simp only [piece]
    split
    · exact .of_frame .rfl' rfl (by simp) hf.1
    · exact .of_frame .rfl' rfl (by simp) hf
  | sealing x tokens =>
    simp only [piece]
    split
    · exact .of_frame .rfl' rfl (by simp) hf.1
    · exact .of_frame (.of_eq rfl rfl rfl) rfl (by simp) hf.1
  | stored x =>
    simp only [piece]
    split
    · rfl
    · split
      · exact .of_frame .rfl' rfl (by simp) trivial
      · exact .of_frame .rfl' rfl (by simp) trivial
  | failed x error =>
    simp only [piece]
    split
    · exact onlyTables_failAuth.requests
    · exact .of_frame keepsAttempts_failRefresh onlyTables_failRefresh.requests (by simp) trivial
  | openingFresh name task record held =>
    simp only [piece]
    split <;> exact .of_frame .rfl' rfl (by simp) trivial
  | settling name task result => exact .of_frame (.of_eq rfl rfl rfl) rfl (by simp) trivial
  | waiting name task =>
    simp only [piece]
    split
    · exact .of_frame .rfl' rfl (by simp) trivial
    · rfl
  | opening name record held =>
    simp only [piece]
    split <;> rfl

/-- What was sent, by the next frame. -/
theorem Fine.requests {r : IntegrationStore × (Frame ⊕ Ret)} (h : Fine p s r) :
    (r.1.requests = s.requests ∧ ∀ x secret, r.2 ≠ .inl (.fetching x secret)) ∨
      ∃ x secret, r.2 = .inl (.fetching x secret) ∧ r.1.requests = x :: s.requests := by
  unfold Fine at h
  split at h
  · rename_i hr
    exact .inl ⟨h, by simp [hr]⟩
  · rename_i f' hr
    rcases h.1 with ⟨heq, hne⟩ | ⟨x, secret, rfl, heq⟩
    · exact .inl ⟨heq, fun x secret hx => hne x secret (Sum.inl.inj (hr.symm.trans hx))⟩
    · exact .inr ⟨x, secret, hr, heq⟩

theorem Fine.frame {r : IntegrationStore × (Frame ⊕ Ret)} (h : Fine p s r) {f' : Frame}
    (hr : r.2 = .inl f') : FrameOk p r.1 f' := by
  unfold Fine at h
  rw [hr] at h
  exact h.2

/-- A piece forgets nothing, and leaves the store as it should be. -/
theorem piece_store (hs : StoreOk p s) {f : Frame} (hf : FrameOk p s f) {i : Input}
    (hfresh : ∀ id, f.attempt = some id → id ∉ s.attempted) :
    Grows s (piece p s f i).1 ∧ StoreOk p (piece p s f i).1 := by
  have hfine := fine_piece hs hf i
  have hrequests : ∀ x ∈ s.requests, x ∈ (piece p s f i).1.requests := by
    intro x hx
    rcases hfine.requests with ⟨heq, -⟩ | ⟨y, secret, -, heq⟩
    · exact heq ▸ hx
    · exact heq ▸ List.mem_cons_of_mem _ hx
  -- the requests and the tokens: the same for every piece
  have hnew : Grows s (piece p s f i).1 → (∀ x ∈ (piece p s f i).1.requests, ∀ callback,
        x.goal = .connect callback → callback.row.id ∈ (piece p s f i).1.attempted ∧
          x.name = callback.row.name ∧ callback.Admitted p (piece p s f i).1.issued) ∧
      ∀ row ∈ (piece p s f i).1.integrations.rows, ∀ held, row.Holds held →
        Rooted (piece p s f i).1.requests row.name held.origin := by
    intro hgrows
    have hold : ∀ x ∈ s.requests, ∀ callback, x.goal = .connect callback →
        callback.row.id ∈ (piece p s f i).1.attempted ∧ x.name = callback.row.name ∧
          callback.Admitted p (piece p s f i).1.issued := by
      intro x hx callback hgoal
      obtain ⟨hid, hname, hadmitted⟩ := hs.requests x hx callback hgoal
      exact ⟨hgrows.attempted _ hid, hname, hadmitted.grows hgrows⟩
    refine ⟨fun x hx callback hgoal => ?_, fun row hrow held hheld => ?_⟩
    · rcases hfine.requests with ⟨heq, -⟩ | ⟨y, secret, hout, heq⟩
      · exact hold x (heq ▸ hx) callback hgoal
      · rw [heq] at hx
        rcases List.mem_cons.mp hx with rfl | hx
        · obtain ⟨hknown, hname, hadmitted⟩ := (hfine.frame hout).1.1 callback hgoal
          exact ⟨hknown.1, hname, hadmitted⟩
        · exact hold x hx callback hgoal
    · by_cases hsealing : ∃ x tokens, f = .sealing x tokens
      · obtain ⟨x, tokens, rfl⟩ := hsealing
        obtain ⟨⟨-, hroot⟩, hsent⟩ := hf
        simp only [piece] at hrow ⊢
        split at hrow
        · exact hs.tokens row hrow held hheld
        · rcases storeTokens_holds hrow hheld with ⟨old, hmem, hn, hheld'⟩ | ⟨hn, ho⟩
          · rw [← hn]
            exact hs.tokens old hmem held hheld'
          · rw [hn, ho]
            rcases hroot with hconnect | hclient | hrooted
            · exact ⟨x, hsent, rfl, rfl, .inr hconnect⟩
            · exact ⟨x, hsent, rfl, rfl, .inl hclient⟩
            · exact hrooted
      · have hkept : KeepsTokens s (piece p s f i).1 := by
          by_cases hsettling : ∃ name task result, f = .settling name task result
          · obtain ⟨name, task, result, rfl⟩ := hsettling
            exact .of_eq rfl
          · exact (calm_piece (fun x tokens h => hsealing ⟨x, tokens, h⟩)
              fun name task result h => hsettling ⟨name, task, result, h⟩).tokens
        obtain ⟨old, hmem, hn, hheld'⟩ := hkept row hrow held hheld
        rw [← hn]
        exact (hs.tokens old hmem held hheld').grows hgrows
  by_cases hopen : ∃ row record verifier nonce startedAt,
      f = .nonceHashing row record verifier nonce startedAt
  · obtain ⟨row, record, verifier, nonce, startedAt, rfl⟩ := hopen
    exact startConnect_ok hs hf
  · by_cases hinsert : ∃ startedAt id ticket name uri,
        f = .ticketHashing startedAt id ticket name uri
    · obtain ⟨startedAt, id, ticket, name, uri, rfl⟩ := hinsert
      have hid : id ∉ s.attempted := hfresh id rfl
      have hgrows : Grows s (piece p s (.ticketHashing startedAt id ticket name uri) i).1 := by
        refine ⟨fun _ h => attempted_insertConnect h, ?_, hrequests,
          fun row hrow => ⟨attempted_insertConnect hrow.1, fun r' hr' hrid => ?_⟩⟩
        · intro entry hentry
          simp only [piece, insertConnect]
          split <;> exact hentry
        · rcases mem_insertConnect hr' with hold | ⟨hnew, -, -⟩
          · exact hrow.2 r' hold hrid
          · exact absurd (hrid.symm.trans hnew ▸ hrow.1) hid
      have hissued : (piece p s (.ticketHashing startedAt id ticket name uri) i).1.issued =
          s.issued := by
        simp only [piece, insertConnect]
        split <;> rfl
      refine ⟨hgrows, fun r' hr' => ?_, fun r' hr' hash hhash => ?_, fun attempt n hmem => ?_,
        (hnew hgrows).1, (hnew hgrows).2⟩
      · rcases mem_insertConnect hr' with hold | ⟨hrid, -, hmem⟩
        · exact hgrows.attempted _ (hs.attempted r' hold)
        · rw [hrid]
          exact hmem
      · rcases mem_insertConnect hr' with hold | ⟨-, hnone, -⟩
        · exact (hs.issued r' hold hash hhash).grows hgrows
        · exact absurd (hnone.symm.trans hhash) (by simp)
      · rw [hissued] at hmem
        exact hgrows.attempted _ (hs.issuedKnown attempt n hmem)
    · have hkeeps := @keepsAttempts_piece p s f i
        (fun a b c d e h => hinsert ⟨a, b, c, d, e, h⟩) fun a b c d e h => hopen ⟨a, b, c, d, e, h⟩
      have hgrows := hkeeps.grows hrequests
      refine ⟨hgrows, fun r' hr' => ?_, fun r' hr' hash hhash => ?_, fun attempt n hmem => ?_,
        (hnew hgrows).1, (hnew hgrows).2⟩
      · obtain ⟨r, hr, hsame, -⟩ := hkeeps.rows r' hr'
        rw [← hsame.1]
        exact hgrows.attempted _ (hs.attempted r hr)
      · obtain ⟨r, hr, hsame, hnonce, -⟩ := hkeeps.rows r' hr'
        obtain ⟨attempt, n, hmem, hsame', hn⟩ := hs.issued r hr hash (hnonce ▸ hhash)
        exact ⟨attempt, n, hgrows.issued _ hmem, hsame'.trans hsame, hn⟩
      · rw [hkeeps.issued] at hmem
        exact hgrows.attempted _ (hs.issuedKnown attempt n hmem)

/-! ### How the frames of an attempt follow each other -/

/-- The attempt whose state is issued and not yet handed out. -/
def Frame.challenging? : Frame → Option Text
  | .challenging row .. => some row.id
  | _ => none

/-- The frame is one of the call. -/
def Belongs (c : Call) : Frame → Prop
  | .start call => call = c
  | .ticketChecking row _ => ∃ ticket, c = .connectBegin row.id ticket
  | .verifierSealing row .. => ∃ ticket, c = .connectBegin row.id ticket
  | .nonceHashing row .. => ∃ ticket, c = .connectBegin row.id ticket
  | .challenging row .. => ∃ ticket, c = .connectBegin row.id ticket
  | _ => ∀ id ticket, c ≠ .connectBegin id ticket

/-- A token request stands at its beginning. -/
def AtStart (x : Exchange) (f : Frame) : Prop :=
  (∃ e, f = .failed x e) ∨ (∃ secret, f = .openingSecret x secret) ∨ ∃ secret, f = .fetching x secret

/-- The steps of an attempt, and that no other step enters one. -/
inductive Next (p : Platform) (s : IntegrationStore) (i : Input) : Frame → Frame → Prop
  | checkTicket {id ticket : Text} {row : ConnectRow} (h : s.connectBegin i.now id = .ok row) :
    Next p s i (.start (.connectBegin id ticket)) (.ticketChecking row ticket)
  | sealVerifier {row : ConnectRow} {ticket : Text} {record : IntegrationRecord}
      {verifier nonce : Text} (h : p.sha256Hex ticket = row.ticketHash) :
    Next p s i (.ticketChecking row ticket) (.verifierSealing row record verifier nonce)
  | hashNonce {row : ConnectRow} {record : IntegrationRecord} {verifier nonce : Text}
      {startedAt : ℕ} :
    Next p s i (.verifierSealing row record verifier nonce)
      (.nonceHashing row record verifier nonce startedAt)
  | challenge {row : ConnectRow} {record : IntegrationRecord} {verifier nonce : Text}
      {startedAt : ℕ} :
    Next p s i (.nonceHashing row record verifier nonce startedAt)
      (.challenging row record verifier nonce)
  | checkNonce {input : CompleteInput} {row : ConnectRow} {origin : ℕ}
      (h : s.connectComplete input.connectId = .ok row) :
    Next p s i (.start (.connectComplete input)) (.nonceChecking row input origin)
  | openVerifier {row : ConnectRow} {input : CompleteInput} {origin : ℕ} {callback : Callback}
      {record : IntegrationRecord} {code verifier : Text} (h : presents p row input = true)
      (hrow : callback.row = row) :
    Next p s i (.nonceChecking row input origin) (.openingVerifier callback record code verifier origin)
  | exchange {callback : Callback} {record : IntegrationRecord} {code verifier : Text} {origin : ℕ}
      {x : Exchange} {f' : Frame} (hx : x.goal = .connect callback) (h : AtStart x f') :
    Next p s i (.openingVerifier callback record code verifier origin) f'
  | openSecret {x : Exchange} {secret : Text} {f' : Frame} (h : AtStart x f') :
    Next p s i (.openingSecret x secret) f'
  | fetchFailed {x : Exchange} {secret : Option Text} {e : TokenError} :
    Next p s i (.fetching x secret) (.failed x e)
  | fetched {x : Exchange} {secret : Option Text} {tokens : TokenResponse} :
    Next p s i (.fetching x secret) (.sealing x tokens)
  | sealFailed {x : Exchange} {tokens : TokenResponse} {e : TokenError} :
    Next p s i (.sealing x tokens) (.failed x e)
  | store {x : Exchange} {tokens : TokenResponse} : Next p s i (.sealing x tokens) (.stored x)
  | other {f f' : Frame} (hopening : f'.opening? p = none) (hcompleting : f'.completing? p = none)
      (hchallenging : f'.challenging? = none) (hbelongs : ∀ c, Belongs c f → Belongs c f') :
    Next p s i f f'

theorem atStart_beginExchange (x : Exchange) : AtStart x (beginExchange p x s).2 := by
  rcases beginExchange_cases p x s with ⟨e, h⟩ | ⟨secret, h⟩ | ⟨secret, h⟩
  · exact .inl ⟨e, congrArg Prod.snd h⟩
  · exact .inr (.inl ⟨secret, congrArg Prod.snd h⟩)
  · exact .inr (.inr ⟨secret, congrArg Prod.snd h⟩)

theorem atStart_sendTokenRequest (x : Exchange) (secret : Option Text) :
    AtStart x (sendTokenRequest x secret s).2 := by
  rcases sendTokenRequest_cases x secret s with ⟨e, h⟩ | h
  · exact .inl ⟨e, congrArg Prod.snd h⟩
  · exact .inr (.inr ⟨secret, congrArg Prod.snd h⟩)

/-- A request of a refresh is of no attempt. -/
theorem AtStart.refresh {x : Exchange} {f : Frame} (h : AtStart x f) (hx : x.goal.attempt = none) :
    f.opening? p = none ∧ f.completing? p = none ∧ f.challenging? = none ∧
      ∀ c, (∀ id ticket, c ≠ Call.connectBegin id ticket) → Belongs c f := by
  rcases h with ⟨e, rfl⟩ | ⟨secret, rfl⟩ | ⟨secret, rfl⟩ <;> exact ⟨rfl, hx, rfl, fun _ h => h⟩

theorem refresh_other (name : Text) :
    (refresh p name s).2.opening? p = none ∧ (refresh p name s).2.completing? p = none ∧
      (refresh p name s).2.challenging? = none ∧
      ∀ c, (∀ id ticket, c ≠ Call.connectBegin id ticket) → Belongs c (refresh p name s).2 := by
  rcases refresh_cases p name s with ⟨task, -, h⟩ | h
  · rw [h]
    exact ⟨rfl, rfl, rfl, fun _ h => h⟩
  · rw [h]
    rcases refreshNow_cases p name s.nextTask (enterRefresh name s) with
      ⟨_, _, _, _, h⟩ | ⟨row, -, h⟩ | ⟨row, held, -, -, h⟩
    · rw [h]
      exact ⟨rfl, rfl, rfl, fun _ h => h⟩
    · rw [h]
      exact (atStart_beginExchange _).refresh rfl
    · rw [h]
      exact ⟨rfl, rfl, rfl, fun _ h => h⟩

theorem next_begin {call : Call} {i : Input} {f' : Frame} (h : (begin p s call i).2 = .inl f') :
    Next p s i (.start call) f' := by
  cases call with
  | save config clientSecret =>
    rcases clientSecret with _ | _ | clientSecret
    · exact absurd h (by simp [begin])
    · exact absurd h (by simp [begin])
    · obtain rfl := Sum.inl.inj h
      exact .other rfl rfl rfl fun c hc => by
        obtain rfl : _ = c := hc
        exact fun _ _ => by simp
  | setUsage name usage => exact absurd h (by simp [begin])
  | delete name => exact absurd h (by simp [begin])
  | disconnect name => exact absurd h (by simp [begin])
  | connectStart name redirectUri =>
    simp only [begin] at h
    split at h
    · exact absurd h (by simp)
    obtain rfl := Sum.inl.inj h
    exact .other rfl rfl rfl fun c hc => by
      obtain rfl : _ = c := hc
      exact fun _ _ => by simp
  | connectBegin connectId ticket =>
    simp only [begin] at h
    split at h
    · exact absurd h (by simp)
    rename_i row hrow
    obtain rfl := Sum.inl.inj h
    exact .checkTicket hrow
  | connectComplete input =>
    simp only [begin] at h
    split at h
    · exact absurd h (by simp)
    rename_i row hrow
    obtain rfl := Sum.inl.inj h
    exact .checkNonce hrow
  | refresh name =>
    obtain rfl := Sum.inl.inj h
    obtain ⟨hopening, hcompleting, hchallenging, hbelongs⟩ := @refresh_other p s name
    refine .other hopening hcompleting hchallenging fun c hc => hbelongs c ?_
    obtain rfl : _ = c := hc
    exact fun _ _ => by simp
  | tokenResolve input =>
    simp only [begin] at h
    rcases tokenResolve_cases p i.now input s with ⟨_, _, _, _, hr⟩ | ⟨row, held, -, -, hr⟩ | hr
    · rw [hr] at h
      exact absurd h (by simp)
    · rw [hr] at h
      obtain rfl := Sum.inl.inj h
      exact .other rfl rfl rfl fun c hc => by
        obtain rfl : _ = c := hc
        exact fun _ _ => by simp
    · rw [hr] at h
      obtain rfl := Sum.inl.inj h
      obtain ⟨hopening, hcompleting, hchallenging, hbelongs⟩ := @refresh_other p s input.name
      refine .other hopening hcompleting hchallenging fun c hc => hbelongs c ?_
      obtain rfl : _ = c := hc
      exact fun _ _ => by simp

/-- **Inversion**: how a piece goes on. -/
theorem next_piece {f f' : Frame} {i : Input} (h : (piece p s f i).2 = .inl f') :
    Next p s i f f' := by
  cases f with
  | start call => exact next_begin h
  | saveSealing startedAt existing config clientSecret =>
    simp only [piece] at h
    split at h <;> exact absurd h (by simp)
  | ticketHashing startedAt id ticket name uri => exact absurd h (by simp [piece])
  | ticketChecking row ticket =>
    simp only [piece] at h
    split at h
    · exact absurd h (by simp)
    rename_i hmatch
    split at h
    · exact absurd h (by simp)
    obtain rfl := Sum.inl.inj h
    exact .sealVerifier (not_ne_iff.mp hmatch)
  | verifierSealing row record verifier nonce =>
    simp only [piece] at h
    split at h
    · exact absurd h (by simp)
    obtain rfl := Sum.inl.inj h
    exact .hashNonce
  | nonceHashing row record verifier nonce startedAt =>
    obtain rfl := Sum.inl.inj h
    exact .challenge
  | challenging row record verifier nonce =>
    simp only [piece] at h
    split at h <;> exact absurd h (by simp)
  | nonceChecking row input origin =>
    simp only [piece] at h
    rcases completeChecked_cases p i.now row input origin s with ⟨e, hr⟩ | ⟨e, error, hr⟩ |
      ⟨e, error, record, reason, hr⟩ | ⟨record, code, verifier, hr, hcode, -, hhash, -, hprovider⟩
    · rw [hr] at h
      exact absurd h (by simp)
    · rw [hr] at h
      exact absurd h (by simp)
    · rw [hr] at h
      exact absurd h (by simp)
    · rw [hr] at h
      obtain rfl := Sum.inl.inj h
      exact .openVerifier (by simp [presents, hhash, hprovider, hcode]) rfl
  | openingVerifier callback record code verifier origin =>
    simp only [piece] at h
    split at h
    · exact absurd h (by simp)
    obtain rfl := Sum.inl.inj h
    exact .exchange rfl (atStart_beginExchange _)
  | openingRefresh name task record held =>
    simp only [piece] at h
    split at h
    · obtain rfl := Sum.inl.inj h
      exact .other rfl rfl rfl fun _ hc => hc
    · obtain rfl := Sum.inl.inj h
      obtain ⟨hopening, hcompleting, hchallenging, hbelongs⟩ :=
        (atStart_beginExchange ⟨name, record, .refreshToken held.token, held.origin,
          .refresh task⟩).refresh (p := p) rfl
      exact .other hopening hcompleting hchallenging hbelongs
  | openingSecret x clientSecret =>
    simp only [piece] at h
    split at h
    · obtain rfl := Sum.inl.inj h
      exact .openSecret (.inl ⟨_, rfl⟩)
    · obtain rfl := Sum.inl.inj h
      exact .openSecret (atStart_sendTokenRequest ..)
  | fetching x clientSecret =>
    simp only [piece] at h
    split at h
    · obtain rfl := Sum.inl.inj h
      exact .fetchFailed
    · obtain rfl := Sum.inl.inj h
      exact .fetched
  | sealing x tokens =>
    simp only [piece] at h
    split at h
    · obtain rfl := Sum.inl.inj h
      exact .sealFailed
    · obtain rfl := Sum.inl.inj h
      exact .store
  | stored x =>
    simp only [piece] at h
    split at h
    · exact absurd h (by simp)
    split at h
    · obtain rfl := Sum.inl.inj h
      exact .other rfl rfl rfl fun _ hc => hc
    · obtain rfl := Sum.inl.inj h
      exact .other rfl rfl rfl fun _ hc => hc
  | failed x error =>
    simp only [piece] at h
    split at h
    · exact absurd h (by simp)
    obtain rfl := Sum.inl.inj h
    exact .other rfl rfl rfl fun _ hc => hc
  | openingFresh name task record held =>
    simp only [piece] at h
    split at h
    all_goals
      obtain rfl := Sum.inl.inj h
      exact .other rfl rfl rfl fun _ hc => hc
  | settling name task result =>
    obtain rfl := Sum.inl.inj h
    exact .other rfl rfl rfl fun _ hc => hc
  | waiting name task =>
    simp only [piece] at h
    split at h
    · obtain rfl := Sum.inl.inj h
      exact .other rfl rfl rfl fun _ hc => hc
    · exact absurd h (by simp)
  | opening name record held =>
    simp only [piece] at h
    split at h <;> exact absurd h (by simp)

/-- The attempt that the call will still send a token request for. -/
def Frame.sending? (p : Platform) : Frame → Option Text
  | .nonceChecking row input _ => if presents p row input then some row.id else none
  | .openingVerifier callback .. => some callback.row.id
  | .openingSecret x _ => x.goal.attempt
  | _ => none

/-- The attempt that the call has sent its token request for, or failed to. -/
def Frame.sent? : Frame → Option Text
  | .fetching x _ => x.goal.attempt
  | .sealing x _ => x.goal.attempt
  | .stored x => x.goal.attempt
  | .failed x _ => x.goal.attempt
  | _ => none

theorem completing?_iff {f : Frame} {id : Text} :
    f.completing? p = some id ↔ f.sending? p = some id ∨ f.sent? = some id := by
  cases f <;> simp [Frame.completing?, Frame.sending?, Frame.sent?]

section
variable {f f' : Frame} {i : Input} {id : Text}

/-- A call begins to open a link only where its ticket is the right one. -/
theorem Next.opening (h : Next p s i f f') (hid : f'.opening? p = some id) :
    f.opening? p = some id ∨ ∃ ticket row, f = .start (.connectBegin id ticket) ∧
      s.connectBegin i.now id = .ok row ∧ p.sha256Hex ticket = row.ticketHash := by
  cases h with
  | checkTicket hrow =>
    obtain ⟨hmatch, hrowId⟩ := Option.ite_none_right_eq_some.mp hid
    obtain rfl := (connectBegin_ok hrow).2.1.symm.trans (Option.some.inj hrowId)
    exact .inr ⟨_, _, rfl, hrow, hmatch⟩
  | sealVerifier hmatch => exact .inl ((if_pos hmatch).trans hid)
  | hashNonce => exact .inl hid
  | exchange _ h =>
    rcases h with ⟨e, rfl⟩ | ⟨secret, rfl⟩ | ⟨secret, rfl⟩ <;>
      exact absurd hid (by simp [Frame.opening?])
  | openSecret h =>
    rcases h with ⟨e, rfl⟩ | ⟨secret, rfl⟩ | ⟨secret, rfl⟩ <;>
      exact absurd hid (by simp [Frame.opening?])
  | other hopening => exact absurd (hopening.symm.trans hid) (by simp)
  | _ => exact absurd hid (by simp [Frame.opening?])

/-- A call begins to send a token request only where its state is the right one. -/
theorem Next.sending (h : Next p s i f f') (hid : f'.sending? p = some id) :
    f.sending? p = some id ∨ ∃ input row, f = .start (.connectComplete input) ∧
      input.connectId = id ∧ s.connectComplete id = .ok row ∧ presents p row input = true := by
  cases h with
  | checkNonce hrow =>
    obtain ⟨hpresents, hrowId⟩ := Option.ite_none_right_eq_some.mp hid
    obtain rfl := (connectComplete_ok hrow).2.1.symm.trans (Option.some.inj hrowId)
    exact .inr ⟨_, _, rfl, rfl, hrow, hpresents⟩
  | openVerifier hpresents hrow =>
    subst hrow
    exact .inl ((if_pos hpresents).trans hid)
  | exchange hx h =>
    rcases h with ⟨e, rfl⟩ | ⟨secret, rfl⟩ | ⟨secret, rfl⟩
    · exact absurd hid (by simp [Frame.sending?])
    · simp only [Frame.sending?, hx] at hid
      exact .inl hid
    · exact absurd hid (by simp [Frame.sending?])
  | openSecret h =>
    rcases h with ⟨e, rfl⟩ | ⟨secret, rfl⟩ | ⟨secret, rfl⟩
    · exact absurd hid (by simp [Frame.sending?])
    · exact .inl hid
    · exact absurd hid (by simp [Frame.sending?])
  | other _ hcompleting =>
    exact absurd (hcompleting.symm.trans (completing?_iff.mpr (.inl hid))) (by simp)
  | _ => exact absurd hid (by simp [Frame.sending?])

/-- A call that has sent its request for an attempt was about to, or had. -/
theorem Next.sent (h : Next p s i f f') (hid : f'.sent? = some id) :
    f.completing? p = some id := by
  cases h with
  | exchange hx h =>
    rcases h with ⟨e, rfl⟩ | ⟨secret, rfl⟩ | ⟨secret, rfl⟩
    · simp only [Frame.sent?, hx] at hid
      exact hid
    · exact absurd hid (by simp [Frame.sent?])
    · simp only [Frame.sent?, hx] at hid
      exact hid
  | openSecret h =>
    rcases h with ⟨e, rfl⟩ | ⟨secret, rfl⟩ | ⟨secret, rfl⟩
    · exact hid
    · exact absurd hid (by simp [Frame.sent?])
    · exact hid
  | fetchFailed => exact hid
  | fetched => exact hid
  | sealFailed => exact hid
  | store => exact hid
  | other _ hcompleting =>
    exact absurd (hcompleting.symm.trans (completing?_iff.mpr (.inr hid))) (by simp)
  | _ => exact absurd hid (by simp [Frame.sent?])

theorem Next.fetching {x : Exchange} {secret : Option Text} (h : Next p s i f (.fetching x secret))
    (hid : x.goal.attempt = some id) : f.sending? p = some id := by
  have hcompleting := h.sent hid
  rcases completing?_iff.mp hcompleting with hsending | hsent
  · exact hsending
  · cases h with
    | other _ hnone => exact absurd (hnone.symm.trans hid) (by simp)
    | _ => exact absurd hsent (by simp [Frame.sent?])

theorem Next.challenging (h : Next p s i f f') (hid : f'.challenging? = some id) :
    ∃ row record verifier nonce startedAt,
      f = .nonceHashing row record verifier nonce startedAt ∧ row.id = id := by
  cases h with
  | challenge => exact ⟨_, _, _, _, _, rfl, Option.some.inj hid⟩
  | exchange _ h =>
    rcases h with ⟨e, rfl⟩ | ⟨secret, rfl⟩ | ⟨secret, rfl⟩ <;>
      exact absurd hid (by simp [Frame.challenging?])
  | openSecret h =>
    rcases h with ⟨e, rfl⟩ | ⟨secret, rfl⟩ | ⟨secret, rfl⟩ <;>
      exact absurd hid (by simp [Frame.challenging?])
  | other _ _ hnone => exact absurd (hnone.symm.trans hid) (by simp)
  | _ => exact absurd hid (by simp [Frame.challenging?])

theorem Next.belongs {c : Call} (h : Next p s i f f') (hc : Belongs c f) : Belongs c f' := by
  cases h with
  | checkTicket hrow =>
    obtain rfl := hc
    rw [← (connectBegin_ok hrow).2.1]
    exact ⟨_, rfl⟩
  | checkNonce hrow =>
    obtain rfl : _ = c := hc
    exact fun _ _ => by simp
  | exchange _ h => rcases h with ⟨e, rfl⟩ | ⟨secret, rfl⟩ | ⟨secret, rfl⟩ <;> exact hc
  | openSecret h => rcases h with ⟨e, rfl⟩ | ⟨secret, rfl⟩ | ⟨secret, rfl⟩ <;> exact hc
  | other _ _ _ hbelongs => exact hbelongs c hc
  | _ => exact hc

/-- A call that has sent its request goes on until it marks the attempt. -/
theorem sent_piece (h : f.sent? = some id) :
    (∃ f', (piece p s f i).2 = .inl f' ∧ f'.sent? = some id) ∨ Closed (piece p s f i).1 id := by
  cases f with
  | fetching x secret =>
    left
    simp only [piece]
    split <;> exact ⟨_, rfl, h⟩
  | sealing x tokens =>
    left
    simp only [piece]
    split <;> exact ⟨_, rfl, h⟩
  | stored x =>
    right
    simp only [piece]
    simp only [Frame.sent?] at h
    split
    · rename_i callback hgoal
      rw [hgoal] at h
      obtain rfl := Option.some.inj h
      exact keeps_finishConnect.2
    · rename_i task hgoal
      exact absurd (hgoal ▸ h) (by simp [Goal.attempt])
  | failed x e =>
    right
    simp only [piece]
    simp only [Frame.sent?] at h
    split
    · rename_i callback hgoal
      rw [hgoal] at h
      obtain rfl := Option.some.inj h
      exact keepsAttempts_failAuth.closed keeps_finishConnect.2
    · rename_i task hgoal
      exact absurd (hgoal ▸ h) (by simp [Goal.attempt])
  | _ => exact absurd h (by simp [Frame.sent?])

/-- Marks stay. -/
theorem marks_piece (hid : id ∈ s.attempted) (hfresh : ∀ k, f.attempt = some k → k ∉ s.attempted) :
    (Closed s id → Closed (piece p s f i).1 id) ∧ (Started s id → Started (piece p s f i).1 id) := by
  by_cases hopen : ∃ row record verifier nonce startedAt,
      f = .nonceHashing row record verifier nonce startedAt
  · obtain ⟨row, record, verifier, nonce, startedAt, rfl⟩ := hopen
    refine ⟨fun h r' hr' hrid => ?_, fun h r' hr' hrid => ?_⟩
    · obtain ⟨r, hr, hsame, hdone, -⟩ := mem_startConnect hr'
      rw [hdone]
      exact h r hr (hsame.1.trans hrid)
    · obtain ⟨r, hr, hsame, -, ⟨-, hstarted, -⟩ | ⟨-, rfl⟩⟩ := mem_startConnect hr'
      · exact hstarted
      · exact h _ hr hrid
  · by_cases hinsert : ∃ startedAt id ticket name uri,
        f = .ticketHashing startedAt id ticket name uri
    · obtain ⟨startedAt, k, ticket, name, uri, rfl⟩ := hinsert
      have hne : k ≠ id := fun heq => hfresh k rfl (heq ▸ hid)
      refine ⟨fun h r' hr' hrid => ?_, fun h r' hr' hrid => ?_⟩
      · rcases mem_insertConnect hr' with hold | ⟨hnew, -, -⟩
        · exact h r' hold hrid
        · exact absurd (hnew.symm.trans hrid) hne
      · rcases mem_insertConnect hr' with hold | ⟨hnew, -, -⟩
        · exact h r' hold hrid
        · exact absurd (hnew.symm.trans hrid) hne
    · have hkeeps := @keepsAttempts_piece p s f i
        (fun a b c d e h => hinsert ⟨a, b, c, d, e, h⟩) fun a b c d e h => hopen ⟨a, b, c, d, e, h⟩
      exact ⟨hkeeps.closed, hkeeps.started⟩

/-- A state is issued by marking its link. -/
theorem issued_piece : (piece p s f i).1.issued = s.issued ∨
    ∃ row record verifier nonce startedAt, f = .nonceHashing row record verifier nonce startedAt ∧
      (piece p s f i).1.issued = (row, nonce) :: s.issued ∧ Started (piece p s f i).1 row.id := by
  by_cases hopen : ∃ row record verifier nonce startedAt,
      f = .nonceHashing row record verifier nonce startedAt
  · obtain ⟨row, record, verifier, nonce, startedAt, rfl⟩ := hopen
    refine .inr ⟨row, record, verifier, nonce, startedAt, rfl, rfl, fun r' hr' hrid => ?_⟩
    obtain ⟨r, hr, hsame, -, ⟨-, hstarted, -⟩ | ⟨hne, rfl⟩⟩ := mem_startConnect hr'
    · exact hstarted
    · exact absurd hrid hne
  · left
    by_cases hinsert : ∃ startedAt id ticket name uri,
        f = .ticketHashing startedAt id ticket name uri
    · obtain ⟨startedAt, k, ticket, name, uri, rfl⟩ := hinsert
      simp only [piece, insertConnect]
      split <;> rfl
    · exact (@keepsAttempts_piece p s f i (fun a b c d e h => hinsert ⟨a, b, c, d, e, h⟩)
        fun a b c d e h => hopen ⟨a, b, c, d, e, h⟩).issued

/-- Only the last piece of `connectBegin` hands out a state. -/
theorem begun_piece {answer : AuthorizeInput} (h : (piece p s f i).2 = .inr (.begun (.ok answer))) :
    ∃ id, f.challenging? = some id := by
  cases f with
  | challenging row record verifier nonce => exact ⟨row.id, rfl⟩
  | start call =>
    cases call with
    | save config clientSecret =>
      rcases clientSecret with _ | _ | clientSecret <;> exact absurd h (by simp [piece, begin])
    | tokenResolve input =>
      simp only [piece, begin] at h
      split at h <;> exact absurd h (by simp)
    | connectStart name redirectUri =>
      simp only [piece, begin] at h
      split at h <;> exact absurd h (by simp)
    | connectBegin connectId ticket =>
      simp only [piece, begin] at h
      split at h <;> exact absurd h (by simp)
    | connectComplete input =>
      simp only [piece, begin] at h
      split at h <;> exact absurd h (by simp)
    | _ => exact absurd h (by simp [piece, begin])
  | nonceChecking row input origin =>
    simp only [piece] at h
    split at h <;> exact absurd h (by simp)
  | _ =>
    simp only [piece] at h
    repeat' split at h
    all_goals exact absurd h (by simp)

end

/-! ### The invariant -/

/-- Openings: a state is issued for a link once, and handed out once. -/
structure OpenInv (g : Coop.Config (integrations p)) : Prop where
  opening : Coop.Unique (Frame.opening? p) g
  challenging : Coop.Unique Frame.challenging? g
  started : ∀ attempt nonce, (attempt, nonce) ∈ g.shared.issued → Started g.shared attempt.id
  unissued : ∀ t c f id, g.pool t = some (c, f) → f.opening? p = some id →
    ∀ attempt nonce, (attempt, nonce) ∈ g.shared.issued → attempt.id ≠ id
  unanswered : ∀ t c f id, g.pool t = some (c, f) → f.challenging? = some id →
    ∀ entry ∈ g.log, opens id entry = false
  answered : ∀ id, ∀ entry ∈ g.log, opens id entry = true →
    ∃ attempt nonce, (attempt, nonce) ∈ g.shared.issued ∧ attempt.id = id
  once : ∀ id, g.log.countP (opens id) ≤ 1

/-- Requests: one for each attempt, and the attempt is marked before another can be sent. -/
structure RequestInv (g : Coop.Config (integrations p)) : Prop where
  completing : Coop.Unique (Frame.completing? p) g
  closed : ∀ x ∈ g.shared.requests, ∀ id, x.goal.attempt = some id →
    Closed g.shared id ∨ ∃ t c f, g.pool t = some (c, f) ∧ f.sent? = some id
  unsent : ∀ t c f id, g.pool t = some (c, f) → f.sending? p = some id →
    ∀ x ∈ g.shared.requests, x.goal.attempt ≠ some id
  once : ∀ id, g.shared.requests.countP (fun x => decide (x.goal.attempt = some id)) ≤ 1

structure AttemptInv (g : Coop.Config (integrations p)) : Prop where
  store : StoreOk p g.shared
  frames : ∀ t c f, g.pool t = some (c, f) → FrameOk p g.shared f ∧ Belongs c f
  opens : OpenInv g
  requests : RequestInv g

section
variable {g g' : Coop.Config (integrations p)} {t : ℕ} {c : Call} {f : Frame} {i : Input}
  {out : Frame ⊕ Ret}

/-- A piece leaves the store as it says, but for the count of ended grants. -/
theorem resume_tables (h : resume p s f i = some (s', out)) :
    ∃ ended, s' = { (piece p s f i).1 with ended := ended } := by
  obtain ⟨-, -, ⟨-, hs⟩ | ⟨name, -, hs⟩⟩ := resume_cases h
  · exact ⟨_, hs⟩
  · exact ⟨_, hs⟩

theorem AttemptInv.call (hg : AttemptInv g) {t : ℕ} (hfree : g.pool t = none) (c : Call) :
    AttemptInv { g with pool := Function.update g.pool t (some (c, Frame.start c)) } := by
  have hold : ∀ {u c' f}, Function.update g.pool t (some (c, Frame.start c)) u = some (c', f) →
      (c' = c ∧ f = .start c) ∨ g.pool u = some (c', f) := by
    intro u c' f hu
    rcases Coop.pool_update_cases hu with ⟨-, heq⟩ | ⟨-, hu⟩
    · obtain ⟨rfl, rfl⟩ := Prod.mk.inj (Option.some.inj heq)
      exact .inl ⟨rfl, rfl⟩
    · exact .inr hu
  refine ⟨hg.store, fun u c' f hu => ?_, ⟨hg.opens.opening.call rfl, hg.opens.challenging.call rfl,
    hg.opens.started, fun u c' f id hu hid => ?_, fun u c' f id hu hid => ?_, hg.opens.answered,
    hg.opens.once⟩, ⟨hg.requests.completing.call rfl, fun x hx id hid => ?_,
    fun u c' f id hu hid => ?_, hg.requests.once⟩⟩
  · rcases hold hu with ⟨rfl, rfl⟩ | hu
    · exact ⟨trivial, rfl⟩
    · exact hg.frames u c' f hu
  · rcases hold hu with ⟨rfl, rfl⟩ | hu
    · exact absurd hid (by simp [Frame.opening?])
    · exact hg.opens.unissued u c' f id hu hid
  · rcases hold hu with ⟨rfl, rfl⟩ | hu
    · exact absurd hid (by simp [Frame.challenging?])
    · exact hg.opens.unanswered u c' f id hu hid
  · rcases hg.requests.closed x hx id hid with hclosed | ⟨u, c', f, hu, hsent⟩
    · exact .inl hclosed
    · refine .inr ⟨u, c', f, ?_, hsent⟩
      have hut : u ≠ t := fun heq => absurd ((heq ▸ hfree).symm.trans hu) (by simp)
      exact (Function.update_of_ne hut ..).trans hu
  · rcases hold hu with ⟨rfl, rfl⟩ | hu
    · exact absurd hid (by simp [Frame.sending?])
    · exact hg.requests.unsent u c' f id hu hid

/-- What a piece starts from, and what it leaves. -/
structure Piece (g g' : Coop.Config (integrations p)) (t : ℕ) (c : Call) (f : Frame) (i : Input)
    (out : Frame ⊕ Ret) : Prop where
  inv : AttemptInv g
  ran : Coop.Ran g g' t c f i out
  out_eq : out = (piece p g.shared f i).2
  shared : ∃ ended, g'.shared = { (piece p g.shared f i).1 with ended := ended }
  fresh : ∀ id, f.attempt = some id → id ∉ g.shared.attempted

theorem Piece.next (h : Piece g g' t c f i out) {f' : Frame} (hout : out = .inl f') :
    Next p g.shared i f f' :=
  next_piece (h.out_eq.symm.trans hout)

theorem Piece.frame (h : Piece g g' t c f i out) : FrameOk p g.shared f ∧ Belongs c f :=
  h.inv.frames t c f h.ran.before

/-- A piece whose answer opens a link is the one that hands out its state. -/
theorem Piece.answers (h : Piece g g' t c f i out) {entry : Call × Ret} {id : Text}
    (hc : entry.1 = c) (hout : out = .inr entry.2) (hopens : opens id entry = true) :
    f.challenging? = some id := by
  obtain ⟨call, r⟩ := entry
  obtain rfl : call = c := hc
  unfold opens at hopens
  split at hopens
  · rename_i connectId ticket answer heq
    obtain ⟨rfl, rfl⟩ := Prod.mk.inj heq
    obtain ⟨k, hk⟩ := begun_piece (h.out_eq.symm.trans hout)
    have hbelongs := h.frame.2
    cases f with
    | challenging row record verifier nonce =>
      obtain ⟨_, hcall⟩ := hbelongs
      obtain ⟨rfl, -⟩ := Call.connectBegin.inj hcall
      exact congrArg some (of_decide_eq_true hopens)
    | _ => exact absurd hk (by simp [Frame.challenging?])
  · exact absurd hopens (by simp)

theorem Piece.openInv (h : Piece g g' t c f i out)
    (hquiet : ∀ id ticket row, f = .start (.connectBegin id ticket) →
      g.shared.connectBegin i.now id = .ok row → p.sha256Hex ticket = row.ticketHash →
      Coop.Free (Frame.opening? p) g id) : OpenInv g' := by
  obtain ⟨ended, hshared⟩ := h.shared
  have hg := h.inv.opens
  have hissued := @issued_piece p g.shared f i
  have hmarked : ∀ {id}, id ∈ g.shared.attempted → Started g.shared id →
      Started (piece p g.shared f i).1 id := fun hid => (marks_piece hid h.fresh).2
  refine ⟨hg.opening.ran h.ran fun f' k hout hk => ?_, hg.challenging.ran h.ran
    fun f' k hout hk => .inr fun u c' f'' hu hk' => ?_, fun attempt nonce hmem => ?_,
    fun u c' f' id hu hid attempt nonce hmem => ?_, fun u c' f' id hu hid entry hentry => ?_,
    fun id entry hentry hopens => ?_, fun id => ?_⟩
  · rcases (h.next hout).opening hk with hsame | ⟨ticket, row, rfl, hrow, hmatch⟩
    · exact .inl hsame
    · exact .inr (hquiet k ticket row rfl hrow hmatch)
  · -- a state still to be handed out was issued, but this link had none
    obtain ⟨row, record, verifier, nonce, startedAt, rfl, rfl⟩ := (h.next hout).challenging hk
    have hframe := (h.inv.frames u c' f'' hu).1
    cases f'' with
    | challenging row' record' verifier' nonce' =>
      obtain ⟨attempt, issued, hmem, hid⟩ := hframe
      obtain hrowId := Option.some.inj hk'
      exact hg.unissued t c _ _ h.ran.before rfl attempt issued hmem (hid.trans hrowId)
    | _ => exact absurd hk' (by simp [Frame.challenging?])
  · rw [hshared] at hmem ⊢
    rcases hissued with hsame | ⟨row, record, verifier, n, startedAt, rfl, hnew, hstarted⟩
    · rw [hsame] at hmem
      exact hmarked (h.inv.store.issuedKnown attempt nonce hmem) (hg.started attempt nonce hmem)
    · rw [hnew] at hmem
      rcases List.mem_cons.mp hmem with heq | hold
      · obtain ⟨rfl, -⟩ := Prod.mk.inj heq
        exact hstarted
      · exact hmarked (h.inv.store.issuedKnown attempt nonce hold) (hg.started attempt nonce hold)
  · rw [hshared] at hmem
    rcases h.ran.pool u c' f' hu with ⟨hut, hold⟩ | ⟨-, -, hout⟩
    · rcases hissued with hsame | ⟨row, record, verifier, n, startedAt, rfl, hnew, -⟩
      · rw [hsame] at hmem
        exact hg.unissued u c' f' id hold hid attempt nonce hmem
      · rw [hnew] at hmem
        rcases List.mem_cons.mp hmem with heq | hmem
        · obtain ⟨rfl, -⟩ := Prod.mk.inj heq
          intro hrowId
          exact hut (hg.opening u t c' c f' _ id hold h.ran.before hid (congrArg some hrowId))
        · exact hg.unissued u c' f' id hold hid attempt nonce hmem
    · rcases hissued with hsame | ⟨row, record, verifier, n, startedAt, rfl, -, -⟩
      · rw [hsame] at hmem
        rcases (h.next hout).opening hid with hopening | ⟨ticket, row, rfl, hrow, -⟩
        · exact hg.unissued t c f id h.ran.before hopening attempt nonce hmem
        · -- the link was still closed when the call read it
          intro heq
          obtain ⟨hrowMem, hrowId, hclosed⟩ := connectBegin_ok hrow
          exact hg.started attempt nonce hmem row hrowMem (hrowId.trans heq.symm) hclosed
      · obtain rfl := Sum.inl.inj (h.out_eq.symm.trans hout)
        exact absurd hid (by simp [Frame.opening?])
  · rcases h.ran.pool u c' f' hu with ⟨hut, hold⟩ | ⟨-, -, hout⟩
    · rcases h.ran.log entry hentry with hentryOld | ⟨hc, hout⟩
      · exact hg.unanswered u c' f' id hold hid entry hentryOld
      · by_contra hopens
        have hchallenging := h.answers hc hout (Bool.not_eq_false _ ▸ hopens)
        exact hut (hg.challenging u t c' c f' f id hold h.ran.before hid hchallenging)
    · obtain ⟨row, record, verifier, nonce, startedAt, rfl, rfl⟩ := (h.next hout).challenging hid
      rcases h.ran.log entry hentry with hentryOld | ⟨-, hout'⟩
      · by_contra hopens
        obtain ⟨attempt, n, hmem, hattempt⟩ :=
          hg.answered _ entry hentryOld (Bool.not_eq_false _ ▸ hopens)
        exact hg.unissued t c _ _ h.ran.before rfl attempt n hmem hattempt
      · exact absurd (hout.symm.trans hout') (by simp)
  · have hgrows : ∀ e ∈ g.shared.issued, e ∈ g'.shared.issued := by
      intro e he
      rw [hshared]
      rcases hissued with hsame | ⟨row, record, verifier, n, startedAt, -, hnew, -⟩
      · exact hsame ▸ he
      · exact hnew ▸ List.mem_cons_of_mem _ he
    rcases h.ran.log entry hentry with hold | ⟨hc, hout⟩
    · obtain ⟨attempt, nonce, hmem, hid⟩ := hg.answered id entry hold hopens
      exact ⟨attempt, nonce, hgrows _ hmem, hid⟩
    · have hchallenging := h.answers hc hout hopens
      have hframe := h.frame.1
      cases f with
      | challenging row record verifier nonce =>
        obtain ⟨attempt, n, hmem, hid⟩ := hframe
        exact ⟨attempt, n, hgrows _ hmem, hid.trans (Option.some.inj hchallenging)⟩
      | _ => exact absurd hchallenging (by simp [Frame.challenging?])
  · rcases h.ran.own with ⟨f', -, -, hlog⟩ | ⟨r, hout, -, hlog⟩
    · rw [hlog]
      exact hg.once id
    · rw [hlog, List.countP_cons]
      by_cases hopens : opens id (c, r) = true
      · have hnone : g.log.countP (opens id) = 0 := by
          rw [List.countP_eq_zero]
          intro entry hentry
          simp [hg.unanswered t c f id h.ran.before (h.answers rfl hout hopens) entry hentry]
        rw [hnone, if_pos hopens]
      · rw [if_neg hopens]
        exact hg.once id

theorem Piece.requestInv (h : Piece g g' t c f i out)
    (hquiet : ∀ input row, f = .start (.connectComplete input) →
      g.shared.connectComplete input.connectId = .ok row → presents p row input = true →
      Coop.Free (Frame.completing? p) g input.connectId) : RequestInv g' := by
  obtain ⟨ended, hshared⟩ := h.shared
  have hg := h.inv.requests
  have hfine := (fine_piece h.inv.store h.frame.1 i).requests
  have hcompleting : ∀ {f : Frame} {id : Text}, f.sending? p = some id →
      f.completing? p = some id :=
    fun hid => completing?_iff.mpr (.inl hid)
  refine ⟨hg.completing.ran h.ran fun f' k hout hk => ?_, fun x hx id hid => ?_,
    fun u c' f' id hu hid x hx => ?_, fun id => ?_⟩
  · rcases completing?_iff.mp hk with hsending | hsent
    · rcases (h.next hout).sending hsending with hsame | ⟨input, row, rfl, rfl, hrow, hpresents⟩
      · exact .inl (hcompleting hsame)
      · exact .inr (hquiet input row rfl hrow hpresents)
    · exact .inl ((h.next hout).sent hsent)
  · rw [hshared] at hx ⊢
    have hold : x ∈ g.shared.requests →
        Closed (piece p g.shared f i).1 id ∨
          ∃ u c' f', g'.pool u = some (c', f') ∧ f'.sent? = some id := by
      intro hx
      rcases hg.closed x hx id hid with hclosed | ⟨u, c', f', hu, hsent⟩
      · left
        cases hgoal : x.goal with
        | refresh task => exact absurd (hgoal ▸ hid) (by simp [Goal.attempt])
        | connect callback =>
          obtain ⟨hknown, -, -⟩ := h.inv.store.requests x hx callback hgoal
          have hrowId : callback.row.id = id := by
            rw [hgoal] at hid
            exact Option.some.inj hid
          exact (marks_piece (hrowId ▸ hknown) h.fresh).1 hclosed
      · by_cases hut : u = t
        · subst hut
          obtain ⟨rfl, rfl⟩ := Prod.mk.inj (Option.some.inj (hu.symm.trans h.ran.before))
          rcases @sent_piece p g.shared f' i id hsent with ⟨f'', hout, hsent'⟩ | hclosed
          · right
            rcases h.ran.own with ⟨f₁, hout₁, hpool, -⟩ | ⟨r, hr, -, -⟩
            · obtain rfl := Sum.inl.inj ((h.out_eq.symm.trans hout₁).symm.trans hout)
              exact ⟨u, c', _, hpool, hsent'⟩
            · exact absurd ((h.out_eq.symm.trans hr).symm.trans hout) (by simp)
          · exact .inl hclosed
        · exact .inr ⟨u, c', f', (h.ran.others u hut).trans hu, hsent⟩
    rcases hfine with ⟨hsame, -⟩ | ⟨y, secret, hout, hnew⟩
    · exact hold (hsame ▸ hx)
    · have hx' : x ∈ y :: g.shared.requests := hnew ▸ hx
      rcases List.mem_cons.mp hx' with rfl | hx
      · right
        rcases h.ran.own with ⟨f₁, hout₁, hpool, -⟩ | ⟨r, hr, -, -⟩
        · obtain rfl := Sum.inl.inj ((h.out_eq.symm.trans hout₁).symm.trans hout)
          exact ⟨t, c, _, hpool, hid⟩
        · exact absurd ((h.out_eq.symm.trans hr).symm.trans hout) (by simp)
      · exact hold hx
  · rw [hshared] at hx
    have hnew : x ∉ g.shared.requests →
        ∃ secret, (piece p g.shared f i).2 = .inl (.fetching x secret) := by
      intro hnot
      rcases hfine with ⟨hsame, -⟩ | ⟨y, secret, hout, hrequests⟩
      · exact absurd (hsame ▸ hx) hnot
      · have hx' : x ∈ y :: g.shared.requests := hrequests ▸ hx
        rcases List.mem_cons.mp hx' with rfl | hold
        · exact ⟨secret, hout⟩
        · exact absurd hold hnot
    by_cases hold : x ∈ g.shared.requests
    · rcases h.ran.pool u c' f' hu with ⟨-, hu⟩ | ⟨-, -, hout⟩
      · exact hg.unsent u c' f' id hu hid x hold
      · rcases (h.next hout).sending hid with hsame | ⟨input, row, rfl, rfl, hrow, hpresents⟩
        · exact hg.unsent t c f id h.ran.before hsame x hold
        · -- the attempt was still open, and no call was completing it
          intro hattempt
          obtain ⟨hrowMem, hrowId, hopen⟩ := connectComplete_ok hrow
          rcases hg.closed x hold _ hattempt with hclosed | ⟨v, c'', f'', hv, hsent⟩
          · exact hclosed row hrowMem hrowId hopen
          · exact hquiet input row rfl hrow hpresents v c'' f'' hv
              (completing?_iff.mpr (.inr hsent))
    · obtain ⟨secret, hout⟩ := hnew hold
      intro hattempt
      have hsending := (h.next (h.out_eq.trans hout)).fetching hattempt
      rcases h.ran.pool u c' f' hu with ⟨hut, hu⟩ | ⟨-, -, hout'⟩
      · exact hut (hg.completing u t c' c f' f id hu h.ran.before (hcompleting hid)
          (hcompleting hsending))
      · obtain rfl := Sum.inl.inj ((h.out_eq.symm.trans hout').symm.trans hout)
        exact absurd hid (by simp [Frame.sending?])
  · rw [hshared]
    show (piece p g.shared f i).1.requests.countP _ ≤ 1
    rcases hfine with ⟨hsame, -⟩ | ⟨y, secret, hout, hnew⟩
    · rw [hsame]
      exact hg.once id
    · rw [hnew, List.countP_cons]
      by_cases hattempt : y.goal.attempt = some id
      · have hsending := (h.next (h.out_eq.trans hout)).fetching hattempt
        have hnone : g.shared.requests.countP (fun x => decide (x.goal.attempt = some id)) = 0 := by
          rw [List.countP_eq_zero]
          intro x hx
          simp [hg.unsent t c f id h.ran.before hsending x hx]
        rw [hnone, if_pos (decide_eq_true hattempt)]
      · rw [if_neg (by simpa using hattempt)]
        exact hg.once id

/-- **Step lemma.** -/
theorem AttemptInv.step {e : Coop.Event (integrations p)} (hg : AttemptInv g)
    (hquiet : Overlapless g e) (h : Coop.step g e = some g') : AttemptInv g' := by
  rcases Coop.step_ran h with ⟨t, c, -, hfree, rfl⟩ | ⟨t, i, c, f, out, rfl, hran⟩
  · exact hg.call hfree c
  · obtain ⟨hfresh, hout, -⟩ := resume_cases hran.runs
    have hpiece : Piece g g' t c f i out := ⟨hg, hran, hout, resume_tables hran.runs, hfresh⟩
    obtain ⟨ended, hshared⟩ := hpiece.shared
    obtain ⟨hgrows, hstore⟩ := piece_store hg.store hpiece.frame.1 (i := i) hfresh
    have hguard := hquiet c f hran.before
    refine ⟨?_, fun u c' f' hu => ?_, hpiece.openInv ?_, hpiece.requestInv ?_⟩
    · rw [hshared]
      exact ⟨hstore.attempted, hstore.issued, hstore.issuedKnown, hstore.requests, hstore.tokens⟩
    · have hsame : FrameOk p (piece p g.shared f i).1 f' → FrameOk p g'.shared f' := by
        intro hf'
        rw [hshared]
        exact hf'.grows ⟨fun _ h => h, fun _ h => h, fun _ h => h, fun _ h => h⟩
      rcases hran.pool u c' f' hu with ⟨-, hold⟩ | ⟨-, rfl, hnew⟩
      · obtain ⟨hf', hbelongs⟩ := hg.frames u c' f' hold
        exact ⟨hsame (hf'.grows hgrows), hbelongs⟩
      · exact ⟨hsame ((fine_piece hg.store hpiece.frame.1 i).frame (hout.symm.trans hnew)),
          (hpiece.next hnew).belongs hpiece.frame.2⟩
    · rintro id ticket row rfl hrow hmatch
      exact hguard row hrow hmatch
    · rintro input row rfl hrow hpresents
      exact hguard row hrow hpresents

end

theorem AttemptInv.fresh : AttemptInv (freshIntegrations p) := by
  have hpool : ∀ {t c f}, (freshIntegrations p).pool t = some (c, f) → False := by
    intro t c f h
    exact absurd h (by simp [freshIntegrations, Coop.idle])
  refine ⟨⟨?_, ?_, ?_, ?_, ?_⟩, fun t c f h => (hpool h).elim, ⟨?_, ?_, ?_, ?_, ?_, ?_, ?_⟩,
    ⟨?_, ?_, ?_, ?_⟩⟩
  all_goals first
    | exact fun _ _ _ _ _ _ _ h => (hpool h).elim
    | exact fun _ _ _ _ h => (hpool h).elim
    | exact fun _ => Nat.zero_le _
    | simp [freshIntegrations, Coop.idle, emptyStore]

/-- **Connect attempts are single-use** in every run in which neither two openings of one link nor two
    callbacks of one attempt overlap. -/
theorem attempts_singleUse {g : Coop.Config (integrations p)}
    (h : Reaches Coop.step Overlapless (freshIntegrations p) g) : SingleUse g := by
  have hinv := h.invariant AttemptInv (fun _ _ _ hg hquiet hstep => hg.step hquiet hstep) .fresh
  exact ⟨hinv.opens.once, hinv.requests.once,
    fun x hx callback hgoal => (hinv.store.requests x hx callback hgoal).2, hinv.store.tokens⟩

/-! ### Three runs -/

/-- Calls that never overlap are `Overlapless`. -/
theorem overlapless_of_solo {g : Coop.Config (integrations p)} {e : Coop.Event (integrations p)}
    (h : Coop.Solo g e) : Overlapless g e := by
  cases e with
  | call t c => trivial
  | resume t i =>
    intro c f hpool
    split
    · intro row _ _
      exact h.free hpool rfl
    · intro row _ _
      exact h.free hpool rfl
    · trivial

theorem attempts_singleUse_connectRun :
    ∃ g, execGuarded Coop.step (Coop.soloBelow 1) (freshIntegrations clearPlatform) connectRun =
        some g ∧
      SingleUse g ∧ g.log.countP (opens "cn") = 1 ∧ g.shared.requests.length = 1 := by
  have hrun : (execGuarded Coop.step (Coop.soloBelow 1) (freshIntegrations clearPlatform)
      connectRun).map (fun g => (g.log.countP (opens "cn"), g.shared.requests.length)) =
        some (1, 1) := by
    decide +kernel
  obtain ⟨g, hg, hseen⟩ := Option.map_eq_some_iff.mp hrun
  obtain ⟨hopened, hrequested⟩ := Prod.mk.inj hseen
  have hsolo := Coop.reaches_of_soloBelow (fun _ _ => rfl) hg
  exact ⟨g, hg, attempts_singleUse (hsolo.mono fun _ _ => overlapless_of_solo), hopened, hrequested⟩

/-- An integration is saved and has a connect link. -/
def linkRun : List (Coop.Event (integrations clearPlatform)) :=
  alone 0 (.save github (some none)) [at_ 0] ++
  alone 0 (.connectStart "gh" "https://kody/callback") [at_ 0 "cn" "ticket", at_ 0]

/-- Two calls open the link: each reads its row before the other has marked it. -/
def twoOpenings : List (Coop.Event (integrations clearPlatform)) :=
  linkRun ++
  [.call 0 (.connectBegin "cn" "ticket"), .call 1 (.connectBegin "cn" "ticket"),
   .resume 0 (at_ 1), .resume 1 (at_ 1),
   .resume 0 (at_ 1 "verifier" "nonce"), .resume 1 (at_ 1 "verifier2" "nonce2"),
   .resume 0 (at_ 1), .resume 0 (at_ 1), .resume 0 (at_ 1),
   .resume 1 (at_ 1), .resume 1 (at_ 1), .resume 1 (at_ 1)]

/-- Two callbacks carry one state: each reads the attempt before the other has completed it. -/
def twoCallbacks : List (Coop.Event (integrations clearPlatform)) :=
  linkRun ++
  alone 0 (.connectBegin "cn" "ticket") [at_ 1, at_ 1 "verifier" "nonce", at_ 1, at_ 1, at_ 1] ++
  [.call 0 (.connectComplete ⟨"cn", "nonce", some "code", none⟩),
   .call 1 (.connectComplete ⟨"cn", "nonce", some "code", none⟩),
   .resume 0 (at_ 2), .resume 1 (at_ 2), .resume 0 (at_ 2), .resume 1 (at_ 2),
   .resume 0 (at_ 2), .resume 1 (at_ 2)]

/-- **Races.**  Two overlapping calls open one link, and two overlapping callbacks send two token
    requests for one state. -/
theorem overlappingAttempts :
    (∃ g, exec Coop.step (freshIntegrations clearPlatform) twoOpenings = some g ∧
      g.log.countP (opens "cn") = 2 ∧ ¬ SingleUse g) ∧
    ∃ g, exec Coop.step (freshIntegrations clearPlatform) twoCallbacks = some g ∧
      g.shared.requests.countP (fun x => decide (x.goal.attempt = some ("cn" : Text))) = 2 ∧
      ¬ SingleUse g := by
  constructor
  · have hrun : (exec Coop.step (freshIntegrations clearPlatform) twoOpenings).map
        (fun g => g.log.countP (opens "cn")) = some 2 := by
      decide +kernel
    obtain ⟨g, hg, hopened⟩ := Option.map_eq_some_iff.mp hrun
    refine ⟨g, hg, hopened, fun h => ?_⟩
    have hle := h.opened "cn"
    omega
  · have hrun : (exec Coop.step (freshIntegrations clearPlatform) twoCallbacks).map
        (fun g => g.shared.requests.countP fun x => decide (x.goal.attempt = some ("cn" : Text))) =
          some 2 := by
      decide +kernel
    obtain ⟨g, hg, hrequested⟩ := Option.map_eq_some_iff.mp hrun
    refine ⟨g, hg, hrequested, fun h => ?_⟩
    have hle := h.requested "cn"
    omega

end KodyCelld.Integrations
