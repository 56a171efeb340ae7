import KodyCelld.Mcp.Calls

namespace KodyCelld.Mcp

open KodyCelld.Lib
open KodyCelld.Integrations (Held)

/-!
# The lineage of MCP tokens

Over every interleaving of the calls: the stored tokens descend from the grant committed last and not
cleared since, and no operation touches a grant that it did not start from.

* `Lineage` — the property;
* `undisturbed` — the steps that do not run into the window it breaks in: `accessToken` reads the
  tokens, waits for their decryption, and only then takes the generation that it fences with;
* `Safe` — what a piece may do to grants, with one lemma for each function;
* `mcp_lineage` — every run of such steps keeps the lineage;
* `revivedGrant` — a run in which a refresh of an older grant overwrites a newer one.
-/

/-! ### The property -/

/-- The tokens of a row descend from the grant `live`, and it has tokens while there is one. -/
structure Descends (row : Option OAuthRow) (live : Option ℕ) : Prop where
  access : (row.bind OAuthRow.access).map Held.origin = live
  refresh : ∀ held, row.bind OAuthRow.refresh = some held → live = some held.origin

/-- The operation met no grant, or the one that it started from. -/
def Act.OnOwn (a : Act) : Prop := ∀ grant, a.live = some grant → a.started = some grant

/-- **The lineage of the stored tokens**: they descend from the grant that was committed last and not
    cleared since, and no operation overwrote, cleared or marked a grant that it did not start from. -/
structure Lineage (s : McpCell) : Prop where
  stored : ∀ row ∈ s.oauth.rows, ∀ held, row.access = some held ∨ row.refresh = some held →
    s.live row.serverName = some held.origin
  acts : ∀ a ∈ s.acts, a.OnOwn

/-! ### The window -/

section
variable (p : Platform)

/-- `accessToken` goes on from the decrypted tokens to clear or refresh them. -/
def touches (now : ℕ) (name : Text) (options : AccessOptions) (row : Option OAuthRow) (s : McpCell) :
    Bool :=
  (tokens row).any fun tokens => !usable now options tokens &&
    ((tokens.refreshToken.filter fun held => decide (held.token ≠ [])).isNone ||
      (s.inFlight name).isNone)

/-- `callAuthorization` marks the server with a failure. -/
def marks (name : Text) (s : McpCell) : Bool :=
  (s.row name).any fun row => decide (row.auth = .oauth) && McpCell.authApplies p row none

/-- The piece does not act on what changed while it waited: the generation stayed as it was when the
    tokens were read, and no grant that is still stored was committed since. -/
def undisturbed (s : McpCell) (i : Input) : Frame → Bool
  | .opening name options row basis =>
    i.rejected.isSome || !touches i.now name options row s ||
      decide (s.generation name = basis.generation)
  | .answered name (.ok (.failed _ _)) basis =>
    !marks p name s || decide (s.committed name = basis.commits) ||
      ((s.oauthRow name).bind OAuthRow.access).isNone
  | _ => true

/-- The same for a step of the system. -/
def undisturbedStep (g : Coop.Config (mcp p)) : Coop.Event (mcp p) → Bool
  | .call _ _ => true
  | .resume t i =>
    match g.pool t with
    | some (_, f) => undisturbed p g.shared i f
    | none => true

end

/-! ### What a piece may do to grants -/

/-- What was found under the name is not ahead of it, and while nothing bumped the generation the grant
    found is the one that is live. -/
structure Basis.Valid (s : McpCell) (name : Text) (b : Basis) : Prop where
  generation : b.generation ≤ s.generation name
  commits : b.commits ≤ s.committed name
  same : s.generation name = b.generation → s.live name = b.origin
  kept : s.committed name = b.commits → s.live name = none ∨ s.live name = b.origin

/-- **What a piece may do to grants.** The live grant changes only with the generation, and to another
    one only by a commit; the stored tokens still descend from it; whoever touched it had started from
    it; and what a refresh ended with is about a grant it found. -/
structure Safe (s s' : McpCell) : Prop where
  generation : ∀ n, s.generation n ≤ s'.generation n
  committed : ∀ n, s.committed n ≤ s'.committed n
  same : ∀ n, s'.generation n = s.generation n → s'.live n = s.live n
  kept : ∀ n, s'.committed n = s.committed n → s'.live n = none ∨ s'.live n = s.live n
  descends : (∀ n, Descends (s.oauthRow n) (s.live n)) → ∀ n, Descends (s'.oauthRow n) (s'.live n)
  acts : ∀ a ∈ s'.acts, a ∈ s.acts ∨ a.OnOwn
  settled : ∀ n task x, s'.settled n task = some x → s.settled n task = some x ∨ x.2.Valid s' n

section
variable {s s' s'' : McpCell} {name : Text} {now : ℕ}

theorem Safe.refl (s : McpCell) : Safe s s := by
  constructor
  · exact fun _ => le_rfl
  · exact fun _ => le_rfl
  · exact fun _ _ => rfl
  · exact fun _ _ => .inr rfl
  · exact fun h => h
  · exact fun _ ha => .inl ha
  · exact fun _ _ _ hx => .inl hx

/-- What was found stays a lower bound of what a safe piece leaves. -/
theorem Basis.Valid.mono {b : Basis} (h : b.Valid s name) (hsafe : Safe s s') : b.Valid s' name := by
  have hgeneration := hsafe.generation name
  have hcommitted := hsafe.committed name
  have hle := h.generation
  have hle' := h.commits
  constructor
  · omega
  · omega
  · intro heq
    rw [hsafe.same name (by omega)]
    exact h.same (by omega)
  · intro heq
    rcases hsafe.kept name (by omega) with hnone | hlive
    · exact .inl hnone
    · rw [hlive]
      exact h.kept (by omega)

theorem Safe.trans (h : Safe s s') (h' : Safe s' s'') : Safe s s'' := by
  constructor
  · exact fun n => le_trans (h.generation n) (h'.generation n)
  · exact fun n => le_trans (h.committed n) (h'.committed n)
  · intro n heq
    have h₁ := h.generation n
    have h₂ := h'.generation n
    rw [h'.same n (by omega), h.same n (by omega)]
  · intro n heq
    have h₁ := h.committed n
    have h₂ := h'.committed n
    rcases h'.kept n (by omega) with hnone | hlive
    · exact .inl hnone
    · rw [hlive]
      exact h.kept n (by omega)
  · exact fun hall => h'.descends (h.descends hall)
  · intro a ha
    rcases h'.acts a ha with ha | hown
    · exact h.acts a ha
    · exact .inr hown
  · intro n task x hx
    rcases h'.settled n task x hx with hx | hvalid
    · rcases h.settled n task x hx with hx | hvalid
      · exact .inl hx
      · exact .inr (hvalid.mono h')
    · exact .inr hvalid

/-- The piece leaves every token and every count alone. -/
structure Quiet (s s' : McpCell) : Prop where
  access : ∀ n, (s'.oauthRow n).bind OAuthRow.access = (s.oauthRow n).bind OAuthRow.access
  refresh : ∀ n, (s'.oauthRow n).bind OAuthRow.refresh = (s.oauthRow n).bind OAuthRow.refresh
  generation : s'.generation = s.generation
  committed : s'.committed = s.committed
  live : s'.live = s.live
  acts : s'.acts = s.acts
  settled : s'.settled = s.settled

theorem Quiet.trans (h : Quiet s s') (h' : Quiet s' s'') : Quiet s s'' := by
  constructor
  · exact fun n => (h'.access n).trans (h.access n)
  · exact fun n => (h'.refresh n).trans (h.refresh n)
  · exact h'.generation.trans h.generation
  · exact h'.committed.trans h.committed
  · exact h'.live.trans h.live
  · exact h'.acts.trans h.acts
  · exact h'.settled.trans h.settled

theorem Quiet.safe (h : Quiet s s') : Safe s s' := by
  constructor
  · exact fun n => le_of_eq (congrFun h.generation n).symm
  · exact fun n => le_of_eq (congrFun h.committed n).symm
  · exact fun n _ => congrFun h.live n
  · exact fun n _ => .inr (congrFun h.live n)
  · intro hall n
    rw [h.live]
    constructor
    · rw [h.access]
      exact (hall n).access
    · intro held hheld
      rw [h.refresh] at hheld
      exact (hall n).refresh held hheld
  · intro a ha
    exact .inl (h.acts ▸ ha)
  · intro n task x hx
    exact .inl (h.settled ▸ hx)

/-! ### The statements that leave the tokens alone -/

theorem quiet_updateOAuth {change : OAuthRow → OAuthRow}
    {hname : ∀ row, (change row).serverName = row.serverName}
    (haccess : ∀ row, (change row).access = row.access)
    (hrefresh : ∀ row, (change row).refresh = row.refresh) :
    Quiet s (s.updateOAuth name change hname) := by
  refine ⟨fun n => ?_, fun n => ?_, rfl, rfl, rfl, rfl, rfl⟩
  · rw [McpCell.oauthRow_updateOAuth]
    split
    · rw [Option.bind_map]
      exact congrArg _ (funext haccess)
    · rfl
  · rw [McpCell.oauthRow_updateOAuth]
    split
    · rw [Option.bind_map]
      exact congrArg _ (funext hrefresh)
    · rfl

theorem quiet_ensureRow : Quiet s (s.ensureRow now name) := by
  refine ⟨fun n => ?_, fun n => ?_, rfl, rfl, rfl, rfl, rfl⟩
  · rw [McpCell.oauthRow_ensureRow]
    split
    · cases s.oauthRow n with
      | none => rfl
      | some row => rfl
    · rfl
  · rw [McpCell.oauthRow_ensureRow]
    split
    · cases s.oauthRow n with
      | none => rfl
      | some row => rfl
    · rfl

theorem quiet_writeClient (mode : McpOAuthClientMode) (client : SealedClient) :
    Quiet s (s.writeClient now name mode client) :=
  quiet_ensureRow.trans (quiet_updateOAuth (fun _ => rfl) fun _ => rfl)

theorem quiet_saveDiscovery (discovery : OAuthDiscoveryState) :
    Quiet s (s.saveDiscovery now name discovery) :=
  quiet_ensureRow.trans (quiet_updateOAuth (fun _ => rfl) fun _ => rfl)

theorem quiet_saveChallenge (challenge : Option Text) :
    Quiet s (s.saveChallenge now name challenge) := by
  unfold McpCell.saveChallenge
  exact quiet_ensureRow.trans (quiet_updateOAuth (fun _ => rfl) fun _ => rfl)

theorem quiet_wroteOAuth (id : Text) : Quiet s (s.wroteOAuth name id) :=
  quiet_updateOAuth (fun _ => rfl) fun _ => rfl

/-- A piece that keeps the OAuth rows and the history of grants is quiet. -/
theorem quiet_of_eq (hoauth : s'.oauth = s.oauth) (hgeneration : s'.generation = s.generation)
    (hcommitted : s'.committed = s.committed) (hlive : s'.live = s.live) (hacts : s'.acts = s.acts)
    (hsettled : s'.settled = s.settled) : Quiet s s' := by
  have hrow : ∀ n, s'.oauthRow n = s.oauthRow n := by
    intro n
    unfold McpCell.oauthRow
    rw [hoauth]
  refine ⟨fun n => ?_, fun n => ?_, hgeneration, hcommitted, hlive, hacts, hsettled⟩
  · rw [hrow]
  · rw [hrow]

theorem Quiet.refl (s : McpCell) : Quiet s s := quiet_of_eq rfl rfl rfl rfl rfl rfl

theorem quiet_setDiscovery (p : Platform) (outcome : McpDiscoveryOutcome) :
    Quiet s (s.setDiscovery p now name outcome).2 := by
  unfold McpCell.setDiscovery
  split
  · exact Quiet.refl s
  · split
    · split
      · exact Quiet.refl s
      · split
        · refine Quiet.trans ?_ (quiet_saveChallenge _)
          exact quiet_of_eq rfl rfl rfl rfl rfl rfl
        · exact quiet_of_eq rfl rfl rfl rfl rfl rfl
    · exact quiet_of_eq rfl rfl rfl rfl rfl rfl
    · exact quiet_of_eq rfl rfl rfl rfl rfl rfl

theorem quiet_setEnabled (enabled : Bool) : Quiet s (s.setEnabled now name enabled).2 := by
  unfold McpCell.setEnabled
  split
  · exact Quiet.refl s
  · exact quiet_of_eq rfl rfl rfl rfl rfl rfl

theorem quiet_setUsage (usage : Integrations.IntegrationUsage) :
    Quiet s (s.setUsage now name usage).2 := by
  unfold McpCell.setUsage
  split
  · exact Quiet.refl s
  · exact quiet_of_eq rfl rfl rfl rfl rfl rfl

theorem quiet_markOAuth : Quiet s (s.markOAuth now name) := quiet_of_eq rfl rfl rfl rfl rfl rfl

theorem quiet_wroteServer {id : Text} : Quiet s (s.wroteServer name id) :=
  quiet_of_eq rfl rfl rfl rfl rfl rfl

theorem quiet_saveRow (p : Platform) (fresh : Text) (existing : Option ServerRow)
    (input : SaveInput) : Quiet s (s.saveRow p now fresh existing input) :=
  quiet_of_eq rfl rfl rfl rfl rfl rfl

/-! ### The statements on grants -/

/-- No grant of the name is live any more, and nothing of one is stored. -/
structure Drops (name : Text) (s s' : McpCell) : Prop where
  others : ∀ n, n ≠ name → s'.oauthRow n = s.oauthRow n
  access : (s'.oauthRow name).bind OAuthRow.access = none
  refresh : (s'.oauthRow name).bind OAuthRow.refresh = none
  generation : s'.generation = Function.update s.generation name (s.generation name + 1)
  live : s'.live = Function.update s.live name none
  committed : s'.committed = s.committed
  acts : s'.acts = s.acts
  settled : s'.settled = s.settled

theorem Drops.safe (h : Drops name s s') : Safe s s' := by
  constructor
  · intro n
    rw [h.generation]
    by_cases hn : n = name
    · subst hn
      rw [Function.update_self]
      omega
    · rw [Function.update_of_ne hn]
  · exact fun n => le_of_eq (congrFun h.committed n).symm
  · intro n heq
    rw [h.generation] at heq
    by_cases hn : n = name
    · subst hn
      rw [Function.update_self] at heq
      omega
    · rw [h.live, Function.update_of_ne hn]
  · intro n _
    rw [h.live]
    by_cases hn : n = name
    · subst hn
      exact .inl (Function.update_self ..)
    · exact .inr (Function.update_of_ne hn ..)
  · intro hall n
    rw [h.live]
    by_cases hn : n = name
    · subst hn
      rw [Function.update_self]
      constructor
      · rw [h.access]
        rfl
      · intro held hheld
        rw [h.refresh] at hheld
        exact absurd hheld (by simp)
    · rw [Function.update_of_ne hn, h.others n hn]
      exact hall n
  · intro a ha
    exact .inl (h.acts ▸ ha)
  · intro n task x hx
    exact .inl (h.settled ▸ hx)

theorem drops_clearTokens : Drops name s (s.clearTokens now name) := by
  refine ⟨?_, ?_, ?_, rfl, rfl, rfl, rfl, rfl⟩
  · intro n hn
    rw [McpCell.oauthRow_clearTokens, if_neg hn]
  · rw [McpCell.oauthRow_clearTokens, if_pos rfl]
    cases s.oauthRow name with
    | none => rfl
    | some row => rfl
  · rw [McpCell.oauthRow_clearTokens, if_pos rfl]
    cases s.oauthRow name with
    | none => rfl
    | some row => rfl

theorem safe_clearTokens : Safe s (s.clearTokens now name) := drops_clearTokens.safe

theorem safe_clearClient : Safe s (s.clearClient now name) := by
  unfold McpCell.clearClient
  refine Safe.trans (Quiet.safe ?_) safe_clearTokens
  refine quiet_updateOAuth ?_ ?_
  · exact fun _ => rfl
  · exact fun _ => rfl

theorem drops_clear : Drops name s (s.clear name) := by
  refine ⟨?_, ?_, ?_, rfl, rfl, rfl, rfl, rfl⟩
  · intro n hn
    rw [McpCell.oauthRow_clear, if_neg hn]
  · rw [McpCell.oauthRow_clear, if_pos rfl]
    rfl
  · rw [McpCell.oauthRow_clear, if_pos rfl]
    rfl

theorem safe_clear : Safe s (s.clear name) := drops_clear.safe

theorem safe_remove : Safe s (s.remove name).2 := by
  have hrows : Quiet (s.clear name) (s.remove name).2 := quiet_of_eq rfl rfl rfl rfl rfl rfl
  exact safe_clear.trans hrows.safe

theorem safe_commitNew (tokens : SealedTokens) :
    Safe s { s.writeTokens now name tokens s.grants true with
      grants := s.grants + 1
      committed := Function.update s.committed name (s.committed name + 1)
      live := Function.update s.live name (some s.grants) } := by
  have hgeneration : (s.writeTokens now name tokens s.grants true).generation =
      Function.update s.generation name (s.generation name + 1) := rfl
  have hrow := @McpCell.oauthRow_writeTokens_new s name now tokens s.grants
  constructor
  · intro n
    rw [hgeneration]
    by_cases hn : n = name
    · subst hn
      rw [Function.update_self]
      omega
    · rw [Function.update_of_ne hn]
  · intro n
    show s.committed n ≤ Function.update s.committed name (s.committed name + 1) n
    by_cases hn : n = name
    · subst hn
      rw [Function.update_self]
      omega
    · rw [Function.update_of_ne hn]
  · intro n heq
    rw [hgeneration] at heq
    by_cases hn : n = name
    · subst hn
      rw [Function.update_self] at heq
      omega
    · exact Function.update_of_ne hn ..
  · intro n heq
    replace heq : Function.update s.committed name (s.committed name + 1) n = s.committed n := heq
    by_cases hn : n = name
    · subst hn
      rw [Function.update_self] at heq
      omega
    · exact .inr (Function.update_of_ne hn ..)
  · intro hall n
    show Descends ((s.writeTokens now name tokens s.grants true).oauthRow n)
      (Function.update s.live name (some s.grants) n)
    rw [hrow]
    by_cases hn : n = name
    · subst hn
      rw [if_pos rfl, Function.update_self]
      refine ⟨rfl, fun held hheld => ?_⟩
      -- a response without a refresh token leaves none
      cases hrefresh : tokens.refresh with
      | none => simp [McpCell.withTokens, hrefresh] at hheld
      | some refresh =>
        simp only [McpCell.withTokens, hrefresh, Option.bind_some, Option.some.injEq] at hheld
        rw [← hheld]
    · rw [if_neg hn, Function.update_of_ne hn]
      exact hall n
  · exact fun a ha => .inl ha
  · exact fun n task x hx => .inl hx

/-- A commit makes its grant the live one. -/
theorem safe_commitGrant (tokens : SealedTokens) (savedClient : Option SealedClient) :
    Safe s (s.commitGrant now name tokens savedClient) := by
  cases savedClient with
  | none => exact safe_commitNew tokens
  | some client => exact (quiet_writeClient _ client).safe.trans (safe_commitNew tokens)

/-- A refresh of the live grant keeps it. -/
theorem safe_writeTokens {origin : ℕ} (tokens : SealedTokens) (hlive : s.live name = some origin) :
    Safe s (s.writeTokens now name tokens origin false) := by
  constructor
  · exact fun _ => le_rfl
  · exact fun _ => le_rfl
  · exact fun _ _ => rfl
  · exact fun _ _ => .inr rfl
  · intro hall n
    rw [McpCell.oauthRow_writeTokens_refreshed]
    show Descends _ (s.live n)
    by_cases hn : n = name
    · subst hn
      rw [if_pos rfl]
      have hold := hall n
      cases hrow : s.oauthRow n with
      | none =>
        have := hold.access
        rw [hrow, hlive] at this
        exact absurd this (by simp)
      | some row =>
        rw [hrow] at hold
        refine ⟨hlive.symm, fun held hheld => ?_⟩
        cases hrefresh : tokens.refresh with
        | none =>
          refine hold.refresh held ?_
          simpa [McpCell.withTokens, hrefresh] using hheld
        | some refresh =>
          simp only [McpCell.withTokens, hrefresh, Option.map_some, Option.bind_some,
            Option.some.injEq] at hheld
          rw [← hheld, hlive]
    · rw [if_neg hn]
      exact hall n
  · exact fun a ha => .inl ha
  · exact fun n task x hx => .inl hx

/-- An operation on the grant that it started from, or where none is live. -/
theorem safe_act {basis : Basis} (kind : ActKind)
    (hown : ∀ grant, s.live name = some grant → basis.origin = some grant) :
    Safe s (s.act kind name basis) := by
  constructor
  · exact fun _ => le_rfl
  · exact fun _ => le_rfl
  · exact fun _ _ => rfl
  · exact fun _ _ => .inr rfl
  · exact fun hall => hall
  · intro a ha
    rcases List.mem_cons.mp ha with rfl | ha
    · exact .inr hown
    · exact .inl ha
  · exact fun n task x hx => .inl hx

/-! ### Where a call stands -/

/-- A refresh started in the generation it read its tokens in, from the grant that was live then. -/
structure Refresh.Valid (s : McpCell) (r : Refresh) : Prop where
  basis : r.basis.Valid s r.name
  startedAt : r.startedAt = r.basis.generation
  origin : r.basis.origin = some r.refreshToken.origin

/-- What a call that waits has read is still a lower bound of what there is. -/
def FrameInv (s : McpCell) : Frame → Prop
  | .opening name _ row basis =>
    basis.Valid s name ∧
      ∀ held, row.bind OAuthRow.refresh = some held → basis.origin = some held.origin
  | .openingClient r _ => r.Valid s
  | .refreshing r _ => r.Valid s
  | .sealing r _ => r.Valid s
  | .settling name _ _ basis => basis.Valid s name
  | .answered name _ basis => basis.Valid s name
  | _ => True

theorem FrameInv.mono (hsafe : Safe s s') {f : Frame} (h : FrameInv s f) : FrameInv s' f := by
  cases f with
  | opening name options row basis => exact ⟨h.1.mono hsafe, h.2⟩
  | openingClient r row => exact ⟨h.basis.mono hsafe, h.startedAt, h.origin⟩
  | refreshing r client => exact ⟨h.basis.mono hsafe, h.startedAt, h.origin⟩
  | sealing r next => exact ⟨h.basis.mono hsafe, h.startedAt, h.origin⟩
  | settling name task result basis => exact Basis.Valid.mono h hsafe
  | answered name result basis => exact Basis.Valid.mono h hsafe
  | _ => trivial

/-- The invariant of the cell. -/
structure CellInv (s : McpCell) : Prop where
  descends : ∀ n, Descends (s.oauthRow n) (s.live n)
  settled : ∀ n task x, s.settled n task = some x → x.2.Valid s n
  acts : ∀ a ∈ s.acts, a.OnOwn

theorem CellInv.mono (h : CellInv s) (hsafe : Safe s s') : CellInv s' := by
  constructor
  · exact hsafe.descends h.descends
  · intro n task x hx
    rcases hsafe.settled n task x hx with hx | hvalid
    · exact (h.settled n task x hx).mono hsafe
    · exact hvalid
  · intro a ha
    rcases hsafe.acts a ha with ha | hown
    · exact h.acts a ha
    · exact hown

/-- A safe piece, after which the call waits with a valid frame. -/
structure Continues (s : McpCell) (r : McpCell × Frame) : Prop where
  safe : Safe s r.1
  frame : FrameInv r.1 r.2

/-- A safe piece, after which the call waits with a valid frame or has returned. -/
structure Runs (s : McpCell) (r : McpCell × (Frame ⊕ Ret)) : Prop where
  safe : Safe s r.1
  frame : ∀ f, r.2 = .inl f → FrameInv r.1 f

theorem Continues.runs {r : McpCell × Frame} (h : Continues s r) : Runs s (r.1, .inl r.2) := by
  refine ⟨h.safe, fun f hf => ?_⟩
  rw [← Sum.inl.inj hf]
  exact h.frame

/-- A safe piece from which the call returns. -/
theorem Safe.returns (h : Safe s s') (ret : Ret) : Runs s (s', .inr ret) :=
  ⟨h, fun _ hf => absurd hf (by simp)⟩

/-- A safe piece after which the call waits for something that is not about a grant. -/
theorem Safe.waits (h : Safe s s') {f : Frame} (hf : ∀ t, FrameInv t f) : Runs s (s', .inl f) := by
  refine ⟨h, fun f' heq => ?_⟩
  rw [← Sum.inl.inj heq]
  exact hf s'

/-! ### The functions -/

/-- The refresh token of a token set is the one of the row. -/
theorem refreshToken_of_tokens {row : Option OAuthRow} {set : McpOAuthTokenSet}
    (h : tokens row = some set) : set.refreshToken = row.bind OAuthRow.refresh := by
  obtain ⟨row, rfl, hset⟩ := Option.bind_eq_some_iff.mp h
  obtain ⟨access, -, rfl⟩ := Option.map_eq_some_iff.mp hset
  rfl

/-- In the generation of a basis, what started from it is about the live grant. -/
theorem Basis.Valid.own {b : Basis} (h : b.Valid s name) (heq : s.generation name = b.generation) :
    ∀ grant, s.live name = some grant → b.origin = some grant := by
  intro grant hgrant
  rw [← h.same heq]
  exact hgrant

theorem continues_openedTokens {options : AccessOptions} {row : Option OAuthRow} {basis : Basis}
    (hbasis : basis.Valid s name)
    (hrow : ∀ held, row.bind OAuthRow.refresh = some held → basis.origin = some held.origin)
    (hguard : touches now name options row s = true → s.generation name = basis.generation) :
    Continues s (openedTokens now name options row basis s) := by
  unfold openedTokens
  cases htokens : tokens row with
  | none => exact ⟨Safe.refl s, hbasis⟩
  | some set =>
    show Continues s (if usable now options set then _ else _)
    by_cases husable : usable now options set = true
    · rw [if_pos husable]
      exact ⟨Safe.refl s, hbasis⟩
    rw [if_neg husable]
    rw [Bool.not_eq_true] at husable
    cases hrefresh : set.refreshToken.filter fun held => decide (held.token ≠ []) with
    | none =>
      have heq : s.generation name = basis.generation := by
        refine hguard ?_
        rw [touches, htokens, Option.any_some, husable, hrefresh]
        rfl
      have hsafe := (safe_act .clear (hbasis.own heq)).trans (@safe_clearTokens _ name now)
      exact ⟨hsafe, hbasis.mono hsafe⟩
    | some refreshToken =>
      cases hflight : s.inFlight name with
      | some task =>
        exact ⟨Safe.refl s, trivial⟩
      | none =>
        have heq : s.generation name = basis.generation := by
          refine hguard ?_
          simp [touches, htokens, husable, hflight]
        have hheld : row.bind OAuthRow.refresh = some refreshToken := by
          rw [← refreshToken_of_tokens htokens]
          exact (Option.filter_eq_some_iff.mp hrefresh).1
        have hsafe : Safe s { s with
            inFlight := Function.update s.inFlight name (some s.nextTask)
            nextTask := s.nextTask + 1 } := by
          refine Quiet.safe ?_
          exact quiet_of_eq rfl rfl rfl rfl rfl rfl
        exact ⟨hsafe, hbasis.mono hsafe, heq, hrow refreshToken hheld⟩

/-- A refresh that was not changed under is about the live grant. -/
theorem Refresh.Valid.unchanged {r : Refresh} (h : r.Valid s) (hchanged : changed r s = false) :
    s.generation r.name = r.basis.generation := by
  rw [changed, Bool.or_eq_false_iff, decide_eq_false_iff_not, not_not] at hchanged
  exact hchanged.1.trans h.startedAt

/-- A refresh ends with a result about the grant it started from. -/
theorem Refresh.Valid.settles {r : Refresh} (h : r.Valid s) (hsafe : Safe s s')
    (result : Except Thrown McpAccessResult) : Continues s (s', r.settle result) :=
  ⟨hsafe, h.basis.mono hsafe⟩

theorem continues_giveUp {r : Refresh} (h : r.Valid s) (hchanged : changed r s = false)
    (message : Text) : Continues s (giveUp now r message s) := by
  have hact := safe_act .clear (h.basis.own (h.unchanged hchanged))
  exact h.settles (hact.trans safe_clearTokens) _

theorem continues_openedClient {r : Refresh} (h : r.Valid s) (row : Option OAuthRow) :
    Continues s (openedClient now r row s) := by
  unfold openedClient
  split
  · exact h.settles (Safe.refl s) _
  · rename_i hchanged
    rw [Bool.not_eq_true] at hchanged
    split
    · exact continues_giveUp h hchanged _
    · extract_lets otherIssuer
      split
      · exact continues_giveUp h hchanged _
      · exact ⟨Safe.refl s, h⟩

theorem continues_refreshFailed {r : Refresh} (h : r.Valid s) (client : McpOAuthClient)
    (error : RefreshError) : Continues s (refreshFailed now r client error s) := by
  unfold refreshFailed
  split
  · exact h.settles (Safe.refl s) _
  · rename_i hchanged
    rw [Bool.not_eq_true] at hchanged
    split
    · exact continues_giveUp h hchanged _
    · exact h.settles (Safe.refl s) _

theorem continues_sealedRefresh {r : Refresh} (h : r.Valid s) (next : OAuthTokens) :
    Continues s (sealedRefresh now r next s) := by
  unfold sealedRefresh
  split
  · exact h.settles (Safe.refl s) _
  · rename_i hchanged
    rw [Bool.not_eq_true] at hchanged
    have heq := h.unchanged hchanged
    have hlive : s.live r.name = some r.refreshToken.origin := by
      rw [h.basis.same heq]
      exact h.origin
    have hact := safe_act .overwrite (h.basis.own heq)
    exact h.settles (hact.trans (safe_writeTokens _ hlive)) _

theorem runs_authorization (row : ServerRow) : Runs s (s, authorization row) := by
  unfold authorization
  split
  · exact (Safe.refl s).returns _
  · exact (Safe.refl s).waits fun _ => trivial

/-- A call that starts to read the tokens reads the live grant. -/
theorem frameInv_accessToken (h : CellInv s) (name : Text) (options : AccessOptions) :
    FrameInv s (accessToken name options s) := by
  unfold accessToken
  split
  · trivial
  · have hdescends := h.descends name
    refine ⟨⟨le_rfl, le_rfl, fun _ => hdescends.access.symm, fun _ => .inr hdescends.access.symm⟩, ?_⟩
    intro held hheld
    show ((s.oauthRow name).bind OAuthRow.access).map Held.origin = some held.origin
    rw [hdescends.access]
    exact hdescends.refresh held hheld

theorem runs_callAuthorization (h : CellInv s) (name : Text) (options : AccessOptions) :
    Runs s (s, callAuthorization name options s) := by
  unfold callAuthorization
  split
  · exact (Safe.refl s).returns _
  · split
    · exact runs_authorization _
    · refine ⟨Safe.refl s, fun f hf => ?_⟩
      rw [← Sum.inl.inj hf]
      exact frameInv_accessToken h name options

theorem runs_answer (p : Platform) (h : CellInv s) {result : Except Thrown McpAccessResult}
    {basis : Basis} (hbasis : basis.Valid s name)
    (hguard : ∀ status message, result = .ok (.failed status message) → marks p name s = true →
      s.committed name = basis.commits ∨ (s.oauthRow name).bind OAuthRow.access = none) :
    Runs s (answer p now name result basis s) := by
  unfold answer
  split
  · exact (Safe.refl s).returns _
  · exact (Safe.refl s).returns _
  · rename_i status message
    split
    · exact (Safe.refl s).returns _
    · rename_i row hrow
      split
      · exact runs_authorization _
      · rename_i hauth
        rw [ne_eq, not_not] at hauth
        refine Safe.returns ?_ _
        refine Safe.trans ?_ (quiet_setDiscovery p _).safe
        split
        · rename_i happlies
          have hfound : s.row name = some row := by
            unfold McpCell.require at hrow
            split at hrow
            · rename_i found hfound
              rw [← Except.ok.inj hrow]
              exact hfound
            · exact absurd hrow (by simp)
          have hmarks : marks p name s = true := by
            simp [marks, hfound, hauth, happlies]
          refine safe_act .mark ?_
          intro grant hgrant
          rcases hguard status message rfl hmarks with hcommits | hnone
          · rcases hbasis.kept hcommits with hlive | hlive
            · exact absurd (hlive.symm.trans hgrant) (by simp)
            · rw [← hlive]
              exact hgrant
          · -- nothing is stored, so nothing is live
            have hlive := (h.descends name).access
            rw [hnone, hgrant] at hlive
            exact absurd hlive (by simp)
        · exact Safe.refl s

theorem runs_setPreregisteredClient (clientId : Text) (clientSecret : Option Text) :
    Runs s (setPreregisteredClient now name clientId clientSecret s) := by
  unfold setPreregisteredClient
  extract_lets clientId' clientSecret' broken
  split
  · exact (Safe.refl s).returns _
  · split
    · exact (Safe.refl s).returns _
    · exact safe_clearClient.waits fun _ => trivial

theorem runs_saveBegun (b : Beginning) : Runs s (saveBegun now b s) := by
  unfold saveBegun
  refine Safe.waits (Quiet.safe ?_) fun _ => trivial
  cases b.begun.discovery with
  | none => exact quiet_of_eq rfl rfl rfl rfl rfl rfl
  | some discovery =>
    have hprune : ∀ s : McpCell, Quiet s (s.prunePending now) :=
      fun s => quiet_of_eq rfl rfl rfl rfl rfl rfl
    exact ((quiet_saveDiscovery discovery).trans (quiet_wroteOAuth _)).trans (hprune _)

theorem runs_beginOAuth (b : Beginning) : Runs s (beginOAuth now b s) := by
  unfold beginOAuth
  extract_lets name
  split
  · exact (Safe.refl s).returns _
  · split
    · exact (Safe.refl s).returns _
    · split
      · exact (Safe.refl s).waits fun _ => trivial
      · exact runs_saveBegun b

theorem runs_probed (p : Platform) (record : McpServerRecord) (client : Option McpOAuthClient)
    (begun : Begun) : Runs s (probed p now record client begun s) := by
  unfold probed
  split
  · exact (Safe.refl s).returns _
  · exact runs_beginOAuth _

theorem runs_createPending (p : Platform) (b : Beginning) (startedAt : ℕ) :
    Runs s (createPending p b startedAt s) := by
  unfold createPending
  split
  · exact (Safe.refl s).returns _
  · refine Safe.returns (Quiet.safe ?_) _
    exact quiet_of_eq rfl rfl rfl rfl rfl rfl

/-- Parking a sign-in returns, or waits for the cell. -/
theorem runs_park (c : Claimed) (record : McpServerRecord) (phase message : Text) :
    Runs s (s, park c record phase message) := by
  unfold park
  split
  · exact (Safe.refl s).returns _
  · exact (Safe.refl s).waits fun _ => trivial

theorem runs_claimedRecord (c : Claimed) : Runs s (s, claimedRecord c s) := by
  unfold claimedRecord
  split
  · exact (Safe.refl s).returns _
  · split
    · exact (Safe.refl s).returns _
    · split
      · exact (Safe.refl s).returns _
      · split
        · exact runs_park c _ _ _
        · exact (Safe.refl s).waits fun _ => trivial

theorem runs_parkServer (p : Platform) (c : Claimed) (phase message : Text) :
    Runs s (parkServer p now c phase message s) := by
  unfold parkServer
  extract_lets name origin r written
  refine Safe.returns ?_ _
  have hdiscovery : Quiet s r.2 := quiet_setDiscovery p _
  split
  · exact (hdiscovery.trans quiet_wroteServer).safe
  · exact hdiscovery.safe

theorem runs_completeOAuth (p : Platform) (c : Claimed) (tokens : OAuthTokens)
    (savedClient : Option ClientInformation) :
    Runs s (completeOAuth p now c tokens savedClient s) := by
  unfold completeOAuth
  extract_lets name id committed
  split
  · exact (Safe.refl s).returns _
  · split
    · refine Safe.returns ?_ _
      have hcommit : Safe s committed := safe_commitGrant _ _
      refine hcommit.trans (Quiet.safe ?_)
      refine Quiet.trans ?_ quiet_wroteServer
      refine Quiet.trans ?_ quiet_markOAuth
      refine Quiet.trans ?_ (quiet_wroteOAuth id)
      exact quiet_of_eq rfl rfl rfl rfl rfl rfl
    · exact (Safe.refl s).returns _

/-! ### The pieces -/

theorem runs_save (p : Platform) (input : SaveInput) (i : Input) : Runs s (save p input i s) := by
  unfold save
  extract_lets existing cleared saved
  have hcleared : Safe s cleared := by
    show Safe s (if _ then _ else _)
    split
    · exact safe_clear
    · exact Safe.refl s
  split
  · exact (Safe.refl s).returns _
  · split
    · exact hcleared.waits fun _ => trivial
    · exact (hcleared.trans (quiet_saveRow p _ _ _).safe).returns _

theorem runs_begin (p : Platform) (h : CellInv s) (call : Call) (i : Input) :
    Runs s (begin p s call i) := by
  cases call with
  | save input => exact runs_save p input i
  | remove name => exact safe_remove.returns _
  | setDiscovery name outcome => exact (quiet_setDiscovery p outcome).safe.returns _
  | setEnabled name enabled => exact (quiet_setEnabled enabled).safe.returns _
  | setUsage name usage => exact (quiet_setUsage usage).safe.returns _
  | callAuthorization name options => exact runs_callAuthorization h name options
  | setClient name clientId clientSecret =>
    show Runs s (if _ then _ else _)
    split
    · exact (Safe.refl s).returns _
    · exact runs_setPreregisteredClient clientId clientSecret
  | clearClient name => exact safe_clearClient.returns _
  | startOAuth name =>
    simp only [begin]
    split
    · exact (Safe.refl s).returns _
    · exact (Safe.refl s).waits fun _ => trivial
  | finishOAuth input =>
    simp only [begin]
    split
    · exact (Safe.refl s).returns _
    · split
      · exact (Safe.refl s).returns _
      · refine Safe.waits (Quiet.safe ?_) fun _ => trivial
        exact quiet_of_eq rfl rfl rfl rfl rfl rfl

/-- The task of a refresh ends: its result is about a grant it found. -/
theorem safe_settle {task : ℕ} {result : Except Thrown McpAccessResult} {basis : Basis}
    (hbasis : basis.Valid s name) (inFlight : Text → Option ℕ) :
    Safe s { s with
      inFlight := inFlight
      settled := Function.update s.settled name
        (Function.update (s.settled name) task (some (result, basis))) } := by
  refine ⟨fun _ => le_rfl, fun _ => le_rfl, fun _ _ => rfl, fun _ _ => .inr rfl, fun h => h,
    fun _ ha => .inl ha, fun n t x hx => ?_⟩
  replace hx : Function.update s.settled name
    (Function.update (s.settled name) task (some (result, basis))) n t = some x := hx
  by_cases hn : n = name
  · subst hn
    rw [Function.update_self] at hx
    by_cases ht : t = task
    · subst ht
      rw [Function.update_self] at hx
      rw [← Option.some.inj hx]
      exact .inr ⟨hbasis.generation, hbasis.commits, hbasis.same, hbasis.kept⟩
    · rw [Function.update_of_ne ht] at hx
      exact .inl hx
  · rw [Function.update_of_ne hn] at hx
    exact .inl hx

/-- **One piece.** An undisturbed piece of any call is safe for every grant. -/
theorem runs_piece (p : Platform) (h : CellInv s) {f : Frame} (hf : FrameInv s f) (i : Input)
    (hguard : undisturbed p s i f = true) : Runs s (piece p s f i) := by
  unfold piece
  split
  -- the start of a call
  · exact runs_begin p h _ i
  · exact (Safe.refl s).returns _
  · exact (quiet_saveRow p _ _ _).safe.returns _
  -- the tokens are decrypted
  · exact ⟨Safe.refl s, fun f hf' => Sum.inl.inj hf' ▸ hf.1⟩
  · rename_i hrejected
    refine (continues_openedTokens hf.1 hf.2 fun htouch => ?_).runs
    rw [undisturbed, hrejected, htouch] at hguard
    exact of_decide_eq_true hguard
  · exact (Refresh.Valid.settles hf (Safe.refl s) _).runs
  · exact (continues_openedClient hf _).runs
  · split
    · exact (continues_refreshFailed hf _ _).runs
    · exact ⟨Safe.refl s, fun f hf' => Sum.inl.inj hf' ▸ hf⟩
  · exact (Refresh.Valid.settles hf (Safe.refl s) _).runs
  · exact (continues_sealedRefresh hf _).runs
  · exact (safe_settle hf _).waits fun _ => trivial
  · split
    · exact (Safe.refl s).waits fun _ => trivial
    · rename_i result basis hsettled
      exact ⟨Safe.refl s, fun f hf' => Sum.inl.inj hf' ▸ h.settled _ _ _ hsettled⟩
  -- the result of `accessToken`
  · refine runs_answer p h hf fun status message hresult hmarks => ?_
    subst hresult
    rw [undisturbed, hmarks, Bool.not_true, Bool.false_or, Bool.or_eq_true, decide_eq_true_eq,
      Option.isNone_iff_eq_none] at hguard
    exact hguard
  · exact (Safe.refl s).returns _
  · exact (Safe.refl s).returns _
  -- clients
  · exact (Safe.refl s).returns _
  · exact (quiet_writeClient _ _).safe.returns _
  -- a sign-in is begun
  · exact (Safe.refl s).waits fun _ => trivial
  · exact (Safe.refl s).returns _
  · exact (Safe.refl s).waits fun _ => trivial
  · split
    · exact (Safe.refl s).returns _
    · exact runs_probed p _ _ _
  · exact (Safe.refl s).returns _
  · exact ((quiet_writeClient _ _).trans (quiet_wroteOAuth _)).safe.waits fun _ => trivial
  · exact runs_saveBegun _
  · exact (Safe.refl s).returns _
  · exact runs_createPending p _ _
  -- a sign-in is finished
  · exact (Safe.refl s).returns _
  · exact (Safe.refl s).waits fun _ => trivial
  · exact (Safe.refl s).returns _
  · split
    · exact (Safe.refl s).waits fun _ => trivial
    · exact (Safe.refl s).returns _
  · exact runs_claimedRecord _
  · split
    · exact runs_park _ _ _ _
    · exact (Safe.refl s).waits fun _ => trivial
  · exact runs_parkServer p _ _ _
  · exact (Safe.refl s).returns _
  · exact runs_completeOAuth p _ _ _

end

/-! ### Runs -/

section
variable {p : Platform}

/-- The invariant of the system. -/
structure LineageInv (g : Coop.Config (mcp p)) : Prop where
  cell : CellInv g.shared
  frames : ∀ t c f, g.pool t = some (c, f) → FrameInv g.shared f

theorem lineageInv_step {g g' : Coop.Config (mcp p)} {e : Coop.Event (mcp p)} (h : LineageInv g)
    (hguard : undisturbedStep p g e = true) (hstep : Coop.step g e = some g') : LineageInv g' := by
  rcases Coop.step_ran hstep with ⟨t, c, rfl, -, rfl⟩ | ⟨t, i, c, f, out, rfl, hran⟩
  · refine ⟨h.cell, fun u c' f hu => ?_⟩
    rcases Coop.pool_update_cases hu with ⟨-, heq⟩ | ⟨-, hu⟩
    · obtain ⟨-, rfl⟩ := Prod.mk.inj (Option.some.inj heq)
      trivial
    · exact h.frames u c' f hu
  · have hf := h.frames t c f hran.before
    have hundisturbed : undisturbed p g.shared i f = true := by
      rw [undisturbedStep, hran.before] at hguard
      exact hguard
    have hpiece := runs_piece p h.cell hf i hundisturbed
    have hresume : piece p g.shared f i = (g'.shared, out) := by
      have hruns : resume p g.shared f i = some (g'.shared, out) := hran.runs
      unfold resume at hruns
      split at hruns
      · exact absurd hruns (by simp)
      · exact Option.some.inj hruns
    rw [hresume] at hpiece
    refine ⟨h.cell.mono hpiece.safe, fun u c' f' hu => ?_⟩
    rcases hran.pool u c' f' hu with ⟨-, hu⟩ | ⟨-, -, hout⟩
    · exact (h.frames u c' f' hu).mono hpiece.safe
    · exact hpiece.frame f' hout

theorem lineageInv_idle : LineageInv (Coop.idle emptyCell : Coop.Config (mcp p)) := by
  refine ⟨⟨fun n => ⟨rfl, ?_⟩, ?_, ?_⟩, ?_⟩
  · intro held hheld
    exact absurd hheld (by simp [Coop.idle, emptyCell, McpCell.oauthRow, Rows.find?])
  · intro n task x hx
    exact absurd hx (by simp [Coop.idle, emptyCell])
  · intro a ha
    exact absurd ha (by simp [Coop.idle, emptyCell])
  · intro t c f ht
    exact absurd ht (by simp [Coop.idle])

/-- What the invariant says of the stored rows. -/
theorem CellInv.lineage {s : McpCell} (h : CellInv s) : Lineage s := by
  refine ⟨fun row hrow held hheld => ?_, h.acts⟩
  have hfind : s.oauthRow row.serverName = some row := Rows.find?_eq_some.mpr ⟨hrow, rfl⟩
  have hdescends := h.descends row.serverName
  rw [hfind] at hdescends
  rcases hheld with haccess | hrefresh
  · rw [← hdescends.access, Option.bind_some, haccess]
    rfl
  · exact hdescends.refresh held hrefresh

/-- **The lineage of MCP tokens.** In every run whose steps are undisturbed, the stored tokens descend
    from the grant committed last and not cleared since, and no operation overwrote, cleared or marked
    a grant that it did not start from. -/
theorem mcp_lineage (g : Coop.Config (mcp p))
    (h : Reaches Coop.step (fun g e => undisturbedStep p g e = true) (Coop.idle emptyCell) g) :
    Lineage g.shared := by
  have hinv : LineageInv g := by
    refine h.invariant LineageInv ?_ lineageInv_idle
    exact fun s e s' hs hg he => lineageInv_step hs hg he
  exact hinv.cell.lineage

end

/-! ### Examples -/

def sampleUrl : Text := "https://mcp.example/sse"

def sampleOrigin : Text := "https://mcp.example"

def samplePlatform : Platform :=
  ⟨fun text => if sampleOrigin.isPrefixOf text then some sampleOrigin else none,
    "https://kody.example/mcp/callback"⟩

/-- The input of a piece that nothing goes wrong in. -/
def sampleInput (now : ℕ) (draw : Text) : Input :=
  ⟨now, draw, none, .error ⟨none, "offline"⟩, .error (.error "offline"), .error (.error "offline")⟩

def sampleRefreshed (now : ℕ) (tokens : OAuthTokens) : Input :=
  { sampleInput now "" with refreshed := .ok tokens }

def sampleTokens (access refresh : Text) : OAuthTokens :=
  ⟨access, some refresh, "Bearer", none, some 3600, none⟩

def sampleClient : ClientInformation := ⟨"client-1", none, none, "\x7b\x7d"⟩

/-- `n` pieces of one call in which nothing goes wrong. -/
def resumes (t n now : ℕ) : List (Coop.Event (mcp samplePlatform)) :=
  List.replicate n (.resume t (sampleInput now ""))

/-- A server is added, and found to ask for OAuth. -/
def addServer (t now : ℕ) (id : Text) (authorization : Option Text) (replace : Bool) :
    List (Coop.Event (mcp samplePlatform)) :=
  [.call t (.save ⟨"notes", sampleUrl, true, .any, authorization, replace⟩),
    .resume t (sampleInput now id)]

def askForOAuth (t now : ℕ) : List (Coop.Event (mcp samplePlatform)) :=
  .call t (.setDiscovery "notes"
    (.auth .authenticating ⟨"authorize", "Authorization required", now⟩ none none)) ::
  resumes t 1 now

/-- A sign-in is begun, up to the answer of the network. -/
def beginSignIn (t now : ℕ) (state : Text) : List (Coop.Event (mcp samplePlatform)) :=
  .call t (.startOAuth "notes") :: resumes t 3 now ++
    [.resume t { sampleInput now "" with
      begun := .ok ⟨"https://as.example/authorize", state, "verifier", .dynamic, some sampleClient,
        none⟩ }]

/-- Its callback arrives, and the code is exchanged. -/
def exchangeCode (t now : ℕ) (state access refresh : Text) :
    List (Coop.Event (mcp samplePlatform)) :=
  .call t (.finishOAuth ⟨state, some "code", none, none, none⟩) :: resumes t 4 now ++
    [.resume t { sampleInput now "" with exchanged := .ok (sampleTokens access refresh, none) }]

/-- A server with a grant. -/
def signedIn : List (Coop.Event (mcp samplePlatform)) :=
  addServer 0 1000 "mcp_1" none false ++ askForOAuth 0 2000 ++
    (beginSignIn 0 3000 "state-1" ++ resumes 0 3 3000) ++
    (exchangeCode 0 4000 "state-1" "access-1" "refresh-1" ++ resumes 0 1 4000)

/-- A call that forces a refresh, up to the decrypted tokens. -/
def forceRefresh (t now : ℕ) : List (Coop.Event (mcp samplePlatform)) :=
  .call t (.callAuthorization "notes" ⟨true, none⟩) :: resumes t 1 now

/-- What is stored for the server: the grants of its tokens, and the grant that is live. -/
def storedGrants (g : Coop.Config (mcp samplePlatform)) : List (Option ℕ × Option ℕ) × Option ℕ :=
  (g.shared.oauth.rows.map fun row => (row.access.map Held.origin, row.refresh.map Held.origin),
    g.shared.live "notes")

/-- A refresh of the live grant. -/
theorem mcp_lineage_refreshed : ∃ g,
    execGuarded Coop.step (undisturbedStep samplePlatform) (Coop.idle emptyCell)
      (signedIn ++ forceRefresh 0 5000 ++ resumes 0 2 5000 ++
        [.resume 0 (sampleRefreshed 5000 (sampleTokens "access-2" "refresh-2"))] ++
        resumes 0 4 6000) = some g ∧
    storedGrants g = ([(some 0, some 0)], some 0) ∧ Lineage g.shared := by
  have hrun : (execGuarded Coop.step (undisturbedStep samplePlatform) (Coop.idle emptyCell)
      (signedIn ++ forceRefresh 0 5000 ++ resumes 0 2 5000 ++
        [.resume 0 (sampleRefreshed 5000 (sampleTokens "access-2" "refresh-2"))] ++
        resumes 0 4 6000)).map storedGrants = some ([(some 0, some 0)], some 0) := by
    decide +kernel
  obtain ⟨g, hg, hseen⟩ := Option.map_eq_some_iff.mp hrun
  exact ⟨g, hg, hseen, mcp_lineage g (reaches_of_execGuarded (fun _ _ h => h) hg)⟩

/-- **Revived.**  A call reads the tokens of the first grant; while they are decrypted a second sign-in
    commits its grant; the call then refreshes the first grant and writes its tokens over the second. -/
theorem revivedGrant : ∃ g,
    @Reaches _ _ Coop.step (fun _ _ => True) (Coop.idle emptyCell : Coop.Config (mcp samplePlatform))
      g ∧
    storedGrants g = ([(some 0, some 0)], some 1) ∧ ¬ Lineage g.shared := by
  have hrun : (exec Coop.step (Coop.idle emptyCell)
      (signedIn ++ (beginSignIn 1 5000 "state-2" ++ resumes 1 3 5000) ++
        exchangeCode 1 6000 "state-2" "access-2" "refresh-2" ++ forceRefresh 2 7000 ++
        resumes 1 1 7000 ++ resumes 2 2 7000 ++
        [.resume 2 (sampleRefreshed 8000 (sampleTokens "access-1b" "refresh-1b"))] ++
        resumes 2 1 8000)).map (fun g => (storedGrants g,
          g.shared.oauth.rows.map fun row => decide (row.serverName = ("notes" : Text)))) =
      some (([(some 0, some 0)], some 1), [true]) := by
    decide +kernel
  obtain ⟨g, hg, hseen⟩ := Option.map_eq_some_iff.mp hrun
  obtain ⟨hgrants, hnames⟩ := Prod.mk.inj hseen
  refine ⟨g, reaches_of_exec hg, hgrants, fun h => ?_⟩
  obtain ⟨hrows, hlive⟩ := Prod.mk.inj hgrants
  obtain ⟨row, hrow, htokens⟩ := List.map_eq_singleton_iff.mp hrows
  rw [hrow, List.map_singleton, List.singleton_inj, decide_eq_true_eq] at hnames
  obtain ⟨held, haccess, horigin⟩ := Option.map_eq_some_iff.mp (Prod.mk.inj htokens).1
  -- the stored access token is of grant 0, the live grant is 1
  have hstored := h.stored row (by rw [hrow]; exact List.mem_singleton_self row) held (.inl haccess)
  rw [hnames, hlive, horigin] at hstored
  exact absurd hstored (by decide)

end KodyCelld.Mcp
