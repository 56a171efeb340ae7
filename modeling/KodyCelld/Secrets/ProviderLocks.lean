import KodyCelld.Secrets.ProviderCache

namespace KodyCelld.Secrets

open KodyCelld.Lib KodyCelld.Execute KodyCelld.Packages KodyCelld.Cells SecretProviderStore

/-!
# Locked bindings

A locked binding serves a ref only to packages with a grant on its canonical ref.  The check comes
first on the ref that was asked for, and again on the canonical ref that the run reported; values
that are cached keep theirs.

* `LocksHold` — what should hold after every sequence of calls;
* `sequences_locked` — and does.
-/

variable {gw : Gateway}

/-- A value injected while its provider was locked was reported under a canonical ref for which the
    package that made the request held a grant; ad hoc code had none. -/
def Injection.Granted (x : Injection) : Prop :=
  ∀ binding, x.store.get x.providerId = some binding → binding.locked = true →
    ∃ packageName report, x.packageName = some packageName ∧ x.report = some report ∧
      report.providerId = x.providerId ∧ report.value = x.value ∧
      x.store.isGranted x.providerId report.canonicalRef packageName = true

def LocksHold (g : Coop.Config (providers gw)) : Prop := ∀ x ∈ g.shared.injections, x.Granted

/-! ### What the check has found -/

/-- The binding of the provider, if there is one, lets the caller have the ref. -/
def Permitted (store : SecretProviderStore) (provider canonicalRef : Text)
    (packageName : Option Text) : Prop :=
  ∀ binding, store.get provider = some binding →
    store.permits binding canonicalRef packageName = true

/-- The value was reported under a canonical ref that the caller may have. -/
def Resolved.Cleared (store : SecretProviderStore) (packageName : Option Text) (x : Resolved) : Prop :=
  ∃ report, x.report = some report ∧ report.providerId = x.provider ∧ report.value = x.value ∧
    Permitted store x.provider report.canonicalRef packageName

/-- The bindings and the grants are the same. -/
def SameGrants (store store' : SecretProviderStore) : Prop :=
  store'.bindings = store.bindings ∧ store'.grants = store.grants

section
variable {store store' : SecretProviderStore} {packageName : Option Text}

theorem Permitted.same {provider canonicalRef : Text}
    (h : Permitted store provider canonicalRef packageName) (hsame : SameGrants store store') :
    Permitted store' provider canonicalRef packageName := by
  intro binding hbinding
  have hget : store.get provider = some binding := by
    unfold SecretProviderStore.get at hbinding ⊢
    rw [← hsame.1]
    exact hbinding
  have hpermits := h binding hget
  unfold permits isGranted at hpermits ⊢
  rw [hsame.2]
  exact hpermits

theorem Resolved.Cleared.same {x : Resolved} (h : x.Cleared store packageName)
    (hsame : SameGrants store store') : x.Cleared store' packageName := by
  obtain ⟨report, hreport, hprovider, hvalue, hpermitted⟩ := h
  exact ⟨report, hreport, hprovider, hvalue, hpermitted.same hsame⟩

/-- A value that was cleared is injected with a grant, where the binding is locked. -/
theorem Resolved.Cleared.granted {x : Resolved} (h : x.Cleared store packageName) :
    Injection.Granted ⟨packageName, x.provider, x.value, x.report, store⟩ := by
  intro binding hbinding hlocked
  obtain ⟨report, hreport, hprovider, hvalue, hpermitted⟩ := h
  have hpermits := hpermitted binding hbinding
  unfold permits at hpermits
  simp only [hlocked] at hpermits
  cases packageName with
  | none => exact absurd hpermits (by simp)
  | some packageName =>
    rw [(Rows.find?_eq_some.mp hbinding).2] at hpermits
    exact ⟨packageName, report, rfl, hreport, hprovider, hvalue, hpermits⟩

/-- What a check that passed has judged: the canonical ref of what is cached, or the ref itself;
    unless it was provisional. -/
theorem authorize_permits {now : ℕ} {provider ref : Text} {strict : Bool} {auth : Authorized}
    (h : (secretProviderAuthorize store now provider ref packageName strict).1 = .ok auth) :
    (auth.provisional = false ∧ Permitted store provider
        ((auth.cached.map CachedProviderValue.canonicalRef).getD ref) packageName) ∨
      (auth.provisional = true ∧ strict = false ∧ auth.cached = none) := by
  have hok := authorize_ok h
  unfold secretProviderAuthorize at h
  split at h
  · exact absurd h (by simp)
  rename_i binding hbinding
  dsimp only at h
  split at h
  · rename_i hpermits
    obtain rfl := Except.ok.inj h
    have hsame : SameGrants (store.cacheGet now provider ref).2 store :=
      ⟨(cacheGet_bindings ..).symm, (cacheGet_grants ..).symm⟩
    refine .inl ⟨rfl, Permitted.same (fun found hfound => ?_) hsame⟩
    have hget : store.get provider = some found := by
      unfold SecretProviderStore.get at hfound ⊢
      rw [← cacheGet_bindings]
      exact hfound
    obtain rfl := Option.some.inj (hget.symm.trans hbinding)
    exact hpermits
  · split at h
    · rename_i hprovisional
      obtain rfl := Except.ok.inj h
      refine .inr ⟨rfl, ?_, rfl⟩
      rw [Bool.and_eq_true, Bool.and_eq_true, Bool.and_eq_true] at hprovisional
      simpa using hprovisional.1.1.1
    · exact absurd h (by simp)

end

/-! ### What a call in flight holds -/

/-- What a call has established about the refs it resolves, as long as no other call runs. -/
def Held (store : SecretProviderStore) : Frame → Prop
  | .authorizing x => ∀ r ∈ x.done, r.Cleared store x.request.packageName
  | .gettingPackage x auth => (∀ r ∈ x.done, r.Cleared store x.request.packageName) ∧
      (auth.provisional = false → Permitted store x.provider x.ref x.request.packageName)
  | .running x provisional _ => (∀ r ∈ x.done, r.Cleared store x.request.packageName) ∧
      (provisional = false → Permitted store x.provider x.ref x.request.packageName)
  | .caching x provisional _ _ => (∀ r ∈ x.done, r.Cleared store x.request.packageName) ∧
      (provisional = false → Permitted store x.provider x.ref x.request.packageName)
  | .rechecking x _ report => (∀ r ∈ x.done, r.Cleared store x.request.packageName) ∧
      report.providerId = x.provider ∧
      ∀ e, store.lookup (cacheKey x.provider report.canonicalRef) = some e →
        e.canonicalRef = report.canonicalRef
  | _ => True

/-- What a piece injects was granted, and what it has learned it holds. -/
structure Locked (s : ProviderState) (out : ProviderState × (Frame ⊕ Ret)) : Prop where
  injections : ∀ x ∈ out.1.injections, x ∈ s.injections ∨ x.Granted
  frame : ∀ f', out.2 = .inl f' → Held out.1.store f'

section
variable {s : ProviderState} {i : Input}

theorem Locked.idle {s' : ProviderState} {ret : Ret} (h : s'.injections = s.injections) :
    Locked s (s', .inr ret) :=
  ⟨fun _ hx => .inl (h ▸ hx), fun _ h => absurd h Sum.inr_ne_inl⟩

theorem proceed_locked {s' : ProviderState} (hs' : s'.injections = s.injections)
    {request : ProviderRequest} {rest : List (Text × Text)} {done : List Resolved}
    (h : ∀ r ∈ done, r.Cleared s'.store request.packageName) :
    Locked s (proceed s' request rest done) := by
  unfold proceed
  split
  · refine ⟨fun x hx => .inl (hs' ▸ hx), fun f' hout => ?_⟩
    rw [← Sum.inl.inj hout]
    exact h
  · refine ⟨fun x hx => ?_, fun f' hout => absurd hout Sum.inr_ne_inl⟩
    rcases List.mem_append.mp hx with hnew | hold
    · obtain ⟨r, hr, rfl⟩ := List.mem_map.mp hnew
      exact .inr (h r hr).granted
    · exact .inl (hs' ▸ hold)

theorem admitHost_locked {s' : ProviderState} (hs' : s'.injections = s.injections) {x : Pending}
    (h : ∀ r ∈ x.done, r.Cleared s'.store x.request.packageName) {value : Text} {hosts : List Text}
    {report : Option Report}
    (hnew : Resolved.Cleared s'.store x.request.packageName ⟨x.provider, x.ref, value, report⟩) :
    Locked s (admitHost s' x value hosts report) := by
  unfold admitHost
  split
  · refine proceed_locked hs' fun r hr => ?_
    rcases List.mem_append.mp hr with hold | hlast
    · exact h r hold
    · rw [List.mem_singleton.mp hlast]
      exact hnew
  · exact .idle hs'

/-- The canonical ref of a cached value is the one it was reported under. -/
theorem authorizePiece_locked (hs : Traced s) {x : Pending}
    (h : ∀ r ∈ x.done, r.Cleared s.store x.request.packageName) (now : ℕ) :
    Locked s (authorizePiece s x now) := by
  have hstore := @authorize_store s.store now x.provider x.ref x.request.packageName false
  have hok := @authorize_ok s.store now x.provider x.ref x.request.packageName false
  have hpermits := @authorize_permits s.store x.request.packageName now x.provider x.ref false
  unfold authorizePiece
  split
  · exact .idle rfl
  · rename_i auth store heq
    rw [heq] at hstore hok hpermits
    have hsame : SameGrants s.store store := ⟨hstore.1, hstore.2.1⟩
    obtain ⟨hbinding, hcached⟩ := hok rfl
    split
    · rename_i hnone
      refine ⟨fun _ => .inl, fun f' hout => ?_⟩
      rw [← Sum.inl.inj hout]
      refine ⟨fun r hr => (h r hr).same hsame, fun hprovisional => ?_⟩
      rcases hpermits rfl with ⟨-, hpermitted⟩ | ⟨hyes, -, -⟩
      · rw [hnone] at hpermitted
        exact hpermitted.same hsame
      · exact absurd (hyes.symm.trans hprovisional) (by simp)
    · rename_i e hcache
      have hlookup := hcached e hcache
      obtain ⟨report, hreport, htracks⟩ := hs.cached _ e hlookup
      obtain ⟨ref, hkey⟩ := htracks.key
      have hprovider : x.provider = report.providerId := by
        have hvalid : secretProviderIdPattern x.provider = true := hs.bound _ (by rw [hbinding]; rfl)
        exact (cacheKey_inj hkey hvalid htracks.provider).1
      apply admitHost_locked
      · rfl
      · exact fun r hr => (h r hr).same hsame
      refine ⟨report, hreport, hprovider.symm, htracks.value, ?_⟩
      rcases hpermits rfl with ⟨-, hpermitted⟩ | ⟨-, -, hnone⟩
      · rw [hcache] at hpermitted
        rw [htracks.canonicalRef]
        exact hpermitted.same hsame
      · exact absurd (hnone.symm.trans hcache) (by simp)

theorem packagePiece_locked {x : Pending} {auth : Authorized}
    (h : Held s.store (.gettingPackage x auth)) : Locked s (packagePiece s x auth) := by
  unfold packagePiece
  split
  · exact .idle rfl
  · refine ⟨fun _ => .inl, fun f' hout => ?_⟩
    rw [← Sum.inl.inj hout]
    exact h

theorem runPiece_locked {x : Pending} {provisional : Bool} {startedAt : ℕ}
    (h : Held s.store (.running x provisional startedAt)) (outcome : RunOutcome) :
    Locked s (runPiece gw s x provisional startedAt outcome) := by
  unfold runPiece
  split
  · exact .idle rfl
  · split
    · exact .idle rfl
    · refine ⟨fun _ => .inl, fun f' hout => ?_⟩
      rw [← Sum.inl.inj hout]
      exact h

/-- With no cache nothing is ever cached. -/
def NoCache (gw : Gateway) (store : SecretProviderStore) : Prop :=
  0 < gw.cacheTtlMs ∨ ∀ key, store.lookup key = none

/-- Where the ref that was asked for is the canonical one, the first check was about it; elsewhere
    the next check is, and finds nothing else under its key. -/
theorem cachePiece_locked (hcache : NoCache gw s.store) {x : Pending} {provisional : Bool}
    {hosts : List Text} {report : Report} (h : Held s.store (.caching x provisional hosts report))
    (hreport : report.providerId = x.provider) (now : ℕ) :
    Locked s (cachePiece gw s x provisional hosts report now) := by
  have hsame : SameGrants s.store (cacheReport gw s x hosts report now).store :=
    ⟨cachePut_bindings .., cachePut_grants ..⟩
  unfold cachePiece
  dsimp only
  split
  · refine ⟨fun _ => .inl, fun f' hout => ?_⟩
    rw [← Sum.inl.inj hout]
    refine ⟨fun r hr => (h.1 r hr).same hsame, hreport, fun e he => ?_⟩
    rcases lookup_cachePut he with ⟨-, -, rfl⟩ | ⟨hkey, hold⟩
    · rfl
    · rcases hcache with hpos | hempty
      · exact absurd rfl (hkey hpos).2
      · exact absurd ((hempty _).symm.trans hold) (by simp)
  · rename_i hdirect
    rw [Bool.or_eq_true, decide_eq_true_eq, not_or, not_not] at hdirect
    obtain ⟨hprovisional, hcanonical⟩ := hdirect
    apply admitHost_locked
    · rfl
    · exact fun r hr => (h.1 r hr).same hsame
    refine ⟨report, rfl, hreport, rfl, ?_⟩
    rw [hcanonical]
    exact (h.2 (by simpa using hprovisional)).same hsame

theorem recheckPiece_locked {x : Pending} {hosts : List Text} {report : Report}
    (h : Held s.store (.rechecking x hosts report)) (now : ℕ) :
    Locked s (recheckPiece s x hosts report now) := by
  obtain ⟨hdone, hreport, hcanonical⟩ := h
  have hstore := @authorize_store s.store now x.provider report.canonicalRef x.request.packageName
    true
  have hok := @authorize_ok s.store now x.provider report.canonicalRef x.request.packageName true
  have hpermits := @authorize_permits s.store x.request.packageName now x.provider
    report.canonicalRef true
  unfold recheckPiece
  split
  · exact .idle rfl
  · rename_i auth store heq
    rw [heq] at hstore hok hpermits
    have hsame : SameGrants s.store store := ⟨hstore.1, hstore.2.1⟩
    apply admitHost_locked
    · rfl
    · exact fun r hr => (hdone r hr).same hsame
    refine ⟨report, rfl, hreport, rfl, ?_⟩
    rcases hpermits rfl with ⟨-, hpermitted⟩ | ⟨-, hstrict, -⟩
    · -- what is cached under the canonical ref is the value just reported
      have href : (auth.cached.map CachedProviderValue.canonicalRef).getD report.canonicalRef =
          report.canonicalRef := by
        cases hcached : auth.cached with
        | none => rfl
        | some e => exact hcanonical e ((hok rfl).2 e hcached)
      rw [href] at hpermitted
      exact hpermitted.same hsame
    · exact absurd hstrict (by simp)

/-- The calls that resolve nothing inject nothing. -/
theorem piece_locked (hs : Traced s) (hcache : NoCache gw s.store) {f : Frame} (hf : FrameOk f)
    (h : Held s.store f) : Locked s (piece gw s f i) := by
  cases f with
  | authorizing x => exact authorizePiece_locked hs h i.now
  | gettingPackage x auth => exact packagePiece_locked h
  | running x provisional startedAt => exact runPiece_locked h i.run
  | caching x provisional hosts report => exact cachePiece_locked hcache h hf.2 i.now
  | rechecking x hosts report => exact recheckPiece_locked h i.now
  | bindingPackage input pkg =>
    simp only [piece, bindPackagePiece]
    split
    · exact .idle rfl
    · split
      · exact .idle rfl
      · refine ⟨fun _ => .inl, fun f' hout => ?_⟩
        rw [← Sum.inl.inj hout]
        trivial
  | bindingDoor input doors =>
    simp only [piece, bindDoorPiece]
    split
    · exact .idle rfl
    · exact .idle rfl
  | granting providerId canonicalRef packageName pkg =>
    simp only [piece, grantPiece]
    split
    · exact .idle rfl
    · exact .idle rfl
  | start call =>
    cases call with
    | resolve request =>
      have hproceed : Locked s (proceed s request (dedupeProviderRefs request.placeholders) []) :=
        proceed_locked rfl fun r hr => absurd hr (by simp)
      simp only [piece]
      split
      · exact hproceed
      · split
        · exact .idle rfl
        · exact hproceed
    | bind input =>
      refine ⟨fun _ => .inl, fun f' hout => ?_⟩
      rw [← Sum.inl.inj hout]
      trivial
    | unbind providerId => exact .idle rfl
    | setLocked providerId locked =>
      simp only [piece, setLockedPiece]
      split
      · exact .idle rfl
      · exact .idle rfl
    | grant providerId canonicalRef packageName =>
      simp only [piece]
      split
      · exact .idle rfl
      · refine ⟨fun _ => .inl, fun f' hout => ?_⟩
        rw [← Sum.inl.inj hout]
        trivial
    | revoke providerId canonicalRef packageName => exact .idle rfl
    | packageSave input =>
      simp only [piece, savePiece]
      split
      · exact .idle rfl
      · exact .idle rfl
    | packageDelete name => exact .idle rfl

theorem NoCache.piece (hs : Traced s) (h : NoCache gw s.store) {f : Frame} (hf : FrameOk f) :
    NoCache gw (Secrets.piece gw s f i).1.store := by
  rcases h with hpos | hempty
  · exact .inl hpos
  have hsubset : ∀ {s₁ s₂ : ProviderState} {which : Text → Bool}, Changes s₁ s₂ which →
      (∀ key, s₁.store.lookup key = none) → ∀ key, s₂.store.lookup key = none := by
    intro s₁ s₂ which hchanges hnone key
    cases he : s₂.store.lookup key with
    | none => rfl
    | some e => exact absurd ((hnone key).symm.trans (hchanges.lookup key e he)) (by simp)
  rcases @piece_cases gw s i hs f hf with ⟨which, hchanges, -, -⟩ |
    ⟨x, e, s₁, -, he, -, -, -⟩ | ⟨x, provisional, hosts, report, rfl, hquiet⟩
  · exact .inr (hsubset hchanges hempty)
  · exact absurd ((hempty _).symm.trans he) (by simp)
  · rcases Nat.eq_zero_or_pos gw.cacheTtlMs with hzero | hpos
    · refine .inr (hsubset hquiet.changes fun key => ?_)
      cases he : (cacheReport gw s x hosts report i.now).store.lookup key with
      | none => rfl
      | some e =>
        rcases (cacheReport_caches x hosts report i.now).lookup key e he with ⟨hpos, -⟩ | ⟨hold, -⟩
        · omega
        · exact absurd ((hempty key).symm.trans hold) (by simp)
    · exact .inl hpos

end

/-! ### The invariant along a sequence of calls -/

structure LockInv (g : Coop.Config (providers gw)) : Prop where
  sound : Sound g
  cache : NoCache gw g.shared.store
  held : ∀ t c f, g.pool t = some (c, f) → Held g.shared.store f
  granted : LocksHold g

/-- **Step lemma.**  The state changes only under the one call that is in flight. -/
theorem LockInv.step {g g' : Coop.Config (providers gw)} {e : Coop.Event (providers gw)}
    (hg : LockInv g) (hsolo : Coop.Solo g e) (h : Coop.step g e = some g') : LockInv g' := by
  rcases Coop.step_ran h with ⟨t, c, -, -, rfl⟩ | ⟨t, i, c, f, out, rfl, hran⟩
  · refine ⟨hg.sound.call c, hg.cache, fun u c' f hu => ?_, hg.granted⟩
    rcases Coop.pool_update_cases hu with ⟨-, heq⟩ | ⟨-, hu⟩
    · obtain ⟨-, rfl⟩ := Prod.mk.inj (Option.some.inj heq)
      trivial
    · exact hg.held u c' f hu
  have hpiece : piece gw g.shared f i = (g'.shared, out) := Option.some.inj hran.runs
  have hframe := hg.sound.frames t c f hran.before
  have hlocked := @piece_locked gw g.shared i hg.sound.traced hg.cache f hframe
    (hg.held t c f hran.before)
  have hcache := @NoCache.piece gw g.shared i hg.sound.traced hg.cache f hframe
  rw [hpiece] at hlocked hcache
  refine ⟨hg.sound.ran hran, hcache, fun u c' f' hu => ?_, fun x hx => ?_⟩
  · rcases hran.pool u c' f' hu with ⟨hut, hold⟩ | ⟨-, -, hout⟩
    · exact absurd ((hsolo u hut).symm.trans hold) (by simp)
    · exact hlocked.frame f' hout
  · rcases hlocked.injections x hx with hold | hgranted
    · exact hg.granted x hold
    · exact hgranted

/-- **Locked bindings hold** after every sequence of calls, whatever the provider packages report. -/
theorem sequences_locked {cell : UserCell} (hcell : Loaded cell) {g : Coop.Config (providers gw)}
    (h : Reaches Coop.step Coop.Solo (Coop.idle (loaded cell)) g) : LocksHold g := by
  refine (h.invariant LockInv (fun _ _ _ hg hsolo hstep => hg.step hsolo hstep) ?_).granted
  refine ⟨.loaded hcell, .inr fun key => ?_, fun t c f hpool => absurd hpool (by simp [Coop.idle]),
    fun x hx => absurd hx (by simp [Coop.idle, loaded])⟩
  show cell.secretProviders.lookup key = none
  rw [SecretProviderStore.lookup, hcell.cache]
  rfl

/-- The outside: a run reports the value under another ref. -/
def reportingAs (value canonicalRef : Text) : Input :=
  { reporting value with
    run := .ok (.obj [("value", .str value), ("canonicalRef", .str canonicalRef)]) "run" }

/-- The package `new-vault`, which serves no provider, asks for a ref. -/
def packageRequest (ref : Text) : ProviderRequest :=
  { itemRequest with packageName := some "new-vault", placeholders := [⟨"p", "op", ref⟩] }

/-- The provider is locked, and the package may have one item. -/
def grantRun (canonicalRef : Text) : List (Coop.Event (providers plainGateway)) :=
  [.call 0 (.setLocked "op" true), resume 0 ""] ++
  [.call 0 (.grant "op" canonicalRef "new-vault"), resume 0 "", resume 0 ""]

/-- The package asks for the item by another name, twice, and for an item that it may not have. -/
def aliasRun : List (Coop.Event (providers plainGateway)) :=
  grantRun "item" ++
  (.call 0 (.resolve (packageRequest "login")) ::
    List.replicate 6 (.resume 0 (reportingAs "hunter2" "item"))) ++
  [.call 0 (.resolve (packageRequest "login")), resume 0 "", resume 0 ""] ++
  (.call 0 (.resolve (packageRequest "other")) ::
    List.replicate 6 (.resume 0 (reportingAs "root" "root-key")))

theorem sequences_locked_aliasRun :
    ∃ g, execGuarded Coop.step (Coop.soloBelow 1) (Coop.idle (loaded vaultCell)) aliasRun = some g ∧
      LocksHold g ∧ g.shared.injections.map Injection.value = [("hunter2" : Text), "hunter2"] := by
  have hrun : (execGuarded Coop.step (Coop.soloBelow 1)
      (@Coop.idle (providers plainGateway) (loaded vaultCell)) aliasRun).map
        (fun g => g.shared.injections.map Injection.value) = some [("hunter2" : Text), "hunter2"] := by
    decide +kernel
  obtain ⟨g, hg, hseen⟩ := Option.map_eq_some_iff.mp hrun
  exact ⟨g, hg, sequences_locked vaultCell_loaded (Coop.reaches_of_soloBelow (fun _ _ => rfl) hg), hseen⟩

end KodyCelld.Secrets
