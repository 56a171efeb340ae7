import KodyCelld.Secrets.ProviderResolution

namespace KodyCelld.Secrets

open KodyCelld.Lib KodyCelld.Execute KodyCelld.Packages KodyCelld.Cells SecretProviderStore

/-!
# The provider cache

A value is cached by a call of its own, after a run of up to many seconds, and every change of a
provider drops what is cached at that moment; nothing fences the write against a change that came
between.

* `NeverStale` — what should hold in every state of every run;
* `Fenced` — no value is cached across a change of its provider, and no package under whose name
  something is cached is saved with another provider id;
* `providers_neverStale` — on runs whose steps are so the first holds;
* `staleServing` — on others it does not have to.
-/

variable {gw : Gateway}

/-! ### What should hold -/

/-- Every value served from the cache was reported by a run that no change of its provider has
    followed: all changes that have returned had done so when the run started. -/
def NeverStale (g : Coop.Config (providers gw)) : Prop :=
  ∀ x ∈ g.shared.served, ∃ report, x.report = some report ∧ report.providerId = x.providerId ∧
    report.value = x.value ∧ x.changes ≤ report.startedAt

/-! ### When it does -/

/-- Where the save returns, nothing is cached for a provider that is bound to the package under
    another id than its manifest declares. -/
def SaveFenced (gw : Gateway) (s : ProviderState) (clock : SaveClock) (input : SaveInput) : Prop :=
  ∀ summary provider, (packageSave gw.host clock input s.cell).1 = .ok summary →
    summary.manifest.secretProvider = some provider →
    ∀ q, s.store.servedBy summary.manifest.name q = true → q ≠ provider.id →
      ∀ ref, s.store.lookup (cacheKey q ref) = none

/-- The condition on a step: where a value of a bound provider is cached, no change of the provider
    has returned since its run started; and where a package is saved, the save is fenced. -/
def Fenced (g : Coop.Config (providers gw)) : Coop.Event (providers gw) → Prop
  | .call _ _ => True
  | .resume t i => ∀ c f, g.pool t = some (c, f) →
    match f with
    | .caching x _ _ report => 0 < gw.cacheTtlMs → (g.shared.store.get x.provider).isSome →
        report.startedAt = g.shared.changes x.provider
    | .start (.packageSave input) => SaveFenced gw g.shared i.save input
    | _ => True

/-- The provider ids that stored packages declare are well formed. -/
def Declared (cell : UserCell) : Prop :=
  ∀ row ∈ cell.packages.rows, ∀ provider, row.manifest.secretProvider = some provider →
    secretProviderIdPattern provider.id = true

/-- A cell that has just been loaded: the cache is empty, and the provider ids that are bound or
    declared are well formed. -/
structure Loaded (cell : UserCell) : Prop where
  cache : cell.secretProviders.cache = []
  bound : ∀ binding ∈ cell.secretProviders.bindings.rows,
    secretProviderIdPattern binding.providerId = true
  declared : Declared cell

def loaded (cell : UserCell) : ProviderState where
  cell := cell
  changes := fun _ => 0
  reports := fun _ => none
  served := []
  injections := []

/-! ### Keys -/

/-- A well-formed provider id does not hold the separator of a key. -/
theorem separator_notMem {id : Text} (h : secretProviderIdPattern id = true) : '\x00' ∉ id := by
  unfold secretProviderIdPattern at h
  rw [Bool.and_eq_true] at h
  intro hmem
  cases id with
  | nil => exact absurd hmem (by simp)
  | cons c rest =>
    obtain ⟨hplain, -⟩ := h
    rw [isPlainName, Bool.and_eq_true, List.all_eq_true] at hplain
    rcases List.mem_cons.mp hmem with rfl | hmem
    · exact absurd hplain.1 (by decide)
    · exact absurd (hplain.2 _ hmem) (by decide)

/-- Two well-formed provider ids share no key. -/
theorem cacheKey_inj {q q' ref ref' : Text} (h : cacheKey q ref = cacheKey q' ref')
    (hq : secretProviderIdPattern q = true) (hq' : secretProviderIdPattern q' = true) :
    q = q' ∧ ref = ref' := by
  have htake : ∀ id text : Text, secretProviderIdPattern id = true →
      (cacheKey id text).takeWhile (fun c => decide (c ≠ '\x00')) = id := by
    intro id text hid
    have hall : ∀ c ∈ id, decide (c ≠ '\x00') = true := by
      intro c hc
      refine decide_eq_true fun heq => separator_notMem hid ?_
      exact heq ▸ hc
    rw [cacheKey, List.takeWhile_append_of_pos hall, List.takeWhile_cons_of_neg (by simp)]
    exact List.append_nil id
  obtain rfl : q = q' := (htake q ref hq).symm.trans (h ▸ htake q' ref' hq')
  have htail : '\x00' :: ref = '\x00' :: ref' := List.append_cancel_left h
  exact ⟨rfl, (List.cons.inj htail).2⟩

/-! ### Where a cached value comes from -/

/-- The report is one of the value cached under the key. -/
structure Tracks (key : Text) (e : CachedProviderValue) (report : Report) : Prop where
  key : ∃ ref, key = cacheKey report.providerId ref
  provider : secretProviderIdPattern report.providerId = true
  value : report.value = e.value
  canonicalRef : report.canonicalRef = e.canonicalRef

/-- Every provider id is well formed, and every cached value comes from a report. -/
structure Traced (s : ProviderState) : Prop where
  bound : ∀ q, (s.store.get q).isSome → secretProviderIdPattern q = true
  declared : Declared s.cell
  cached : ∀ key e, s.store.lookup key = some e →
    ∃ report, s.reports key = some report ∧ Tracks key e report

/-- What a cached value of a bound provider was reported by no change has followed. -/
def Current (s : ProviderState) : Prop :=
  ∀ key e report, s.store.lookup key = some e → s.reports key = some report →
    (s.store.get report.providerId).isSome → report.startedAt = s.changes report.providerId

/-- What a call in flight has learned of provider ids is well formed. -/
def FrameOk : Frame → Prop
  | .gettingPackage x _ => secretProviderIdPattern x.provider = true
  | .running x _ _ => secretProviderIdPattern x.provider = true
  | .caching x _ _ report =>
    secretProviderIdPattern x.provider = true ∧ report.providerId = x.provider
  | .bindingPackage _ pkg => ∀ row, pkg = some row → ∀ provider,
      row.manifest.secretProvider = some provider → secretProviderIdPattern provider.id = true
  | .bindingDoor input _ => secretProviderIdPattern input.providerId = true
  | _ => True

/-! ### The check and the host -/

section
variable {store : SecretProviderStore} {now : ℕ} {providerId ref : Text} {packageName : Option Text}
  {strict : Bool}

/-- The check drops at most an expired value. -/
theorem authorize_store :
    let store' := (secretProviderAuthorize store now providerId ref packageName strict).2
    store'.bindings = store.bindings ∧ store'.grants = store.grants ∧
      ∀ key e, store'.lookup key = some e → store.lookup key = some e := by
  unfold secretProviderAuthorize
  split
  · exact ⟨rfl, rfl, fun _ _ => id⟩
  · have hget : (store.cacheGet now providerId ref).2.bindings = store.bindings ∧
        (store.cacheGet now providerId ref).2.grants = store.grants ∧
        ∀ key e, (store.cacheGet now providerId ref).2.lookup key = some e →
          store.lookup key = some e :=
      ⟨cacheGet_bindings .., cacheGet_grants .., fun _ _ => lookup_of_cacheGet⟩
    dsimp only
    split
    · exact hget
    · split
      · exact hget
      · exact hget

/-- What a check that passed has found: the binding, and what is cached for the ref. -/
theorem authorize_ok {auth : Authorized}
    (h : (secretProviderAuthorize store now providerId ref packageName strict).1 = .ok auth) :
    store.get providerId = some auth.binding ∧
      ∀ e, auth.cached = some e → store.lookup (cacheKey providerId ref) = some e := by
  unfold secretProviderAuthorize at h
  split at h
  · exact absurd h (by simp)
  rename_i binding hbinding
  dsimp only at h
  split at h
  · rw [← Except.ok.inj h]
    exact ⟨hbinding, fun e he => cacheGet_fst he⟩
  · split at h
    · rw [← Except.ok.inj h]
      exact ⟨hbinding, fun e he => absurd he (by simp)⟩
    · exact absurd h (by simp)

end

section
variable {s : ProviderState}

theorem proceed_state (request : ProviderRequest) (rest : List (Text × Text)) (done : List Resolved) :
    ∃ injections, (proceed s request rest done).1 = { s with injections := injections } := by
  unfold proceed
  split
  · exact ⟨s.injections, rfl⟩
  · exact ⟨_, rfl⟩

theorem proceed_frame {request : ProviderRequest} {rest : List (Text × Text)} {done : List Resolved}
    {f' : Frame} (h : (proceed s request rest done).2 = .inl f') : FrameOk f' := by
  unfold proceed at h
  split at h
  · rw [← Sum.inl.inj h]
    trivial
  · exact absurd h Sum.inr_ne_inl

/-- Admitting a value to a request changes nothing else. -/
theorem admitHost_state (x : Pending) (value : Text) (hosts : List Text) (report : Option Report) :
    ∃ injections, (admitHost s x value hosts report).1 = { s with injections := injections } := by
  unfold admitHost
  split
  · exact proceed_state ..
  · exact ⟨s.injections, rfl⟩

theorem admitHost_frame {x : Pending} {value : Text} {hosts : List Text} {report : Option Report}
    {f' : Frame} (h : (admitHost s x value hosts report).2 = .inl f') : FrameOk f' := by
  unfold admitHost at h
  split at h
  · exact proceed_frame h
  · exact absurd h Sum.inr_ne_inl

end

/-! ### What a piece does -/

/-- The providers outside `which` keep their bindings and those in it are changed; nothing is cached
    or served. -/
structure Changes (s s' : ProviderState) (which : Text → Bool) : Prop where
  outside : ∀ q, which q = false → s'.store.get q = s.store.get q
  bound : ∀ q, (s'.store.get q).isSome → (s.store.get q).isSome ∨ secretProviderIdPattern q = true
  declared : Declared s.cell → Declared s'.cell
  lookup : ∀ key e, s'.store.lookup key = some e → s.store.lookup key = some e
  changes : s'.changes = fun q => if which q then s.changes q + 1 else s.changes q
  reports : s'.reports = s.reports
  served : s'.served = s.served

/-- The cached values of these providers are gone, or they are not bound any more. -/
def Dropped (s : ProviderState) (which : Text → Bool) : Prop :=
  ∀ q, which q = true → s.store.get q = none ∨ ∀ ref, s.store.lookup (cacheKey q ref) = none

section
variable {s s' : ProviderState}

/-- Nothing but values of the cache went. -/
theorem Changes.none (hbindings : s'.store.bindings = s.store.bindings)
    (hdeclared : Declared s.cell → Declared s'.cell)
    (hlookup : ∀ key e, s'.store.lookup key = some e → s.store.lookup key = some e)
    (hchanges : s'.changes = s.changes) (hreports : s'.reports = s.reports)
    (hserved : s'.served = s.served) : Changes s s' fun _ => false := by
  have hget : ∀ q, s'.store.get q = s.store.get q := by
    intro q
    unfold SecretProviderStore.get
    rw [hbindings]
  refine ⟨fun q _ => hget q, fun q hq => .inl (hget q ▸ hq), hdeclared, hlookup, ?_, hreports,
    hserved⟩
  rw [hchanges]
  rfl

theorem Changes.refl (injections : List Injection) :
    Changes s { s with injections := injections } fun _ => false :=
  .none rfl id (fun _ _ => id) rfl rfl rfl

/-- A change of the bindings of one provider, after which its cached values are gone. -/
theorem Changes.one {store : SecretProviderStore} {providerId : Text}
    (hother : ∀ q, q ≠ providerId → store.get q = s.store.get q)
    (hbound : (s.store.get providerId).isSome ∨ secretProviderIdPattern providerId = true ∨
      store.get providerId = Option.none)
    (hlookup : ∀ key e, store.lookup key = some e → s.store.lookup key = some e) :
    Changes s ((s.withStore store).changed fun q => decide (q = providerId))
      fun q => decide (q = providerId) := by
  refine ⟨fun q hq => hother q (of_decide_eq_false hq), fun q hq => ?_, fun h => h, hlookup, rfl, rfl,
    rfl⟩
  by_cases hqp : q = providerId
  · subst hqp
    rcases hbound with hold | hvalid | hnone
    · exact .inl hold
    · exact .inr hvalid
    · have hsome : (store.get q).isSome := hq
      rw [hnone] at hsome
      exact absurd hsome (by simp)
  · exact .inl (hother q hqp ▸ hq)

theorem Dropped.one {store : SecretProviderStore} {providerId : Text}
    (h : ∀ ref, store.lookup (cacheKey providerId ref) = Option.none) :
    Dropped ((s.withStore store).changed fun q => decide (q = providerId))
      fun q => decide (q = providerId) := by
  intro q hq
  obtain rfl := of_decide_eq_true hq
  exact .inr h

end

/-! ### The pieces -/

section
variable {s : ProviderState} {i : Input}

/-- A piece of the resolution that neither serves nor caches a value. -/
structure Quiet (s : ProviderState) (out : ProviderState × (Frame ⊕ Ret)) : Prop where
  changes : Changes s out.1 fun _ => false
  frame : ∀ f', out.2 = .inl f' → FrameOk f'

theorem Quiet.refused (denial : Except Denial (List (Text × Text))) :
    Quiet s (s, .inr (.resolved denial)) :=
  ⟨.refl s.injections, fun _ h => absurd h Sum.inr_ne_inl⟩

theorem proceed_quiet (request : ProviderRequest) (rest : List (Text × Text)) (done : List Resolved) :
    Quiet s (proceed s request rest done) := by
  obtain ⟨injections, heq⟩ := @proceed_state s request rest done
  exact ⟨heq ▸ .refl injections, fun f' h => proceed_frame h⟩

theorem admitHost_quiet (x : Pending) (value : Text) (hosts : List Text) (report : Option Report) :
    Quiet s (admitHost s x value hosts report) := by
  obtain ⟨injections, heq⟩ := @admitHost_state s x value hosts report
  exact ⟨heq ▸ .refl injections, fun f' h => admitHost_frame h⟩

theorem packagePiece_quiet {x : Pending} {auth : Authorized}
    (hx : secretProviderIdPattern x.provider = true) : Quiet s (packagePiece s x auth) := by
  unfold packagePiece
  split
  · exact .refused _
  · refine ⟨.refl s.injections, fun f' h => ?_⟩
    rw [← Sum.inl.inj h]
    exact hx

theorem runPiece_quiet {x : Pending} {provisional : Bool} {startedAt : ℕ}
    (hx : secretProviderIdPattern x.provider = true) (outcome : RunOutcome) :
    Quiet s (runPiece gw s x provisional startedAt outcome) := by
  unfold runPiece
  split
  · exact .refused _
  · split
    · exact .refused _
    · refine ⟨.refl s.injections, fun f' h => ?_⟩
      rw [← Sum.inl.inj h]
      exact ⟨hx, rfl⟩

/-- After a check the bindings are as before and at most less is cached. -/
theorem withStore_changes {store : SecretProviderStore} (hbindings : store.bindings = s.store.bindings)
    (hlookup : ∀ key e, store.lookup key = some e → s.store.lookup key = some e) :
    Changes s (s.withStore store) fun _ => false :=
  .none hbindings id hlookup rfl rfl rfl

theorem Changes.trans {s₁ s₂ s₃ : ProviderState} (h : Changes s₁ s₂ fun _ => false)
    (h' : Changes s₂ s₃ fun _ => false) : Changes s₁ s₃ fun _ => false := by
  refine ⟨fun q hq => (h'.outside q hq).trans (h.outside q hq), fun q hq => ?_,
    fun hd => h'.declared (h.declared hd), fun key e he => h.lookup key e (h'.lookup key e he), ?_,
    h'.reports.trans h.reports, h'.served.trans h.served⟩
  · rw [h'.outside q rfl] at hq
    exact h.bound q hq
  · rw [h'.changes, h.changes]
    rfl

theorem Quiet.after {s' : ProviderState} {out : ProviderState × (Frame ⊕ Ret)}
    (h : Changes s s' fun _ => false) (hout : Quiet s' out) : Quiet s out :=
  ⟨h.trans hout.changes, hout.frame⟩

theorem recheckPiece_quiet (x : Pending) (hosts : List Text) (report : Report) (now : ℕ) :
    Quiet s (recheckPiece s x hosts report now) := by
  have hstore := @authorize_store s.store now x.provider report.canonicalRef x.request.packageName
    true
  unfold recheckPiece
  split
  · rename_i denial store heq
    rw [heq] at hstore
    exact ⟨withStore_changes hstore.1 hstore.2.2, fun f' h => absurd h Sum.inr_ne_inl⟩
  · rename_i auth store heq
    rw [heq] at hstore
    exact .after (withStore_changes hstore.1 hstore.2.2) (admitHost_quiet ..)

/-- A check goes on to a run, or serves what is cached. -/
theorem authorizePiece_cases (hs : Traced s) (x : Pending) (now : ℕ) :
    Quiet s (authorizePiece s x now) ∨
      ∃ e s₁, s.store.lookup (cacheKey x.provider x.ref) = some e ∧
        (s.store.get x.provider).isSome ∧ Changes s s₁ (fun _ => false) ∧
        Quiet { s₁ with served := ⟨x.provider, e.value,
            s.reports (cacheKey x.provider x.ref), s.changes x.provider⟩ :: s.served }
          (authorizePiece s x now) := by
  have hstore := @authorize_store s.store now x.provider x.ref x.request.packageName false
  have hok := @authorize_ok s.store now x.provider x.ref x.request.packageName false
  unfold authorizePiece
  split
  · rename_i denial store heq
    rw [heq] at hstore
    exact .inl ⟨withStore_changes hstore.1 hstore.2.2, fun f' h => absurd h Sum.inr_ne_inl⟩
  · rename_i auth store heq
    rw [heq] at hstore hok
    obtain ⟨hbinding, hcached⟩ := hok rfl
    have hsome : (s.store.get x.provider).isSome := by
      rw [hbinding]
      rfl
    split
    · refine .inl ⟨withStore_changes hstore.1 hstore.2.2, fun f' h => ?_⟩
      rw [← Sum.inl.inj h]
      exact hs.bound x.provider hsome
    · rename_i e hcache
      exact .inr ⟨e, s.withStore store, hcached e hcache, hsome,
        withStore_changes hstore.1 hstore.2.2, admitHost_quiet ..⟩

/-- What a cached value adds to the cache. -/
structure Caches (gw : Gateway) (s s₁ : ProviderState) (x : Pending) (report : Report) : Prop where
  bindings : s₁.store.bindings = s.store.bindings
  grants : s₁.store.grants = s.store.grants
  packages : s₁.cell.packages = s.cell.packages
  changes : s₁.changes = s.changes
  served : s₁.served = s.served
  lookup : ∀ key e, s₁.store.lookup key = some e →
    (0 < gw.cacheTtlMs ∧ s₁.reports key = some report ∧ (∃ ref, key = cacheKey x.provider ref) ∧
      e.value = report.value ∧ e.canonicalRef = report.canonicalRef) ∨
    (s.store.lookup key = some e ∧ s₁.reports key = s.reports key)

theorem cacheReport_caches (x : Pending) (hosts : List Text) (report : Report) (now : ℕ) :
    Caches gw s (cacheReport gw s x hosts report now) x report := by
  refine ⟨cachePut_bindings .., cachePut_grants .., rfl, rfl, rfl, fun key e he => ?_⟩
  rcases lookup_cachePut he with ⟨hpos, hkey, rfl⟩ | ⟨hkey, hold⟩
  · refine .inl ⟨hpos, if_pos ?_, ?_, rfl, rfl⟩
    · dsimp only
      rw [decide_eq_true hpos, Bool.true_and, Bool.or_eq_true, decide_eq_true_eq, decide_eq_true_eq]
      exact hkey
    · exact hkey.elim (fun h => ⟨_, h⟩) fun h => ⟨_, h⟩
  · refine .inr ⟨hold, if_neg ?_⟩
    dsimp only
    rw [Bool.and_eq_true, decide_eq_true_eq, Bool.or_eq_true, decide_eq_true_eq, decide_eq_true_eq]
    rintro ⟨hpos, hor⟩
    exact hor.elim (hkey hpos).1 (hkey hpos).2

/-- Once the value is cached, the piece is quiet. -/
theorem cachePiece_quiet (x : Pending) (provisional : Bool) (hosts : List Text) (report : Report)
    (now : ℕ) :
    Quiet (cacheReport gw s x hosts report now)
      (cachePiece gw s x provisional hosts report now) := by
  unfold cachePiece
  dsimp only
  split
  · refine ⟨.refl s.injections, fun f' h => ?_⟩
    rw [← Sum.inl.inj h]
    trivial
  · exact admitHost_quiet ..

/-- A save accepts only well-formed provider ids. -/
theorem packageSave_declared {clock : SaveClock} {input : SaveInput} {cell : UserCell}
    (h : Declared cell) : Declared (packageSave gw.host clock input cell).2 := by
  intro row hrow provider hprovider
  rcases @packageSave_packages gw.host clock input cell with heq | ⟨files, manifest, haccept, heq⟩
  · rw [heq] at hrow
    exact h row hrow provider hprovider
  · rw [heq] at hrow
    have hvalid : ∀ provider, manifest.secretProvider = some provider →
        secretProviderIdPattern provider.id = true :=
      fun provider => parsePackageManifest_providerId (acceptSave_manifest haccept)
    unfold writePackage at hrow
    dsimp only at hrow
    rcases Rows.mem_upsert hrow with rfl | ⟨old, hold, rfl | rfl⟩
    · exact hvalid provider hprovider
    · exact h _ hold provider hprovider
    · exact hvalid provider hprovider

/-- Unbinding what a package serves changes these providers, and none of them is bound any more. -/
theorem unbound_changes {cell : UserCell} {name : Text}
    (hstore : cell.secretProviders = s.store.unbindPackage name)
    (hdeclared : Declared s.cell → Declared cell) :
    let s' := ({ s with cell := cell } : ProviderState).changed (s.store.servedBy name)
    Changes s s' (s.store.servedBy name) ∧ Dropped s' (s.store.servedBy name) := by
  have hget : ∀ q, cell.secretProviders.get q =
      if s.store.servedBy name q = true then none else s.store.get q := by
    intro q
    rw [hstore]
    exact get_unbindPackage ..
  refine ⟨⟨fun q hq => ?_, fun q hq => ?_, hdeclared, fun key e he => ?_, rfl, rfl, rfl⟩,
    fun q hq => ?_⟩
  · exact (hget q).trans (if_neg (by simp [hq]))
  · have hsome : (cell.secretProviders.get q).isSome := hq
    rw [hget] at hsome
    split at hsome
    · exact absurd hsome (by simp)
    · exact .inl hsome
  · have hcell : cell.secretProviders.lookup key = some e := he
    rw [hstore] at hcell
    exact lookup_of_unbindPackage hcell
  · exact .inl ((hget q).trans (if_pos hq))

/-- A save that throws changes no provider; one that returns changes those bound to the package. -/
theorem savePiece_changes (input : SaveInput) (clock : SaveClock) :
    ∃ which, Changes s (savePiece gw s input clock).1 which ∧
      (SaveFenced gw s clock input → Dropped (savePiece gw s input clock).1 which) ∧
      ∀ f', (savePiece gw s input clock).2 ≠ .inl f' := by
  have hdeclared := @packageSave_declared gw clock input s.cell
  have hproviders := @packageSave_providers gw.host clock input s.cell
  unfold savePiece SaveFenced
  split
  · rename_i e cell heq
    rw [heq] at hdeclared hproviders
    rcases hproviders with ⟨hsame, -⟩ | ⟨_, _, summary, -, hbad, -⟩
    · have hstore : ({ s with cell := cell } : ProviderState).store = s.store := hsame
      refine ⟨fun _ => false, .none (by rw [hstore]) hdeclared ?_ rfl rfl rfl, ?_, ?_⟩
      · intro key e he
        exact hstore ▸ he
      · exact fun _ q hq => absurd hq (by simp)
      · exact fun f' => Sum.inr_ne_inl
    · exact absurd hbad (by simp)
  · rename_i summary cell heq
    rw [heq] at hdeclared hproviders
    rcases hproviders with ⟨-, e, hbad⟩ | ⟨_, manifest, summary', -, hsummary, rfl, hstore⟩
    · exact absurd hbad (by simp)
    obtain rfl := Except.ok.inj hsummary
    refine ⟨s.store.servedBy summary.manifest.name, ?_⟩
    cases hprovider : summary.manifest.secretProvider with
    | none =>
      simp only [hprovider] at hstore
      obtain ⟨hchanges, hdropped⟩ := unbound_changes hstore hdeclared
      exact ⟨hchanges, fun _ => hdropped, fun f' => Sum.inr_ne_inl⟩
    | some provider =>
      simp only [hprovider] at hstore
      have hget : ∀ q, cell.secretProviders.get q = s.store.get q := by
        intro q
        rw [hstore]
        rfl
      refine ⟨⟨fun q _ => hget q, fun q hq => .inl (hget q ▸ hq), hdeclared, fun key e he => ?_, rfl,
        rfl, rfl⟩, fun hfence q hq => .inr fun ref => ?_, fun f' => Sum.inr_ne_inl⟩
      · have hcell : cell.secretProviders.lookup key = some e := he
        rw [hstore] at hcell
        exact lookup_of_invalidate hcell
      · show cell.secretProviders.lookup _ = none
        rw [hstore]
        -- the values of the declared id go, and no others were cached
        by_cases hqp : q = provider.id
        · rw [hqp]
          exact lookup_invalidate_cacheKey ..
        · have hnone := hfence summary provider (by rw [heq]) hprovider q hq hqp ref
          rw [lookup_invalidate]
          split
          · rfl
          · exact hnone

/-- **What a piece does.**  It changes some providers, serves a value from the cache, or caches
    one. -/
theorem piece_cases (hs : Traced s) {f : Frame} (hf : FrameOk f) :
    (∃ which, Changes s (piece gw s f i).1 which ∧
      ((∀ input, f = .start (.packageSave input) → SaveFenced gw s i.save input) →
        Dropped (piece gw s f i).1 which) ∧
      ∀ f', (piece gw s f i).2 = .inl f' → FrameOk f') ∨
    (∃ x e s₁, f = .authorizing x ∧ s.store.lookup (cacheKey x.provider x.ref) = some e ∧
      (s.store.get x.provider).isSome ∧ Changes s s₁ (fun _ => false) ∧
      Quiet { s₁ with served := ⟨x.provider, e.value,
          s.reports (cacheKey x.provider x.ref), s.changes x.provider⟩ :: s.served }
        (piece gw s f i)) ∨
    ∃ x provisional hosts report, f = .caching x provisional hosts report ∧
      Quiet (cacheReport gw s x hosts report i.now) (piece gw s f i) := by
  have hquiet : ∀ out : ProviderState × (Frame ⊕ Ret), Quiet s out →
      ∃ which, Changes s out.1 which ∧
        ((∀ input, f = .start (.packageSave input) → SaveFenced gw s i.save input) →
          Dropped out.1 which) ∧ ∀ f', out.2 = .inl f' → FrameOk f' :=
    fun out h => ⟨_, h.changes, fun _ q hq => absurd hq (by simp), h.frame⟩
  cases f with
  | authorizing x =>
    rcases authorizePiece_cases hs x i.now with hq | ⟨e, s₁, hlookup, hbound, hchanges, hq⟩
    · exact .inl (hquiet _ hq)
    · exact .inr (.inl ⟨x, e, s₁, rfl, hlookup, hbound, hchanges, hq⟩)
  | caching x provisional hosts report =>
    exact .inr (.inr ⟨x, provisional, hosts, report, rfl, cachePiece_quiet ..⟩)
  | gettingPackage x auth => exact .inl (hquiet _ (packagePiece_quiet hf))
  | running x provisional startedAt => exact .inl (hquiet _ (runPiece_quiet hf i.run))
  | rechecking x hosts report => exact .inl (hquiet _ (recheckPiece_quiet ..))
  | bindingPackage input pkg =>
    refine .inl (hquiet _ ?_)
    simp only [piece, bindPackagePiece]
    split
    · exact ⟨.refl s.injections, fun f' h => absurd h Sum.inr_ne_inl⟩
    · rename_i row
      split
      · exact ⟨.refl s.injections, fun f' h => absurd h Sum.inr_ne_inl⟩
      · rename_i hdeclared
        refine ⟨.refl s.injections, fun f' h => ?_⟩
        rw [← Sum.inl.inj h]
        rw [Option.all_eq_true] at hdeclared
        push Not at hdeclared
        obtain ⟨provider, hprovider, hid⟩ := hdeclared
        have heq : provider.id = input.providerId := by simpa using hid
        show secretProviderIdPattern input.providerId = true
        rw [← heq]
        exact hf row rfl provider hprovider
  | bindingDoor input doors =>
    left
    simp only [piece, bindDoorPiece]
    split
    · refine ⟨_, .one (fun q hq => get_bind input hq) (.inr (.inl hf)) (fun key e he => ?_),
        fun _ => .one fun ref => lookup_invalidate_cacheKey .., fun f' h => absurd h Sum.inr_ne_inl⟩
      exact lookup_of_invalidate he
    · exact hquiet _ ⟨.refl s.injections, fun f' h => absurd h Sum.inr_ne_inl⟩
  | granting providerId canonicalRef packageName pkg =>
    refine .inl (hquiet _ ?_)
    simp only [piece, grantPiece]
    split
    · exact ⟨.refl s.injections, fun f' h => absurd h Sum.inr_ne_inl⟩
    · exact ⟨withStore_changes rfl fun _ _ => id, fun f' h => absurd h Sum.inr_ne_inl⟩
  | start call =>
    left
    cases call with
    | resolve request =>
      simp only [piece]
      split
      · exact hquiet _ (proceed_quiet ..)
      · split
        · exact hquiet _ (.refused _)
        · exact hquiet _ (proceed_quiet ..)
    | bind input =>
      refine hquiet _ ⟨.refl s.injections, fun f' h => ?_⟩
      rw [← Sum.inl.inj h]
      intro row hrow
      exact hs.declared row (Rows.find?_eq_some.mp hrow).1
    | unbind providerId =>
      refine ⟨_, .one (fun q hq => ?_) (.inr (.inr ?_)) (fun key e he => lookup_of_invalidate he),
        fun _ => .one fun ref => lookup_invalidate_cacheKey .., fun f' h => absurd h Sum.inr_ne_inl⟩
      · rw [get_unbind, if_neg hq]
      · rw [get_unbind, if_pos rfl]
    | setLocked providerId locked =>
      simp only [piece, setLockedPiece]
      split
      · exact hquiet _ ⟨.refl s.injections, fun f' h => absurd h Sum.inr_ne_inl⟩
      · rename_i store hset
        obtain ⟨hbound, bindings, hstore⟩ := setLocked_ok hset
        refine ⟨_, .one (fun q hq => get_setLocked hset hq) (.inl hbound) (fun key e he => ?_),
          fun _ => .one fun ref => ?_, fun f' h => absurd h Sum.inr_ne_inl⟩
        · rw [hstore] at he
          exact lookup_of_invalidate he
        · rw [hstore]
          exact lookup_invalidate_cacheKey ..
    | grant providerId canonicalRef packageName =>
      simp only [piece]
      split
      · exact hquiet _ ⟨.refl s.injections, fun f' h => absurd h Sum.inr_ne_inl⟩
      · refine hquiet _ ⟨.refl s.injections, fun f' h => ?_⟩
        rw [← Sum.inl.inj h]
        trivial
    | revoke providerId canonicalRef packageName =>
      refine ⟨_, .one (fun q _ => rfl) ?_ (fun key e he => lookup_of_invalidate he),
        fun _ => .one fun ref => lookup_invalidate_cacheKey .., fun f' h => absurd h Sum.inr_ne_inl⟩
      cases hget : s.store.get providerId with
      | none => exact .inr (.inr hget)
      | some binding => exact .inl rfl
    | packageSave input =>
      obtain ⟨which, hchanges, hdropped, hret⟩ := @savePiece_changes gw s input i.save
      exact ⟨which, hchanges, fun h => hdropped (h input rfl), fun f' h => absurd h (hret f')⟩
    | packageDelete name =>
      have hdeclared : Declared s.cell → Declared (packageDelete name s.cell).2 :=
        fun h row hrow => h row (Rows.mem_filter.mp hrow).1
      obtain ⟨hchanges, hdropped⟩ := unbound_changes rfl hdeclared
      exact ⟨_, hchanges, fun _ => hdropped, fun f' h => absurd h Sum.inr_ne_inl⟩

/-! ### What the pieces keep -/

theorem Traced.changes {s' : ProviderState} {which : Text → Bool} (hs : Traced s)
    (h : Changes s s' which) : Traced s' := by
  refine ⟨fun q hq => ?_, h.declared hs.declared, fun key e he => ?_⟩
  · rcases h.bound q hq with hold | hvalid
    · exact hs.bound q hold
    · exact hvalid
  · rw [h.reports]
    exact hs.cached key e (h.lookup key e he)

theorem Traced.caches {s₁ : ProviderState} {x : Pending} {report : Report} (hs : Traced s)
    (h : Caches gw s s₁ x report) (hx : secretProviderIdPattern x.provider = true)
    (hreport : report.providerId = x.provider) : Traced s₁ := by
  have hget : ∀ q, s₁.store.get q = s.store.get q := by
    intro q
    unfold SecretProviderStore.get
    rw [h.bindings]
  refine ⟨fun q hq => hs.bound q (hget q ▸ hq), fun row hrow => ?_, fun key e he => ?_⟩
  · exact hs.declared row (h.packages ▸ hrow)
  · rcases h.lookup key e he with ⟨-, hreports, ⟨ref, hkey⟩, hvalue, hcanonical⟩ | ⟨hold, hreports⟩
    · refine ⟨report, hreports, ⟨ref, ?_⟩, ?_, hvalue.symm, hcanonical.symm⟩
      · rw [hreport]
        exact hkey
      · rw [hreport]
        exact hx
    · rw [hreports]
      exact hs.cached key e hold

theorem Traced.serve (hs : Traced s) (served : List Serving) : Traced { s with served := served } :=
  ⟨hs.bound, hs.declared, hs.cached⟩

/-- Every piece keeps the ids well formed and the cached values traced. -/
theorem Traced.piece (hs : Traced s) {f : Frame} (hf : FrameOk f) :
    Traced (piece gw s f i).1 ∧ ∀ f', (Secrets.piece gw s f i).2 = .inl f' → FrameOk f' := by
  rcases @piece_cases gw s i hs f hf with ⟨which, hchanges, -, hframe⟩ |
    ⟨x, e, s₁, -, -, -, hchanges, hquiet⟩ | ⟨x, provisional, hosts, report, rfl, hquiet⟩
  · exact ⟨hs.changes hchanges, hframe⟩
  · exact ⟨((hs.changes hchanges).serve _).changes hquiet.changes, hquiet.frame⟩
  · have hcached := hs.caches (@cacheReport_caches gw s x hosts report i.now) hf.1 hf.2
    exact ⟨hcached.changes hquiet.changes, hquiet.frame⟩

theorem Current.changes {s' : ProviderState} {which : Text → Bool} (hs : Traced s)
    (hcurrent : Current s) (h : Changes s s' which) (hdropped : Dropped s' which) : Current s' := by
  intro key e report he hreport hbound
  have hold := h.lookup key e he
  rw [h.reports] at hreport
  obtain ⟨report', hreport', htracks⟩ := hs.cached key e hold
  obtain rfl := Option.some.inj (hreport'.symm.trans hreport)
  cases hwhich : which report'.providerId with
  | false =>
    rw [h.outside _ hwhich] at hbound
    rw [h.changes]
    simp only [hwhich]
    exact hcurrent key e report' hold hreport hbound
  | true =>
    -- a provider that was changed has nothing cached, or is not bound
    rcases hdropped _ hwhich with hnone | hempty
    · rw [hnone] at hbound
      exact absurd hbound (by simp)
    · obtain ⟨ref, rfl⟩ := htracks.key
      exact absurd ((hempty ref).symm.trans he) (by simp)

theorem Current.serve (hcurrent : Current s) (served : List Serving) :
    Current { s with served := served } := hcurrent

theorem Current.caches {s₁ : ProviderState} {x : Pending} {report : Report} (hcurrent : Current s)
    (h : Caches gw s s₁ x report) (hreport : report.providerId = x.provider)
    (hfence : 0 < gw.cacheTtlMs → (s.store.get x.provider).isSome →
      report.startedAt = s.changes x.provider) : Current s₁ := by
  intro key e found he hfound hbound
  have hget : ∀ q, s₁.store.get q = s.store.get q := by
    intro q
    unfold SecretProviderStore.get
    rw [h.bindings]
  rw [hget] at hbound
  rw [h.changes]
  rcases h.lookup key e he with ⟨hpos, hreports, -⟩ | ⟨hold, hreports⟩
  · obtain rfl := Option.some.inj (hreports.symm.trans hfound)
    rw [hreport] at hbound ⊢
    exact hfence hpos hbound
  · exact hcurrent key e found hold (hreports.symm.trans hfound) hbound

/-- What is served from a current cache is fresh. -/
theorem Traced.fresh (hs : Traced s) (hcurrent : Current s) {x : Pending} {e : CachedProviderValue}
    (he : s.store.lookup (cacheKey x.provider x.ref) = some e)
    (hbound : (s.store.get x.provider).isSome) :
    ∃ report, s.reports (cacheKey x.provider x.ref) = some report ∧
      report.providerId = x.provider ∧ report.value = e.value ∧
      s.changes x.provider ≤ report.startedAt := by
  obtain ⟨report, hreport, htracks⟩ := hs.cached _ e he
  obtain ⟨ref, hkey⟩ := htracks.key
  obtain ⟨hprovider, -⟩ := cacheKey_inj hkey (hs.bound _ hbound) htracks.provider
  refine ⟨report, hreport, hprovider.symm, htracks.value, le_of_eq ?_⟩
  rw [hprovider] at hbound ⊢
  exact (hcurrent _ e report he hreport hbound).symm

end

/-! ### The invariant along a run -/

/-- The ids are well formed and the cached values traced, in the state and in every call. -/
structure Sound (g : Coop.Config (providers gw)) : Prop where
  traced : Traced g.shared
  frames : ∀ t c f, g.pool t = some (c, f) → FrameOk f

structure CacheInv (g : Coop.Config (providers gw)) : Prop where
  sound : Sound g
  current : Current g.shared
  never : NeverStale g

section
variable {g g' : Coop.Config (providers gw)} {t : ℕ} {c : Call} {f : Frame} {i : Input}
  {out : Frame ⊕ Ret}

theorem Sound.call (hg : Sound g) (c : Call) :
    Sound { g with pool := Function.update g.pool t (some (c, Frame.start c)) } := by
  refine ⟨hg.traced, fun u c' f hu => ?_⟩
  rcases Coop.pool_update_cases hu with ⟨-, heq⟩ | ⟨-, hu⟩
  · obtain ⟨-, rfl⟩ := Prod.mk.inj (Option.some.inj heq)
    trivial
  · exact hg.frames u c' f hu

theorem Sound.ran (hg : Sound g) (hran : Coop.Ran g g' t c f i out) : Sound g' := by
  have hpiece : piece gw g.shared f i = (g'.shared, out) := Option.some.inj hran.runs
  have hkept := @Traced.piece gw g.shared i hg.traced f (hg.frames t c f hran.before)
  rw [hpiece] at hkept
  refine ⟨hkept.1, fun u c' f' hu => ?_⟩
  rcases hran.pool u c' f' hu with ⟨-, hold⟩ | ⟨-, -, hout⟩
  · exact hg.frames u c' f' hold
  · exact hkept.2 f' hout

/-- **Step lemma.** -/
theorem CacheInv.step {e : Coop.Event (providers gw)} (hg : CacheInv g) (hfenced : Fenced g e)
    (h : Coop.step g e = some g') : CacheInv g' := by
  rcases Coop.step_ran h with ⟨t, c, -, -, rfl⟩ | ⟨t, i, c, f, out, rfl, hran⟩
  · exact ⟨hg.sound.call c, hg.current, hg.never⟩
  have hpiece : piece gw g.shared f i = (g'.shared, out) := Option.some.inj hran.runs
  have hframe := hg.sound.frames t c f hran.before
  have hfence := hfenced c f hran.before
  have hcases := @piece_cases gw g.shared i hg.sound.traced f hframe
  rw [hpiece] at hcases
  rcases hcases with ⟨which, hchanges, hdropped, -⟩ |
    ⟨x, e, s₁, rfl, he, hbound, hchanges, hquiet⟩ | ⟨x, provisional, hosts, report, rfl, hquiet⟩
  · have hdrops : Dropped g'.shared which := by
      apply hdropped
      rintro input rfl
      exact hfence
    refine ⟨hg.sound.ran hran, hg.current.changes hg.sound.traced hchanges hdrops, ?_⟩
    intro x hx
    exact hg.never x (hchanges.served ▸ hx)
  · have hnone : ∀ {s : ProviderState}, Dropped s fun _ => false :=
      fun q hq => absurd hq (by simp)
    have hcurrent := hg.current.changes hg.sound.traced hchanges hnone
    have htraced := hg.sound.traced.changes hchanges
    refine ⟨hg.sound.ran hran, ?_, ?_⟩
    · exact (hcurrent.serve _).changes (htraced.serve _) hquiet.changes hnone
    · intro x' hx'
      rw [hquiet.changes.served] at hx'
      rcases List.mem_cons.mp hx' with rfl | hold
      · exact hg.sound.traced.fresh hg.current he hbound
      · exact hg.never x' hold
  · have hcaches := @cacheReport_caches gw g.shared x hosts report i.now
    have hcurrent := hg.current.caches hcaches hframe.2 hfence
    have htraced := hg.sound.traced.caches hcaches hframe.1 hframe.2
    refine ⟨hg.sound.ran hran, ?_, ?_⟩
    · exact hcurrent.changes htraced hquiet.changes fun q hq => absurd hq (by simp)
    · intro x' hx'
      rw [hquiet.changes.served, hcaches.served] at hx'
      exact hg.never x' hx'

end

theorem Sound.loaded {cell : UserCell} (h : Loaded cell) :
    @Sound gw (Coop.idle (Secrets.loaded cell)) := by
  refine ⟨⟨fun q hq => ?_, h.declared, fun key e he => ?_⟩,
    fun t c f hpool => absurd hpool (by simp [Coop.idle])⟩
  · obtain ⟨binding, hbinding⟩ := Option.isSome_iff_exists.mp hq
    obtain ⟨hmem, rfl⟩ := Rows.find?_eq_some.mp hbinding
    exact h.bound binding hmem
  · have hempty : cell.secretProviders.lookup key = some e := he
    rw [SecretProviderStore.lookup, h.cache] at hempty
    exact absurd hempty (by simp)

theorem CacheInv.loaded {cell : UserCell} (h : Loaded cell) :
    @CacheInv gw (Coop.idle (Secrets.loaded cell)) := by
  refine ⟨.loaded h, fun key e report he => ?_,
    fun x hx => absurd hx (by simp [Coop.idle, Secrets.loaded])⟩
  have hempty : cell.secretProviders.lookup key = some e := he
  rw [SecretProviderStore.lookup, h.cache] at hempty
  exact absurd hempty (by simp)

/-- **No stale value is served** in any run whose steps are fenced. -/
theorem providers_neverStale {cell : UserCell} (hcell : Loaded cell)
    {g : Coop.Config (providers gw)}
    (h : Reaches Coop.step Fenced (Coop.idle (loaded cell)) g) : NeverStale g :=
  (h.invariant CacheInv (fun _ _ _ hg hfenced hstep => hg.step hfenced hstep) (.loaded hcell)).never

/-! ### Two runs -/

/-- A package that declares the provider `op`. -/
def vaultPackage (name : Text) : PackageRow where
  name := name
  version := "1.0.0"
  manifest :=
    { name := name, version := "1.0.0", description := "", exports := Obj.empty, jobs := Obj.empty
      webhooks := [], subscriptions := [], app := none, dependencies := Obj.empty, hidden := false
      secretProvider := some { id := "op", entry := "vault.js", description := none }
      keywords := [] }
  source := "local"
  createdAt := 0
  updatedAt := 0

/-- Two such packages; `op` is bound to the first and not locked. -/
def vaultCell : UserCell :=
  { emptyCell with
    packages := ⟨[vaultPackage "old-vault", vaultPackage "new-vault"], by decide⟩
    secretProviders := {
      bindings := ⟨[{ providerId := "op", packageName := "old-vault", doorSecretName := "door"
                      config := Obj.empty, locked := false, createdAt := 0, updatedAt := 0 }],
        List.nodup_singleton _⟩
      grants := .empty
      cache := [] } }

theorem vaultCell_loaded : Loaded vaultCell := by
  refine ⟨rfl, fun binding hbinding => ?_, fun row hrow provider hprovider => ?_⟩
  · obtain rfl := List.mem_singleton.mp hbinding
    decide
  · have hid : provider.id = "op" := by
      rcases List.mem_cons.mp hrow with rfl | hrow
      · rw [← Option.some.inj hprovider]
      · obtain rfl := List.mem_singleton.mp hrow
        rw [← Option.some.inj hprovider]
    rw [hid]
    decide

def plainGateway : Gateway where
  host := plainHost
  cacheSeconds := none
  urlHostname := fun _ => none
  toLowerCase := id

/-- The outside: a run reports the value under the ref that was asked for. -/
def reporting (value : Text) : Input where
  now := 0
  run := .ok (.obj [("value", .str value)]) "run"
  doors := [⟨"door", .user, none⟩]
  save := saveClock

/-- Ad hoc code asks for one item. -/
def itemRequest : ProviderRequest where
  packageName := none
  host := "api.example"
  hostApproved := true
  placeholders := [⟨"\x7b\x7bsecret/op:item\x7d\x7d", "op", "item"⟩]

def resume (t : ℕ) (value : Text) : Coop.Event (providers plainGateway) := .resume t (reporting value)

/-- A request whose ref is resolved by a run, with nothing between its pieces. -/
def resolveRun (t : ℕ) (value : Text) : List (Coop.Event (providers plainGateway)) :=
  .call t (.resolve itemRequest) :: List.replicate 5 (resume t value)

def bindNew : Call := .bind
  { providerId := "op", packageName := "new-vault", doorSecretName := "door", config := Obj.empty
    locked := none }

/-- A resolution, one from the cache, a new binding, and again a resolution and one from the cache. -/
def vaultRun : List (Coop.Event (providers plainGateway)) :=
  resolveRun 0 "old" ++ [.call 0 (.resolve itemRequest), resume 0 "", resume 0 ""] ++
  [.call 0 bindNew, resume 0 "", resume 0 "", resume 0 ""] ++
  resolveRun 0 "new" ++ [.call 0 (.resolve itemRequest), resume 0 "", resume 0 ""]

/-- `Fenced` as a check, for runs that save no package. -/
def fences (g : Coop.Config (providers plainGateway)) :
    Coop.Event (providers plainGateway) → Bool
  | .call _ _ => true
  | .resume t _ =>
    match g.pool t with
    | some (_, .caching x _ _ report) => decide (report.startedAt = g.shared.changes x.provider)
    | some (_, .start (.packageSave _)) => false
    | _ => true

theorem fenced_of_fences {g : Coop.Config (providers plainGateway)}
    {e : Coop.Event (providers plainGateway)} (h : fences g e = true) : Fenced g e := by
  cases e with
  | call t c => trivial
  | resume t i =>
    intro c f hpool
    unfold fences at h
    simp only [hpool] at h
    cases f with
    | caching x provisional hosts report => exact fun _ _ => of_decide_eq_true h
    | start call =>
      cases call with
      | packageSave input => exact absurd h (by simp)
      | _ => trivial
    | _ => trivial

theorem providers_neverStale_vaultRun :
    ∃ g, execGuarded Coop.step fences (Coop.idle (loaded vaultCell)) vaultRun = some g ∧
      NeverStale g ∧ g.shared.served.map Serving.value = [("new" : Text), ("old" : Text)] := by
  have hrun : (execGuarded Coop.step fences (Coop.idle (loaded vaultCell)) vaultRun).map
      (fun g => g.shared.served.map Serving.value) = some [("new" : Text), ("old" : Text)] := by
    decide +kernel
  obtain ⟨g, hg, hseen⟩ := Option.map_eq_some_iff.mp hrun
  have hreaches := reaches_of_execGuarded (fun _ _ => fenced_of_fences) hg
  exact ⟨g, hg, providers_neverStale vaultCell_loaded hreaches, hseen⟩

/-- While the old package runs, `op` is bound to the new one; the run then ends. -/
def rebindingRun : List (Coop.Event (providers plainGateway)) :=
  [.call 0 (.resolve itemRequest), resume 0 "", resume 0 "", resume 0 ""] ++
  [.call 1 bindNew, resume 1 "", resume 1 "", resume 1 ""] ++
  [resume 0 "old", resume 0 ""] ++
  [.call 1 (.resolve itemRequest), resume 1 "", resume 1 ""]

/-- **Stale.**  The binding of the new package has returned, and the next request is served from the
    cache what the old one reported. -/
theorem staleServing : Loaded vaultCell ∧
    ∃ g, exec Coop.step (Coop.idle (loaded vaultCell)) rebindingRun = some g ∧
      @Reaches _ _ Coop.step (fun _ _ => True) (Coop.idle (loaded vaultCell)) g ∧
      g.shared.served.map (fun x => (x.value, x.changes, x.report.map Report.startedAt)) =
        [(("old" : Text), 1, some 0)] ∧ ¬ @NeverStale plainGateway g := by
  have hrun : (exec Coop.step (@Coop.idle (providers plainGateway) (loaded vaultCell))
      rebindingRun).map (fun g => g.shared.served.map fun x =>
        (x.value, x.changes, x.report.map Report.startedAt)) =
          some [(("old" : Text), 1, some 0)] := by
    decide +kernel
  obtain ⟨g, hg, hseen⟩ := Option.map_eq_some_iff.mp hrun
  refine ⟨vaultCell_loaded, g, hg, reaches_of_exec hg, hseen, fun h => ?_⟩
  obtain ⟨x, hx, heq⟩ := List.mem_map.mp (hseen ▸ List.mem_singleton_self _)
  obtain ⟨report, hreport, -, -, hle⟩ := h x hx
  rw [hreport] at heq
  simp only [Prod.mk.injEq, Option.map_some, Option.some.injEq] at heq
  omega

end KodyCelld.Secrets
