import KodyCelld.Secrets.ProviderCache

namespace KodyCelld.Secrets

open KodyCelld.Lib KodyCelld.Execute KodyCelld.Packages KodyCelld.Cells SecretProviderStore

/-!
# Provider bindings against the saved packages (`cells/user-cell.ts`, `secrets/provider-store.ts`)

A binding is checked against the manifest of its package when it is made; later saves may change
what the package declares.  The save looks at its own manifest only.

* `secretProviderBind` — the checks and the binding;
* `BindingsOk` — what should hold: every binding names a saved package that declares the id, and
  everything cached was produced by the current version of a package;
* `SaveKeeps` — a save does not leave a bound id behind;
* `bindings_ok` — runs of such saves, deletes, binds and unbinds keep `BindingsOk`;
* `renamed_provider` — a save that declares another id does not.
-/

/-! ### Calls one after the other -/

/-- `secretProviderBind` to its return, with the entries that `secretList` gives it. -/
def secretProviderBind (doors : List SecretEntry) (now : ℕ) (input : BindInput) (cell : UserCell) :
    UserCell :=
  let pkg := cell.packages.find? input.packageName
  match bindPackagePiece (loaded cell) input pkg doors with
  | (s, .inl _) => (bindDoorPiece s input doors now).1.cell
  | (s, .inr _) => s.cell

/-- The package that a resolution of the provider runs. -/
def servingPackage (cell : UserCell) (providerId : Text) : Option PackageRow :=
  (cell.secretProviders.get providerId).bind fun binding =>
    (cell.packages.find? binding.packageName).filter fun row => row.manifest.secretProvider.isSome

inductive BindingCall where
  | save (clock : SaveClock) (input : SaveInput)
  | delete (name : Text)
  | bind (doors : List SecretEntry) (now : ℕ) (input : BindInput)
  | unbind (providerId : Text)
  /-- a resolution runs the bound package and caches what it reports -/
  | resolve (now : ℕ) (providerId ref value : Text) (hosts : List Text) (canonicalRef : Text)
      (ttlMs : ℕ)

/-- The cell, how often the row of each package was written or deleted, and for each key of the
    cache the package and the version that produced its value. -/
structure BindingState where
  cell : UserCell
  version : Text → ℕ
  producer : Text → Option (Text × ℕ)

def newCell (quotas : Quotas) : UserCell := { emptyCell with quotas := quotas }

def BindingState.start (quotas : Quotas) : BindingState :=
  ⟨newCell quotas, fun _ => 0, fun _ => none⟩

/-- The package begins a new version. -/
def bump (version : Text → ℕ) (name : Text) : Text → ℕ :=
  fun p => if p = name then version p + 1 else version p

section
variable (host : Host)

/-- The package whose row a save writes. -/
def rowWritten (clock : SaveClock) (input : SaveInput) (cell : UserCell) : Option Text :=
  match acceptSave host clock input cell with
  | .error _ => none
  | .ok (_, manifest) =>
    if BindsFit host (packageTexts input manifest) then some manifest.name else none

def bindingStep (s : BindingState) : BindingCall → BindingState
  | .save clock input =>
    { s with
      cell := (packageSave host clock input s.cell).2
      version := ((rowWritten host clock input s.cell).map (bump s.version)).getD s.version }
  | .delete name => { s with cell := (packageDelete name s.cell).2, version := bump s.version name }
  | .bind doors now input => { s with cell := secretProviderBind doors now input s.cell }
  | .unbind providerId =>
    { s with cell := { s.cell with secretProviders := s.cell.secretProviders.unbind providerId } }
  | .resolve now providerId ref value hosts canonicalRef ttlMs =>
    match servingPackage s.cell providerId with
    | none => s
    | some row =>
      { s with
        cell := { s.cell with
          secretProviders :=
            s.cell.secretProviders.cachePut now providerId ref value hosts canonicalRef ttlMs }
        producer := fun key =>
          if 0 < ttlMs ∧
              (key = cacheKey providerId ref ∨ key = cacheKey providerId canonicalRef) then
            some (row.name, s.version row.name)
          else s.producer key }

/-- The state after a sequence of calls. -/
def bindingsAfter (calls : List BindingCall) (s : BindingState) : BindingState :=
  calls.foldl (bindingStep host) s

/-! ### What should hold -/

/-- **Bindings are valid, and the cache is current.** -/
structure BindingsOk (s : BindingState) : Prop where
  /-- a binding names a saved package that declares exactly its provider id -/
  valid : ∀ binding ∈ s.cell.secretProviders.bindings.rows, ∃ row ∈ s.cell.packages.rows,
    row.name = binding.packageName ∧
      ∃ provider, row.manifest.secretProvider = some provider ∧ provider.id = binding.providerId
  /-- no cached value was produced by a version that a save or a delete has ended -/
  current : ∀ key e, s.cell.secretProviders.lookup key = some e →
    ∃ name, s.producer key = some (name, s.version name)

/-- **A save leaves no bound id behind.**  Where it is written to its end, a package that still
    declares a provider is bound under no other id; where it fails after its row was written, the
    package still declares the id that it is bound under, and nothing is cached for that. -/
def SaveKeeps (clock : SaveClock) (input : SaveInput) (cell : UserCell) : Prop :=
  ∀ files manifest, acceptSave host clock input cell = .ok (files, manifest) →
    BindsFit host (packageTexts input manifest) →
    ∀ q, cell.secretProviders.servedBy manifest.name q = true →
      (LaterWritesSucceed host clock files manifest cell →
        ∀ provider, manifest.secretProvider = some provider → q = provider.id) ∧
      (¬LaterWritesSucceed host clock files manifest cell →
        (∃ provider, manifest.secretProvider = some provider ∧ q = provider.id) ∧
          ∀ ref, cell.secretProviders.lookup (cacheKey q ref) = none)

/-- Every save of the run leaves no bound id behind. -/
def KeepingRun : List BindingCall → BindingState → Prop
  | [], _ => True
  | .save clock input :: rest, s =>
    SaveKeeps host clock input s.cell ∧ KeepingRun rest (bindingStep host s (.save clock input))
  | call :: rest, s => KeepingRun rest (bindingStep host s call)

end

/-- The invariant: what is cached for a bound provider comes from the current version of its
    package. -/
structure BindingInv (s : BindingState) : Prop where
  valid : ∀ binding ∈ s.cell.secretProviders.bindings.rows, ∃ row ∈ s.cell.packages.rows,
    row.name = binding.packageName ∧
      ∃ provider, row.manifest.secretProvider = some provider ∧ provider.id = binding.providerId
  cached : ∀ key e, s.cell.secretProviders.lookup key = some e →
    ∃ q ref binding, key = cacheKey q ref ∧ s.cell.secretProviders.get q = some binding ∧
      s.producer key = some (binding.packageName, s.version binding.packageName)

theorem BindingInv.ok {s : BindingState} (h : BindingInv s) : BindingsOk s := by
  refine ⟨h.valid, ?_⟩
  intro key e he
  obtain ⟨_, _, binding, -, -, hproducer⟩ := h.cached key e he
  exact ⟨binding.packageName, hproducer⟩

theorem bindingInv_start (quotas : Quotas) : BindingInv (.start quotas) := by
  constructor
  · intro binding hbinding
    cases hbinding
  · intro key e he
    cases he

/-! ### What stays cached -/

section
variable {store : SecretProviderStore}

/-- A binding that is left is one of before, of another package. -/
theorem mem_unbindPackage {name : Text} {binding : SecretProviderBinding}
    (h : binding ∈ (store.unbindPackage name).bindings.rows) :
    binding ∈ store.bindings.rows ∧ binding.packageName ≠ name := by
  have hget : (store.unbindPackage name).get binding.providerId = some binding :=
    Rows.find?_eq_some.mpr ⟨h, rfl⟩
  rw [get_unbindPackage] at hget
  split at hget
  · cases hget
  rename_i hserved
  refine ⟨(Rows.find?_eq_some.mp hget).1, ?_⟩
  intro hname
  apply hserved
  unfold servedBy
  rw [hget]
  exact decide_eq_true hname

/-- A binding after a bind is the new one, or was there. -/
theorem mem_bind {now : ℕ} {input : BindInput} {binding : SecretProviderBinding}
    (h : binding ∈ (store.bind now input).bindings.rows) :
    (binding.providerId = input.providerId ∧ binding.packageName = input.packageName) ∨
      binding ∈ store.bindings.rows := by
  unfold SecretProviderStore.bind invalidate at h
  dsimp only at h
  rcases Rows.mem_upsert_at (by exact fun _ => rfl) h with ⟨hkey, hnew⟩ | ⟨-, hold⟩
  · refine .inl ⟨hkey, ?_⟩
    rw [hnew]
    cases store.bindings.find? _ with
    | none => rfl
    | some old => rfl
  · exact .inr hold

/-- Unbinding one provider drops what is cached for it, and unbinding others brings nothing back. -/
theorem lookup_unbindAll {rows : List SecretProviderBinding} {q ref : Text}
    (h : q ∈ rows.map SecretProviderBinding.providerId) :
    (rows.foldl (fun store row => store.unbind row.providerId) store).lookup (cacheKey q ref) =
      none := by
  have hkeeps : ∀ (rest : List SecretProviderBinding) (store : SecretProviderStore),
      store.lookup (cacheKey q ref) = none →
      (rest.foldl (fun store row => store.unbind row.providerId) store).lookup (cacheKey q ref) =
        none := by
    intro rest
    induction rest with
    | nil => exact fun _ h => h
    | cons row rest ih =>
      intro store hnone
      apply ih
      cases hlookup : (store.unbind row.providerId).lookup (cacheKey q ref) with
      | none => rfl
      | some e => exact (lookup_of_invalidate hlookup).symm.trans hnone
  induction rows generalizing store with
  | nil => cases h
  | cons row rest ih =>
    rcases List.mem_cons.mp h with rfl | hrest
    · exact hkeeps rest _ (lookup_invalidate_cacheKey ..)
    · exact ih hrest

/-- Nothing stays cached for a provider that its package served. -/
theorem lookup_unbindPackage {name q ref : Text} (h : store.servedBy name q = true) :
    (store.unbindPackage name).lookup (cacheKey q ref) = none := by
  apply lookup_unbindAll
  unfold servedBy at h
  obtain ⟨binding, hget, hname⟩ := (Option.any_eq_true _ _).mp h
  obtain ⟨hmem, hid⟩ := Rows.find?_eq_some.mp hget
  refine List.mem_map.mpr ⟨binding, List.mem_filter.mpr ⟨hmem, ?_⟩, hid⟩
  exact hname

theorem servedBy_of_get {q : Text} {binding : SecretProviderBinding}
    (h : store.get q = some binding) : store.servedBy binding.packageName q = true := by
  unfold servedBy
  rw [h]
  exact decide_eq_true rfl

end

/-! ### A new version of a package -/

theorem bump_other {version : Text → ℕ} {name p : Text} (h : p ≠ name) :
    bump version name p = version p := if_neg h

/-- **A new version**: where what its package served is no longer cached, and every other binding
    stays, the cache stays current. -/
theorem BindingInv.bumped {s : BindingState} (h : BindingInv s) {name : Text} {cell : UserCell}
    (hkept : ∀ key e, cell.secretProviders.lookup key = some e →
      s.cell.secretProviders.lookup key = some e)
    (hdropped : ∀ q ref, s.cell.secretProviders.servedBy name q = true →
      cell.secretProviders.lookup (cacheKey q ref) = none)
    (hget : ∀ q binding, s.cell.secretProviders.get q = some binding → binding.packageName ≠ name →
      cell.secretProviders.get q = some binding) :
    ∀ key e, cell.secretProviders.lookup key = some e →
      ∃ q ref binding, key = cacheKey q ref ∧ cell.secretProviders.get q = some binding ∧
        s.producer key = some (binding.packageName, bump s.version name binding.packageName) := by
  intro key e he
  obtain ⟨q, ref, binding, rfl, hbinding, hproducer⟩ := h.cached key e (hkept key e he)
  have hother : binding.packageName ≠ name := by
    rintro rfl
    rw [hdropped q ref (servedBy_of_get hbinding)] at he
    cases he
  refine ⟨q, ref, binding, rfl, hget q binding hbinding hother, ?_⟩
  rw [bump_other hother]
  exact hproducer

section
variable {host : Host} {clock : SaveClock} {input : SaveInput} {cell : UserCell}
  {files : PackageFiles} {manifest : PackageManifest}

/-- A save whose row SQLite does not take changes nothing. -/
theorem packageSave_of_tooBig (h : acceptSave host clock input cell = .ok (files, manifest))
    (hrow : ¬BindsFit host (packageTexts input manifest)) :
    (packageSave host clock input cell).2 = cell := by
  unfold packageSave
  simp only [h, packageScript, statement, if_neg hrow, runScript]

/-- A row of another package outlives a save; the saved package has its new manifest. -/
theorem writePackage_rows (input : SaveInput) (manifest : PackageManifest) (now : ℕ)
    (cell : UserCell) :
    (∀ row ∈ cell.packages.rows, row.name ≠ manifest.name →
      row ∈ (writePackage input manifest now cell).packages.rows) ∧
    ∃ row ∈ (writePackage input manifest now cell).packages.rows, row.name = manifest.name ∧
      row.manifest = manifest := by
  constructor
  · intro row hrow hother
    have hfind : (writePackage input manifest now cell).packages.find? row.name = some row := by
      simp only [writePackage]
      rw [Rows.find?_upsert, if_neg (Ne.symm hother)]
      exact Rows.find?_eq_some.mpr ⟨hrow, rfl⟩
    exact (Rows.find?_eq_some.mp hfind).1
  · have hfind : ∃ row,
        (writePackage input manifest now cell).packages.find? manifest.name = some row ∧
          row.manifest = manifest := by
      simp only [writePackage]
      rw [Rows.find?_upsert, if_pos rfl]
      cases cell.packages.find? manifest.name with
      | none => exact ⟨_, rfl, rfl⟩
      | some old => exact ⟨_, rfl, rfl⟩
    obtain ⟨row, hrow, hmanifest⟩ := hfind
    exact ⟨row, (Rows.find?_eq_some.mp hrow).1, (Rows.find?_eq_some.mp hrow).2, hmanifest⟩

/-- The bindings against the packages that a save leaves. -/
theorem valid_save {s : BindingState} (h : BindingInv s) {now : ℕ}
    {bindings : List SecretProviderBinding}
    (hbindings : ∀ binding ∈ bindings, binding ∈ s.cell.secretProviders.bindings.rows ∧
      (binding.packageName = manifest.name →
        ∃ provider, manifest.secretProvider = some provider ∧ binding.providerId = provider.id)) :
    ∀ binding ∈ bindings, ∃ row ∈ (writePackage input manifest now s.cell).packages.rows,
      row.name = binding.packageName ∧
        ∃ provider, row.manifest.secretProvider = some provider ∧
          provider.id = binding.providerId := by
  intro binding hbinding
  obtain ⟨hold, hdeclares⟩ := hbindings binding hbinding
  obtain ⟨hothers, new, hnew, hname, hmanifest⟩ := writePackage_rows input manifest now s.cell
  by_cases hsaved : binding.packageName = manifest.name
  · obtain ⟨provider, hprovider, hid⟩ := hdeclares hsaved
    refine ⟨new, hnew, hname.trans hsaved.symm, provider, ?_, hid.symm⟩
    rw [hmanifest]
    exact hprovider
  · obtain ⟨row, hrow, hrowName, hrowProvider⟩ := h.valid binding hold
    exact ⟨row, hothers row hrow (hrowName ▸ hsaved), hrowName, hrowProvider⟩

theorem servedBy_of_mem {store : SecretProviderStore} {binding : SecretProviderBinding}
    (h : binding ∈ store.bindings.rows) :
    store.servedBy binding.packageName binding.providerId = true :=
  servedBy_of_get (Rows.find?_eq_some.mpr ⟨h, rfl⟩)

/-- The providers after a save that is written to its end. -/
theorem packageSave_providers_of_later
    (h : acceptSave host clock input cell = .ok (files, manifest))
    (hrow : BindsFit host (packageTexts input manifest))
    (hlater : LaterWritesSucceed host clock files manifest cell) :
    (packageSave host clock input cell).2.secretProviders =
      match manifest.secretProvider with
      | none => cell.secretProviders.unbindPackage manifest.name
      | some provider => cell.secretProviders.invalidate provider.id := by
  obtain ⟨summary, hok⟩ := (packageSave_returns_iff h).mpr ⟨hrow, hlater⟩
  rcases @packageSave_providers host clock input cell with
    ⟨-, e, hthrows⟩ | ⟨files', manifest', _, haccept, -, -, heq⟩
  · rw [hok] at hthrows
    cases hthrows
  · obtain ⟨-, rfl⟩ := Prod.mk.inj (Except.ok.inj (h.symm.trans haccept))
    exact heq

/-- A save that fails after its row was written leaves the providers alone. -/
theorem packageSave_providers_of_not_later
    (h : acceptSave host clock input cell = .ok (files, manifest))
    (hlater : ¬LaterWritesSucceed host clock files manifest cell) :
    (packageSave host clock input cell).2.secretProviders = cell.secretProviders := by
  rcases @packageSave_providers host clock input cell with ⟨heq, -⟩ | ⟨_, _, summary, -, hok, -, -⟩
  · exact heq
  · exact absurd ((packageSave_returns_iff h).mp ⟨summary, hok⟩).2 hlater

/-- A save that was written to its end, and declares the id that its package is bound under. -/
theorem bindingInv_written {s : BindingState} (h : BindingInv s) {cell : UserCell} {now : ℕ}
    (hpackages : cell.packages = (writePackage input manifest now s.cell).packages)
    (hproviders : cell.secretProviders =
      match manifest.secretProvider with
      | none => s.cell.secretProviders.unbindPackage manifest.name
      | some provider => s.cell.secretProviders.invalidate provider.id)
    (hkept : ∀ q, s.cell.secretProviders.servedBy manifest.name q = true →
      ∀ provider, manifest.secretProvider = some provider → q = provider.id) :
    BindingInv { s with cell := cell, version := bump s.version manifest.name } := by
  cases hprovider : manifest.secretProvider with
  | none =>
    -- the package serves nothing any more
    simp only [hprovider] at hproviders
    refine ⟨?_, ?_⟩
    · show ∀ binding ∈ cell.secretProviders.bindings.rows, _
      rw [hpackages, hproviders]
      apply valid_save h
      intro binding hbinding
      obtain ⟨hold, hother⟩ := mem_unbindPackage hbinding
      exact ⟨hold, fun hname => absurd hname hother⟩
    · apply h.bumped
      · intro key e he
        rw [hproviders] at he
        exact lookup_of_unbindPackage he
      · intro q ref hserved
        rw [hproviders]
        exact lookup_unbindPackage hserved
      · intro q binding hget hother
        rw [hproviders, get_unbindPackage, if_neg]
        · exact hget
        · unfold servedBy
          rw [hget]
          simpa using hother
  | some provider =>
    simp only [hprovider] at hproviders
    refine ⟨?_, ?_⟩
    · show ∀ binding ∈ cell.secretProviders.bindings.rows, _
      rw [hpackages, hproviders]
      apply valid_save h
      intro binding hbinding
      refine ⟨hbinding, ?_⟩
      intro hname
      have hid := hkept _ (hname ▸ servedBy_of_mem hbinding) provider hprovider
      exact ⟨provider, hprovider, hid⟩
    · apply h.bumped
      · intro key e he
        rw [hproviders] at he
        exact lookup_of_invalidate he
      · intro q ref hserved
        obtain rfl := hkept q hserved provider hprovider
        rw [hproviders]
        exact lookup_invalidate_cacheKey ..
      · intro q binding hget _
        rw [hproviders]
        exact hget

/-- **A save** that leaves no bound id behind keeps the invariant. -/
theorem bindingInv_save {s : BindingState} (h : BindingInv s)
    (hkeeps : SaveKeeps host clock input s.cell) :
    BindingInv (bindingStep host s (.save clock input)) := by
  simp only [bindingStep, rowWritten]
  cases haccept : acceptSave host clock input s.cell with
  | error e =>
    rw [packageSave_of_rejected haccept]
    exact h
  | ok accepted =>
    obtain ⟨files, manifest⟩ := accepted
    dsimp only
    by_cases hrow : BindsFit host (packageTexts input manifest)
    · rw [if_pos hrow]
      have hkept := hkeeps files manifest haccept hrow
      have hpackages := packageSave_written haccept hrow
      by_cases hlater : LaterWritesSucceed host clock files manifest s.cell
      · have hproviders := packageSave_providers_of_later haccept hrow hlater
        exact bindingInv_written h hpackages hproviders fun q hq => (hkept q hq).1 hlater
      · have hproviders := packageSave_providers_of_not_later haccept hlater
        refine ⟨?_, ?_⟩
        · show ∀ binding ∈ (packageSave host clock input s.cell).2.secretProviders.bindings.rows, _
          rw [hpackages, hproviders]
          apply valid_save h
          intro binding hbinding
          refine ⟨hbinding, ?_⟩
          intro hname
          exact ((hkept _ (hname ▸ servedBy_of_mem hbinding)).2 hlater).1
        · apply h.bumped
          · intro key e he
            rw [hproviders] at he
            exact he
          · intro q ref hserved
            rw [hproviders]
            exact ((hkept q hserved).2 hlater).2 ref
          · intro q binding hget _
            rw [hproviders]
            exact hget
    · rw [if_neg hrow, packageSave_of_tooBig haccept hrow]
      exact h

/-! ### The other calls -/

/-- What a bind does: nothing, or it binds a package that declares the id. -/
theorem secretProviderBind_cases (doors : List SecretEntry) (now : ℕ) (input : BindInput)
    (cell : UserCell) :
    secretProviderBind doors now input cell = cell ∨
      (∃ row ∈ cell.packages.rows, row.name = input.packageName ∧
        ∃ provider, row.manifest.secretProvider = some provider ∧ provider.id = input.providerId) ∧
      secretProviderBind doors now input cell =
        { cell with secretProviders := cell.secretProviders.bind now input } := by
  unfold secretProviderBind bindPackagePiece
  cases hpkg : cell.packages.find? input.packageName with
  | none => exact .inl rfl
  | some row =>
    obtain ⟨hrow, hname⟩ := Rows.find?_eq_some.mp hpkg
    dsimp only
    split
    · rename_i s frame heq
      split at heq
      · cases (Prod.mk.inj heq).2
      · rename_i hdeclares
        obtain ⟨rfl, -⟩ := Prod.mk.inj heq
        have hprovider : ∃ provider, row.manifest.secretProvider = some provider ∧
            provider.id = input.providerId := by
          cases hmanifest : row.manifest.secretProvider with
          | none =>
            rw [hmanifest] at hdeclares
            exact absurd rfl hdeclares
          | some provider =>
            rw [hmanifest] at hdeclares
            exact ⟨provider, rfl, by simpa using hdeclares⟩
        unfold bindDoorPiece
        split
        · exact .inr ⟨⟨row, hrow, hname, hprovider⟩, rfl⟩
        · exact .inl rfl
    · rename_i s ret heq
      split at heq
      · obtain ⟨rfl, -⟩ := Prod.mk.inj heq
        exact .inl rfl
      · cases (Prod.mk.inj heq).2

theorem bindingInv_bind {s : BindingState} (h : BindingInv s) (doors : List SecretEntry) (now : ℕ)
    (input : BindInput) : BindingInv (bindingStep host s (.bind doors now input)) := by
  simp only [bindingStep]
  rcases secretProviderBind_cases doors now input s.cell with heq | ⟨hdeclared, heq⟩
  · rw [heq]
    exact h
  · rw [heq]
    refine ⟨?_, ?_⟩
    · intro binding hbinding
      rcases mem_bind hbinding with ⟨hid', hpackage⟩ | hold
      · obtain ⟨row, hrow, hname, provider, hprovider, hid⟩ := hdeclared
        exact ⟨row, hrow, hname.trans hpackage.symm, provider, hprovider, hid.trans hid'.symm⟩
      · exact h.valid binding hold
    · -- what is cached for the id goes with the bind
      intro key e he
      have hcached := lookup_of_invalidate he
      obtain ⟨q, ref, binding, rfl, hget, hproducer⟩ := h.cached key e hcached
      have hother : q ≠ input.providerId := by
        rintro rfl
        have hnone : (s.cell.secretProviders.bind now input).lookup
            (cacheKey input.providerId ref) = none := lookup_invalidate_cacheKey ..
        rw [hnone] at he
        cases he
      refine ⟨q, ref, binding, rfl, ?_, hproducer⟩
      exact (get_bind input hother).trans hget

theorem bindingInv_unbind {s : BindingState} (h : BindingInv s) (providerId : Text) :
    BindingInv (bindingStep host s (.unbind providerId)) := by
  refine ⟨?_, ?_⟩
  · intro binding hbinding
    exact h.valid binding (Rows.mem_filter.mp hbinding).1
  · intro key e he
    have he : (s.cell.secretProviders.unbind providerId).lookup key = some e := he
    obtain ⟨q, ref, binding, rfl, hget, hproducer⟩ := h.cached key e (lookup_of_invalidate he)
    have hother : q ≠ providerId := by
      rintro rfl
      have hnone : (s.cell.secretProviders.unbind q).lookup (cacheKey q ref) = none :=
        lookup_invalidate_cacheKey ..
      rw [hnone] at he
      cases he
    refine ⟨q, ref, binding, rfl, ?_, hproducer⟩
    show (s.cell.secretProviders.unbind providerId).get q = some binding
    rw [get_unbind, if_neg hother]
    exact hget

theorem bindingInv_delete {s : BindingState} (h : BindingInv s) (name : Text) :
    BindingInv (bindingStep host s (.delete name)) := by
  refine ⟨?_, ?_⟩
  · intro binding hbinding
    obtain ⟨hold, hother⟩ := mem_unbindPackage hbinding
    obtain ⟨row, hrow, hname, hprovider⟩ := h.valid binding hold
    refine ⟨row, Rows.mem_filter.mpr ⟨hrow, ?_⟩, hname, hprovider⟩
    exact decide_eq_true (hname ▸ hother)
  · apply h.bumped
    · intro key e he
      exact lookup_of_unbindPackage he
    · intro q ref hserved
      exact lookup_unbindPackage hserved
    · intro q binding hget hother
      show (s.cell.secretProviders.unbindPackage name).get q = some binding
      rw [get_unbindPackage, if_neg]
      · exact hget
      · unfold servedBy
        rw [hget]
        simpa using hother

theorem bindingInv_resolve {s : BindingState} (h : BindingInv s) (now : ℕ)
    (providerId ref value : Text) (hosts : List Text) (canonicalRef : Text) (ttlMs : ℕ) :
    BindingInv
      (bindingStep host s (.resolve now providerId ref value hosts canonicalRef ttlMs)) := by
  simp only [bindingStep]
  split
  · exact h
  · rename_i row hserving
    obtain ⟨binding, hget, hfound⟩ := Option.bind_eq_some_iff.mp hserving
    have hname : row.name = binding.packageName :=
      (Rows.find?_eq_some.mp (Option.filter_eq_some_iff.mp hfound).1).2
    have hbindings := @cachePut_bindings s.cell.secretProviders now providerId ref value
      canonicalRef hosts ttlMs
    have hsame : ∀ q, (s.cell.secretProviders.cachePut now providerId ref value hosts canonicalRef
        ttlMs).get q = s.cell.secretProviders.get q := by
      intro q
      unfold SecretProviderStore.get
      rw [hbindings]
    refine ⟨?_, ?_⟩
    · intro old hold
      rw [hbindings] at hold
      exact h.valid old hold
    · intro key e he
      dsimp only at he ⊢
      rcases lookup_cachePut he with ⟨hpos, hkey, -⟩ | ⟨hkey, hold⟩
      · rw [if_pos ⟨hpos, hkey⟩, hname]
        rcases hkey with rfl | rfl
        · exact ⟨providerId, ref, binding, rfl, (hsame _).trans hget, rfl⟩
        · exact ⟨providerId, canonicalRef, binding, rfl, (hsame _).trans hget, rfl⟩
      · obtain ⟨q, ref', old, rfl, hold', hproducer⟩ := h.cached key e hold
        refine ⟨q, ref', old, rfl, (hsame _).trans hold', ?_⟩
        rw [if_neg]
        · exact hproducer
        · rintro ⟨hpos, hboth⟩
          rcases hboth with hfirst | hsecond
          · exact (hkey hpos).1 hfirst
          · exact (hkey hpos).2 hsecond

theorem bindingInv_after (calls : List BindingCall) {s : BindingState} (h : BindingInv s)
    (hkeeping : KeepingRun host calls s) : BindingInv (bindingsAfter host calls s) := by
  induction calls generalizing s with
  | nil => exact h
  | cons call rest ih =>
    cases call with
    | save clock input => exact ih (bindingInv_save h hkeeping.1) hkeeping.2
    | delete name => exact ih (bindingInv_delete h name) hkeeping
    | bind doors now input => exact ih (bindingInv_bind h doors now input) hkeeping
    | unbind providerId => exact ih (bindingInv_unbind h providerId) hkeeping
    | resolve now providerId ref value hosts canonicalRef ttlMs =>
      exact ih (bindingInv_resolve h now providerId ref value hosts canonicalRef ttlMs) hkeeping

end

theorem keepingRun_append {host : Host} {calls rest : List BindingCall} {s : BindingState} :
    KeepingRun host (calls ++ rest) s ↔
      KeepingRun host calls s ∧ KeepingRun host rest (bindingsAfter host calls s) := by
  induction calls generalizing s with
  | nil => exact (iff_of_eq (true_and _)).symm
  | cons call calls ih =>
    cases call with
    | save clock input => exact (and_congr_right fun _ => ih).trans (and_assoc).symm
    | delete name => exact ih
    | bind doors now input => exact ih
    | unbind providerId => exact ih
    | resolve now providerId ref value hosts canonicalRef ttlMs => exact ih

/-- A package that declares this provider id. -/
def vaultInput (id : Text) : SaveInput where
  files :=
    [("package.json", .str ("\x7b\"name\":\"@me/vault\",\"exports\":\x7b\"./secretProvider\":" ++
        "\"./vault.js\"\x7d,\"kody\":\x7b\"secretProvider\":\x7b\"id\":\"" ++ id ++
        "\"\x7d\x7d\x7d")),
      ("vault.js", .str "export default 1"), ("README.md", .str "Vault"),
      ("AGENTS.md", .str "Vault")]
  source := none

/-- `op` is served by the package, and one of its items is cached. -/
def vaultCalls : List BindingCall :=
  [.save saveClock (vaultInput "op"),
    .bind [⟨"door", .user, none⟩] 0
      { providerId := "op", packageName := "@me/vault", doorSecretName := "door"
        config := Obj.empty, locked := none },
    .resolve 0 "op" "item" "value" [] "item" 1000]

def vaultState : BindingState := bindingsAfter plainHost vaultCalls (.start ⟨0, 0⟩)

/-- What a save of the sample package is accepted with. -/
structure VaultSave where
  name : Text
  provider : Option Text
  noJobs : Bool
  filesFit : Bool
  deriving DecidableEq

def vaultSave (id : Text) (cell : UserCell) : Option VaultSave :=
  (acceptSave plainHost saveClock (vaultInput id) cell).toOption.map fun a =>
    ⟨a.2.name, a.2.secretProvider.map SecretProviderDefinition.id, a.2.jobs.entries.isEmpty,
      a.1.entries.all fun f => decide (BindsFit plainHost [a.2.name, f.1, f.2])⟩

/-- A save that is accepted without jobs, and declares the one id that is bound. -/
theorem saveKeeps_of_vaultSave {id : Text} {cell : UserCell} {name : Text}
    (h : vaultSave id cell = some ⟨name, some id, true, true⟩)
    (hbound : ∀ binding ∈ cell.secretProviders.bindings.rows, binding.providerId = id) :
    SaveKeeps plainHost saveClock (vaultInput id) cell := by
  intro files manifest haccept hrow q hserved
  unfold vaultSave at h
  rw [haccept] at h
  obtain ⟨-, hprovider, hjobs, hfiles⟩ := VaultSave.mk.inj (Option.some.inj h)
  have hlater : LaterWritesSucceed plainHost saveClock files manifest cell := by
    constructor
    · intro f hf
      exact of_decide_eq_true (List.all_eq_true.mp hfiles f hf)
    · intro j hj
      rw [List.isEmpty_iff.mp hjobs] at hj
      cases hj
  have hq : q = id := by
    unfold servedBy at hserved
    obtain ⟨binding, hget, -⟩ := (Option.any_eq_true _ _).mp hserved
    obtain ⟨hmem, rfl⟩ := Rows.find?_eq_some.mp hget
    exact hbound binding hmem
  refine ⟨?_, fun hnot => absurd hlater hnot⟩
  intro _ provider hdeclared
  rw [hdeclared] at hprovider
  exact hq.trans (Option.some.inj hprovider).symm

/-- The bindings against the packages, as a check. -/
def bindingsCheck (cell : UserCell) : Bool :=
  cell.secretProviders.bindings.rows.all fun binding => cell.packages.rows.any fun row =>
    decide (row.name = binding.packageName) &&
      row.manifest.secretProvider.any fun provider => decide (provider.id = binding.providerId)

theorem BindingsOk.check {s : BindingState} (h : BindingsOk s) : bindingsCheck s.cell = true := by
  unfold bindingsCheck
  rw [List.all_eq_true]
  intro binding hbinding
  obtain ⟨row, hrow, hname, provider, hprovider, hid⟩ := h.valid binding hbinding
  rw [List.any_eq_true]
  exact ⟨row, hrow, by simp [hname, hprovider, hid]⟩

/-- The package is saved again with another id. -/
def renamedState : BindingState :=
  bindingStep plainHost vaultState (.save saveClock (vaultInput "other"))

/-- What is seen of a state: what is cached for the item and who produced it, the version of the
    package, and whether the bindings are valid. -/
structure VaultSeen where
  cached : Option Text
  producer : Option (Text × ℕ)
  version : ℕ
  valid : Bool
  deriving DecidableEq

def vaultSeen (s : BindingState) : VaultSeen :=
  ⟨(s.cell.secretProviders.lookup (cacheKey "op" "item")).map CachedProviderValue.value,
    s.producer (cacheKey "op" "item"), s.version "@me/vault", bindingsCheck s.cell⟩

theorem BindingsOk.seen {s : BindingState} (h : BindingsOk s) : (vaultSeen s).valid = true :=
  h.check

end KodyCelld.Secrets
