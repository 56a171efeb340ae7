import KodyCelld.Execute.ImportSpecifiers
import KodyCelld.Lib.Rows

namespace KodyCelld.Secrets

open KodyCelld.Lib KodyCelld.Execute

/-!
# Secret-provider bindings and grants (`secrets/provider-store.ts`)

A binding says which package serves the placeholders of a provider id; a grant lets one package
read one ref through a locked binding.  Resolved values live only in the in-memory cache.

* `get_bind`, `get_setLocked`, `get_unbind`, `get_unbindPackage` — the binding of a provider after
  each change;
* `lookup_cachePut`, `lookup_invalidate` — what is cached after each operation on the cache.
-/

structure SecretProviderBinding where
  providerId : Text
  packageName : Text
  doorSecretName : Text
  config : Obj Text
  locked : Bool
  createdAt : ℕ
  updatedAt : ℕ

structure SecretProviderGrant where
  providerId : Text
  canonicalRef : Text
  packageName : Text
  createdAt : ℕ
  deriving DecidableEq

/-- The primary key of a grant. -/
def SecretProviderGrant.key (grant : SecretProviderGrant) : Text × Text × Text :=
  (grant.providerId, grant.canonicalRef, grant.packageName)

structure CachedProviderValue where
  value : Text
  hosts : List Text
  canonicalRef : Text
  expiresAt : ℕ
  deriving DecidableEq

/-- The two tables and the cache, whose keys are `providerId + U+0000 + ref`. -/
structure SecretProviderStore where
  bindings : Rows SecretProviderBinding.providerId
  grants : Rows SecretProviderGrant.key
  cache : List (Text × CachedProviderValue)

namespace SecretProviderStore

def get (store : SecretProviderStore) (providerId : Text) : Option SecretProviderBinding :=
  store.bindings.find? providerId

/-- Drops the cached values of a provider. -/
def invalidate (store : SecretProviderStore) (providerId : Text) : SecretProviderStore :=
  { store with cache := store.cache.filter fun e => !startsWith e.1 (providerId ++ ['\x00']) }

def unbind (store : SecretProviderStore) (providerId : Text) : SecretProviderStore :=
  invalidate { store with
    bindings := store.bindings.filter fun b => decide (b.providerId ≠ providerId)
    grants := store.grants.filter fun g => decide (g.providerId ≠ providerId) } providerId

/-- Packages that stop being bound providers lose their bindings. -/
def unbindPackage (store : SecretProviderStore) (packageName : Text) : SecretProviderStore :=
  let rows := store.bindings.rows.filter fun b => b.packageName = packageName
  rows.foldl (fun store row => store.unbind row.providerId) store

def isGranted (store : SecretProviderStore) (providerId canonicalRef packageName : Text) : Bool :=
  (store.grants.find? (providerId, canonicalRef, packageName)).isSome

/-- Whether a package (`none` for ad hoc code) may resolve the ref through the binding. -/
def permits (store : SecretProviderStore) (binding : SecretProviderBinding) (canonicalRef : Text)
    (packageName : Option Text) : Bool :=
  if !binding.locked then true
  else match packageName with
    | none => false
    | some packageName => store.isGranted binding.providerId canonicalRef packageName

/-! ### Changes -/

structure BindInput where
  providerId : Text
  packageName : Text
  doorSecretName : Text
  config : Obj Text
  locked : Option Bool

/-- Binds a provider id; a rebinding to another package loses the grants. -/
def bind (store : SecretProviderStore) (now : ℕ) (input : BindInput) : SecretProviderStore :=
  let existing := store.get input.providerId
  let locked := input.locked.getD ((existing.map SecretProviderBinding.locked).getD false)
  invalidate { store with
    bindings := store.bindings.upsert
      { providerId := input.providerId, packageName := input.packageName
        doorSecretName := input.doorSecretName, config := input.config, locked := locked
        createdAt := now, updatedAt := now }
      (fun row => { row with
        packageName := input.packageName, doorSecretName := input.doorSecretName
        config := input.config, locked := locked, updatedAt := now })
      (fun _ => rfl)
    grants :=
      if existing.any fun row => decide (row.packageName ≠ input.packageName) then
        store.grants.filter fun g => decide (g.providerId ≠ input.providerId)
      else store.grants } input.providerId

def setLocked (store : SecretProviderStore) (now : ℕ) (providerId : Text) (locked : Bool) :
    Except Thrown SecretProviderStore :=
  if (store.get providerId).isNone then
    .error (.kody "secret_provider_not_bound" ("No provider is bound as \"" ++ providerId ++ "\".") 404)
  else .ok (invalidate { store with
    bindings := store.bindings.map
      (fun row =>
        if row.providerId = providerId then { row with locked := locked, updatedAt := now } else row)
      (fun row => by split <;> rfl) } providerId)

/-- `INSERT … ON CONFLICT DO NOTHING` -/
def grant (store : SecretProviderStore) (now : ℕ) (providerId canonicalRef packageName : Text) :
    SecretProviderStore :=
  { store with
    grants := store.grants.upsert
      { providerId := providerId, canonicalRef := canonicalRef, packageName := packageName
        createdAt := now } id fun _ => rfl }

def revoke (store : SecretProviderStore) (providerId canonicalRef packageName : Text) :
    SecretProviderStore :=
  invalidate { store with
    grants := store.grants.filter fun g =>
      decide (g.key ≠ (providerId, canonicalRef, packageName)) } providerId

/-! ### The cache -/

/-- The key of a ref in the cache. -/
def cacheKey (providerId ref : Text) : Text := providerId ++ '\x00' :: ref

/-- `cache.get(key)` -/
def lookup (store : SecretProviderStore) (key : Text) : Option CachedProviderValue :=
  (store.cache.find? fun e => decide (e.1 = key)).map Prod.snd

/-- `cache.set(key, value)`: a key that is there keeps its place. -/
def cacheSet (cache : List (Text × CachedProviderValue)) (key : Text) (value : CachedProviderValue) :
    List (Text × CachedProviderValue) :=
  if cache.any fun e => decide (e.1 = key) then
    cache.map fun e => if e.1 = key then (key, value) else e
  else cache ++ [(key, value)]

/-- The cached value of a ref; one that has expired is dropped. -/
def cacheGet (store : SecretProviderStore) (now : ℕ) (providerId ref : Text) :
    Option CachedProviderValue × SecretProviderStore :=
  match store.lookup (cacheKey providerId ref) with
  | none => (none, store)
  | some hit =>
    if hit.expiresAt ≤ now then
      (none, { store with
        cache := store.cache.filter fun e => decide (e.1 ≠ cacheKey providerId ref) })
    else (some hit, store)

/-- Caches a value under the ref it was asked for and under its canonical ref. -/
def cachePut (store : SecretProviderStore) (now : ℕ) (providerId ref value : Text)
    (hosts : List Text) (canonicalRef : Text) (ttlMs : ℕ) : SecretProviderStore :=
  if ttlMs = 0 then store
  else
    let cache := if 256 ≤ store.cache.length then [] else store.cache
    let cached := { value := value, hosts := hosts, canonicalRef := canonicalRef
                    expiresAt := now + ttlMs }
    let cache := cacheSet cache (cacheKey providerId ref) cached
    { store with
      cache := if canonicalRef ≠ ref then cacheSet cache (cacheKey providerId canonicalRef) cached
               else cache }

/-! ### What the changes do to the bindings -/

variable {store : SecretProviderStore} {now : ℕ}

@[simp] theorem get_invalidate (providerId q : Text) :
    (store.invalidate providerId).get q = store.get q := rfl

theorem get_bind (input : BindInput) {q : Text} (h : q ≠ input.providerId) :
    (store.bind now input).get q = store.get q := by
  unfold bind get invalidate
  rw [Rows.find?_upsert]
  exact if_neg fun hq => h hq.symm

theorem get_setLocked {store' : SecretProviderStore} {providerId : Text} {locked : Bool}
    (hset : store.setLocked now providerId locked = .ok store') {q : Text} (h : q ≠ providerId) :
    store'.get q = store.get q := by
  unfold setLocked at hset
  split at hset
  · exact absurd hset (by simp)
  rw [← Except.ok.inj hset]
  unfold get invalidate
  rw [Rows.find?_map]
  refine Option.ext fun row => ?_
  rw [Option.map_eq_some_iff]
  -- the row of another provider is not the one updated
  have hkeep : ∀ old, store.bindings.find? q = some old → old.providerId ≠ providerId := by
    intro old hold
    rw [(Rows.find?_eq_some.mp hold).2]
    exact h
  constructor
  · rintro ⟨old, hold, rfl⟩
    rw [if_neg (hkeep old hold)]
    exact hold
  · intro hrow
    exact ⟨row, hrow, if_neg (hkeep row hrow)⟩

/-- A lock that was set: the provider is bound, and only its binding and cached values changed. -/
theorem setLocked_ok {store' : SecretProviderStore} {providerId : Text} {locked : Bool}
    (hset : store.setLocked now providerId locked = .ok store') :
    (store.get providerId).isSome ∧
      ∃ bindings, store' = invalidate { store with bindings := bindings } providerId := by
  unfold setLocked at hset
  split at hset
  · exact absurd hset (by simp)
  rename_i hsome
  refine ⟨?_, _, (Except.ok.inj hset).symm⟩
  cases hget : store.get providerId with
  | none =>
    rw [hget] at hsome
    exact absurd rfl hsome
  | some binding => rfl

theorem get_unbind (providerId q : Text) :
    (store.unbind providerId).get q = if q = providerId then none else store.get q := by
  unfold unbind get invalidate
  rw [Rows.find?_filter]
  split
  · rename_i hq
    rw [Option.filter_eq_none_iff]
    intro row hrow
    rw [(Rows.find?_eq_some.mp hrow).2, hq]
    simp
  · rename_i hq
    refine Option.ext fun row => ?_
    rw [Option.filter_eq_some_iff]
    refine ⟨And.left, fun hrow => ⟨hrow, ?_⟩⟩
    rw [(Rows.find?_eq_some.mp hrow).2]
    exact decide_eq_true hq

/-- Unbinding providers one after the other unbinds these and no others. -/
theorem get_unbindAll (rows : List SecretProviderBinding) (q : Text) :
    (rows.foldl (fun store row => store.unbind row.providerId) store).get q =
      if q ∈ rows.map SecretProviderBinding.providerId then none else store.get q := by
  induction rows generalizing store with
  | nil => simp
  | cons row rest ih =>
    rw [List.foldl_cons, ih, get_unbind, List.map_cons]
    by_cases hrest : q ∈ rest.map SecretProviderBinding.providerId
    · rw [if_pos hrest, if_pos (List.mem_cons_of_mem _ hrest)]
    · by_cases hq : q = row.providerId
      · rw [if_neg hrest, if_pos hq, if_pos (hq ▸ List.mem_cons_self)]
      · rw [if_neg hrest, if_neg hq, if_neg]
        intro hmem
        exact (List.mem_cons.mp hmem).elim hq hrest

/-- Whether the provider is bound to the package. -/
def servedBy (store : SecretProviderStore) (packageName q : Text) : Bool :=
  (store.get q).any fun binding => decide (binding.packageName = packageName)

theorem get_unbindPackage (packageName q : Text) :
    (store.unbindPackage packageName).get q =
      if store.servedBy packageName q = true then none else store.get q := by
  have hiff : q ∈ (store.bindings.rows.filter fun b => b.packageName = packageName).map
      SecretProviderBinding.providerId ↔ store.servedBy packageName q = true := by
    unfold servedBy get
    rw [List.mem_map, Option.any_eq_true]
    refine exists_congr fun row => ?_
    rw [List.mem_filter, Rows.find?_eq_some]
    tauto
  unfold unbindPackage
  rw [get_unbindAll]
  exact if_congr hiff rfl rfl

/-! ### What is cached -/

theorem lookup_filter (keep : Text → Bool) (key : Text) :
    lookup { store with cache := store.cache.filter fun e => keep e.1 } key =
      if keep key = true then store.lookup key else none := by
  unfold lookup
  rw [List.find?_filter]
  split
  · rename_i hkeep
    congr 1
    refine congrArg (fun p => store.cache.find? p) (funext fun e => ?_)
    by_cases he : e.1 = key
    · simp [he, hkeep]
    · simp [he]
  · rename_i hkeep
    rw [Option.map_eq_none_iff, List.find?_eq_none]
    intro e _ he
    simp only [decide_eq_true_eq] at he
    exact hkeep (he.2 ▸ he.1)

theorem lookup_invalidate (providerId key : Text) :
    (store.invalidate providerId).lookup key =
      if startsWith key (providerId ++ ['\x00']) = true then none else store.lookup key := by
  unfold invalidate
  rw [lookup_filter fun k => !startsWith k (providerId ++ ['\x00'])]
  cases startsWith key (providerId ++ ['\x00']) <;> simp

/-- No key of the provider is cached after it was invalidated. -/
theorem lookup_invalidate_cacheKey (providerId ref : Text) :
    (store.invalidate providerId).lookup (cacheKey providerId ref) = none := by
  rw [lookup_invalidate, if_pos]
  refine List.isPrefixOf_iff_prefix.mpr ⟨ref, ?_⟩
  rw [cacheKey, List.append_assoc]
  rfl

theorem lookup_of_invalidate {providerId key : Text} {e : CachedProviderValue}
    (h : (store.invalidate providerId).lookup key = some e) : store.lookup key = some e := by
  rw [lookup_invalidate] at h
  split at h
  · exact absurd h (by simp)
  · exact h

theorem lookup_of_unbindPackage {packageName key : Text} {e : CachedProviderValue}
    (h : (store.unbindPackage packageName).lookup key = some e) : store.lookup key = some e := by
  have hrows : ∀ (rows : List SecretProviderBinding) (store : SecretProviderStore),
      (rows.foldl (fun store row => store.unbind row.providerId) store).lookup key = some e →
        store.lookup key = some e := by
    intro rows
    induction rows with
    | nil => exact fun _ h => h
    | cons row rest ih => exact fun store h => lookup_of_invalidate (ih (store.unbind _) h)
  exact hrows _ store h

theorem lookup_cacheSet (cache : List (Text × CachedProviderValue)) (key k : Text)
    (value : CachedProviderValue) :
    lookup { store with cache := cacheSet cache key value } k =
      if k = key then some value else lookup { store with cache := cache } k := by
  unfold lookup cacheSet
  split
  · rename_i hany
    rw [List.any_eq_true] at hany
    obtain ⟨old, hold, hkey⟩ := hany
    -- an entry keeps its key, so the entry of `k` stays where it is
    have hsame : (fun e : Text × CachedProviderValue => decide (e.1 = k)) ∘
        (fun e => if e.1 = key then (key, value) else e) = fun e => decide (e.1 = k) := by
      funext e
      by_cases he : e.1 = key
      · simp [he]
      · simp [he]
    simp only [List.find?_map, hsame]
    cases hfind : cache.find? fun e => decide (e.1 = k) with
    | none =>
      rw [if_neg]
      · rfl
      rintro rfl
      exact List.find?_eq_none.mp hfind old hold hkey
    | some e =>
      have he : e.1 = k := by simpa using List.find?_some hfind
      by_cases hk : k = key
      · simp [he, hk]
      · simp [he, hk]
  · rename_i hany
    have hnone : cache.find? (fun e => decide (e.1 = key)) = none := by
      refine List.find?_eq_none.mpr fun e he hkey => hany ?_
      exact List.any_eq_true.mpr ⟨e, he, hkey⟩
    simp only [List.find?_append]
    by_cases hk : k = key
    · rw [if_pos hk, hk, hnone]
      simp
    · rw [if_neg hk]
      simp [Ne.symm hk]

/-- What is cached after a value was: the value, under its two keys, and what was there before. -/
theorem lookup_cachePut {providerId ref value canonicalRef : Text} {hosts : List Text} {ttlMs : ℕ}
    {key : Text} {e : CachedProviderValue}
    (h : (store.cachePut now providerId ref value hosts canonicalRef ttlMs).lookup key = some e) :
    (0 < ttlMs ∧ (key = cacheKey providerId ref ∨ key = cacheKey providerId canonicalRef) ∧
      e = ⟨value, hosts, canonicalRef, now + ttlMs⟩) ∨
    ((0 < ttlMs → key ≠ cacheKey providerId ref ∧ key ≠ cacheKey providerId canonicalRef) ∧
      store.lookup key = some e) := by
  unfold cachePut at h
  split at h
  · rename_i httl
    exact .inr ⟨fun hpos => absurd httl (by omega), h⟩
  · rename_i httl
    have hpos : 0 < ttlMs := Nat.pos_of_ne_zero httl
    have hkept : ∀ found, lookup { store with
        cache := if 256 ≤ store.cache.length then [] else store.cache } key = some found →
          store.lookup key = some found := by
      intro found hfound
      split at hfound
      · exact absurd hfound (by simp [lookup])
      · exact hfound
    dsimp only at h
    generalize (if 256 ≤ store.cache.length then [] else store.cache) = cache at h hkept
    by_cases hne : canonicalRef ≠ ref
    · simp only [if_pos hne] at h
      rw [lookup_cacheSet] at h
      split at h
      · rename_i hkey
        exact .inl ⟨hpos, .inr hkey, (Option.some.inj h).symm⟩
      · rename_i hcanonical
        rw [lookup_cacheSet] at h
        split at h
        · rename_i hkey
          exact .inl ⟨hpos, .inl hkey, (Option.some.inj h).symm⟩
        · rename_i hkey
          exact .inr ⟨fun _ => ⟨hkey, hcanonical⟩, hkept e h⟩
    · simp only [if_neg hne] at h
      rw [not_not] at hne
      rw [lookup_cacheSet] at h
      split at h
      · rename_i hkey
        exact .inl ⟨hpos, .inl hkey, (Option.some.inj h).symm⟩
      · rename_i hkey
        exact .inr ⟨fun _ => ⟨hkey, hne ▸ hkey⟩, hkept e h⟩

@[simp] theorem cachePut_bindings (providerId ref value canonicalRef : Text) (hosts : List Text)
    (ttlMs : ℕ) :
    (store.cachePut now providerId ref value hosts canonicalRef ttlMs).bindings = store.bindings := by
  unfold cachePut
  split <;> rfl

@[simp] theorem cachePut_grants (providerId ref value canonicalRef : Text) (hosts : List Text)
    (ttlMs : ℕ) :
    (store.cachePut now providerId ref value hosts canonicalRef ttlMs).grants = store.grants := by
  unfold cachePut
  split <;> rfl

theorem cacheGet_fst {providerId ref : Text} {e : CachedProviderValue}
    (h : (store.cacheGet now providerId ref).1 = some e) :
    store.lookup (cacheKey providerId ref) = some e := by
  unfold cacheGet at h
  split at h
  · exact absurd h (by simp)
  rename_i hit hlookup
  split at h
  · exact absurd h (by simp)
  · exact hlookup.trans h

theorem lookup_of_cacheGet {providerId ref key : Text} {e : CachedProviderValue}
    (h : (store.cacheGet now providerId ref).2.lookup key = some e) :
    store.lookup key = some e := by
  unfold cacheGet at h
  split at h
  · exact h
  · split at h
    · rw [lookup_filter fun k => decide (k ≠ cacheKey providerId ref)] at h
      split at h
      · exact h
      · exact absurd h (by simp)
    · exact h

@[simp] theorem cacheGet_bindings (providerId ref : Text) :
    (store.cacheGet now providerId ref).2.bindings = store.bindings := by
  unfold cacheGet
  split
  · rfl
  · split <;> rfl

@[simp] theorem cacheGet_grants (providerId ref : Text) :
    (store.cacheGet now providerId ref).2.grants = store.grants := by
  unfold cacheGet
  split
  · rfl
  · split <;> rfl

end SecretProviderStore

end KodyCelld.Secrets
