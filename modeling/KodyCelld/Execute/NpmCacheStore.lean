import KodyCelld.Lib.Eviction
import KodyCelld.Lib.Json

namespace KodyCelld.Execute

open KodyCelld.Lib

/-!
# The npm cache (`execute/npm-cache-store.ts`)

Sources of modules by URL, in at most `maxBytes` bytes: a read notes when an entry was used, a write
stores what is not too large and then deletes the entries that were used least recently.

* `lastStored`, `lastUsed` — what a history of calls stored last under a URL, and when it last used
  it, said without the table;
* `matches_after` — the rows of the table after any history are as the history says;
* `npm_cache_lru` — **a byte-bounded cache in the order of use**.
-/

/-- Largest single module the cache holds. -/
def npmCacheMaxModuleBytes : ℕ := 1800000

/-- A row of `modules`. -/
structure CachedModule where
  url : Text
  source : Text
  bytes : ℕ
  fetchedAt : ℤ
  lastUsedAt : ℤ
  deriving DecidableEq, Repr

structure NpmCacheStore where
  modules : Rows CachedModule.url
  hits : ℕ
  misses : ℕ

namespace NpmCacheStore

/-- The cache as it is created. -/
def empty : NpmCacheStore := { modules := ⟨[], List.nodup_nil⟩, hits := 0, misses := 0 }

/-- `row.fetched_at < minFetchedAt`; without a positive lifetime nothing expires. -/
def expired (now : ℤ) (ttlMs : ℚ) (row : CachedModule) : Bool :=
  decide (0 < ttlMs) && decide ((row.fetchedAt : ℚ) < now - ttlMs)

/-- The loop of `getMany` over the URLs, with what is found so far. -/
def getFrom (now : ℤ) (ttlMs : ℚ) :
    List Text → Rows CachedModule.url → Obj Text → Rows CachedModule.url × Obj Text
  | [], modules, found => (modules, found)
  | url :: rest, modules, found =>
    match modules.find? url with
    | none => getFrom now ttlMs rest modules found
    | some row =>
      if expired now ttlMs row then
        getFrom now ttlMs rest (modules.filter fun r => r.url ≠ url) found
      else
        getFrom now ttlMs rest
          (modules.map (fun r => if r.url = url then { r with lastUsedAt := now } else r) fun r
            => by
            split <;> rfl)
          (found.set url row.source)

/-- The cached sources for the given URLs. -/
def getMany (cache : NpmCacheStore) (now : ℤ) (urls : List Text) (ttlMs : ℚ) :
    Obj Text × NpmCacheStore :=
  if urls = [] then (Obj.empty, cache)
  else
    let (modules, found) := getFrom now ttlMs urls cache.modules Obj.empty
    let hits := found.keys.length
    (found, { modules := modules, hits := cache.hits + hits,
              misses := cache.misses + (urls.length - hits) })

section
variable (maxBytes : WithTop ℚ≥0)

/-- What the store accepts. -/
def accepts (source : Text) : Bool :=
  decide (utf8Length source ≤ npmCacheMaxModuleBytes) &&
    decide (((utf8Length source : ℚ≥0) : WithTop ℚ≥0) ≤ maxBytes)

/-- `INSERT … ON CONFLICT(url) DO UPDATE SET …` -/
def store (now : ℤ) (modules : Rows CachedModule.url) (url source : Text) : Rows CachedModule.url :=
  modules.upsert
    { url := url, source := source, bytes := utf8Length source, fetchedAt := now, lastUsedAt :=
      now }
    (fun row => { row with source := source, bytes := utf8Length source, fetchedAt := now,
                           lastUsedAt := now })
    fun _ => rfl

/-- The loop of `putMany` over the entries, with how many were stored. -/
def putFrom (now : ℤ) :
    List (Text × Text) → Rows CachedModule.url → (stored : ℕ) → Rows CachedModule.url × ℕ
  | [], modules, stored => (modules, stored)
  | (url, source) :: rest, modules, stored =>
    if accepts maxBytes source then putFrom now rest (store now modules url source) (stored + 1)
    else putFrom now rest modules stored

/-- `ORDER BY last_used_at ASC, url ASC` -/
def usedBefore (a b : CachedModule) : Bool :=
  decide (a.lastUsedAt < b.lastUsedAt) || (decide (a.lastUsedAt = b.lastUsedAt) && decide
    (a.url ≤ b.url))

/-- `SELECT SUM(bytes)` -/
def totalBytes (modules : Rows CachedModule.url) : ℕ := (modules.rows.map CachedModule.bytes).sum

def tooMuch (total : ℕ) : Bool := decide (maxBytes < ((total : ℚ≥0) : WithTop ℚ≥0))

/-- Deletes the least recently used rows beyond `maxBytes`. -/
def evict (modules : Rows CachedModule.url) : Rows CachedModule.url × ℕ :=
  modules.evictFrom usedBefore CachedModule.bytes (tooMuch maxBytes) modules.rows.length
    (totalBytes modules)

/-- Stores sources, then evicts; with how many rows were stored and deleted. -/
def putMany (cache : NpmCacheStore) (now : ℤ) (entries : Obj Text) : (ℕ × ℕ) × NpmCacheStore :=
  let (modules, stored) := putFrom maxBytes now entries.entries cache.modules 0
  let (modules, evicted) := evict maxBytes modules
  ((stored, evicted), { cache with modules := modules })

end

/-! ### Histories -/

/-- A call with its reading of the clock. -/
inductive CacheCall where
  | getMany (now : ℤ) (urls : List Text) (ttlMs : ℚ)
  | putMany (now : ℤ) (entries : Obj Text)

section
variable (maxBytes : WithTop ℚ≥0)

def CacheCall.run (cache : NpmCacheStore) : CacheCall → NpmCacheStore
  | .getMany now urls ttlMs => (cache.getMany now urls ttlMs).2
  | .putMany now entries => (cache.putMany maxBytes now entries).2

/-- The cache after a history of calls, the last one first. -/
def after : List CacheCall → NpmCacheStore
  | [] => empty
  | call :: past => call.run maxBytes (after past)

/-- What was stored last under each URL. -/
def lastStored : List CacheCall → Text → Option Text
  | [] => fun _ => none
  | .getMany _ _ _ :: past => lastStored past
  | .putMany _ entries :: past =>
    (entries.entries.filter fun e => accepts maxBytes e.2).foldl
      (fun stored e => Function.update stored e.1 (some e.2)) (lastStored past)

/-- A row that a read finds, and that has not expired. -/
def fresh (modules : Rows CachedModule.url) (now : ℤ) (ttlMs : ℚ) (url : Text) : Bool :=
  (modules.find? url).any fun row => !expired now ttlMs row

/-- The clock when each URL was last used: stored, or found by a read. -/
def lastUsed : List CacheCall → Text → Option ℤ
  | [] => fun _ => none
  | .getMany now urls ttlMs :: past => fun url =>
    if url ∈ urls ∧ fresh (after maxBytes past).modules now ttlMs url = true then some now
    else lastUsed past url
  | .putMany now entries :: past =>
    (entries.entries.filter fun e => accepts maxBytes e.2).foldl
      (fun used e => Function.update used e.1 (some now)) (lastUsed past)

end

/-- Every row has the source that was stored last, its size, and the time of its last use. -/
def Matches (modules : Rows CachedModule.url) (stored : Text → Option Text)
    (used : Text → Option ℤ) : Prop :=
  ∀ row ∈ modules.rows, stored row.url = some row.source ∧ used row.url = some row.lastUsedAt ∧
    row.bytes = utf8Length row.source

theorem matches_store {now : ℤ} {modules : Rows CachedModule.url} {stored : Text → Option Text}
    {used : Text → Option ℤ} (h : Matches modules stored used) (url source : Text) :
    Matches (store now modules url source) (Function.update stored url (some source))
      (Function.update used url (some now)) := by
  intro row hrow
  rcases Rows.mem_upsert_at _ hrow with ⟨hurl, hnew⟩ | ⟨hurl, hold⟩
  · have hrow : row.source = source ∧ row.lastUsedAt = now ∧ row.bytes = utf8Length source := by
      rw [hnew]
      cases modules.find? url <;> exact ⟨rfl, rfl, rfl⟩
    obtain ⟨hsource, hused, hbytes⟩ := hrow
    have hurl : row.url = url := hurl
    rw [hurl, Function.update_self, Function.update_self, hsource, hused, hbytes]
    exact ⟨rfl, rfl, rfl⟩
  · have hurl : row.url ≠ url := hurl
    rw [Function.update_of_ne hurl, Function.update_of_ne hurl]
    exact h row hold

theorem matches_putFrom (maxBytes : WithTop ℚ≥0) {now : ℤ} {entries : List (Text × Text)}
    {modules : Rows CachedModule.url} {stored : Text → Option Text} {used : Text → Option ℤ}
    (h : Matches modules stored used) (count : ℕ) :
    Matches (putFrom maxBytes now entries modules count).1
      ((entries.filter fun e => accepts maxBytes e.2).foldl
        (fun stored e => Function.update stored e.1 (some e.2)) stored)
      ((entries.filter fun e => accepts maxBytes e.2).foldl
        (fun used e => Function.update used e.1 (some now)) used) := by
  induction entries generalizing modules stored used count with
  | nil => exact h
  | cons entry rest ih =>
    obtain ⟨url, source⟩ := entry
    rw [putFrom]
    split
    · rename_i haccepts
      have hkept : ((url, source) :: rest).filter (fun e => accepts maxBytes e.2) =
          (url, source) :: rest.filter fun e => accepts maxBytes e.2 :=
        List.filter_cons_of_pos haccepts
      rw [hkept]
      exact ih (matches_store h url source) (count + 1)
    · rename_i haccepts
      have hleft : ((url, source) :: rest).filter (fun e => accepts maxBytes e.2) =
          rest.filter fun e => accepts maxBytes e.2 := List.filter_cons_of_neg haccepts
      rw [hleft]
      exact ih h count

/-- The rows that are left of matching rows match. -/
theorem Matches.mono {modules modules' : Rows CachedModule.url} {stored : Text → Option Text}
    {used : Text → Option ℤ} (h : Matches modules stored used)
    (hsub : ∀ row ∈ modules'.rows, row ∈ modules.rows) : Matches modules' stored used :=
  fun row hrow => h row (hsub row hrow)

theorem ordering_usedBefore : Rows.Ordering usedBefore where
  total a b := by
    unfold usedBefore
    simp only [Bool.or_eq_true, Bool.and_eq_true, decide_eq_true_eq]
    rcases lt_trichotomy a.lastUsedAt b.lastUsedAt with h | h | h
    · exact .inl (.inl h)
    · rcases le_total a.url b.url with hurl | hurl
      · exact .inl (.inr ⟨h, hurl⟩)
      · exact .inr (.inr ⟨h.symm, hurl⟩)
    · exact .inr (.inl h)
  trans a b c hab hbc := by
    unfold usedBefore at *
    simp only [Bool.or_eq_true, Bool.and_eq_true, decide_eq_true_eq] at *
    rcases hab with hab | ⟨hab, hurl⟩ <;> rcases hbc with hbc | ⟨hbc, hurl'⟩
    · exact .inl (hab.trans hbc)
    · exact .inl (hab.trans_eq hbc)
    · exact .inl (hab.trans_lt hbc)
    · exact .inr ⟨hab.trans hbc, hurl.trans hurl'⟩

theorem usedBefore_le {a b : CachedModule} (h : usedBefore a b = true) :
    a.lastUsedAt ≤ b.lastUsedAt := by
  unfold usedBefore at h
  simp only [Bool.or_eq_true, Bool.and_eq_true, decide_eq_true_eq] at h
  rcases h with h | ⟨h, -⟩
  · exact h.le
  · exact h.le

/-- **One eviction**: what is left fits, and was not used before what is deleted. -/
theorem evict_spec (maxBytes : WithTop ℚ≥0) (modules : Rows CachedModule.url) :
    ((totalBytes (evict maxBytes modules).1 : ℚ≥0) : WithTop ℚ≥0) ≤ maxBytes ∧
      (∀ row ∈ (evict maxBytes modules).1.rows, row ∈ modules.rows) ∧
      ∀ kept ∈ (evict maxBytes modules).1.rows, ∀ gone ∈ modules.rows,
        gone ∉ (evict maxBytes modules).1.rows → gone.lastUsedAt ≤ kept.lastUsedAt := by
  have hnothing : tooMuch maxBytes 0 = false := by
    rw [tooMuch, decide_eq_false_iff_not, not_lt]
    exact bot_le
  obtain ⟨hfits, hsub, horder⟩ := @Rows.evictFrom_spec _ _ _ _ usedBefore CachedModule.bytes
    (tooMuch maxBytes) ordering_usedBefore hnothing _ modules le_rfl
  refine ⟨?_, hsub, fun kept hkept gone hgone hnot =>
    usedBefore_le (horder kept hkept gone hgone hnot)⟩
  rw [tooMuch, decide_eq_false_iff_not, not_lt] at hfits
  exact hfits

/-! ### Reads -/

theorem Matches.congr {modules : Rows CachedModule.url} {stored : Text → Option Text}
    {used used' : Text → Option ℤ} (h : Matches modules stored used)
    (heq : ∀ url, used' url = used url) : Matches modules stored used' := by
  intro row hrow
  rw [heq]
  exact h row hrow

/-- The use of a row that is found is noted. -/
def touch (now : ℤ) (modules : Rows CachedModule.url) (url : Text) : Rows CachedModule.url :=
  modules.map (fun r => if r.url = url then { r with lastUsedAt := now } else r) fun r => by
    split <;> rfl

theorem matches_touch {modules : Rows CachedModule.url} {stored : Text → Option Text}
    {used : Text → Option ℤ} (h : Matches modules stored used) (now : ℤ) (url : Text) :
    Matches (touch now modules url) stored (Function.update used url (some now)) := by
  intro row hrow
  obtain ⟨old, hold, rfl⟩ := Rows.mem_map.mp hrow
  obtain ⟨hstored, hused, hbytes⟩ := h old hold
  by_cases hurl : old.url = url
  · rw [if_pos hurl]
    refine ⟨hstored, ?_, hbytes⟩
    show Function.update used url (some now) old.url = some now
    rw [hurl, Function.update_self]
  · rw [if_neg hurl, Function.update_of_ne hurl]
    exact ⟨hstored, hused, hbytes⟩

theorem totalBytes_touch (now : ℤ) (modules : Rows CachedModule.url) (url : Text) :
    totalBytes (touch now modules url) = totalBytes modules := by
  show ((modules.rows.map _).map CachedModule.bytes).sum = (modules.rows.map CachedModule.bytes).sum
  rw [List.map_map]
  congr 1
  refine List.map_congr_left fun row _ => ?_
  show (if row.url = url then { row with lastUsedAt := now } else row).bytes = row.bytes
  split <;> rfl

/-- Whether a row has expired does not depend on its use. -/
theorem fresh_touch (now : ℤ) (ttlMs : ℚ) (modules : Rows CachedModule.url) (url other : Text) :
    fresh (touch now modules url) now ttlMs other = fresh modules now ttlMs other := by
  rw [fresh, fresh, touch, Rows.find?_map, Option.any_map]
  congr 1
  funext row
  show (!expired now ttlMs (if row.url = url then { row with lastUsedAt := now } else row)) = _
  split <;> rfl

/-- Deleting an expired row makes no other one expire. -/
theorem fresh_delete {now : ℤ} {ttlMs : ℚ} {modules : Rows CachedModule.url} {url : Text}
    (hstale : fresh modules now ttlMs url = false) (other : Text) :
    fresh (modules.filter fun r => r.url ≠ url) now ttlMs other =
      fresh modules now ttlMs other := by
  rw [fresh, Rows.find?_filter]
  cases hfind : modules.find? other with
  | none => rw [fresh, hfind]; rfl
  | some row =>
    obtain ⟨-, rfl⟩ := Rows.find?_eq_some.mp hfind
    by_cases hurl : row.url = url
    · rw [Option.filter_some, if_neg (by simpa using hurl), hurl, hstale]
      rfl
    · rw [Option.filter_some, if_pos (by simpa using hurl), fresh, hfind]

/-- **The loop of a read**: it finds what was stored last, notes the use of what it finds, and makes
    the table no larger. -/
theorem getFrom_spec {now : ℤ} {ttlMs : ℚ} {urls : List Text} {modules : Rows CachedModule.url}
    {found : Obj Text} {stored : Text → Option Text} {used : Text → Option ℤ}
    (h : Matches modules stored used)
    (hfound : ∀ url source, found.get? url = some source → stored url = some source) :
    Matches (getFrom now ttlMs urls modules found).1 stored (fun url =>
        if url ∈ urls ∧ fresh modules now ttlMs url = true then some now else used url) ∧
      (∀ url source, (getFrom now ttlMs urls modules found).2.get? url = some source →
        stored url = some source) ∧
      totalBytes (getFrom now ttlMs urls modules found).1 ≤ totalBytes modules := by
  induction urls generalizing modules found used with
  | nil => exact ⟨h.congr fun url => by simp, hfound, le_rfl⟩
  | cons url rest ih =>
    -- a URL that is not found counts for nothing
    have hskip : ∀ {modules' : Rows CachedModule.url}, fresh modules now ttlMs url = false →
        (∀ other, fresh modules' now ttlMs other = fresh modules now ttlMs other) →
        ∀ other, (if other ∈ url :: rest ∧ fresh modules now ttlMs other = true then some now
          else used other) =
          if other ∈ rest ∧ fresh modules' now ttlMs other =
            true then some now else used other := by
      intro modules' hstale hsame other
      rw [hsame]
      by_cases hother : other = url
      · rw [hother, hstale]
        simp
      · simp [hother]
    rw [getFrom]
    cases hfind : modules.find? url with
    | none =>
      have hstale : fresh modules now ttlMs url = false := by rw [fresh, hfind]; rfl
      obtain ⟨hmatches, hget, htotal⟩ := ih h hfound
      exact ⟨hmatches.congr (hskip hstale fun _ => rfl), hget, htotal⟩
    | some row =>
      dsimp only
      obtain ⟨hrow, hurl⟩ := Rows.find?_eq_some.mp hfind
      split
      · rename_i hexpired
        have hstale : fresh modules now ttlMs url = false := by
          rw [fresh, hfind]
          simp [hexpired]
        obtain ⟨hmatches, hget, htotal⟩ :=
          @ih (modules.filter fun r => r.url ≠ url) found used
            (h.mono fun row hrow => (Rows.mem_filter.mp hrow).1) hfound
        exact ⟨hmatches.congr (hskip hstale (fresh_delete hstale)), hget,
          htotal.trans (Rows.sum_filter_le modules _ CachedModule.bytes)⟩
      · rename_i hlive
        have hfresh : fresh modules now ttlMs url = true := by
          rw [fresh, hfind]
          simpa using hlive
        have hset : ∀ other source, (found.set url row.source).get? other = some source →
            stored other = some source := by
          intro other source hother
          unfold Obj.set at hother
          split at hother
          · exact hfound other source hother
          · rw [Obj.get?_define] at hother
            split at hother
            · rename_i heq
              rw [← heq, ← Option.some.inj hother, ← hurl]
              exact (h row hrow).1
            · exact hfound other source hother
        obtain ⟨hmatches, hget, htotal⟩ := ih (matches_touch h now url) hset
        refine ⟨hmatches.congr fun other => ?_, hget,
          htotal.trans_eq (totalBytes_touch now modules url)⟩
        rw [fresh_touch]
        by_cases hother : other = url
        · rw [hother, Function.update_self, hfresh]
          simp
        · rw [Function.update_of_ne hother]
          simp [hother]

/-- A read of a cache that matches. -/
theorem getMany_spec {cache : NpmCacheStore} {stored : Text → Option Text} {used : Text → Option ℤ}
    (h : Matches cache.modules stored used) (now : ℤ) (urls : List Text) (ttlMs : ℚ) :
    Matches (cache.getMany now urls ttlMs).2.modules stored (fun url =>
        if url ∈ urls ∧ fresh cache.modules now ttlMs url = true then some now else used url) ∧
      (∀ url source, (cache.getMany now urls ttlMs).1.get? url = some source →
        stored url = some source) ∧
      totalBytes (cache.getMany now urls ttlMs).2.modules ≤ totalBytes cache.modules := by
  have hempty : ∀ url source, (Obj.empty : Obj Text).get? url = some source →
      stored url = some source := fun url source hget => absurd hget (by simp)
  unfold getMany
  split
  · rename_i hnil
    exact ⟨h.congr fun url => by simp [hnil], hempty, le_rfl⟩
  · exact getFrom_spec h hempty

/-! ### The cache over a history -/

/-- **After every history** the rows are as the history says, and they fit. -/
theorem matches_after (maxBytes : WithTop ℚ≥0) (past : List CacheCall) :
    Matches (after maxBytes past).modules (lastStored maxBytes past) (lastUsed maxBytes past) ∧
      ((totalBytes (after maxBytes past).modules : ℚ≥0) : WithTop ℚ≥0) ≤ maxBytes := by
  induction past with
  | nil => exact ⟨fun row hrow => absurd hrow List.not_mem_nil, bot_le⟩
  | cons call past ih =>
    obtain ⟨hmatches, hfits⟩ := ih
    cases call with
    | getMany now urls ttlMs =>
      obtain ⟨hread, -, htotal⟩ := getMany_spec hmatches now urls ttlMs
      refine ⟨hread, le_trans ?_ hfits⟩
      exact WithTop.coe_le_coe.mpr (Nat.cast_le.mpr htotal)
    | putMany now entries =>
      obtain ⟨hleft, hsub, -⟩ := evict_spec maxBytes
        (putFrom maxBytes now entries.entries (after maxBytes past).modules 0).1
      exact ⟨(matches_putFrom maxBytes hmatches 0).mono hsub, hleft⟩

/-- The rows that a write has when it starts to evict. -/
def beforeEviction (maxBytes : WithTop ℚ≥0) (past : List CacheCall) (now : ℤ) (entries : Obj Text) :
    Rows CachedModule.url :=
  (putFrom maxBytes now entries.entries (after maxBytes past).modules 0).1

/-- The size of all stored sources. -/
def storedSize (modules : Rows CachedModule.url) : ℕ :=
  (modules.rows.map fun row => utf8Length row.source).sum

theorem Matches.storedSize {modules : Rows CachedModule.url} {stored : Text → Option Text}
    {used : Text → Option ℤ} (h : Matches modules stored used) :
    storedSize modules = totalBytes modules := by
  unfold NpmCacheStore.storedSize totalBytes
  rw [List.map_congr_left fun row hrow => (h row hrow).2.2.symm]

/-- **A byte-bounded cache in the order of use**, after a history of calls. -/
structure BoundedLru (maxBytes : WithTop ℚ≥0) (past : List CacheCall) : Prop where
  /-- What is stored fits, whatever was asked and stored. -/
  bounded : ((storedSize (after maxBytes past).modules : ℚ≥0) : WithTop ℚ≥0) ≤ maxBytes
  /-- What survives a write was last used no earlier than what the write evicts. -/
  recent : ∀ now entries,
    ∀ kept ∈ (after maxBytes (.putMany now entries :: past)).modules.rows,
    ∀ gone ∈ (beforeEviction maxBytes past now entries).rows,
      gone ∉ (after maxBytes (.putMany now entries :: past)).modules.rows →
      ∃ earlier later, lastUsed maxBytes (.putMany now entries :: past) gone.url = some earlier ∧
        lastUsed maxBytes (.putMany now entries :: past) kept.url = some later ∧ earlier ≤ later
  /-- What a read returns is what was stored last under its URL, and all of it was accepted. -/
  exact : ∀ now urls ttlMs url source,
    ((after maxBytes past).getMany now urls ttlMs).1.get? url = some source →
      lastStored maxBytes past url = some source

/-- **The npm cache is a byte-bounded LRU cache** after every history of reads and writes. -/
theorem npm_cache_lru (maxBytes : WithTop ℚ≥0) (past : List CacheCall) :
    BoundedLru maxBytes past := by
  obtain ⟨hmatches, hfits⟩ := matches_after maxBytes past
  refine ⟨by rw [hmatches.storedSize]; exact hfits,
    fun now entries kept hkept gone hgone hnot => ?_,
    ?_⟩
  · have hbefore : Matches (beforeEviction maxBytes past now entries)
        (lastStored maxBytes (.putMany now entries :: past))
        (lastUsed maxBytes (.putMany now entries :: past)) := matches_putFrom maxBytes hmatches 0
    obtain ⟨-, hsub, horder⟩ := evict_spec maxBytes (beforeEviction maxBytes past now entries)
    exact ⟨_, _, (hbefore gone hgone).2.1, (hbefore kept (hsub kept hkept)).2.1,
      horder kept hkept gone hgone hnot⟩
  · intro now urls ttlMs url source hget
    exact (getMany_spec hmatches now urls ttlMs).2.1 url source hget

end NpmCacheStore

end KodyCelld.Execute
