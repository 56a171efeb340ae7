import KodyCelld.Apps.Serve

namespace KodyCelld.Apps.Serve

open KodyCelld.Lib KodyCelld.Packages

/-!
# Runs of the graph cache

The stamps of an entry are read after its graph was built, each package at a time of its own.

* `DistinctStamp` — a save gets a stamp that no earlier save of the package has;
* `Unchanged` — the stamps of a graph, when they are read, are those of the rows it was built from;
* `served_fresh` — on runs whose steps are so every request is served fresh;
* `staleGraph` — on others an entry with old files passes for a new one.
-/

/-! ### Conditions on the steps -/

/-- No earlier save of the package has the stamp. -/
def DistinctStamp (s : Node) : Event → Prop
  | .save userId name updatedAt _ _ => ∀ w ∈ s.writes, w.userId = userId → w.name = name →
      w.updatedAt ≠ some updatedAt
  | _ => True

/-- Where a step reads the stamps of a graph, every package in the graph, other than that of the app
    itself, still has the stamp of the row that the build has read. -/
def Unchanged (s : Node) : Event → Prop
  | .work e false => ∀ entry graph, s.entries e = some entry → entry.progress = .built graph →
      ∀ name row, graph.Contains name row → name ≠ entry.key.packageName →
        (s.saved entry.key.userId name).map SavedPackage.updatedAt = some row.updatedAt
  | _ => True

/-! ### The invariant -/

/-- The save that wrote the row. -/
def SavedAs (writes : List Write) (userId name : Text) (row : SavedPackage) : Prop :=
  (⟨row.seq, userId, name, some row.updatedAt⟩ : Write) ∈ writes

def Progress.reads : Progress → List (Text × Option SavedPackage)
  | .building reads => reads
  | .built graph => graph.reads
  | .stamped graph _ => graph.reads
  | .unstamped graph => graph.reads
  | .failed => []

/-- A row that an entry has read is as new as the entry; a row of its own package is as new as its
    key. -/
structure ReadOk (writes : List Write) (key : GraphKey) (born : ℕ) (name : Text)
    (row : SavedPackage) : Prop where
  saved : SavedAs writes key.userId name row
  newer : NewerThan writes key.userId name born row
  own : name = key.packageName → ∀ w ∈ writes, w.userId = key.userId → w.name = name →
    w.updatedAt = some key.updatedAt → w.seq ≤ row.seq

structure EntryOk (writes : List Write) (entry : GraphEntry) : Prop where
  born : entry.born ≤ writes.length
  written : ∃ seq, (⟨seq, entry.key.userId, entry.key.packageName, some entry.key.updatedAt⟩ :
    Write) ∈ writes
  reads : ∀ name row, (name, some row) ∈ entry.progress.reads →
    ReadOk writes entry.key entry.born name row
  stamped : ∀ graph stamps, entry.progress = .stamped graph stamps → ∀ name row,
    graph.Contains name row → name ≠ entry.key.packageName → (name, row.updatedAt) ∈ stamps

/-- The key of a request names the version of its package that was there after it started. -/
structure KeyOk (writes : List Write) (userId : Text) (since : ℕ) (key : GraphKey) : Prop where
  user : key.userId = userId
  written : ∃ seq, (⟨seq, key.userId, key.packageName, some key.updatedAt⟩ : Write) ∈ writes ∧
    ∀ w ∈ writes, w.userId = userId → w.name = key.packageName → w.seq ≤ since → w.seq ≤ seq

def EntryOf (entries : ℕ → Option GraphEntry) (key : GraphKey) (e : ℕ) : Prop :=
  ∃ entry, entries e = some entry ∧ entry.key = key

def StampedBy (entries : ℕ → Option GraphEntry) (key : GraphKey) (e : ℕ) (built : Stamps) : Prop :=
  ∃ entry graph, entries e = some entry ∧ entry.key = key ∧ entry.progress = .stamped graph built

/-- The stamps were read after the request started. -/
def ReadAfter (writes : List Write) (userId : Text) (since : ℕ) (now : Stamps) : Prop :=
  ∀ name stamp, (name, stamp) ∈ now → ∃ row : SavedPackage, row.updatedAt = stamp ∧
    SavedAs writes userId name row ∧ NewerThan writes userId name since row

def FrameOk (writes : List Write) (entries : ℕ → Option GraphEntry) (userId : Text) (since : ℕ) :
    Frame → Prop
  | .start => True
  | .keyed key _ => KeyOk writes userId since key
  | .awaitingStamps key _ e => KeyOk writes userId since key ∧ EntryOf entries key e
  | .readingStamps key _ e built => KeyOk writes userId since key ∧ StampedBy entries key e built
  | .comparing key _ e built now => KeyOk writes userId since key ∧ StampedBy entries key e built ∧
      ReadAfter writes userId since now
  | .awaitingGraph e => ∃ entry, entries e = some entry ∧ entry.key.userId = userId ∧
      (since ≤ entry.born ∨
        ∃ graph, entry.progress.graph? = some graph ∧ Fresh writes ⟨userId, since, graph⟩)

structure ServeInv (s : Node) : Prop where
  seqs : ∀ w ∈ s.writes, w.seq ≤ s.writes.length
  distinct : ∀ w ∈ s.writes, ∀ w' ∈ s.writes, ∀ stamp, w.userId = w'.userId → w.name = w'.name →
    w.updatedAt = some stamp → w'.updatedAt = some stamp → w.seq = w'.seq
  saved : ∀ userId name row, s.saved userId name = some row → SavedAs s.writes userId name row ∧
    ∀ w ∈ s.writes, w.userId = userId → w.name = name → w.seq ≤ row.seq
  fresh : ∀ e entry, s.entries e = some entry → e < s.nextEntry
  entries : ∀ e entry, s.entries e = some entry → EntryOk s.writes entry
  cache : ∀ p ∈ s.cache, EntryOf s.entries p.1 p.2
  requests : ∀ t r, s.requests t = some r → r.since ≤ s.writes.length ∧
    FrameOk s.writes s.entries r.userId r.since r.frame
  served : ∀ served ∈ s.served, served.since ≤ s.writes.length ∧ Fresh s.writes served

/-! ### Stamps and the cache -/

theorem mem_packageStamps {s : Node} {userId name : Text} {names : List Text} {stamp : ℕ} :
    (name, stamp) ∈ packageStamps s userId names ↔
      name ∈ names ∧ ∃ row, s.saved userId name = some row ∧ row.updatedAt = stamp := by
  unfold packageStamps
  rw [List.mem_filterMap]
  constructor
  · rintro ⟨name', hmem, heq⟩
    obtain ⟨row, hrow, hpair⟩ := Option.map_eq_some_iff.mp heq
    obtain ⟨rfl, rfl⟩ := Prod.mk.inj hpair
    exact ⟨List.mem_dedup.mp hmem, row, hrow, rfl⟩
  · rintro ⟨hmem, row, hrow, rfl⟩
    refine ⟨name, List.mem_dedup.mpr hmem, ?_⟩
    rw [hrow]
    rfl

theorem mem_of_stampsMatch {a b : Stamps} (h : stampsMatch a b = true) {p : Text × ℕ} (hp : p ∈ a) :
    p ∈ b := by
  rw [stampsMatch, Bool.and_eq_true] at h
  exact of_decide_eq_true (List.all_eq_true.mp h.2 p hp)

section
variable {cache : List (GraphKey × ℕ)} {key : GraphKey} {e : ℕ} {p : GraphKey × ℕ}

theorem mem_of_cacheGet (h : cacheGet cache key = some e) : (key, e) ∈ cache := by
  obtain ⟨p, hp, rfl⟩ := Option.map_eq_some_iff.mp h
  have hkey := List.find?_some hp
  rw [decide_eq_true_eq] at hkey
  subst hkey
  exact List.mem_of_find?_eq_some hp

theorem mem_of_cacheDelete (h : p ∈ cacheDelete cache key) : p ∈ cache :=
  (List.mem_filter.mp h).1

theorem mem_of_dropEntry (h : p ∈ dropEntry cache key e) : p ∈ cache := by
  unfold dropEntry at h
  split at h
  · exact mem_of_cacheDelete h
  · exact h

theorem mem_of_cacheSet (h : p ∈ cacheSet cache key e) : p ∈ cache ∨ p = (key, e) := by
  unfold cacheSet at h
  split at h
  · obtain ⟨q, hq, rfl⟩ := List.mem_map.mp h
    split
    · exact .inr rfl
    · exact .inl hq
  · rcases List.mem_append.mp h with hold | hnew
    · exact .inl hold
    · exact .inr (List.mem_singleton.mp hnew)

theorem mem_of_evict (h : p ∈ evict cache) : p ∈ cache := List.mem_of_mem_drop h

end

/-! ### Another write -/

section
variable {writes : List Write} {w : Write}

/-- A later write does not make a row older. -/
theorem NewerThan.write {userId name : Text} {since : ℕ} {row : SavedPackage}
    (h : NewerThan writes userId name since row) (hlater : since < w.seq) :
    NewerThan (w :: writes) userId name since row := by
  intro w' hw' huser hname hle
  rcases List.mem_cons.mp hw' with rfl | hold
  · omega
  · exact h w' hold huser hname hle

theorem Fresh.write {served : Served} (h : Fresh writes served) (hlater : served.since < w.seq) :
    Fresh (w :: writes) served :=
  fun name row hcontains => (h name row hcontains).write hlater

theorem KeyOk.write {userId : Text} {since : ℕ} {key : GraphKey} (h : KeyOk writes userId since key)
    (hlater : since < w.seq) : KeyOk (w :: writes) userId since key := by
  obtain ⟨seq, hmem, hnewest⟩ := h.written
  refine ⟨h.user, seq, List.mem_cons_of_mem _ hmem, ?_⟩
  intro w' hw' huser hname hle
  rcases List.mem_cons.mp hw' with rfl | hold
  · omega
  · exact hnewest w' hold huser hname hle

/-- The write has a stamp of its own. -/
def NewStamp (writes : List Write) (w : Write) : Prop :=
  ∀ w' ∈ writes, w'.userId = w.userId → w'.name = w.name → w.updatedAt ≠ none →
    w'.updatedAt ≠ w.updatedAt

theorem EntryOk.write {entry : GraphEntry} (h : EntryOk writes entry)
    (hseq : w.seq = writes.length + 1) (hstamp : NewStamp writes w) :
    EntryOk (w :: writes) entry := by
  obtain ⟨seq, hwritten⟩ := h.written
  have hborn := h.born
  refine ⟨?_, ⟨seq, List.mem_cons_of_mem _ hwritten⟩, ?_, h.stamped⟩
  · rw [List.length_cons]
    omega
  · intro name row hread
    obtain ⟨hsaved, hnewer, hown⟩ := h.reads name row hread
    refine ⟨List.mem_cons_of_mem _ hsaved, hnewer.write (by omega), ?_⟩
    intro hname w' hw' huser hname' hupdated
    rcases List.mem_cons.mp hw' with rfl | hold
    · -- the stamp of the key belongs to an earlier save
      refine absurd hupdated.symm (hstamp _ hwritten huser.symm ?_ ?_)
      · exact (hname'.trans hname).symm
      · rw [hupdated]
        nofun
    · exact hown hname w' hold huser hname' hupdated

theorem FrameOk.write {entries : ℕ → Option GraphEntry} {userId : Text} {since : ℕ} {frame : Frame}
    (h : FrameOk writes entries userId since frame) (hlater : since < w.seq) :
    FrameOk (w :: writes) entries userId since frame := by
  cases frame with
  | start => trivial
  | keyed key entryPath => exact KeyOk.write h hlater
  | awaitingStamps key entryPath e => exact ⟨h.1.write hlater, h.2⟩
  | readingStamps key entryPath e built => exact ⟨h.1.write hlater, h.2⟩
  | comparing key entryPath e built now =>
    obtain ⟨hkey, hstamped, hread⟩ := h
    refine ⟨hkey.write hlater, hstamped, ?_⟩
    intro name stamp hmem
    obtain ⟨row, hrow, hsaved, hnewer⟩ := hread name stamp hmem
    exact ⟨row, hrow, List.mem_cons_of_mem _ hsaved, hnewer.write hlater⟩
  | awaitingGraph e =>
    obtain ⟨entry, hentry, huser, hborn | ⟨graph, hgraph, hfresh⟩⟩ := h
    · exact ⟨entry, hentry, huser, .inl hborn⟩
    · exact ⟨entry, hentry, huser, .inr ⟨graph, hgraph, hfresh.write hlater⟩⟩

/-- **A write** keeps the invariant: what was read before is as new as it was. -/
theorem ServeInv.write {s : Node} (h : ServeInv s) (hseq : w.seq = s.writes.length + 1)
    (hstamp : NewStamp s.writes w) {saved : Text → Text → Option SavedPackage}
    (hsaved : ∀ userId name row, saved userId name = some row →
      SavedAs (w :: s.writes) userId name row ∧
        ∀ w' ∈ w :: s.writes, w'.userId = userId → w'.name = name → w'.seq ≤ row.seq) :
    ServeInv { s with saved := saved, writes := w :: s.writes } := by
  have hlater : ∀ n, n ≤ s.writes.length → n ≤ (w :: s.writes).length ∧ n < w.seq := by
    intro n hn
    rw [List.length_cons]
    omega
  refine ⟨?_, ?_, hsaved, h.fresh, ?_, h.cache, ?_, ?_⟩
  · intro w' hw'
    rcases List.mem_cons.mp hw' with rfl | hold
    · exact hseq.le
    · exact (hlater _ (h.seqs w' hold)).1
  · intro a ha b hb stamp huser hname hupdated hupdated'
    rcases List.mem_cons.mp ha with rfl | ha'
    · rcases List.mem_cons.mp hb with rfl | hb'
      · rfl
      · refine absurd (hupdated'.trans hupdated.symm) (hstamp b hb' huser.symm hname.symm ?_)
        rw [hupdated]
        nofun
    · rcases List.mem_cons.mp hb with rfl | hb'
      · refine absurd (hupdated.trans hupdated'.symm) (hstamp a ha' huser hname ?_)
        rw [hupdated']
        nofun
      · exact h.distinct a ha' b hb' stamp huser hname hupdated hupdated'
  · intro e entry hentry
    exact (h.entries e entry hentry).write hseq hstamp
  · intro t r hr
    obtain ⟨hsince, hframe⟩ := h.requests t r hr
    exact ⟨(hlater _ hsince).1, hframe.write (hlater _ hsince).2⟩
  · intro served hserved
    obtain ⟨hsince, hfresh⟩ := h.served served hserved
    exact ⟨(hlater _ hsince).1, hfresh.write (hlater _ hsince).2⟩

end

/-! ### The steps of the node -/

section
variable {s : Node} {t e : ℕ} {r : Request} {entry : GraphEntry}

theorem ServeInv.setFrame (h : ServeInv s) (hr : s.requests t = some r) {frame : Frame}
    (hframe : FrameOk s.writes s.entries r.userId r.since frame) :
    ServeInv (setFrame s t r frame) := by
  refine ⟨h.seqs, h.distinct, h.saved, h.fresh, h.entries, h.cache, ?_, h.served⟩
  intro u r' hu
  have hu : Function.update s.requests t (some { r with frame := frame }) u = some r' := hu
  by_cases hut : u = t
  · rw [hut, Function.update_self] at hu
    obtain rfl := Option.some.inj hu
    exact ⟨(h.requests t r hr).1, hframe⟩
  · rw [Function.update_of_ne hut] at hu
    exact h.requests u r' hu

theorem ServeInv.finish (h : ServeInv s) : ServeInv (finish s t) := by
  refine ⟨h.seqs, h.distinct, h.saved, h.fresh, h.entries, h.cache, ?_, h.served⟩
  intro u r' hu
  have hu : Function.update s.requests t none u = some r' := hu
  by_cases hut : u = t
  · rw [hut, Function.update_self] at hu
    cases hu
  · rw [Function.update_of_ne hut] at hu
    exact h.requests u r' hu

/-- The cache may hold any entries under their keys. -/
theorem ServeInv.setCache (h : ServeInv s) {cache : List (GraphKey × ℕ)}
    (hcache : ∀ p ∈ cache, EntryOf s.entries p.1 p.2) : ServeInv { s with cache := cache } :=
  ⟨h.seqs, h.distinct, h.saved, h.fresh, h.entries, hcache, h.requests, h.served⟩

/-- The entries go on: each keeps its key, its age, its graph and its stamps. -/
def Extends (entries entries' : ℕ → Option GraphEntry) : Prop :=
  ∀ e entry, entries e = some entry → ∃ entry', entries' e = some entry' ∧
    entry'.key = entry.key ∧ entry'.born = entry.born ∧
    (∀ graph, entry.progress.graph? = some graph → entry'.progress.graph? = some graph) ∧
    ∀ graph stamps, entry.progress = .stamped graph stamps →
      entry'.progress = .stamped graph stamps

theorem EntryOf.extends {entries entries' : ℕ → Option GraphEntry} {key : GraphKey}
    (h : EntryOf entries key e) (hextends : Extends entries entries') : EntryOf entries' key e := by
  obtain ⟨entry, hentry, hkey⟩ := h
  obtain ⟨entry', hentry', hkey', -⟩ := hextends e entry hentry
  exact ⟨entry', hentry', hkey'.trans hkey⟩

theorem StampedBy.extends {entries entries' : ℕ → Option GraphEntry} {key : GraphKey}
    {built : Stamps}
    (h : StampedBy entries key e built) (hextends : Extends entries entries') :
    StampedBy entries' key e built := by
  obtain ⟨entry, graph, hentry, hkey, hstamped⟩ := h
  obtain ⟨entry', hentry', hkey', -, -, hkeeps⟩ := hextends e entry hentry
  exact ⟨entry', graph, hentry', hkey'.trans hkey, hkeeps graph built hstamped⟩

theorem FrameOk.extends {writes : List Write} {entries entries' : ℕ → Option GraphEntry}
    {userId : Text} {since : ℕ} {frame : Frame} (h : FrameOk writes entries userId since frame)
    (hextends : Extends entries entries') : FrameOk writes entries' userId since frame := by
  cases frame with
  | start => trivial
  | keyed key entryPath => exact h
  | awaitingStamps key entryPath e => exact ⟨h.1, h.2.extends hextends⟩
  | readingStamps key entryPath e built => exact ⟨h.1, h.2.extends hextends⟩
  | comparing key entryPath e built now => exact ⟨h.1, h.2.1.extends hextends, h.2.2⟩
  | awaitingGraph e =>
    obtain ⟨entry, hentry, huser, hfresh⟩ := h
    obtain ⟨entry', hentry', hkey, hborn, hgraph, -⟩ := hextends e entry hentry
    refine ⟨entry', hentry', by rw [hkey, huser], ?_⟩
    rcases hfresh with hsince | ⟨graph, hbuilt, hfresh⟩
    · exact .inl (hsince.trans hborn.ge)
    · exact .inr ⟨graph, hgraph graph hbuilt, hfresh⟩

/-- **The entries go on**, and the rest stays. -/
theorem ServeInv.setEntries (h : ServeInv s) {entries : ℕ → Option GraphEntry} {nextEntry : ℕ}
    (hextends : Extends s.entries entries)
    (hfresh : ∀ e entry, entries e = some entry → e < nextEntry)
    (hentries : ∀ e entry, entries e = some entry → EntryOk s.writes entry) :
    ServeInv { s with entries := entries, nextEntry := nextEntry } := by
  refine ⟨h.seqs, h.distinct, h.saved, hfresh, hentries, ?_, ?_, h.served⟩
  · intro p hp
    exact (h.cache p hp).extends hextends
  · intro t r hr
    obtain ⟨hsince, hframe⟩ := h.requests t r hr
    exact ⟨hsince, hframe.extends hextends⟩

/-- **A miss** opens an entry that is as new as the request. -/
theorem ServeInv.freshBuild (h : ServeInv s) (hr : s.requests t = some r) {key : GraphKey}
    (hkey : KeyOk s.writes r.userId r.since key) (entryPath : Text) :
    ServeInv (freshBuild s t r key entryPath) := by
  let new : GraphEntry := ⟨key, entryPath, s.writes.length, .building []⟩
  let entries := Function.update s.entries s.nextEntry (some new)
  have hextends : Extends s.entries entries := by
    intro e entry hentry
    have hne : e ≠ s.nextEntry := (h.fresh e entry hentry).ne
    exact ⟨entry, (Function.update_of_ne hne ..).trans hentry, rfl, rfl, fun _ hg => hg,
      fun _ _ hg => hg⟩
  have hnew : entries s.nextEntry = some new := Function.update_self ..
  have hopened : ServeInv { s with entries := entries, nextEntry := s.nextEntry + 1 } := by
    apply h.setEntries hextends
    · intro e entry hentry
      by_cases he : e = s.nextEntry
      · omega
      · have hold : s.entries e = some entry := (Function.update_of_ne he ..).symm.trans hentry
        have := h.fresh e entry hold
        omega
    · intro e entry hentry
      by_cases he : e = s.nextEntry
      · rw [he, hnew] at hentry
        obtain rfl := Option.some.inj hentry
        obtain ⟨seq, hwritten, -⟩ := hkey.written
        refine ⟨le_refl _, ⟨seq, hwritten⟩, ?_, nofun⟩
        intro name row hread
        cases hread
      · exact h.entries e entry ((Function.update_of_ne he ..).symm.trans hentry)
  have hcached : ServeInv { s with
      entries := entries
      nextEntry := s.nextEntry + 1
      cache := evict (cacheSet s.cache key s.nextEntry) } := by
    apply hopened.setCache
    intro p hp
    rcases mem_of_cacheSet (mem_of_evict hp) with hold | rfl
    · exact (h.cache p hold).extends hextends
    · exact ⟨new, hnew, rfl⟩
  apply hcached.setFrame hr
  exact ⟨new, hnew, hkey.user, .inl (h.requests t r hr).1⟩

theorem ServeInv.rebuild (h : ServeInv s) (hr : s.requests t = some r) {key : GraphKey}
    (hkey : KeyOk s.writes r.userId r.since key) (entryPath : Text) (e : ℕ) :
    ServeInv (rebuild s t r key entryPath e) := by
  have hdropped : ServeInv { s with cache := dropEntry s.cache key e } := by
    apply h.setCache
    intro p hp
    exact h.cache p (mem_of_dropEntry hp)
  exact hdropped.freshBuild hr hkey entryPath

/-! ### A request that is served -/

/-- A key names a version that is as new as the request, and the graph of an entry has that version
    of its own package, or a newer one. -/
theorem own_newer {userId : Text} {since born : ℕ} {key : GraphKey}
    (hkey : KeyOk s.writes userId since key) {name : Text} {row : SavedPackage}
    (hread : ReadOk s.writes key born name row) (hname : name = key.packageName) :
    NewerThan s.writes userId name since row := by
  intro w hw huser hwname hle
  obtain ⟨seq, hwritten, hnewest⟩ := hkey.written
  have hseq := hnewest w hw huser (hwname.trans hname) hle
  have hown := hread.own hname _ hwritten rfl hname.symm rfl
  exact hseq.trans hown

/-- **Two rows with one stamp are one version.** -/
theorem newer_of_stamp {userId name : Text} {since : ℕ} (h : ServeInv s) {row now : SavedPackage}
    (hrow : SavedAs s.writes userId name row) (hnow : SavedAs s.writes userId name now)
    (hstamp : now.updatedAt = row.updatedAt) (hnewer : NewerThan s.writes userId name since now) :
    NewerThan s.writes userId name since row := by
  have hseq : row.seq = now.seq :=
    h.distinct _ hrow _ hnow row.updatedAt rfl rfl rfl (congrArg some hstamp)
  intro w hw huser hname hle
  rw [hseq]
  exact hnewer w hw huser hname hle

/-- **An entry whose stamps match is fresh.** -/
theorem fresh_of_match {userId : Text} {since : ℕ} (h : ServeInv s) {graph : ModuleGraph}
    {built now : Stamps} (hentry : s.entries e = some entry)
    (hstamped : entry.progress = .stamped graph built)
    (hkey : KeyOk s.writes userId since entry.key) (hread : ReadAfter s.writes userId since now)
    (hmatch : stampsMatch built now = true) : Fresh s.writes ⟨userId, since, graph⟩ := by
  intro name row hcontains
  have hok := h.entries e entry hentry
  have hrow : ReadOk s.writes entry.key entry.born name row := by
    apply hok.reads
    rw [hstamped]
    exact hcontains.2
  by_cases hname : name = entry.key.packageName
  · exact own_newer hkey hrow hname
  · have hbuilt := hok.stamped graph built hstamped name row hcontains hname
    obtain ⟨now, hstamp, hsaved, hnewer⟩ := hread name _ (mem_of_stampsMatch hmatch hbuilt)
    have hrowSaved := hrow.saved
    rw [hkey.user] at hrowSaved
    exact newer_of_stamp h hrowSaved hsaved hstamp hnewer

/-- What a request awaits is fresh once it is there. -/
theorem fresh_of_awaited {graph : ModuleGraph} (h : ServeInv s) (hr : s.requests t = some r)
    (hframe : r.frame = .awaitingGraph e) (hentry : s.entries e = some entry)
    (hgraph : entry.progress.graph? = some graph) : Fresh s.writes ⟨r.userId, r.since, graph⟩ := by
  have hok := (h.requests t r hr).2
  rw [hframe] at hok
  obtain ⟨entry', hentry', huser, hfresh⟩ := hok
  obtain rfl := Option.some.inj (hentry.symm.trans hentry')
  rcases hfresh with hborn | ⟨graph', hgraph', hfresh⟩
  · -- the request opened the entry, or came before it
    intro name row hcontains w hw hwuser hwname hle
    have hreads : (name, some row) ∈ entry.progress.reads := by
      cases hprogress : entry.progress with
      | building reads =>
        rw [hprogress] at hgraph
        cases hgraph
      | failed =>
        rw [hprogress] at hgraph
        cases hgraph
      | built g =>
        rw [hprogress] at hgraph
        obtain rfl := Option.some.inj hgraph
        exact hcontains.2
      | stamped g stamps =>
        rw [hprogress] at hgraph
        obtain rfl := Option.some.inj hgraph
        exact hcontains.2
      | unstamped g =>
        rw [hprogress] at hgraph
        obtain rfl := Option.some.inj hgraph
        exact hcontains.2
    have hnewer := ((h.entries e entry hentry).reads name row hreads).newer
    exact hnewer w hw (hwuser.trans huser.symm) hwname (hle.trans hborn)
  · obtain rfl := Option.some.inj (hgraph.symm.trans hgraph')
    exact hfresh

/-! ### The steps of a request -/

theorem ServeInv.resume (h : ServeInv s) (hr : s.requests t = some r) {rejected : Bool} {s' : Node}
    (hstep : resume s t r rejected = some s') : ServeInv s' := by
  obtain ⟨hsince, hframe⟩ := h.requests t r hr
  unfold Serve.resume at hstep
  cases hcase : r.frame with
  | start =>
    simp only [hcase] at hstep
    split at hstep
    · obtain rfl := Option.some.inj hstep
      exact h.finish
    · split at hstep
      · obtain rfl := Option.some.inj hstep
        exact h.finish
      · rename_i pkg hpkg
        split at hstep
        · obtain rfl := Option.some.inj hstep
          exact h.finish
        · obtain rfl := Option.some.inj hstep
          obtain ⟨hsaved, hnewest⟩ := h.saved r.userId r.packageName pkg hpkg
          apply h.setFrame hr
          refine ⟨rfl, pkg.seq, hsaved, ?_⟩
          intro w hw huser hname _
          exact hnewest w hw huser hname
  | keyed key entryPath =>
    simp only [hcase] at hstep
    rw [hcase] at hframe
    split at hstep
    · rename_i e hget
      obtain rfl := Option.some.inj hstep
      exact h.setFrame hr ⟨hframe, h.cache _ (mem_of_cacheGet hget)⟩
    · obtain rfl := Option.some.inj hstep
      exact h.freshBuild hr hframe entryPath
  | awaitingStamps key entryPath e =>
    simp only [hcase] at hstep
    rw [hcase] at hframe
    obtain ⟨hkey, entry, hentry, hentryKey⟩ := hframe
    split at hstep
    · rename_i graph built hprogress
      obtain rfl := Option.some.inj hstep
      rw [progressOf, hentry] at hprogress
      exact h.setFrame hr ⟨hkey, entry, graph, hentry, hentryKey, Option.some.inj hprogress⟩
    · obtain rfl := Option.some.inj hstep
      exact h.rebuild hr hkey entryPath e
    · obtain rfl := Option.some.inj hstep
      exact h.rebuild hr hkey entryPath e
    · cases hstep
  | readingStamps key entryPath e built =>
    simp only [hcase] at hstep
    rw [hcase] at hframe
    obtain ⟨hkey, hstamped⟩ := hframe
    split at hstep
    · obtain rfl := Option.some.inj hstep
      exact h.rebuild hr hkey entryPath e
    · obtain rfl := Option.some.inj hstep
      refine h.setFrame hr ⟨hkey, hstamped, ?_⟩
      intro name stamp hmem
      obtain ⟨-, row, hrow, hstamp⟩ := mem_packageStamps.mp hmem
      obtain ⟨hsaved, hnewest⟩ := h.saved r.userId name row hrow
      exact ⟨row, hstamp, hsaved, fun w hw huser hname _ => hnewest w hw huser hname⟩
  | comparing key entryPath e built now =>
    simp only [hcase] at hstep
    rw [hcase] at hframe
    obtain ⟨hkey, ⟨entry, graph, hentry, hentryKey, hstamped⟩, hread⟩ := hframe
    split at hstep
    · rename_i hmatch
      obtain rfl := Option.some.inj hstep
      subst hentryKey
      let cache := cacheSet (cacheDelete s.cache entry.key) entry.key e
      have hcached : ServeInv { s with cache := cache } := by
        apply h.setCache
        intro p hp
        rcases mem_of_cacheSet hp with hold | rfl
        · exact h.cache p (mem_of_cacheDelete hold)
        · exact ⟨entry, hentry, rfl⟩
      apply hcached.setFrame hr
      refine ⟨entry, hentry, hkey.user, .inr ⟨graph, by rw [hstamped]; rfl, ?_⟩⟩
      exact fresh_of_match h hentry hstamped hkey hread hmatch.1
    · obtain rfl := Option.some.inj hstep
      exact h.rebuild hr hkey entryPath e
  | awaitingGraph e =>
    simp only [hcase] at hstep
    split at hstep
    · obtain rfl := Option.some.inj hstep
      exact h.finish
    · rename_i progress _ hprogress
      obtain ⟨graph, hgraph, rfl⟩ := Option.map_eq_some_iff.mp hstep
      obtain ⟨entry, hentry, rfl⟩ := Option.map_eq_some_iff.mp hprogress
      have hfinished := h.finish (t := t)
      refine { hfinished with served := ?_ }
      intro served hserved
      rcases List.mem_cons.mp hserved with rfl | hold
      · exact ⟨hsince, @fresh_of_awaited s t e r entry graph h hr hcase hentry hgraph⟩
      · exact h.served served hold
    · cases hstep

/-! ### The promises of an entry -/

/-- An entry that goes on keeps its graph and its stamps. -/
theorem ServeInv.setProgress (h : ServeInv s) (hentry : s.entries e = some entry)
    {progress : Progress}
    (hgraph : ∀ graph, entry.progress.graph? = some graph → progress.graph? = some graph)
    (hkeeps : ∀ graph stamps, entry.progress = .stamped graph stamps →
      progress = .stamped graph stamps)
    (hok : EntryOk s.writes { entry with progress := progress }) :
    ServeInv (setProgress s e entry progress) := by
  apply h.setEntries
  · intro u old hold
    by_cases hue : u = e
    · subst hue
      obtain rfl := Option.some.inj (hentry.symm.trans hold)
      exact ⟨_, Function.update_self .., rfl, rfl, hgraph, hkeeps⟩
    · exact ⟨old, (Function.update_of_ne hue ..).trans hold, rfl, rfl, fun _ hg => hg,
        fun _ _ hg => hg⟩
  · intro u old hold
    by_cases hue : u = e
    · exact hue ▸ h.fresh e entry hentry
    · exact h.fresh u old ((Function.update_of_ne hue ..).symm.trans hold)
  · intro u old hold
    by_cases hue : u = e
    · rw [hue, Function.update_self] at hold
      obtain rfl := Option.some.inj hold
      exact hok
    · exact h.entries u old ((Function.update_of_ne hue ..).symm.trans hold)

/-- A promise that was rejected. -/
theorem ServeInv.reject (h : ServeInv s) (hentry : s.entries e = some entry) {progress : Progress}
    (hgraph : ∀ graph, entry.progress.graph? = some graph → progress.graph? = some graph)
    (hkeeps : ∀ graph stamps, entry.progress = .stamped graph stamps →
      progress = .stamped graph stamps)
    (hok : EntryOk s.writes { entry with progress := progress }) :
    ServeInv (reject s e entry progress) := by
  have hdropped : ServeInv { s with cache := dropEntry s.cache entry.key e } := by
    apply h.setCache
    intro p hp
    exact h.cache p (mem_of_dropEntry hp)
  exact hdropped.setProgress hentry hgraph hkeeps hok

/-- **A read** of the build gets the row that is saved now. -/
theorem readOk_now (h : ServeInv s) {key : GraphKey} {born : ℕ} {name : Text} {row : SavedPackage}
    (hrow : s.saved key.userId name = some row) : ReadOk s.writes key born name row := by
  obtain ⟨hsaved, hnewest⟩ := h.saved key.userId name row hrow
  refine ⟨hsaved, ?_, ?_⟩
  · intro w hw huser hname _
    exact hnewest w hw huser hname
  · intro _ w hw huser hname _
    exact hnewest w hw huser hname

theorem ServeInv.work {build : Builder} (h : ServeInv s) (hentry : s.entries e = some entry)
    {rejected : Bool} (hunchanged : Unchanged s (.work e rejected)) {s' : Node}
    (hstep : work build s e entry rejected = some s') : ServeInv s' := by
  have hok := h.entries e entry hentry
  unfold Serve.work at hstep
  cases hcase : entry.progress with
  | building reads =>
    simp only [hcase] at hstep
    have hgraph : ∀ progress : Progress, ∀ graph, entry.progress.graph? = some graph →
        progress.graph? = some graph := by
      intro progress graph hg
      rw [hcase] at hg
      cases hg
    have hkeeps : ∀ progress : Progress, ∀ graph stamps,
        entry.progress = .stamped graph stamps → progress = .stamped graph stamps := by
      intro progress graph stamps hs
      rw [hcase] at hs
      cases hs
    have hreads : ∀ name row, (name, some row) ∈ reads →
        ReadOk s.writes entry.key entry.born name row := by
      intro name row hread
      apply hok.reads
      rw [hcase]
      exact hread
    have hfailed : ServeInv (Serve.reject s e entry .failed) := by
      refine h.reject hentry (hgraph _) (hkeeps _) ⟨hok.born, hok.written, ?_, nofun⟩
      intro name row hread
      cases hread
    split at hstep
    · obtain rfl := Option.some.inj hstep
      exact hfailed
    · split at hstep
      · rename_i name _
        obtain rfl := Option.some.inj hstep
        refine h.setProgress hentry (hgraph _) (hkeeps _) ⟨hok.born, hok.written, ?_, nofun⟩
        intro name' row hread
        rcases List.mem_append.mp hread with hold | hnew
        · exact hreads name' row hold
        · obtain ⟨rfl, hrow⟩ := Prod.mk.inj (List.mem_singleton.mp hnew)
          exact readOk_now h hrow.symm
      · obtain rfl := Option.some.inj hstep
        exact h.setProgress hentry (hgraph _) (hkeeps _) ⟨hok.born, hok.written, hreads, nofun⟩
      · obtain rfl := Option.some.inj hstep
        exact hfailed
  | built graph =>
    simp only [hcase] at hstep
    have hreads : ∀ name row, (name, some row) ∈ graph.reads →
        ReadOk s.writes entry.key entry.born name row := by
      intro name row hread
      apply hok.reads
      rw [hcase]
      exact hread
    have hgraph : ∀ graph', entry.progress.graph? = some graph' → some graph = some graph' := by
      intro graph' hg
      rw [hcase] at hg
      exact hg
    have hkeeps : ∀ progress : Progress, ∀ graph' stamps,
        entry.progress = .stamped graph' stamps → progress = .stamped graph' stamps := by
      intro progress graph' stamps hs
      rw [hcase] at hs
      cases hs
    split at hstep
    · obtain rfl := Option.some.inj hstep
      exact h.reject hentry hgraph (hkeeps _) ⟨hok.born, hok.written, hreads, nofun⟩
    · rename_i hrejected
      rw [Bool.not_eq_true] at hrejected
      subst hrejected
      obtain rfl := Option.some.inj hstep
      refine h.setProgress hentry hgraph (hkeeps _) ⟨hok.born, hok.written, hreads, ?_⟩
      -- the stamps are those of the rows that the build has read
      intro graph' stamps heq name row hcontains hname
      obtain ⟨rfl, rfl⟩ := Progress.stamped.inj heq
      have hrow := hunchanged entry graph hentry hcase name row hcontains hname
      exact mem_packageStamps.mpr ⟨hcontains.1, Option.map_eq_some_iff.mp hrow⟩
  | stamped graph stamps =>
    simp only [hcase] at hstep
    cases hstep
  | unstamped graph =>
    simp only [hcase] at hstep
    cases hstep
  | failed =>
    simp only [hcase] at hstep
    cases hstep

end

/-! ### Runs -/

theorem serveInv_fresh : ServeInv freshNode := by
  refine ⟨?_, ?_, ?_, ?_, ?_, ?_, ?_, ?_⟩
  · intro w hw
    cases hw
  · intro w hw
    cases hw
  · intro userId name row hrow
    cases hrow
  · intro e entry hentry
    cases hentry
  · intro e entry hentry
    cases hentry
  · intro p hp
    cases hp
  · intro t r hr
    cases hr
  · intro served hserved
    cases hserved

section
variable {s : Node} {userId name : Text}

/-- The rows after a write to one package. -/
theorem saved_write (h : ServeInv s) {w : Write} (huser : w.userId = userId) (hname : w.name = name)
    (hseq : w.seq = s.writes.length + 1) {new : Option SavedPackage}
    (hnew : ∀ row, new = some row → SavedAs (w :: s.writes) userId name row ∧ row.seq = w.seq) :
    ∀ userId' name' row, Function.update s.saved userId
        (Function.update (s.saved userId) name new) userId' name' = some row →
      SavedAs (w :: s.writes) userId' name' row ∧
        ∀ w' ∈ w :: s.writes, w'.userId = userId' → w'.name = name' → w'.seq ≤ row.seq := by
  have hother : ∀ userId' name' row, s.saved userId' name' = some row →
      (userId' ≠ userId ∨ name' ≠ name) → SavedAs (w :: s.writes) userId' name' row ∧
        ∀ w' ∈ w :: s.writes, w'.userId = userId' → w'.name = name' → w'.seq ≤ row.seq := by
    intro userId' name' row hrow hne
    obtain ⟨hsaved, hnewest⟩ := h.saved userId' name' row hrow
    refine ⟨List.mem_cons_of_mem _ hsaved, ?_⟩
    intro w' hw' huser' hname'
    rcases List.mem_cons.mp hw' with rfl | hold
    · rcases hne with hne | hne
      · exact absurd (huser'.symm.trans huser) hne
      · exact absurd (hname'.symm.trans hname) hne
    · exact hnewest w' hold huser' hname'
  intro userId' name' row hrow
  by_cases huser' : userId' = userId
  · subst huser'
    rw [Function.update_self] at hrow
    by_cases hname' : name' = name
    · subst hname'
      rw [Function.update_self] at hrow
      obtain ⟨hsaved, hrowSeq⟩ := hnew row hrow
      refine ⟨hsaved, ?_⟩
      intro w' hw' _ _
      rcases List.mem_cons.mp hw' with rfl | hold
      · exact hrowSeq.ge
      · have := h.seqs w' hold
        omega
    · rw [Function.update_of_ne hname'] at hrow
      exact hother userId' name' row hrow (.inr hname')
  · rw [Function.update_of_ne huser'] at hrow
    exact hother userId' name' row hrow (.inl huser')

end

/-- **Step lemma.** -/
theorem ServeInv.step {build : Builder} {s s' : Node} {event : Event} (h : ServeInv s)
    (hdistinct : DistinctStamp s event) (hunchanged : Unchanged s event)
    (hstep : step build s event = some s') : ServeInv s' := by
  cases event with
  | save userId name updatedAt manifest files =>
    obtain rfl := Option.some.inj hstep
    let w : Write := ⟨s.writes.length + 1, userId, name, some updatedAt⟩
    refine @ServeInv.write w s h rfl ?_ _ ?_
    · intro w' hw huser hname _
      exact hdistinct w' hw huser hname
    · refine @saved_write s userId name h w rfl rfl rfl _ ?_
      rintro row heq
      obtain rfl := Option.some.inj heq
      exact ⟨List.mem_cons_self, rfl⟩
  | delete userId name =>
    obtain rfl := Option.some.inj hstep
    let w : Write := ⟨s.writes.length + 1, userId, name, none⟩
    refine @ServeInv.write w s h rfl ?_ _ ?_
    · intro w' _ _ _ hsome
      exact absurd rfl hsome
    · exact @saved_write s userId name h w rfl rfl rfl none nofun
  | request t userId packageName hostedUrl =>
    simp only [Serve.step] at hstep
    split at hstep
    · cases hstep
    obtain rfl := Option.some.inj hstep
    refine ⟨h.seqs, h.distinct, h.saved, h.fresh, h.entries, h.cache, ?_, h.served⟩
    intro u r hu
    let new : Request := ⟨userId, packageName, hostedUrl, s.writes.length, .start⟩
    have hu : Function.update s.requests t (some new) u = some r := hu
    by_cases hut : u = t
    · rw [hut, Function.update_self] at hu
      obtain rfl := Option.some.inj hu
      exact ⟨le_refl _, trivial⟩
    · rw [Function.update_of_ne hut] at hu
      exact h.requests u r hu
  | resume t rejected =>
    obtain ⟨r, hr, hresume⟩ := Option.bind_eq_some_iff.mp hstep
    exact h.resume hr hresume
  | work e rejected =>
    obtain ⟨entry, hentry, hwork⟩ := Option.bind_eq_some_iff.mp hstep
    exact h.work hentry hunchanged hwork

/-- **A cached app graph is never stale** in every run whose saves have stamps of their own and in
    which the stamps of a graph, when they are read, are those of the rows that it was built from;
    for every way to build graphs. -/
theorem served_fresh (build : Builder) (s : Node)
    (h : Reaches (step build) (fun s event => DistinctStamp s event ∧ Unchanged s event)
      freshNode s) :
    ∀ served ∈ s.served, Fresh s.writes served := by
  have hinv : ServeInv s := by
    apply Reaches.invariant ServeInv _ h serveInv_fresh
    intro s event s' hinv hguard hstep
    exact hinv.step hguard.1 hguard.2 hstep
  intro served hserved
  exact (hinv.served served hserved).2

/-! ### Two runs -/

def checkDistinct (s : Node) : Event → Bool
  | .save userId name updatedAt _ _ => s.writes.all fun w =>
      !(decide (w.userId = userId) && decide (w.name = name) &&
        decide (w.updatedAt = some updatedAt))
  | _ => true

def checkUnchanged (s : Node) : Event → Bool
  | .work e false =>
    match s.entries e with
    | some entry =>
      match entry.progress with
      | .built graph => graph.reads.all fun read => read.2.all fun row =>
          decide (read.1 ∉ graph.packages) || decide (read.1 = entry.key.packageName) ||
            decide ((s.saved entry.key.userId read.1).map SavedPackage.updatedAt =
              some row.updatedAt)
      | _ => true
    | none => true
  | _ => true

theorem distinct_of_check {s : Node} {event : Event} (h : checkDistinct s event = true) :
    DistinctStamp s event := by
  cases event with
  | save userId name updatedAt manifest files =>
    intro w hw huser hname hupdated
    have hw := List.all_eq_true.mp h w hw
    rw [decide_eq_true huser, decide_eq_true hname, decide_eq_true hupdated] at hw
    cases hw
  | delete userId name => trivial
  | request t userId packageName hostedUrl => trivial
  | resume t rejected => trivial
  | work e rejected => trivial

theorem unchanged_of_check {s : Node} {event : Event} (h : checkUnchanged s event = true) :
    Unchanged s event := by
  cases event with
  | work e rejected =>
    cases rejected with
    | true => trivial
    | false =>
      intro entry graph hentry hprogress name row hcontains hname
      unfold checkUnchanged at h
      simp only [hentry, hprogress] at h
      have hrow := List.all_eq_true.mp h _ hcontains.2
      have hrow : (decide (name ∉ graph.packages) || decide (name = entry.key.packageName) ||
          decide ((s.saved entry.key.userId name).map SavedPackage.updatedAt =
            some row.updatedAt)) = true := hrow
      rw [decide_eq_false (not_not_intro hcontains.1), decide_eq_false hname] at hrow
      exact of_decide_eq_true hrow
  | save userId name updatedAt manifest files => trivial
  | delete userId name => trivial
  | request t userId packageName hostedUrl => trivial
  | resume t rejected => trivial

/-- A build that reads the package of the app and then what the packages depend on. -/
def walkDependencies : Builder := fun packageName _ reads =>
  let names := reads.map Prod.fst
  let wanted := packageName :: reads.flatMap fun read =>
    (read.2.map fun row => row.manifest.dependencies.keys).getD []
  if reads.any fun read => read.2.isNone then .fail
  else match wanted.find? fun name => decide (name ∉ names) with
    | some name => .load name
    | none => .done names

/-- A manifest with an app and dependencies. -/
def sampleManifest (name : Text) (dependencies : Obj Text) : PackageManifest where
  name := name
  version := "1.0.0"
  description := ""
  exports := ⟨[(".", "index.js")], by decide⟩
  jobs := .empty
  webhooks := []
  subscriptions := []
  secretProvider := none
  app := some ⟨"index.js", none, false⟩
  dependencies := dependencies
  hidden := false
  keywords := []

def saveLib (updatedAt : ℕ) : Event :=
  .save "u" "@me/lib" updatedAt (sampleManifest "@me/lib" .empty)
    ⟨[("index.js", "export default 1")], by decide⟩

def saveApp (updatedAt : ℕ) : Event :=
  .save "u" "@me/app" updatedAt (sampleManifest "@me/app" ⟨[("@me/lib", "*")], by decide⟩)
    ⟨[("index.js", "export { default } from 'kody:@me/lib'")], by decide⟩

/-- The app is requested, and its build has read both packages. -/
def readBoth : List Event :=
  [saveLib 1, saveApp 2, .request 0 "u" "@me/app" "https://app", .resume 0 false, .resume 0 false,
    .work 0 false, .work 0 false]

/-- The build ends, the stamps are read, and the request is served. -/
def serveFirst : List Event := [.work 0 false, .work 0 false, .resume 0 false]

/-- A second request, up to the comparison of the stamps. -/
def requestAgain : List Event :=
  [.request 1 "u" "@me/app" "https://app", .resume 1 false, .resume 1 false, .resume 1 false,
    .resume 1 false, .resume 1 false]

/-- The packages of a graph with the numbers of their saves. -/
def ModuleGraph.versions (g : ModuleGraph) : List (Text × ℕ) :=
  g.reads.filterMap fun read => read.2.map fun row => (read.1, row.seq)

theorem ModuleGraph.mem_versions {g : ModuleGraph} {name : Text} {seq : ℕ}
    (h : (name, seq) ∈ g.versions) : ∃ row, (name, some row) ∈ g.reads ∧ row.seq = seq := by
  obtain ⟨read, hread, heq⟩ := List.mem_filterMap.mp h
  obtain ⟨row, hrow, hpair⟩ := Option.map_eq_some_iff.mp heq
  obtain ⟨rfl, rfl⟩ := Prod.mk.inj hpair
  exact ⟨row, hrow ▸ hread, rfl⟩

/-- What a request was served: when it started, the packages, and the numbers of their saves. -/
structure Seen where
  since : ℕ
  packages : List Text
  versions : List (Text × ℕ)
  deriving DecidableEq, Repr

def Served.seen (served : Served) : Seen :=
  ⟨served.since, served.graph.packages, served.graph.versions⟩

/-- The graph of the app with these versions of the app and of its library. -/
def bothAt (since app lib : ℕ) : Seen :=
  ⟨since, ["@me/app", "@me/lib"], [("@me/app", app), ("@me/lib", lib)]⟩

/-- The library is saved again between the two requests: the second is served the new version. -/
def savedBetween : List Event :=
  readBoth ++ serveFirst ++ [saveLib 3] ++ requestAgain ++
    [.work 1 false, .work 1 false, .work 1 false, .resume 1 false]

theorem served_fresh_savedBetween :
    ∃ s, execGuarded (step walkDependencies) (fun s event => checkDistinct s event &&
        checkUnchanged s event) freshNode savedBetween = some s ∧
      (∀ served ∈ s.served, Fresh s.writes served) ∧
      s.served.map Served.seen = [bothAt 3 2 3, bothAt 2 2 1] := by
  have hrun : (execGuarded (step walkDependencies) (fun s event => checkDistinct s event &&
      checkUnchanged s event) freshNode savedBetween).map (fun s => s.served.map Served.seen) =
        some [bothAt 3 2 3, bothAt 2 2 1] := by
    decide +kernel
  obtain ⟨s, hs, hseen⟩ := Option.map_eq_some_iff.mp hrun
  have hguard : ∀ s event, (checkDistinct s event && checkUnchanged s event) = true →
      DistinctStamp s event ∧ Unchanged s event := by
    intro s event h
    rw [Bool.and_eq_true] at h
    exact ⟨distinct_of_check h.1, unchanged_of_check h.2⟩
  exact ⟨s, hs, served_fresh walkDependencies s (reaches_of_execGuarded hguard hs), hseen⟩

/-- The library is saved again after the build has read it, before the stamps are read. -/
def savedWhileBuilding : List Event :=
  readBoth ++ [saveLib 3] ++ serveFirst ++ requestAgain ++ [.resume 1 false]

/-- **A stale graph.**  The second request starts after the library was saved again; the entry has
    the new stamp and the old files, and the request is served from it. -/
theorem staleGraph :
    ∃ s, Reaches (step walkDependencies) DistinctStamp freshNode s ∧
      (∃ served, s.served.head? = some served ∧ served.seen = bothAt 3 2 1) ∧
      ¬ ∀ served ∈ s.served, Fresh s.writes served := by
  have hrun : (execGuarded (step walkDependencies) checkDistinct freshNode savedWhileBuilding).map
      (fun s => decide (s.served.head?.map Served.seen = some (bothAt 3 2 1)) &&
        decide (s.served.head?.map Served.userId = some ("u" : Text)) &&
        decide (s.writes.head? = some ⟨3, "u", "@me/lib", some 3⟩)) = some true := by
    decide +kernel
  obtain ⟨s, hs, hall⟩ := Option.map_eq_some_iff.mp hrun
  rw [Bool.and_eq_true, Bool.and_eq_true, decide_eq_true_eq, decide_eq_true_eq,
    decide_eq_true_eq] at hall
  obtain ⟨⟨hseen, huser⟩, hwrite⟩ := hall
  obtain ⟨served, hserved, hseen⟩ := Option.map_eq_some_iff.mp hseen
  rw [hserved] at huser
  have huser : served.userId = "u" := Option.some.inj huser
  refine ⟨s, reaches_of_execGuarded (fun s event h => distinct_of_check h) hs,
    ⟨served, hserved, hseen⟩, ?_⟩
  intro hfresh
  obtain ⟨hsince, hpackages, hversions⟩ := Seen.mk.inj hseen
  have hversion : (("@me/lib" : Text), 1) ∈ served.graph.versions := by
    rw [hversions]
    decide
  obtain ⟨row, hread, hseq⟩ := ModuleGraph.mem_versions hversion
  have hcontains : served.graph.Contains "@me/lib" row := by
    refine ⟨?_, hread⟩
    rw [hpackages]
    decide
  -- the third write is the second save of the library, and was there when the request started
  have hle := hfresh served (List.mem_of_mem_head? hserved) _ row hcontains _
    (List.mem_of_mem_head? hwrite) huser.symm rfl hsince.ge
  rw [hseq] at hle
  exact absurd hle (by decide)

end KodyCelld.Apps.Serve
