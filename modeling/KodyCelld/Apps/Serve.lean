import KodyCelld.Lib.Machine
import KodyCelld.Packages.Manifest
import Mathlib.Data.List.Dedup

namespace KodyCelld.Apps.Serve

open KodyCelld.Lib KodyCelld.Packages

/-!
# Serving a package app (`apps/serve.ts`, `apps/serve-name.ts`)

A node keeps the module graphs that it built.  An entry holds two promises: the graph, and the
stamps (`updated_at`) of its packages, which are read once the graph is there.  A request that finds
an entry awaits its stamps, reads the stamps anew, and is served from the entry when they match.

* `cachedGraph` is the frames of `resume` from `keyed` on, `work` runs the promises of an entry;
* `packageSave`, `packageDelete` — writes of the user cell, each with a number of its own;
* `Fresh` — a request is served no version that was replaced before it started.

What a build reads next is a parameter: `buildModuleGraph` reads saved packages one after the other,
each at most once, and includes the files of some of them.
-/

/-! ### Data -/

/-- A saved package, with the number of the save that wrote it. -/
structure SavedPackage where
  manifest : PackageManifest
  files : PackageFiles
  updatedAt : ℕ
  seq : ℕ

/-- A save, with its stamp, or a delete. -/
structure Write where
  seq : ℕ
  userId : Text
  name : Text
  updatedAt : Option ℕ
  deriving DecidableEq, Repr

/-- What `appIsolateName` hashes. -/
structure GraphKey where
  userId : Text
  packageName : Text
  updatedAt : ℕ
  hostedUrl : Text
  deriving DecidableEq, Repr

/-- The packages that a graph includes, and the rows that its build has read. -/
structure ModuleGraph where
  packages : List Text
  reads : List (Text × Option SavedPackage)

/-- The graph holds the files of this row. -/
def ModuleGraph.Contains (g : ModuleGraph) (name : Text) (row : SavedPackage) : Prop :=
  name ∈ g.packages ∧ (name, some row) ∈ g.reads

inductive BuildStep where
  | load (name : Text)
  | done (packages : List Text)
  | fail

/-- What the build of the entry of a package does after its reads so far. -/
abbrev Builder := (packageName entryPath : Text) → List (Text × Option SavedPackage) → BuildStep

/-- The stamps of packages, each name once. -/
abbrev Stamps := List (Text × ℕ)

/-- How far the two promises of an entry are. -/
inductive Progress where
  | building (reads : List (Text × Option SavedPackage))
  | built (graph : ModuleGraph)
  | stamped (graph : ModuleGraph) (stamps : Stamps)
  | unstamped (graph : ModuleGraph)
  | failed

/-- An entry, and how many writes there were when it was opened. -/
structure GraphEntry where
  key : GraphKey
  entryPath : Text
  born : ℕ
  progress : Progress

inductive Frame where
  | start
  | keyed (key : GraphKey) (entryPath : Text)
  | awaitingStamps (key : GraphKey) (entryPath : Text) (entry : ℕ)
  | readingStamps (key : GraphKey) (entryPath : Text) (entry : ℕ) (built : Stamps)
  | comparing (key : GraphKey) (entryPath : Text) (entry : ℕ) (built now : Stamps)
  | awaitingGraph (entry : ℕ)

/-- A request for an app, and how many writes there were when it started. -/
structure Request where
  userId : Text
  packageName : Text
  hostedUrl : Text
  since : ℕ
  frame : Frame

structure Served where
  userId : Text
  since : ℕ
  graph : ModuleGraph

/-- The saved packages of all users, and one node that serves their apps. -/
structure Node where
  saved : Text → Text → Option SavedPackage
  writes : List Write
  entries : ℕ → Option GraphEntry
  nextEntry : ℕ
  cache : List (GraphKey × ℕ)
  requests : ℕ → Option Request
  served : List Served

def freshNode : Node := ⟨fun _ _ => none, [], fun _ => none, 0, [], fun _ => none, []⟩

/-! ### The cache, a `Map` in the order of insertion -/

def graphCacheLimit : ℕ := 32

def cacheGet (cache : List (GraphKey × ℕ)) (key : GraphKey) : Option ℕ :=
  (cache.find? fun p => decide (p.1 = key)).map Prod.snd

def cacheDelete (cache : List (GraphKey × ℕ)) (key : GraphKey) : List (GraphKey × ℕ) :=
  cache.filter fun p => decide (p.1 ≠ key)

def cacheSet (cache : List (GraphKey × ℕ)) (key : GraphKey) (entry : ℕ) : List (GraphKey × ℕ) :=
  if (cacheGet cache key).isSome then cache.map fun p => if p.1 = key then (key, entry) else p
  else cache ++ [(key, entry)]

/-- `if (graphCache.get(name) === entry) graphCache.delete(name)` -/
def dropEntry (cache : List (GraphKey × ℕ)) (key : GraphKey) (entry : ℕ) : List (GraphKey × ℕ) :=
  if cacheGet cache key = some entry then cacheDelete cache key else cache

/-- Drops the oldest entries over the limit. -/
def evict (cache : List (GraphKey × ℕ)) : List (GraphKey × ℕ) :=
  cache.drop (cache.length - graphCacheLimit)

/-! ### Stamps -/

/-- `updated_at` per saved package name; names that are not saved are omitted. -/
def packageStamps (s : Node) (userId : Text) (names : List Text) : Stamps :=
  names.dedup.filterMap fun name => (s.saved userId name).map fun row => (name, row.updatedAt)

/-- True when two `packageStamps` snapshots name the same packages at the same `updated_at`. -/
def stampsMatch (a b : Stamps) : Bool :=
  decide (a.length = b.length) && a.all fun p => decide (p ∈ b)

/-! ### The steps of a request -/

def setFrame (s : Node) (t : ℕ) (r : Request) (frame : Frame) : Node :=
  { s with requests := Function.update s.requests t (some { r with frame := frame }) }

def finish (s : Node) (t : ℕ) : Node := { s with requests := Function.update s.requests t none }

/-- A miss: opens an entry and awaits its graph. -/
def freshBuild (s : Node) (t : ℕ) (r : Request) (key : GraphKey) (entryPath : Text) : Node :=
  setFrame { s with
    entries := Function.update s.entries s.nextEntry
      (some ⟨key, entryPath, s.writes.length, .building []⟩)
    nextEntry := s.nextEntry + 1
    cache := evict (cacheSet s.cache key s.nextEntry) } t r (.awaitingGraph s.nextEntry)

/-- A hit that is of no use. -/
def rebuild (s : Node) (t : ℕ) (r : Request) (key : GraphKey) (entryPath : Text) (entry : ℕ) :
    Node :=
  freshBuild { s with cache := dropEntry s.cache key entry } t r key entryPath

def Progress.graph? : Progress → Option ModuleGraph
  | .built graph => some graph
  | .stamped graph _ => some graph
  | .unstamped graph => some graph
  | _ => none

def progressOf (s : Node) (entry : ℕ) : Option Progress := (s.entries entry).map GraphEntry.progress

/-- Runs a request to its next `await`; what it awaits there may be rejected. -/
def resume (s : Node) (t : ℕ) (r : Request) (rejected : Bool) : Option Node :=
  match r.frame with
  | .start =>
    if rejected then some (finish s t)
    else match s.saved r.userId r.packageName with
      | none => some (finish s t)
      | some pkg => match pkg.manifest.app with
        | none => some (finish s t)
        | some app => some (setFrame s t r
            (.keyed ⟨r.userId, r.packageName, pkg.updatedAt, r.hostedUrl⟩ app.entry))
  | .keyed key entryPath =>
    match cacheGet s.cache key with
    | some entry => some (setFrame s t r (.awaitingStamps key entryPath entry))
    | none => some (freshBuild s t r key entryPath)
  | .awaitingStamps key entryPath entry =>
    match progressOf s entry with
    | some (.stamped _ built) => some (setFrame s t r (.readingStamps key entryPath entry built))
    | some (.unstamped _) => some (rebuild s t r key entryPath entry)
    | some .failed => some (rebuild s t r key entryPath entry)
    | _ => none
  | .readingStamps key entryPath entry built =>
    if rejected then some (rebuild s t r key entryPath entry)
    else
      let now := packageStamps s r.userId (built.map Prod.fst)
      some (setFrame s t r (.comparing key entryPath entry built now))
  | .comparing key entryPath entry built now =>
    if stampsMatch built now ∧ cacheGet s.cache key = some entry then
      some (setFrame { s with cache := cacheSet (cacheDelete s.cache key) key entry } t r
        (.awaitingGraph entry))
    else some (rebuild s t r key entryPath entry)
  | .awaitingGraph entry =>
    match progressOf s entry with
    | some .failed => some (finish s t)
    | some progress => progress.graph?.map fun graph =>
        { finish s t with served := ⟨r.userId, r.since, graph⟩ :: s.served }
    | none => none

/-! ### The promises of an entry -/

def setProgress (s : Node) (e : ℕ) (entry : GraphEntry) (progress : Progress) : Node :=
  { s with entries := Function.update s.entries e (some { entry with progress := progress }) }

/-- A promise of the entry was rejected. -/
def reject (s : Node) (e : ℕ) (entry : GraphEntry) (progress : Progress) : Node :=
  setProgress { s with cache := dropEntry s.cache entry.key e } e entry progress

/-- Runs the build of an entry by one read, or reads the stamps of its graph. -/
def work (build : Builder) (s : Node) (e : ℕ) (entry : GraphEntry) (rejected : Bool) :
    Option Node :=
  match entry.progress with
  | .building reads =>
    if rejected then some (reject s e entry .failed)
    else match build entry.key.packageName entry.entryPath reads with
      | .load name => some (setProgress s e entry
          (.building (reads ++ [(name, s.saved entry.key.userId name)])))
      | .done packages => some (setProgress s e entry (.built ⟨packages, reads⟩))
      | .fail => some (reject s e entry .failed)
  | .built graph =>
    if rejected then some (reject s e entry (.unstamped graph))
    else some (setProgress s e entry
      (.stamped graph (packageStamps s entry.key.userId graph.packages)))
  | _ => none

/-! ### Writes -/

def packageSave (s : Node) (userId name : Text) (updatedAt : ℕ) (manifest : PackageManifest)
    (files : PackageFiles) : Node :=
  let seq := s.writes.length + 1
  { s with
    saved := Function.update s.saved userId
      (Function.update (s.saved userId) name (some ⟨manifest, files, updatedAt, seq⟩))
    writes := ⟨seq, userId, name, some updatedAt⟩ :: s.writes }

def packageDelete (s : Node) (userId name : Text) : Node :=
  { s with
    saved := Function.update s.saved userId (Function.update (s.saved userId) name none)
    writes := ⟨s.writes.length + 1, userId, name, none⟩ :: s.writes }

inductive Event where
  | save (userId name : Text) (updatedAt : ℕ) (manifest : PackageManifest) (files : PackageFiles)
  | delete (userId name : Text)
  | request (t : ℕ) (userId packageName hostedUrl : Text)
  | resume (t : ℕ) (rejected : Bool)
  | work (e : ℕ) (rejected : Bool)

def step (build : Builder) (s : Node) : Event → Option Node
  | .save userId name updatedAt manifest files =>
    some (packageSave s userId name updatedAt manifest files)
  | .delete userId name => some (packageDelete s userId name)
  | .request t userId packageName hostedUrl =>
    match s.requests t with
    | some _ => none
    | none =>
      let r : Request := ⟨userId, packageName, hostedUrl, s.writes.length, .start⟩
      some { s with requests := Function.update s.requests t (some r) }
  | .resume t rejected => (s.requests t).bind fun r => resume s t r rejected
  | .work e rejected => (s.entries e).bind fun entry => work build s e entry rejected

/-! ### What should hold -/

/-- The row is at least as new as every write of the package up to this number. -/
def NewerThan (writes : List Write) (userId name : Text) (since : ℕ) (row : SavedPackage) : Prop :=
  ∀ w ∈ writes, w.userId = userId → w.name = name → w.seq ≤ since → w.seq ≤ row.seq

/-- **A request is served fresh**: for each package in its graph, no save or delete that was there
    when the request started is later than the version in the graph. -/
def Fresh (writes : List Write) (served : Served) : Prop :=
  ∀ name row, served.graph.Contains name row →
    NewerThan writes served.userId name served.since row

end KodyCelld.Apps.Serve
