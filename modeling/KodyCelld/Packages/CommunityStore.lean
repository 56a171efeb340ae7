import KodyCelld.Cells.PackageSave

namespace KodyCelld.Packages.Community

open KodyCelld.Lib KodyCelld.Cells

/-!
# The community catalogue (`packages/community-store.ts`, `packages/package-files-store.ts`)

One row per listed name, one row per published file, in two tables and with no transaction around
the statements of an operation.

* `publish`, `unpublish`, `unpublishAll`, `get`, `recordInstall` — the operations;
* `publish_cases` — what a `publish` does: nothing, a part of its script, or all of it;
* `get?_readPackageFiles` — the files of a listing as a map;
* `publish_allOrNothing` — when `publish` is all-or-nothing and its size guard agrees with the
  store.
-/

/-! ### The tables -/

/-- A row of `community_packages`; `manifest` is the parsed `manifest_json`, and `keywords` the
    joined column. -/
structure CommunityRow where
  name : Text
  userId : Text
  publisher : Text
  version : Text
  description : Text
  keywords : Text
  manifest : PackageManifest
  installs : ℕ
  createdAt : ℕ
  updatedAt : ℕ

/-- The two tables of the registry cell that the catalogue lives in. -/
structure CommunityStore where
  listings : Rows CommunityRow.name
  files : Rows PackageFileRow.key

/-- What `publish` is given.  Its callers pass the files of a saved package, and
    `readPackageFiles` builds those by assignment, so `__proto__` is no key of them. -/
structure PublishInput where
  userId : Text
  publisher : Text
  name : Text
  version : Text
  manifest : PackageManifest
  files : PackageFiles
  assigned : files.get? "__proto__" = none

/-- `CommunityPackage`: a listing with its files. -/
structure CommunityPackage where
  name : Text
  version : Text
  description : Text
  publisher : Text
  keywords : List Text
  manifest : PackageManifest
  readme : Text
  installs : ℕ
  fileCount : ℕ
  publishedAt : ℕ
  updatedAt : ℕ
  files : PackageFiles
  agents : Text

/-- `communityLimits.maxPerUser` -/
def maxPerUser : ℕ := 100

/-- `communityLimits.maxPublisherLength` -/
def maxPublisherLength : ℕ := 40

/-- `publisherPattern`: `^[a-z0-9][a-z0-9._-]{0,39}$` -/
def publisherPattern (publisher : Text) : Bool :=
  isPlainName publisher && decide (publisher.length ≤ 40)

/-! ### Reading -/

/-- The file rows of a package, `ORDER BY path`. -/
def fileRows (packageName : Text) (store : CommunityStore) : List PackageFileRow :=
  (store.files.rows.filter fun f => f.packageName = packageName).insertionSort fun a b =>
    a.path.map Char.toNat ≤ b.path.map Char.toNat

/-- `readPackageFiles`: one assignment for each row. -/
def readPackageFiles (packageName : Text) (store : CommunityStore) : PackageFiles :=
  (fileRows packageName store).foldl (fun files row => files.set row.path row.content) Obj.empty

/-- `toPackage` -/
def toPackage (row : CommunityRow) (store : CommunityStore) : CommunityPackage :=
  let files := readPackageFiles row.name store
  { name := row.name, version := row.version, description := row.description
    publisher := row.publisher
    keywords := if row.keywords = [] then [] else row.keywords.splitOn ' '
    manifest := row.manifest
    readme := ((store.files.find? (row.name, "README.md")).map PackageFileRow.content).getD []
    installs := row.installs, fileCount := files.keys.length
    publishedAt := row.createdAt, updatedAt := row.updatedAt
    files := files, agents := (files.get? "AGENTS.md").getD [] }

/-- `get` -/
def get (name : Text) (store : CommunityStore) : Option CommunityPackage :=
  (store.listings.find? name).map fun row => toPackage row store

/-- The names a user lists. -/
def listedBy (userId : Text) (store : CommunityStore) : List CommunityRow :=
  store.listings.rows.filter fun row => row.userId = userId

/-! ### Writing -/

variable (host : Host)

/-- What SQLite throws for a text over its limit. -/
def tooBig : Thrown := .error "string or blob too big"

/-- A statement with its bound texts. -/
def statement (texts : List Text) (write : CommunityStore → CommunityStore) :
    Except Thrown (CommunityStore → CommunityStore) :=
  if BindsFit host texts then .ok write else .error tooBig

/-- The checks of `publish`, in the order of the source. -/
def acceptPublish (input : PublishInput) (store : CommunityStore) : Except Thrown Unit :=
  if !publisherPattern input.publisher then
    .error (.kody "invalid_args" ("publisher must be 1-" ++ natText maxPublisherLength ++
      " chars of a-z, 0-9, \".\", \"_\" or \"-\"."))
  else if input.manifest.hidden then
    .error (.kody "invalid_package"
      ("\"" ++ input.name ++ "\" is marked hidden in package.json; unhide it to publish."))
  else match assertPackageFileSizes input.files with
    | .error e => .error e
    | .ok () =>
      -- both `SELECT`s bind a text
      if ¬ BindsFit host [input.name] then .error tooBig
      else match store.listings.find? input.name with
        | some existing =>
          if existing.userId ≠ input.userId then
            .error (.kody "community_name_taken"
              ("\"" ++ input.name ++ "\" is already published by someone else.") 409)
          else .ok ()
        | none =>
          if ¬ BindsFit host [input.userId] then .error tooBig
          else if maxPerUser ≤ (listedBy input.userId store).length then
            .error (.kody "quota_exceeded"
              ("You already publish " ++ natText maxPerUser ++ " packages.") 429)
          else .ok ()

/-- The texts of a `community_packages` row. -/
def listingTexts (input : PublishInput) : List Text :=
  [input.name, input.userId, input.publisher, input.version, input.manifest.description,
    (" " : Text).intercalate input.manifest.keywords, manifestJson input.manifest]

/-- The row of a name that is published for the first time. -/
def newListing (input : PublishInput) (now : ℕ) : CommunityRow where
  name := input.name
  userId := input.userId
  publisher := input.publisher
  version := input.version
  description := input.manifest.description
  keywords := (" " : Text).intercalate input.manifest.keywords
  manifest := input.manifest
  installs := 0
  createdAt := now
  updatedAt := now

/-- `ON CONFLICT(name) DO UPDATE SET …`: the owner, the installs and the first date stay. -/
def republished (input : PublishInput) (now : ℕ) (row : CommunityRow) : CommunityRow :=
  { row with
    publisher := input.publisher, version := input.version
    description := input.manifest.description
    keywords := (" " : Text).intercalate input.manifest.keywords
    manifest := input.manifest, updatedAt := now }

/-- `INSERT INTO community_packages … ON CONFLICT(name) DO UPDATE …` -/
def writeListing (input : PublishInput) (now : ℕ) (store : CommunityStore) : CommunityStore :=
  { store with
    listings := store.listings.upsert (newListing input now) (republished input now) fun _ => rfl }

/-- `deletePackageFiles`: `DELETE FROM package_files WHERE package_name = ?` -/
def deletePackageFiles (packageName : Text) (store : CommunityStore) : CommunityStore :=
  { store with files := store.files.filter fun f => decide (f.packageName ≠ packageName) }

/-- One `INSERT INTO package_files`; the `DELETE` before it left no row with this key. -/
def insertFile (packageName : Text) (file : Text × Text) (store : CommunityStore) :
    CommunityStore :=
  { store with
    files := store.files.upsert
      { packageName := packageName, path := file.1, content := file.2 } id
      PackageFileRow.key_id }

/-- `replacePackageFiles`: delete, then insert. -/
def replacePackageFiles (packageName : Text) (files : PackageFiles) :
    List (Except Thrown (CommunityStore → CommunityStore)) :=
  .ok (deletePackageFiles packageName) ::
    files.entries.map fun f => statement host [packageName, f.1, f.2] (insertFile packageName f)

/-- The statements of `publish` after its checks. -/
def publishScript (input : PublishInput) (now : ℕ) :
    List (Except Thrown (CommunityStore → CommunityStore)) :=
  statement host (listingTexts input) (writeListing input now) ::
    replacePackageFiles host input.name input.files

/-- Publishes a copy of a package; the store it leaves is what was written, also when it throws. -/
def publish (input : PublishInput) (now : ℕ) (store : CommunityStore) :
    Except Thrown (Option CommunityPackage) × CommunityStore :=
  match acceptPublish host input store with
  | .error e => (.error e, store)
  | .ok () =>
    match runScript (publishScript host input now) store with
    | (.error e, store) => (.error e, store)
    | (.ok (), store) => (.ok (get input.name store), store)

/-- Takes a name out of the catalogue; `false` where it is not listed. -/
def unpublish (userId name : Text) (store : CommunityStore) :
    Except Thrown Bool × CommunityStore :=
  if ¬ BindsFit host [name] then (.error tooBig, store)
  else match store.listings.find? name with
    | none => (.ok false, store)
    | some row =>
      if row.userId ≠ userId then
        (.error (.kody "forbidden" ("\"" ++ name ++ "\" was published by someone else.") 403),
          store)
      else
        (.ok true, deletePackageFiles name
          { store with listings := store.listings.filter fun row => decide (row.name ≠ name) })

/-- Takes every name of a user out of the catalogue: the files of one name after the other, then
    the listings. -/
def unpublishAll (userId : Text) (store : CommunityStore) : Except Thrown ℕ × CommunityStore :=
  if ¬ BindsFit host [userId] then (.error tooBig, store)
  else
    let names := (listedBy userId store).map CommunityRow.name
    let store := names.foldl (fun store name => deletePackageFiles name store) store
    (.ok names.length,
      { store with listings := store.listings.filter fun row => decide (row.userId ≠ userId) })

/-- `UPDATE community_packages SET installs = installs + 1 WHERE name = ?` -/
def recordInstall (name : Text) (store : CommunityStore) : Except Thrown Unit × CommunityStore :=
  if ¬ BindsFit host [name] then (.error tooBig, store)
  else (.ok (),
    { store with
      listings := store.listings.map
        (fun row => if row.name = name then { row with installs := row.installs + 1 } else row)
        (fun row => by split <;> rfl) })

/-! ### The files of a listing -/

variable {host}
variable {input : PublishInput} {now : ℕ} {store : CommunityStore}

/-- Reading a property after an assignment. -/
theorem get?_set (files : PackageFiles) (path k content : Text) (hk : k ≠ "__proto__") :
    (files.set path content).get? k = if path = k then some content else files.get? k := by
  unfold Obj.set
  split
  · rename_i hproto
    rw [if_neg]
    rintro rfl
    exact hk hproto
  · exact Obj.get?_define files path k content

/-- An assignment does not add `__proto__`. -/
theorem proto_set (files : PackageFiles) (path content : Text) :
    (files.set path content).get? "__proto__" = files.get? "__proto__" := by
  unfold Obj.set
  split
  · rfl
  · rename_i hne
    rw [Obj.get?_define, if_neg hne]

/-- Assignments from rows with distinct paths: each row is read back, and nothing else. -/
theorem get?_assigned {rows : List PackageFileRow} (hnodup : (rows.map PackageFileRow.path).Nodup)
    (files : PackageFiles) {k : Text} (hk : k ≠ "__proto__") :
    (rows.foldl (fun files row => files.set row.path row.content) files).get? k =
      ((rows.find? fun row => row.path = k).map PackageFileRow.content).or (files.get? k) := by
  induction rows generalizing files with
  | nil => simp
  | cons row rest ih =>
    rw [List.map_cons, List.nodup_cons] at hnodup
    rw [List.foldl_cons, ih hnodup.2, get?_set files row.path k row.content hk]
    by_cases hpath : row.path = k
    · -- a later row has another path
      have hrest : rest.find? (fun row => row.path = k) = none := by
        refine List.find?_eq_none.mpr fun other hother hkey => hnodup.1 ?_
        rw [hpath, ← of_decide_eq_true hkey]
        exact List.mem_map_of_mem hother
      simp [hpath, hrest]
    · simp [hpath]

/-- The rows of a package, in whatever order they are listed. -/
theorem mem_fileRows {packageName : Text} {row : PackageFileRow} :
    row ∈ fileRows packageName store ↔ row ∈ store.files.rows ∧ row.packageName = packageName := by
  unfold fileRows
  rw [(List.perm_insertionSort _ _).mem_iff, List.mem_filter, decide_eq_true_eq]

/-- The paths of one package are distinct. -/
theorem nodup_fileRows (packageName : Text) :
    ((fileRows packageName store).map PackageFileRow.path).Nodup := by
  have hperm := List.perm_insertionSort
    (fun a b : PackageFileRow => a.path.map Char.toNat ≤ b.path.map Char.toNat)
    (store.files.rows.filter fun f => f.packageName = packageName)
  unfold fileRows
  rw [(hperm.map _).nodup_iff]
  have hkeys : ((store.files.rows.filter fun f => f.packageName = packageName).map
      PackageFileRow.key).Nodup := store.files.nodup.sublist (List.filter_sublist.map _)
  refine List.Nodup.of_map (fun path : Text => (packageName, path)) ?_
  rw [List.map_map]
  refine (List.map_congr_left fun row hrow => ?_).symm ▸ hkeys
  have hname : row.packageName = packageName := of_decide_eq_true (List.mem_filter.mp hrow).2
  show (packageName, row.path) = (row.packageName, row.path)
  rw [hname]

/-- **The files that are read back** are the rows of the package, by path. -/
theorem get?_readPackageFiles (packageName : Text) {k : Text} (hk : k ≠ "__proto__") :
    (readPackageFiles packageName store).get? k =
      (store.files.find? (packageName, k)).map PackageFileRow.content := by
  unfold readPackageFiles
  rw [get?_assigned (nodup_fileRows packageName) _ hk, Obj.get?_empty, Option.or_none]
  congr 1
  refine Option.ext fun row => ?_
  rw [Rows.find?_eq_some]
  constructor
  · intro h
    have hpath : row.path = k := by simpa using List.find?_some h
    obtain ⟨hrow, hname⟩ := mem_fileRows.mp (List.mem_of_find?_eq_some h)
    refine ⟨hrow, ?_⟩
    show (row.packageName, row.path) = (packageName, k)
    rw [hname, hpath]
  · rintro ⟨hrow, hkey⟩
    obtain ⟨hname, hpath⟩ := Prod.mk.inj hkey
    have hmem : row ∈ fileRows packageName store := mem_fileRows.mpr ⟨hrow, hname⟩
    have hsome : ((fileRows packageName store).find? fun row => row.path = k).isSome := by
      rw [List.find?_isSome]
      exact ⟨row, hmem, by simpa using hpath⟩
    obtain ⟨found, hfound⟩ := Option.isSome_iff_exists.mp hsome
    have hfoundPath : found.path = k := by simpa using List.find?_some hfound
    have hsame : found.path = row.path := hfoundPath.trans hpath.symm
    rw [hfound, List.inj_on_of_nodup_map (nodup_fileRows packageName)
      (List.mem_of_find?_eq_some hfound) hmem hsame]

/-- Assignments do not add `__proto__`. -/
theorem proto_assigned (rows : List PackageFileRow) (files : PackageFiles) :
    (rows.foldl (fun files row => files.set row.path row.content) files).get? "__proto__" =
      files.get? "__proto__" := by
  induction rows generalizing files with
  | nil => rfl
  | cons row rest ih => rw [List.foldl_cons, ih, proto_set]

/-- What is read back can be published again. -/
theorem readPackageFiles_assigned (packageName : Text) :
    (readPackageFiles packageName store).get? "__proto__" = none := by
  unfold readPackageFiles
  rw [proto_assigned, Obj.get?_empty]

/-! ### What `publish` does -/

/-- The store after every statement of a `publish`. -/
def published (input : PublishInput) (now : ℕ) (store : CommunityStore) : CommunityStore :=
  input.files.entries.foldl (fun store f => insertFile input.name f store)
    (deletePackageFiles input.name (writeListing input now store))

theorem statement_eq_ok {texts : List Text} {write : CommunityStore → CommunityStore} :
    (∃ w, statement host texts write = .ok w) ↔ BindsFit host texts := by
  unfold statement
  by_cases h : BindsFit host texts
  · simp [h]
  · simp [h]

/-- Statements that SQLite all takes are carried out one after the other. -/
theorem runScript_insertFiles {packageName : Text} {entries : List (Text × Text)}
    (h : ∀ f ∈ entries, BindsFit host [packageName, f.1, f.2]) (store : CommunityStore) :
    runScript (entries.map fun f =>
        statement host [packageName, f.1, f.2] (insertFile packageName f)) store =
      (.ok (), entries.foldl (fun store f => insertFile packageName f store) store) := by
  induction entries generalizing store with
  | nil => rfl
  | cons f rest ih =>
    have hf := h f List.mem_cons_self
    rw [List.map_cons, statement, if_pos hf, runScript, List.foldl_cons]
    exact ih (fun g hg => h g (List.mem_cons_of_mem _ hg)) _

/-- When no statement of a `publish` fails. -/
theorem publishScript_eq_ok : (runScript (publishScript host input now) store).1 = .ok () ↔
    BindsFit host (listingTexts input) ∧
      ∀ f ∈ input.files.entries, BindsFit host [input.name, f.1, f.2] := by
  rw [runScript_eq_ok]
  unfold publishScript replacePackageFiles
  constructor
  · intro h
    refine ⟨statement_eq_ok.mp (h _ List.mem_cons_self), fun f hf => ?_⟩
    exact statement_eq_ok.mp
      (h _ (List.mem_cons_of_mem _ (List.mem_cons_of_mem _ (List.mem_map_of_mem hf))))
  · rintro ⟨hrow, hfiles⟩ step hstep
    rcases List.mem_cons.mp hstep with rfl | hstep
    · exact statement_eq_ok.mpr hrow
    rcases List.mem_cons.mp hstep with rfl | hstep
    · exact ⟨_, rfl⟩
    · obtain ⟨f, hf, rfl⟩ := List.mem_map.mp hstep
      exact statement_eq_ok.mpr (hfiles f hf)

/-- A `publish` that passes its checks fails only because a text is too big. -/
theorem publishScript_eq_error {e : Thrown}
    (h : (runScript (publishScript host input now) store).1 = .error e) : e = tooBig := by
  have hstatement : ∀ {texts : List Text} {write : CommunityStore → CommunityStore},
      .error e = statement host texts write → e = tooBig := by
    intro texts write heq
    unfold statement at heq
    split at heq
    · exact absurd heq nofun
    · exact Except.error.inj heq
  rcases List.mem_cons.mp (runScript_eq_error h) with heq | hmem
  · exact hstatement heq
  rcases List.mem_cons.mp hmem with heq | hmem
  · exact absurd heq nofun
  · obtain ⟨f, -, heq⟩ := List.mem_map.mp hmem
    exact hstatement heq.symm

theorem runScript_publish (hrow : BindsFit host (listingTexts input))
    (hfiles : ∀ f ∈ input.files.entries, BindsFit host [input.name, f.1, f.2]) :
    runScript (publishScript host input now) store = (.ok (), published input now store) := by
  unfold publishScript replacePackageFiles published
  rw [statement, if_pos hrow, runScript, runScript]
  exact runScript_insertFiles hfiles _

/-- The file rows after the inserts of one package. -/
theorem find?_insertFiles (packageName : Text) {entries : List (Text × Text)}
    (hnodup : (entries.map Prod.fst).Nodup) (store : CommunityStore) (key : Text × Text)
    (hfree : ∀ path, store.files.find? (packageName, path) = none) :
    (entries.foldl (fun store f => insertFile packageName f store) store).files.find? key =
      if key.1 = packageName then
        (entries.find? fun f => f.1 = key.2).map fun f =>
          { packageName := packageName, path := f.1, content := f.2 }
      else store.files.find? key := by
  -- the rows already inserted have paths that no later entry has
  have hgeneral : ∀ (entries : List (Text × Text)) (store : CommunityStore),
      (entries.map Prod.fst).Nodup →
      (∀ f ∈ entries, store.files.find? (packageName, f.1) = none) →
      (entries.foldl (fun store f => insertFile packageName f store) store).files.find? key =
        if key.1 = packageName then
          ((entries.find? fun f => f.1 = key.2).map fun f =>
            { packageName := packageName, path := f.1, content := f.2 }).or (store.files.find? key)
        else store.files.find? key := by
    intro entries
    induction entries with
    | nil => intro store _ _; simp
    | cons f rest ih =>
      intro store hnodup hfree
      rw [List.map_cons, List.nodup_cons] at hnodup
      have hinserted : ∀ k, (insertFile packageName f store).files.find? k =
          if (packageName, f.1) = k then
            some { packageName := packageName, path := f.1, content := f.2 }
          else store.files.find? k := by
        intro k
        unfold insertFile
        rw [Rows.find?_upsert]
        split
        · rename_i hk
          have hk : (packageName, f.1) = k := hk
          rw [if_pos hk, ← hk, hfree f List.mem_cons_self]
          rfl
        · rename_i hk
          exact (if_neg hk).symm
      have hrest : ∀ g ∈ rest, (insertFile packageName f store).files.find? (packageName, g.1) =
          none := by
        intro g hg
        rw [hinserted, if_neg, hfree g (List.mem_cons_of_mem _ hg)]
        intro heq
        refine hnodup.1 ?_
        rw [(Prod.mk.inj heq).2]
        exact List.mem_map_of_mem hg
      rw [List.foldl_cons, ih _ hnodup.2 hrest, hinserted]
      by_cases hname : key.1 = packageName
      · rw [if_pos hname, if_pos hname]
        by_cases hpath : f.1 = key.2
        · have hnone : rest.find? (fun g => g.1 = key.2) = none := by
            refine List.find?_eq_none.mpr fun g hg hkey => hnodup.1 ?_
            rw [hpath, ← of_decide_eq_true hkey]
            exact List.mem_map_of_mem hg
          have hkey : (packageName, f.1) = key := Prod.ext hname.symm hpath
          rw [hnone, if_pos hkey]
          simp [hpath]
        · have hkey : (packageName, f.1) ≠ key := fun heq => hpath (congrArg Prod.snd heq)
          simp [hkey, hpath]
      · have hkey : (packageName, f.1) ≠ key := fun heq => hname (congrArg Prod.fst heq).symm
        rw [if_neg hname, if_neg hname, if_neg hkey]
  rw [hgeneral entries store hnodup fun f _ => hfree f.1]
  split
  · rename_i hname
    have hkey : store.files.find? key = none := by
      rw [show key = (packageName, key.2) from Prod.ext hname rfl]
      exact hfree key.2
    rw [hkey, Option.or_none]
  · rfl

/-- The file rows after those of one package are deleted. -/
theorem find?_deletePackageFiles (packageName : Text) (store : CommunityStore)
    (key : Text × Text) : (deletePackageFiles packageName store).files.find? key =
      if key.1 = packageName then none else store.files.find? key := by
  unfold deletePackageFiles
  rw [Rows.find?_filter]
  cases hfind : store.files.find? key with
  | none => simp
  | some row =>
    have hname : row.packageName = key.1 := congrArg Prod.fst (Rows.find?_eq_some.mp hfind).2
    by_cases hk : key.1 = packageName
    · simp [hname, hk]
    · simp [hname, hk]

/-- **The file rows after a replacement**: the given ones under its name, the old ones
    elsewhere. -/
theorem find?_replaced (packageName : Text) (files : PackageFiles) (store : CommunityStore)
    (key : Text × Text) :
    (files.entries.foldl (fun store f => insertFile packageName f store)
      (deletePackageFiles packageName store)).files.find? key =
      if key.1 = packageName then
        (files.get? key.2).map fun content =>
          { packageName := packageName, path := key.2, content := content }
      else store.files.find? key := by
  rw [find?_insertFiles packageName files.nodup _ key fun path => by
    rw [find?_deletePackageFiles, if_pos rfl]]
  split
  · unfold Obj.get?
    cases hfind : files.entries.find? fun f => f.1 = key.2 with
    | none => rfl
    | some f =>
      have hpath : f.1 = key.2 := by simpa using List.find?_some hfind
      simp [hpath]
  · rename_i hname
    rw [find?_deletePackageFiles, if_neg hname]

/-- **The files after a `publish`**: the published ones under its name, the old ones elsewhere. -/
theorem find?_published_files (key : Text × Text) :
    (published input now store).files.find? key =
      if key.1 = input.name then
        (input.files.get? key.2).map fun content =>
          { packageName := input.name, path := key.2, content := content }
      else store.files.find? key := by
  unfold published
  exact find?_replaced input.name input.files (writeListing input now store) key

/-- The inserts leave the listings alone. -/
theorem published_listings : (published input now store).listings =
    store.listings.upsert (newListing input now) (republished input now) fun _ => rfl := by
  unfold published
  have hfold : ∀ (entries : List (Text × Text)) (store : CommunityStore),
      (entries.foldl (fun store f => insertFile input.name f store) store).listings =
        store.listings := by
    intro entries
    induction entries with
    | nil => intro store; rfl
    | cons f rest ih =>
      intro store
      rw [List.foldl_cons, ih]
      rfl
  rw [hfold]
  rfl

/-- **The listings after a `publish`.** -/
theorem find?_published_listings (name : Text) : (published input now store).listings.find? name =
    if input.name = name then
      some ((store.listings.find? name).elim (newListing input now) (republished input now))
    else store.listings.find? name := by
  rw [published_listings]
  exact Rows.find?_upsert store.listings (newListing input now) (republished input now)
    (fun _ => rfl) name

/-- What the checks of a `publish` that passes them have found. -/
structure Accepted (host : Host) (input : PublishInput) (store : CommunityStore) : Prop where
  sizes : assertPackageFileSizes input.files = .ok ()
  nameFits : BindsFit host [input.name]
  owner : ∀ row, store.listings.find? input.name = some row → row.userId = input.userId
  room : store.listings.find? input.name = none → (listedBy input.userId store).length < maxPerUser

theorem acceptPublish_ok (h : acceptPublish host input store = .ok ()) :
    Accepted host input store := by
  unfold acceptPublish at h
  split at h
  · cases h
  split at h
  · cases h
  split at h
  · cases h
  rename_i hsizes
  split at h
  · cases h
  rename_i hname
  refine ⟨hsizes, not_not.mp hname, fun row hrow => ?_, fun hnone => ?_⟩
  · rw [hrow] at h
    dsimp only at h
    split at h
    · cases h
    rename_i howner
    exact not_not.mp howner
  · rw [hnone] at h
    dsimp only at h
    split at h
    · cases h
    split at h
    · cases h
    rename_i hroom
    omega

/-- **What a `publish` does**: it is refused and changes nothing, a statement fails, or all of it
    happens. -/
theorem publish_cases : (∃ e, acceptPublish host input store = .error e ∧
      publish host input now store = (.error e, store)) ∨
    (acceptPublish host input store = .ok () ∧
      (publish host input now store).1 = .error tooBig ∧
      ¬ (BindsFit host (listingTexts input) ∧
        ∀ f ∈ input.files.entries, BindsFit host [input.name, f.1, f.2])) ∨
    (acceptPublish host input store = .ok () ∧
      (BindsFit host (listingTexts input) ∧
        ∀ f ∈ input.files.entries, BindsFit host [input.name, f.1, f.2]) ∧
      publish host input now store =
        (.ok (get input.name (published input now store)), published input now store)) := by
  cases haccept : acceptPublish host input store with
  | error e =>
    refine .inl ⟨e, rfl, ?_⟩
    unfold publish
    rw [haccept]
  | ok u =>
    right
    by_cases hfits : BindsFit host (listingTexts input) ∧
        ∀ f ∈ input.files.entries, BindsFit host [input.name, f.1, f.2]
    · refine .inr ⟨rfl, hfits, ?_⟩
      unfold publish
      rw [haccept, runScript_publish hfits.1 hfits.2]
    · refine .inl ⟨rfl, ?_⟩
      unfold publish
      rw [haccept]
      dsimp only
      split
      · rename_i e _ heq
        have hbig := publishScript_eq_error (congrArg Prod.fst heq)
        exact ⟨congrArg _ hbig, hfits⟩
      · rename_i heq
        exact absurd (publishScript_eq_ok.mp (congrArg Prod.fst heq)) hfits

/-! ### All or nothing -/

/-- The file statements leave the listings alone, also when one of them fails. -/
theorem replacePackageFiles_listings (packageName : Text) (files : PackageFiles) :
    (runScript (replacePackageFiles host packageName files) store).2.listings = store.listings := by
  refine runScript_frame CommunityStore.listings fun step hstep write heq s => ?_
  rcases List.mem_cons.mp hstep with rfl | hstep
  · rw [← Except.ok.inj heq]
    rfl
  · obtain ⟨f, -, rfl⟩ := List.mem_map.mp hstep
    unfold statement at heq
    split at heq
    · rw [← Except.ok.inj heq]
      rfl
    · exact absurd heq nofun

/-- **A `publish` that fails at a file** has already replaced the listing. -/
theorem publish_failed (haccept : acceptPublish host input store = .ok ())
    (hrow : BindsFit host (listingTexts input))
    (hfiles : ¬ ∀ f ∈ input.files.entries, BindsFit host [input.name, f.1, f.2]) :
    (∃ e, (publish host input now store).1 = .error e) ∧
      ∃ row ∈ (publish host input now store).2.listings.rows, row.updatedAt = now := by
  have hlistings : (runScript (publishScript host input now) store).2.listings =
      (writeListing input now store).listings := by
    unfold publishScript
    rw [statement, if_pos hrow, runScript]
    exact replacePackageFiles_listings _ _
  have hfailed : (runScript (publishScript host input now) store).1 ≠ .ok () :=
    fun hok => hfiles (publishScript_eq_ok.mp hok).2
  have hstamped : ∃ row ∈ (writeListing input now store).listings.rows, row.updatedAt = now := by
    rcases Rows.exists_mem_upsert store.listings (newListing input now) (republished input now)
      (fun _ => rfl) with hnew | ⟨row, -, hold⟩
    · exact ⟨_, hnew, rfl⟩
    · exact ⟨_, hold, rfl⟩
  rw [← hlistings] at hstamped
  unfold publish
  rw [haccept]
  generalize runScript (publishScript host input now) store = run at hfailed hstamped
  obtain ⟨result, last⟩ := run
  cases result with
  | error e => exact ⟨⟨e, rfl⟩, hstamped⟩
  | ok u => exact absurd rfl hfailed

/-- **All or nothing**, and the size guard agrees with the store: a `publish` that throws leaves
    both tables as they were, and the files that its checks accept are taken by SQLite and hold at
    most `maxPackageTotalBytes` bytes. -/
structure PublishSound (host : Host) (input : PublishInput) (now : ℕ) (store : CommunityStore) :
    Prop where
  allOrNothing : ∀ e, (publish host input now store).1 = .error e →
    (publish host input now store).2 = store
  stored : acceptPublish host input store = .ok () → ∀ f ∈ input.files.entries,
    ∃ write, statement host [input.name, f.1, f.2] (insertFile input.name f) = .ok write
  total : acceptPublish host input store = .ok () →
    (input.files.entries.map fun f => utf8Length f.2).sum ≤ maxPackageTotalBytes

/-- The sizes of the files in bytes of UTF-8: each path and each content can be bound, and the
    contents stay within the documented total. -/
def FilesFit (host : Host) (files : PackageFiles) : Prop :=
  (∀ f ∈ files.entries, utf8Length f.1 ≤ host.bindLimit ∧ utf8Length f.2 ≤ host.bindLimit) ∧
    (files.entries.map fun f => utf8Length f.2).sum ≤ maxPackageTotalBytes

/-- Where the name fits, a file statement succeeds when its path and its content fit. -/
theorem bindsFit_file (hname : BindsFit host [input.name]) {f : Text × Text} :
    BindsFit host [input.name, f.1, f.2] ↔
      utf8Length f.1 ≤ host.bindLimit ∧ utf8Length f.2 ≤ host.bindLimit := by
  have hfits := hname input.name (List.mem_singleton_self _)
  simp [BindsFit, hfits]

/-- **When publishing is sound.**  `publish` is all-or-nothing, its guard admits no file that the
    store refuses and no more bytes than documented, exactly when every input that passes the
    checks has files that fit in bytes of UTF-8. -/
theorem publish_allOrNothing (host : Host) (input : PublishInput) (now : ℕ)
    (store : CommunityStore) : PublishSound host input now store ↔
      (acceptPublish host input store = .ok () → FilesFit host input.files) := by
  constructor
  · intro h haccept
    have hname := (acceptPublish_ok haccept).nameFits
    refine ⟨fun f hf => ?_, h.total haccept⟩
    exact (bindsFit_file hname).mp (statement_eq_ok.mp (h.stored haccept f hf))
  · intro h
    have hfits : acceptPublish host input store = .ok () →
        ∀ f ∈ input.files.entries, BindsFit host [input.name, f.1, f.2] := by
      intro haccept f hf
      exact (bindsFit_file (acceptPublish_ok haccept).nameFits).mpr ((h haccept).1 f hf)
    refine ⟨fun e he => ?_, fun haccept f hf => ?_, fun haccept => (h haccept).2⟩
    · rcases @publish_cases host input now store with
        ⟨e', -, hrejected⟩ | ⟨haccept, -, hfailed⟩ | ⟨-, -, hok⟩
      · rw [hrejected]
      · -- only the listing itself can be refused, and it comes first
        have hrow : ¬ BindsFit host (listingTexts input) :=
          fun hrow => hfailed ⟨hrow, hfits haccept⟩
        unfold publish publishScript
        rw [haccept, statement, if_neg hrow, runScript]
      · rw [hok] at he
        cases he
    · exact statement_eq_ok.mpr (hfits haccept f hf)

/-! ### A file of accented letters -/

theorem utf16Length_replicate (n : ℕ) (c : Char) :
    utf16Length (List.replicate n c) = n * utf16Length [c] := by
  simp [utf16Length]

theorem utf8Length_replicate (n : ℕ) (c : Char) :
    utf8Length (List.replicate n c) = n * c.utf8Size := by
  simp [utf8Length]

def plainManifest : PackageManifest where
  name := "@me/notes"
  version := "1.0.0"
  description := "Notes"
  exports := Obj.empty
  jobs := Obj.empty
  webhooks := []
  subscriptions := []
  secretProvider := none
  app := none
  dependencies := Obj.empty
  hidden := false
  keywords := []

/-- A package of one file. -/
def notesInput (content : Text) : PublishInput where
  userId := "user_me"
  publisher := "me"
  name := "@me/notes"
  version := "1.0.0"
  manifest := plainManifest
  files := ⟨[("README.md", content)], List.nodup_singleton _⟩
  assigned := rfl

/-- The catalogue with an earlier version of the package. -/
def listedNotes : CommunityStore where
  listings := ⟨[{ name := "@me/notes", userId := "user_me", publisher := "me", version := "0.9.0"
                  description := "Notes", keywords := [], manifest := plainManifest, installs := 3
                  createdAt := 1, updatedAt := 1 }], List.nodup_singleton _⟩
  files := ⟨[{ packageName := "@me/notes", path := "README.md", content := "Old notes" }],
    List.nodup_singleton _⟩

/-- The guard counts the units of a text. -/
theorem notesInput_accepted {content : Text} (hunits : utf16Length content ≤ maxPackageFileBytes) :
    acceptPublish plainHost (notesInput content) listedNotes = .ok () := by
  have hsizes : assertPackageFileSizes (notesInput content).files = .ok () := by
    have hfind : ([(("README.md" : Text), content)].find? fun f =>
        decide (maxPackageFileBytes < utf16Length f.2)) = none := by
      rw [List.find?_eq_none]
      intro f hf
      rw [List.mem_singleton.mp hf, decide_eq_true_eq]
      exact not_lt.mpr hunits
    have htotal : ¬ maxPackageTotalBytes <
        ([(("README.md" : Text), content)].map fun f => utf16Length f.2).sum := by
      rw [List.map_singleton, List.sum_singleton]
      exact not_lt.mpr (hunits.trans (by decide))
    unfold assertPackageFileSizes
    show (match [(("README.md" : Text), content)].find? fun f =>
        decide (maxPackageFileBytes < utf16Length f.2) with
      | some (path, content) => _
      | none => _) = _
    rw [hfind]
    exact if_neg htotal
  have hname : BindsFit plainHost [(notesInput content).name] :=
    show BindsFit plainHost [(notesInput []).name] by decide +kernel
  have hpublisher : ¬ (!publisherPattern (notesInput content).publisher) = true :=
    show ¬ (!publisherPattern (notesInput []).publisher) = true by decide +kernel
  have hhidden : ¬ (notesInput content).manifest.hidden = true :=
    show ¬ (notesInput []).manifest.hidden = true by decide
  have hfind : listedNotes.listings.find? (notesInput content).name =
      listedNotes.listings.rows.head? :=
    show listedNotes.listings.find? (notesInput []).name = listedNotes.listings.rows.head? from rfl
  unfold acceptPublish
  rw [hsizes, if_neg hpublisher, if_neg hhidden]
  dsimp only
  rw [if_neg (not_not.mpr hname), hfind]
  exact if_neg (show ¬ ("user_me" : Text) ≠ "user_me" by simp)

/-- A text within the cap on its units and over SQLite's limit on its bytes. -/
theorem notesInput_not_sound {content : Text} (hunits : utf16Length content ≤ maxPackageFileBytes)
    (hbytes : plainHost.bindLimit < utf8Length content) :
    ¬ PublishSound plainHost (notesInput content) 2 listedNotes := by
  intro h
  have hrow : BindsFit plainHost (listingTexts (notesInput content)) :=
    show BindsFit plainHost (listingTexts (notesInput [])) by decide +kernel
  have hfiles : ¬ ∀ f ∈ (notesInput content).files.entries,
      BindsFit plainHost [(notesInput content).name, f.1, f.2] := by
    intro hfits
    have hcontent := hfits ("README.md", content) (List.mem_singleton_self _) content
      (List.mem_cons_of_mem _ (List.mem_cons_of_mem _ (List.mem_singleton_self _)))
    omega
  obtain ⟨⟨e, he⟩, row, hmem, hstamp⟩ :=
    @publish_failed plainHost (notesInput content) 2 listedNotes (notesInput_accepted hunits) hrow
      hfiles
  rw [h.allOrNothing e he] at hmem
  rw [List.mem_singleton.mp hmem] at hstamp
  exact absurd hstamp (by decide)

/-- **A republish that throws destroys the listing's files.**  1,100,000 letters `é` are as many
    UTF-16 units and twice as many bytes: the guard accepts the file, SQLite does not, and by then
    the listing has its new version and the old file is deleted. -/
theorem accented_not_sound :
    ¬ PublishSound plainHost (notesInput (List.replicate 1100000 'é')) 2 listedNotes := by
  have hunit : utf16Length ['é'] = 1 := by decide
  have hbyte : 'é'.utf8Size = 2 := by decide
  refine notesInput_not_sound ?_ ?_
  · rw [utf16Length_replicate, hunit]
    decide
  · rw [utf8Length_replicate, hbyte]
    decide

end KodyCelld.Packages.Community
