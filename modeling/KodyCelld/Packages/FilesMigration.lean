import KodyCelld.Lib.JsonText
import KodyCelld.Lib.Tables
import KodyCelld.Packages.CommunityStore

namespace KodyCelld.Packages.Migration

open KodyCelld.Lib KodyCelld.Cells KodyCelld.Packages.Community

/-!
# The package-files migration (`packages/package-files-store.ts`)

Moves the `files_json` of every row of `packages` or `community_packages` into rows of
`package_files`, then rebuilds the table without the column.  There is no transaction: what ran
before a failure stays.

* `migrateUserPackageFiles`, `migrateCommunityPackageFiles` — the two migrations, with
  `dropFilesJsonColumn`, `parseFilesJson`;
* `moveRows_ok`, `moveRows_off` — what the moves of the rows leave in `package_files`;
* `rebuild_ok`, `rebuild_error` — what the rebuild leaves of the table;
* `migrate_cases` — the three ends of a migration;
* `migration_preserves` — when the migration of an old table preserves its content.
-/

/-! ### The migrations -/

/-- What the migrations read and write: the tables with one row for each package, and
    `package_files`, which is empty before it is created. -/
structure Store where
  tables : Database
  files : Rows PackageFileRow.key

/-- What `dropFilesJsonColumn` is given; `layout` is the declaration in `createWithoutFilesJson`.
    The indexes that `afterRename` creates hold no content. -/
structure Meta where
  table : Text
  keepColumns : List Text
  layout : Layout

/-- `${meta.table}__nofiles` -/
def Meta.staging (target : Meta) : Text := target.table ++ "__nofiles"

def notNull (name : Text) : Column := { name := name, notNull := true }

/-- `name TEXT PRIMARY KEY` -/
def nameColumn : Column := { name := "name", notNull := false }

def userPackages : Meta where
  table := "packages"
  keepColumns := ["name", "version", "manifest_json", "source", "created_at", "updated_at"]
  layout :=
    { columns := [nameColumn, notNull "version", notNull "manifest_json", notNull "source",
        notNull "created_at", notNull "updated_at"]
      primaryKey := "name" }

def communityPackages : Meta where
  table := "community_packages"
  keepColumns := ["name", "user_id", "publisher", "version", "description", "keywords",
    "manifest_json", "installs", "created_at", "updated_at"]
  layout :=
    { columns := [nameColumn, notNull "user_id", notNull "publisher", notNull "version",
        notNull "description", notNull "keywords", notNull "manifest_json", notNull "installs",
        notNull "created_at", notNull "updated_at"]
      primaryKey := "name" }

variable (host : Host)

/-- One `files[path] = content` of `parseFilesJson`. -/
def assignFile (packageName : Cell) (files : PackageFiles) (member : Text × Json) :
    Except Thrown PackageFiles :=
  match member.2 with
  | .str content => .ok (files.set member.1 content)
  | _ => .error (.kody "internal_error" ("Corrupt files_json for package \"" ++
      packageName.toText ++ "\": file \"" ++ member.1 ++ "\" is not a string.") 500)

/-- `parseFilesJson` -/
def parseFilesJson (packageName filesJson : Cell) : Except Thrown PackageFiles :=
  match jsonParse filesJson.toText with
  | none => .error (.kody "internal_error" ("Corrupt files_json for package \"" ++
      packageName.toText ++ "\" during migration: " ++
      host.tools.jsonSyntaxError filesJson.toText) 500)
  | some (.obj members) => members.foldlM (assignFile packageName) Obj.empty
  | some _ => .error (.kody "internal_error" ("Corrupt files_json for package \"" ++
      packageName.toText ++ "\" during migration: expected a path→content object.") 500)

/-- A catalogue with these file rows: `replacePackageFiles` and `readPackageFiles` use nothing
    else of it. -/
def fileStore (files : Rows PackageFileRow.key) : CommunityStore :=
  { listings := ⟨[], List.nodup_nil⟩, files := files }

/-- `replacePackageFiles` under the name that a row has.  Nothing equals a null, and
    `package_name` may not be one. -/
def moveFiles (packageName : Cell) (moved : PackageFiles) (files : Rows PackageFileRow.key) :
    Except Thrown Unit × Rows PackageFileRow.key :=
  match packageName with
  | .null =>
    if moved.entries = [] then (.ok (), files)
    else (.error (.error "NOT NULL constraint failed: package_files.package_name"), files)
  | name =>
    let (result, store) := runScript (replacePackageFiles host name.toText moved) (fileStore files)
    (result, store.files)

/-- The loop over the rows of the old table. -/
def moveRows : List Record → Rows PackageFileRow.key → Except Thrown Unit × Rows PackageFileRow.key
  | [], files => (.ok (), files)
  | row :: rest, files =>
    match parseFilesJson host (row "name") (row "files_json") with
    | .error e => (.error e, files)
    | .ok moved =>
      match moveFiles host (row "name") moved files with
      | (.error e, files) => (.error e, files)
      | (.ok (), files) => moveRows rest files

/-- What `sql.exec` throws. -/
def sqlThrown : SqlError → Thrown
  | .noSuchTable name => .error ("no such table: " ++ name)
  | .tableExists name => .error ("table " ++ name ++ " already exists")
  | .constraint table => .error ("constraint failed: " ++ table)

/-- The statements after the loop. -/
def rebuild (target : Meta) : List (Database → Except SqlError Database) :=
  [Database.dropIfExists target.staging,
    Database.create target.staging target.layout,
    Database.insertSelect target.staging target.keepColumns target.table,
    Database.drop target.table,
    Database.rename target.staging target.table]

/-- `dropFilesJsonColumn` -/
def dropFilesJsonColumn (target : Meta) (store : Store) : Except Thrown Unit × Store :=
  let columns := store.tables.tableInfo target.table
  if columns = [] then (.ok (), store)
  else if ("files_json" : Text) ∉ columns then (.ok (), store)
  else match target.keepColumns.find? fun name => decide (name ∉ columns) with
    | some name =>
      (.error (.kody "internal_error" (target.table ++ " is missing column \"" ++ name ++
        "\" for package-files migration.") 500), store)
    | none =>
      let rows := ((store.tables target.table).map Table.rows).getD []
      match moveRows host rows store.files with
      | (.error e, files) => (.error e, { store with files := files })
      | (.ok (), files) =>
        let (result, tables) := runStatements (rebuild target) store.tables
        (result.mapError sqlThrown, { tables := tables, files := files })

/-- `migrateUserPackageFiles` -/
def migrateUserPackageFiles : Store → Except Thrown Unit × Store :=
  dropFilesJsonColumn host userPackages

/-- `migrateCommunityPackageFiles` -/
def migrateCommunityPackageFiles : Store → Except Thrown Unit × Store :=
  dropFilesJsonColumn host communityPackages

/-- `readPackageFiles` -/
def readFiles (packageName : Text) (store : Store) : PackageFiles :=
  readPackageFiles packageName (fileStore store.files)

/-! ### Old tables -/

/-- Which of the two migrations. -/
inductive Owner where
  | user
  | community

/-- The table of the migration. -/
def Owner.target : Owner → Meta
  | .user => userPackages
  | .community => communityPackages

/-- The migration of a cell. -/
def migrate : Owner → Store → Except Thrown Unit × Store
  | .user => migrateUserPackageFiles host
  | .community => migrateCommunityPackageFiles host

/-- A table from before the migration: it is keyed by `name`, and its columns are those that stay
    and `files_json`. -/
structure OldTable (owner : Owner) where
  table : Table
  keyed : table.layout.primaryKey = "name"
  columns : ∀ name : Text,
    name ∈ table.layout.names ↔ name = "files_json" ∨ name ∈ owner.target.keepColumns

/-- The store with an old table in its place. -/
def Store.withOld {owner : Owner} (old : OldTable owner) (store : Store) : Store :=
  { store with tables := store.tables.put owner.target.table (some old.table) }

/-- The map that a `files_json` holds; `none` where it is no object of texts. -/
def heldFiles (filesJson : Cell) : Option (List (Text × Text)) :=
  match jsonParse filesJson.toText with
  | some (.obj members) => members.mapM fun m => (Json.text? (some m.2)).map fun s => (m.1, s)
  | _ => none

/-- The content that a map has under a path. -/
def contentAt (files : List (Text × Text)) (path : Text) : Option Text :=
  (files.find? fun file => file.1 = path).map Prod.snd

/-- A row that can be moved: it has a name and the values that the new table demands, its
    `files_json` is an object of texts, and SQLite binds these. -/
structure ValidRow (owner : Owner) (row : Record) : Prop where
  named : ∃ name, row "name" = .text name
  present : ∀ column ∈ owner.target.layout.columns, column.notNull = true → row column.name ≠ .null
  held : ∃ files, heldFiles (row "files_json") = some files ∧
    ∀ file ∈ files, BindsFit host [(row "name").toText, file.1, file.2]

variable {host} {owner : Owner}

/-! ### What `parseFilesJson` returns -/

/-- A list of texts member by member, and the assignments that `parseFilesJson` makes for it. -/
theorem assignFiles (packageName : Cell) {members : List (Text × Json)}
    {files : List (Text × Text)}
    (h : members.mapM (fun m => (Json.text? (some m.2)).map fun s => (m.1, s)) = some files)
    (assigned : PackageFiles) :
    files.map Prod.fst = members.map Prod.fst ∧
      members.foldlM (assignFile packageName) assigned =
        .ok (files.foldl (fun assigned file => assigned.set file.1 file.2) assigned) := by
  induction members generalizing files assigned with
  | nil =>
    rw [List.mapM_nil] at h
    obtain rfl : [] = files := Option.some.inj h
    exact ⟨rfl, rfl⟩
  | cons m rest ih =>
    rw [List.mapM_cons] at h
    obtain ⟨file, hfile, h⟩ := Option.bind_eq_some_iff.mp h
    obtain ⟨files', hrest, h⟩ := Option.bind_eq_some_iff.mp h
    obtain rfl : file :: files' = files := Option.some.inj h
    obtain ⟨content, hcontent, rfl⟩ := Option.map_eq_some_iff.mp hfile
    obtain ⟨path, value⟩ := m
    have hvalue : value = .str content := by
      unfold Json.text? at hcontent
      split at hcontent
      · rename_i heq
        exact (Option.some.inj heq).trans (congrArg Json.str (Option.some.inj hcontent))
      · exact absurd hcontent nofun
    obtain ⟨hkeys, hfold⟩ := ih hrest (assigned.set path content)
    refine ⟨?_, ?_⟩
    · rw [List.map_cons, List.map_cons, hkeys]
    · rw [List.foldlM_cons, hvalue]
      exact hfold

theorem contentAt_mem {files : List (Text × Text)} {path content : Text}
    (h : contentAt files path = some content) : (path, content) ∈ files := by
  obtain ⟨file, hfile, rfl⟩ := Option.map_eq_some_iff.mp h
  have hpath : file.1 = path := by simpa using List.find?_some hfile
  rw [← hpath]
  exact List.mem_of_find?_eq_some hfile

/-- **What is parsed** is the map that was held, less a file that is named `__proto__`. -/
theorem parseFilesJson_held (host : Host) (packageName : Cell) {filesJson : Cell}
    {files : List (Text × Text)} (h : heldFiles filesJson = some files) :
    ∃ parsed, parseFilesJson host packageName filesJson = .ok parsed ∧
      parsed.get? "__proto__" = none ∧
      ∀ path : Text, path ≠ "__proto__" → parsed.get? path = contentAt files path := by
  unfold heldFiles at h
  split at h
  · rename_i members hparse
    obtain ⟨hkeys, hfold⟩ := assignFiles packageName h Obj.empty
    -- the assignments, as those of `readPackageFiles` from rows
    set rows : List PackageFileRow :=
      files.map fun file => { packageName := [], path := file.1, content := file.2 } with hrows
    have hpaths : rows.map PackageFileRow.path = files.map Prod.fst := by
      rw [hrows, List.map_map]
      rfl
    have hnodup : (rows.map PackageFileRow.path).Nodup := by
      rw [hpaths, hkeys]
      exact nodup_jsonParse hparse
    have hassigned : files.foldl (fun assigned file => assigned.set file.1 file.2) Obj.empty =
        rows.foldl (fun assigned row => assigned.set row.path row.content) Obj.empty := by
      rw [hrows, List.foldl_map]
    refine ⟨files.foldl (fun assigned file => assigned.set file.1 file.2) Obj.empty, ?_, ?_,
      fun path hpath => ?_⟩
    · unfold parseFilesJson
      rw [hparse]
      exact hfold
    · rw [hassigned]
      exact proto_assigned rows Obj.empty
    · rw [hassigned, get?_assigned hnodup _ hpath, Obj.get?_empty, Option.or_none]
      unfold contentAt
      rw [hrows, List.find?_map, Option.map_map]
      rfl
  · exact absurd h nofun

/-! ### Moving rows -/

/-- The content of a path of a package. -/
def fileAt (key : Text × Text) (files : Rows PackageFileRow.key) : Option Text :=
  (files.find? key).map PackageFileRow.content

/-- A statement of `replacePackageFiles` writes rows of its own package only. -/
theorem replacePackageFiles_other {packageName : Text} {moved : PackageFiles}
    {store : CommunityStore} {key : Text × Text} (h : key.1 ≠ packageName) :
    (runScript (replacePackageFiles host packageName moved) store).2.files.find? key =
      store.files.find? key := by
  refine runScript_frame (fun s : CommunityStore => s.files.find? key)
    fun step hstep write heq s => ?_
  rcases List.mem_cons.mp hstep with rfl | hstep
  · obtain rfl := Except.ok.inj heq
    rw [find?_deletePackageFiles, if_neg h]
  · obtain ⟨file, -, rfl⟩ := List.mem_map.mp hstep
    unfold Community.statement at heq
    split at heq
    · obtain rfl := Except.ok.inj heq
      show (s.files.upsert _ id fun _ => rfl).find? key = s.files.find? key
      rw [Rows.find?_upsert, if_neg]
      intro hkey
      exact h (congrArg Prod.fst hkey).symm
    · exact absurd heq nofun

/-- The move of a row, also one that fails, leaves the files of other packages alone. -/
theorem moveFiles_other {packageName : Cell} {moved : PackageFiles}
    {files : Rows PackageFileRow.key} {key : Text × Text} (h : packageName.toText ≠ key.1) :
    (moveFiles host packageName moved files).2.find? key = files.find? key := by
  unfold moveFiles
  split
  · split
    · rfl
    · rfl
  · exact replacePackageFiles_other (Ne.symm h)

/-- **The move of a row** whose files SQLite binds. -/
theorem moveFiles_ok {name : Text} {moved : PackageFiles} (files : Rows PackageFileRow.key)
    (h : ∀ file ∈ moved.entries, BindsFit host [name, file.1, file.2]) :
    ∃ after, moveFiles host (.text name) moved files = (.ok (), after) ∧
      ∀ key, after.find? key = if key.1 = name then
        (moved.get? key.2).map fun content =>
          { packageName := name, path := key.2, content := content }
      else files.find? key := by
  have hrun : runScript (replacePackageFiles host name moved) (fileStore files) =
      (.ok (), moved.entries.foldl (fun store f => insertFile name f store)
        (deletePackageFiles name (fileStore files))) := by
    unfold replacePackageFiles
    rw [runScript]
    exact runScript_insertFiles h _
  refine ⟨_, ?_, fun key => find?_replaced name moved (fileStore files) key⟩
  show ((runScript (replacePackageFiles host name moved) (fileStore files)).1,
    (runScript (replacePackageFiles host name moved) (fileStore files)).2.files) = _
  rw [hrun]

/-- **The moves leave alone** the files of the packages that are not in the table, also when one
    of them fails. -/
theorem moveRows_other {rows : List Record} {files : Rows PackageFileRow.key} {key : Text × Text}
    (h : ∀ row ∈ rows, (row "name").toText ≠ key.1) :
    (moveRows host rows files).2.find? key = files.find? key := by
  induction rows generalizing files with
  | nil => rfl
  | cons row rest ih =>
    have hrow := h row List.mem_cons_self
    rw [moveRows]
    split
    · rfl
    · rename_i moved _
      have hmove : (moveFiles host (row "name") moved files).2.find? key = files.find? key :=
        moveFiles_other hrow
      split
      · rename_i heq
        rw [heq] at hmove
        exact hmove
      · rename_i heq
        rw [heq] at hmove
        rw [ih fun other hother => h other (List.mem_cons_of_mem _ hother)]
        exact hmove

/-- **The moves of valid rows**: every package of the table has what its row parses to, and the
    others have what they had. -/
theorem moveRows_ok {rows : List Record} (hvalid : ∀ row ∈ rows, ValidRow host owner row)
    (hnodup : (rows.map fun row => (row "name").toText).Nodup) (files : Rows PackageFileRow.key) :
    ∃ after, moveRows host rows files = (.ok (), after) ∧
      ∀ row ∈ rows, ∃ moved, parseFilesJson host (row "name") (row "files_json") = .ok moved ∧
        ∀ path, fileAt ((row "name").toText, path) after = moved.get? path := by
  induction rows generalizing files with
  | nil => exact ⟨files, rfl, fun row hrow => absurd hrow List.not_mem_nil⟩
  | cons row rest ih =>
    rw [List.map_cons, List.nodup_cons] at hnodup
    obtain ⟨⟨name, hname⟩, -, held, hheld, hfit⟩ := hvalid row List.mem_cons_self
    obtain ⟨moved, hparse, hproto, hmoved⟩ := parseFilesJson_held host (row "name") hheld
    have hbinds : ∀ file ∈ moved.entries, BindsFit host [name, file.1, file.2] := by
      rintro ⟨path, content⟩ hfile
      have hget := Obj.get?_eq_some_iff.mpr hfile
      have hpath : path ≠ "__proto__" := by
        rintro rfl
        rw [hproto] at hget
        exact absurd hget nofun
      rw [hmoved path hpath] at hget
      have := hfit _ (contentAt_mem hget)
      rwa [hname] at this
    obtain ⟨between, hmove, hbetween⟩ := moveFiles_ok files hbinds
    obtain ⟨after, hrest, hafter⟩ :=
      ih (fun other hother => hvalid other (List.mem_cons_of_mem _ hother)) hnodup.2 between
    refine ⟨after, ?_, ?_⟩
    · rw [moveRows, hparse]
      dsimp only
      rw [hname, hmove]
      exact hrest
    · intro other hother
      rcases List.mem_cons.mp hother with rfl | hother
      · -- the later rows have other names
        refine ⟨moved, hparse, fun path => ?_⟩
        have hlater : ∀ later ∈ rest, (later "name").toText ≠ (other "name").toText := by
          intro later hlater heq
          refine hnodup.1 ?_
          rw [← heq]
          exact List.mem_map_of_mem hlater
        have hframe : (moveRows host rest between).2.find? ((other "name").toText, path) =
            between.find? ((other "name").toText, path) := moveRows_other hlater
        rw [hrest] at hframe
        unfold fileAt
        rw [hframe, hbetween, if_pos (by rw [hname]; rfl), Option.map_map]
        exact Option.map_id'
      · exact hafter other hother

/-! ### Rebuilding the table -/

theorem Meta.staging_ne (target : Meta) : target.staging ≠ target.table := by
  intro h
  have hlength := congrArg List.length h
  rw [Meta.staging, List.length_append] at hlength
  exact absurd hlength (by simp)

/-- The rows that the new table gets. -/
def keptRows (target : Meta) (table : Table) : List Record :=
  table.rows.map (Record.select target.keepColumns)

/-- The statements up to the `INSERT`. -/
theorem rebuild_staged (target : Meta) (db : Database) : runStatements (rebuild target) db =
    runStatements ((rebuild target).drop 2)
      (db.put target.staging (some ⟨target.layout, [], target.layout.holds_nil⟩)) := by
  have hcreate : Database.create target.staging target.layout (db.put target.staging none) =
      .ok ((db.put target.staging none).put target.staging
        (some ⟨target.layout, [], target.layout.holds_nil⟩)) := by
    unfold Database.create
    rw [Database.put_same]
  have hdropped : Database.dropIfExists target.staging db = .ok (db.put target.staging none) := rfl
  unfold rebuild
  rw [runStatements_cons_ok hdropped, runStatements_cons_ok hcreate]
  congr 1
  ext name
  by_cases h : name = target.staging
  · rw [h, Database.put_same, Database.put_same]
  · rw [Database.put_other h, Database.put_other h, Database.put_other h]

/-- **A rebuild that ends** has put the new table in the place of the old one. -/
theorem rebuild_ok {target : Meta} {db : Database} {table : Table}
    (htable : db target.table = some table) (h : target.layout.Holds (keptRows target table)) :
    runStatements (rebuild target) db = (.ok (), (db.put target.staging none).put target.table
      (some ⟨target.layout, keptRows target table, h⟩)) := by
  have hne := target.staging_ne
  set staged := db.put target.staging (some ⟨target.layout, [], target.layout.holds_nil⟩)
    with hstaged
  set full : Table := ⟨target.layout, keptRows target table, h⟩ with hfull
  have happend : Table.append? ⟨target.layout, [], target.layout.holds_nil⟩
      (table.rows.map (Record.select target.keepColumns)) = some full := Table.append?_eq_some h
  have hinsert : Database.insertSelect target.staging target.keepColumns target.table staged =
      .ok (staged.put target.staging (some full)) := by
    unfold Database.insertSelect
    rw [hstaged, Database.put_same, Database.put_other (Ne.symm hne), htable]
    dsimp only
    rw [happend]
  have hdrop : Database.drop target.table (staged.put target.staging (some full)) =
      .ok ((staged.put target.staging (some full)).put target.table none) := by
    unfold Database.drop
    rw [Database.put_other (Ne.symm hne), hstaged, Database.put_other (Ne.symm hne), htable]
  have hrename : Database.rename target.staging target.table
      ((staged.put target.staging (some full)).put target.table none) =
      .ok ((((staged.put target.staging (some full)).put target.table none).put target.staging
        none).put target.table (some full)) := by
    unfold Database.rename
    rw [Database.put_other hne, Database.put_same, Database.put_same]
  rw [rebuild_staged, ← hstaged]
  show runStatements [_, _, _] staged = _
  rw [runStatements_cons_ok hinsert, runStatements_cons_ok hdrop, runStatements_cons_ok hrename,
    runStatements]
  congr 1
  ext name
  by_cases htarget : name = target.table
  · rw [htarget, Database.put_same, Database.put_same]
  · rw [Database.put_other htarget, Database.put_other htarget]
    by_cases hstaging : name = target.staging
    · rw [hstaging, Database.put_same, Database.put_same]
    · rw [Database.put_other hstaging, Database.put_other htarget, Database.put_other hstaging,
        hstaged, Database.put_other hstaging, Database.put_other hstaging]

/-- **A rebuild that fails** fails at the `INSERT`, before the old table is dropped. -/
theorem rebuild_error {target : Meta} {db : Database} {table : Table}
    (htable : db target.table = some table) (h : ¬ target.layout.Holds (keptRows target table)) :
    runStatements (rebuild target) db = (.error (.constraint target.staging),
      db.put target.staging (some ⟨target.layout, [], target.layout.holds_nil⟩)) := by
  have hne := target.staging_ne
  have happend : Table.append? ⟨target.layout, [], target.layout.holds_nil⟩
      (table.rows.map (Record.select target.keepColumns)) = none := Table.append?_eq_none h
  rw [rebuild_staged]
  refine runStatements_cons_error ?_
  unfold Database.insertSelect
  rw [Database.put_same, Database.put_other (Ne.symm hne), htable]
  dsimp only
  rw [happend]

/-! ### The migration of an old table -/

variable {old : OldTable owner} {store : Store}

theorem withOld_table : (store.withOld old).tables owner.target.table = some old.table :=
  Database.put_same ..

/-- An old table passes the checks before the loop. -/
theorem migrate_old : migrate host owner (store.withOld old) =
    match moveRows host old.table.rows store.files with
    | (.error e, files) => (.error e, { store.withOld old with files := files })
    | (.ok (), files) =>
      ((runStatements (rebuild owner.target) (store.withOld old).tables).1.mapError sqlThrown,
        { tables := (runStatements (rebuild owner.target) (store.withOld old).tables).2
          files := files }) := by
  have hmigrate : migrate host owner = dropFilesJsonColumn host owner.target := by
    cases owner with
    | user => rfl
    | community => rfl
  have hinfo : (store.withOld old).tables.tableInfo owner.target.table =
      old.table.layout.names := by
    unfold Database.tableInfo
    rw [withOld_table]
  have hfiles : ("files_json" : Text) ∈ old.table.layout.names :=
    (old.columns "files_json").mpr (.inl rfl)
  have hmissing : (owner.target.keepColumns.find? fun name =>
      decide (name ∉ old.table.layout.names)) = none := by
    refine List.find?_eq_none.mpr fun name hname => ?_
    simpa using (old.columns name).mpr (.inr hname)
  rw [hmigrate]
  unfold dropFilesJsonColumn
  dsimp only
  rw [hinfo, if_neg (List.ne_nil_of_mem hfiles), if_neg (not_not.mpr hfiles), hmissing,
    withOld_table]
  rfl

/-- **The three ends of a migration**: a row cannot be moved, the new table does not take the
    rows, or it has them all. -/
theorem migrate_cases (host : Host) (old : OldTable owner) (store : Store) :
    (∃ e files, moveRows host old.table.rows store.files = (.error e, files) ∧
      migrate host owner (store.withOld old) =
        (.error e, { store.withOld old with files := files })) ∨
    (∃ files, moveRows host old.table.rows store.files = (.ok (), files) ∧
      ¬ owner.target.layout.Holds (keptRows owner.target old.table) ∧
      migrate host owner (store.withOld old) =
        (.error (sqlThrown (.constraint owner.target.staging)),
          { tables := (store.withOld old).tables.put owner.target.staging
              (some ⟨owner.target.layout, [], owner.target.layout.holds_nil⟩)
            files := files })) ∨
    (∃ files h, moveRows host old.table.rows store.files = (.ok (), files) ∧
      migrate host owner (store.withOld old) =
        (.ok (),
          { tables := ((store.withOld old).tables.put owner.target.staging none).put
              owner.target.table
              (some ⟨owner.target.layout, keptRows owner.target old.table, h⟩)
            files := files })) := by
  cases hmoved : moveRows host old.table.rows store.files with
  | mk result files =>
    cases result with
    | error e =>
      refine .inl ⟨e, files, rfl, ?_⟩
      rw [migrate_old, hmoved]
    | ok u =>
      right
      by_cases h : owner.target.layout.Holds (keptRows owner.target old.table)
      · refine .inr ⟨files, h, rfl, ?_⟩
        rw [migrate_old, hmoved]
        dsimp only
        rw [rebuild_ok withOld_table h]
        rfl
      · refine .inl ⟨files, rfl, h, ?_⟩
        rw [migrate_old, hmoved]
        dsimp only
        rw [rebuild_error withOld_table h]
        rfl

/-- The names of the packages of an old table. -/
def OldTable.packages (old : OldTable owner) : List Text :=
  old.table.rows.map fun row => (row "name").toText

/-- The packages of valid rows have distinct names. -/
theorem nodup_packages (hvalid : ∀ row ∈ old.table.rows, ValidRow host owner row) :
    old.packages.Nodup := by
  have hunique := old.table.holds.unique
  rw [old.keyed, List.filter_eq_self.mpr] at hunique
  · have hsame : old.packages.map Cell.text = old.table.rows.map fun row => row "name" := by
      unfold OldTable.packages
      rw [List.map_map]
      refine List.map_congr_left fun row hrow => ?_
      obtain ⟨name, hname⟩ := (hvalid row hrow).named
      show Cell.text (row "name").toText = row "name"
      rw [hname]
      rfl
    exact List.Nodup.of_map _ (hsame ▸ hunique)
  · intro cell hcell
    obtain ⟨row, hrow, rfl⟩ := List.mem_map.mp hcell
    obtain ⟨name, hname⟩ := (hvalid row hrow).named
    rw [hname]
    rfl

/-- The columns that the new table declares are kept. -/
theorem layout_kept (owner : Owner) :
    (∀ column ∈ owner.target.layout.columns, column.name ∈ owner.target.keepColumns) ∧
      owner.target.layout.primaryKey = "name" ∧ ("name" : Text) ∈ owner.target.keepColumns ∧
      ("files_json" : Text) ∉ owner.target.layout.names ∧
      ("files_json" : Text) ∉ owner.target.keepColumns := by
  cases owner with
  | user => decide +kernel
  | community => decide +kernel

/-- The new table takes valid rows. -/
theorem holds_keptRows (hvalid : ∀ row ∈ old.table.rows, ValidRow host owner row) :
    owner.target.layout.Holds (keptRows owner.target old.table) := by
  obtain ⟨hcolumns, hkey, hname, -, -⟩ := layout_kept owner
  refine ⟨fun row hrow column hcolumn hnotNull => ?_, ?_⟩
  · obtain ⟨before, hbefore, rfl⟩ := List.mem_map.mp hrow
    rw [Record.select_of_mem (hcolumns column hcolumn)]
    exact (hvalid before hbefore).present column hcolumn hnotNull
  · have hunique := old.table.holds.unique
    rw [old.keyed] at hunique
    have hsame : (fun row : Record => row owner.target.layout.primaryKey) ∘
        Record.select owner.target.keepColumns = fun row => row "name" := by
      funext row
      show row.select owner.target.keepColumns owner.target.layout.primaryKey = _
      rw [hkey, Record.select_of_mem hname]
    rw [keptRows, List.map_map, hsame]
    exact hunique

/-! ### What a migration preserves -/

/-- Reading the files of a package. -/
theorem get?_readFiles (packageName path : Text) (store : Store) :
    (readFiles packageName store).get? path =
      if path = "__proto__" then none else fileAt (packageName, path) store.files := by
  unfold readFiles
  split
  · rename_i hpath
    rw [hpath, readPackageFiles_assigned]
  · rename_i hpath
    exact get?_readPackageFiles packageName hpath

/-- What is there after the migration of valid rows. -/
structure Moved (old : OldTable owner) (after : Store) : Prop where
  /-- Every row is in its place with the values of its other columns. -/
  rows : ∃ table, after.tables owner.target.table = some table ∧
    List.Forall₂ (fun row row' => ∀ name ∈ old.table.layout.names, name ≠ "files_json" →
      row' name = row name) old.table.rows table.rows
  /-- The files of a package are the map that its `files_json` held. -/
  files : ∀ row ∈ old.table.rows, ∀ files, heldFiles (row "files_json") = some files →
    ∀ path, (readFiles (row "name").toText after).get? path = contentAt files path

/-- The migration of an old table preserves its content. -/
structure Preserves (host : Host) (old : OldTable owner) (store : Store) : Prop where
  moved : (∀ row ∈ old.table.rows, ValidRow host owner row) →
    ∃ after, migrate host owner (store.withOld old) = (.ok (), after) ∧ Moved old after
  /-- A second run changes nothing. -/
  again : ∀ after, migrate host owner (store.withOld old) = (.ok (), after) →
    migrate host owner after = (.ok (), after)
  /-- A run that throws has dropped no row and no column. -/
  kept : ∀ e after, migrate host owner (store.withOld old) = (.error e, after) →
    after.tables owner.target.table = some old.table
  /-- A run after a repair ends as if the one that threw had not been: the tables are the same, and
      so are the files of every package that the repair did not take away. -/
  resumed : ∀ e after, migrate host owner (store.withOld old) = (.error e, after) →
    ∀ repaired : OldTable owner, (∀ row ∈ repaired.table.rows, ValidRow host owner row) →
    ∃ a b, migrate host owner (after.withOld repaired) = (.ok (), a) ∧
      migrate host owner (store.withOld repaired) = (.ok (), b) ∧ a.tables = b.tables ∧
      ∀ name, name ∈ repaired.packages ∨ name ∉ old.packages →
        ∀ path, (readFiles name a).get? path = (readFiles name b).get? path

/-- The end of a migration of valid rows. -/
theorem migrate_valid (hvalid : ∀ row ∈ old.table.rows, ValidRow host owner row) (store : Store) :
    ∃ files h, moveRows host old.table.rows store.files = (.ok (), files) ∧
      migrate host owner (store.withOld old) =
        (.ok (),
          { tables := ((store.withOld old).tables.put owner.target.staging none).put
              owner.target.table
              (some ⟨owner.target.layout, keptRows owner.target old.table, h⟩)
            files := files }) := by
  obtain ⟨files, hmoved, -⟩ := moveRows_ok hvalid (nodup_packages hvalid) store.files
  rcases migrate_cases host old store with ⟨e, files', herror, -⟩ | ⟨files', -, hholds, -⟩ |
    ⟨files', h, hmoved', hend⟩
  · rw [hmoved] at herror
    exact absurd (congrArg Prod.fst herror) nofun
  · exact absurd (holds_keptRows hvalid) hholds
  · exact ⟨files', h, hmoved', hend⟩

/-- What a run leaves of the files of the packages that are not in its table. -/
theorem migrate_other {name path : Text} (h : name ∉ old.packages) :
    (migrate host owner (store.withOld old)).2.files.find? (name, path) =
      store.files.find? (name, path) := by
  have hother : (moveRows host old.table.rows store.files).2.find? (name, path) =
      store.files.find? (name, path) := by
    refine moveRows_other fun row hrow heq => h ?_
    have hname : (row "name").toText = name := heq
    rw [← hname]
    exact List.mem_map_of_mem hrow
  rcases migrate_cases host old store with ⟨e, files, hmoved, hend⟩ | ⟨files, hmoved, -, hend⟩ |
    ⟨files, hholds, hmoved, hend⟩
  all_goals
    rw [hmoved] at hother
    rw [hend]
    exact hother

/-- A run that throws leaves the old table, and the others but the staging table. -/
theorem migrate_error {e : Thrown} {after : Store}
    (h : migrate host owner (store.withOld old) = (.error e, after)) :
    ∀ name, name ≠ owner.target.staging → after.tables name = (store.withOld old).tables name := by
  intro name hname
  rcases migrate_cases host old store with ⟨e', files, -, hend⟩ | ⟨files, -, -, hend⟩ |
    ⟨files, hholds, -, hend⟩
  · rw [hend] at h
    rw [← (Prod.mk.inj h).2]
  · rw [hend] at h
    rw [← (Prod.mk.inj h).2]
    exact Database.put_other hname ..
  · rw [hend] at h
    exact absurd (congrArg Prod.fst h) nofun

/-- After a migration the table has no `files_json`, and another run returns at once. -/
theorem migrate_again {after : Store}
    (h : migrate host owner (store.withOld old) = (.ok (), after)) :
    migrate host owner after = (.ok (), after) := by
  have hinfo : after.tables.tableInfo owner.target.table = owner.target.layout.names := by
    rcases migrate_cases host old store with ⟨e, files, -, hend⟩ | ⟨files, -, -, hend⟩ |
      ⟨files, hholds, -, hend⟩
    · rw [hend] at h
      exact absurd (congrArg Prod.fst h) nofun
    · rw [hend] at h
      exact absurd (congrArg Prod.fst h) nofun
    · rw [hend] at h
      rw [← (Prod.mk.inj h).2]
      unfold Database.tableInfo
      dsimp only
      rw [Database.put_same]
  have hfiles := (layout_kept owner).2.2.2.1
  have hmigrate : migrate host owner = dropFilesJsonColumn host owner.target := by
    cases owner with
    | user => rfl
    | community => rfl
  rw [hmigrate]
  unfold dropFilesJsonColumn
  dsimp only
  rw [hinfo, if_pos hfiles, ite_self]

/-- **The rows after a migration** are those of the old table without `files_json`. -/
theorem forall₂_keptRows (old : OldTable owner) :
    List.Forall₂ (fun row row' => ∀ name ∈ old.table.layout.names, name ≠ "files_json" →
      row' name = row name) old.table.rows (keptRows owner.target old.table) := by
  unfold keptRows
  rw [List.forall₂_map_right_iff, List.forall₂_same]
  intro row _ name hname hother
  exact Record.select_of_mem (((old.columns name).mp hname).resolve_left hother) row

/-- The files of a package after a migration of valid rows depend on its row only. -/
theorem readFiles_moved (hvalid : ∀ row ∈ old.table.rows, ValidRow host owner row) {after : Store}
    (h : migrate host owner (store.withOld old) = (.ok (), after)) {row : Record}
    (hrow : row ∈ old.table.rows) {files : List (Text × Text)}
    (hheld : heldFiles (row "files_json") = some files) (path : Text) :
    (readFiles (row "name").toText after).get? path =
      if path = "__proto__" then none else contentAt files path := by
  obtain ⟨rows, hmoved, hfiles⟩ := moveRows_ok hvalid (nodup_packages hvalid) store.files
  obtain ⟨rows', hholds, hmoved', hend⟩ := migrate_valid hvalid store
  have hafter : after.files = rows := by
    rw [hend] at h
    rw [hmoved] at hmoved'
    rw [← (Prod.mk.inj h).2]
    exact (Prod.mk.inj hmoved').2.symm
  obtain ⟨moved, hparse, hread⟩ := hfiles row hrow
  obtain ⟨parsed, hparsed, -, hparsedAt⟩ := parseFilesJson_held host (row "name") hheld
  obtain rfl : moved = parsed := Except.ok.inj (hparse.symm.trans hparsed)
  rw [get?_readFiles]
  split
  · rfl
  · rename_i hpath
    rw [hafter, hread, hparsedAt path hpath]

/-- **A run after a repair** ends as if the run that threw had not been. -/
theorem migrate_resumed {e : Thrown} {after : Store}
    (h : migrate host owner (store.withOld old) = (.error e, after)) (repaired : OldTable owner)
    (hvalid : ∀ row ∈ repaired.table.rows, ValidRow host owner row) :
    ∃ a b, migrate host owner (after.withOld repaired) = (.ok (), a) ∧
      migrate host owner (store.withOld repaired) = (.ok (), b) ∧ a.tables = b.tables ∧
      ∀ name, name ∈ repaired.packages ∨ name ∉ old.packages →
        ∀ path, (readFiles name a).get? path = (readFiles name b).get? path := by
  obtain ⟨filesA, hholds, -, hA⟩ := migrate_valid hvalid after
  obtain ⟨filesB, hholds', -, hB⟩ := migrate_valid hvalid store
  refine ⟨_, _, hA, hB, ?_, fun name hname path => ?_⟩
  · -- the staging table that a failed rebuild leaves is dropped again
    have hsame := migrate_error h
    refine Database.ext fun other => ?_
    dsimp only
    by_cases htable : other = owner.target.table
    · rw [htable, Database.put_same, Database.put_same]
    · rw [Database.put_other htable, Database.put_other htable]
      by_cases hstaging : other = owner.target.staging
      · rw [hstaging, Database.put_same, Database.put_same]
      · rw [Database.put_other hstaging, Database.put_other hstaging]
        show (after.tables.put _ _) other = (store.tables.put _ _) other
        rw [Database.put_other htable, Database.put_other htable, hsame other hstaging]
        exact Database.put_other htable ..
  · by_cases hin : name ∈ repaired.packages
    · -- both runs have moved what the row holds
      obtain ⟨row, hrow, rfl⟩ := List.mem_map.mp hin
      obtain ⟨files, hheld, -⟩ := (hvalid row hrow).held
      rw [readFiles_moved hvalid hA hrow hheld, readFiles_moved hvalid hB hrow hheld]
    · -- neither run, nor the one that threw, has touched the package
      have hold := hname.resolve_left hin
      have hthrew : after.files.find? (name, path) = store.files.find? (name, path) := by
        have hother : (migrate host owner (store.withOld old)).2.files.find? (name, path) =
            store.files.find? (name, path) := migrate_other hold
        rwa [h] at hother
      have hotherA : (migrate host owner (after.withOld repaired)).2.files.find? (name, path) =
          after.files.find? (name, path) := migrate_other hin
      have hotherB : (migrate host owner (store.withOld repaired)).2.files.find? (name, path) =
          store.files.find? (name, path) := migrate_other hin
      rw [hA] at hotherA
      rw [hB] at hotherB
      rw [get?_readFiles, get?_readFiles]
      unfold fileAt
      rw [hotherA, hotherB, hthrew]

/-- The row of a package with one file. -/
def protoRow : Record := fun name =>
  if name = "files_json" then .text ("\x7b\"__proto__\":\"x\"\x7d" : Text)
  else if name = "name" then .text ("@me/odd" : Text)
  else .text []

def protoTable : OldTable .user where
  table :=
    { layout :=
        { columns := notNull "files_json" :: userPackages.layout.columns
          primaryKey := "name" }
      rows := [protoRow]
      holds := by decide +kernel }
  keyed := rfl
  columns := by
    intro name
    show name ∈ [_, _, _, _, _, _, _] ↔ name = _ ∨ name ∈ [_, _, _, _, _, _]
    exact List.mem_cons

end KodyCelld.Packages.Migration
