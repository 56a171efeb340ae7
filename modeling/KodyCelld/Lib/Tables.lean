import KodyCelld.Lib.Json

namespace KodyCelld.Lib

/-!
# Named tables with declared columns

A database as `CREATE TABLE`, `INSERT … SELECT`, `DROP TABLE` and `ALTER TABLE … RENAME` see it.

* `Table` — rows with the constraints of their declaration as an invariant;
* `Database` — the tables by name, and the statements on them;
* `runStatements` — statements one after the other, without a rollback of those before a failure;
* `append?_eq_some`, `append?_eq_none` — when rows can be inserted into an empty table.
-/

/-- A stored value. -/
inductive Cell where
  | null
  | integer (n : ℤ)
  | text (s : Text)
  deriving DecidableEq

/-- `String(value)` -/
def Cell.toText : Cell → Text
  | .null => "null"
  | .integer n => (toString n).toList
  | .text s => s

/-- A declared column. -/
structure Column where
  name : Text
  notNull : Bool
  deriving DecidableEq

/-- The value of a row in each column. -/
abbrev Record := Text → Cell

/-- The declaration of a table: its columns, and the one that is the primary key. -/
structure Layout where
  columns : List Column
  primaryKey : Text
  deriving DecidableEq

/-- The names of the columns, as `pragma_table_info` lists them. -/
def Layout.names (layout : Layout) : List Text := layout.columns.map Column.name

/-- What a declaration demands of the rows.  A primary key of texts may be null, in any number of
    rows. -/
structure Layout.Holds (layout : Layout) (rows : List Record) : Prop where
  present : ∀ row ∈ rows, ∀ column ∈ layout.columns, column.notNull = true → row column.name ≠ .null
  unique : ((rows.map fun row => row layout.primaryKey).filter (· ≠ .null)).Nodup

theorem Layout.holds_iff {layout : Layout} {rows : List Record} : layout.Holds rows ↔
    (∀ row ∈ rows, ∀ column ∈ layout.columns, column.notNull = true → row column.name ≠ .null) ∧
      ((rows.map fun row => row layout.primaryKey).filter (· ≠ .null)).Nodup :=
  ⟨fun h => ⟨h.present, h.unique⟩, fun h => ⟨h.1, h.2⟩⟩

instance (layout : Layout) (rows : List Record) : Decidable (layout.Holds rows) :=
  decidable_of_iff _ Layout.holds_iff.symm

theorem Layout.holds_nil (layout : Layout) : layout.Holds [] :=
  ⟨fun _ hrow => absurd hrow List.not_mem_nil, List.nodup_nil⟩

/-- The rows of a table, which satisfy its declaration. -/
structure Table where
  layout : Layout
  rows : List Record
  holds : layout.Holds rows

/-- `INSERT` of rows; `none` where it would break a constraint. -/
def Table.append? (table : Table) (rows : List Record) : Option Table :=
  if h : table.layout.Holds (table.rows ++ rows) then some ⟨table.layout, table.rows ++ rows, h⟩
  else none

/-- The values in the listed columns; the others are left to their default. -/
def Record.select (columns : List Text) (row : Record) : Record :=
  fun name => if name ∈ columns then row name else .null

theorem Record.select_of_mem {columns : List Text} {name : Text} (h : name ∈ columns)
    (row : Record) : row.select columns name = row name := if_pos h

/-- **Rows that satisfy the declaration** can be inserted into an empty table. -/
theorem Table.append?_eq_some {layout : Layout} {rows : List Record} (h : layout.Holds rows) :
    Table.append? ⟨layout, [], layout.holds_nil⟩ rows = some ⟨layout, rows, h⟩ := by
  unfold Table.append?
  rw [dif_pos (show layout.Holds ([] ++ rows) from h)]
  rfl

theorem Table.append?_eq_none {layout : Layout} {rows : List Record} (h : ¬ layout.Holds rows) :
    Table.append? ⟨layout, [], layout.holds_nil⟩ rows = none := by
  unfold Table.append?
  exact dif_neg (show ¬ layout.Holds ([] ++ rows) from h)

/-- Why SQLite rejects a statement. -/
inductive SqlError where
  | noSuchTable (name : Text)
  | tableExists (name : Text)
  | constraint (table : Text)
  deriving DecidableEq

/-- The tables by name. -/
def Database := Text → Option Table

namespace Database

@[ext] theorem ext {a b : Database} (h : ∀ name, a name = b name) : a = b := funext h

/-- The database with another table under a name, or with none. -/
def put (name : Text) (table : Option Table) (db : Database) : Database :=
  fun other => if other = name then table else db other

@[simp] theorem put_same (name : Text) (table : Option Table) (db : Database) :
    db.put name table name = table := if_pos rfl

theorem put_other {name other : Text} (h : other ≠ name) (table : Option Table) (db : Database) :
    db.put name table other = db other := if_neg h

/-- `SELECT name FROM pragma_table_info(…)`; a table that does not exist has no columns. -/
def tableInfo (name : Text) (db : Database) : List Text :=
  match db name with
  | none => []
  | some table => table.layout.names

/-- `CREATE TABLE` -/
def create (name : Text) (layout : Layout) (db : Database) : Except SqlError Database :=
  match db name with
  | some _ => .error (.tableExists name)
  | none => .ok (db.put name (some ⟨layout, [], layout.holds_nil⟩))

/-- `DROP TABLE IF EXISTS` -/
def dropIfExists (name : Text) (db : Database) : Except SqlError Database := .ok (db.put name none)

/-- `DROP TABLE` -/
def drop (name : Text) (db : Database) : Except SqlError Database :=
  match db name with
  | none => .error (.noSuchTable name)
  | some _ => .ok (db.put name none)

/-- `ALTER TABLE old RENAME TO new` -/
def rename (old new : Text) (db : Database) : Except SqlError Database :=
  match db old, db new with
  | none, _ => .error (.noSuchTable old)
  | some _, some _ => .error (.tableExists new)
  | some table, none => .ok ((db.put old none).put new (some table))

/-- `INSERT INTO target (columns) SELECT columns FROM source` -/
def insertSelect (target : Text) (columns : List Text) (source : Text) (db : Database) :
    Except SqlError Database :=
  match db target, db source with
  | none, _ => .error (.noSuchTable target)
  | some _, none => .error (.noSuchTable source)
  | some into, some table =>
    match into.append? (table.rows.map (Record.select columns)) with
    | none => .error (.constraint target)
    | some into => .ok (db.put target (some into))

end Database

/-! ### Statements -/

section
variable {σ ε : Type}

/-- Runs statements in order up to the first that fails; each of them happens as a whole. -/
def runStatements : List (σ → Except ε σ) → σ → Except ε Unit × σ
  | [], s => (.ok (), s)
  | statement :: rest, s =>
    match statement s with
    | .error e => (.error e, s)
    | .ok s => runStatements rest s

theorem runStatements_cons_ok {statement : σ → Except ε σ} {rest : List (σ → Except ε σ)} {s s' : σ}
    (h : statement s = .ok s') : runStatements (statement :: rest) s = runStatements rest s' := by
  rw [runStatements, h]

theorem runStatements_cons_error {statement : σ → Except ε σ} {rest : List (σ → Except ε σ)}
    {s : σ} {e : ε} (h : statement s = .error e) :
    runStatements (statement :: rest) s = (.error e, s) := by
  rw [runStatements, h]

end

end KodyCelld.Lib
