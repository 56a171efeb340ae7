import KodyCelld.Cells.PackageSave

namespace KodyCelld.Blobs

open KodyCelld.Lib
open KodyCelld.Cells (assertQuota)

/-!
# Blob keys and the blob index (`blobs/keys.ts`, `blobs/service.ts`, `cells/user-cell.ts`)

A blob is an object of the bucket under the user's prefix, and a row of the `blobs` table of the
user's cell.

* `normalizeBlobKey`, `resolveContentType`, `normalizeMetadata` — the checks of a put;
* `assertBlobQuota`, `blobIndexPut`, `blobIndexDelete` — the methods of the cell;
* `objectKeyFor_injective` — the objects of two keys of one user are two objects;
* `find?_blobIndexPut`, `find?_blobIndexDelete` — the row of every key after a write.

Times are milliseconds; the metadata column is kept as its value.
-/

/-! ### Keys -/

def maxBlobKeyLength : ℕ := 512

/-- The characters that the two classes of `keyPattern` share. -/
def isKeyChar (c : Char) : Bool := isLetter c || isDigit c || c ∈ ("!_.*'()@=,:+ -" : Text)

/-- `keyPattern.test(key)`: only the first character must not be a slash. -/
def keyPattern : Text → Bool
  | [] => false
  | c :: rest => isKeyChar c && rest.all fun d => isKeyChar d || d == '/'

/-- Validates a user-facing blob key and returns it trimmed. -/
def normalizeBlobKey (input : Json) : Except Thrown Text :=
  match input with
  | .str text =>
    let key := trim text
    if key = [] then .error (.kody "invalid_blob_key" "Blob key is required.")
    else if maxBlobKeyLength < utf16Length key then
      .error (.kody "invalid_blob_key"
        ("Blob key must be at most " ++ natText maxBlobKeyLength ++ " characters."))
    else if !keyPattern key || key.getLast? == some '/' then
      .error (.kody "invalid_blob_key" ("Blob key \"" ++ key ++
        "\" may only use letters, digits, spaces and !_.*'()@=,:+- separated by \"/\", and must not start or end with \"/\"."))
    else if (key.splitOn '/').any fun segment => segment ∈ ([[], ".", ".."] : List Text) then
      .error (.kody "invalid_blob_key" ("Blob key \"" ++ key ++
        "\" must not contain empty, \".\" or \"..\" segments."))
    else .ok key
  | _ => .error (.kody "invalid_blob_key" "Blob key must be a string.")

/-- Where the object of a key of a user is. -/
def objectKeyFor (userId key : Text) : Text := "users/" ++ userId ++ ['/'] ++ key

theorem objectKeyFor_injective (userId : Text) {key key' : Text} :
    objectKeyFor userId key = objectKeyFor userId key' ↔ key = key' :=
  List.append_right_inj _

/-! ### Content types -/

def contentTypesByExtension : List (Text × Text) :=
  [("txt", "text/plain; charset=utf-8"), ("md", "text/markdown; charset=utf-8"),
    ("csv", "text/csv; charset=utf-8"), ("html", "text/html; charset=utf-8"),
    ("htm", "text/html; charset=utf-8"), ("css", "text/css; charset=utf-8"),
    ("js", "text/javascript; charset=utf-8"), ("mjs", "text/javascript; charset=utf-8"),
    ("json", "application/json"), ("xml", "application/xml"), ("yaml", "application/yaml"),
    ("yml", "application/yaml"), ("pdf", "application/pdf"), ("zip", "application/zip"),
    ("png", "image/png"), ("jpg", "image/jpeg"), ("jpeg", "image/jpeg"), ("gif", "image/gif"),
    ("webp", "image/webp"), ("svg", "image/svg+xml"), ("ico", "image/x-icon"),
    ("mp3", "audio/mpeg"), ("wav", "audio/wav"), ("ogg", "audio/ogg"), ("mp4", "video/mp4"),
    ("webm", "video/webm"), ("woff2", "font/woff2")]

def isTypeChar (c : Char) : Bool := isLetter c || isDigit c || c ∈ ("!#$&^_.+-" : Text)

/-- What `.` does not match. -/
def isLineTerminator (c : Char) : Bool := c ∈ ['\n', '\r', '\u2028', '\u2029']

/-- `(?:\s*;.*)?$` -/
def typeParameters (rest : Text) : Bool :=
  match rest with
  | [] => true
  | _ =>
    match rest.dropWhile isSpace with
    | ';' :: parameters => parameters.all fun c => !isLineTerminator c
    | _ => false

/-- `contentTypePattern.test(value)` -/
def contentTypePattern (value : Text) : Bool :=
  match value.span isTypeChar with
  | (_ :: _, '/' :: rest) =>
    match rest.span isTypeChar with
    | (_ :: _, rest) => typeParameters rest
    | _ => false
  | _ => false

/-- A content type, or a member of `Object.prototype` that was read from the table of extensions. -/
inductive ContentType where
  | text (value : Text)
  | inherited (name : Text)
  deriving DecidableEq, Repr

/-- Picks a content type: explicit (validated), by extension, or octet-stream. -/
def resolveContentType (key : Text) (explicit : Option Text) : Except Thrown ContentType :=
  match explicit with
  | some explicit =>
    let value := trim explicit
    if !contentTypePattern value || decide (200 < utf16Length value) then
      .error (.kody "invalid_args" ("\"" ++ explicit ++ "\" is not a valid content type."))
    else .ok (.text value)
  | none =>
    let name := (key.splitOn '/').getLastD []
    let extension := lower ((name.splitOn '.').getLastD [])
    match contentTypesByExtension.find? fun e => e.1 = extension with
    | some e => .ok (.text e.2)
    | none =>
      if extension ∈ objectPrototype then .ok (.inherited extension)
      else .ok (.text "application/octet-stream")

/-! ### Metadata -/

def maxBlobMetadataEntries : ℕ := 20
def maxBlobMetadataValueLength : ℕ := 1024

/-- `/^[a-zA-Z0-9_.-]{1,64}$/` -/
def isMetadataName (name : Text) : Bool :=
  decide (1 ≤ name.length) && decide (name.length ≤ 64) &&
    name.all fun c => isLetter c || isDigit c || c == '_' || c == '.' || c == '-'

/-- The loop over the entries. -/
def collectMetadata : List (Text × Json) → Obj Text → Except Thrown (Obj Text)
  | [], out => .ok out
  | (name, value) :: rest, out =>
    if !isMetadataName name then
      .error (.kody "invalid_args"
        ("metadata key \"" ++ name ++ "\" must match [a-zA-Z0-9_.-]\x7b1,64\x7d."))
    else
      match value with
      | .str text =>
        if maxBlobMetadataValueLength < utf16Length text then
          .error (.kody "invalid_args" ("metadata." ++ name ++ " must be a string of at most " ++
            natText maxBlobMetadataValueLength ++ " characters."))
        else collectMetadata rest (out.set name text)
      | _ => .error (.kody "invalid_args" ("metadata." ++ name ++ " must be a string of at most " ++
          natText maxBlobMetadataValueLength ++ " characters."))

def normalizeMetadata (input : Option Json) : Except Thrown (Obj Text) :=
  match input with
  | none => .ok .empty
  | some .null => .ok .empty
  | some (.obj entries) =>
    if maxBlobMetadataEntries < entries.length then
      .error (.kody "invalid_args"
        ("metadata may have at most " ++ natText maxBlobMetadataEntries ++ " entries."))
    else collectMetadata entries .empty
  | some _ => .error (.kody "invalid_args" "metadata must be an object of string values.")

/-! ### The index -/

/-- A row of `blobs`, which is also the record that the cell returns. -/
structure BlobRow where
  key : Text
  size : ℕ
  contentType : Text
  sha256 : Text
  etag : Text
  packageName : Option Text
  metadata : Obj Text
  createdAt : ℕ
  updatedAt : ℕ
  deriving DecidableEq

/-- `quotas().blobs` and `quotas().blobBytes`; zero is unlimited. -/
structure BlobQuotas where
  blobs : ℕ
  blobBytes : ℕ
  deriving DecidableEq, Repr

/-- `SELECT SUM(size) FROM blobs` -/
def blobBytes (index : Rows BlobRow.key) : ℕ := (index.rows.map BlobRow.size).sum

/-- The quota check of a write of `size` bytes under a key; the row that it replaces. -/
def assertBlobQuota (index : Rows BlobRow.key) (quotas : BlobQuotas) (key : Text) (size : ℕ) :
    Except Thrown (Option BlobRow) := do
  let existing := index.find? key
  -- an overwrite adds no blob
  let counted : Except Thrown Unit :=
    if existing.isNone then assertQuota quotas.blobs index.rows.length "Blob count" else .ok ()
  counted
  let used := blobBytes index
  let projected := used - (existing.map BlobRow.size).getD 0 + size
  if quotas.blobBytes ≠ 0 ∧ quotas.blobBytes < projected then
    .error (.kody "quota_exceeded" ("Blob storage quota reached (" ++ natText projected ++ "/" ++
      natText quotas.blobBytes ++ " bytes after this write).") 429)
  else .ok existing

/-- The check returns the row of the key. -/
theorem assertBlobQuota_eq_ok {index : Rows BlobRow.key} {quotas : BlobQuotas} {key : Text} {size : ℕ}
    {existing : Option BlobRow} (h : assertBlobQuota index quotas key size = .ok existing) :
    existing = index.find? key := by
  unfold assertBlobQuota at h
  obtain ⟨_, -, h⟩ := bind_eq_ok h
  dsimp only at h
  split at h
  · cases h
  · exact (Except.ok.inj h).symm

/-- The columns that `blobIndexPut` is called with. -/
structure BlobIndexInput where
  key : Text
  size : ℕ
  contentType : Text
  sha256 : Text
  etag : Text
  packageName : Option Text
  metadata : Obj Text
  deriving DecidableEq

/-- The row that is inserted. -/
def BlobIndexInput.row (input : BlobIndexInput) (now : ℕ) : BlobRow :=
  { key := input.key, size := input.size, contentType := input.contentType, sha256 := input.sha256
    etag := input.etag, packageName := input.packageName, metadata := input.metadata
    createdAt := now, updatedAt := now }

/-- `DO UPDATE SET …`: only `created_at` stays. -/
def BlobIndexInput.update (input : BlobIndexInput) (now : ℕ) (old : BlobRow) : BlobRow :=
  { old with
    size := input.size, contentType := input.contentType, sha256 := input.sha256
    etag := input.etag, packageName := input.packageName, metadata := input.metadata
    updatedAt := now }

theorem BlobIndexInput.update_key (input : BlobIndexInput) (now : ℕ) (old : BlobRow) :
    (input.update now old).key = old.key := rfl

/-- The quota check again, then the upsert. -/
def blobIndexPut (quotas : BlobQuotas) (now : ℕ) (input : BlobIndexInput) (index : Rows BlobRow.key) :
    Except Thrown (BlobRow × Rows BlobRow.key) :=
  match assertBlobQuota index quotas input.key input.size with
  | .error e => .error e
  | .ok _ =>
    let written := index.upsert (input.row now) (input.update now) (input.update_key now)
    .ok ((written.find? input.key).getD (input.row now), written)

def blobIndexDelete (key : Text) (index : Rows BlobRow.key) : Option BlobRow × Rows BlobRow.key :=
  (index.find? key, index.filter fun row => decide (row.key ≠ key))

/-- **An index write** succeeds exactly where the quota check does. -/
theorem blobIndexPut_ok_iff {quotas : BlobQuotas} {now : ℕ} {input : BlobIndexInput}
    {index : Rows BlobRow.key} :
    (∃ written, blobIndexPut quotas now input index = .ok written) ↔
      ∃ existing, assertBlobQuota index quotas input.key input.size = .ok existing := by
  unfold blobIndexPut
  cases assertBlobQuota index quotas input.key input.size with
  | error e => simp
  | ok existing => simp

/-- The row of every key after an index write: the one of its own key has the new size and digest. -/
theorem find?_blobIndexPut {quotas : BlobQuotas} {now : ℕ} {input : BlobIndexInput}
    {index written : Rows BlobRow.key} {row : BlobRow}
    (h : blobIndexPut quotas now input index = .ok (row, written)) :
    (∃ row, written.find? input.key = some row ∧ row.size = input.size ∧ row.sha256 = input.sha256) ∧
      ∀ k, k ≠ input.key → written.find? k = index.find? k := by
  unfold blobIndexPut at h
  split at h
  · cases h
  obtain ⟨-, rfl⟩ := Prod.mk.inj (Except.ok.inj h)
  constructor
  · refine ⟨(index.find? input.key).elim (input.row now) (input.update now), ?_, ?_⟩
    · rw [Rows.find?_upsert]
      exact if_pos rfl
    · cases index.find? input.key <;> exact ⟨rfl, rfl⟩
  · intro k hk
    rw [Rows.find?_upsert]
    exact if_neg (Ne.symm hk)

/-- The row of every key after a row was deleted. -/
theorem find?_blobIndexDelete (key : Text) (index : Rows BlobRow.key) (k : Text) :
    (blobIndexDelete key index).2.find? k = if k = key then none else index.find? k := by
  show (index.filter fun row => decide (row.key ≠ key)).find? k = _
  rw [Rows.find?_filter]
  cases hfind : index.find? k with
  | none =>
    rw [Option.filter_none]
    split <;> rfl
  | some row =>
    have hrow : row.key = k := (Rows.find?_eq_some.mp hfind).2
    by_cases hk : k = key
    · rw [if_pos hk, Option.filter_some, if_neg (by simp [hrow, hk])]
    · rw [if_neg hk, Option.filter_some, if_pos (by simp [hrow, hk])]

/-! ### The defaults are well formed -/

/-- Every type of the table is one that may be given explicitly. -/
theorem contentTypesByExtension_valid :
    ∀ e ∈ contentTypesByExtension, contentTypePattern e.2 = true ∧ utf16Length e.2 ≤ 200 := by
  decide +kernel

/-- **The content type of a put** is a text of the documented form, or is read from the prototype. -/
theorem resolveContentType_valid {key : Text} {explicit : Option Text} {value : Text}
    (h : resolveContentType key explicit = .ok (.text value)) :
    contentTypePattern value = true ∧ utf16Length value ≤ 200 := by
  unfold resolveContentType at h
  split at h
  · dsimp only at h
    split at h
    · cases h
    rename_i hvalid
    rw [Bool.or_eq_true, Bool.not_eq_true', decide_eq_true_eq, not_or, Bool.not_eq_false] at hvalid
    cases h
    exact ⟨hvalid.1, by omega⟩
  · dsimp only at h
    split at h
    · rename_i e hfind
      cases h
      exact contentTypesByExtension_valid e (List.mem_of_find?_eq_some hfind)
    · split at h
      · cases h
      · cases h
        decide +kernel

end KodyCelld.Blobs
