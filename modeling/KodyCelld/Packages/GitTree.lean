import KodyCelld.Packages.SourcePaths
import KodyCelld.Packages.Tar

namespace KodyCelld.Packages

open KodyCelld.Lib
open KodyCelld.Execute

/-!
# The tree of a git commit (`packages/git-smart-http.ts`)

What a clone makes of the objects of a pack: it finds the tree of the commit, goes down into the
subdirectory and collects the text files below it.

* `parseTree`, `rootTree` — tree objects, and the one that the walk starts at;
* `walk`, `filesFromGitObjects` — the source's recursion over the tree;
* `TreeFile` — a file that can be reached from a tree by the names of directories;
* `walk_allKeys` — the walk puts into the file map the reachable text files, under their joined
  names.

The objects may be any: the trees of a pack are data of the server it comes from.
-/

/-! ### Objects -/

/-- The types `OBJ_COMMIT`, `OBJ_TREE`, `OBJ_BLOB` and `OBJ_TAG`. -/
inductive GitObjectType where
  | commit | tree | blob | tag
  deriving DecidableEq, Repr

structure GitObject where
  type : GitObjectType
  content : List UInt8
  deriving DecidableEq, Repr

/-- The objects of a pack by their names. -/
abbrev GitObjects := List (Text × GitObject)

/-- The content of an object, if it is there and of the type. -/
def GitObjects.get? (objects : GitObjects) (type : GitObjectType) (sha : Text) :
    Option (List UInt8) :=
  match objects.lookup sha with
  | some object => if object.type = type then some object.content else none
  | none => none

/-- The errors of the clone itself carry status 502. -/
def gitFailure (message : Text) : Thrown := .kody "invalid_package" message 502

def isHexDigit (c : Char) : Bool := isDigit c || ('a' ≤ c && c ≤ 'f')

/-- `/^word ([0-9a-f]{40})\n/` -/
def shaLine (word : Text) (content : List UInt8) : Option Text :=
  match stripWord? (word ++ [' ']) (utf8Decode content) with
  | none => none
  | some rest =>
    let sha := rest.take 40
    if sha.length = 40 ∧ sha.all isHexDigit ∧ rest[40]? = some '\n' then some sha else none

def parseCommitTree (content : List UInt8) : Except Thrown Text :=
  match shaLine "tree" content with
  | some sha => .ok sha
  | none => .error (gitFailure "Git commit is missing a tree.")

def parseTagObject (content : List UInt8) : Except Thrown Text :=
  match shaLine "object" content with
  | some sha => .ok sha
  | none => .error (gitFailure "Git tag is missing an object.")

structure TreeEntry where
  mode : Text
  name : Text
  sha : Text
  deriving DecidableEq, Repr

/-- The bytes of an object name in hexadecimal. -/
def hexBytes (bytes : List UInt8) : Text :=
  bytes.flatMap fun b => [hexChar (b.toNat / 16), hexChar (b.toNat % 16)]

/-- The loop of `parseTree`; an entry takes 22 bytes at least. -/
def parseTreeFrom : (fuel : ℕ) → List UInt8 → Except Thrown (List TreeEntry)
  | 0, _ => .ok []
  | _, [] => .ok []
  | fuel + 1, content =>
    let mode := content.takeWhile (· ≠ 0x20)
    let rest := content.drop (mode.length + 1)
    let name := rest.takeWhile (· ≠ 0)
    let sha := (rest.drop (name.length + 1)).take 20
    if sha.length ≠ 20 then .error (gitFailure "Truncated git tree.")
    else
      match parseTreeFrom fuel (rest.drop (name.length + 21)) with
      | .error e => .error e
      | .ok entries => .ok (⟨utf8Decode mode, utf8Decode name, hexBytes sha⟩ :: entries)

def parseTree (content : List UInt8) : Except Thrown (List TreeEntry) :=
  parseTreeFrom content.length content

/-- `entry.mode.startsWith('4')` -/
def TreeEntry.isTree (entry : TreeEntry) : Bool := startsWith entry.mode "4"

/-- The names that the walk leaves out. -/
def TreeEntry.skipped (entry : TreeEntry) : Bool :=
  decide (entry.name = ".git" ∨ entry.name = "node_modules")

/-- Regular files, executables and symbolic links. -/
def TreeEntry.isFile (entry : TreeEntry) : Bool :=
  decide (entry.mode ∈ (["100644", "100755", "120000"] : List Text))

/-! ### Where the walk starts -/

def normalizeSubdir (raw : Option Text) : Except Thrown (Option Text) :=
  match raw with
  | none => .ok none
  | some raw =>
    let parts := ((segments raw).map trim).filter fun p => decide (p ≠ [] ∧ p ≠ ".")
    if parts = [] then .ok none
    else if (".." : Text) ∈ parts then .error (.kody "invalid_args" "subdir may not contain \"..\".")
    else .ok (some (['/'].intercalate parts))

/-- One segment of the subdirectory. -/
def enterSubdir (objects : GitObjects) (dir treeSha segment : Text) :
    Except Thrown Text :=
  let missing : Thrown :=
    .kody "invalid_package" ("subdir \"" ++ dir ++ "\" not found in the repository.")
  match objects.get? .tree treeSha with
  | none => .error missing
  | some content =>
    match parseTree content with
    | .error e => .error e
    | .ok entries =>
      match entries.find? fun e => decide (e.name = segment) && e.isTree with
      | some entry => .ok entry.sha
      | none => .error missing

/-- The commit that a ref names, through a tag object if it is one. -/
def tipCommit (objects : GitObjects) (commitSha : Text) : Except Thrown (List UInt8) :=
  let commitOf (object : GitObject) : Except Thrown (List UInt8) :=
    if object.type = .commit then .ok object.content
    else .error (gitFailure "Resolved ref is not a commit.")
  match objects.lookup commitSha with
  | none => .error (gitFailure ("Git commit " ++ commitSha ++ " missing from pack."))
  | some tip =>
    if tip.type = .tag then
      match parseTagObject tip.content with
      | .error e => .error e
      | .ok target =>
        match objects.lookup target with
        | none => .error (gitFailure ("Git tag target " ++ target ++ " missing from pack."))
        | some tip => commitOf tip
    else commitOf tip

/-- The first part of `filesFromGitObjects`: the tree of the commit at the subdirectory. -/
def rootTree (objects : GitObjects) (commitSha : Text) (subdir : Option Text) :
    Except Thrown (Text × Option Text) := do
  let commit ← tipCommit objects commitSha
  let treeSha ← parseCommitTree commit
  let root ← normalizeSubdir subdir
  match root with
  | none => return (treeSha, root)
  | some dir =>
    let treeSha ← (segments dir).foldlM (enterSubdir objects dir) treeSha
    return (treeSha, root)

/-! ### The walk -/

/-- `Pick<GitCloneLimits, 'maxFiles' | 'maxTotalBytes'>` -/
abbrev GitLimits := TarLimits

structure WalkState where
  files : PackageFiles
  warnings : List Text
  manifestDirs : List Text
  totalBytes : ℕ
  fileCount : ℕ

def WalkState.start : WalkState := ⟨.empty, [], [], 0, 0⟩

/-- `manifestDirs.add(parent)` at a manifest. -/
def WalkState.noteManifest (st : WalkState) (dir : Text) (entry : TreeEntry) : WalkState :=
  if entry.name = "package.json" then
    { st with manifestDirs := addOnce st.manifestDirs dir }
  else st

@[simp] theorem WalkState.noteManifest_files (st : WalkState) (dir : Text) (entry : TreeEntry) :
    (st.noteManifest dir entry).files = st.files := by
  unfold noteManifest
  split <;> rfl

/-- What the walk does with a file entry. -/
def visitFile (objects : GitObjects) (limits : GitLimits) (dir : Text) (entry : TreeEntry)
    (st : WalkState) : Except Thrown WalkState :=
  match objects.get? .blob entry.sha with
  | none => .error (gitFailure ("Git blob " ++ entry.sha ++ " missing from pack."))
  | some content =>
    let st := st.noteManifest dir entry
    let st := { st with fileCount := st.fileCount + 1 }
    if limits.maxFiles < st.fileCount then
      .error (invalidPackage ("Repository has more than " ++ natText limits.maxFiles ++ " files."))
    else
      let st := { st with totalBytes := st.totalBytes + content.length }
      if limits.maxTotalBytes < st.totalBytes then
        .error (invalidPackage
          ("Repository contents exceed " ++ natText limits.maxTotalBytes ++ " bytes."))
      else
        let path := joinPath dir entry.name
        match utf8DecodeFatal content with
        | some text => .ok { st with files := st.files.set path text }
        | none => .ok { st with warnings := st.warnings ++ [skippedWarning path] }

/-- One entry of a tree, `enter` being the walk into a directory. -/
def visitEntry (objects : GitObjects) (limits : GitLimits)
    (enter : (sha dir : Text) → WalkState → Except Thrown WalkState) (dir : Text) (st : WalkState)
    (entry : TreeEntry) : Except Thrown WalkState :=
  if entry.skipped then .ok st
  else if entry.isTree then enter entry.sha (joinPath dir entry.name) st
  else if entry.isFile then visitFile objects limits dir entry st
  else .ok st

/-- The recursion of the source.  A tree that is its own ancestor is entered until the stack is
    full; without one no path is longer than the number of objects. -/
def walk (objects : GitObjects) (limits : GitLimits) :
    (fuel : ℕ) → (sha dir : Text) → WalkState → Except Thrown WalkState
  | 0, _, _, _ => .error (.rangeError "Maximum call stack size exceeded")
  | fuel + 1, sha, dir, st =>
    match objects.get? .tree sha with
    | none => .error (gitFailure ("Git tree " ++ sha ++ " missing from pack."))
    | some content =>
      match parseTree content with
      | .error e => .error e
      | .ok entries => entries.foldlM (visitEntry objects limits (walk objects limits fuel) dir) st

def filesFromGitObjects (objects : GitObjects) (commitSha : Text) (subdir : Option Text)
    (limits : GitLimits) : Except Thrown SourceFiles := do
  let (treeSha, root) ← rootTree objects commitSha subdir
  let st ← walk objects limits (objects.length + 1) treeSha [] .start
  if st.files.get? "package.json" = none then
    throw (noManifest st.manifestDirs root "repository")
  return ⟨st.files, st.warnings⟩

/-! ### What can be reached -/

/-- The entries of a tree that the walk looks at. -/
def GitObjects.entries (objects : GitObjects) (sha : Text) : List TreeEntry :=
  match objects.get? .tree sha with
  | none => []
  | some content => (parseTree content).toOption.getD [] |>.filter fun e => !e.skipped

/-- The file `name` with this content, reached from a tree through the directories `dirs`. -/
def TreeFile (objects : GitObjects) (name : Text) (content : List UInt8) :
    (dirs : List Text) → (sha : Text) → Prop
  | [], sha => ∃ entry ∈ objects.entries sha, entry.isTree = false ∧ entry.isFile = true ∧
      entry.name = name ∧ objects.get? .blob entry.sha = some content
  | d :: dirs, sha => ∃ entry ∈ objects.entries sha, entry.isTree = true ∧ entry.name = d ∧
      TreeFile objects name content dirs entry.sha

/-- The same, for what one entry of a tree leads to. -/
def EntryFile (objects : GitObjects) (entry : TreeEntry) (name : Text) (content : List UInt8) :
    (dirs : List Text) → Prop
  | [] => entry.isTree = false ∧ entry.isFile = true ∧ entry.name = name ∧
      objects.get? .blob entry.sha = some content
  | d :: dirs => entry.isTree = true ∧ entry.name = d ∧ TreeFile objects name content dirs entry.sha

/-- Whether the bytes are a text file. -/
def isText (content : List UInt8) : Prop := (utf8DecodeFatal content).isSome

/-- The text files reached have paths that satisfy a predicate, from a directory on. -/
def Reaches (P : Text → Prop) (dir : Text) (reached : Text → List UInt8 → List Text → Prop) : Prop :=
  ∀ name content dirs, reached name content dirs → isText content → P (routePath dir dirs name)

section
variable {objects : GitObjects} {limits : GitLimits} {P : Text → Prop}
variable {dir : Text} {entry : TreeEntry} {st next : WalkState}

theorem treeFile_iff {sha name : Text} {content : List UInt8} {dirs : List Text} :
    TreeFile objects name content dirs sha ↔
      ∃ entry ∈ objects.entries sha, EntryFile objects entry name content dirs := by
  cases dirs <;> exact Iff.rfl

theorem mem_entries {sha : Text} {content : List UInt8} {entries : List TreeEntry}
    (htree : objects.get? .tree sha = some content) (hparse : parseTree content = .ok entries) :
    entry ∈ objects.entries sha ↔ entry ∈ entries ∧ entry.skipped = false := by
  simp only [GitObjects.entries, htree, hparse, List.mem_filter, Except.toOption, Option.getD_some,
    Bool.not_eq_true']

/-- A file adds its path, when it is a text. -/
theorem visitFile_allKeys (hproto : P "__proto__")
    (h : visitFile objects limits dir entry st = .ok next) :
    next.files.AllKeys P ↔ st.files.AllKeys P ∧
      ∀ content, objects.get? .blob entry.sha = some content → isText content →
        P (joinPath dir entry.name) := by
  simp only [visitFile] at h
  split at h
  · cases h
  rename_i content hblob
  simp only [hblob, Option.some.injEq, forall_eq']
  split at h
  · cases h
  split at h
  · cases h
  split at h
  · rename_i text htext
    cases h
    have hyes : isText content := by rw [isText, htext]; rfl
    simp only [WalkState.noteManifest_files, Obj.allKeys_set hproto, hyes, forall_const]
  · rename_i htext
    cases h
    have hno : ¬ isText content := by rw [isText, htext]; simp
    simp only [WalkState.noteManifest_files, hno, false_implies, and_true]

/-- An entry adds the paths of the text files that it leads to. -/
theorem visitEntry_allKeys (hproto : P "__proto__")
    {enter : (sha dir : Text) → WalkState → Except Thrown WalkState}
    (henter : ∀ {sha dir st next}, enter sha dir st = .ok next →
      (next.files.AllKeys P ↔ st.files.AllKeys P ∧
        Reaches P dir fun name content dirs => TreeFile objects name content dirs sha))
    (h : visitEntry objects limits enter dir st entry = .ok next) :
    next.files.AllKeys P ↔ st.files.AllKeys P ∧
      (entry.skipped = false → Reaches P dir (EntryFile objects entry)) := by
  rw [visitEntry] at h
  by_cases hskip : entry.skipped = true
  · rw [if_pos hskip] at h
    cases h
    simp [hskip]
  · have hskip : entry.skipped = false := by simpa using hskip
    rw [if_neg (by simp [hskip])] at h
    simp only [hskip, forall_const]
    by_cases htree : entry.isTree = true
    · -- a directory: the files below it
      rw [if_pos htree] at h
      rw [henter h]
      refine and_congr_right fun _ => ⟨?_, ?_⟩
      · intro hbelow name content dirs hfile htext
        cases dirs with
        | nil => simp [EntryFile, htree] at hfile
        | cons d dirs =>
          obtain ⟨-, rfl, hfile⟩ := hfile
          exact hbelow name content dirs hfile htext
      · intro hfrom name content dirs hfile htext
        exact hfrom name content (entry.name :: dirs) ⟨htree, rfl, hfile⟩ htext
    · have htree : entry.isTree = false := by simpa using htree
      rw [if_neg (by simp [htree])] at h
      by_cases hfile : entry.isFile = true
      · -- a file: its own path
        rw [if_pos hfile] at h
        rw [visitFile_allKeys hproto h]
        refine and_congr_right fun _ => ⟨?_, ?_⟩
        · intro hown name content dirs hleads htext
          cases dirs with
          | nil =>
            obtain ⟨-, -, rfl, hblob⟩ := hleads
            exact hown content hblob htext
          | cons d dirs => simp [EntryFile, htree] at hleads
        · intro hfrom content hblob htext
          exact hfrom entry.name content [] ⟨htree, hfile, rfl, hblob⟩ htext
      · -- anything else leads nowhere
        rw [if_neg hfile] at h
        cases h
        refine (and_iff_left ?_).symm
        intro name content dirs hleads htext
        cases dirs with
        | nil => exact absurd hleads.2.1 hfile
        | cons d dirs => simp [EntryFile, htree] at hleads

theorem visitEntries_allKeys (hproto : P "__proto__")
    {enter : (sha dir : Text) → WalkState → Except Thrown WalkState}
    (henter : ∀ {sha dir st next}, enter sha dir st = .ok next →
      (next.files.AllKeys P ↔ st.files.AllKeys P ∧
        Reaches P dir fun name content dirs => TreeFile objects name content dirs sha))
    {entries : List TreeEntry}
    (h : entries.foldlM (visitEntry objects limits enter dir) st = .ok next) :
    next.files.AllKeys P ↔ st.files.AllKeys P ∧
      ∀ entry ∈ entries, entry.skipped = false → Reaches P dir (EntryFile objects entry) := by
  induction entries generalizing st with
  | nil =>
    cases h
    simp
  | cons entry entries ih =>
    rw [List.foldlM_cons] at h
    obtain ⟨middle, hentry, hrest⟩ := bind_eq_ok h
    rw [ih hrest, visitEntry_allKeys hproto henter hentry, List.forall_mem_cons, and_assoc]

/-- **What the walk collects.** The file map gets the text files that can be reached from the tree,
    under the joined names of their directories. -/
theorem walk_allKeys (hproto : P "__proto__") {fuel : ℕ} {sha : Text}
    (h : walk objects limits fuel sha dir st = .ok next) :
    next.files.AllKeys P ↔ st.files.AllKeys P ∧
      Reaches P dir fun name content dirs => TreeFile objects name content dirs sha := by
  induction fuel generalizing sha dir st next with
  | zero => cases h
  | succ fuel ih =>
    rw [walk] at h
    split at h
    · cases h
    rename_i content htree
    split at h
    · cases h
    rename_i entries hparse
    rw [visitEntries_allKeys hproto ih h]
    refine and_congr_right fun _ => ⟨?_, ?_⟩
    · intro hall name content dirs hfile htext
      obtain ⟨entry, hentry, hleads⟩ := treeFile_iff.mp hfile
      obtain ⟨hmem, hskip⟩ := (mem_entries htree hparse).mp hentry
      exact hall entry hmem hskip name content dirs hleads htext
    · intro hreach entry hmem hskip name content dirs hleads htext
      have hentry := (mem_entries htree hparse).mpr ⟨hmem, hskip⟩
      exact hreach name content dirs (treeFile_iff.mpr ⟨entry, hentry, hleads⟩) htext

end

end KodyCelld.Packages
