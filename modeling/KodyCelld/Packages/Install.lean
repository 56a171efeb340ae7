import KodyCelld.Packages.GitTree
import Mathlib.Data.List.Dedup
import Mathlib.Data.List.TakeWhile

namespace KodyCelld.Packages

open KodyCelld.Lib
open KodyCelld.Execute

/-!
# Reading a package source (`packages/install.ts`)

A fetched source is the objects of a git clone, a tar archive or a JSON file map; each becomes the
file map that the package is saved from.

* `filesFromTarEntries`, `filesFromJson` — the readers of the source beside `filesFromGitObjects`;
* `sourceFiles` — which of them reads a source;
* `CleanArchive`, `CleanMap`, `CleanClone` — what the names in a source must be like;
* `source_paths` — exactly then the files are at safe paths.

`gunzip` is a parameter, and so is how long a pax header may be read (`steps`).
-/

/-! ### Archives -/

/-- `path.split('/')[0]` -/
def firstSegment (path : Text) : Text := path.takeWhile (· ≠ '/')

/-- `path.slice(path.indexOf('/') + 1)` -/
def afterRoot (path : Text) : Text := (path.dropWhile (· ≠ '/')).drop 1

def stripCommonRoot (entries : List TarEntry) : List TarEntry :=
  let paths := entries.map fun e => dropDotSlash e.path
  if (paths.map firstSegment).dedup.length ≠ 1 ∨ ∃ p ∈ paths, '/' ∉ p then
    entries.map fun e => { e with path := dropDotSlash e.path }
  else entries.map fun e => { e with path := afterRoot (dropDotSlash e.path) }

/-- The segments for which an archive's file is left out. -/
def skippedSegments : List Text := ([[], "..", ".git", "node_modules"] : List Text)

structure TarFiles where
  files : PackageFiles
  warnings : List Text
  manifestDirs : List Text

/-- `manifestDirs.add(…)` at a manifest. -/
def TarFiles.noteManifest (st : TarFiles) (path : Text) : TarFiles :=
  if (segments path).getLast? = some ("package.json" : Text) then
    { st with
      manifestDirs := addOnce st.manifestDirs (['/'].intercalate (segments path).dropLast) }
  else st

@[simp] theorem TarFiles.noteManifest_files (st : TarFiles) (path : Text) :
    (st.noteManifest path).files = st.files := by
  unfold noteManifest
  split <;> rfl

/-- One entry of the archive, its path already rooted. -/
def addTarEntry (subdir : Option Text) (st : TarFiles) (entry : TarEntry) : TarFiles :=
  if ∃ s ∈ segments entry.path, s ∈ skippedSegments then st
  else
    let st := st.noteManifest entry.path
    if startsWith entry.path (subdirPrefix subdir) then
      let relative := entry.path.drop (subdirPrefix subdir).length
      match utf8DecodeFatal entry.bytes with
      | some text => { st with files := st.files.set relative text }
      | none => { st with warnings := st.warnings ++ [skippedWarning relative] }
    else st

def filesFromTarEntries (entries : List TarEntry) (subdir : Option Text) :
    Except Thrown SourceFiles :=
  let st := (stripCommonRoot entries).foldl (addTarEntry subdir) ⟨.empty, [], []⟩
  if st.files.get? "package.json" = none then .error (noManifest st.manifestDirs subdir "archive")
  else .ok ⟨st.files, st.warnings⟩

/-! ### File maps -/

/-- The map in a JSON source: its member `files`, or the object itself. -/
def sourceMap (text : Text) : Except Thrown (List (Text × Json)) :=
  match jsonParse text with
  | none => .error (invalidPackage "Source is neither a tarball nor JSON.")
  | some (.obj record) =>
    match Json.member record "files" with
    | some (.obj map) => .ok map
    | _ => .ok record
  | some _ => .error (invalidPackage "JSON source must be an object.")

/-- One member of the map. -/
def addMapFile (subdir : Option Text) (files : PackageFiles) (file : Text × Json) :
    Except Thrown PackageFiles :=
  match file.2 with
  | .str content =>
    let clean := dropDotSlash file.1
    if startsWith clean (subdirPrefix subdir) then
      .ok (files.set (clean.drop (subdirPrefix subdir).length) content)
    else .ok files
  | _ => .error (invalidPackage ("File \"" ++ file.1 ++ "\" must be a string."))

def filesFromJson (text : Text) (subdir : Option Text) : Except Thrown SourceFiles := do
  let map ← sourceMap text
  let files ← map.foldlM (addMapFile subdir) .empty
  if files.get? "package.json" = none then
    throw (invalidPackage "JSON source has no package.json at the package root.")
  return ⟨files, []⟩

/-! ### Sources -/

def isGzip (bytes : List UInt8) : Bool :=
  decide (2 < bytes.length) && decide (bytes[0]? = some 0x1f) && decide (bytes[1]? = some 0x8b)

def isTar (bytes : List UInt8) : Bool :=
  decide (512 ≤ bytes.length) && decide (utf8Decode (subarray bytes 257 262) = "ustar")

/-- `packageSourceLimits` -/
def sourceLimits : TarLimits := { maxFiles := 400, maxTotalBytes := 24 * 1024 * 1024 }

/-- What a source is fetched as: the objects of a clone with the commit asked for, or a body. -/
inductive FetchedSource where
  | clone (objects : GitObjects) (commit : Text)
  | body (bytes : List UInt8)

section
variable (gunzip : (bytes : List UInt8) → (maxBytes : ℕ) → Except Thrown (List UInt8))
variable (steps : ℕ)

def archiveFiles (archive : List UInt8) (subdir : Option Text) :
    Option (Except Thrown SourceFiles) :=
  (readTar steps archive sourceLimits).map fun entries =>
    entries.bind fun entries => filesFromTarEntries entries subdir

/-- The part of `fetchPackageSource` after the download. -/
def sourceFiles (source : FetchedSource) (subdir : Option Text) :
    Option (Except Thrown SourceFiles) :=
  match source with
  | .clone objects commit => some (filesFromGitObjects objects commit subdir sourceLimits)
  | .body bytes =>
    if isGzip bytes then
      match gunzip bytes sourceLimits.maxTotalBytes with
      | .error e => some (.error e)
      | .ok archive => archiveFiles steps archive subdir
    else if isTar bytes then archiveFiles steps bytes subdir
    else
      match utf8DecodeFatal bytes with
      | none => some (.error (invalidPackage "Source is neither a tarball nor UTF-8 JSON."))
      | some text => some (filesFromJson text subdir)

/-! ### Clean sources -/

/-- All paths lie in one directory at the top. -/
def OneRoot (paths : Text → Prop) : Prop :=
  ∃ top : Text, '/' ∉ top ∧ ∀ path, paths path → top ++ ['/'] <+: path

/-- A path of the archive without the directory that all its files lie in. -/
def Rooted (archive : List UInt8) (path rooted : Text) : Prop :=
  let shared := OneRoot fun p => ∃ e, Listed steps archive .start e ∧ dropDotSlash e.path = p
  (shared ∧ rooted = afterRoot (dropDotSlash path)) ∨ (¬ shared ∧ rooted = dropDotSlash path)

/-- **A clean archive**: no text file of the subdirectory has a segment `.` in its path, apart from
    the files that are left out for another segment. -/
def CleanArchive (archive : List UInt8) (subdir : Option Text) : Prop :=
  ∀ entry rooted relative, Listed steps archive .start entry → isText entry.bytes →
    Rooted steps archive entry.path rooted → rooted = subdirPrefix subdir ++ relative →
    (∀ s ∈ segments rooted, s ∉ skippedSegments) → ("." : Text) ∉ segments relative

/-- **A clean map**: its keys in the subdirectory are safe paths. -/
def CleanMap (text : Text) (subdir : Option Text) : Prop :=
  ∀ map, sourceMap text = .ok map → ∀ file ∈ map, ∀ relative,
    dropDotSlash file.1 = subdirPrefix subdir ++ relative → SafePath relative

/-- **A clean clone**: on the way to each text file the names in the trees are safe paths, apart from
    empty names of directories at the root. -/
def CleanClone (objects : GitObjects) (commit : Text) (subdir : Option Text) : Prop :=
  ∀ root, rootTree objects commit subdir = .ok root → ∀ name content dirs,
    TreeFile objects name content dirs root.1 → isText content →
    ∀ n ∈ dirs.dropWhile (· = []) ++ [name], SafePath n

/-- **A clean source**, whichever reader it goes to. -/
structure CleanSource (source : FetchedSource) (subdir : Option Text) : Prop where
  clone : ∀ objects commit, source = .clone objects commit → CleanClone objects commit subdir
  gzip : ∀ bytes archive, source = .body bytes → isGzip bytes = true →
    gunzip bytes sourceLimits.maxTotalBytes = .ok archive → CleanArchive steps archive subdir
  tar : ∀ bytes, source = .body bytes → isGzip bytes = false → isTar bytes = true →
    CleanArchive steps bytes subdir
  map : ∀ bytes text, source = .body bytes → isGzip bytes = false → isTar bytes = false →
    utf8DecodeFatal bytes = some text → CleanMap text subdir

end

/-! ### The readers, path by path -/

section
variable {P : Text → Prop} {subdir : Option Text}

theorem eq_append_of_startsWith {text start rest : Text} :
    startsWith text start = true ∧ text.drop start.length = rest ↔ text = start ++ rest := by
  rw [startsWith, List.isPrefixOf_iff_prefix]
  constructor
  · rintro ⟨⟨more, rfl⟩, rfl⟩
    rw [List.drop_left]
  · rintro rfl
    exact ⟨List.prefix_append _ _, List.drop_left⟩

/-- What an entry of an archive adds to the file map. -/
def Adds (subdir : Option Text) (entry : TarEntry) (relative : Text) : Prop :=
  (∀ s ∈ segments entry.path, s ∉ skippedSegments) ∧
    entry.path = subdirPrefix subdir ++ relative ∧ isText entry.bytes

theorem addTarEntry_allKeys (hproto : P "__proto__") (st : TarFiles) (entry : TarEntry) :
    (addTarEntry subdir st entry).files.AllKeys P ↔
      st.files.AllKeys P ∧ ∀ relative, Adds subdir entry relative → P relative := by
  unfold addTarEntry
  split
  · rename_i hskip
    obtain ⟨s, hs, hskipped⟩ := hskip
    have hnone : ∀ relative, ¬ Adds subdir entry relative := fun _ h => h.1 s hs hskipped
    simp [hnone]
  · rename_i hkept
    have hkept : ∀ s ∈ segments entry.path, s ∉ skippedSegments := fun s hs hskipped =>
      hkept ⟨s, hs, hskipped⟩
    dsimp only
    split
    · rename_i hstart
      have hadds : ∀ relative, Adds subdir entry relative ↔
          isText entry.bytes ∧ entry.path.drop (subdirPrefix subdir).length = relative := by
        intro relative
        rw [Adds, ← eq_append_of_startsWith, and_iff_right hkept, and_iff_right hstart]
        exact And.comm
      simp only [hadds]
      split
      · rename_i text htext
        have hyes : isText entry.bytes := by rw [isText, htext]; rfl
        simp only [TarFiles.noteManifest_files, Obj.allKeys_set hproto, hyes, true_and, forall_eq']
      · rename_i htext
        have hno : ¬ isText entry.bytes := by rw [isText, htext]; simp
        simp only [TarFiles.noteManifest_files, hno, false_and, false_implies, implies_true,
          and_true]
    · rename_i hstart
      have hnone : ∀ relative, ¬ Adds subdir entry relative := fun _ h =>
        hstart (eq_append_of_startsWith.mpr h.2.1).1
      simp only [TarFiles.noteManifest_files, hnone, false_implies, implies_true, and_true]

theorem addTarEntries_allKeys (hproto : P "__proto__") (st : TarFiles) (entries : List TarEntry) :
    (entries.foldl (addTarEntry subdir) st).files.AllKeys P ↔ st.files.AllKeys P ∧
      ∀ entry ∈ entries, ∀ relative, Adds subdir entry relative → P relative := by
  induction entries generalizing st with
  | nil => simp
  | cons entry entries ih =>
    rw [List.foldl_cons, ih, addTarEntry_allKeys hproto, List.forall_mem_cons, and_assoc]

theorem filesFromTarEntries_allKeys (hproto : P "__proto__") {entries : List TarEntry}
    {found : SourceFiles} (h : filesFromTarEntries entries subdir = .ok found) :
    found.files.AllKeys P ↔
      ∀ entry ∈ stripCommonRoot entries, ∀ relative, Adds subdir entry relative → P relative := by
  simp only [filesFromTarEntries] at h
  split at h
  · cases h
  cases h
  rw [addTarEntries_allKeys hproto]
  exact and_iff_right (Obj.allKeys_empty P)

theorem addMapFile_allKeys (hproto : P "__proto__") {files next : PackageFiles}
    {file : Text × Json} (h : addMapFile subdir files file = .ok next) :
    next.AllKeys P ↔ files.AllKeys P ∧
      ∀ relative, dropDotSlash file.1 = subdirPrefix subdir ++ relative → P relative := by
  unfold addMapFile at h
  split at h
  · dsimp only at h
    split at h
    · rename_i hstart
      cases h
      simp only [Obj.allKeys_set hproto, ← eq_append_of_startsWith, hstart, true_and, forall_eq']
    · rename_i hstart
      cases h
      simp only [← eq_append_of_startsWith, hstart, Bool.false_eq_true, false_and, false_implies,
        implies_true, and_true]
  · cases h

theorem addMapFiles_allKeys (hproto : P "__proto__") {files next : PackageFiles}
    {map : List (Text × Json)} (h : map.foldlM (addMapFile subdir) files = .ok next) :
    next.AllKeys P ↔ files.AllKeys P ∧ ∀ file ∈ map, ∀ relative,
      dropDotSlash file.1 = subdirPrefix subdir ++ relative → P relative := by
  induction map generalizing files with
  | nil =>
    cases h
    simp
  | cons file map ih =>
    rw [List.foldlM_cons] at h
    obtain ⟨middle, hfile, hrest⟩ := bind_eq_ok h
    rw [ih hrest, addMapFile_allKeys hproto hfile, List.forall_mem_cons, and_assoc]

end

/-! ### The common root -/

theorem firstSegment_of_prefix {top path : Text} (htop : '/' ∉ top) (h : top ++ ['/'] <+: path) :
    firstSegment path = top := by
  obtain ⟨rest, rfl⟩ := h
  have hall : ∀ c ∈ top, decide (c ≠ '/') = true := by
    intro c hc
    have hne : c ≠ '/' := fun heq => htop (heq ▸ hc)
    exact decide_eq_true hne
  rw [firstSegment, List.append_assoc, List.takeWhile_append_of_pos hall]
  simp

theorem prefix_of_firstSegment {path : Text} (h : '/' ∈ path) :
    firstSegment path ++ ['/'] <+: path := by
  have hsplit : firstSegment path ++ path.dropWhile (· ≠ '/') = path :=
    List.takeWhile_append_dropWhile
  have hne : path.dropWhile (· ≠ '/') ≠ [] := by
    intro hnil
    rw [List.dropWhile_eq_nil_iff] at hnil
    exact absurd (hnil '/' h) (by simp)
  obtain ⟨c, rest, hrest⟩ := List.exists_cons_of_ne_nil hne
  have hc : c = '/' := by
    have hhead := List.head?_dropWhile_not (fun c : Char => decide (c ≠ '/')) path
    rw [hrest] at hhead
    simpa using hhead
  refine ⟨rest, ?_⟩
  calc firstSegment path ++ ['/'] ++ rest = firstSegment path ++ path.dropWhile (· ≠ '/') := by
        rw [hrest, hc, List.append_assoc, List.singleton_append]
    _ = path := hsplit

/-- The test of `stripCommonRoot` is whether there is a common root. -/
theorem oneRoot_iff (paths : List Text) (hne : paths ≠ []) :
    ((paths.map firstSegment).dedup.length ≠ 1 ∨ ∃ p ∈ paths, '/' ∉ p) ↔
      ¬ OneRoot (· ∈ paths) := by
  rw [← not_iff_not, not_not]
  push Not
  constructor
  · rintro ⟨hone, hslash⟩
    obtain ⟨top, htop⟩ := List.length_eq_one_iff.mp hone
    have hfirst : ∀ p ∈ paths, firstSegment p = top := by
      intro p hp
      have hmem : firstSegment p ∈ (paths.map firstSegment).dedup :=
        List.mem_dedup.mpr (List.mem_map_of_mem hp)
      rw [htop, List.mem_singleton] at hmem
      exact hmem
    refine ⟨top, ?_, ?_⟩
    · obtain ⟨p, hp⟩ := List.exists_mem_of_ne_nil paths hne
      rw [← hfirst p hp]
      intro hmem
      exact absurd (List.mem_takeWhile_imp hmem) (by simp)
    · intro p hp
      rw [← hfirst p hp]
      exact prefix_of_firstSegment (hslash p hp)
  · rintro ⟨top, htop, hall⟩
    constructor
    · have hconst : paths.map firstSegment = List.replicate paths.length top := by
        rw [List.eq_replicate_iff]
        refine ⟨List.length_map _, ?_⟩
        intro first hfirst
        obtain ⟨p, hp, rfl⟩ := List.mem_map.mp hfirst
        exact firstSegment_of_prefix htop (hall p hp)
      rw [hconst, List.replicate_dedup (by simpa using hne)]
      rfl
    · intro p hp
      obtain ⟨rest, rfl⟩ := hall p hp
      simp

/-! ### Safe paths -/

section
variable {gunzip : (bytes : List UInt8) → (maxBytes : ℕ) → Except Thrown (List UInt8)}
variable {steps : ℕ} {subdir : Option Text} {found : SourceFiles}

/-- The entries without their common root are the rooted files that the archive lists. -/
theorem mem_stripCommonRoot {archive : List UInt8} {entries : List TarEntry}
    (hentries : ∀ e, e ∈ entries ↔ Listed steps archive .start e) {entry : TarEntry} :
    entry ∈ stripCommonRoot entries ↔ ∃ e, Listed steps archive .start e ∧
      Rooted steps archive e.path entry.path ∧ e.bytes = entry.bytes := by
  rcases eq_or_ne entries [] with rfl | hne
  · have hnone : ∀ e, ¬ Listed steps archive .start e := fun e he =>
      absurd ((hentries e).mpr he) (by simp)
    simp [stripCommonRoot, hnone]
  · have hpaths : (fun p => ∃ e, Listed steps archive .start e ∧ dropDotSlash e.path = p) =
        (· ∈ entries.map fun e => dropDotSlash e.path) := by
      funext p
      simp only [List.mem_map, hentries]
    have hroot := oneRoot_iff (entries.map fun e => dropDotSlash e.path) (by simpa using hne)
    rw [stripCommonRoot]
    split
    · -- no common root: only a leading `./` goes
      rename_i htest
      have hno := hroot.mp htest
      rw [← hpaths] at hno
      rw [List.mem_map]
      constructor
      · rintro ⟨e, he, rfl⟩
        exact ⟨e, (hentries e).mp he, Or.inr ⟨hno, rfl⟩, rfl⟩
      · rintro ⟨e, he, hrooted, hbytes⟩
        have hpath := hrooted.resolve_left fun h => hno h.1
        refine ⟨e, (hentries e).mpr he, ?_⟩
        rw [← hpath.2, hbytes]
    · rename_i htest
      have hone := not_not.mp fun hno => htest (hroot.mpr hno)
      rw [← hpaths] at hone
      rw [List.mem_map]
      constructor
      · rintro ⟨e, he, rfl⟩
        exact ⟨e, (hentries e).mp he, Or.inl ⟨hone, rfl⟩, rfl⟩
      · rintro ⟨e, he, hrooted, hbytes⟩
        have hpath := hrooted.resolve_right fun h => h.1 hone
        refine ⟨e, (hentries e).mpr he, ?_⟩
        rw [← hpath.2, hbytes]

/-- The segments of a path are those of the subdirectory and those below it. -/
theorem mem_segments_below {rooted relative s : Text}
    (h : rooted = subdirPrefix subdir ++ relative) (hs : s ∈ segments relative) :
    s ∈ segments rooted := by
  subst h
  unfold subdirPrefix
  split
  · rw [List.append_assoc, List.singleton_append, segments_slash]
    exact List.mem_append_right _ hs
  · exact hs

/-- A path without the segments that are filtered is safe when it has no `.` either. -/
theorem safePath_of_kept {path : Text} (h : ∀ s ∈ segments path, s ∉ skippedSegments) :
    SafePath path ↔ ("." : Text) ∉ segments path := by
  have hstray : ∀ s, s ∈ straySegments ↔ s ∈ skippedSegments ∨ s = ("." : Text) := by
    intro s
    simp only [straySegments, skippedSegments, List.mem_cons, List.not_mem_nil, or_false]
    tauto
  rw [safePath_iff]
  constructor
  · intro hsafe hdot
    exact hsafe _ hdot ((hstray _).mpr (Or.inr rfl))
  · intro hdot s hs hbad
    rcases (hstray s).mp hbad with hskipped | rfl
    · exact h s hs hskipped
    · exact hdot hs

theorem archiveFiles_safe {archive : List UInt8}
    (h : archiveFiles steps archive subdir = some (.ok found)) :
    SafeFiles found.files ↔ CleanArchive steps archive subdir := by
  obtain ⟨read, hread, hfound⟩ := Option.map_eq_some_iff.mp h
  obtain ⟨entries, rfl, hfiles⟩ := bind_eq_ok hfound
  rw [SafeFiles, filesFromTarEntries_allKeys safePath_proto hfiles]
  have hmem : ∀ e, e ∈ entries ↔ Listed steps archive .start e := fun e => mem_readTar_iff hread
  have hbelow : ∀ {rooted relative : Text}, rooted = subdirPrefix subdir ++ relative →
      (∀ s ∈ segments rooted, s ∉ skippedSegments) → ∀ s ∈ segments relative,
        s ∉ skippedSegments := fun hpath hkept s hs => hkept s (mem_segments_below hpath hs)
  constructor
  · intro hsafe e rooted relative hlisted htext hrooted hpath hkept
    have hentry : (⟨rooted, e.bytes⟩ : TarEntry) ∈ stripCommonRoot entries :=
      (mem_stripCommonRoot hmem).mpr ⟨e, hlisted, hrooted, rfl⟩
    have hsafe := hsafe _ hentry relative ⟨hkept, hpath, htext⟩
    exact (safePath_of_kept (hbelow hpath hkept)).mp hsafe
  · rintro hclean entry hentry relative ⟨hkept, hpath, htext⟩
    obtain ⟨e, hlisted, hrooted, hbytes⟩ := (mem_stripCommonRoot hmem).mp hentry
    have hdot := hclean e entry.path relative hlisted (hbytes ▸ htext) hrooted hpath hkept
    exact (safePath_of_kept (hbelow hpath hkept)).mpr hdot

theorem filesFromJson_safe {text : Text} (h : filesFromJson text subdir = .ok found) :
    SafeFiles found.files ↔ CleanMap text subdir := by
  simp only [filesFromJson] at h
  obtain ⟨map, hmap, h⟩ := bind_eq_ok h
  obtain ⟨files, hfiles, h⟩ := bind_eq_ok h
  split at h
  · cases h
  cases h
  rw [SafeFiles, addMapFiles_allKeys safePath_proto hfiles]
  simp only [Obj.allKeys_empty, true_and, CleanMap, hmap, Except.ok.injEq, forall_eq']

theorem filesFromGitObjects_safe {objects : GitObjects} {commit : Text} {limits : GitLimits}
    (h : filesFromGitObjects objects commit subdir limits = .ok found) :
    SafeFiles found.files ↔ CleanClone objects commit subdir := by
  simp only [filesFromGitObjects] at h
  obtain ⟨root, hroot, h⟩ := bind_eq_ok h
  obtain ⟨st, hwalk, h⟩ := bind_eq_ok h
  split at h
  · cases h
  cases h
  rw [SafeFiles, walk_allKeys safePath_proto hwalk]
  simp only [WalkState.start, Obj.allKeys_empty, true_and, CleanClone, hroot, Except.ok.injEq,
    forall_eq', Reaches, safePath_route]

theorem cleanSource_clone {objects : GitObjects} {commit : Text} :
    CleanSource gunzip steps (.clone objects commit) subdir ↔ CleanClone objects commit subdir := by
  constructor
  · intro h
    exact h.clone objects commit rfl
  · intro h
    refine ⟨?_, nofun, nofun, nofun⟩
    rintro _ _ ⟨rfl, rfl⟩
    exact h

theorem cleanSource_gzip {bytes archive : List UInt8} (hgzip : isGzip bytes = true)
    (hgunzip : gunzip bytes sourceLimits.maxTotalBytes = .ok archive) :
    CleanSource gunzip steps (.body bytes) subdir ↔ CleanArchive steps archive subdir := by
  constructor
  · intro h
    exact h.gzip bytes archive rfl hgzip hgunzip
  · intro h
    refine ⟨nofun, ?_, ?_, ?_⟩
    · rintro _ other ⟨rfl⟩ _ hother
      rw [hgunzip] at hother
      cases hother
      exact h
    · rintro _ ⟨rfl⟩
      simp [hgzip]
    · rintro _ _ ⟨rfl⟩
      simp [hgzip]

theorem cleanSource_tar {bytes : List UInt8} (hgzip : isGzip bytes = false)
    (htar : isTar bytes = true) :
    CleanSource gunzip steps (.body bytes) subdir ↔ CleanArchive steps bytes subdir := by
  constructor
  · intro h
    exact h.tar bytes rfl hgzip htar
  · intro h
    refine ⟨nofun, ?_, ?_, ?_⟩
    · rintro _ _ ⟨rfl⟩
      simp [hgzip]
    · rintro _ ⟨rfl⟩ _ _
      exact h
    · rintro _ _ ⟨rfl⟩
      simp [htar]

theorem cleanSource_map {bytes : List UInt8} {text : Text} (hgzip : isGzip bytes = false)
    (htar : isTar bytes = false) (htext : utf8DecodeFatal bytes = some text) :
    CleanSource gunzip steps (.body bytes) subdir ↔ CleanMap text subdir := by
  constructor
  · intro h
    exact h.map bytes text rfl hgzip htar htext
  · intro h
    refine ⟨nofun, ?_, ?_, ?_⟩
    · rintro _ _ ⟨rfl⟩
      simp [hgzip]
    · rintro _ ⟨rfl⟩
      simp [htar]
    · rintro _ other ⟨rfl⟩ _ _ hother
      rw [htext] at hother
      cases hother
      exact h

/-- **Paths of a fetched source.** The files of a source that is accepted are at safe paths exactly
    when the names in the source are clean: a reader filters some of the bad names, or none. -/
theorem source_paths (gunzip : (bytes : List UInt8) → (maxBytes : ℕ) → Except Thrown (List UInt8))
    (steps : ℕ) (source : FetchedSource) (subdir : Option Text) (found : SourceFiles)
    (h : sourceFiles gunzip steps source subdir = some (.ok found)) :
    SafeFiles found.files ↔ CleanSource gunzip steps source subdir := by
  cases source with
  | clone objects commit =>
    have h : filesFromGitObjects objects commit subdir sourceLimits = .ok found :=
      Option.some.inj h
    rw [filesFromGitObjects_safe h, cleanSource_clone]
  | body bytes =>
    simp only [sourceFiles] at h
    split_ifs at h with hgzip htar
    · split at h
      · cases h
      · rename_i archive hgunzip
        rw [archiveFiles_safe h, cleanSource_gzip hgzip hgunzip]
    · rw [Bool.not_eq_true] at hgzip
      rw [archiveFiles_safe h, cleanSource_tar hgzip htar]
    · rw [Bool.not_eq_true] at hgzip htar
      split at h
      · cases h
      rename_i text htext
      rw [filesFromJson_safe (Option.some.inj h), cleanSource_map hgzip htar htext]

end

/-! ### Sample sources -/

/-- The bytes, filled with zeros up to a length. -/
def padded (length : ℕ) (bytes : List UInt8) : List UInt8 :=
  bytes ++ List.replicate (length - bytes.length) 0

/-- A regular file of a ustar archive. -/
def tarMember (name data : Text) : List UInt8 :=
  let bytes := utf8Encode data
  let size := Nat.toDigits 8 bytes.length
  let header := padded 124 (utf8Encode name) ++
    utf8Encode (List.replicate (11 - size.length) '0' ++ size ++ [' ']) ++
    padded 20 [] ++ utf8Encode ['0'] ++ padded 100 [] ++ utf8Encode "ustar"
  padded block header ++ padded ((bytes.length + 511) / block * block) bytes

def tarArchive (files : List (Text × Text)) : FetchedSource :=
  .body (files.flatMap (fun f => tarMember f.1 f.2) ++ padded (2 * block) [])

/-- One line of a tree object. -/
def treeLine (mode name sha : Text) : List UInt8 :=
  let digits := sha.filterMap hexDigit?
  utf8Encode (mode ++ ' ' :: name) ++ 0 ::
    (List.range 20).map fun i => UInt8.ofNat (digits.getD (2 * i) 0 * 16 + digits.getD (2 * i + 1) 0)

/-- A repository with a manifest and one file in a directory of the given name; the hashes are those
    of the tree and of the commit. -/
def gitClone (dir treeSha commitSha : Text) : FetchedSource :=
  .clone
    ([(commitSha, ⟨.commit, utf8Encode ("tree " ++ treeSha ++ ("\nauthor A <a@b> 0 +0000\n" : Text) ++
        "committer A <a@b> 0 +0000\n\nm\n")⟩),
      (treeSha, ⟨.tree, treeLine "40000" dir "8576c49027b071ec692d000de2187c2b67e281f7" ++
        treeLine "100644" "package.json" "9e26dfeeb6e641a33dae4961196235bdb965b21b"⟩),
      ("8576c49027b071ec692d000de2187c2b67e281f7", ⟨.tree,
        treeLine "100644" "a.js" "c1b0730e0133447badcfd47fd144e254807b06e1"⟩),
      ("9e26dfeeb6e641a33dae4961196235bdb965b21b", ⟨.blob, utf8Encode "\x7b\x7d"⟩),
      ("c1b0730e0133447badcfd47fd144e254807b06e1", ⟨.blob, utf8Encode "x"⟩)] : GitObjects)
    commitSha

/-- A map of files as JSON. -/
def jsonMap (files : List (Text × Text)) : FetchedSource :=
  .body (utf8Encode (jsonObject (files.map fun f => (f.1, jsonString f.2))))

/-- A platform on which nothing unpacks. -/
def noGunzip (_ : List UInt8) (_ : ℕ) : Except Thrown (List UInt8) :=
  .error (.error "not a gzip stream")

/-- The paths of a source that is accepted. -/
def acceptedPaths (source : FetchedSource) : Option (List Text) :=
  (sourceFiles noGunzip 0 source none).bind fun read => read.toOption.map fun found => found.files.keys

theorem accepted_of_paths (source : FetchedSource) (paths : List Text)
    (h : acceptedPaths source = some paths) :
    ∃ found, sourceFiles noGunzip 0 source none = some (.ok found) ∧ found.files.keys = paths := by
  obtain ⟨read, hread, h⟩ := Option.bind_eq_some_iff.mp h
  obtain ⟨found, hfound, hkeys⟩ := Option.map_eq_some_iff.mp h
  cases read with
  | error e => cases hfound
  | ok files =>
    cases hfound
    exact ⟨found, hread, hkeys⟩

/-- A source that is accepted with safe paths only is clean. -/
theorem source_paths_clean :
    CleanSource noGunzip 0
      (tarArchive [("pkg/package.json", "\x7b\x7d"), ("pkg/lib/a.js", "x")]) none ∧
    CleanSource noGunzip 0 (gitClone "lib" "5a2e8de599b97d8176eb5c96a05a131375504f8a"
      "41040cb4172e4466ea573a0021827c951ac25ed0") none ∧
    CleanSource noGunzip 0 (jsonMap [("package.json", "\x7b\x7d"), ("lib/a.js", "x")]) none := by
  have hclean : ∀ (source : FetchedSource) (paths : List Text),
      acceptedPaths source = some paths → (∀ path ∈ paths, SafePath path) →
        CleanSource noGunzip 0 source none := by
    intro source paths haccepted hsafe
    obtain ⟨found, hfound, hkeys⟩ := accepted_of_paths source paths haccepted
    refine (source_paths noGunzip 0 source none found hfound).mp ?_
    intro path hpath
    exact hsafe path (hkeys ▸ hpath)
  have harchive := hclean (tarArchive [("pkg/package.json", "\x7b\x7d"), ("pkg/lib/a.js", "x")])
    ["package.json", "lib/a.js"] (by decide +kernel) (by decide +kernel)
  have hclone := hclean (gitClone "lib" "5a2e8de599b97d8176eb5c96a05a131375504f8a"
    "41040cb4172e4466ea573a0021827c951ac25ed0") ["lib/a.js", "package.json"]
    (by decide +kernel) (by decide +kernel)
  have hmap := hclean (jsonMap [("package.json", "\x7b\x7d"), ("lib/a.js", "x")])
    ["package.json", "lib/a.js"] (by decide +kernel) (by decide +kernel)
  exact And.intro harchive (And.intro hclone hmap)

/-- **Stray paths.** An archive, a clone and a map that are accepted with files at stray paths:
    `./a.js`, `../a.js` and `/.git/hooks`. -/
theorem stray_sources :
    (∃ found, sourceFiles noGunzip 0
        (tarArchive [("pkg/package.json", "\x7b\x7d"), ("pkg/./a.js", "x")]) none =
          some (.ok found) ∧ ¬ SafeFiles found.files) ∧
    (∃ found, sourceFiles noGunzip 0 (gitClone ".." "2815be10afe66c329e9e7ab576525c2d821417ad"
        "0f992c0c16c087cdcba03427cf68b7ad1dc98826") none = some (.ok found) ∧
          ¬ SafeFiles found.files) ∧
    (∃ found, sourceFiles noGunzip 0
        (jsonMap [("package.json", "\x7b\x7d"), ("/.git/hooks", "x")]) none = some (.ok found) ∧
          ¬ SafeFiles found.files) := by
  have hstray : ∀ (source : FetchedSource) (paths : List Text),
      acceptedPaths source = some paths → ¬ (∀ path ∈ paths, SafePath path) →
        ∃ found, sourceFiles noGunzip 0 source none = some (.ok found) ∧
          ¬ SafeFiles found.files := by
    intro source paths haccepted hbad
    obtain ⟨found, hfound, hkeys⟩ := accepted_of_paths source paths haccepted
    refine ⟨found, hfound, ?_⟩
    intro hsafe
    apply hbad
    intro path hpath
    exact hsafe path (hkeys ▸ hpath)
  refine ⟨hstray _ ["package.json", "./a.js"] ?_ ?_, hstray _ ["../a.js", "package.json"] ?_ ?_,
    hstray _ ["package.json", "/.git/hooks"] ?_ ?_⟩
  all_goals decide +kernel

end KodyCelld.Packages
