import KodyCelld.Packages.Manifest

namespace KodyCelld.Packages

open KodyCelld.Lib

/-!
# Paths of a fetched package

What the readers of a package source share: how they join names to a path, what they take out of a
subdirectory, and the complaint about a source without a manifest.

* `SafePath` — a path that stays inside a package and outside of the directories that tools own;
* `safePath_slash` — a longer path is safe when its two parts are;
* `safePath_route` — a path that is joined from names is safe when the names are, as far as they
  enter it.
-/

/-! ### Safe paths -/

/-- `path.split('/')` -/
def segments (path : Text) : List Text := path.splitOn '/'

theorem segments_slash (a b : Text) : segments (a ++ '/' :: b) = segments a ++ segments b :=
  List.splitOn_append_cons_self a b

/-- The segments that a path in a package must not have. -/
def straySegments : List Text := ([[], ".", "..", ".git", "node_modules"] : List Text)

/-- **A safe path**: relative, and none of its segments is empty, leads elsewhere or names a
    directory that git or npm owns. -/
structure SafePath (path : Text) : Prop where
  segment : ∀ s ∈ segments path, s ∉ straySegments
  relative : path.head? ≠ some '/'

instance (path : Text) : Decidable (SafePath path) :=
  decidable_of_iff ((∀ s ∈ segments path, s ∉ straySegments) ∧ path.head? ≠ some '/')
    ⟨fun h => ⟨h.1, h.2⟩, fun h => ⟨h.1, h.2⟩⟩

/-- A leading slash would leave an empty first segment. -/
theorem safePath_iff {path : Text} : SafePath path ↔ ∀ s ∈ segments path, s ∉ straySegments := by
  constructor
  · exact SafePath.segment
  · intro h
    refine ⟨h, ?_⟩
    intro hslash
    obtain ⟨rest, rfl⟩ := List.head?_eq_some_iff.mp hslash
    have hempty : ([] : Text) ∈ segments ([] ++ '/' :: rest) := by
      rw [segments_slash]
      exact List.mem_append_left _ (List.mem_singleton_self _)
    exact h [] hempty (by decide)

theorem safePath_slash (a b : Text) : SafePath (a ++ '/' :: b) ↔ SafePath a ∧ SafePath b := by
  simp only [safePath_iff, segments_slash, List.mem_append, or_imp, forall_and]

theorem safePath_proto : SafePath "__proto__" := by decide

/-- The files of a package are at safe paths. -/
def SafeFiles (files : PackageFiles) : Prop := files.AllKeys SafePath

/-! ### Joined names -/

/-- `` dir ? `${dir}/${name}` : name `` -/
def joinPath (dir name : Text) : Text := if dir = [] then name else dir ++ '/' :: name

/-- The path of a file that is reached through the directories. -/
def routePath (dir : Text) (dirs : List Text) (name : Text) : Text :=
  joinPath (dirs.foldl joinPath dir) name

theorem routePath_cons (dir d : Text) (dirs : List Text) (name : Text) :
    routePath dir (d :: dirs) name = routePath (joinPath dir d) dirs name := rfl

/-- Under a directory every name enters the path. -/
theorem safePath_routePath {dir : Text} (hdir : dir ≠ []) (dirs : List Text) (name : Text) :
    SafePath (routePath dir dirs name) ↔ SafePath dir ∧ ∀ n ∈ dirs ++ [name], SafePath n := by
  induction dirs generalizing dir with
  | nil =>
    have hpath : routePath dir [] name = dir ++ '/' :: name := if_neg hdir
    rw [hpath, safePath_slash]
    simp
  | cons d dirs ih =>
    have hjoin : joinPath dir d = dir ++ '/' :: d := if_neg hdir
    have hne : dir ++ '/' :: d ≠ [] := by simp
    rw [routePath_cons, hjoin, ih hne, safePath_slash, List.cons_append, List.forall_mem_cons,
      and_assoc]

/-- **Joined names.** At the root the empty directory names before the first other one leave no trace
    in the path; all other names are parts of it. -/
theorem safePath_route (dirs : List Text) (name : Text) :
    SafePath (routePath [] dirs name) ↔
      ∀ n ∈ dirs.dropWhile (· = []) ++ [name], SafePath n := by
  induction dirs with
  | nil =>
    have hpath : routePath [] [] name = name := rfl
    rw [hpath]
    simp
  | cons d dirs ih =>
    have hjoin : joinPath [] d = d := rfl
    rw [routePath_cons, hjoin]
    by_cases hd : d = []
    · subst hd
      rw [ih]
      simp
    · rw [safePath_routePath hd, List.dropWhile_cons_of_neg (by simpa using hd), List.cons_append,
        List.forall_mem_cons]

/-! ### What the readers say -/

/-- What a reader makes of a source. -/
structure SourceFiles where
  files : PackageFiles
  warnings : List Text

/-- `` subdir ? `${subdir}/` : '' `` -/
def subdirPrefix (subdir : Option Text) : Text :=
  match subdir with
  | some (c :: dir) => (c :: dir) ++ ['/']
  | _ => []

/-- The UTF-16 code units of a text, by which `sort` compares. -/
def codeUnits (s : Text) : List ℕ :=
  s.flatMap fun c =>
    if 0x10000 ≤ c.toNat then
      [0xd800 + (c.toNat - 0x10000) / 0x400, 0xdc00 + (c.toNat - 0x10000) % 0x400]
    else [c.toNat]

/-- The complaint about a source without a manifest at its root, with the directories that have
    one. -/
def noManifest (manifestDirs : List Text) (root : Option Text) (place : Text) : Thrown :=
  let candidates := (manifestDirs.filter fun d => !d.isEmpty).insertionSort
    fun a b => codeUnits a ≤ codeUnits b
  let hint : Text :=
    if candidates ≠ [] then
      " package.json was found in: " ++ commaSeparated (candidates.take 8) ++
        ". Pass one as subdir."
    else match root with
      | some (c :: dir) => " Nothing under \"" ++ (c :: dir) ++ "\" in the " ++ place ++ "."
      | _ => []
  .kody "invalid_package" ("No package.json at the package root." ++ hint)

def skippedWarning (path : Text) : Text :=
  "Skipped " ++ path ++ ": not UTF-8 text (packages hold text files only)."

/-- `set.add(value)` -/
def addOnce (values : List Text) (value : Text) : List Text :=
  if value ∈ values then values else values ++ [value]

end KodyCelld.Packages
