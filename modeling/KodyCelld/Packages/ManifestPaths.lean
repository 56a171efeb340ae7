import KodyCelld.Execute.ModuleGraph
import KodyCelld.Lib.JsonText

namespace KodyCelld.Packages

open KodyCelld.Lib KodyCelld.Execute

/-!
# The paths of a manifest (`packages/manifest.ts`, `execute/module-graph.ts`)

Paths and exports are looked up by `path in files` and `exports[name]`, which also find the members
that every object inherits, and the paths of a saved manifest are normalised again by the run that
starts at them.

* `writtenExport`, `jobEntries`, `webhookExports`, `handlers`, `appEntries`, `appClients` — what
  `package.json` writes;
* `Written` — paths and the texts they were read from;
* `get?_exports` — the exports of a manifest are the last ones written;
* `manifest_paths_exist` — the manifests whose paths are files and whose exports are declared.
-/

/-! ### What is run -/

/-- The key that an export is looked up under when it is run. -/
def runKey (exportName : Text) : Text := if exportName = [] then "." else dropDotSlash exportName

def resolvePackageExport (manifest : PackageManifest) (exportName : Text) :
    Except Thrown ExportEntry :=
  let key := runKey exportName
  let available := commaSeparated manifest.exports.keys
  let unknown := Thrown.kody "unknown_export" ("Package " ++ manifest.name ++ " has no export \"" ++
    key ++ "\". Available: " ++ (if available = [] then ("(none)" : Text) else available) ++ ".") 404
  match exportEntry manifest.exports key with
  | none => .error unknown
  | some (.path []) => .error unknown
  | some entry => .ok entry

/-- A run that starts at a file finds it: `buildModuleGraph` normalises the path again. -/
def FindsFile (files : PackageFiles) (entryPath : Text) : Prop :=
  ∃ path ∈ files.keys, normalizeModulePath entryPath = .ok path

/-- A run that starts at an export finds its file. -/
def FindsExport (files : PackageFiles) (manifest : PackageManifest) (exportName : Text) : Prop :=
  ∃ path ∈ files.keys, resolvePackageExport manifest exportName = .ok (.path path)

/-! ### What `package.json` writes -/

/-- The name that an export is kept under. -/
def exportKey (key : Text) : Text := if key = "." then key else dropDotSlash key

/-- The members of `exports`, or what stands for them. -/
def exportTexts (json : List (Text × Json)) : List (Text × Json) :=
  match Json.member json "exports" with
  | some (.str path) => [(".", .str path)]
  | some (.obj members) => members
  | _ =>
    match Json.text? (Json.member json "main") with
    | some path => [(".", .str path)]
    | none => []

/-- The path that is written last under the name of an export; none is kept as `__proto__`. -/
def writtenExport (json : List (Text × Json)) (name : Text) : Option Text :=
  if name = "__proto__" then none
  else ((exportTexts json).reverse.find? fun m => exportKey m.1 = name).bind fun m =>
    Json.text? (some m.2)

/-- A text that an object has under a key. -/
def fieldText (field : Text) : Json → Option Text
  | .obj members => Json.text? (Json.member members field)
  | _ => none

def jobEntries (json : List (Text × Json)) : List Text :=
  match Json.member (kodyMembers json) "jobs" with
  | some (.obj jobs) => jobs.filterMap fun j => fieldText "entry" j.2
  | _ => []

def webhookExports (json : List (Text × Json)) : List Text :=
  match Json.member (kodyMembers json) "webhooks" with
  | some (.arr items) => items.filterMap (fieldText "export")
  | _ => []

def handlers (json : List (Text × Json)) : List Text :=
  match Json.member (kodyMembers json) "subscriptions" with
  | some (.obj topics) => topics.filterMap fun t => fieldText "handler" t.2
  | _ => []

def appEntries (json : List (Text × Json)) : List Text :=
  (Json.member (kodyMembers json) "app").toList.filterMap (fieldText "entry")

/-- A client entry: a path or `{ entry }`. -/
def clientText : Json → Option Text
  | .str path => some path
  | client => fieldText "entry" client

def appClients (json : List (Text × Json)) : List Text :=
  match Json.member (kodyMembers json) "app" with
  | some (.obj app) => (Json.member app "client").toList.filterMap clientText
  | _ => []

/-- Whether a secret provider is declared. -/
def declaresProvider (json : List (Text × Json)) : Bool :=
  (Json.member (kodyMembers json) "secretProvider").isSome

/-! ### What is claimed, and when -/

/-- **Every path is a file and every export is declared**, and a run of any of them finds it. -/
structure PathsExist (files : PackageFiles) (json : List (Text × Json))
    (manifest : PackageManifest) : Prop where
  exports : ∀ e ∈ manifest.exports.entries, e.2 ∈ files.keys ∧ FindsExport files manifest e.1
  jobs : ∀ j ∈ manifest.jobs.entries, j.2.entry ∈ files.keys ∧ FindsFile files j.2.entry
  webhooks : ∀ w ∈ manifest.webhooks, (∃ path ∈ files.keys, w.entry = .path path ∧
    manifest.exports.get? w.exportName = some path) ∧ FindsExport files manifest w.exportName
  subscriptions : ∀ s ∈ manifest.subscriptions,
    s.handler ∈ files.keys ∧ FindsFile files s.handler
  app : ∀ a ∈ manifest.app, a.entry ∈ files.keys ∧ FindsFile files a.entry
  /-- The directory of the assets holds a file. -/
  assets : ∀ a ∈ manifest.app, ∀ assets ∈ a.assets,
    ∃ file ∈ files.keys, assets ++ ['/'] <+: file
  /-- The client entry is read, and not kept. -/
  client : ∀ raw ∈ appClients json, ∃ path ∈ files.keys, normalizeModulePath raw = .ok path
  secretProvider : ∀ p ∈ manifest.secretProvider, p.entry ∈ files.keys ∧
    manifest.exports.get? secretProviderExportName = some p.entry ∧ FindsFile files p.entry

/-- A text does not resolve to the name of a member that every object inherits, or there is a file
    of that name. -/
def OwnPath (files : PackageFiles) (raw : Text) : Prop :=
  ∀ path ∈ objectPrototype, normalizeModulePath raw = .ok path → path ∈ files.keys

/-- Where the path that a text resolves to starts or ends with a space, a file is left of it. -/
def Rereads (files : PackageFiles) (raw : Text) : Prop :=
  ∀ path, normalizeModulePath raw = .ok path → trim path ≠ path → FindsFile files path

/-- **What `package.json` may write** so that all of it exists. -/
structure NamesFiles (files : PackageFiles) (json : List (Text × Json)) : Prop where
  exports : ∀ name, ∀ raw ∈ writtenExport json name, OwnPath files raw
  /-- A name that is run under a shorter one is declared under that, too. -/
  shortened : ∀ name, (writtenExport json name).isSome = true → runKey name ≠ name →
    (writtenExport json (runKey name)).isSome = true
  jobs : ∀ raw ∈ jobEntries json, OwnPath files raw ∧ Rereads files raw
  webhooks : ∀ raw ∈ webhookExports json, exportKey raw ∈ objectPrototype →
    (writtenExport json (exportKey raw)).isSome = true
  subscriptions : ∀ raw ∈ handlers json, OwnPath files raw ∧ Rereads files raw
  app : ∀ raw ∈ appEntries json, OwnPath files raw ∧ Rereads files raw
  client : ∀ raw ∈ appClients json, OwnPath files raw
  secretProvider : declaresProvider json = true →
    ∀ raw ∈ writtenExport json secretProviderExportName, Rereads files raw

variable {files : PackageFiles} {json : List (Text × Json)} {manifest : PackageManifest}

/-! ### Paths and the texts they were read from -/

/-- Paths that were read from texts and looked up with `in`. -/
structure Written (files : PackageFiles) (raws paths : Set Text) : Prop where
  read : ∀ path ∈ paths, ∃ raw ∈ raws, normalizeModulePath raw = .ok path
  kept : ∀ raw ∈ raws, ∃ path ∈ paths, normalizeModulePath raw = .ok path
  found : ∀ path ∈ paths, files.hasProperty path = true

/-- What is looked up with `in` is a file, or a name that every object inherits. -/
theorem Written.own_iff {raws paths : Set Text} (h : Written files raws paths) :
    (∀ path ∈ paths, path ∈ files.keys) ↔ ∀ raw ∈ raws, OwnPath files raw := by
  constructor
  · intro hown raw hraw path _ hpath
    obtain ⟨path', hmem, hpath'⟩ := h.kept raw hraw
    rw [← Except.ok.inj (hpath'.symm.trans hpath)]
    exact hown path' hmem
  · intro hown path hmem
    obtain ⟨raw, hraw, hpath⟩ := h.read path hmem
    have hfound := h.found path hmem
    rw [Obj.hasProperty, Bool.or_eq_true, decide_eq_true_eq, decide_eq_true_eq] at hfound
    rcases hfound with hkey | hinherited
    · exact hkey
    · exact hown raw hraw path hinherited hpath

/-- A file is found by the run that starts at it, if it does not start or end with a space. -/
theorem Written.finds_iff {raws paths : Set Text} (h : Written files raws paths) :
    (∀ path ∈ paths, path ∈ files.keys ∧ FindsFile files path) ↔
      ∀ raw ∈ raws, OwnPath files raw ∧ Rereads files raw := by
  constructor
  · intro hfinds raw hraw
    have hown := h.own_iff.mp fun path hmem => (hfinds path hmem).1
    refine ⟨hown raw hraw, fun path hpath _ => ?_⟩
    obtain ⟨path', hmem, hpath'⟩ := h.kept raw hraw
    obtain rfl := Except.ok.inj (hpath'.symm.trans hpath)
    exact (hfinds path' hmem).2
  · intro hraws path hmem
    have hown := h.own_iff.mpr fun raw hraw => (hraws raw hraw).1
    refine ⟨hown path hmem, ?_⟩
    obtain ⟨raw, hraw, hpath⟩ := h.read path hmem
    by_cases htrim : trim path = path
    · exact ⟨path, hown path hmem, normalizeModulePath_again hpath htrim⟩
    · exact (hraws raw hraw).2 path hpath htrim

/-! ### Exports -/

theorem parseExports_members (json : List (Text × Json)) :
    parseExports json = parseExportMembers Obj.empty (exportTexts json) := by
  have hone : ∀ path : Text, ((normalizeModulePath path).map fun p =>
      (Obj.empty : Obj Text).set "." p) = parseExportMembers Obj.empty [(".", .str path)] := by
    intro path
    unfold parseExportMembers
    cases normalizeModulePath path <;> rfl
  have hmain : (match Json.text? (Json.member json "main") with
      | some path => (normalizeModulePath path).map fun p => (Obj.empty : Obj Text).set "." p
      | none => .ok Obj.empty) = parseExportMembers Obj.empty
        (match Json.text? (Json.member json "main") with
          | some path => [((".", .str path) : Text × Json)]
          | none => []) := by
    cases Json.text? (Json.member json "main") with
    | none => rfl
    | some path => exact hone path
  unfold parseExports exportTexts
  cases Json.member json "exports" with
  | none => exact hmain
  | some value =>
    cases value with
    | str path => exact hone path
    | obj members => rfl
    | null => exact hmain
    | bool b => exact hmain
    | num n => exact hmain
    | arr items => exact hmain

/-- What an export becomes when it is read. -/
theorem parseExportMembers_cons {exports out : Obj Text} {key : Text} {value : Json}
    {rest : List (Text × Json)} (h : parseExportMembers exports ((key, value) :: rest) = .ok out) :
    ∃ raw path, value = .str raw ∧ normalizeModulePath raw = .ok path ∧
      parseExportMembers (exports.set (exportKey key) path) rest = .ok out := by
  unfold parseExportMembers at h
  split at h
  · exact absurd (‹_ = []›) (by simp)
  · rename_i key' raw rest' heq
    obtain ⟨hm, rfl⟩ := List.cons.inj heq
    obtain ⟨rfl, rfl⟩ := Prod.mk.inj hm
    split at h
    · exact absurd h (by simp)
    rename_i path hpath
    exact ⟨raw, path, rfl, hpath, h⟩
  · exact absurd h (by simp)

/-- The last text that is written under a name is kept. -/
theorem get?_parseExportMembers {exports out : Obj Text} {members : List (Text × Json)}
    (h : parseExportMembers exports members = .ok out) {name : Text} (hname : name ≠ "__proto__") :
    match members.reverse.find? fun m => exportKey m.1 = name with
    | some m => ∃ raw path, m.2 = .str raw ∧ normalizeModulePath raw = .ok path ∧
        out.get? name = some path
    | none => out.get? name = exports.get? name := by
  induction members generalizing exports with
  | nil =>
    obtain rfl : exports = out := Except.ok.inj h
    rfl
  | cons m rest ih =>
    obtain ⟨key, value⟩ := m
    obtain ⟨raw, path, rfl, hpath, hrest⟩ := parseExportMembers_cons h
    have hlast := ih hrest
    rw [List.reverse_cons, List.find?_append]
    cases hfind : rest.reverse.find? fun m => exportKey m.1 = name with
    | some m =>
      rw [hfind] at hlast
      exact hlast
    | none =>
      rw [hfind] at hlast
      dsimp only at hlast
      rw [Option.none_or]
      by_cases hkey : exportKey key = name
      · rw [List.find?_cons_of_pos (by simpa using hkey)]
        refine ⟨raw, path, rfl, hpath, ?_⟩
        rw [hlast, Obj.set, hkey, if_neg hname, Obj.get?_define, if_pos rfl]
      · rw [List.find?_cons_of_neg (by simpa using hkey), List.find?_nil]
        show out.get? name = exports.get? name
        rw [hlast, Obj.set]
        split
        · rfl
        · rw [Obj.get?_define, if_neg hkey]

/-- No export is kept as `__proto__`. -/
theorem proto_parseExportMembers {exports out : Obj Text} {members : List (Text × Json)}
    (h : parseExportMembers exports members = .ok out) (hnone : exports.get? "__proto__" = none) :
    out.get? "__proto__" = none := by
  induction members generalizing exports with
  | nil =>
    obtain rfl : exports = out := Except.ok.inj h
    exact hnone
  | cons m rest ih =>
    obtain ⟨key, value⟩ := m
    obtain ⟨raw, path, -, -, hrest⟩ := parseExportMembers_cons h
    refine ih hrest ?_
    rw [Obj.set]
    split
    · exact hnone
    · rename_i hkey
      rw [Obj.get?_define, if_neg hkey]
      exact hnone

/-- **The exports of a manifest** are the last ones written. -/
theorem get?_exports {exports : Obj Text} (h : parseExports json = .ok exports) (name : Text) :
    match writtenExport json name with
    | some raw => ∃ path, normalizeModulePath raw = .ok path ∧ exports.get? name = some path
    | none => exports.get? name = none := by
  rw [parseExports_members] at h
  unfold writtenExport
  by_cases hname : name = "__proto__"
  · rw [if_pos hname, hname]
    exact proto_parseExportMembers h (Obj.get?_empty _)
  · rw [if_neg hname]
    have hlast := get?_parseExportMembers h hname
    cases hfind : (exportTexts json).reverse.find? fun m => exportKey m.1 = name with
    | some m =>
      rw [hfind] at hlast
      obtain ⟨raw, path, hraw, hpath, hget⟩ := hlast
      rw [Option.bind_some, hraw]
      exact ⟨path, hpath, hget⟩
    | none =>
      rw [hfind] at hlast
      exact hlast

theorem isSome_exports {exports : Obj Text} (h : parseExports json = .ok exports) (name : Text) :
    (exports.get? name).isSome = (writtenExport json name).isSome := by
  have hget := get?_exports h name
  cases hwritten : writtenExport json name with
  | some raw =>
    rw [hwritten] at hget
    obtain ⟨path, -, hget⟩ := hget
    rw [hget]
    rfl
  | none =>
    rw [hwritten] at hget
    rw [hget]

/-- The exports and the texts they were read from. -/
theorem written_exports (h : ParsedFrom files json manifest) :
    Written files {raw | ∃ name, writtenExport json name = some raw}
      {path | ∃ e ∈ manifest.exports.entries, e.2 = path} where
  read := by
    rintro _ ⟨⟨name, path⟩, he, rfl⟩
    have hget := get?_exports h.exports name
    rw [Obj.get?_eq_some_iff.mpr he] at hget
    split at hget
    · rename_i raw hraw
      obtain ⟨path', hpath, heq⟩ := hget
      obtain rfl := Option.some.inj heq
      exact ⟨raw, ⟨name, hraw⟩, hpath⟩
    · exact absurd hget (by simp)
  kept := by
    rintro raw ⟨name, hraw⟩
    have hget := get?_exports h.exports name
    rw [hraw] at hget
    obtain ⟨path, hpath, hget⟩ := hget
    exact ⟨path, ⟨(name, path), Obj.get?_eq_some_iff.mp hget, rfl⟩, hpath⟩
  found := by
    rintro _ ⟨e, he, rfl⟩
    exact h.found e he

/-! ### Jobs and subscriptions -/

/-- A guard that was passed. -/
theorem of_guard {α : Type} {c : Bool} {e : Thrown} {f : PUnit → Except Thrown α} {a : α}
    (h : (if c = true then throw e >>= f else f ⟨⟩) = .ok a) : c = false ∧ f ⟨⟩ = .ok a := by
  cases c with
  | true => exact absurd h (by simp [throw, throwThe, MonadExceptOf.throw, bind, Except.bind])
  | false => exact ⟨rfl, h⟩

theorem parseJob_entry {name : Text} {raw : Json} {job : JobDefinition}
    (h : parseJob files name raw = .ok job) : name ≠ "__proto__" ∧
      ∃ text, fieldText "entry" raw = some text ∧ normalizeModulePath text = .ok job.entry ∧
        files.hasProperty job.entry = true := by
  unfold parseJob at h
  extract_lets required afterRaw afterName at h
  obtain ⟨hpattern, hname⟩ := of_guard h
  refine ⟨?_, ?_⟩
  · rintro rfl
    exact absurd hpattern (by decide)
  obtain ⟨members, rfl, hrest⟩ : ∃ members, raw = .obj members ∧ afterRaw members = .ok job := by
    unfold afterName at hname
    split at hname
    · exact ⟨_, rfl, hname⟩
    · obtain ⟨_, hbad, -⟩ := bind_eq_ok hname
      cases hbad
  unfold afterRaw at hrest
  extract_lets afterEntry at hrest
  split at hrest
  · rename_i text htext
    obtain ⟨entry, hentry, hrest⟩ := bind_eq_ok hrest
    unfold afterEntry at hrest
    extract_lets afterFound at hrest
    obtain ⟨hfound, hrest⟩ := of_guard hrest
    obtain ⟨schedule, -, hjob⟩ := bind_eq_ok hrest
    rw [← Except.ok.inj hjob]
    exact ⟨text, htext, hentry, by simpa using hfound⟩
  · obtain ⟨_, hbad, -⟩ := bind_eq_ok hrest
    cases hbad

/-- The jobs are those of the members, each under its own name. -/
theorem get?_parseJobMembers {jobs out : Obj JobDefinition} {members : List (Text × Json)}
    (h : parseJobMembers files jobs members = .ok out) (hnodup : (members.map Prod.fst).Nodup)
    (name : Text) (job : JobDefinition) : out.get? name = some job ↔
      (∃ raw, (name, raw) ∈ members ∧ parseJob files name raw = .ok job) ∨
      name ∉ members.map Prod.fst ∧ jobs.get? name = some job := by
  induction members generalizing jobs with
  | nil =>
    obtain rfl : jobs = out := Except.ok.inj h
    simp
  | cons m rest ih =>
    obtain ⟨first, raw⟩ := m
    unfold parseJobMembers at h
    split at h
    · exact absurd h (by simp)
    rename_i parsed hparsed
    rw [List.map_cons, List.nodup_cons] at hnodup
    have hproto := (parseJob_entry hparsed).1
    rw [ih h hnodup.2, Obj.set, if_neg hproto, Obj.get?_define]
    by_cases hname : first = name
    · subst hname
      have hnone : ∀ raw', (first, raw') ∉ rest := fun raw' hmem =>
        hnodup.1 (List.mem_map.mpr ⟨_, hmem, rfl⟩)
      simp [hnone, hnodup.1, hparsed]
    · have hne : ∀ raw', ((name, raw') : Text × Json) ≠ (first, raw) := fun raw' heq =>
        hname (Prod.mk.inj heq).1.symm
      simp [hne, hname, Ne.symm hname]

/-- Every job that is written is parsed. -/
theorem parse_of_mem_parseJobMembers {jobs out : Obj JobDefinition} {members : List (Text × Json)}
    (h : parseJobMembers files jobs members = .ok out) :
    ∀ m ∈ members, ∃ job, parseJob files m.1 m.2 = .ok job := by
  induction members generalizing jobs with
  | nil => exact fun m hm => absurd hm List.not_mem_nil
  | cons m rest ih =>
    obtain ⟨first, raw⟩ := m
    unfold parseJobMembers at h
    split at h
    · exact absurd h (by simp)
    rename_i parsed hparsed
    exact List.forall_mem_cons.mpr ⟨⟨parsed, hparsed⟩, ih h⟩

/-- The objects of `package.json` have distinct keys. -/
theorem ParsedFrom.distinct (h : ParsedFrom files json manifest) {key : Text} {value : Json}
    (hmember : Json.member (kodyMembers json) key = some value) : DistinctKeys value := by
  have hjson := distinctKeys_jsonParse h.read
  unfold kodyMembers at hmember
  cases hkody : Json.member json "kody" with
  | none =>
    rw [hkody] at hmember
    exact absurd hmember (by simp [Json.record?, Json.member])
  | some kody =>
    rw [hkody] at hmember
    have hkeys := hjson.member hkody
    cases kody with
    | obj members => exact hkeys.member hmember
    | null => exact absurd hmember (by simp [Json.record?, Json.member])
    | bool b => exact absurd hmember (by simp [Json.record?, Json.member])
    | num n => exact absurd hmember (by simp [Json.record?, Json.member])
    | str s => exact absurd hmember (by simp [Json.record?, Json.member])
    | arr items => exact absurd hmember (by simp [Json.record?, Json.member])

/-- The jobs and the texts their entries were read from. -/
theorem written_jobs (h : ParsedFrom files json manifest) :
    Written files {raw | raw ∈ jobEntries json}
      {path | ∃ j ∈ manifest.jobs.entries, j.2.entry = path} := by
  have hjobs := h.jobs
  unfold parseJobs at hjobs
  unfold jobEntries
  split at hjobs
  · rename_i hnone
    rw [← Except.ok.inj hjobs, hnone]
    constructor
    · rintro _ ⟨j, hj, -⟩
      exact absurd hj List.not_mem_nil
    · exact fun raw hraw => absurd hraw List.not_mem_nil
    · rintro _ ⟨j, hj, -⟩
      exact absurd hj List.not_mem_nil
  · rename_i members hmembers
    have hnodup : (members.map Prod.fst).Nodup := by
      cases h.distinct hmembers with
      | obj hnodup _ => exact hnodup
    have hget := get?_parseJobMembers hjobs hnodup
    have hparse := parse_of_mem_parseJobMembers hjobs
    have hjob : ∀ j ∈ manifest.jobs.entries, ∃ raw, (j.1, raw) ∈ members ∧
        parseJob files j.1 raw = .ok j.2 := by
      rintro ⟨name, job⟩ hj
      rcases (hget name job).mp (Obj.get?_eq_some_iff.mpr hj) with hmem | ⟨-, hnone⟩
      · exact hmem
      · exact absurd hnone (by simp)
    rw [hmembers]
    constructor
    · rintro _ ⟨j, hj, rfl⟩
      obtain ⟨raw, hmem, hraw⟩ := hjob j hj
      obtain ⟨-, text, htext, hentry, -⟩ := parseJob_entry hraw
      exact ⟨text, List.mem_filterMap.mpr ⟨_, hmem, htext⟩, hentry⟩
    · intro text hwritten
      obtain ⟨⟨name, raw⟩, hmem, htext⟩ := List.mem_filterMap.mp hwritten
      obtain ⟨job, hraw⟩ := hparse _ hmem
      obtain ⟨-, text', htext', hentry, -⟩ := parseJob_entry hraw
      obtain rfl := Option.some.inj (htext'.symm.trans htext)
      have hkept := (hget name job).mpr (.inl ⟨raw, hmem, hraw⟩)
      exact ⟨job.entry, ⟨(name, job), Obj.get?_eq_some_iff.mp hkept, rfl⟩, hentry⟩
    · rintro _ ⟨j, hj, rfl⟩
      obtain ⟨raw, -, hraw⟩ := hjob j hj
      obtain ⟨-, -, -, -, hfound⟩ := parseJob_entry hraw
      exact hfound
  · exact absurd hjobs (by simp)

theorem parseSubscription_handler {topic : Text} {raw : Json} {s : SubscriptionDefinition}
    (h : parseSubscription files topic raw = .ok s) :
    ∃ text, fieldText "handler" raw = some text ∧ normalizeModulePath text = .ok s.handler ∧
      files.hasProperty s.handler = true := by
  unfold parseSubscription at h
  extract_lets required afterRaw afterTopic at h
  have htopic : afterTopic () = .ok s := by
    split at h
    · obtain ⟨_, hbad, -⟩ := bind_eq_ok h
      cases hbad
    · exact h
  obtain ⟨members, rfl, hrest⟩ : ∃ members, raw = .obj members ∧ afterRaw members = .ok s := by
    unfold afterTopic at htopic
    split at htopic
    · exact ⟨_, rfl, htopic⟩
    · obtain ⟨_, hbad, -⟩ := bind_eq_ok htopic
      cases hbad
  unfold afterRaw at hrest
  extract_lets afterHandler at hrest
  split at hrest
  · rename_i text htext
    obtain ⟨handler, hhandler, hrest⟩ := bind_eq_ok hrest
    unfold afterHandler at hrest
    extract_lets afterFound at hrest
    obtain ⟨hfound, hs⟩ := of_guard hrest
    rw [← Except.ok.inj hs]
    exact ⟨text, htext, hhandler, by simpa using hfound⟩
  · obtain ⟨_, hbad, -⟩ := bind_eq_ok hrest
    cases hbad

/-- The subscriptions and the texts their handlers were read from. -/
theorem written_subscriptions (h : ParsedFrom files json manifest) :
    Written files {raw | raw ∈ handlers json}
      {path | ∃ s ∈ manifest.subscriptions, s.handler = path} := by
  have hsubscriptions := h.subscriptions
  unfold parseSubscriptions at hsubscriptions
  unfold handlers
  split at hsubscriptions
  · rename_i hnone
    rw [← Except.ok.inj hsubscriptions, hnone]
    constructor
    · rintro _ ⟨s, hs, -⟩
      exact absurd hs List.not_mem_nil
    · exact fun raw hraw => absurd hraw List.not_mem_nil
    · rintro _ ⟨s, hs, -⟩
      exact absurd hs List.not_mem_nil
  · rename_i topics htopics
    obtain ⟨hfor, hback⟩ := mapM_eq_ok hsubscriptions
    rw [htopics]
    constructor
    · rintro _ ⟨s, hs, rfl⟩
      obtain ⟨topic, hmem, hparse⟩ := hback s hs
      obtain ⟨text, htext, hhandler, -⟩ := parseSubscription_handler hparse
      exact ⟨text, List.mem_filterMap.mpr ⟨topic, hmem, htext⟩, hhandler⟩
    · intro text hwritten
      obtain ⟨topic, hmem, htext⟩ := List.mem_filterMap.mp hwritten
      obtain ⟨s, hs, hparse⟩ := hfor topic hmem
      obtain ⟨text', htext', hhandler, -⟩ := parseSubscription_handler hparse
      obtain rfl := Option.some.inj (htext'.symm.trans htext)
      exact ⟨s.handler, ⟨s, hs, rfl⟩, hhandler⟩
    · rintro _ ⟨s, hs, rfl⟩
      obtain ⟨topic, -, hparse⟩ := hback s hs
      obtain ⟨-, -, -, hfound⟩ := parseSubscription_handler hparse
      exact hfound
  · exact absurd hsubscriptions (by simp)

/-! ### The app -/

/-- The assets of an app hold a file. -/
theorem parseAppAssets_file {raw : Json} {assets : Text} (h : parseAppAssets raw files = .ok assets) :
    ∃ file ∈ files.keys, assets ++ ['/'] <+: file := by
  unfold parseAppAssets at h
  extract_lets afterPath at h
  obtain ⟨dir, hrest⟩ : ∃ dir, afterPath dir = .ok assets := by
    split at h
    · obtain ⟨dir, -, hrest⟩ := bind_eq_ok h
      exact ⟨dir, hrest⟩
    · obtain ⟨_, hbad, -⟩ := bind_eq_ok h
      cases hbad
  unfold afterPath at hrest
  extract_lets root inside afterInside at hrest
  split at hrest
  · obtain ⟨_, hbad, -⟩ := bind_eq_ok hrest
    cases hbad
  · rename_i hinside
    have hdir : dir = assets := by
      unfold afterInside at hrest
      split at hrest
      · exact absurd hrest (by simp [throw, throwThe, MonadExceptOf.throw])
      · exact Except.ok.inj hrest
    obtain ⟨file, hfile⟩ := List.exists_mem_of_ne_nil _ hinside
    obtain ⟨hkey, hstart⟩ := List.mem_filter.mp hfile
    rw [← hdir]
    exact ⟨file, hkey, List.isPrefixOf_iff_prefix.mp hstart⟩

theorem parseAppClient_path {raw : Json} (h : parseAppClient raw files = .ok ()) :
    ∀ text ∈ clientText raw, ∃ path, normalizeModulePath text = .ok path ∧
      files.hasProperty path = true := by
  unfold parseAppClient at h
  extract_lets afterEntry at h
  have hafter : ∀ text, afterEntry text = .ok () → ∃ path, normalizeModulePath text = .ok path ∧
      files.hasProperty path = true := by
    intro text hrest
    unfold afterEntry at hrest
    obtain ⟨path, hpath, hfound⟩ := bind_eq_ok hrest
    refine ⟨path, hpath, ?_⟩
    by_contra hnone
    rw [Bool.not_eq_true] at hnone
    simp [hnone, throw, throwThe, MonadExceptOf.throw] at hfound
  intro text htext
  cases raw with
  | str path =>
    obtain rfl := Option.some.inj htext
    exact hafter path h
  | obj members =>
    have hmember : Json.text? (Json.member members "entry") = some text := htext
    dsimp only at h
    rw [hmember] at h
    exact hafter text h
  | null => exact absurd htext (by simp [clientText, fieldText])
  | bool b => exact absurd htext (by simp [clientText, fieldText])
  | num n => exact absurd htext (by simp [clientText, fieldText])
  | arr items => exact absurd htext (by simp [clientText, fieldText])

/-- What an app was read from. -/
theorem parseApp_entry {raw : Json} {app : Option AppDefinition}
    (h : parseApp (some raw) files = .ok app) : ∃ members text a, raw = .obj members ∧
      Json.text? (Json.member members "entry") = some text ∧ app = some a ∧
      normalizeModulePath text = .ok a.entry ∧ files.hasProperty a.entry = true ∧
      (∀ assets ∈ a.assets, ∃ file ∈ files.keys, assets ++ ['/'] <+: file) ∧
      ∀ client ∈ Json.member members "client", parseAppClient client files = .ok () := by
  cases raw with
  | obj members =>
    refine ⟨members, ?_⟩
    unfold parseApp at h
    dsimp -zeta only at h
    extract_lets afterEntry afterRuntime at h
    obtain ⟨-, hrest⟩ := of_guard h
    unfold afterRuntime at hrest
    split at hrest
    · rename_i text htext
      obtain ⟨entry, hentry, hrest⟩ := bind_eq_ok hrest
      unfold afterEntry at hrest
      extract_lets afterAssets afterCode afterFound at hrest
      obtain ⟨hfound, hrest⟩ := of_guard hrest
      obtain ⟨-, hcode⟩ := of_guard hrest
      obtain ⟨assets, hassets, hafter⟩ : ∃ assets : Option Text,
          (∀ dir ∈ assets, ∃ file ∈ files.keys, dir ++ ['/'] <+: file) ∧
            afterAssets assets = .ok app := by
        unfold afterCode at hcode
        split at hcode
        · exact ⟨none, fun dir hdir => absurd hdir (by simp), hcode⟩
        · obtain ⟨dir, hdir, hcode⟩ := bind_eq_ok hcode
          refine ⟨some dir, ?_, hcode⟩
          rintro _ ⟨⟩
          exact parseAppAssets_file hdir
      unfold afterAssets at hafter
      split at hafter
      · rename_i hnone
        refine ⟨text, _, rfl, htext, (Except.ok.inj hafter).symm, hentry, by simpa using hfound,
          hassets, ?_⟩
        rw [hnone]
        exact fun client hclient => absurd hclient (by simp)
      · rename_i client hclient
        obtain ⟨_, hparse, hafter⟩ := bind_eq_ok hafter
        refine ⟨text, _, rfl, htext, (Except.ok.inj hafter).symm, hentry, by simpa using hfound,
          hassets, ?_⟩
        rw [hclient]
        rintro _ ⟨⟩
        exact hparse
    · obtain ⟨_, hbad, -⟩ := bind_eq_ok hrest
      cases hbad
  | null => exact absurd h (by simp [parseApp, throw, throwThe, MonadExceptOf.throw])
  | bool b => exact absurd h (by simp [parseApp, throw, throwThe, MonadExceptOf.throw])
  | num n => exact absurd h (by simp [parseApp, throw, throwThe, MonadExceptOf.throw])
  | str s => exact absurd h (by simp [parseApp, throw, throwThe, MonadExceptOf.throw])
  | arr items => exact absurd h (by simp [parseApp, throw, throwThe, MonadExceptOf.throw])

/-- The app and the text its entry was read from. -/
theorem written_app (h : ParsedFrom files json manifest) :
    Written files {raw | raw ∈ appEntries json} {path | ∃ a ∈ manifest.app, a.entry = path} ∧
    Written files {raw | raw ∈ appClients json}
      {path | ∃ raw ∈ appClients json, normalizeModulePath raw = .ok path} ∧
    ∀ a ∈ manifest.app, ∀ assets ∈ a.assets, ∃ file ∈ files.keys, assets ++ ['/'] <+: file := by
  have happ := h.app
  unfold appEntries appClients
  cases hmember : Json.member (kodyMembers json) "app" with
  | none =>
    rw [hmember] at happ
    have hnone : manifest.app = none := (Except.ok.inj happ).symm
    rw [hnone]
    refine ⟨⟨?_, ?_, ?_⟩, ⟨?_, ?_, ?_⟩, ?_⟩
    all_goals simp
  | some raw =>
    rw [hmember] at happ
    obtain ⟨members, text, a, rfl, htext, happ, hentry, hfound, hassets, hclient⟩ :=
      parseApp_entry happ
    rw [happ]
    have hfield : fieldText "entry" (.obj members) = some text := htext
    refine ⟨⟨?_, ?_, ?_⟩, ⟨?_, ?_, ?_⟩, ?_⟩
    · rintro _ ⟨_, ⟨⟩, rfl⟩
      exact ⟨text, List.mem_filterMap.mpr ⟨_, List.mem_cons_self, hfield⟩, hentry⟩
    · intro raw hraw
      obtain ⟨_, hobj, hraw⟩ := List.mem_filterMap.mp hraw
      rw [Option.toList_some, List.mem_singleton] at hobj
      subst hobj
      obtain rfl := Option.some.inj (hfield.symm.trans hraw)
      exact ⟨a.entry, ⟨a, rfl, rfl⟩, hentry⟩
    · rintro _ ⟨_, ⟨⟩, rfl⟩
      exact hfound
    · rintro path ⟨raw, hraw, hpath⟩
      exact ⟨raw, hraw, hpath⟩
    · intro raw hraw
      obtain ⟨client, hmem, htext⟩ := List.mem_filterMap.mp hraw
      obtain ⟨path, hpath, -⟩ :=
        parseAppClient_path (hclient client (Option.mem_toList.mp hmem)) raw htext
      exact ⟨path, ⟨raw, hraw, hpath⟩, hpath⟩
    · rintro path ⟨raw, hraw, hpath⟩
      obtain ⟨client, hmem, htext⟩ := List.mem_filterMap.mp hraw
      obtain ⟨path', hpath', hfound⟩ :=
        parseAppClient_path (hclient client (Option.mem_toList.mp hmem)) raw htext
      rw [← Except.ok.inj (hpath'.symm.trans hpath)]
      exact hfound
    · rintro _ ⟨⟩
      exact hassets

/-! ### The secret provider and the webhooks -/

/-- The provider's entry is the export of that name. -/
theorem parseSecretProvider_entry {raw : Option Json} {exports : Obj Text}
    {provider : Option SecretProviderDefinition}
    (h : parseSecretProvider raw exports = .ok provider) :
    raw.isSome = provider.isSome ∧
      ∀ p ∈ provider, exports.get? secretProviderExportName = some p.entry := by
  unfold parseSecretProvider at h
  split at h
  · rw [← Except.ok.inj h]
    simp
  · split at h
    · exact absurd h (by simp)
    · split at h
      · exact absurd h (by simp)
      · split at h
        · exact absurd h (by simp)
        · rename_i entry hentry
          rw [← Except.ok.inj h]
          refine ⟨rfl, ?_⟩
          rintro _ ⟨⟩
          exact hentry
  · exact absurd h (by simp)

theorem parseWebhook_export {exports : Obj Text} {seen : List Text} {raw : Json}
    {w : WebhookDefinition} (h : parseWebhook exports seen raw = .ok w) :
    ∃ text, fieldText "export" raw = some text ∧ w.exportName = exportKey text ∧
      exportEntry exports w.exportName = some w.entry := by
  unfold parseWebhook at h
  extract_lets afterItem at h
  obtain ⟨item, name, rfl, hitem⟩ : ∃ item name, raw = .obj item ∧
      afterItem (item, name) = .ok w := by
    split at h
    · split at h
      · exact ⟨_, _, rfl, h⟩
      · obtain ⟨_, hbad, -⟩ := bind_eq_ok h
        cases hbad
    · obtain ⟨_, hbad, -⟩ := bind_eq_ok h
      cases hbad
  unfold afterItem at hitem
  dsimp -zeta only at hitem
  extract_lets here afterDeclared afterSeen afterName at hitem
  obtain ⟨-, hname⟩ := of_guard hitem
  unfold afterName at hname
  have hseen : afterSeen () = .ok w := by
    split at hname
    · obtain ⟨_, hbad, -⟩ := bind_eq_ok hname
      cases hbad
    · exact hname
  unfold afterSeen at hseen
  obtain ⟨declared, htext, hdeclared⟩ : ∃ declared, fieldText "export" (.obj item) = some declared ∧
      afterDeclared declared = .ok w := by
    split at hseen
    · rename_i declared htext
      split at hseen
      · obtain ⟨_, hbad, -⟩ := bind_eq_ok hseen
        cases hbad
      · exact ⟨declared, htext, hseen⟩
    · obtain ⟨_, hbad, -⟩ := bind_eq_ok hseen
      cases hbad
  unfold afterDeclared at hdeclared
  extract_lets exportName afterEntry at hdeclared
  obtain ⟨entry, hentry, hafter⟩ : ∃ entry, exportEntry exports exportName = some entry ∧
      afterEntry entry = .ok w := by
    split at hdeclared
    · rename_i entry hentry
      exact ⟨entry, hentry, hdeclared⟩
    · obtain ⟨_, hbad, -⟩ := bind_eq_ok hdeclared
      cases hbad
  unfold afterEntry at hafter
  extract_lets afterResponse at hafter
  -- The remaining fields do not touch the export and its entry.
  obtain ⟨response, hresponse⟩ : ∃ response, afterResponse response = .ok w := by
    split at hafter
    · split at hafter
      · exact ⟨_, hafter⟩
      · split at hafter
        · exact ⟨_, hafter⟩
        · obtain ⟨_, hbad, -⟩ := bind_eq_ok hafter
          cases hbad
    · obtain ⟨_, hbad, -⟩ := bind_eq_ok hafter
      cases hbad
  unfold afterResponse at hresponse
  extract_lets afterInput at hresponse
  obtain ⟨input, hinput⟩ : ∃ input, afterInput input = .ok w := by
    split at hresponse
    · split at hresponse
      · exact ⟨_, hresponse⟩
      · split at hresponse
        · exact ⟨_, hresponse⟩
        · obtain ⟨_, hbad, -⟩ := bind_eq_ok hresponse
          cases hbad
    · obtain ⟨_, hbad, -⟩ := bind_eq_ok hresponse
      cases hbad
  unfold afterInput at hinput
  extract_lets afterRate at hinput
  obtain ⟨rate, hrate⟩ : ∃ rate, afterRate rate = .ok w := by
    split at hinput
    · exact ⟨_, hinput⟩
    · obtain ⟨_, hbad, -⟩ := bind_eq_ok hinput
      cases hbad
  unfold afterRate at hrate
  extract_lets afterVerification at hrate
  obtain ⟨verification, hverification⟩ : ∃ v, afterVerification v = .ok w := by
    split at hrate
    · exact ⟨_, hrate⟩
    · obtain ⟨v, -, hrate⟩ := bind_eq_ok hrate
      exact ⟨some v, hrate⟩
  unfold afterVerification at hverification
  extract_lets afterReplay at hverification
  obtain ⟨replay, hreplay⟩ : ∃ r, afterReplay r = .ok w := by
    split at hverification
    · exact ⟨_, hverification⟩
    · obtain ⟨r, -, hverification⟩ := bind_eq_ok hverification
      exact ⟨some r, hverification⟩
  unfold afterReplay at hreplay
  extract_lets afterCheck at hreplay
  have hw : afterCheck () = .ok w := by
    split at hreplay
    · obtain ⟨_, hbad, -⟩ := bind_eq_ok hreplay
      cases hbad
    · exact hreplay
  rw [← Except.ok.inj hw]
  exact ⟨declared, htext, rfl, hentry⟩

/-- The webhooks and the texts of their exports. -/
theorem parseWebhookItems_exports {exports : Obj Text} {webhooks out : List WebhookDefinition}
    {items : List Json} (h : parseWebhookItems exports webhooks items = .ok out) :
    (∀ w ∈ out, w ∈ webhooks ∨ ∃ text ∈ items.filterMap (fieldText "export"),
      w.exportName = exportKey text ∧ exportEntry exports w.exportName = some w.entry) ∧
    (∀ w ∈ webhooks, w ∈ out) ∧
    ∀ text ∈ items.filterMap (fieldText "export"), ∃ w ∈ out,
      w.exportName = exportKey text ∧ exportEntry exports w.exportName = some w.entry := by
  induction items generalizing webhooks with
  | nil =>
    obtain rfl : webhooks = out := Except.ok.inj h
    exact ⟨fun w hw => .inl hw, fun w hw => hw, fun text htext => absurd htext List.not_mem_nil⟩
  | cons item items ih =>
    unfold parseWebhookItems at h
    split at h
    · exact absurd h (by simp)
    rename_i parsed hparsed
    obtain ⟨text, htext, hname, hentry⟩ := parseWebhook_export hparsed
    obtain ⟨hback, hkept, hfor⟩ := ih h
    rw [List.filterMap_cons_some htext]
    refine ⟨?_, fun w hw => hkept w (List.mem_append_left _ hw), ?_⟩
    · intro w hw
      rcases hback w hw with hw | ⟨text', hmem, hw⟩
      · rcases List.mem_append.mp hw with hw | hw
        · exact .inl hw
        · obtain rfl := List.mem_singleton.mp hw
          exact .inr ⟨text, List.mem_cons_self, hname, hentry⟩
      · exact .inr ⟨text', List.mem_cons_of_mem _ hmem, hw⟩
    · intro text' hmem
      rcases List.mem_cons.mp hmem with rfl | hmem
      · exact ⟨parsed, hkept parsed (List.mem_append_right _ List.mem_cons_self), hname, hentry⟩
      · exact hfor text' hmem

/-- The webhooks of a manifest and the texts of their exports. -/
theorem webhooks_exports (h : ParsedFrom files json manifest) :
    (∀ w ∈ manifest.webhooks, ∃ text ∈ webhookExports json, w.exportName = exportKey text ∧
      exportEntry manifest.exports w.exportName = some w.entry) ∧
    ∀ text ∈ webhookExports json, ∃ w ∈ manifest.webhooks, w.exportName = exportKey text ∧
      exportEntry manifest.exports w.exportName = some w.entry := by
  have hwebhooks := h.webhooks
  unfold parseWebhooks at hwebhooks
  unfold webhookExports
  split at hwebhooks
  · rename_i hnone
    rw [← Except.ok.inj hwebhooks, hnone]
    exact ⟨fun w hw => absurd hw List.not_mem_nil, fun text htext => absurd htext List.not_mem_nil⟩
  · rename_i items hitems
    obtain ⟨hback, -, hfor⟩ := parseWebhookItems_exports hwebhooks
    rw [hitems]
    exact ⟨fun w hw => (hback w hw).resolve_left List.not_mem_nil, hfor⟩
  · exact absurd hwebhooks (by simp)

/-! ### The manifests whose paths exist -/

/-- An export is found where the name that it is run under is declared. -/
theorem findsExport_iff (h : ParsedFrom files json manifest)
    (hown : ∀ e ∈ manifest.exports.entries, e.2 ∈ files.keys) (name : Text) :
    FindsExport files manifest name ↔ (writtenExport json (runKey name)).isSome = true := by
  have hget := get?_exports h.exports (runKey name)
  unfold FindsExport resolvePackageExport exportEntry
  cases hwritten : writtenExport json (runKey name) with
  | none =>
    rw [hwritten] at hget
    dsimp only at hget ⊢
    rw [hget]
    refine iff_of_false ?_ (by simp)
    rintro ⟨path, -, hpath⟩
    by_cases hinherited : runKey name ∈ objectPrototype
    · simp [hinherited] at hpath
    · simp [hinherited] at hpath
  | some raw =>
    rw [hwritten] at hget
    obtain ⟨path, hpath, hget⟩ := hget
    have hne : path ≠ [] := by
      rintro rfl
      exact ((plainPath_of_normalize hpath).1 [] List.mem_cons_self).1 rfl
    obtain ⟨c, rest, rfl⟩ := List.exists_cons_of_ne_nil hne
    dsimp only
    rw [hget]
    exact iff_of_true ⟨_, hown _ (Obj.get?_eq_some_iff.mp hget), rfl⟩ rfl

/-- The exports of a manifest are files and are found. -/
theorem exports_found_iff (h : ParsedFrom files json manifest) :
    (∀ e ∈ manifest.exports.entries, e.2 ∈ files.keys ∧ FindsExport files manifest e.1) ↔
      (∀ name, ∀ raw ∈ writtenExport json name, OwnPath files raw) ∧
      ∀ name, (writtenExport json name).isSome = true → runKey name ≠ name →
        (writtenExport json (runKey name)).isSome = true := by
  have hown : (∀ e ∈ manifest.exports.entries, e.2 ∈ files.keys) ↔
      ∀ name, ∀ raw ∈ writtenExport json name, OwnPath files raw := by
    have hiff := (written_exports h).own_iff
    constructor
    · intro hkeys name raw hraw
      refine hiff.mp ?_ raw ⟨name, hraw⟩
      rintro _ ⟨e, he, rfl⟩
      exact hkeys e he
    · intro hraws e he
      refine hiff.mpr ?_ e.2 ⟨e, he, rfl⟩
      rintro raw ⟨name, hraw⟩
      exact hraws name raw hraw
  constructor
  · intro hexports
    have hkeys := fun e he => (hexports e he).1
    refine ⟨hown.mp hkeys, fun name hname _ => ?_⟩
    rw [← isSome_exports h.exports] at hname
    obtain ⟨path, hpath⟩ := Option.isSome_iff_exists.mp hname
    have hmem := Obj.get?_eq_some_iff.mp hpath
    exact (findsExport_iff h hkeys name).mp (hexports _ hmem).2
  · rintro ⟨hraws, hshort⟩ e he
    have hkeys := hown.mpr hraws
    refine ⟨hkeys e he, (findsExport_iff h hkeys e.1).mpr ?_⟩
    have hname : (writtenExport json e.1).isSome = true := by
      rw [← isSome_exports h.exports, Obj.get?_eq_some_iff.mpr he]
      rfl
    by_cases hkey : runKey e.1 = e.1
    · rw [hkey]
      exact hname
    · exact hshort e.1 hname hkey

/-- The exports of the webhooks are declared. -/
theorem webhooks_found_iff (h : ParsedFrom files json manifest)
    (hexports : ∀ e ∈ manifest.exports.entries, e.2 ∈ files.keys ∧ FindsExport files manifest e.1) :
    (∀ w ∈ manifest.webhooks, (∃ path ∈ files.keys, w.entry = .path path ∧
        manifest.exports.get? w.exportName = some path) ∧
        FindsExport files manifest w.exportName) ↔
      ∀ raw ∈ webhookExports json, exportKey raw ∈ objectPrototype →
        (writtenExport json (exportKey raw)).isSome = true := by
  obtain ⟨hback, hfor⟩ := webhooks_exports h
  constructor
  · intro hwebhooks raw hraw _
    obtain ⟨w, hw, hname, -⟩ := hfor raw hraw
    obtain ⟨⟨path, -, -, hget⟩, -⟩ := hwebhooks w hw
    rw [← hname, ← isSome_exports h.exports, hget]
    rfl
  · intro hraws w hw
    obtain ⟨raw, hraw, hname, hentry⟩ := hback w hw
    cases hget : manifest.exports.get? w.exportName with
    | some path =>
      have hpath : w.entry = .path path := by
        rw [exportEntry, hget] at hentry
        exact (Option.some.inj hentry).symm
      obtain ⟨hkey, hfinds⟩ := hexports _ (Obj.get?_eq_some_iff.mp hget)
      exact ⟨⟨path, hkey, hpath, rfl⟩, hfinds⟩
    | none =>
      -- The name was found among those that every object inherits.
      rw [exportEntry, hget] at hentry
      dsimp only at hentry
      split at hentry
      · rename_i hinherited
        rw [hname] at hinherited hget
        have hsome := hraws raw hraw hinherited
        rw [← isSome_exports h.exports, hget] at hsome
        exact absurd hsome (by simp)
      · exact absurd hentry (by simp)

/-- The entry of the provider is found. -/
theorem provider_found_iff (h : ParsedFrom files json manifest)
    (hown : ∀ e ∈ manifest.exports.entries, e.2 ∈ files.keys) :
    (∀ p ∈ manifest.secretProvider, p.entry ∈ files.keys ∧
        manifest.exports.get? secretProviderExportName = some p.entry ∧
        FindsFile files p.entry) ↔
      (declaresProvider json = true →
        ∀ raw ∈ writtenExport json secretProviderExportName, Rereads files raw) := by
  obtain ⟨hdeclared, hentry⟩ := parseSecretProvider_entry h.secretProvider
  have hget := get?_exports h.exports secretProviderExportName
  constructor
  · intro hprovider hdeclares raw hraw path hpath _
    rw [declaresProvider, hdeclared] at hdeclares
    obtain ⟨p, hp⟩ := Option.isSome_iff_exists.mp hdeclares
    obtain ⟨-, hexport, hfinds⟩ := hprovider p hp
    rw [hraw] at hget
    obtain ⟨path', hpath', hget⟩ := hget
    obtain rfl := Except.ok.inj (hpath'.symm.trans hpath)
    rw [hexport] at hget
    rw [← Option.some.inj hget]
    exact hfinds
  · intro hraws p hp
    have hexport := hentry p hp
    have hkey := hown _ (Obj.get?_eq_some_iff.mp hexport)
    refine ⟨hkey, hexport, ?_⟩
    split at hget
    · rename_i raw hraw
      obtain ⟨path, hpath, hget⟩ := hget
      obtain rfl : p.entry = path := Option.some.inj (hexport.symm.trans hget)
      by_cases htrim : trim p.entry = p.entry
      · exact ⟨p.entry, hkey, normalizeModulePath_again hpath htrim⟩
      · refine hraws ?_ raw hraw p.entry hpath htrim
        rw [declaresProvider, hdeclared, hp]
        rfl
    · exact absurd (hexport.symm.trans hget) (by simp)

/-- **The paths of a manifest exist** and its exports are declared, and runs of them find these,
    exactly if `package.json` names files. -/
theorem manifest_paths_exist {tools : Toolchain}
    (h : parsePackageManifest tools files = .ok manifest)
    (hjson : jsonParse ((files.get? "package.json").getD []) = some (.obj json)) :
    PathsExist files json manifest ↔ NamesFiles files json := by
  obtain ⟨json', hparsed⟩ := parsePackageManifest_parts h
  obtain rfl := Json.obj.inj (Option.some.inj (hparsed.read.symm.trans hjson))
  obtain ⟨happ, hclient, hassets⟩ := written_app hparsed
  have hjobs := (written_jobs hparsed).finds_iff
  have hsubscriptions := (written_subscriptions hparsed).finds_iff
  have happ := happ.finds_iff
  have hclient := hclient.own_iff
  simp only [Set.mem_ofPred_eq, forall_exists_index, and_imp,
    forall_apply_eq_imp_iff₂] at hjobs hsubscriptions happ hclient
  have hexports := exports_found_iff hparsed
  constructor
  · intro hpaths
    obtain ⟨hown, hshort⟩ := hexports.mp hpaths.exports
    exact {
      exports := hown
      shortened := hshort
      jobs := hjobs.mp hpaths.jobs
      webhooks := (webhooks_found_iff hparsed hpaths.exports).mp hpaths.webhooks
      subscriptions := hsubscriptions.mp hpaths.subscriptions
      app := happ.mp hpaths.app
      client := by
        refine hclient.mp ?_
        intro path raw hraw hpath
        obtain ⟨path', hkey, hpath'⟩ := hpaths.client raw hraw
        rw [← Except.ok.inj (hpath'.symm.trans hpath)]
        exact hkey
      secretProvider := (provider_found_iff hparsed
        fun e he => (hpaths.exports e he).1).mp hpaths.secretProvider }
  · intro hnames
    have hfound := hexports.mpr ⟨hnames.exports, hnames.shortened⟩
    exact {
      exports := hfound
      jobs := hjobs.mpr hnames.jobs
      webhooks := (webhooks_found_iff hparsed hfound).mpr hnames.webhooks
      subscriptions := hsubscriptions.mpr hnames.subscriptions
      app := happ.mpr hnames.app
      assets := hassets
      client := by
        intro raw hraw
        obtain ⟨path, ⟨raw', hraw', hpath'⟩, hpath⟩ := (written_app hparsed).2.1.kept raw hraw
        exact ⟨path, hclient.mpr hnames.client path raw' hraw' hpath', hpath⟩
      secretProvider := (provider_found_iff hparsed
        fun e he => (hfound e he).1).mpr hnames.secretProvider }

/-! ### Two packages -/

/-- Tools that find no imports. -/
def noImports : Toolchain where
  parse _ _ := .ok []
  transform _ _ text := .ok text
  stripJsonComments text := text
  jsonSyntaxError _ := []

/-- A package with one module, and a `main` that names a path. -/
def mainPackage (path : Text) : PackageFiles where
  entries := [("package.json", jsonObject [("name", jsonString "notes"), ("main", jsonString path)]),
    ("index.js", "export default 1"), ("README.md", "Notes"), ("AGENTS.md", "Notes")]
  nodup := show (["package.json", "index.js", "README.md", "AGENTS.md"] : List Text).Nodup by decide

theorem mainPackage_json (path : Text) :
    jsonParse (((mainPackage path).get? "package.json").getD []) =
      some (.obj [("name", .str "notes"), ("main", .str path)]) :=
  @jsonParse_jsonObject [("name", .text "notes"), ("main", .text path)]
    (show (["name", "main"] : List Text).Nodup by decide)
    (show ∀ key ∈ (["name", "main"] : List Text), arrayIndex? key = none by decide)

/-- An accepted package and its default export. -/
theorem mainPackage_accepted {path : Text}
    (h : ((parsePackageManifest noImports (mainPackage path)).toOption.bind fun m =>
      m.exports.get? ".") = some path) :
    ∃ manifest, parsePackageManifest noImports (mainPackage path) = .ok manifest ∧
      manifest.exports.get? "." = some path := by
  cases hparse : parsePackageManifest noImports (mainPackage path) with
  | error e =>
    rw [hparse] at h
    exact absurd h (by simp [Except.toOption])
  | ok manifest =>
    rw [hparse] at h
    exact ⟨manifest, rfl, h⟩

/-- The only path of a package whose `main` is `index.js` is a file. -/
theorem mainPackage_paths_exist : ∃ manifest,
    parsePackageManifest noImports (mainPackage "index.js") = .ok manifest ∧
    PathsExist (mainPackage "index.js") [("name", .str "notes"), ("main", .str "index.js")]
      manifest := by
  obtain ⟨manifest, hparse, -⟩ := @mainPackage_accepted "index.js" (by decide +kernel)
  refine ⟨manifest, hparse, (manifest_paths_exist hparse (mainPackage_json "index.js")).mpr ?_⟩
  have hwritten : ∀ name : Text, writtenExport [("name", .str "notes"), ("main", .str "index.js")]
      name = if name = "." then some "index.js" else none := by
    intro name
    by_cases hname : name = "."
    · rw [hname]
      rfl
    · have hother : exportKey "." ≠ name := fun h => hname h.symm
      rw [if_neg hname, writtenExport]
      split
      · rfl
      · have htexts : exportTexts [("name", .str "notes"), ("main", .str "index.js")] =
            ([(".", .str "index.js")] : List (Text × Json)) := rfl
        rw [htexts, List.reverse_singleton, List.find?_cons_of_neg (by simpa using hother)]
        rfl
  have hown : OwnPath (mainPackage "index.js") "index.js" := by
    intro path hpath hnormal
    have hindex : normalizeModulePath "index.js" = .ok "index.js" := by decide +kernel
    rw [← Except.ok.inj (hindex.symm.trans hnormal)]
    exact List.mem_cons_of_mem _ List.mem_cons_self
  constructor
  · intro name raw hraw
    rw [hwritten] at hraw
    split at hraw
    · rw [← Option.some.inj hraw]
      exact hown
    · exact absurd hraw (by simp)
  · intro name hname hkey
    rw [hwritten] at hname
    split at hname
    · rename_i hdot
      rw [hdot] at hkey
      exact absurd rfl hkey
    · exact absurd hname (by simp)
  · exact fun raw hraw => absurd hraw List.not_mem_nil
  · exact fun raw hraw => absurd hraw List.not_mem_nil
  · exact fun raw hraw => absurd hraw List.not_mem_nil
  · exact fun raw hraw => absurd hraw List.not_mem_nil
  · exact fun raw hraw => absurd hraw List.not_mem_nil
  · intro hdeclares
    exact absurd hdeclares (by decide)

/-- A package is accepted whose `main` is `constructor`, which is no file. -/
theorem mainPackage_constructor : ¬ ∀ tools files json manifest,
    parsePackageManifest tools files = .ok manifest →
    jsonParse ((files.get? "package.json").getD []) = some (.obj json) →
      PathsExist files json manifest := by
  intro h
  obtain ⟨manifest, hparse, hget⟩ := @mainPackage_accepted "constructor" (by decide +kernel)
  have hpaths := h noImports (mainPackage "constructor") _ manifest hparse
    (mainPackage_json "constructor")
  have hkey := (hpaths.exports _ (Obj.get?_eq_some_iff.mp hget)).1
  exact absurd hkey (by decide)

end KodyCelld.Packages
