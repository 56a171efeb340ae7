import KodyCelld.Lib.Json
import KodyCelld.Lib.Separators
import Mathlib.Data.List.Sort

namespace KodyCelld.Execute

open KodyCelld.Lib

/-!
# The names of isolates (`graphHash` and `executeRun` of `execute/engine.ts`)

An isolate is named by a hash of the user and of every module's name and source, joined with U+0000
and U+0001; a run uses the isolate of that name, if there is one, and loads its own modules if not.

* `pieces` — the modules of a graph, cut at every U+0001;
* `graphText_eq_iff`, `graphHash_separates` — when two graphs of users are hashed as one text;
* `runs_own` — **no run uses an isolate that was loaded for another graph**, when no two graphs have
  the same pieces.
-/

/-- The code units of a text in UTF-16. -/
def utf16Units (text : Text) : List ℕ :=
  text.flatMap fun c =>
    if c.toNat < 0x10000 then [c.toNat]
    else [0xd800 + (c.toNat - 0x10000) / 0x400, 0xdc00 + (c.toNat - 0x10000) % 0x400]

/-- `Object.keys(modules).sort()`: in the order of code units. -/
def sortedKeys (modules : Obj Text) : List Text :=
  modules.keys.insertionSort fun a b => utf16Units a ≤ utf16Units b

/-- The name and the source of a module. -/
def modulePart (modules : Obj Text) (key : Text) : Text :=
  key ++ '\x00' :: (modules.get? key).getD []

def moduleParts (modules : Obj Text) : List Text := (sortedKeys modules).map (modulePart modules)

/-- The id of a user, which `randomId` writes with letters, digits and a line. -/
def UserId : Type := { id : Text // '\x00' ∉ id }

/-- A run's user and the modules of its graph. -/
structure UserGraph where
  user : UserId
  modules : Obj Text

namespace UserGraph

/-- What `graphHash` hashes. -/
def graphText (graph : UserGraph) : Text :=
  graph.user.val ++ '\x00' :: join '\x01' (moduleParts graph.modules)

/-- The modules of a graph, in the order of their names, cut at every U+0001. -/
def pieces (graph : UserGraph) : List Text := cut '\x01' (moduleParts graph.modules)

/-- The same module under every name. -/
def SameModules (a b : UserGraph) : Prop := ∀ key, a.modules.get? key = b.modules.get? key

/-- Two runs have different users or different modules. -/
def Differ (a b : UserGraph) : Prop := a.user ≠ b.user ∨ ¬ a.SameModules b

/-! ### Names in order -/

/-- Code units decide a character and what follows it. -/
theorem units_inj {c d : Char} {s t : List ℕ}
    (h : (if c.toNat < 0x10000 then [c.toNat]
        else [0xd800 + (c.toNat - 0x10000) / 0x400, 0xdc00 + (c.toNat - 0x10000) % 0x400]) ++ s =
      (if d.toNat < 0x10000 then [d.toNat]
        else [0xd800 + (d.toNat - 0x10000) / 0x400, 0xdc00 + (d.toNat - 0x10000) % 0x400]) ++ t) :
    c = d ∧ s = t := by
  have hc : c.toNat < 0xd800 ∨ 0xdfff < c.toNat ∧ c.toNat < 0x110000 := c.valid
  have hd : d.toNat < 0xd800 ∨ 0xdfff < d.toNat ∧ d.toNat < 0x110000 := d.valid
  rw [← Char.toNat_inj]
  split_ifs at h with hsmall hsmall' hsmall'
  · obtain ⟨hunit, hrest⟩ := List.cons.inj h
    exact ⟨hunit, hrest⟩
  · -- a character outside the surrogates against a leading surrogate
    obtain ⟨hunit, -⟩ := List.cons.inj h
    omega
  · obtain ⟨hunit, -⟩ := List.cons.inj h
    omega
  · obtain ⟨hlead, htail⟩ := List.cons.inj h
    obtain ⟨htrail, hrest⟩ := List.cons.inj htail
    exact ⟨by omega, hrest⟩

theorem utf16Units_injective : Function.Injective utf16Units := by
  intro a b h
  induction a generalizing b with
  | nil =>
    cases b with
    | nil => rfl
    | cons d b =>
      exfalso
      rw [utf16Units, utf16Units, List.flatMap_cons] at h
      split at h <;> exact absurd h (by simp)
  | cons c a ih =>
    cases b with
    | nil =>
      exfalso
      rw [utf16Units, utf16Units, List.flatMap_cons] at h
      split at h <;> exact absurd h (by simp)
    | cons d b =>
      obtain ⟨rfl, hrest⟩ := units_inj h
      rw [ih hrest]

theorem mem_sortedKeys {modules : Obj Text} {key : Text} :
    key ∈ sortedKeys modules ↔ ∃ source, modules.get? key = some source := by
  rw [sortedKeys, (List.perm_insertionSort _ _).mem_iff, Obj.keys, List.mem_map]
  constructor
  · rintro ⟨⟨k, source⟩, hentry, rfl⟩
    exact ⟨source, Obj.get?_eq_some_iff.mpr hentry⟩
  · rintro ⟨source, hsource⟩
    exact ⟨_, Obj.get?_eq_some_iff.mp hsource, rfl⟩

/-- The same modules have the same names in the same order. -/
theorem sortedKeys_congr {a b : Obj Text} (h : ∀ key, a.get? key = b.get? key) :
    sortedKeys a = sortedKeys b := by
  have hperm : (sortedKeys a).Perm (sortedKeys b) := by
    have hnodup : ∀ modules : Obj Text, (sortedKeys modules).Nodup := fun modules =>
      (List.perm_insertionSort _ _).nodup_iff.mpr modules.nodup
    refine (List.perm_ext_iff_of_nodup (hnodup a) (hnodup b)).mpr fun key => ?_
    rw [mem_sortedKeys, mem_sortedKeys, h]
  have hsorted : ∀ modules : Obj Text,
      (sortedKeys modules).Pairwise fun a b => utf16Units a ≤ utf16Units b := fun modules => by
    have : Std.Total fun a b : Text => utf16Units a ≤ utf16Units b :=
      ⟨fun a b => le_total (utf16Units a) (utf16Units b)⟩
    have : IsTrans Text fun a b => utf16Units a ≤ utf16Units b := ⟨fun _ _ _ => le_trans⟩
    exact List.pairwise_insertionSort _ _
  exact hperm.eq_of_pairwise (fun x y _ _ hxy hyx => utf16Units_injective (le_antisymm hxy hyx))
    (hsorted a) (hsorted b)

/-! ### The text that is hashed -/

/-- The parts of modules are not empty, and neither is what they are joined to. -/
theorem join_parts_eq_iff {a b : Obj Text} :
    join '\x01' (moduleParts a) = join '\x01' (moduleParts b) ↔
      cut '\x01' (moduleParts a) = cut '\x01' (moduleParts b) := by
  have hne : ∀ modules : Obj Text, moduleParts modules ≠ [] →
      join '\x01' (moduleParts modules) ≠ [] ∧ cut '\x01' (moduleParts modules) ≠ [] := by
    intro modules hparts
    constructor
    · obtain ⟨part, rest, hcons⟩ := List.exists_cons_of_ne_nil hparts
      intro hnil
      -- the first part holds the character after its name
      have hpart : part ∈ moduleParts modules := by
        rw [hcons]
        exact List.mem_cons_self
      obtain ⟨key, -, rfl⟩ := List.mem_map.mp hpart
      have hprefix := @prefix_join '\x01' (modulePart modules key) rest
      rw [← hcons, hnil, List.prefix_nil] at hprefix
      exact absurd hprefix (by simp [modulePart])
    · rw [← splitOn_join hparts]
      exact List.splitOn_ne_nil _ _
  by_cases ha : moduleParts a = []
  · by_cases hb : moduleParts b = []
    · rw [ha, hb]
      exact ⟨fun _ => rfl, fun _ => rfl⟩
    · obtain ⟨hjoin, hcut⟩ := hne b hb
      rw [ha]
      exact ⟨fun h => absurd h.symm hjoin, fun h => absurd h.symm hcut⟩
  · by_cases hb : moduleParts b = []
    · obtain ⟨hjoin, hcut⟩ := hne a ha
      rw [hb]
      exact ⟨fun h => absurd h hjoin, fun h => absurd h hcut⟩
    · exact join_eq_iff ha hb

/-- **Two graphs are hashed as one text** exactly if they have one user and the same pieces. -/
theorem graphText_eq_iff {a b : UserGraph} :
    a.graphText = b.graphText ↔ a.user = b.user ∧ a.pieces = b.pieces := by
  rw [graphText, graphText, append_cons_inj a.user.property b.user.property, join_parts_eq_iff]
  exact and_congr_left fun _ => Subtype.ext_iff.symm

/-- **The hash separates graphs**: two graphs that differ are hashed as different texts, exactly if,
    for one user, graphs with the same pieces have the same modules. -/
theorem graphHash_separates {a b : UserGraph} :
    (a.Differ b → a.graphText ≠ b.graphText) ↔
      (a.user = b.user → a.pieces = b.pieces → a.SameModules b) := by
  constructor
  · intro h huser hpieces
    by_contra hdiffer
    exact h (.inr hdiffer) (graphText_eq_iff.mpr ⟨huser, hpieces⟩)
  · rintro h hdiffer heq
    obtain ⟨huser, hpieces⟩ := graphText_eq_iff.mp heq
    exact hdiffer.elim (fun hne => hne huser) fun hne => hne (h huser hpieces)

/-- Neither name nor source of a module holds a character that separates them. -/
def Clean (graph : UserGraph) : Prop :=
  ∀ key source, graph.modules.get? key = some source →
    '\x00' ∉ key ∧ '\x01' ∉ key ∧ '\x01' ∉ source

theorem modulePart_of_get? {modules : Obj Text} {key source : Text}
    (h : modules.get? key = some source) : modulePart modules key = key ++ '\x00' :: source := by
  rw [modulePart, h]
  rfl

theorem Clean.pieces_eq {graph : UserGraph} (h : graph.Clean) :
    graph.pieces = moduleParts graph.modules := by
  refine cut_eq_self fun part hpart hmem => ?_
  obtain ⟨key, hkey, rfl⟩ := List.mem_map.mp hpart
  obtain ⟨source, hsource⟩ := mem_sortedKeys.mp hkey
  obtain ⟨-, hname, hbody⟩ := h key source hsource
  rw [modulePart_of_get? hsource] at hmem
  rcases List.mem_append.mp hmem with hmem | hmem
  · exact hname hmem
  · rcases List.mem_cons.mp hmem with heq | hmem
    · exact absurd heq (by decide)
    · exact hbody hmem

/-- **Clean graphs are separated**: with the same pieces they have the same modules. -/
theorem Clean.sameModules {a b : UserGraph} (ha : a.Clean) (hb : b.Clean)
    (h : a.pieces = b.pieces) : a.SameModules b := by
  have hfound : ∀ {a b : UserGraph}, a.Clean → b.Clean → a.pieces = b.pieces →
      ∀ key source, a.modules.get? key = some source → b.modules.get? key = some source := by
    intro a b ha hb h key source hsource
    rw [ha.pieces_eq, hb.pieces_eq] at h
    have hpart : modulePart a.modules key ∈ moduleParts b.modules := by
      rw [← h]
      exact List.mem_map_of_mem (mem_sortedKeys.mpr ⟨source, hsource⟩)
    obtain ⟨other, hother, heq⟩ := List.mem_map.mp hpart
    obtain ⟨source', hsource'⟩ := mem_sortedKeys.mp hother
    rw [modulePart_of_get? hsource, modulePart_of_get? hsource', append_cons_inj
      (hb other source' hsource').1 (ha key source hsource).1] at heq
    rw [← heq.1, ← heq.2]
    exact hsource'
  intro key
  refine Option.ext fun source => ⟨hfound ha hb h key source, hfound hb ha h.symm key source⟩

/-! ### Runs -/

/-- A run, with the isolates that the runtime has let go when it starts. -/
structure IsolateRun where
  graph : UserGraph
  dropped : Text → Bool

variable (sha256Hex : Text → Text)

def isolateName (graph : UserGraph) : Text := "kody-" ++ sha256Hex graph.graphText

/-- The graph of each run with the graph that its isolate was loaded for. -/
def executeRuns : (loaded : List (Text × UserGraph)) → List IsolateRun →
    List (UserGraph × UserGraph)
  | _, [] => []
  | loaded, run :: rest =>
    let kept := loaded.filter fun e => !run.dropped e.1
    match kept.find? fun e => e.1 = isolateName sha256Hex run.graph with
    | some e => (run.graph, e.2) :: executeRuns kept rest
    | none =>
      (run.graph, run.graph) ::
        executeRuns ((isolateName sha256Hex run.graph, run.graph) :: kept) rest

/-- **No run uses an isolate of another graph**, where hashes are injective and no two of the graphs
    have one user, the same pieces and different modules. -/
theorem runs_own (hsha : Function.Injective sha256Hex) {graphs : List UserGraph}
    (hgraphs : ∀ a ∈ graphs, ∀ b ∈ graphs, a.user = b.user → a.pieces = b.pieces → a.SameModules b)
    {runs : List IsolateRun} (hruns : ∀ run ∈ runs, run.graph ∈ graphs)
    {loaded : List (Text × UserGraph)}
    (hloaded : ∀ e ∈ loaded, e.2 ∈ graphs ∧ e.1 = isolateName sha256Hex e.2) :
    ∀ e ∈ executeRuns sha256Hex loaded runs, ¬ e.1.Differ e.2 := by
  induction runs generalizing loaded with
  | nil => exact fun e he => absurd he List.not_mem_nil
  | cons run rest ih =>
    have hrun := hruns run List.mem_cons_self
    have hrest := fun r hr => hruns r (List.mem_cons_of_mem _ hr)
    have hkept : ∀ e ∈ loaded.filter (fun e => !run.dropped e.1),
        e.2 ∈ graphs ∧ e.1 = isolateName sha256Hex e.2 :=
      fun e he => hloaded e (List.mem_of_mem_filter he)
    intro e he
    rw [executeRuns] at he
    split at he
    · rename_i found hfound
      rcases List.mem_cons.mp he with rfl | he
      · -- the name of the isolate is that of the run
        obtain ⟨hgraph, hname⟩ := hkept found (List.mem_of_find?_eq_some hfound)
        have hsame : found.1 = isolateName sha256Hex run.graph := by
          simpa using List.find?_some hfound
        have htext : run.graph.graphText = found.2.graphText :=
          hsha (List.append_cancel_left (hsame.symm.trans hname))
        obtain ⟨huser, hpieces⟩ := graphText_eq_iff.mp htext
        exact fun hdiffer => hdiffer.elim (fun hne => hne huser)
          fun hne => hne (hgraphs _ hrun _ hgraph huser hpieces)
      · exact ih hrest hkept e he
    · rcases List.mem_cons.mp he with rfl | he
      · exact fun hdiffer => hdiffer.elim (fun hne => hne rfl) fun hne => hne fun key => rfl
      · refine ih hrest (fun f hf => ?_) e he
        rcases List.mem_cons.mp hf with rfl | hf
        · exact ⟨hrun, rfl⟩
        · exact hkept f hf

def someUser : UserId := ⟨"user_1", by decide⟩

/-- A graph whose module holds the text of another one. -/
def foldedGraph : UserGraph where
  user := someUser
  modules := ((Obj.empty : Obj Text).set "packages/@o/p/a.js"
    "export default 1 //\x01packages/@o/p/b.js\x00export default 2").set "wrapper.js" "run"

def unfoldedGraph : UserGraph where
  user := someUser
  modules := (((Obj.empty : Obj Text).set "packages/@o/p/a.js" "export default 1 //").set
    "packages/@o/p/b.js"
    "export default 2").set "wrapper.js" "run"

/-- Graphs with different modules are hashed as one text. -/
theorem graphText_collides :
    foldedGraph.Differ unfoldedGraph ∧ foldedGraph.graphText = unfoldedGraph.graphText := by
  constructor
  · refine .inr fun hsame => ?_
    exact absurd (hsame "packages/@o/p/b.js") (by decide +kernel)
  · decide +kernel

end UserGraph

end KodyCelld.Execute
