import KodyCelld.Lib.Machine
import KodyCelld.Packages.CommunityStore
import Mathlib.Data.Option.Basic

namespace KodyCelld.Packages.Community

open KodyCelld.Lib KodyCelld.Cells

/-!
# The community catalogue over whole runs

The two tables of the catalogue against its history: every call, with what it returned or threw.
The history alone says of each name since when it has been listed, by whom, with which last copy
and how many installs (`listing`); the tables agree with it after every run.

* `listing` — what a history says about a name;
* `perform_agrees` — one call keeps the tables in agreement with the history;
* `catalogue_over_runs` — the catalogue after a whole run.
-/

/-! ### Calls and histories -/

inductive Call where
  | publish (input : PublishInput) (now : ℕ)
  | unpublish (userId name : Text)
  | unpublishAll (userId : Text)
  | recordInstall (name : Text)

inductive Answer where
  | published (pkg : Option CommunityPackage)
  | unpublished (removed : Bool)
  | unpublishedAll (count : ℕ)
  | recorded

/-- The user a call is made for; an install is recorded for nobody. -/
def Call.user : Call → Option Text
  | .publish input _ => some input.userId
  | .unpublish userId _ => some userId
  | .unpublishAll userId => some userId
  | .recordInstall _ => none

variable (host : Host)

def perform : Call → CommunityStore → Except Thrown Answer × CommunityStore
  | .publish input now, store =>
    (publish host input now store).map (Except.map .published) id
  | .unpublish userId name, store =>
    (unpublish host userId name store).map (Except.map .unpublished) id
  | .unpublishAll userId, store =>
    (unpublishAll host userId store).map (Except.map .unpublishedAll) id
  | .recordInstall name, store =>
    (recordInstall host name store).map (Except.map fun _ => .recorded) id

/-- A call with its outcome. -/
abbrev Entry := Call × Except Thrown Answer

/-- The tables, and every call so far with its outcome, the latest first. -/
structure State where
  store : CommunityStore
  log : List Entry

def State.empty : State where
  store := { listings := .empty, files := .empty }
  log := []

def step (s : State) (call : Call) : Option State :=
  let (result, store) := perform host call s.store
  some { store := store, log := (call, result) :: s.log }

/-- The call does not throw, or throws in validation: SQLite refuses no text of it. -/
def ThrowsInValidation (s : State) (call : Call) : Prop :=
  (perform host call s.store).1 ≠ .error tooBig

/-! ### What a history says about a name -/

/-- A name since it was last unlisted: who published it first, what was published last, and the
    installs recorded since. -/
structure Listing where
  owner : Text
  copy : PublishInput
  installs : ℕ

/-- What one more entry of the history means for a name. -/
def advance (name : Text) : Entry → Option Listing → Option Listing
  | (.publish input _, .ok _), known =>
    if input.name = name then
      some (known.elim ⟨input.userId, input, 0⟩ fun l => { l with copy := input })
    else known
  | (.unpublish _ n, .ok (.unpublished true)), known => if n = name then none else known
  | (.unpublishAll userId, .ok _), known => known.filter fun l => decide (l.owner ≠ userId)
  | (.recordInstall n, .ok _), known =>
    if n = name then known.map fun l => { l with installs := l.installs + 1 } else known
  | _, known => known

/-- What the history says about a name. -/
def listing (name : Text) : List Entry → Option Listing
  | [] => none
  | entry :: earlier => advance name entry (listing name earlier)

/-! ### Agreement -/

/-- The row of a listed name. -/
structure RowOf (row : CommunityRow) (l : Listing) : Prop where
  owner : row.userId = l.owner
  version : row.version = l.copy.version
  description : row.description = l.copy.manifest.description
  manifest : row.manifest = l.copy.manifest
  installs : row.installs = l.installs

/-- The file row that a listing has at a path. -/
def fileOf (name path : Text) (l : Option Listing) : Option PackageFileRow :=
  (l.bind fun l => l.copy.files.get? path).map fun content =>
    { packageName := name, path := path, content := content }

/-- **The tables agree with what is known of each name**, and nobody lists too many. -/
structure Agrees (store : CommunityStore) (known : Text → Option Listing) : Prop where
  rows : ∀ name, Option.Rel RowOf (store.listings.find? name) (known name)
  files : ∀ name path, store.files.find? (name, path) = fileOf name path (known name)
  room : ∀ userId, (listedBy userId store).length ≤ maxPerUser

variable {host}
variable {store : CommunityStore} {known : Text → Option Listing}

theorem Agrees.listed (h : Agrees store known) {name : Text} {l : Listing}
    (hl : known name = some l) : ∃ row, store.listings.find? name = some row ∧ RowOf row l := by
  have hrel := h.rows name
  rw [hl] at hrel
  generalize hfind : store.listings.find? name = found at hrel
  cases hrel with
  | some hrow => exact ⟨_, rfl, hrow⟩

theorem Agrees.isKnown (h : Agrees store known) {name : Text} {row : CommunityRow}
    (hrow : store.listings.find? name = some row) : ∃ l, known name = some l ∧ RowOf row l := by
  have hrel := h.rows name
  rw [hrow] at hrel
  generalize hl : known name = l at hrel
  cases hrel with
  | some hrow => exact ⟨_, rfl, hrow⟩

theorem Agrees.unlisted (h : Agrees store known) {name : Text} :
    store.listings.find? name = none ↔ known name = none := by
  have hrel := h.rows name
  generalize store.listings.find? name = found at hrel
  generalize known name = l at hrel
  cases hrel with
  | some hrow => simp
  | none => simp

/-! ### Counting a user's names -/

/-- The names of a user as a sum over the rows. -/
theorem length_listedBy (userId : Text) (store : CommunityStore) :
    (listedBy userId store).length =
      (store.listings.rows.map fun row => if row.userId = userId then 1 else 0).sum := by
  unfold listedBy
  induction store.listings.rows with
  | nil => rfl
  | cons row rest ih =>
    rw [List.map_cons, List.sum_cons, ← ih, List.filter_cons]
    by_cases h : row.userId = userId
    · simp [h, Nat.add_comm]
    · simp [h]

/-- A publish adds a name to its user's, if it was not listed, and leaves the others' alone. -/
theorem length_listedBy_published {input : PublishInput} {now : ℕ} (userId : Text) :
    (listedBy userId (published input now store)).length = (listedBy userId store).length +
      if store.listings.find? input.name = none ∧ input.userId = userId then 1 else 0 := by
  rw [length_listedBy, length_listedBy, published_listings]
  have hsum := Rows.sum_upsert store.listings (newListing input now) (republished input now)
    (fun _ => rfl) fun row => if row.userId = userId then 1 else 0
  have hname : (newListing input now).name = input.name := rfl
  rw [hname] at hsum
  cases hfind : store.listings.find? input.name with
  | none =>
    rw [hfind] at hsum
    have huser : (newListing input now).userId = input.userId := rfl
    rw [Option.map_none, Option.getD_none, Option.elim_none, huser] at hsum
    simpa using hsum
  | some row =>
    rw [hfind] at hsum
    have hsame : (republished input now row).userId = row.userId := rfl
    rw [Option.map_some, Option.getD_some, Option.elim_some, hsame] at hsum
    rw [if_neg (by simp)]
    omega

/-! ### One call -/

/-- A `publish` that succeeds. -/
theorem published_agrees {input : PublishInput} {now : ℕ} (h : Agrees store known)
    (haccept : Accepted host input store) :
    Agrees (published input now store) fun name =>
      if input.name = name then
        some ((known name).elim ⟨input.userId, input, 0⟩ fun l => { l with copy := input })
      else known name where
  rows := by
    intro name
    rw [find?_published_listings]
    split
    · rename_i hname
      subst hname
      refine Option.Rel.some ?_
      have hrel := h.rows input.name
      generalize store.listings.find? input.name = found at hrel
      generalize known input.name = l at hrel
      cases hrel with
      | none => exact ⟨rfl, rfl, rfl, rfl, rfl⟩
      | some hrow => exact ⟨hrow.owner, rfl, rfl, rfl, hrow.installs⟩
    · exact h.rows name
  files := by
    intro name path
    rw [find?_published_files]
    by_cases hname : name = input.name
    · subst hname
      rw [if_pos rfl, if_pos rfl]
      cases known input.name with
      | none => rfl
      | some l => rfl
    · rw [if_neg hname, if_neg (Ne.symm hname)]
      exact h.files name path
  room := by
    intro userId
    rw [length_listedBy_published]
    split
    · rename_i hnew
      have hroom := haccept.room hnew.1
      rw [hnew.2] at hroom
      omega
    · exact h.room userId

/-- Deleting some listings together with their files. -/
theorem removed_agrees (h : Agrees store known) (gone : Text → Bool) {store' : CommunityStore}
    (hlistings : ∀ name, store'.listings.find? name =
      if gone name then none else store.listings.find? name)
    (hfiles : ∀ key : Text × Text, store'.files.find? key =
      if gone key.1 then none else store.files.find? key)
    (hroom : ∀ userId, (listedBy userId store').length ≤ (listedBy userId store).length) :
    Agrees store' fun name => if gone name then none else known name where
  rows := by
    intro name
    rw [hlistings]
    split
    · exact Option.Rel.none
    · exact h.rows name
  files := by
    intro name path
    rw [hfiles]
    show (if gone name then none else _) = _
    split
    · rfl
    · exact h.files name path
  room := fun userId => (hroom userId).trans (h.room userId)

/-- The names of a user are not more once rows are deleted. -/
theorem length_listedBy_filter (userId : Text) (keep : CommunityRow → Bool)
    (files : Rows PackageFileRow.key) :
    (listedBy userId { listings := store.listings.filter keep, files := files }).length ≤
      (listedBy userId store).length :=
  (List.Sublist.filter _ List.filter_sublist).length_le

/-- An `unpublish` of one's own name. -/
theorem unpublished_agrees (h : Agrees store known) (name : Text) :
    Agrees (deletePackageFiles name
        { store with listings := store.listings.filter fun row => decide (row.name ≠ name) })
      fun n => if name = n then none else known n := by
  have hkey : (fun n => if name = n then none else known n) =
      fun n => if decide (name = n) = true then none else known n := by
    funext n
    simp only [decide_eq_true_eq]
  rw [hkey]
  refine removed_agrees h (fun n => decide (name = n)) (fun n => ?_) (fun key => ?_)
    fun userId => ?_
  · show (store.listings.filter _).find? n = _
    rw [Rows.find?_filter]
    cases hfind : store.listings.find? n with
    | none => simp
    | some row =>
      have hrow : row.name = n := (Rows.find?_eq_some.mp hfind).2
      by_cases hn : name = n
      · simp [hrow, hn]
      · simp [hrow, hn, Ne.symm hn]
  · rw [find?_deletePackageFiles]
    by_cases hk : key.1 = name
    · simp [hk]
    · simp [hk, Ne.symm hk]
  · exact length_listedBy_filter userId _ _

/-- The files after those of several names are deleted. -/
theorem deleteAll_spec (names : List Text) (store : CommunityStore) :
    (names.foldl (fun store name => deletePackageFiles name store) store).listings =
        store.listings ∧
      ∀ key : Text × Text,
        (names.foldl (fun store name => deletePackageFiles name store) store).files.find? key =
          if key.1 ∈ names then none else store.files.find? key := by
  induction names generalizing store with
  | nil => exact ⟨rfl, fun key => rfl⟩
  | cons name rest ih =>
    obtain ⟨hlistings, hfiles⟩ := ih (deletePackageFiles name store)
    refine ⟨hlistings, fun key => ?_⟩
    rw [List.foldl_cons, hfiles, find?_deletePackageFiles]
    by_cases hrest : key.1 ∈ rest
    · simp [hrest]
    · simp [hrest]

/-- An `unpublishAll`. -/
theorem unpublishedAll_agrees (h : Agrees store known) (userId : Text) :
    Agrees
      (let names := (listedBy userId store).map CommunityRow.name
       let store := names.foldl (fun store name => deletePackageFiles name store) store
       { store with listings := store.listings.filter fun row => decide (row.userId ≠ userId) })
      fun name => (known name).filter fun l => decide (l.owner ≠ userId) := by
  obtain ⟨hlistings, hfiles⟩ := deleteAll_spec ((listedBy userId store).map CommunityRow.name) store
  -- the names that go are the ones the user owns
  have hgone : ∀ name, name ∈ (listedBy userId store).map CommunityRow.name ↔
      ∃ l, known name = some l ∧ l.owner = userId := by
    intro name
    constructor
    · intro hmem
      obtain ⟨row, hrow, rfl⟩ := List.mem_map.mp hmem
      obtain ⟨hrow, huser⟩ := List.mem_filter.mp hrow
      obtain ⟨l, hl, hof⟩ := h.isKnown (Rows.find?_eq_some.mpr ⟨hrow, rfl⟩)
      exact ⟨l, hl, hof.owner.symm.trans (of_decide_eq_true huser)⟩
    · rintro ⟨l, hl, howner⟩
      obtain ⟨row, hfind, hof⟩ := h.listed hl
      obtain ⟨hrow, rfl⟩ := Rows.find?_eq_some.mp hfind
      refine List.mem_map_of_mem (List.mem_filter.mpr ⟨hrow, ?_⟩)
      exact decide_eq_true (hof.owner.trans howner)
  have hknown : (fun name => (known name).filter fun l => decide (l.owner ≠ userId)) =
      fun name => if decide (name ∈ (listedBy userId store).map CommunityRow.name) = true then none
        else known name := by
    funext name
    simp only [decide_eq_true_eq, hgone]
    cases hl : known name with
    | none => simp
    | some l =>
      by_cases howner : l.owner = userId
      · simp [howner]
      · simp [howner]
  rw [hknown]
  refine removed_agrees h _ (fun name => ?_) (fun key => ?_) fun user => ?_
  · show (Rows.filter _ _).find? name = _
    rw [hlistings, Rows.find?_filter]
    simp only [decide_eq_true_eq, hgone]
    cases hfind : store.listings.find? name with
    | none =>
      rw [h.unlisted.mp hfind]
      simp
    | some row =>
      obtain ⟨l, hl, hof⟩ := h.isKnown hfind
      by_cases howner : l.owner = userId
      · simp [hl, hof.owner, howner]
      · simp [hl, hof.owner, howner]
  · show (List.foldl _ store _).files.find? key = _
    rw [hfiles]
    simp only [decide_eq_true_eq]
  · dsimp only
    rw [hlistings]
    exact length_listedBy_filter user _ _

/-- A recorded install. -/
theorem recorded_agrees (h : Agrees store known) (name : Text) :
    Agrees { store with
        listings := store.listings.map
          (fun row => if row.name = name then { row with installs := row.installs + 1 } else row)
          (fun row => by split <;> rfl) }
      fun n => if name = n then (known n).map fun l => { l with installs := l.installs + 1 }
        else known n where
  rows := by
    intro n
    rw [Rows.find?_mapAt]
    have hrel := h.rows n
    by_cases hn : n = name
    · rw [if_pos hn, if_pos hn.symm]
      generalize store.listings.find? n = found at hrel
      generalize known n = l at hrel
      cases hrel with
      | none => exact Option.Rel.none
      | some hrow =>
        exact Option.Rel.some
          ⟨hrow.owner, hrow.version, hrow.description, hrow.manifest,
            congrArg (· + 1) hrow.installs⟩
    · rw [if_neg hn, if_neg (Ne.symm hn)]
      exact hrel
  files := by
    intro n path
    show store.files.find? (n, path) = _
    rw [h.files n path]
    by_cases hn : name = n
    · rw [if_pos hn]
      cases known n with
      | none => rfl
      | some l => rfl
    · rw [if_neg hn]
  room := by
    intro userId
    refine le_trans (le_of_eq ?_) (h.room userId)
    rw [length_listedBy, length_listedBy]
    show (List.map _ (List.map _ store.listings.rows)).sum = _
    rw [List.map_map]
    congr 1
    refine List.map_congr_left fun row _ => ?_
    show (if CommunityRow.userId (if row.name = name then _ else _) = userId then 1 else 0) = _
    split <;> rfl

/-- **One call keeps the agreement**: what it returns or throws tells what it has done. -/
theorem perform_agrees {call : Call} (h : Agrees store known)
    (hvalid : (perform host call store).1 ≠ .error tooBig) :
    Agrees (perform host call store).2 fun name =>
      advance name (call, (perform host call store).1) (known name) := by
  cases call with
  | publish input now =>
    have hperform : perform host (.publish input now) store =
        (publish host input now store).map (Except.map .published) id := rfl
    rw [hperform] at hvalid ⊢
    rcases @publish_cases host input now store with
      ⟨e, -, hrejected⟩ | ⟨-, hfailed, -⟩ | ⟨haccept, -, hok⟩
    · rw [hrejected]
      exact h
    · exact absurd (congrArg (Except.map Answer.published) hfailed) hvalid
    · rw [hok]
      exact published_agrees h (acceptPublish_ok haccept)
  | unpublish userId name =>
    have hperform : perform host (.unpublish userId name) store =
        (unpublish host userId name store).map (Except.map .unpublished) id := rfl
    rw [hperform, unpublish]
    split
    · exact h
    split
    · exact h
    · split
      · exact h
      · exact unpublished_agrees h name
  | unpublishAll userId =>
    have hperform : perform host (.unpublishAll userId) store =
        (unpublishAll host userId store).map (Except.map .unpublishedAll) id := rfl
    rw [hperform, unpublishAll]
    split
    · exact h
    · exact unpublishedAll_agrees h userId
  | recordInstall name =>
    have hperform : perform host (.recordInstall name) store =
        (recordInstall host name store).map (Except.map fun _ => .recorded) id := rfl
    rw [hperform, recordInstall]
    split
    · exact h
    · exact recorded_agrees h name

/-- **Only its owner changes a listing.**  A call for somebody else leaves it as it is, and a
    recorded install changes the count alone. -/
theorem perform_owned {call : Call} (h : Agrees store known) {name : Text} {l : Listing}
    (hl : known name = some l) :
    let after := advance name (call, (perform host call store).1) (known name)
    after = some l ∨ call.user = some l.owner ∨
      call = .recordInstall name ∧ after = some { l with installs := l.installs + 1 } := by
  obtain ⟨row, hrow, hof⟩ := h.listed hl
  rw [hl]
  intro after
  cases call with
  | publish input now =>
    by_cases hname : input.name = name
    · rcases @publish_cases host input now store with
        ⟨e, -, hrejected⟩ | ⟨-, hfailed, -⟩ | ⟨haccept, -, -⟩
      · left
        show advance name (_, (publish host input now store).1.map _) (some l) = _
        rw [hrejected]
        rfl
      · left
        show advance name (_, (publish host input now store).1.map _) (some l) = _
        rw [hfailed]
        rfl
      · right
        left
        rw [← hname] at hrow
        exact congrArg some (((acceptPublish_ok haccept).owner row hrow).symm.trans hof.owner)
    · left
      show advance name (_, (publish host input now store).1.map _) (some l) = _
      cases (publish host input now store).1 with
      | error e => rfl
      | ok pkg => exact if_neg hname
  | unpublish userId n =>
    by_cases hname : n = name
    · subst hname
      by_cases howner : row.userId = userId
      · right
        left
        exact congrArg some (howner.symm.trans hof.owner)
      · left
        show advance n (_, (unpublish host userId n store).1.map _) (some l) = _
        unfold unpublish
        split
        · rfl
        · rw [hrow]
          dsimp only
          rw [if_pos howner]
          rfl
    · left
      show advance name (_, (unpublish host userId n store).1.map _) (some l) = _
      generalize (unpublish host userId n store).1 = result
      cases result with
      | error e => rfl
      | ok removed =>
        cases removed with
        | false => rfl
        | true => exact if_neg hname
  | unpublishAll userId =>
    by_cases howner : l.owner = userId
    · right
      left
      exact congrArg some howner.symm
    · left
      show advance name (_, (unpublishAll host userId store).1.map _) (some l) = _
      cases (unpublishAll host userId store).1 with
      | error e => rfl
      | ok n =>
        show (some l).filter (fun l => decide (l.owner ≠ userId)) = some l
        rw [Option.filter_some, if_pos (decide_eq_true howner)]
  | recordInstall n =>
    by_cases hfits : BindsFit host [n]
    · have hperform : (perform host (.recordInstall n) store).1 = .ok .recorded := by
        show (recordInstall host n store).1.map _ = _
        rw [recordInstall, if_neg (not_not.mpr hfits)]
        rfl
      by_cases hname : n = name
      · subst hname
        refine .inr (.inr ⟨rfl, ?_⟩)
        show advance n (_, (perform host (.recordInstall n) store).1) (some l) = _
        rw [hperform]
        exact if_pos rfl
      · left
        show advance name (_, (perform host (.recordInstall n) store).1) (some l) = _
        rw [hperform]
        exact if_neg hname
    · left
      show advance name (_, (recordInstall host n store).1.map _) (some l) = _
      rw [recordInstall, if_pos hfits]
      rfl

/-! ### Whole runs -/

/-- A package that is a copy of what was published last. -/
structure CopyOf (pkg : CommunityPackage) (l : Listing) : Prop where
  version : pkg.version = l.copy.version
  description : pkg.description = l.copy.manifest.description
  manifest : pkg.manifest = l.copy.manifest
  files : ∀ path, pkg.files.get? path = l.copy.files.get? path
  installs : pkg.installs = l.installs

/-- In a history: only calls of its owner change a listing, and a recorded install changes its
    count. -/
def OwnerChanges (log : List Entry) : Prop :=
  ∀ call result earlier, ((call, result) :: earlier) <:+ log → ∀ name l,
    listing name earlier = some l → listing name ((call, result) :: earlier) ≠ some l →
      call.user = some l.owner ∨ call = .recordInstall name ∧
        listing name ((call, result) :: earlier) = some { l with installs := l.installs + 1 }

/-- **The catalogue is what its history says.** -/
structure CatalogueOk (s : State) : Prop where
  /-- a listed name is owned by the user who published it first -/
  owner : ∀ name, (s.store.listings.find? name).map CommunityRow.userId =
    (listing name s.log).map Listing.owner
  owned : OwnerChanges s.log
  room : ∀ userId, (listedBy userId s.store).length ≤ maxPerUser
  /-- `get` returns the last copy -/
  copy : ∀ name, Option.Rel CopyOf (get name s.store) (listing name s.log)
  /-- every file row belongs to a listed name -/
  files : ∀ f ∈ s.store.files.rows, (s.store.listings.find? f.packageName).isSome

/-- What is read of a listed name is a copy of what was published last. -/
theorem copyOf_toPackage (h : Agrees store known) {row : CommunityRow} {l : Listing}
    (hl : known row.name = some l) (hof : RowOf row l) : CopyOf (toPackage row store) l where
  version := hof.version
  description := hof.description
  manifest := hof.manifest
  files := by
    intro path
    show (readPackageFiles row.name store).get? path = _
    by_cases hpath : path = "__proto__"
    · rw [hpath, readPackageFiles_assigned, l.copy.assigned]
    · rw [get?_readPackageFiles row.name hpath, h.files, hl]
      show ((l.copy.files.get? path).map _).map PackageFileRow.content = _
      cases l.copy.files.get? path with
      | none => rfl
      | some content => rfl
  installs := hof.installs

/-- In a catalogue that agrees with its history, every part of the claim but the ownership of the
    changes can be read off. -/
theorem catalogueOk_of_agrees {s : State} (h : Agrees s.store fun name => listing name s.log)
    (howned : OwnerChanges s.log) : CatalogueOk s where
  owner := by
    intro name
    have hrel := h.rows name
    generalize s.store.listings.find? name = found at hrel
    generalize listing name s.log = l at hrel
    cases hrel with
    | none => rfl
    | some hof => exact congrArg some hof.owner
  owned := howned
  room := h.room
  copy := by
    intro name
    unfold get
    cases hfind : s.store.listings.find? name with
    | none =>
      rw [show listing name s.log = none from h.unlisted.mp hfind]
      exact Option.Rel.none
    | some row =>
      obtain ⟨l, hl, hof⟩ := h.isKnown hfind
      have hname : row.name = name := (Rows.find?_eq_some.mp hfind).2
      subst hname
      rw [show listing row.name s.log = some l from hl]
      exact Option.Rel.some (copyOf_toPackage h hl hof)
  files := by
    intro f hf
    have hfile := h.files f.packageName f.path
    have hfind : s.store.files.find? (f.packageName, f.path) = some f :=
      Rows.find?_eq_some.mpr ⟨hf, rfl⟩
    rw [hfind] at hfile
    cases hlisted : s.store.listings.find? f.packageName with
    | some row => rfl
    | none =>
      have hnone : listing f.packageName s.log = none := h.unlisted.mp hlisted
      rw [hnone] at hfile
      exact absurd hfile nofun

/-- **The catalogue over whole runs.**  After any calls by any users, none of which throws outside
    validation: a listed name belongs to the user who first published it since it was last
    unlisted, and only calls of that user changed it; no user lists more than `maxPerUser` names;
    `get` returns the files, version, description and manifest of the last successful publish, with
    the installs recorded since; and every stored file belongs to a listed name. -/
theorem catalogue_over_runs (host : Host) {s : State}
    (h : Lib.Reaches (step host) (ThrowsInValidation host) State.empty s) : CatalogueOk s := by
  have hinv : Agrees s.store (fun name => listing name s.log) ∧ OwnerChanges s.log := by
    refine Lib.Reaches.invariant
      (fun s => Agrees s.store (fun name => listing name s.log) ∧ OwnerChanges s.log) ?_ h ?_
    · rintro s call s' ⟨hagrees, howned⟩ hvalid hstep
      have hs' := Option.some.inj hstep
      subst hs'
      refine ⟨perform_agrees hagrees hvalid, fun call' result earlier hsuffix name l hl hne => ?_⟩
      -- the entry is the new one, or one of the old ones
      rcases List.suffix_cons_iff.mp hsuffix with heq | hold
      · obtain ⟨hentry, rfl⟩ := List.cons.inj heq
        obtain ⟨rfl, rfl⟩ := Prod.mk.inj hentry
        exact (perform_owned hagrees hl).resolve_left hne
      · exact howned call' result earlier hold name l hl hne
    · refine ⟨⟨fun name => Option.Rel.none, fun name path => rfl, fun userId => Nat.zero_le _⟩, ?_⟩
      intro call result earlier hsuffix
      exact absurd (List.eq_nil_of_suffix_nil hsuffix) nofun
  exact catalogueOk_of_agrees hinv.1 hinv.2

/-- The guard of a run, computed. -/
def throwsInValidation (s : State) (call : Call) : Bool :=
  match (perform plainHost call s.store).1 with
  | .ok _ => true
  | .error e => decide (e ≠ tooBig)

theorem throwsInValidation_iff (s : State) (call : Call) (h : throwsInValidation s call = true) :
    ThrowsInValidation plainHost s call := by
  unfold throwsInValidation at h
  intro heq
  rw [heq] at h
  exact absurd h (by decide)

/-- One user publishes, another tries to take the name over and installs it, and the first one
    publishes again. -/
def notesCalls : List Call :=
  [.publish (notesInput "One") 1,
    .publish { notesInput "Mine" with userId := "user_mallory" } 2,
    .recordInstall "@me/notes",
    .unpublish "user_mallory" "@me/notes",
    .publish (notesInput "Two") 3]

theorem catalogue_over_runs_notes : ∃ s,
    execGuarded (step plainHost) throwsInValidation State.empty notesCalls = some s ∧
      s.store.listings.rows.map (fun row => (row.userId, row.installs)) =
        [(("user_me" : Text), 1)] ∧
      CatalogueOk s := by
  have hrun : ((execGuarded (step plainHost) throwsInValidation State.empty notesCalls).map fun s =>
      s.store.listings.rows.map fun row => (row.userId, row.installs)) =
        some [(("user_me" : Text), 1)] := by
    decide +kernel
  obtain ⟨s, hs, hrows⟩ := Option.map_eq_some_iff.mp hrun
  exact ⟨s, hs, hrows, catalogue_over_runs plainHost
    (reaches_of_execGuarded throwsInValidation_iff hs)⟩

end KodyCelld.Packages.Community
