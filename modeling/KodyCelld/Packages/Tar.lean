import KodyCelld.Errors
import KodyCelld.Lib.Bytes
import KodyCelld.Lib.Json
import KodyCelld.Execute.ImportSpecifiers

namespace KodyCelld.Packages

open KodyCelld.Lib
open KodyCelld.Execute

/-!
# Tar archives (`packages/tar.ts`)

A reader for ustar, pax and GNU archives that keeps the regular files.

* `paxRecords` — the records of an extended header;
* `readMember` — one header with its data, under the names that headers before it announced;
* `readTar` — the archive, header by header;
* `Listed` — the files of an archive, without the limits and the order of reading;
* `mem_readTar_iff` — an archive that is read gives the files that it lists, and no others.

A pax header may hold a record length that never gets the reader past it.  `steps` bounds the
records that are read in one header, and there is no result where more are needed.
-/

/-- `BLOCK` -/
def block : ℕ := 512

structure TarEntry where
  path : Text
  bytes : List UInt8
  deriving DecidableEq, Repr

structure TarLimits where
  maxFiles : ℕ
  maxTotalBytes : ℕ
  deriving DecidableEq, Repr

def invalidPackage (message : Text) : Thrown := .kody "invalid_package" message

/-! ### Header fields -/

def cString (bytes : List UInt8) (start length : ℕ) : Text :=
  utf8Decode ((subarray bytes start (start + length)).takeWhile (· ≠ 0))

def isOctalDigit (c : Char) : Bool := '0' ≤ c && c ≤ '7'

/-- `parseInt(text, 8)` reads a sign and the longest run of digits; a field holds at most twelve, so
    no digit is rounded away. -/
def octal (bytes : List UInt8) (start length : ℕ) : Except Thrown ℕ :=
  let text := trim (cString bytes start length)
  if text = [] then .ok 0
  else
    let (negative, rest) := match text with
      | '-' :: rest => (true, rest)
      | '+' :: rest => (false, rest)
      | rest => (false, rest)
    let digits := rest.takeWhile isOctalDigit
    let value := digits.foldl (fun n c => 8 * n + (c.toNat - '0'.toNat)) 0
    if digits = [] ∨ (negative ∧ value ≠ 0) then .error (invalidPackage "Malformed tar header.")
    else .ok value

def isZeroBlock (bytes : List UInt8) (offset : ℕ) : Bool :=
  (subarray bytes offset (offset + block)).all (· = 0)

/-! ### Extended headers -/

/-- `a + b` on numbers that stay far below overflow. -/
def addDouble (a b : ℚ) : ℚ :=
  match toDouble (a + b) with
  | .fin q => q
  | _ => a + b

/-- Where the length of a record ends.  An offset that is no integer indexes no byte, so no byte is
    found to be a space there. -/
def paxSpace (bytes : List UInt8) : (fuel : ℕ) → (space : ℚ) → ℚ
  | 0, space => space
  | fuel + 1, space =>
    if (bytes.length : ℚ) ≤ space then space
    else if space.den = 1 ∧ bytes[space.num.toNat]? = some 0x20 then space
    else paxSpace bytes fuel (addDouble space 1)

/-- The number as an index into bytes, as `subarray` truncates it. -/
def truncated (q : ℚ) : ℕ := ⌊q⌋.toNat

/-- The loop of `paxRecords`: each round takes the offset forward by the length that it reads, which
    may be any positive number. -/
def paxRecordsFrom (bytes : List UInt8) :
    (steps : ℕ) → (offset : ℚ) → (records : Obj Text) → Option (Obj Text)
  | 0, _, _ => none
  | steps + 1, offset, records =>
    if (bytes.length : ℚ) ≤ offset then some records
    else
      let space := paxSpace bytes bytes.length offset
      match numberOf (utf8Decode (subarray bytes (truncated offset) (truncated space))) with
      | .fin length =>
        if length ≤ 0 then some records
        else
          let next := addDouble offset length
          let record := utf8Decode
            (subarray bytes (truncated (addDouble space 1)) (truncated (addDouble next (-1))))
          let records := match indexOf? "=" record with
            | some (eq + 1) => records.set (record.take (eq + 1)) (record.drop (eq + 2))
            | _ => records
          paxRecordsFrom bytes steps next records
      | _ => some records

def paxRecords (steps : ℕ) (bytes : List UInt8) : Option (Obj Text) :=
  paxRecordsFrom bytes steps 0 .empty

/-! ### Members -/

/-- Where the reader stands, and the names announced for the next member. -/
structure TarState where
  offset : ℕ
  pendingLongName : Option Text
  pendingPax : Option (Obj Text)

def TarState.start : TarState := ⟨0, none, none⟩

/-- The name of a member: an announced one, or the one of its own header. -/
def memberPath (header : List UInt8) (pendingLongName : Option Text)
    (pendingPax : Option (Obj Text)) : Text :=
  match pendingLongName, pendingPax.bind (·.get? "path") with
  | some name, _ => name
  | none, some path => path
  | none, none =>
    let name := cString header 0 100
    let pre := if startsWith (cString header 257 6) "ustar" then cString header 345 155 else []
    if pre = [] then name else pre ++ '/' :: name

/-- One round of the loop of `readTar`, up to the limits: the file it finds, if any, and where the
    reader stands after it. -/
def readMember (steps : ℕ) (archive : List UInt8) (st : TarState) :
    Option (Except Thrown (Option TarEntry × TarState)) :=
  let header := subarray archive st.offset (st.offset + block)
  match octal header 124 12 with
  | .error e => some (.error e)
  | .ok size =>
    let typeflag := Char.ofNat (header.getD 156 0).toNat
    let dataStart := st.offset + block
    let dataEnd := dataStart + size
    if archive.length < dataEnd then some (.error (invalidPackage "Truncated tar archive."))
    else
      let data := subarray archive dataStart dataEnd
      let offset := dataStart + (size + 511) / block * block
      if typeflag = 'L' then
        some (.ok (none, { st with
          offset := offset, pendingLongName := some (cString data 0 data.length) }))
      else if typeflag = 'x' then
        match paxRecords steps data with
        | none => none
        | some records =>
          some (.ok (none, { st with offset := offset, pendingPax := some records }))
      else if typeflag = 'g' then some (.ok (none, { st with offset := offset }))
      else
        let path := memberPath header st.pendingLongName st.pendingPax
        let next : TarState := ⟨offset, none, none⟩
        if typeflag ∈ ['0', '\x00', '7'] then some (.ok (some ⟨path, data⟩, next))
        else some (.ok (none, next))

/-- Whether the loop of `readTar` goes on at an offset. -/
def goesOn (archive : List UInt8) (offset : ℕ) : Prop :=
  offset + block ≤ archive.length ∧ isZeroBlock archive offset = false

instance (archive : List UInt8) (offset : ℕ) : Decidable (goesOn archive offset) :=
  inferInstanceAs (Decidable (_ ∧ _))

/-- The loop of `readTar`.  Each round moves the offset by a block at least. -/
def readTarFrom (steps : ℕ) (archive : List UInt8) (limits : TarLimits) :
    (fuel : ℕ) → TarState → (entries : List TarEntry) → (totalBytes : ℕ) →
      Option (Except Thrown (List TarEntry))
  | 0, _, entries, _ => some (.ok entries)
  | fuel + 1, st, entries, totalBytes =>
    if goesOn archive st.offset then
      match readMember steps archive st with
      | none => none
      | some (.error e) => some (.error e)
      | some (.ok (none, st)) => readTarFrom steps archive limits fuel st entries totalBytes
      | some (.ok (some entry, st)) =>
        if limits.maxFiles ≤ entries.length then
          some (.error (invalidPackage
            ("Archive has more than " ++ natText limits.maxFiles ++ " files.")))
        else if limits.maxTotalBytes < totalBytes + entry.bytes.length then
          some (.error (invalidPackage
            ("Archive contents exceed " ++ natText limits.maxTotalBytes ++ " bytes.")))
        else
          readTarFrom steps archive limits fuel st (entries ++ [entry])
            (totalBytes + entry.bytes.length)
    else some (.ok entries)

def readTar (steps : ℕ) (archive : List UInt8) (limits : TarLimits) :
    Option (Except Thrown (List TarEntry)) :=
  readTarFrom steps archive limits (archive.length / block) .start [] 0

/-! ### What an archive lists -/

/-- A regular file of the archive that the headers from a position on describe. -/
inductive Listed (steps : ℕ) (archive : List UInt8) : TarState → TarEntry → Prop
  | here {st next : TarState} {entry : TarEntry} : goesOn archive st.offset →
      readMember steps archive st = some (.ok (some entry, next)) → Listed steps archive st entry
  | later {st next : TarState} {found : Option TarEntry} {entry : TarEntry} :
      goesOn archive st.offset → readMember steps archive st = some (.ok (found, next)) →
      Listed steps archive next entry → Listed steps archive st entry

section
variable {steps : ℕ} {archive : List UInt8} {limits : TarLimits} {st next : TarState}
variable {found : Option TarEntry} {entry : TarEntry} {entries : List TarEntry}

theorem Listed.goesOn (h : Listed steps archive st entry) : goesOn archive st.offset := by
  cases h with
  | here hgo _ => exact hgo
  | later hgo _ _ => exact hgo

/-- What is listed from a member on: its own file, and what is listed after it. -/
theorem listed_iff (hgo : Packages.goesOn archive st.offset)
    (hread : readMember steps archive st = some (.ok (found, next))) :
    Listed steps archive st entry ↔ found = some entry ∨ Listed steps archive next entry := by
  constructor
  · intro h
    cases h with
    | here _ hother =>
      rw [hread] at hother
      cases hother
      exact Or.inl rfl
    | later _ hother hlater =>
      rw [hread] at hother
      cases hother
      exact Or.inr hlater
  · rintro (rfl | hlater)
    · exact .here hgo hread
    · exact .later hgo hread hlater

/-- A member takes the reader past its header. -/
theorem readMember_offset (h : readMember steps archive st = some (.ok (found, next))) :
    st.offset + block ≤ next.offset := by
  simp only [readMember] at h
  split at h
  · cases h
  split_ifs at h
  -- every kind of member leaves the same offset
  all_goals
    try split at h
    all_goals cases h
    all_goals exact Nat.le_add_right _ _

/-- Rounds that reach the end of the archive from a member reach it, one less, from the next. -/
theorem rounds_left {fuel : ℕ} (hfuel : archive.length < st.offset + block * (fuel + 1 + 1))
    (hread : readMember steps archive st = some (.ok (found, next))) :
    archive.length < next.offset + block * (fuel + 1) := by
  have hoffset := readMember_offset hread
  have hround : block * (fuel + 1 + 1) = block * (fuel + 1) + block := Nat.mul_succ _ _
  omega

/-- The loop finds what is listed from where it stands; the rounds it has left always reach the end
    of the archive. -/
theorem mem_readTarFrom_iff {fuel totalBytes : ℕ} {all : List TarEntry}
    (hfuel : archive.length < st.offset + block * (fuel + 1))
    (h : readTarFrom steps archive limits fuel st entries totalBytes = some (.ok all)) :
    entry ∈ all ↔ entry ∈ entries ∨ Listed steps archive st entry := by
  induction fuel generalizing st entries totalBytes with
  | zero =>
    cases h
    have hnone : ¬ Listed steps archive st entry := by
      intro hlisted
      have hroom := hlisted.goesOn.1
      omega
    simp [hnone]
  | succ fuel ih =>
    rw [readTarFrom] at h
    by_cases hgo : Packages.goesOn archive st.offset
    · rw [if_pos hgo] at h
      split at h
      · cases h
      · cases h
      · rename_i next hread
        rw [ih (rounds_left hfuel hread) h, listed_iff hgo hread]
        simp
      · rename_i found next hread
        -- a file within the limits is kept, beyond them there is no result
        split at h
        · cases h
        split at h
        · cases h
        rw [ih (rounds_left hfuel hread) h, listed_iff hgo hread, List.mem_append,
          List.mem_singleton, Option.some.injEq, or_assoc, @eq_comm _ entry]
    · rw [if_neg hgo] at h
      cases h
      have hnone : ¬ Listed steps archive st entry := fun hlisted => hgo hlisted.goesOn
      simp [hnone]

/-- **The files of an archive.** What is read are the regular files that the headers list. -/
theorem mem_readTar_iff {all : List TarEntry} (h : readTar steps archive limits = some (.ok all)) :
    entry ∈ all ↔ Listed steps archive .start entry := by
  have hfuel : archive.length < TarState.start.offset + block * (archive.length / block + 1) := by
    have hblock : (0 : ℕ) < block := by decide
    have hlt := Nat.lt_mul_div_succ archive.length hblock
    have hzero : TarState.start.offset = 0 := rfl
    omega
  rw [mem_readTarFrom_iff hfuel h]
  simp

end

end KodyCelld.Packages
