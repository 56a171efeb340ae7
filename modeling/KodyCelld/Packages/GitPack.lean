import KodyCelld.Lib.Sha1
import KodyCelld.Packages.GitDelta

namespace KodyCelld.Packages

open KodyCelld.Lib

/-!
# Unpacking a git pack (`packages/git-smart-http.ts`, `packages/zlib-inflate.ts`)

A pack is a sequence of objects, each deflated, or the delta from an object before it.

* `unpackGitPack` — the code, with the `Inflate` of `pako` and the size of the largest array as
  parameters;
* `PackObject` — an object that a pack holds, by itself or through deltas;
* `PackInv`, `unpackObject_inv` — what the loop keeps, and one round of it;
* `unpackGitPack_safe` — every object has its own name, there are no more than the header says, and
  what is thrown is an error of the code's own, unless the platform throws it;
* `limits_ignored` — the limits of a clone are not those of unpacking.
-/

/-! ### Inflating -/

/-- What `Inflate` of `pako` makes of its input: the result and the number of bytes that it left, or
    an error. -/
inductive Inflated where
  | done (output : List UInt8) (left : ℕ)
  | failed (bufferError : Bool) (message : Text)
  deriving DecidableEq, Repr

variable (pako : List UInt8 → Inflated) (arrayLimit : ℕ)

/-- `inflateZlibAt`, which returns the output and the number of bytes that it read. -/
def inflateZlibAt (input : List UInt8) (offset : ℕ) : Except Thrown (List UInt8 × ℕ) :=
  let rest := input.drop offset
  match pako rest with
  | .done output left => .ok (output, rest.length - left)
  | .failed bufferError message =>
    let reason : Text :=
      if bufferError then "unexpected end of zlib stream"
      else if message = "incorrect data check" then "adler32 mismatch"
      else message
    .error (gitFailure ("Corrupt git pack: " ++ reason ++ "."))

/-! ### Names -/

/-- The type with a number, if it has a name. -/
def objectType? : ℕ → Option GitObjectType
  | 1 => some .commit
  | 2 => some .tree
  | 3 => some .blob
  | 4 => some .tag
  | _ => none

def GitObjectType.name : GitObjectType → Text
  | .commit => "commit"
  | .tree => "tree"
  | .blob => "blob"
  | .tag => "tag"

/-- `sha1Hex` of an object: the name of its type, its length and its content. -/
def sha1Hex (object : GitObject) : Text :=
  let header := object.type.name ++ " " ++ natText object.content.length ++ ['\x00']
  hexBytes (sha1 (utf8Encode header ++ object.content))

/-! ### The objects of a pack -/

/-- `view.getUint32(offset)` -/
def getUint32 (bytes : List UInt8) (offset : ℕ) : ℕ :=
  ((bytes.drop offset).take 4).foldl (fun n b => 256 * n + b.toNat) 0

/-- `while (c & 0x80) { c = pack[offset++]; size |= (c & 0x7f) << shift; shift += 7 }`, with the
    number of bytes that it takes.  A byte past the end is `undefined`, and has no bits. -/
def readSize (c : UInt8) (size : BitVec 32) (shift : ℕ) : List UInt8 → BitVec 32 × ℕ
  | [] => if c &&& 0x80 = 0 then (size, 0) else (size, 1)
  | b :: bytes =>
    if c &&& 0x80 = 0 then (size, 0)
    else
      let read := readSize b (orShifted size (b &&& 0x7f).toNat shift) (shift + 7) bytes
      (read.1, read.2 + 1)

/-- `while (byte & 0x80) { byte = pack[offset++]; baseOffset = ((baseOffset + 1) << 7) |
    (byte & 0x7f) }`, with the number of bytes that it takes. -/
def readBaseOffset (byte : UInt8) (value : BitVec 32) : List UInt8 → BitVec 32 × ℕ
  | [] => if byte &&& 0x80 = 0 then (value, 0) else ((value + 1) <<< 7, 1)
  | b :: bytes =>
    if byte &&& 0x80 = 0 then (value, 0)
    else
      let bits := BitVec.ofNat 32 (b &&& 0x7f).toNat
      let read := readBaseOffset b (((value + 1) <<< 7) ||| bits) bytes
      (read.1, read.2 + 1)

/-- The variables of the loop. -/
structure PackState where
  offset : ℕ
  objectsByOrder : List GitObject
  starts : List ℕ
  bySha : GitObjects

/-- `bytes[offset]` where it is used as a number of bits: `undefined` has none. -/
def byteAt (bytes : List UInt8) (offset : ℕ) : UInt8 := bytes.getD offset 0

/-- The size of the object that starts at an offset, and the number of bytes that it takes behind
    the first. -/
def sizeAt (pack : List UInt8) (start : ℕ) : BitVec 32 × ℕ :=
  let c := byteAt pack start
  readSize c (BitVec.ofNat 32 (c.toNat % 16)) 4 (pack.drop (start + 1))

/-- The type of the object that starts at an offset: `(c >> 4) & 7`. -/
def typeAt (pack : List UInt8) (start : ℕ) : ℕ := (byteAt pack start).toNat / 16 % 8

/-- `starts.indexOf(baseStart)`, and the object there. -/
def objectAt (st : PackState) (baseStart : ℤ) : Option GitObject :=
  (st.starts.findIdx? fun start => decide ((start : ℤ) = baseStart)).bind fun i =>
    st.objectsByOrder[i]?

/-- The base of a delta and the offset behind its mention; no base for an object that is none. -/
def readBase (pack : List UInt8) (st : PackState) (type offset : ℕ) :
    Except Thrown (Option GitObject × ℕ) :=
  if type = 6 then
    let byte := byteAt pack offset
    let read := readBaseOffset byte (BitVec.ofNat 32 (byte &&& 0x7f).toNat) (pack.drop (offset + 1))
    match objectAt st (st.offset - read.1.toInt) with
    | none => .error (gitFailure "Git ofs-delta base missing.")
    | some base => .ok (some base, offset + 1 + read.2)
  else if type = 7 then
    let sha := hexBytes (subarray pack offset (offset + 20))
    match st.bySha.lookup sha with
    | none => .error (gitFailure ("Git ref-delta base " ++ sha ++ " missing."))
    | some base => .ok (some base, offset + 20)
  else .ok (none, offset)

/-- The object of a type and a size from what was inflated. -/
def objectOf (type : ℕ) (size : BitVec 32) (base : Option GitObject) (inflated : List UInt8) :
    Except Thrown GitObject :=
  match base with
  | some base =>
    (applyDelta arrayLimit base.content inflated).map fun content => ⟨base.type, content⟩
  | none =>
    if (inflated.length : ℤ) ≠ size.toInt then .error (gitFailure "Git pack object size mismatch.")
    else match objectType? type with
      | none => .error (gitFailure ("Unknown git object type " ++ natText type ++ "."))
      | some type => .ok ⟨type, inflated⟩

/-- One round of the loop. -/
def unpackObject (pack : List UInt8) (st : PackState) : Except Thrown PackState := do
  let type := typeAt pack st.offset
  let size := sizeAt pack st.offset
  let base ← readBase pack st type (st.offset + 1 + size.2)
  let inflated ← inflateZlibAt pako pack base.2
  let object ← objectOf arrayLimit type size.1 base.1 inflated.1
  return {
    offset := base.2 + inflated.2
    objectsByOrder := st.objectsByOrder ++ [object]
    starts := st.starts ++ [st.offset]
    bySha := (sha1Hex object, object) :: st.bySha }

/-- The loop: that many rounds. -/
def unpackObjects (pack : List UInt8) : (count : ℕ) → PackState → Except Thrown PackState
  | 0, st => .ok st
  | count + 1, st => (unpackObject pako arrayLimit pack st).bind (unpackObjects pack count)

/-- The number of objects that the header declares. -/
def objectCount (pack : List UInt8) : ℕ := getUint32 pack 8

/-- `unpackGitPack` -/
def unpackGitPack (pack : List UInt8) : Except Thrown GitObjects :=
  if pack.length < 12 ∨ utf8Decode (pack.take 4) ≠ "PACK" then
    .error (gitFailure "Not a git packfile.")
  else
    let version := getUint32 pack 4
    if version ≠ 2 ∧ version ≠ 3 then
      .error (gitFailure ("Unsupported git pack version " ++ natText version ++ "."))
    else
      (unpackObjects pako arrayLimit pack (objectCount pack) ⟨12, [], [], []⟩).map PackState.bySha

/-! ### What is unpacked -/

/-- **An object of a pack**: it is there as it is declared, or as a delta from an object of the
    pack. -/
inductive PackObject (pack : List UInt8) : GitObject → Prop
  | whole {start n : ℕ} {type : GitObjectType} {content : List UInt8}
      (htype : objectType? (typeAt pack start) = some type)
      (hinflate : inflateZlibAt pako pack (start + 1 + (sizeAt pack start).2) = .ok (content, n))
      (hsize : (content.length : ℤ) = (sizeAt pack start).1.toInt) : PackObject pack ⟨type, content⟩
  | delta {base : GitObject} {offset n : ℕ} {delta content : List UInt8}
      (hbase : PackObject pack base) (hinflate : inflateZlibAt pako pack offset = .ok (delta, n))
      (hdelta : applyDelta arrayLimit base.content delta = .ok content) :
      PackObject pack ⟨base.type, content⟩

/-- What the loop keeps. -/
structure PackInv (pack : List UInt8) (rounds : ℕ) (st : PackState) : Prop where
  objects : ∀ object ∈ st.objectsByOrder, PackObject pako arrayLimit pack object
  named : ∀ entry ∈ st.bySha, entry.1 = sha1Hex entry.2 ∧ entry.2 ∈ st.objectsByOrder
  rounds : st.bySha.length = rounds

/-- What may be thrown: an error of the code's own, or the platform's for the length of an array. -/
def PackThrown (e : Thrown) : Prop := e ≠ invalidLength → IsKodyError e

variable {pako arrayLimit} {pack : List UInt8}

theorem packThrown_gitFailure (message : Text) : PackThrown (gitFailure message) :=
  fun _ => isKodyError_gitFailure message

/-- What `applyDelta` throws. -/
theorem applyDelta_throws {base delta : List UInt8} {e : Thrown}
    (h : applyDelta arrayLimit base delta = .error e) : PackThrown e := by
  rcases applyDelta_cases arrayLimit base delta with ⟨r, -, -, hrun⟩ | ⟨⟨e', hrun, hkody⟩, -⟩ |
    ⟨hrun, -⟩
  · exact absurd (hrun.symm.trans h) nofun
  · obtain rfl := Except.error.inj (hrun.symm.trans h)
    exact fun _ => hkody
  · obtain rfl := Except.error.inj (hrun.symm.trans h)
    exact fun hne => absurd rfl hne

theorem inflateZlibAt_throws {offset : ℕ} {e : Thrown}
    (h : inflateZlibAt pako pack offset = .error e) : PackThrown e := by
  unfold inflateZlibAt at h
  dsimp only at h
  split at h
  · exact absurd h nofun
  obtain rfl := Except.error.inj h
  exact packThrown_gitFailure _

/-- **The base of a delta** is an object before it, and only a delta has one. -/
theorem readBase_ok {st : PackState} {type offset next : ℕ} {base : Option GitObject}
    {rounds : ℕ} (hinv : PackInv pako arrayLimit pack rounds st)
    (h : readBase pack st type offset = .ok (base, next)) :
    (base = none ∧ next = offset) ∨
      ∃ object, base = some object ∧ PackObject pako arrayLimit pack object := by
  unfold readBase at h
  dsimp only at h
  split_ifs at h with hofs href
  · split at h
    · exact absurd h nofun
    · rename_i object hobject
      obtain ⟨rfl, -⟩ := Prod.mk.inj (Except.ok.inj h)
      obtain ⟨i, -, hget⟩ := Option.bind_eq_some_iff.mp hobject
      exact .inr ⟨object, rfl, hinv.objects object (List.mem_of_getElem? hget)⟩
  · split at h
    · exact absurd h nofun
    · rename_i object hobject
      obtain ⟨rfl, -⟩ := Prod.mk.inj (Except.ok.inj h)
      obtain ⟨before, after, hsplit, -⟩ := List.lookup_eq_some_iff.mp hobject
      have hentry := hinv.named (_, object) (hsplit ▸ List.mem_append_right _ List.mem_cons_self)
      exact .inr ⟨object, rfl, hinv.objects object hentry.2⟩
  · obtain ⟨rfl, rfl⟩ := Prod.mk.inj (Except.ok.inj h)
    exact .inl ⟨rfl, rfl⟩

theorem readBase_throws {st : PackState} {type offset : ℕ} {e : Thrown}
    (h : readBase pack st type offset = .error e) : PackThrown e := by
  unfold readBase at h
  dsimp only at h
  split_ifs at h with hofs href
  · split at h
    · exact Except.error.inj h ▸ packThrown_gitFailure _
    · exact absurd h nofun
  · split at h
    · exact Except.error.inj h ▸ packThrown_gitFailure _
    · exact absurd h nofun

theorem objectOf_throws {type : ℕ} {size : BitVec 32} {base : Option GitObject}
    {inflated : List UInt8} {e : Thrown}
    (h : objectOf arrayLimit type size base inflated = .error e) : PackThrown e := by
  unfold objectOf at h
  split at h
  · rename_i base
    cases hdelta : applyDelta arrayLimit base.content inflated with
    | ok content =>
      rw [hdelta] at h
      exact absurd h nofun
    | error e' =>
      rw [hdelta] at h
      exact Except.error.inj h ▸ applyDelta_throws hdelta
  · split_ifs at h with hsize
    · exact Except.error.inj h ▸ packThrown_gitFailure _
    · split at h
      · exact Except.error.inj h ▸ packThrown_gitFailure _
      · exact absurd h nofun

/-- The object of a round is one of the pack. -/
theorem packObject_of_round {st : PackState} {rounds next taken : ℕ} {base : Option GitObject}
    {output : List UInt8} {object : GitObject} (hinv : PackInv pako arrayLimit pack rounds st)
    (hbase : readBase pack st (typeAt pack st.offset)
      (st.offset + 1 + (sizeAt pack st.offset).2) = .ok (base, next))
    (hinflate : inflateZlibAt pako pack next = .ok (output, taken))
    (hobject : objectOf arrayLimit (typeAt pack st.offset) (sizeAt pack st.offset).1 base output =
      .ok object) : PackObject pako arrayLimit pack object := by
  unfold objectOf at hobject
  rcases readBase_ok hinv hbase with ⟨rfl, rfl⟩ | ⟨found, rfl, hfound⟩
  · dsimp only at hobject
    split_ifs at hobject with hsize
    split at hobject
    · exact absurd hobject nofun
    rename_i type htype
    obtain rfl := Except.ok.inj hobject
    exact .whole htype hinflate (not_not.mp hsize)
  · dsimp only at hobject
    cases hdelta : applyDelta arrayLimit found.content output with
    | error e =>
      rw [hdelta] at hobject
      exact absurd hobject nofun
    | ok content =>
      rw [hdelta] at hobject
      obtain rfl := Except.ok.inj hobject
      exact .delta hfound hinflate hdelta

/-- **One round** adds an object of the pack under its name, or throws. -/
theorem unpackObject_inv {st : PackState} {rounds : ℕ}
    (hinv : PackInv pako arrayLimit pack rounds st) :
    (∃ st', unpackObject pako arrayLimit pack st = .ok st' ∧
      PackInv pako arrayLimit pack (rounds + 1) st') ∨
    ∃ e, unpackObject pako arrayLimit pack st = .error e ∧ PackThrown e := by
  unfold unpackObject
  dsimp only
  cases hbase : readBase pack st (typeAt pack st.offset)
      (st.offset + 1 + (sizeAt pack st.offset).2) with
  | error e => exact .inr ⟨e, rfl, readBase_throws hbase⟩
  | ok base =>
    obtain ⟨base, next⟩ := base
    cases hinflate : inflateZlibAt pako pack next with
    | error e =>
      refine .inr ⟨e, ?_, inflateZlibAt_throws hinflate⟩
      simp [bind, Except.bind, hinflate]
    | ok inflated =>
      obtain ⟨output, taken⟩ := inflated
      cases hobject : objectOf arrayLimit (typeAt pack st.offset) (sizeAt pack st.offset).1 base
        output with
      | error e =>
        refine .inr ⟨e, ?_, objectOf_throws hobject⟩
        simp [bind, Except.bind, hinflate, hobject]
      | ok object =>
        have hnew : PackObject pako arrayLimit pack object :=
          packObject_of_round hinv hbase hinflate hobject
        refine .inl ⟨⟨next + taken, st.objectsByOrder ++ [object], st.starts ++ [st.offset],
          (sha1Hex object, object) :: st.bySha⟩, ?_, ?_, ?_, ?_⟩
        · simp [bind, Except.bind, hinflate, hobject, pure, Except.pure]
        · intro other hother
          rcases List.mem_append.mp hother with hother | hother
          · exact hinv.objects other hother
          · rw [List.mem_singleton.mp hother]
            exact hnew
        · intro entry hentry
          rcases List.mem_cons.mp hentry with rfl | hentry
          · exact ⟨rfl, List.mem_append_right _ List.mem_cons_self⟩
          · obtain ⟨hname, hmem⟩ := hinv.named entry hentry
            exact ⟨hname, List.mem_append_left _ hmem⟩
        · rw [List.length_cons, hinv.rounds]

/-- **The whole loop** keeps what a round keeps. -/
theorem unpackObjects_inv {st : PackState} {rounds : ℕ}
    (hinv : PackInv pako arrayLimit pack rounds st) (count : ℕ) :
    (∃ st', unpackObjects pako arrayLimit pack count st = .ok st' ∧
      PackInv pako arrayLimit pack (rounds + count) st') ∨
    ∃ e, unpackObjects pako arrayLimit pack count st = .error e ∧ PackThrown e := by
  induction count generalizing st rounds with
  | zero => exact .inl ⟨st, rfl, hinv⟩
  | succ count ih =>
    unfold unpackObjects
    rcases unpackObject_inv hinv with ⟨st', hround, hinv'⟩ | ⟨e, hround, hthrown⟩
    · rw [hround]
      rcases ih hinv' with ⟨last, hloop, hlast⟩ | ⟨e, hloop, hthrown⟩
      · refine .inl ⟨last, hloop, ?_⟩
        rwa [Nat.add_assoc, Nat.add_comm 1 count] at hlast
      · exact .inr ⟨e, hloop, hthrown⟩
    · rw [hround]
      exact .inr ⟨e, rfl, hthrown⟩

/-- **Unpacking is safe on any bytes**: it returns objects of the pack under their own names, no
    more than the header declares, or throws an error of the code's own, unless it is the platform
    that throws. -/
theorem unpackGitPack_safe (pako : List UInt8 → Inflated) (arrayLimit : ℕ) (pack : List UInt8) :
    (∃ objects, unpackGitPack pako arrayLimit pack = .ok objects ∧
      (∀ entry ∈ objects, entry.1 = sha1Hex entry.2 ∧ PackObject pako arrayLimit pack entry.2) ∧
      objects.length ≤ objectCount pack) ∨
    ∃ e, unpackGitPack pako arrayLimit pack = .error e ∧ PackThrown e := by
  unfold unpackGitPack
  by_cases hmagic : pack.length < 12 ∨ utf8Decode (pack.take 4) ≠ "PACK"
  · exact .inr ⟨_, if_pos hmagic, packThrown_gitFailure _⟩
  rw [if_neg hmagic]
  by_cases hversion : getUint32 pack 4 ≠ 2 ∧ getUint32 pack 4 ≠ 3
  · exact .inr ⟨_, if_pos hversion, packThrown_gitFailure _⟩
  have hstart : PackInv pako arrayLimit pack 0 ⟨12, [], [], []⟩ :=
    ⟨fun _ h => absurd h List.not_mem_nil, fun _ h => absurd h List.not_mem_nil, rfl⟩
  dsimp only
  rw [if_neg hversion]
  rcases unpackObjects_inv hstart (objectCount pack) with ⟨st, hloop, hinv⟩ | ⟨e, hloop, hthrown⟩
  · refine .inl ⟨st.bySha, by rw [hloop]; rfl, fun entry hentry => ?_, ?_⟩
    · obtain ⟨hname, hmem⟩ := hinv.named entry hentry
      exact ⟨hname, hinv.objects _ hmem⟩
    · rw [hinv.rounds, Nat.zero_add]
  · exact .inr ⟨e, by rw [hloop]; rfl, hthrown⟩

/-! ### The limits of a clone -/

/-- Unpacking stays within limits, or throws an error of the code's own. -/
def UnpacksWithin (limits : GitLimits) (pako : List UInt8 → Inflated) (arrayLimit : ℕ)
    (pack : List UInt8) : Prop :=
  (∃ objects, unpackGitPack pako arrayLimit pack = .ok objects ∧
    (∀ entry ∈ objects, entry.1 = sha1Hex entry.2 ∧ PackObject pako arrayLimit pack entry.2) ∧
    objects.length ≤ limits.maxFiles ∧
    (objects.map fun entry => entry.2.content.length).sum ≤ limits.maxTotalBytes) ∨
  ∃ e, unpackGitPack pako arrayLimit pack = .error e ∧ IsKodyError e

/-- `Inflate` for a stream of one stored block, whose checksum is not looked at. -/
def inflateStored : List UInt8 → Inflated
  | 0x78 :: 0x01 :: 0x01 :: low :: high :: notLow :: notHigh :: bytes =>
    let length := low.toNat + 256 * high.toNat
    if notLow = ~~~ low ∧ notHigh = ~~~ high ∧ length + 4 ≤ bytes.length then
      .done (bytes.take length) (bytes.length - length - 4)
    else .failed false "invalid stored block lengths"
  | _ => .failed true []

/-- A pack with one blob, `hi`. -/
def packOfHi : List UInt8 :=
  utf8Encode "PACK" ++ [0, 0, 0, 2, 0, 0, 0, 1, 0x32, 0x78, 0x01, 0x01, 2, 0, 0xfd, 0xff, 0x68,
    0x69, 0x01, 0x3b, 0x00, 0xd2]

/-- **The limits of a clone are not those of unpacking**: two bytes come out of a pack where one is
    allowed. -/
theorem limits_ignored : ¬ UnpacksWithin ⟨1, 1⟩ inflateStored 65536 packOfHi := by
  have hrun : (unpackGitPack inflateStored 65536 packOfHi).map
      (fun objects => (objects.map fun entry => entry.2.content.length).sum) = .ok 2 := by
    decide +kernel
  rintro (⟨objects, hok, -, -, htotal⟩ | ⟨e, herror, -⟩)
  · rw [hok] at hrun
    have hsum : (objects.map fun entry => entry.2.content.length).sum = 2 := Except.ok.inj hrun
    rw [hsum] at htotal
    exact absurd htotal (by decide)
  · rw [herror] at hrun
    exact absurd hrun nofun

end KodyCelld.Packages
