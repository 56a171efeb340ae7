import KodyCelld.Errors
import KodyCelld.Lib.Bytes
import KodyCelld.Lib.DeltaFormat
import KodyCelld.Lib.Words
import KodyCelld.Packages.GitTree

namespace KodyCelld.Packages

open KodyCelld.Lib

/-!
# Deltas of a git pack (`packages/git-smart-http.ts`)

The code reads the numbers of a delta with the bit operators, which have 32 bits and take a missing
byte for 0.

* `readVarInt`, `applyDelta` — the code;
* `CodeReads` — what a delta says as the code reads it;
* `applyDelta_cases` — what the code does: a result, a `KodyError`, or a `RangeError`;
* `applyDelta_meets` — when that is what git's format says;
* `truncated_copied` — a delta that ends within a number and is applied.
-/

/-! ### The code -/

/-- The loop of `readVarInt`; the offset is kept as what is left of the bytes. -/
def readVarIntFrom (value : BitVec 32) (shift : ℕ) : List UInt8 → Except Thrown (ℤ × List UInt8)
  | [] => .error (gitFailure "Truncated git pack.")
  | c :: bytes =>
    let value := orShifted value (c &&& 0x7f).toNat shift
    if c &&& 0x80 = 0 then .ok (value.toInt, bytes) else readVarIntFrom value (shift + 7) bytes

def readVarInt (bytes : List UInt8) : Except Thrown (ℤ × List UInt8) := readVarIntFrom 0 0 bytes

/-- `if (cmd & mask) value |= delta[offset++]! << shift`, for masks at every eighth bit.  A byte
    that is missing is `undefined`, which counts as 0. -/
def readOperand (cmd : UInt8) (value : BitVec 32) (shift : ℕ) :
    (masks : List UInt8) → List UInt8 → BitVec 32 × List UInt8
  | [], delta => (value, delta)
  | mask :: masks, delta =>
    if cmd &&& mask = 0 then readOperand cmd value (shift + 8) masks delta
    else readOperand cmd (orShifted value ((delta.head?.map UInt8.toNat).getD 0) shift) (shift + 8)
      masks delta.tail

/-- `bytes.subarray(start, stop)`, where a negative index counts from the end. -/
def subarrayFromEnd (bytes : List UInt8) (start stop : ℤ) : List UInt8 :=
  let index := fun i : ℤ => if i < 0 then (bytes.length + i).toNat else i.toNat
  subarray bytes (index start) (index stop)

/-- `out.set(bytes, start)` -/
def setBytes (out bytes : List UInt8) (start : ℕ) : List UInt8 :=
  out.take start ++ bytes ++ out.drop (start + bytes.length)

/-- The loop of `applyDelta`; every command takes a byte at least. -/
def applyDeltaFrom (base : List UInt8) : (fuel : ℕ) → (delta : List UInt8) → (filled : ℕ) →
    (out : List UInt8) → Except Thrown (ℕ × List UInt8)
  | 0, _, filled, out => .ok (filled, out)
  | _ + 1, [], filled, out => .ok (filled, out)
  | fuel + 1, cmd :: delta, filled, out =>
    if cmd = 0 then .error (gitFailure "Reserved git delta opcode.")
    else if cmd &&& 0x80 = 0 then
      let n := cmd.toNat
      if delta.length < n ∨ out.length < filled + n then
        .error (gitFailure "Git delta insert out of bounds.")
      else applyDeltaFrom base fuel (delta.drop n) (filled + n) (setBytes out (delta.take n) filled)
    else
      let offset := readOperand cmd 0 0 [0x01, 0x02, 0x04, 0x08] delta
      let size := readOperand cmd 0 0 [0x10, 0x20, 0x40] offset.2
      let copyOffset := offset.1.toInt
      let copySize := if size.1.toNat = 0 then 0x10000 else size.1.toNat
      if (base.length : ℤ) < copyOffset + copySize ∨ out.length < filled + copySize then
        .error (gitFailure "Git delta copy out of bounds.")
      else applyDeltaFrom base fuel size.2 (filled + copySize)
        (setBytes out (subarrayFromEnd base copyOffset (copyOffset + copySize)) filled)

/-- What `new Uint8Array(n)` throws. -/
def invalidLength : Thrown := .rangeError "Invalid typed array length"

/-- `applyDelta`, where an array of up to `arrayLimit` bytes can be had. -/
def applyDelta (arrayLimit : ℕ) (base delta : List UInt8) : Except Thrown (List UInt8) := do
  let (sourceSize, delta) ← readVarInt delta
  if sourceSize ≠ base.length then .error (gitFailure "Git delta source size mismatch.")
  let (targetSize, delta) ← readVarInt delta
  if targetSize < 0 ∨ (arrayLimit : ℤ) < targetSize then .error invalidLength
  let (filled, out) ← applyDeltaFrom base delta.length delta 0 (List.replicate targetSize.toNat 0)
  if filled ≠ out.length then .error (gitFailure "Git delta output size mismatch.")
  .ok out

/-! ### What a delta says to the code -/

/-- The instruction that the code reads. -/
def readInstruction (cmd : UInt8) (bytes : List UInt8) : Option (DeltaInstruction × List UInt8) :=
  if cmd = 0 then none
  else if cmd &&& 0x80 = 0 then
    if bytes.length < cmd.toNat then none
    else some (.insert (bytes.take cmd.toNat), bytes.drop cmd.toNat)
  else
    let offset := readOperand cmd 0 0 offsetMasks bytes
    let size := readOperand cmd 0 0 sizeMasks offset.2
    some (.copy offset.1.toInt (if size.1.toNat = 0 then 0x10000 else size.1.toNat), size.2)

/-- **What a delta says as the code reads it**: sizes and offsets of 32 bits with a sign, and 0 for
    a byte that is missing. -/
def CodeReads (delta : List UInt8) (r : DeltaReading) : Prop :=
  ∃ rest rest', readVarInt delta = .ok (r.source, rest) ∧
    readVarInt rest = .ok (r.target, rest') ∧ Instructions readInstruction rest' r.instructions

/-- The bytes that the code finds for an instruction. -/
def foundBytes (base : List UInt8) : DeltaInstruction → List UInt8
  | .copy offset size => subarrayFromEnd base offset (offset + size)
  | .insert bytes => bytes

/-- The bytes that an instruction leaves in the result: what is not found stays 0. -/
def copiedBytes (base : List UInt8) (i : DeltaInstruction) : List UInt8 :=
  foundBytes base i ++ List.replicate (i.size - (foundBytes base i).length) 0

/-- An error of the code's own. -/
def IsKodyError (e : Thrown) : Prop := ∃ code message status, e = .kody code message status

/-- **The code does what git's format says**: it makes of the base what a delta for the base says,
    and throws an error of its own for any other bytes. -/
def MeetsFormat (arrayLimit : ℕ) (base delta : List UInt8) : Prop :=
  (∀ r, DeltaReads delta r → r.Fits base → applyDelta arrayLimit base delta = .ok (r.result base)) ∧
  ((¬ ∃ r, DeltaReads delta r ∧ r.Fits base) →
    ∃ e, applyDelta arrayLimit base delta = .error e ∧ IsKodyError e)

/-- **When the code does what the format says.**  A delta for the base is no longer than the bit
    operators count, a delta that the code takes for one is one, and a size of the result that the
    code reads can be had. -/
structure DeltaHandled (arrayLimit : ℕ) (base delta : List UInt8) : Prop where
  short : ∀ r, DeltaReads delta r → r.Fits base → base.length < 2 ^ 31 ∧ r.target < 2 ^ 31
  asRead : ∀ r, CodeReads delta r → r.Fits base → DeltaReads delta r
  room : ∀ target rest rest', readVarInt delta = .ok ((base.length : ℤ), rest) →
    readVarInt rest = .ok (target, rest') → 0 ≤ target ∧ target ≤ arrayLimit

/-! ### Numbers -/

theorem low_bits (c : UInt8) : (c &&& 0x7f).toNat = c.toNat % 128 ∧
    (c &&& 0x80 = 0 ↔ c.toNat < 128) := by
  have hall : ∀ n ∈ List.range 256, (UInt8.ofNat n &&& 0x7f).toNat = (UInt8.ofNat n).toNat % 128 ∧
      (UInt8.ofNat n &&& 0x80 = 0 ↔ (UInt8.ofNat n).toNat < 128) := by decide +kernel
  have hc := hall c.toNat (List.mem_range.mpr c.toNat_lt)
  rwa [UInt8.ofNat_toNat] at hc

/-- **A number of the format** is read to its end, and as it is if it has 31 bits. -/
theorem readVarIntFrom_some {bytes rest : List UInt8} {n : ℕ} (h : base128 bytes = some (n, rest))
    (value : BitVec 32) (shift : ℕ) : ∃ word : BitVec 32,
      readVarIntFrom value shift bytes = .ok (word.toInt, rest) ∧
      (value.toNat < 2 ^ shift → value.toNat + n * 2 ^ shift < 2 ^ 31 →
        word.toNat = value.toNat + n * 2 ^ shift) := by
  induction bytes generalizing value shift n with
  | nil => exact absurd h nofun
  | cons c bytes ih =>
    obtain ⟨hlow, hhigh⟩ := low_bits c
    rw [base128] at h
    rw [readVarIntFrom, hlow]
    by_cases hlast : c.toNat < 128
    · rw [if_pos hlast] at h
      obtain ⟨rfl, rfl⟩ := Prod.mk.inj (Option.some.inj h)
      rw [if_pos (hhigh.mpr hlast), Nat.mod_eq_of_lt hlast]
      exact ⟨_, rfl, fun hvalue hbound => toNat_orShifted hvalue (by omega)⟩
    · rw [if_neg hlast] at h
      obtain ⟨⟨m, rest'⟩, hmore, heq⟩ := Option.map_eq_some_iff.mp h
      obtain ⟨rfl, rfl⟩ := Prod.mk.inj heq
      rw [if_neg (hhigh.not.mpr hlast)]
      have hbyte := c.toNat_lt
      have hdigit : c.toNat % 128 = c.toNat - 128 := by omega
      obtain ⟨word, hread, hword⟩ :=
        ih hmore (orShifted value (c.toNat % 128) shift) (shift + 7)
      refine ⟨word, hread, fun hvalue hbound => ?_⟩
      rw [hdigit] at hword
      change value.toNat + (c.toNat - 128 + 128 * m) * 2 ^ shift < 2 ^ 31 at hbound
      -- the groups so far lie below the next one
      have hsum : (c.toNat - 128 + 128 * m) * 2 ^ shift =
          (c.toNat - 128) * 2 ^ shift + m * 2 ^ (shift + 7) := by
        rw [Nat.pow_add]
        ring
      have hor := toNat_orShifted (n := c.toNat - 128) hvalue (by omega)
      have htop : (c.toNat - 128) * 2 ^ shift ≤ 127 * 2 ^ shift :=
        Nat.mul_le_mul_right _ (by omega)
      have hpow : 2 ^ (shift + 7) = 128 * 2 ^ shift := by
        rw [Nat.pow_add]
        ring
      show word.toNat = value.toNat + (c.toNat - 128 + 128 * m) * 2 ^ shift
      rw [hword (by omega) (by omega), hor, hsum]
      omega

/-- Bytes that are no number of the format are refused. -/
theorem readVarIntFrom_none {bytes : List UInt8} (h : base128 bytes = none) (value : BitVec 32)
    (shift : ℕ) : readVarIntFrom value shift bytes = .error (gitFailure "Truncated git pack.") := by
  induction bytes generalizing value shift with
  | nil => rfl
  | cons c bytes ih =>
    obtain ⟨-, hhigh⟩ := low_bits c
    rw [base128] at h
    by_cases hlast : c.toNat < 128
    · rw [if_pos hlast] at h
      exact absurd h nofun
    · rw [if_neg hlast, Option.map_eq_none_iff] at h
      rw [readVarIntFrom, if_neg (hhigh.not.mpr hlast)]
      exact ih h _ _

/-- What `readVarInt` reads is a number of the format, less than `2 ^ 31` and right if that is. -/
theorem readVarInt_ok {bytes rest : List UInt8} {n : ℤ} (h : readVarInt bytes = .ok (n, rest)) :
    n < 2 ^ 31 ∧ ∃ m : ℕ, base128 bytes = some (m, rest) ∧ (m < 2 ^ 31 → n = m) := by
  cases hbytes : base128 bytes with
  | none =>
    rw [readVarInt, readVarIntFrom_none hbytes] at h
    exact absurd h nofun
  | some r =>
    obtain ⟨m, rest'⟩ := r
    obtain ⟨word, hread, hword⟩ := readVarIntFrom_some hbytes 0 0
    rw [readVarInt, hread] at h
    obtain ⟨rfl, rfl⟩ := Prod.mk.inj (Except.ok.inj h)
    refine ⟨toInt_lt word, m, rfl, fun hm => ?_⟩
    have hnat : word.toNat = m := by simpa using hword (by decide) (by simpa using hm)
    rw [toInt_of_toNat_lt (by omega), hnat]

/-- A number of the format that has 31 bits is read. -/
theorem readVarInt_of_base128 {bytes rest : List UInt8} {m : ℕ}
    (h : base128 bytes = some (m, rest)) (hm : m < 2 ^ 31) :
    readVarInt bytes = .ok ((m : ℤ), rest) := by
  obtain ⟨word, hread, hword⟩ := readVarIntFrom_some h 0 0
  have hnat : word.toNat = m := by simpa using hword (by decide) (by simpa using hm)
  rw [readVarInt, hread, toInt_of_toNat_lt (by omega), hnat]

/-! ### Instructions -/

/-- The bytes of an operand are read if they are there. -/
theorem readOperand_some {cmd : UInt8} {masks bytes rest : List UInt8} {n : ℕ}
    (h : operand cmd masks bytes = some (n, rest)) (value : BitVec 32) (shift : ℕ)
    (hvalue : value.toNat < 2 ^ shift) (hfit : shift + 8 * masks.length ≤ 32) :
    ∃ word : BitVec 32, readOperand cmd value shift masks bytes = (word, rest) ∧
      word.toNat = value.toNat + n * 2 ^ shift := by
  induction masks generalizing bytes n value shift with
  | nil =>
    obtain ⟨rfl, rfl⟩ := Prod.mk.inj (Option.some.inj h)
    exact ⟨value, rfl, by simp⟩
  | cons mask masks ih =>
    rw [List.length_cons] at hfit
    have hpow : 2 ^ (shift + 8) = 256 * 2 ^ shift := by
      rw [Nat.pow_add]
      ring
    unfold operand at h
    unfold readOperand
    split at h
    · rename_i hmask
      obtain ⟨⟨m, rest'⟩, hmore, heq⟩ := Option.map_eq_some_iff.mp h
      obtain ⟨rfl, rfl⟩ := Prod.mk.inj heq
      rw [if_pos hmask]
      obtain ⟨word, hread, hword⟩ := ih hmore value (shift + 8) (by omega) (by omega)
      refine ⟨word, hread, ?_⟩
      rw [hword, hpow]
      ring
    · rename_i hmask
      split at h
      · exact absurd h nofun
      rename_i b bytes
      obtain ⟨⟨m, rest'⟩, hmore, heq⟩ := Option.map_eq_some_iff.mp h
      obtain ⟨rfl, rfl⟩ := Prod.mk.inj heq
      rw [if_neg hmask]
      have hbyte := b.toNat_lt
      have hshift : 256 * 2 ^ shift ≤ 2 ^ 32 := by
        rw [← hpow]
        exact Nat.pow_le_pow_right (by decide) (by omega)
      have hless : b.toNat * 2 ^ shift ≤ 255 * 2 ^ shift := Nat.mul_le_mul_right _ (by omega)
      have hor := toNat_orShifted (n := b.toNat) hvalue (by omega)
      obtain ⟨word, hread, hword⟩ := ih hmore (orShifted value b.toNat shift) (shift + 8)
        (by omega) (by omega)
      refine ⟨word, hread, ?_⟩
      show word.toNat = value.toNat + (b.toNat + 256 * m) * 2 ^ shift
      rw [hword, hor, hpow]
      ring

/-- The code never reads more than there is. -/
theorem length_of_readOperand (cmd : UInt8) (value : BitVec 32) (shift : ℕ)
    (masks bytes : List UInt8) :
    (readOperand cmd value shift masks bytes).2.length ≤ bytes.length := by
  induction masks generalizing value shift bytes with
  | nil => exact le_rfl
  | cons mask masks ih =>
    unfold readOperand
    split
    · exact ih _ _ _
    · refine (ih _ _ _).trans ?_
      rw [List.length_tail]
      omega

/-- **An instruction of the format** is read, if its offset has 31 bits. -/
theorem readInstruction_some {cmd : UInt8} {bytes rest : List UInt8} {i : DeltaInstruction}
    (h : deltaInstruction cmd bytes = some (i, rest))
    (hoffset : ∀ offset size, i = .copy offset size → offset < 2 ^ 31) :
    readInstruction cmd bytes = some (i, rest) := by
  unfold deltaInstruction at h
  unfold readInstruction
  split_ifs at h with hreserved hinsert hlong
  · rw [if_neg hreserved, if_pos hinsert, if_neg hlong]
    exact h
  · obtain ⟨⟨offset, bytes'⟩, hoff, h⟩ := Option.bind_eq_some_iff.mp h
    obtain ⟨⟨size, bytes''⟩, hsize, h⟩ := Option.bind_eq_some_iff.mp h
    obtain ⟨rfl, rfl⟩ := Prod.mk.inj (Option.some.inj h)
    obtain ⟨offsetWord, hreadOff, hoffWord⟩ :=
      readOperand_some hoff 0 0 (by decide) (by decide)
    obtain ⟨sizeWord, hreadSize, hsizeWord⟩ :=
      readOperand_some hsize 0 0 (by decide) (by decide)
    have hsmall := hoffset _ _ rfl
    have hoffNat : offsetWord.toNat = offset := by simpa using hoffWord
    have hsizeNat : sizeWord.toNat = size := by simpa using hsizeWord
    rw [if_neg hreserved, if_neg hinsert, hreadOff]
    dsimp only
    rw [hreadSize, toInt_of_toNat_lt (by omega), hoffNat, hsizeNat]

/-- An instruction leaves no more than was there. -/
theorem length_of_readInstruction {cmd : UInt8} {bytes rest : List UInt8} {i : DeltaInstruction}
    (h : readInstruction cmd bytes = some (i, rest)) : rest.length ≤ bytes.length := by
  unfold readInstruction at h
  split_ifs at h
  · obtain ⟨-, rfl⟩ := Prod.mk.inj (Option.some.inj h)
    rw [List.length_drop]
    omega
  · obtain ⟨-, rfl⟩ := Prod.mk.inj (Option.some.inj h)
    exact (length_of_readOperand ..).trans (length_of_readOperand ..)

/-- What the format says in 31 bits is what the code reads. -/
theorem codeInstructions {bytes : List UInt8} {is : List DeltaInstruction}
    (h : Instructions deltaInstruction bytes is)
    (hoffset : ∀ offset size, .copy offset size ∈ is → offset < 2 ^ 31) :
    Instructions readInstruction bytes is := by
  induction h with
  | done => exact .done
  | more hread _ ih =>
    refine .more (readInstruction_some hread fun offset size hi => ?_)
      (ih fun offset size hmem => ?_)
    · exact hoffset offset size (hi ▸ List.mem_cons_self)
    · exact hoffset offset size (List.mem_cons_of_mem _ hmem)

/-- A copy of the format starts at an offset of the base. -/
theorem offset_nonneg {bytes : List UInt8} {is : List DeltaInstruction}
    (h : Instructions deltaInstruction bytes is) :
    ∀ offset size, .copy offset size ∈ is → 0 ≤ offset := by
  induction h with
  | done => exact fun _ _ hmem => absurd hmem List.not_mem_nil
  | more hread _ ih =>
    intro offset size hmem
    rcases List.mem_cons.mp hmem with rfl | hmem
    · unfold deltaInstruction at hread
      split_ifs at hread
      · exact absurd (Prod.mk.inj (Option.some.inj hread)).1 nofun
      · obtain ⟨⟨n, bytes'⟩, -, hread⟩ := Option.bind_eq_some_iff.mp hread
        obtain ⟨⟨m, bytes''⟩, -, hread⟩ := Option.bind_eq_some_iff.mp hread
        obtain ⟨hcopy, -⟩ := Prod.mk.inj (Option.some.inj hread)
        obtain ⟨rfl, -⟩ := DeltaInstruction.copy.inj hcopy
        exact Int.natCast_nonneg n
    · exact ih offset size hmem

/-! ### The loop -/

/-- One round of the loop: the next instruction is refused, or its bytes are set. -/
theorem applyDeltaFrom_round (base : List UInt8) (fuel : ℕ) (cmd : UInt8)
    (delta : List UInt8) (filled : ℕ) (out : List UInt8) :
    (∃ i rest, readInstruction cmd delta = some (i, rest) ∧ i.InBounds base ∧
      filled + i.size ≤ out.length ∧ applyDeltaFrom base (fuel + 1) (cmd :: delta) filled out =
        applyDeltaFrom base fuel rest (filled + i.size) (setBytes out (foundBytes base i) filled)) ∨
    (∃ message, applyDeltaFrom base (fuel + 1) (cmd :: delta) filled out =
        .error (gitFailure message)) ∧
      ∀ i rest, readInstruction cmd delta = some (i, rest) → i.InBounds base →
        out.length < filled + i.size := by
  rw [applyDeltaFrom]
  unfold readInstruction
  by_cases hreserved : cmd = 0
  · rw [if_pos hreserved, if_pos hreserved]
    exact .inr ⟨⟨_, rfl⟩, nofun⟩
  rw [if_neg hreserved, if_neg hreserved]
  by_cases hinsert : cmd &&& 0x80 = 0
  · rw [if_pos hinsert, if_pos hinsert]
    by_cases hlong : delta.length < cmd.toNat
    · rw [if_pos hlong, if_pos (.inl hlong)]
      exact .inr ⟨⟨_, rfl⟩, nofun⟩
    rw [if_neg hlong]
    have hsize : (DeltaInstruction.insert (delta.take cmd.toNat)).size = cmd.toNat := by
      show (delta.take cmd.toNat).length = cmd.toNat
      rw [List.length_take]
      omega
    by_cases hfull : out.length < filled + cmd.toNat
    · rw [if_pos (.inr hfull)]
      refine .inr ⟨⟨_, rfl⟩, ?_⟩
      rintro i rest h -
      rw [← (Prod.mk.inj (Option.some.inj h)).1, hsize]
      exact hfull
    · rw [if_neg (not_or.mpr ⟨hlong, hfull⟩)]
      refine .inl ⟨_, _, rfl, trivial, ?_, ?_⟩
      · rw [hsize]
        omega
      · rw [hsize]
        rfl
  · rw [if_neg hinsert, if_neg hinsert]
    set offset := readOperand cmd 0 0 offsetMasks delta with hoffset
    set size := readOperand cmd 0 0 sizeMasks offset.2 with hsize
    set copySize := if size.1.toNat = 0 then 0x10000 else size.1.toNat with hcopy
    by_cases hrefused : (base.length : ℤ) < offset.1.toInt + copySize ∨
        out.length < filled + copySize
    · refine .inr ⟨⟨_, if_pos hrefused⟩, ?_⟩
      intro i rest h hbounds
      rw [← (Prod.mk.inj (Option.some.inj h)).1] at hbounds ⊢
      exact hrefused.resolve_left (Int.not_lt.mpr hbounds)
    · obtain ⟨hbounds, hfull⟩ := not_or.mp hrefused
      exact .inl ⟨_, _, rfl, Int.not_lt.mp hbounds, Nat.not_lt.mp hfull, if_neg hrefused⟩

/-- A copy never finds more bytes than it asks for. -/
theorem length_foundBytes (base : List UInt8) (i : DeltaInstruction) :
    (foundBytes base i).length ≤ i.size := by
  cases i with
  | insert bytes => exact le_rfl
  | copy offset size =>
    unfold foundBytes subarrayFromEnd subarray DeltaInstruction.size
    dsimp only
    rw [List.length_drop, List.length_take]
    split_ifs <;> omega

/-- Setting bytes behind what is written. -/
theorem setBytes_written (base written : List UInt8) {i : DeltaInstruction} {room : ℕ}
    (hroom : i.size ≤ room) :
    setBytes (written ++ List.replicate room 0) (foundBytes base i) written.length =
      (written ++ copiedBytes base i) ++ List.replicate (room - i.size) 0 := by
  have hfound := length_foundBytes base i
  have hzeros : List.replicate (room - (foundBytes base i).length) (0 : UInt8) =
      List.replicate (i.size - (foundBytes base i).length) 0 ++
        List.replicate (room - i.size) 0 := by
    rw [List.replicate_append_replicate]
    congr 1
    omega
  unfold setBytes copiedBytes
  rw [List.take_left, List.drop_append, List.drop_of_length_le (by omega), List.nil_append,
    Nat.add_sub_cancel_left, List.drop_replicate, hzeros]
  simp only [List.append_assoc]

theorem length_copiedBytes (base : List UInt8) (i : DeltaInstruction) :
    (copiedBytes base i).length = i.size := by
  have hfound := length_foundBytes base i
  unfold copiedBytes
  rw [List.length_append, List.length_replicate]
  omega

/-- **What the loop does**: it follows the instructions that it reads, if they are in bounds and
    there is room for them, and throws otherwise. -/
theorem applyDeltaFrom_cases (base delta : List UInt8) {fuel : ℕ}
    (hfuel : delta.length ≤ fuel) (written : List UInt8) (room : ℕ) :
    (∃ is, Instructions readInstruction delta is ∧ (∀ i ∈ is, i.InBounds base) ∧
      totalSize is ≤ room ∧
      applyDeltaFrom base fuel delta written.length (written ++ List.replicate room 0) =
        .ok (written.length + totalSize is,
          written ++ is.flatMap (copiedBytes base) ++ List.replicate (room - totalSize is) 0)) ∨
    (∃ message, applyDeltaFrom base fuel delta written.length (written ++ List.replicate room 0) =
        .error (gitFailure message)) ∧
      ∀ is, Instructions readInstruction delta is → (∀ i ∈ is, i.InBounds base) →
        room < totalSize is := by
  induction fuel generalizing delta written room with
  | zero =>
    obtain rfl := List.length_eq_zero_iff.mp (Nat.le_zero.mp hfuel)
    refine .inl ⟨[], .done, by simp, Nat.zero_le _, ?_⟩
    simp [applyDeltaFrom]
  | succ fuel ih =>
    cases delta with
    | nil =>
      refine .inl ⟨[], .done, by simp, Nat.zero_le _, ?_⟩
      simp [applyDeltaFrom]
    | cons cmd delta =>
      rcases applyDeltaFrom_round base fuel cmd delta written.length
        (written ++ List.replicate room 0) with ⟨i, rest, hread, hbounds, hroom, hround⟩ |
        ⟨herror, hrefused⟩
      · rw [List.length_append, List.length_replicate, Nat.add_le_add_iff_left] at hroom
        have hrest := length_of_readInstruction hread
        have hlength : written.length + i.size = (written ++ copiedBytes base i).length := by
          rw [List.length_append, length_copiedBytes]
        rw [List.length_cons] at hfuel
        rw [hround, setBytes_written base written hroom, hlength]
        rcases ih rest (by omega) (written ++ copiedBytes base i) (room - i.size) with
          ⟨is, hmore, hall, htotal, hloop⟩ | ⟨herror, hmore⟩
        · refine .inl ⟨i :: is, .more hread hmore, ?_, ?_, ?_⟩
          · exact List.forall_mem_cons.mpr ⟨hbounds, hall⟩
          · rw [totalSize_cons]
            omega
          · rw [hloop, totalSize_cons, List.flatMap_cons, ← hlength, Nat.add_assoc, Nat.sub_sub]
            simp only [List.append_assoc]
        · refine .inr ⟨herror, fun is his hall => ?_⟩
          cases his with
          | more hread' hmore' =>
            obtain ⟨rfl, rfl⟩ := Prod.mk.inj (Option.some.inj (hread.symm.trans hread'))
            have := hmore _ hmore' fun j hj => hall j (List.mem_cons_of_mem _ hj)
            rw [totalSize_cons]
            omega
      · refine .inr ⟨herror, fun is his hall => ?_⟩
        cases his with
        | more hread hmore =>
          have := hrefused _ _ hread (hall _ List.mem_cons_self)
          rw [List.length_append, List.length_replicate] at this
          rw [totalSize_cons]
          omega

/-! ### A whole delta -/

/-- The length of what instructions leave in the result. -/
theorem length_copied (base : List UInt8) (is : List DeltaInstruction) :
    (is.flatMap (copiedBytes base)).length = totalSize is := by
  rw [List.length_flatMap]
  exact congrArg List.sum (List.map_congr_left fun i _ => length_copiedBytes base i)

variable {arrayLimit : ℕ} {base delta : List UInt8}

theorem isKodyError_gitFailure (message : Text) : IsKodyError (gitFailure message) :=
  ⟨_, _, _, rfl⟩

/-- A delta says one thing to the code. -/
theorem codeReads_unique {r r' : DeltaReading} (h : CodeReads delta r) (h' : CodeReads delta r') :
    r = r' := by
  obtain ⟨rest, last, hsource, htarget, his⟩ := h
  obtain ⟨rest', last', hsource', htarget', his'⟩ := h'
  obtain ⟨heq, rfl⟩ := Prod.mk.inj (Except.ok.inj (hsource.symm.trans hsource'))
  obtain ⟨heq', rfl⟩ := Prod.mk.inj (Except.ok.inj (htarget.symm.trans htarget'))
  have hall := instructions_unique his his'
  cases r
  cases r'
  simp_all

/-- `readVarInt` throws errors of the code's own. -/
theorem readVarInt_error {bytes : List UInt8} {e : Thrown} (h : readVarInt bytes = .error e) :
    IsKodyError e := by
  cases hbytes : base128 bytes with
  | none =>
    rw [readVarInt, readVarIntFrom_none hbytes] at h
    exact Except.error.inj h ▸ isKodyError_gitFailure _
  | some r =>
    obtain ⟨word, hread, -⟩ := readVarIntFrom_some hbytes 0 0
    rw [readVarInt, hread] at h
    exact absurd h nofun

/-- Where the sizes are read, what a delta says to the code is left to its instructions. -/
theorem codeReads_iff {rest last : List UInt8} {target : ℤ}
    (hsource : readVarInt delta = .ok ((base.length : ℤ), rest))
    (htarget : readVarInt rest = .ok (target, last)) (r : DeltaReading) : CodeReads delta r ↔
      r.source = base.length ∧ r.target = target ∧
        Instructions readInstruction last r.instructions := by
  constructor
  · rintro ⟨rest', last', h, h', his⟩
    rw [hsource] at h
    obtain ⟨hfirst, rfl⟩ := Prod.mk.inj (Except.ok.inj h)
    rw [htarget] at h'
    obtain ⟨hsecond, rfl⟩ := Prod.mk.inj (Except.ok.inj h')
    exact ⟨hfirst.symm, hsecond.symm, his⟩
  · rintro ⟨hfirst, hsecond, his⟩
    exact ⟨rest, last, hfirst ▸ hsource, hsecond ▸ htarget, his⟩

/-- What `applyDelta` does once it has an array for the result. -/
theorem applyDelta_filled {rest last : List UInt8} {target : ℕ}
    (hsource : readVarInt delta = .ok ((base.length : ℤ), rest))
    (htarget : readVarInt rest = .ok ((target : ℤ), last)) (hlimit : target ≤ arrayLimit) :
    (∃ r, CodeReads delta r ∧ r.Fits base ∧
      applyDelta arrayLimit base delta = .ok (r.instructions.flatMap (copiedBytes base))) ∨
    (∃ e, applyDelta arrayLimit base delta = .error e ∧ IsKodyError e) ∧
      ∀ r, CodeReads delta r → ¬ r.Fits base := by
  have hrun : applyDelta arrayLimit base delta =
      (applyDeltaFrom base last.length last 0 (List.replicate target 0)).bind fun r =>
        if r.1 ≠ r.2.length then .error (gitFailure "Git delta output size mismatch.")
        else .ok r.2 := by
    have hfits : ¬ ((target : ℤ) < 0 ∨ (arrayLimit : ℤ) < target) := by omega
    unfold applyDelta
    simp only [hsource, htarget, bind, Except.bind, hfits, ne_eq, not_true_eq_false, if_false,
      Int.toNat_natCast]
  have hloop := applyDeltaFrom_cases base last le_rfl [] target
  rw [List.nil_append, List.length_nil] at hloop
  rw [hrun]
  rcases hloop with ⟨is, his, hbounds, htotal, hloop⟩ | ⟨⟨message, hloop⟩, hrefused⟩
  · have hlength : ([] ++ is.flatMap (copiedBytes base) ++
        List.replicate (target - totalSize is) 0).length = target := by
      rw [List.nil_append, List.length_append, length_copied, List.length_replicate]
      omega
    rw [hloop]
    by_cases hfull : totalSize is = target
    · refine .inl ⟨⟨base.length, target, is⟩, (codeReads_iff hsource htarget _).mpr
        ⟨rfl, rfl, his⟩, ⟨rfl, hbounds, congrArg Nat.cast hfull.symm⟩, ?_⟩
      show (if 0 + totalSize is ≠ List.length _ then _ else Except.ok _) = _
      rw [hlength, if_neg (by omega), hfull, Nat.sub_self]
      simp
    · refine .inr ⟨⟨_, if_pos ?_, isKodyError_gitFailure _⟩, fun r hr hfits => hfull ?_⟩
      · rw [hlength]
        omega
      · obtain ⟨-, hsize, his'⟩ := (codeReads_iff hsource htarget r).mp hr
        have := hfits.target
        rw [instructions_unique his' his] at this
        omega
  · rw [hloop]
    refine .inr ⟨⟨_, rfl, isKodyError_gitFailure _⟩, fun r hr hfits => ?_⟩
    obtain ⟨-, hsize, his⟩ := (codeReads_iff hsource htarget r).mp hr
    have := hrefused _ his hfits.bounds
    have := hfits.target
    omega

/-- A size that no array can have. -/
theorem applyDelta_noRoom {rest last : List UInt8} {target : ℤ}
    (hsource : readVarInt delta = .ok ((base.length : ℤ), rest))
    (htarget : readVarInt rest = .ok (target, last))
    (hlimit : ¬ (0 ≤ target ∧ target ≤ arrayLimit)) :
    applyDelta arrayLimit base delta = .error invalidLength := by
  have hthrows : target < 0 ∨ (arrayLimit : ℤ) < target := by omega
  simp [applyDelta, bind, Except.bind, hsource, htarget, hthrows]

/-- **What `applyDelta` does** with any bytes. -/
theorem applyDelta_cases (arrayLimit : ℕ) (base delta : List UInt8) :
    (∃ r, CodeReads delta r ∧ r.Fits base ∧
      applyDelta arrayLimit base delta = .ok (r.instructions.flatMap (copiedBytes base))) ∨
    ((∃ e, applyDelta arrayLimit base delta = .error e ∧ IsKodyError e) ∧
      ∀ r, CodeReads delta r → ¬ r.Fits base) ∨
    (applyDelta arrayLimit base delta = .error invalidLength ∧
      ∃ target rest rest', readVarInt delta = .ok ((base.length : ℤ), rest) ∧
        readVarInt rest = .ok (target, rest') ∧ ¬ (0 ≤ target ∧ target ≤ arrayLimit)) := by
  cases hsource : readVarInt delta with
  | error e =>
    refine .inr (.inl ⟨⟨e, ?_, readVarInt_error hsource⟩, fun r hr => ?_⟩)
    · simp [applyDelta, bind, Except.bind, hsource]
    · obtain ⟨rest, rest', h, -⟩ := hr
      rw [hsource] at h
      exact absurd h nofun
  | ok source =>
    obtain ⟨sourceSize, rest⟩ := source
    by_cases hsize : sourceSize = base.length
    swap
    · refine .inr (.inl ⟨⟨_, ?_, isKodyError_gitFailure "Git delta source size mismatch."⟩,
        fun r hr hfits => ?_⟩)
      · simp [applyDelta, bind, Except.bind, hsource, hsize]
      · obtain ⟨_, _, h, -⟩ := hr
        rw [hsource] at h
        rw [(Prod.mk.inj (Except.ok.inj h)).1, hfits.source] at hsize
        exact hsize rfl
    subst hsize
    cases htarget : readVarInt rest with
    | error e =>
      refine .inr (.inl ⟨⟨e, ?_, readVarInt_error htarget⟩, fun r hr => ?_⟩)
      · simp [applyDelta, bind, Except.bind, hsource, htarget]
      · obtain ⟨rest', last, h, h', -⟩ := hr
        rw [hsource] at h
        rw [← (Prod.mk.inj (Except.ok.inj h)).2, htarget] at h'
        exact absurd h' nofun
    | ok target =>
      obtain ⟨targetSize, last⟩ := target
      by_cases hlimit : ¬ (0 ≤ targetSize ∧ targetSize ≤ arrayLimit)
      · exact .inr (.inr ⟨applyDelta_noRoom hsource htarget hlimit, targetSize, rest, last, rfl,
          htarget, hlimit⟩)
      · obtain ⟨size, rfl⟩ := Int.eq_ofNat_of_zero_le (a := targetSize) (by omega)
        have hsize : size ≤ arrayLimit := by omega
        rcases applyDelta_filled hsource htarget hsize with hok | herror
        · exact .inl hok
        · exact .inr (.inl herror)

/-! ### When the code does what the format says -/

/-- What the code copies of a delta in git's format is what the format says. -/
theorem copiedBytes_eq {i : DeltaInstruction} (hbounds : i.InBounds base)
    (hoffset : ∀ offset size, i = .copy offset size → 0 ≤ offset) :
    copiedBytes base i = i.bytes base := by
  have hfound : foundBytes base i = i.bytes base := by
    cases i with
    | insert bytes => rfl
    | copy offset size =>
      obtain ⟨n, rfl⟩ := Int.eq_ofNat_of_zero_le (hoffset offset size rfl)
      have hstart : ¬ ((n : ℤ) < 0) := by omega
      have hstop : ¬ ((n : ℤ) + size < 0) := by omega
      have hsum : ((n : ℤ) + size).toNat = n + size := by omega
      unfold foundBytes subarrayFromEnd subarray DeltaInstruction.bytes
      dsimp only
      rw [if_neg hstart, if_neg hstop, hsum, Int.toNat_natCast, List.drop_take]
      congr 1
      omega
  have hlength : (i.bytes base).length = i.size := by
    cases i with
    | insert bytes => rfl
    | copy offset size =>
      have hstart := hoffset offset size rfl
      have hend : offset + size ≤ base.length := hbounds
      show ((base.drop offset.toNat).take size).length = size
      rw [List.length_take, List.length_drop]
      omega
  unfold copiedBytes
  rw [hfound, hlength, Nat.sub_self, List.replicate_zero, List.append_nil]

theorem result_eq {r : DeltaReading} (h : DeltaReads delta r) (hfits : r.Fits base) :
    r.instructions.flatMap (copiedBytes base) = r.result base := by
  obtain ⟨_, _, _, _, -, -, -, -, his⟩ := h
  unfold DeltaReading.result
  rw [List.flatMap_def, List.flatMap_def]
  congr 1
  refine List.map_congr_left fun i hi => copiedBytes_eq (hfits.bounds i hi) ?_
  rintro offset size rfl
  exact offset_nonneg his offset size hi

/-- **A delta for a short base and result** is read as the format says. -/
theorem codeReads_of_reads {r : DeltaReading} (h : DeltaReads delta r) (hfits : r.Fits base)
    (hbase : base.length < 2 ^ 31) (htarget : r.target < 2 ^ 31) : CodeReads delta r := by
  obtain ⟨source, target, rest, rest', hread, hread', hsource, hsize, his⟩ := h
  have hfirst : source = base.length := by
    have := hfits.source
    omega
  refine ⟨rest, rest', ?_, ?_, codeInstructions his fun offset size hmem => ?_⟩
  · rw [hsource]
    exact readVarInt_of_base128 hread (by omega)
  · rw [hsize]
    exact readVarInt_of_base128 hread' (by omega)
  · have hend : offset + size ≤ base.length := hfits.bounds _ hmem
    omega

/-- **When the code does what the format says**: exactly when a delta for the base is no longer
    than the bit operators count, a delta that the code takes for one is one, and a size of the
    result that the code reads can be had. -/
theorem applyDelta_meets (arrayLimit : ℕ) (base delta : List UInt8) :
    MeetsFormat arrayLimit base delta ↔ DeltaHandled arrayLimit base delta := by
  have hcases := applyDelta_cases arrayLimit base delta
  constructor
  · rintro ⟨hresult, hrefused⟩
    have hroom : ∀ target rest rest', readVarInt delta = .ok ((base.length : ℤ), rest) →
        readVarInt rest = .ok (target, rest') → 0 ≤ target ∧ target ≤ arrayLimit := by
      intro target rest rest' hsource htarget
      by_contra hlimit
      have hrun := applyDelta_noRoom hsource htarget hlimit
      by_cases hnone : ∃ r, DeltaReads delta r ∧ r.Fits base
      · obtain ⟨r, hr, hfits⟩ := hnone
        exact absurd ((hresult r hr hfits).symm.trans hrun) nofun
      · obtain ⟨e, herror, code, message, status, rfl⟩ := hrefused hnone
        exact absurd (Except.error.inj (herror.symm.trans hrun)) nofun
    have hshort : ∀ r, DeltaReads delta r → r.Fits base →
        base.length < 2 ^ 31 ∧ r.target < 2 ^ 31 := by
      intro r hr hfits
      have hok := hresult r hr hfits
      rcases hcases with ⟨r', hread, hfits', hrun⟩ | ⟨⟨e, hrun, -⟩, -⟩ | ⟨hrun, -⟩
      · obtain ⟨rest, rest', hsource, htarget, -⟩ := hread
        -- both results have the size that is read
        have hsame := Except.ok.inj (hrun.symm.trans hok)
        rw [← result_eq hr hfits] at hsame
        have hlength := congrArg List.length hsame
        rw [length_copied, length_copied] at hlength
        have hbase := (readVarInt_ok hsource).1
        have hsize := (readVarInt_ok htarget).1
        have := hfits'.source
        have := hfits'.target
        have := hfits.target
        omega
      · exact absurd (hok.symm.trans hrun) nofun
      · exact absurd (hok.symm.trans hrun) nofun
    refine ⟨hshort, fun r hr hfits => ?_, hroom⟩
    by_cases hnone : ∃ r, DeltaReads delta r ∧ r.Fits base
    · obtain ⟨r', hr', hfits'⟩ := hnone
      obtain ⟨hbase, htarget⟩ := hshort r' hr' hfits'
      rw [codeReads_unique hr (codeReads_of_reads hr' hfits' hbase htarget)]
      exact hr'
    · obtain ⟨e, herror, -⟩ := hrefused hnone
      rcases hcases with ⟨r', hread, hfits', hrun⟩ | ⟨-, hnot⟩ | ⟨-, hlimit⟩
      · exact absurd (hrun.symm.trans herror) nofun
      · exact absurd hfits (hnot r hr)
      · obtain ⟨target, rest, rest', hsource, hsize, hnot⟩ := hlimit
        exact absurd (hroom target rest rest' hsource hsize) hnot
  · rintro ⟨hshort, hasRead, hroom⟩
    refine ⟨fun r hr hfits => ?_, fun hnone => ?_⟩
    · obtain ⟨hbase, htarget⟩ := hshort r hr hfits
      have hread := codeReads_of_reads hr hfits hbase htarget
      rcases hcases with ⟨r', hread', hfits', hrun⟩ | ⟨-, hnone⟩ | ⟨-, hlimit⟩
      · rw [hrun, ← codeReads_unique hread hread', result_eq hr hfits]
      · exact absurd hfits (hnone r hread)
      · obtain ⟨target, rest, rest', hsource, hsize, hnot⟩ := hlimit
        exact absurd (hroom target rest rest' hsource hsize) hnot
    · rcases hcases with ⟨r, hread, hfits, -⟩ | ⟨herror, -⟩ | ⟨-, hlimit⟩
      · exact absurd ⟨r, hasRead r hread hfits, hfits⟩ hnone
      · exact herror
      · obtain ⟨target, rest, rest', hsource, hsize, hnot⟩ := hlimit
        exact absurd (hroom target rest rest' hsource hsize) hnot

/-- **A delta that ends within a number is applied**: the command announces two bytes for the size,
    and the second is missing. -/
theorem truncated_copied : ¬ MeetsFormat 65536 [7] [1, 1, 0xb0, 1] := by
  rintro ⟨-, hrefused⟩
  have hnone : ¬ ∃ r, DeltaReads [1, 1, 0xb0, 1] r ∧ r.Fits [7] := by
    rintro ⟨r, ⟨source, target, rest, rest', hsource, htarget, -, -, his⟩, -⟩
    have hfirst : base128 [1, 1, 0xb0, 1] = some (1, [1, 0xb0, 1]) := by decide
    obtain ⟨-, rfl⟩ := Prod.mk.inj (Option.some.inj (hfirst.symm.trans hsource))
    have hsecond : base128 [1, 0xb0, 1] = some (1, [0xb0, 1]) := by decide
    obtain ⟨-, rfl⟩ := Prod.mk.inj (Option.some.inj (hsecond.symm.trans htarget))
    have hcommand : deltaInstruction 0xb0 [1] = none := by decide
    generalize r.instructions = is at his
    cases his with
    | more h _ => exact absurd (hcommand.symm.trans h) nofun
  obtain ⟨e, herror, -⟩ := hrefused hnone
  have hrun : applyDelta 65536 [7] [1, 1, 0xb0, 1] = .ok [7] := by decide +kernel
  exact absurd (hrun.symm.trans herror) nofun

end KodyCelld.Packages
