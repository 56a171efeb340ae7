import Mathlib

namespace KodyCelld.Lib

/-!
# Git's delta format

A delta names the size of its base and of its result, and then instructions that copy from the base
or insert bytes of their own.

* `base128`, `operand` — the numbers of the format;
* `deltaInstruction`, `Instructions` — the instructions;
* `DeltaReads`, `DeltaReading.Fits`, `DeltaReading.result` — what a delta says, whether it is one
  for a base, and what it makes of it;
* `instructions_unique` — a delta says one thing only.
-/

/-- A number in groups of seven bits, the lowest first; every byte but the last has its high bit
    set. -/
def base128 : List UInt8 → Option (ℕ × List UInt8)
  | [] => none
  | c :: bytes =>
    if c.toNat < 128 then some (c.toNat, bytes)
    else (base128 bytes).map fun r => (c.toNat - 128 + 128 * r.1, r.2)

/-- The bytes of a number that a command has bits for, the lowest first; the others are 0. -/
def operand (cmd : UInt8) : (masks : List UInt8) → List UInt8 → Option (ℕ × List UInt8)
  | [], bytes => some (0, bytes)
  | mask :: masks, bytes =>
    if cmd &&& mask = 0 then (operand cmd masks bytes).map fun r => (256 * r.1, r.2)
    else match bytes with
      | [] => none
      | b :: bytes => (operand cmd masks bytes).map fun r => (b.toNat + 256 * r.1, r.2)

inductive DeltaInstruction where
  | copy (offset : ℤ) (size : ℕ)
  | insert (bytes : List UInt8)
  deriving DecidableEq, Repr

def offsetMasks : List UInt8 := [0x01, 0x02, 0x04, 0x08]

def sizeMasks : List UInt8 := [0x10, 0x20, 0x40]

/-- The instruction of a command and the bytes behind it, and what is left of these. -/
def deltaInstruction (cmd : UInt8) (bytes : List UInt8) : Option (DeltaInstruction × List UInt8) :=
  if cmd = 0 then none
  else if cmd &&& 0x80 = 0 then
    if bytes.length < cmd.toNat then none
    else some (.insert (bytes.take cmd.toNat), bytes.drop cmd.toNat)
  else do
    let (offset, bytes) ← operand cmd offsetMasks bytes
    let (size, bytes) ← operand cmd sizeMasks bytes
    some (.copy offset (if size = 0 then 0x10000 else size), bytes)

/-- The bytes are commands, one after the other. -/
inductive Instructions (read : UInt8 → List UInt8 → Option (DeltaInstruction × List UInt8)) :
    List UInt8 → List DeltaInstruction → Prop
  | done : Instructions read [] []
  | more {cmd : UInt8} {bytes rest : List UInt8} {i : DeltaInstruction}
      {more : List DeltaInstruction} (h : read cmd bytes = some (i, rest))
      (hmore : Instructions read rest more) : Instructions read (cmd :: bytes) (i :: more)

/-- What a delta says. -/
structure DeltaReading where
  source : ℤ
  target : ℤ
  instructions : List DeltaInstruction
  deriving DecidableEq, Repr

/-- **What a delta says in git's format.** -/
def DeltaReads (delta : List UInt8) (r : DeltaReading) : Prop :=
  ∃ source target rest rest', base128 delta = some (source, rest) ∧
    base128 rest = some (target, rest') ∧ r.source = source ∧ r.target = target ∧
    Instructions deltaInstruction rest' r.instructions

/-! ### What a delta is for -/

def DeltaInstruction.size : DeltaInstruction → ℕ
  | .copy _ size => size
  | .insert bytes => bytes.length

/-- A copy ends in the base. -/
def DeltaInstruction.InBounds (base : List UInt8) : DeltaInstruction → Prop
  | .copy offset size => offset + size ≤ base.length
  | .insert _ => True

/-- The bytes that an instruction adds to the result. -/
def DeltaInstruction.bytes (base : List UInt8) : DeltaInstruction → List UInt8
  | .copy offset size => (base.drop offset.toNat).take size
  | .insert bytes => bytes

/-- The size of what instructions add. -/
def totalSize (instructions : List DeltaInstruction) : ℕ :=
  (instructions.map DeltaInstruction.size).sum

/-- A delta for a base: the sizes are right, and every copy is in bounds. -/
structure DeltaReading.Fits (base : List UInt8) (r : DeltaReading) : Prop where
  source : r.source = base.length
  bounds : ∀ i ∈ r.instructions, i.InBounds base
  target : r.target = totalSize r.instructions

/-- **What a delta makes of its base.** -/
def DeltaReading.result (base : List UInt8) (r : DeltaReading) : List UInt8 :=
  r.instructions.flatMap (DeltaInstruction.bytes base)

/-! ### Reading -/

@[simp] theorem totalSize_nil : totalSize [] = 0 := rfl

@[simp] theorem totalSize_cons (i : DeltaInstruction) (rest : List DeltaInstruction) :
    totalSize (i :: rest) = i.size + totalSize rest := by
  simp [totalSize]

/-- Commands say one thing only. -/
theorem instructions_unique {read : UInt8 → List UInt8 → Option (DeltaInstruction × List UInt8)}
    {bytes : List UInt8} {is js : List DeltaInstruction} (his : Instructions read bytes is)
    (hjs : Instructions read bytes js) : is = js := by
  induction his generalizing js with
  | done => cases hjs; rfl
  | more h _ ih =>
    cases hjs with
    | more h' hmore =>
      obtain ⟨rfl, rfl⟩ := Prod.mk.inj (Option.some.inj (h.symm.trans h'))
      rw [ih hmore]

end KodyCelld.Lib
