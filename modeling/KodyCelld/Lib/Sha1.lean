import KodyCelld.Lib.Bytes

namespace KodyCelld.Lib

/-!
# SHA-1

`crypto.subtle.digest('SHA-1', …)`: the message is padded to blocks of 64 bytes, and each block goes
through eighty rounds.
-/

structure Sha1State where
  a : BitVec 32
  b : BitVec 32
  c : BitVec 32
  d : BitVec 32
  e : BitVec 32
  deriving DecidableEq, Repr

def Sha1State.start : Sha1State := ⟨0x67452301, 0xefcdab89, 0x98badcfe, 0x10325476, 0xc3d2e1f0⟩

def Sha1State.add (s t : Sha1State) : Sha1State :=
  ⟨s.a + t.a, s.b + t.b, s.c + t.c, s.d + t.d, s.e + t.e⟩

/-- The function and the constant of a round. -/
def sha1Mix (t : ℕ) (s : Sha1State) : BitVec 32 × BitVec 32 :=
  if t < 20 then ((s.b &&& s.c) ||| (~~~ s.b &&& s.d), 0x5a827999)
  else if t < 40 then (s.b ^^^ s.c ^^^ s.d, 0x6ed9eba1)
  else if t < 60 then ((s.b &&& s.c) ||| (s.b &&& s.d) ||| (s.c &&& s.d), 0x8f1bbcdc)
  else (s.b ^^^ s.c ^^^ s.d, 0xca62c1d6)

def sha1Round (t : ℕ) (word : BitVec 32) (s : Sha1State) : Sha1State :=
  let (f, k) := sha1Mix t s
  ⟨s.a.rotateLeft 5 + f + s.e + k + word, s.a, s.b.rotateLeft 30, s.c, s.d⟩

/-- The rounds that are left, with the next sixteen words of the schedule. -/
def sha1Rounds : (left : ℕ) → (words : List (BitVec 32)) → Sha1State → Sha1State
  | 0, _, s => s
  | left + 1, words, s =>
    let word := words.headD 0
    let later := (words.getD 13 0 ^^^ words.getD 8 0 ^^^ words.getD 2 0 ^^^ word).rotateLeft 1
    sha1Rounds left (words.tail ++ [later]) (sha1Round (79 - left) word s)

/-- Four bytes, the highest first. -/
def wordsOf : List UInt8 → List (BitVec 32)
  | b0 :: b1 :: b2 :: b3 :: bytes =>
    BitVec.ofNat 32 (((b0.toNat * 256 + b1.toNat) * 256 + b2.toNat) * 256 + b3.toNat) ::
      wordsOf bytes
  | _ => []

def bytesOfWord (word : BitVec 32) : List UInt8 :=
  [24, 16, 8, 0].map fun shift => UInt8.ofNat (word.toNat / 2 ^ shift)

/-- The bit 1, zeros, and the length in bits. -/
def sha1Padding (length : ℕ) : List UInt8 :=
  0x80 :: List.replicate ((119 - length % 64) % 64) 0 ++
    bytesOfWord (BitVec.ofNat 32 (8 * length / 2 ^ 32)) ++
    bytesOfWord (BitVec.ofNat 32 (8 * length))

def sha1Blocks : (blocks : ℕ) → (words : List (BitVec 32)) → Sha1State → Sha1State
  | 0, _, s => s
  | blocks + 1, words, s =>
    sha1Blocks blocks (words.drop 16) ((sha1Rounds 80 (words.take 16) s).add s)

def sha1 (message : List UInt8) : List UInt8 :=
  let words := wordsOf (message ++ sha1Padding message.length)
  let s := sha1Blocks (words.length / 16) words .start
  [s.a, s.b, s.c, s.d, s.e].flatMap bytesOfWord

example : sha1 (utf8Encode "abc") = [0xa9, 0x99, 0x3e, 0x36, 0x47, 0x06, 0x81, 0x6a, 0xba, 0x3e,
    0x25, 0x71, 0x78, 0x50, 0xc2, 0x6c, 0x9c, 0xd0, 0xd8, 0x9d] := by decide +kernel

end KodyCelld.Lib
