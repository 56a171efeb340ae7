import KodyCelld.Lib.JsonText

namespace KodyCelld.Lib

/-!
# Bytes in hexadecimal digits

* `bytesToHex`, `hexToBytes` — the digits of bytes, and the bytes that a text is read as, whatever it is;
* `hexToBytes_bytesToHex` — bytes read back.
-/

/-- `parseInt(digits, 16)` as a byte: white space and a sign may stand before a digit, and what is not a
    number becomes `0`. -/
def hexByte (a b : Char) : UInt8 :=
  match hexDigit? a, hexDigit? b with
  | some a, some b => UInt8.ofNat (16 * a + b)
  | some a, none => UInt8.ofNat a
  | none, some b =>
    if isSpace a || a == '+' then UInt8.ofNat b
    else if a = '-' then UInt8.ofNat (256 - b)
    else 0
  | none, none => 0

/-- The code units of a text; a character of two is no digit in either. -/
def hexUnits (text : Text) : Text := text.flatMap fun c => if 0x10000 ≤ c.toNat then [c, c] else [c]

def hexPairs : Text → List UInt8
  | a :: b :: rest => hexByte a b :: hexPairs rest
  | _ => []

/-- `hexToBytes(hex)`; half a byte at the end is dropped. -/
def hexToBytes (hex : Text) : List UInt8 := hexPairs (hexUnits hex)

def byteHex (b : UInt8) : Text := [hexChar (b.toNat / 16), hexChar (b.toNat % 16)]

def bytesToHex (bytes : List UInt8) : Text := bytes.flatMap byteHex

/-! ### Reading back -/

section
variable {bytes : List UInt8} {hex : Text}

/-- A digit is one of sixteen. -/
theorem hexChar_cases : ∀ n : Fin 16, hexChar n ∈ ("0123456789abcdef" : Text) := by
  decide

theorem mem_bytesToHex {c : Char} (h : c ∈ bytesToHex bytes) : c ∈ ("0123456789abcdef" : Text) := by
  obtain ⟨b, -, hchar⟩ := List.mem_flatMap.mp h
  have hb := b.toNat_lt
  rcases List.mem_cons.mp hchar with rfl | hchar
  · exact hexChar_cases ⟨b.toNat / 16, by omega⟩
  · rw [List.mem_singleton.mp hchar]
    exact hexChar_cases ⟨b.toNat % 16, by omega⟩

theorem hexUnits_eq_self (h : ∀ c ∈ hex, c.toNat < 0x10000) : hexUnits hex = hex := by
  induction hex with
  | nil => rfl
  | cons c rest ih =>
    obtain ⟨hc, hrest⟩ := List.forall_mem_cons.mp h
    have hone : hexUnits (c :: rest) = [c] ++ hexUnits rest := by
      show (if 0x10000 ≤ c.toNat then [c, c] else [c]) ++ hexUnits rest = _
      rw [if_neg (Nat.not_le.mpr hc)]
    rw [hone, ih hrest, List.singleton_append]

theorem hexByte_hexChar (b : UInt8) : hexByte (hexChar (b.toNat / 16)) (hexChar (b.toNat % 16)) = b := by
  have hb := b.toNat_lt
  have hhigh := hexDigit_hexChar ⟨b.toNat / 16, by omega⟩
  have hlow := hexDigit_hexChar ⟨b.toNat % 16, by omega⟩
  unfold hexByte
  simp only [hhigh, hlow]
  rw [show 16 * (b.toNat / 16) + b.toNat % 16 = b.toNat by omega]
  exact UInt8.ofNat_toNat

/-- **Bytes read back.** -/
theorem hexToBytes_bytesToHex (bytes : List UInt8) : hexToBytes (bytesToHex bytes) = bytes := by
  have hsmall : ∀ c ∈ bytesToHex bytes, c.toNat < 0x10000 := by
    have hall : ∀ c ∈ ("0123456789abcdef" : Text), c.toNat < 0x10000 := by decide
    exact fun c hc => hall c (mem_bytesToHex hc)
  unfold hexToBytes
  rw [hexUnits_eq_self hsmall]
  clear hsmall
  induction bytes with
  | nil => rfl
  | cons b rest ih =>
    show hexByte _ _ :: hexPairs (bytesToHex rest) = _
    rw [hexByte_hexChar, ih]

theorem length_bytesToHex (bytes : List UInt8) : (bytesToHex bytes).length = 2 * bytes.length := by
  induction bytes with
  | nil => rfl
  | cons b rest ih =>
    show (byteHex b ++ bytesToHex rest).length = _
    rw [List.length_append, ih]
    show 2 + _ = 2 * (rest.length + 1)
    omega

end

end KodyCelld.Lib
