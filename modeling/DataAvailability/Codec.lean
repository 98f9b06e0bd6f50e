import Mathlib.Data.UInt
import Mathlib.Data.List.Basic

namespace DataAvailability.Codec

abbrev Bytes := List UInt8

structure FixedBytes (n : Nat) where
  bytes : Bytes
  length_eq : bytes.length = n
deriving DecidableEq, Repr

abbrev Hash := FixedBytes 32

abbrev Address := FixedBytes 20

theorem FixedBytes.ext {n : Nat} {a b : FixedBytes n} (h : a.bytes = b.bytes) : a = b := by
  cases a; cases b; cases h; rfl

def FixedBytes.zero (n : Nat) : FixedBytes n := ⟨List.replicate n 0, List.length_replicate n 0⟩

def hextable : List Char := "0123456789abcdef".toList

def hexChar (n : Nat) : Char := hextable.getD n '0'

def encode (src : Bytes) : List Char :=
  src.flatMap fun v => [hexChar (v.toNat / 16), hexChar (v.toNat % 16)]

def encodeToString (src : Bytes) : String := ⟨encode src⟩

def reverseHex (c : Char) : Option Nat :=
  if '0' ≤ c ∧ c ≤ '9' then some (c.toNat - '0'.toNat)
  else if 'a' ≤ c ∧ c ≤ 'f' then some (c.toNat - 'a'.toNat + 10)
  else if 'A' ≤ c ∧ c ≤ 'F' then some (c.toNat - 'A'.toNat + 10)
  else none

/-- `hex.Decode`: each pair of digits `a b` becomes the byte `a<<4 | b`; an invalid digit or a
lone last digit ends the loop, keeping what was decoded before it. -/
def decode : List Char → Bytes
  | p :: q :: rest =>
    match reverseHex p, reverseHex q with
    | some a, some b => UInt8.ofNat (a * 16 + b) :: decode rest
    | _, _ => []
  | _ => []

def has0xPrefix : List Char → Bool
  | c0 :: c1 :: _ => c0 == '0' && (c1 == 'x' || c1 == 'X')
  | _ => false

/-- `common.FromHex`, with `common.Hex2Bytes` dropping the error of `hex.DecodeString`. -/
def fromHex (s : String) : Bytes :=
  let s := if has0xPrefix s.data then s.data.drop 2 else s.data
  let s := if s.length % 2 = 1 then '0' :: s else s
  decode s

def bytes2Hex (d : Bytes) : String := encodeToString d

def Hash.hex (h : Hash) : String := "0x" ++ encodeToString h.bytes

def FixedBytes.setBytes (n : Nat) (b : Bytes) : FixedBytes n :=
  if h : b.length > n then ⟨b.drop (b.length - n), by simp; omega⟩
  else ⟨List.replicate (n - b.length) 0 ++ b, by simp; omega⟩

def hexToHash (s : String) : Hash := FixedBytes.setBytes 32 (fromHex s)

theorem reverseHex_hexChar_of_lt : ∀ n < 16, reverseHex (hexChar n) = some n := by
  decide

theorem hexChar_ne_x : ∀ n < 16, (hexChar n == 'x' || hexChar n == 'X') = false := by
  decide

@[simp] theorem encode_nil : encode [] = [] := rfl

@[simp] theorem encode_cons (v : UInt8) (src : Bytes) :
    encode (v :: src) = hexChar (v.toNat / 16) :: hexChar (v.toNat % 16) :: encode src := rfl

theorem length_encode (src : Bytes) : (encode src).length = 2 * src.length := by
  induction src with
  | nil => rfl
  | cons v src ih => simp only [encode_cons, List.length_cons, ih]; omega

theorem ofNat_div_mod (v : UInt8) : UInt8.ofNat (v.toNat / 16 * 16 + v.toNat % 16) = v := by
  apply UInt8.toNat.inj
  rw [Nat.div_add_mod']
  exact UInt8.toNat_ofNat_of_lt v.toNat_lt_size

theorem decode_encode (src : Bytes) : decode (encode src) = src := by
  induction src with
  | nil => rfl
  | cons v src ih =>
    have hv := v.toNat_lt_size
    rw [encode_cons, decode, reverseHex_hexChar_of_lt _ (by simp [UInt8.size] at hv; omega),
      reverseHex_hexChar_of_lt _ (Nat.mod_lt _ (by omega))]
    simp only [ih, ofNat_div_mod]

theorem has0xPrefix_encode (src : Bytes) : has0xPrefix (encode src) = false := by
  cases src with
  | nil => rfl
  | cons v src =>
    simp only [encode_cons, has0xPrefix, hexChar_ne_x _ (Nat.mod_lt _ (by omega : 16 > 0)),
      Bool.and_false]

@[simp] theorem fromHex_bytes2Hex (d : Bytes) : fromHex (bytes2Hex d) = d := by
  have h : (encode d).length % 2 = 0 := by rw [length_encode]; omega
  simp [fromHex, bytes2Hex, encodeToString, has0xPrefix_encode, h, decode_encode]

theorem setBytes_bytes {n : Nat} (a : FixedBytes n) : FixedBytes.setBytes n a.bytes = a := by
  apply FixedBytes.ext
  simp [FixedBytes.setBytes, a.length_eq]

@[simp] theorem hexToHash_hex (h : Hash) : hexToHash h.hex = h := by
  have he : (encode h.bytes).length % 2 = 0 := by rw [length_encode]; omega
  have hd : fromHex h.hex = h.bytes := by
    simp only [fromHex, Hash.hex, encodeToString]
    simp [has0xPrefix, he, decode_encode]
  rw [hexToHash, hd, setBytes_bytes]

theorem hex_injective : Function.Injective Hash.hex :=
  Function.LeftInverse.injective hexToHash_hex

end DataAvailability.Codec
